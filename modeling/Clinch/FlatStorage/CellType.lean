import Clinch.FlatStorage.Layout
import Clinch.Grid.Cell

/-!
# The type of a cell from the index

`Index::cell_type` tells what a cell is to a double-width character without materialising its row.
Inside a run it is the parity of the column.

* `Index.cellType`: the fast path;
* `typeAt`: the type of a cell, walking the graphemes of the row one by one;
* **`Stores.cellType_eq`**: the fast path computes it.
-/

set_option autoImplicit false

namespace Clinch

namespace FlatStorage

/-- `GraphemeRun::cell_type_at_offset`. -/
def GraphemeRun.cellTypeAtOffset (run : GraphemeRun) (offset : ℕ) : Result (Option CellType) :=
  if run.info.cellWidth = 1 then .ok (some .regularChar)
  else if offset < run.cols then
    .ok (some (if offset % 2 = 0 then .wideChar else .wideCharSpacer))
  else .error .assert

/-- The loop of `cell_type` over the runs of a row. -/
def cellTypeInRuns (col : ℕ) : List GraphemeRun → ℕ → Result (Option CellType)
  | [], _ => .ok (some .regularChar)
  | run :: runs, startCol =>
    let runEndCol := startCol + run.cols
    if col < runEndCol then run.cellTypeAtOffset (col - startCol)
    else cellTypeInRuns col runs runEndCol

/-- Whether the cell is the leading spacer at the end of its row. -/
def Index.isLeadingSpacer (index : Index) (entry : Entry) (col : ℕ) : Result Bool :=
  if entry.endsWithLeadingWideCharSpacer then do
    let last ← checkedSub index.columns 1
    return decide (col = last)
  else return false

/-- `Index::cell_type`. -/
def Index.cellType (index : Index) (row col : ℕ) : Result (Option CellType) :=
  match index.getEntry row with
  | none => .ok none
  | some entry => do
    let leading ← index.isLeadingSpacer entry col
    if leading then return some .leadingWideCharSpacer
    match entry.graphemeSizing with
    | .uniform run =>
      if run.cols ≤ col then return some .regularChar
      run.cellTypeAtOffset col
    | .nonUniform =>
      match index.graphemeSizing.get entry.contentOffset with
      | some runs => cellTypeInRuns col runs 0
      | none => return none
    | .emptyRow => return some .regularChar

/-! ## Walking the graphemes -/

/-- The type of the cell of a grapheme at an offset in it. -/
def typeInGrapheme (info : GraphemeInfo) (offset : ℕ) : CellType :=
  if info.cellWidth = 1 then .regularChar
  else if offset % 2 = 0 then .wideChar else .wideCharSpacer

/-- The type of the cell at a column of a row with these graphemes. -/
def typeAt : List GraphemeInfo → ℕ → CellType
  | [], _ => .regularChar
  | info :: infos, col =>
    if col < info.cellWidth then typeInGrapheme info col else typeAt infos (col - info.cellWidth)

/-- A grapheme takes one cell or two. -/
def NarrowOrWide (info : GraphemeInfo) : Prop := info.cellWidth = 1 ∨ info.cellWidth = 2

instance (info : GraphemeInfo) : Decidable (NarrowOrWide info) := inferInstanceAs (Decidable (_ ∨ _))

theorem NarrowOrWide.pos {info : GraphemeInfo} (h : NarrowOrWide info) : 0 < info.cellWidth := by
  rcases h with h | h <;> omega

theorem typeAt_append (a b : List GraphemeInfo) (col : ℕ) :
    typeAt (a ++ b) col = if col < cellsOf a then typeAt a col else typeAt b (col - cellsOf a) := by
  induction a generalizing col with
  | nil => rfl
  | cons info a ih =>
    rw [List.cons_append, typeAt, ih, cellsOf_cons, typeAt, Nat.sub_sub]
    by_cases hcol : col < info.cellWidth
    · rw [if_pos hcol, if_pos (by omega), if_pos hcol]
    · rw [if_neg hcol, if_neg hcol]
      exact if_congr (by omega) rfl rfl

theorem typeAt_of_le {infos : List GraphemeInfo} {col : ℕ} (h : cellsOf infos ≤ col) :
    typeAt infos col = .regularChar := by
  have := typeAt_append infos [] col
  rwa [List.append_nil, if_neg (by omega)] at this

/-- Two columns further in a wide run the type is the same. -/
theorem typeInGrapheme_sub {info : GraphemeInfo} (h : NarrowOrWide info) {col : ℕ}
    (hcol : info.cellWidth ≤ col) :
    typeInGrapheme info (col - info.cellWidth) = typeInGrapheme info col := by
  rw [typeInGrapheme, typeInGrapheme]
  rcases h with h | h
  · rw [if_pos h, if_pos h]
  · have hne : info.cellWidth ≠ 1 := by omega
    have hmod : (col - info.cellWidth) % 2 = col % 2 := by omega
    rw [if_neg hne, if_neg hne, hmod]

/-- Inside a run the type is that of its grapheme at the offset in the run. -/
theorem typeAt_replicate {info : GraphemeInfo} (h : NarrowOrWide info) (rest : List GraphemeInfo)
    (n col : ℕ) :
    typeAt (List.replicate n info ++ rest) col =
      if col < n * info.cellWidth then typeInGrapheme info col
      else typeAt rest (col - n * info.cellWidth) := by
  induction n generalizing col with
  | zero => simp
  | succ n ih =>
    rw [List.replicate_succ, List.cons_append, typeAt, ih, Nat.succ_mul]
    by_cases hcol : col < info.cellWidth
    · rw [if_pos hcol, if_pos (by omega)]
    · rw [if_neg hcol, typeInGrapheme_sub h (not_lt.mp hcol), Nat.sub_sub,
        Nat.add_comm info.cellWidth]
      exact if_congr (by omega) rfl rfl

theorem typeAt_run (run : GraphemeRun) (h : NarrowOrWide run.info) (rest : List GraphemeInfo)
    (col : ℕ) :
    typeAt (run.infos ++ rest) col =
      if col < run.cols then typeInGrapheme run.info col else typeAt rest (col - run.cols) :=
  typeAt_replicate h rest run.count col

theorem cellTypeAtOffset_ok {run : GraphemeRun} {offset : ℕ} (h : offset < run.cols) :
    run.cellTypeAtOffset offset = .ok (some (typeInGrapheme run.info offset)) := by
  rw [GraphemeRun.cellTypeAtOffset, typeInGrapheme]
  split
  · rfl
  · rfl

theorem cellTypeInRuns_ok {runs : List GraphemeRun} (h : ∀ info ∈ runInfos runs, NarrowOrWide info)
    {col startCol : ℕ} (hle : startCol ≤ col) :
    cellTypeInRuns col runs startCol = .ok (some (typeAt (runInfos runs) (col - startCol))) := by
  induction runs generalizing startCol with
  | nil => rfl
  | cons run runs ih =>
    have hrun : NarrowOrWide run.info :=
      h run.info (by rw [runInfos_cons]; exact List.mem_append_left _ (mem_infos.mpr rfl))
    have hruns : ∀ info ∈ runInfos runs, NarrowOrWide info := fun info hi =>
      h info (by rw [runInfos_cons]; exact List.mem_append_right _ hi)
    rw [cellTypeInRuns, runInfos_cons, typeAt_run run hrun]
    by_cases hcol : col < startCol + run.cols
    · have hoffset : col - startCol < run.cols := by omega
      rw [if_pos hcol, if_pos hoffset, cellTypeAtOffset_ok hoffset]
    · rw [if_neg hcol, if_neg (by omega), ih hruns (by omega), Nat.sub_sub]

theorem isLeadingSpacer_ok {index : Index} (h : 0 < index.columns) (row : StoredRow)
    (offset col : ℕ) :
    index.isLeadingSpacer (row.entry offset) col =
      .ok (decide (row.leading = true ∧ col = index.columns - 1)) := by
  rw [Index.isLeadingSpacer]
  change (if row.leading = true then _ else _) = _
  by_cases hl : row.leading = true
  · rw [if_pos hl, checkedSub_ok h, ok_bind]
    simp [hl]
    rfl
  · rw [if_neg hl]
    simp [hl]
    rfl

/-- **The fast path walks the graphemes of the row.** -/
theorem Index.Stores.cellType_eq {index : Index} {start : ℕ} {rows : List StoredRow}
    (h : index.Stores start rows) (hcolumns : 0 < index.columns) {i : ℕ} {row : StoredRow}
    (hi : rows[i]? = some row) (hrow : ∀ info ∈ row.infos, NarrowOrWide info) (col : ℕ) :
    index.cellType i col =
      .ok (some (if row.leading = true ∧ col = index.columns - 1 then .leadingWideCharSpacer
        else typeAt row.infos col)) := by
  have hruns := h.runsOf hi
  rw [Index.cellType, h.getEntry, hi, Option.map_some]
  dsimp only
  rw [isLeadingSpacer_ok hcolumns]
  by_cases hlead : row.leading = true ∧ col = index.columns - 1
  · rw [decide_eq_true hlead, ok_bind, if_pos rfl, if_pos hlead]
    rfl
  · rw [decide_eq_false hlead, ok_bind, if_neg Bool.false_ne_true, if_neg hlead]
    obtain ⟨runs, newline, leading⟩ := row
    simp only [StoredRow.entry] at hruns ⊢
    rcases runs with _ | ⟨run, _ | ⟨run', runs⟩⟩
    · rfl
    · -- one run
      simp only [EntryBuilder.sizing]
      have hinfo : NarrowOrWide run.info :=
        hrow run.info (by simp [StoredRow.infos, runInfos, mem_infos])
      have htype := typeAt_run run hinfo [] col
      rw [List.append_nil] at htype
      have hinfos : (⟨[run], newline, leading⟩ : StoredRow).infos = run.infos := by
        simp [StoredRow.infos, runInfos]
      rw [hinfos, htype]
      by_cases hcol : run.cols ≤ col
      · rw [if_pos hcol, if_neg (by omega)]
        rfl
      · rw [if_neg hcol, if_pos (by omega), cellTypeAtOffset_ok (by omega)]
    · -- more runs
      simp only [EntryBuilder.sizing]
      simp only [Index.runsOf, EntryBuilder.sizing] at hruns
      rw [hruns]
      exact cellTypeInRuns_ok hrow (Nat.zero_le col)

end FlatStorage

end Clinch
