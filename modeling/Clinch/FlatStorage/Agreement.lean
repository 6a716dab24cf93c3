import Clinch.FlatStorage.Paired

/-!
# Cell types and rows agree

`cell_type` reads the index, `rows_from` writes the row. They agree on every row that can be shown.
A wide character whose spacer was overwritten is stored as two cells all the same, so that a row
with one may take more cells than it had.

* `Kept.rowsFrom`: the rows that are returned have the types of the stored rows;
* `Op`, `step`, `Reachable`: the storages that the operations lead to;
* **`cellTypesAgree`**: in a run that pushes only rows that can be shown, into a grid that is wide
  enough for every grapheme, cell types and rows agree.
-/

set_option autoImplicit false

namespace Clinch

namespace FlatStorage

/-! ## The rows that are returned -/

/-- `cell_type`. -/
def cellType (s : FlatStorage) (row col : ℕ) : Result (Option CellType) := s.index.cellType row col

namespace Kept

variable {s : FlatStorage} {start : ℕ} {rows : List StoredRow}

/-- The iterator returns the rows from its index on. -/
theorem collect (h : Kept s start rows) {fuel : ℕ} {iter : RowIterator} (htidy : iter.row.Tidy)
    (hlen : iter.row.len = s.columns) (hfuel : rows.length - iter.rowIndex < fuel) :
    ∃ out, iter.collect s fuel = .ok out ∧
      List.Forall₂ (fun row out => Typed s.columns (row.typeAt s.columns) out)
        (rows.drop iter.rowIndex) out := by
  induction fuel generalizing iter with
  | zero => omega
  | succ fuel ih =>
    rw [RowIterator.collect]
    cases hrow : rows[iter.rowIndex]? with
    | none =>
      have hnext : iter.next s = .ok none := by
        rw [RowIterator.next, h.stores.contentOffsetForRow, hrow]
        rfl
      rw [hnext, List.drop_eq_nil_of_le (List.getElem?_eq_none_iff.mp hrow)]
      exact ⟨[], rfl, List.Forall₂.nil⟩
    | some row =>
      obtain ⟨hlt, hget⟩ := List.getElem?_eq_some_iff.mp hrow
      obtain ⟨row', hnext, htyped, htidy'⟩ := next_typed h.stores h.inOrder h.columns_pos hrow
        (h.shows row (List.mem_of_getElem? hrow)) (h.holds.textsAt hrow) htidy hlen
      let next : RowIterator := ⟨iter.rowIndex + 1, row'⟩
      have hnextTidy : next.row.Tidy := htidy'
      have hrest : rows.length - next.rowIndex < fuel := by
        change rows.length - (iter.rowIndex + 1) < fuel
        omega
      obtain ⟨out, hout, hall⟩ := ih hnextTidy htyped.1 hrest
      rw [hnext, ok_bind]
      dsimp only
      rw [hout, List.drop_eq_getElem_cons hlt, hget]
      exact ⟨row' :: out, rfl, List.Forall₂.cons htyped hall⟩

theorem rowsFrom (h : Kept s start rows) (startRow : ℕ) :
    ∃ out, s.rowsFrom startRow = .ok out ∧
      List.Forall₂ (fun row out => Typed s.columns (row.typeAt s.columns) out)
        (rows.drop startRow) out := by
  have htotal : s.totalRows = rows.length := h.stores.length
  refine h.collect (Row.tidy_blank _ _) List.length_replicate ?_
  change rows.length - startRow < s.totalRows - startRow + 1
  omega

end Kept

/-- The storage returns as many rows as there are, each as wide as the grid, and the type of each
of their cells is what `cell_type` says. -/
def CellTypesAgree (s : FlatStorage) : Prop :=
  ∀ startRow, ∃ out, s.rowsFrom startRow = .ok out ∧ out.length = s.totalRows - startRow ∧
    ∀ i row, out[i]? = some row → row.len = s.columns ∧ ∀ col cell, row.inner[col]? = some cell →
      s.cellType (startRow + i) col = .ok (some (CellType.ofCell cell))

theorem Kept.typesAgree {s : FlatStorage} {start : ℕ} {rows : List StoredRow}
    (h : Kept s start rows) : s.CellTypesAgree := by
  intro startRow
  obtain ⟨out, hout, hall⟩ := h.rowsFrom startRow
  have htotal : s.totalRows = rows.length := h.stores.length
  refine ⟨out, hout, ?_, fun i row hrow => ?_⟩
  · rw [← hall.length_eq, List.length_drop, htotal]
  · obtain ⟨hlt, hget⟩ := List.getElem?_eq_some_iff.mp hrow
    have hlt' : i < (rows.drop startRow).length := hall.length_eq ▸ hlt
    obtain ⟨hlen, htypes⟩ := hall.get hlt' hlt
    have hstored : rows[startRow + i]? = some ((rows.drop startRow).get ⟨i, hlt'⟩) := by
      rw [← List.getElem?_drop]
      exact List.getElem?_eq_getElem hlt'
    have hget : out.get ⟨i, hlt⟩ = row := hget
    rw [hget] at hlen htypes
    refine ⟨hlen, fun col cell hcell => ?_⟩
    have hpos : 0 < s.index.columns := h.index_columns ▸ h.columns_pos
    rw [cellType, h.stores.cellType_eq hpos hstored
      (h.shows _ (List.mem_of_getElem? hstored)).narrow_or_wide, htypes col cell hcell,
      StoredRow.typeAt, h.index_columns]

/-! ## Runs -/

/-- The operations on the storage. -/
inductive Op where
  | pushRows (rows : List Row)
  | pushRowsWithoutTruncation (rows : List Row)
  | applyMaxRows
  | popRows (count : ℕ)
  | truncateRowsFront (count : ℕ)
  | clear
  | setColumns (newColumns : ℕ)
  | setMaxRows (maxRows : Option ℕ)

/-- The storage after an operation. -/
def step (s : FlatStorage) : Op → Result FlatStorage
  | .pushRows rows => s.pushRows rows
  | .pushRowsWithoutTruncation rows => s.pushRowsInternal rows
  | .applyMaxRows => .ok s.applyMaxRows
  | .popRows count => do return (← s.popRows count).1
  | .truncateRowsFront count => .ok (s.truncateRowsFront count)
  | .clear => .ok s.clear
  | .setColumns newColumns => s.setColumns newColumns
  | .setMaxRows maxRows => .ok (s.setMaxRows maxRows)

/-- The storages that operations lead to, each of which is allowed in the storage before it. -/
inductive Reachable (allowed : FlatStorage → Op → Prop) : FlatStorage → Prop
  | new {columns : ℕ} (maxRows : Option ℕ) (h : 0 < columns) :
      Reachable allowed (FlatStorage.new columns maxRows)
  | step {s s' : FlatStorage} {op : Op} (h : Reachable allowed s) (hop : allowed s op)
      (hok : s.step op = .ok s') : Reachable allowed s'

/-- The rows that are pushed can be shown, and a new grid is wide enough for every grapheme. -/
def Op.Shows (s : FlatStorage) : Op → Prop
  | .pushRows rows | .pushRowsWithoutTruncation rows =>
    RowsShow ⟨s, s.fgColorMap.tail, s.bgAndStyleMap.tail⟩ rows
  | .setColumns newColumns =>
    0 < newColumns ∧ ∀ row infos, s.index.graphemeInfosForRow row = some infos →
      ∀ info ∈ infos, info.cellWidth ≤ newColumns
  | _ => True

theorem Kept.pushRowsInternal {s s' : FlatStorage} {start : ℕ} {stored : List StoredRow}
    {rows : List Row} (h : Kept s start stored)
    (hrows : RowsShow ⟨s, s.fgColorMap.tail, s.bgAndStyleMap.tail⟩ rows)
    (hok : s.pushRowsInternal rows = .ok s') : ∃ stored', Kept s' start stored' := by
  obtain ⟨p, hp, e⟩ := bind_eq_ok hok
  cases e
  have h' : Kept (⟨s, s.fgColorMap.tail, s.bgAndStyleMap.tail⟩ : RowsPush).storage start stored := h
  exact h'.pushRows hrows hp

/-- One step keeps the agreement of index and content. -/
theorem Kept.step {s s' : FlatStorage} {op : Op} {start : ℕ} {rows : List StoredRow}
    (h : Kept s start rows) (hop : op.Shows s) (hok : s.step op = .ok s') :
    ∃ start' rows', Kept s' start' rows' := by
  cases op with
  | pushRows new =>
    obtain ⟨s₁, hs₁, e⟩ := bind_eq_ok hok
    cases e
    obtain ⟨rows', h'⟩ := h.pushRowsInternal hop hs₁
    exact h'.applyMaxRows
  | pushRowsWithoutTruncation new =>
    exact ⟨start, h.pushRowsInternal hop hok⟩
  | applyMaxRows =>
    cases hok
    exact h.applyMaxRows
  | popRows count =>
    obtain ⟨⟨s₁, popped⟩, hs₁, e⟩ := bind_eq_ok hok
    cases e
    obtain ⟨out, -, e⟩ := bind_eq_ok hs₁
    cases e
    exact ⟨start, _, h.truncate _⟩
  | truncateRowsFront count =>
    cases hok
    exact h.truncateRowsFront count
  | clear =>
    cases hok
    exact ⟨start, _, h.truncate 0⟩
  | setColumns newColumns =>
    obtain ⟨hpos, hwide⟩ := hop
    have hnone : NoneWider newColumns (streamOf rows) := by
      intro info hinfo
      obtain ⟨row, hrow, hmem⟩ := List.mem_flatMap.mp hinfo
      obtain ⟨i, hi⟩ := List.mem_iff_getElem?.mp hrow
      refine hwide i row.infos (by rw [h.stores.graphemeInfosForRow, hi]; rfl) info ?_
      rw [StoredRow.stream, List.mem_append] at hmem
      rcases hmem with hmem | hmem
      · simpa using hmem
      · split at hmem <;> simp at hmem
    exact ⟨start, h.setColumns hpos hnone hok⟩
  | setMaxRows maxRows =>
    cases hok
    exact h.setMaxRows maxRows

theorem Reachable.kept {s : FlatStorage} (h : Reachable (fun s op => op.Shows s) s) :
    ∃ start rows, Kept s start rows := by
  induction h with
  | new maxRows h => exact ⟨0, [], kept_new maxRows h⟩
  | step _ hop hok ih =>
    obtain ⟨start, rows, h⟩ := ih
    exact h.step hop hok

/-- **Cell types and rows agree** in every storage that is reached by pushing rows that can be
shown. -/
theorem cellTypesAgree {s : FlatStorage} (h : Reachable (fun s op => op.Shows s) s) :
    s.CellTypesAgree := by
  obtain ⟨start, rows, h⟩ := h.kept
  exact h.typesAgree

/-- The first cell of a wide character. -/
def wideCell : Cell := { Cell.default with c := '漢', flags := Flags.ofBits [.wideChar] }

/-- Its second cell. -/
def spacerCell : Cell := { Cell.default with flags := Flags.ofBits [.wideCharSpacer] }

/-- The last cell of a row from which a wide character had to wrap. -/
def leadingCell : Cell :=
  { Cell.default with flags := Flags.ofBits [.leadingWideCharSpacer, .wrapline] }

/-- A row with paired cells, in a grid of three columns. -/
theorem cellTypesAgree_wide :
    ∃ s, (FlatStorage.new 3 none).step (.pushRows [⟨[wideCell, spacerCell, leadingCell], 3⟩]) =
      .ok s ∧ s.CellTypesAgree := by
  have hshows : Op.Shows (FlatStorage.new 3 none)
      (.pushRows [⟨[wideCell, spacerCell, leadingCell], 3⟩]) := by
    refine ⟨⟨by decide, fun q hq => ?_⟩, fun _ _ => trivial⟩
    obtain rfl := Except.ok.inj hq
    decide
  have hpos : 0 < 3 := by decide
  exact ⟨_, rfl, cellTypesAgree (Reachable.step (Reachable.new none hpos) hshows rfl)⟩

/-- In a row of five columns the spacer of the first wide character was deleted, and the second one
was written behind a blank. With the wide character that had to wrap, the last column is both the
second cell of a wide character and a leading spacer, and `cell_type` and the row differ. -/
theorem cutRow_disagrees :
    ¬ ∀ s : FlatStorage, Reachable (fun _ _ => True) s → s.CellTypesAgree := by
  intro hall
  have hrun : ∃ s row cell, (FlatStorage.new 5 none).step
      (.pushRows [⟨[wideCell, Cell.default, wideCell, spacerCell, leadingCell], 5⟩]) = .ok s ∧
      s.rowsFrom 0 = .ok [row] ∧ row.inner[4]? = some cell ∧
      CellType.ofCell cell = .wideCharSpacer ∧
      s.cellType 0 4 = .ok (some .leadingWideCharSpacer) :=
    ⟨_, _, _, rfl, rfl, rfl, rfl, rfl⟩
  obtain ⟨s, row, cell, hok, hrows, hcell, htype, hfast⟩ := hrun
  obtain ⟨out, hout, -, hagree⟩ :=
    hall s (Reachable.step (Reachable.new none (Nat.succ_pos 4)) trivial hok) 0
  cases hrows.symm.trans hout
  have h := (hagree 0 row rfl).2 4 cell hcell
  rw [htype, Nat.zero_add, hfast] at h
  exact nomatch h

end FlatStorage

end Clinch
