import Clinch.FlatStorage.Layout
import Clinch.Grid.DisplayedOutput
import Clinch.RangeSearch

/-!
# Points and content offsets

`content_offset_at_point` and `content_offset_to_point` walk the runs of a row, one counting cells
and the other bytes. Both find the grapheme that a cell or a byte belongs to. The second asserts
that an empty row is asked for its own offset only, so it panics past the end of the content when
the last row is empty.

* `walkCols`, `walkBytes`, `fitPrefix`: the walks, and what they compute;
* `Index.Reachable`, `Reachable.stores`: the indices the operations lead to;
* `Index.StartsAt`, `Index.TotalLookup`: the two functions are a total lookup;
* **`totalLookup_iff`**: they are if and only if the last row is not empty.
-/

set_option autoImplicit false

namespace Clinch

namespace FlatStorage

/-! ## The two functions -/

/-- `ContentOffsetToPointError`. -/
inductive ContentOffsetToPointError where
  | rowOutOfBounds (row maxRow : ℕ)
  | missingGraphemeSizing (contentOffset : ℕ)
  | nonZeroColumnInEmptyRow (row col : ℕ)
  | columnExceedsContent (row col : ℕ)
  deriving DecidableEq

/-- `PointFromContentOffsetError`. -/
inductive PointFromContentOffsetError where
  | offsetBeforeFirstRow (offset firstRowOffset : ℕ)
  | rowOutOfBounds (row : ℕ)
  | missingGraphemeSizing (contentOffset : ℕ)
  | offsetDoesNotMapToCellInRow (row offset : ℕ)
  deriving DecidableEq

/-- Division, which panics for a zero divisor. -/
def checkedDiv (a b : ℕ) : Result ℕ := if b = 0 then .error .overflow else .ok (a / b)

/-- The loop of `content_offset_at_point`: the offset and the columns that remain. -/
def walkCols : List GraphemeRun → ℕ → ℕ → Result (ℕ × ℕ)
  | [], offset, colsRemaining => .ok (offset, colsRemaining)
  | run :: runs, offset, colsRemaining =>
    if colsRemaining = 0 then .ok (offset, colsRemaining)
    else do
      let colsFromRun := min run.cols colsRemaining
      let graphemesFromRun ← checkedDiv colsFromRun run.info.cellWidth
      walkCols runs (offset + graphemesFromRun * run.info.utf8Bytes) (colsRemaining - colsFromRun)

/-- `Index::content_offset_at_point`. -/
def Index.contentOffsetAtPoint (index : Index) (point : Point) :
    Result (Except ContentOffsetToPointError ℕ) :=
  match index.rows[point.row]? with
  | none => .ok (.error (.rowOutOfBounds point.row (index.rows.length - 1)))
  | some entry =>
    if entry.graphemeSizing = .emptyRow then
      if point.col = 0 then .ok (.ok entry.contentOffset)
      else .ok (.error (.nonZeroColumnInEmptyRow point.row point.col))
    else
      match index.runsOf entry with
      | none => .ok (.error (.missingGraphemeSizing entry.contentOffset))
      | some runs => do
        let (offset, colsRemaining) ← walkCols runs entry.contentOffset point.col
        return if colsRemaining = 0 then .ok offset
          else .error (.columnExceedsContent point.row point.col)

/-- The loop of `content_offset_to_point`: the column, `none` past the end of the runs. -/
def walkBytes : List GraphemeRun → ℕ → ℕ → Result (Option ℕ)
  | [], _, _ => .ok none
  | run :: runs, column, remainingOffset => do
    let graphemesInRun ← checkedDiv run.cols run.info.cellWidth
    let contentInRun := graphemesInRun * run.info.utf8Bytes
    let remainingOffsetInRun := min remainingOffset contentInRun
    let remainingGraphemesInRun ← checkedDiv remainingOffsetInRun run.info.utf8Bytes
    let column := column + remainingGraphemesInRun * run.info.cellWidth
    if remainingOffset - remainingOffsetInRun = 0 then .ok (some column)
    else walkBytes runs column (remainingOffset - remainingOffsetInRun)

/-- `self.rows.partition_point(|entry| entry.content_offset <= offset)`. -/
def Index.partitionPoint (index : Index) (offset : ℕ) : ℕ :=
  (index.rows.takeWhile fun entry => entry.contentOffset ≤ offset).length

/-- `Index::content_offset_to_point`. -/
def Index.contentOffsetToPoint (index : Index) (offset : ℕ) :
    Result (Except PointFromContentOffsetError Point) :=
  match index.partitionPoint offset with
  | 0 => .ok (.error (.offsetBeforeFirstRow offset ((index.contentOffsetForRow 0).getD 0)))
  | row + 1 =>
    match index.getEntry row with
    | none => .ok (.error (.rowOutOfBounds row))
    | some entry =>
      if entry.graphemeSizing = .emptyRow then
        if offset = entry.contentOffset then .ok (.ok ⟨row, 0⟩) else .error .assert
      else
        match index.runsOf entry with
        | none => .ok (.error (.missingGraphemeSizing entry.contentOffset))
        | some runs => do
          match ← walkBytes runs 0 (offset - entry.contentOffset) with
          | some column => return .ok ⟨row, column⟩
          | none => return .error (.offsetDoesNotMapToCellInRow row offset)

/-! ## What the walks compute -/

/-- What the graphemes that fit into a length are worth: `size` is what a grapheme takes of the
length, `value` what it is worth. -/
def fitPrefix (size value : GraphemeInfo → ℕ) : List GraphemeInfo → ℕ → ℕ
  | [], _ => 0
  | info :: infos, c =>
    if size info ≤ c then value info + fitPrefix size value infos (c - size info) else 0

/-- The bytes of the graphemes before a column. -/
def bytesBefore (infos : List GraphemeInfo) (col : ℕ) : ℕ :=
  fitPrefix GraphemeInfo.cellWidth GraphemeInfo.utf8Bytes infos col

/-- The cells of the graphemes before a byte. -/
def cellsBefore (infos : List GraphemeInfo) (offset : ℕ) : ℕ :=
  fitPrefix GraphemeInfo.utf8Bytes GraphemeInfo.cellWidth infos offset

section FitPrefix

variable {size value : GraphemeInfo → ℕ} {infos rest : List GraphemeInfo}

theorem fitPrefix_zero (h : ∀ info ∈ infos, 0 < size info) : fitPrefix size value infos 0 = 0 := by
  cases infos with
  | nil => rfl
  | cons info infos =>
    have := h info List.mem_cons_self
    rw [fitPrefix, if_neg (by omega)]

theorem fitPrefix_le (c : ℕ) : fitPrefix size value infos c ≤ (infos.map value).sum := by
  induction infos generalizing c with
  | nil => exact le_rfl
  | cons info infos ih =>
    have := ih (c - size info)
    rw [fitPrefix, List.map_cons, List.sum_cons]
    split
    · omega
    · exact Nat.zero_le _

theorem fitPrefix_mono {c c' : ℕ} (h : c ≤ c') :
    fitPrefix size value infos c ≤ fitPrefix size value infos c' := by
  induction infos generalizing c c' with
  | nil => exact le_rfl
  | cons info infos ih =>
    rw [fitPrefix, fitPrefix]
    split
    · rw [if_pos (by omega)]
      have := ih (Nat.sub_le_sub_right h (size info))
      omega
    · exact Nat.zero_le _

/-- A run is walked with one division. -/
theorem fitPrefix_replicate {info : GraphemeInfo} (hs : 0 < size info) (n c : ℕ) :
    fitPrefix size value (List.replicate n info ++ rest) c =
      if n * size info ≤ c then n * value info + fitPrefix size value rest (c - n * size info)
      else c / size info * value info := by
  induction n generalizing c with
  | zero => simp
  | succ n ih =>
    rw [List.replicate_succ, List.cons_append, fitPrefix, ih, Nat.succ_mul]
    by_cases hc : size info ≤ c
    · rw [if_pos hc, Nat.div_eq_sub_div hs hc, Nat.succ_mul, Nat.succ_mul]
      by_cases hn : n * size info ≤ c - size info
      · rw [if_pos hn, if_pos (by omega), Nat.sub_sub, Nat.add_comm (size info)]
        omega
      · rw [if_neg hn, if_neg (by omega)]
        omega
    · rw [if_neg hc, if_neg (by omega), Nat.div_eq_of_lt (by omega), Nat.zero_mul]

/-- Inside a grapheme the walk has come to its start. -/
theorem fitPrefix_inside {before after : List GraphemeInfo} {info : GraphemeInfo} {c : ℕ}
    (hle : (before.map size).sum ≤ c) (hlt : c < (before.map size).sum + size info) :
    fitPrefix size value (before ++ info :: after) c = (before.map value).sum := by
  induction before generalizing c with
  | nil =>
    rw [List.map_nil, List.sum_nil] at hlt
    rw [List.nil_append, fitPrefix, if_neg (by omega), List.map_nil, List.sum_nil]
  | cons i before ih =>
    rw [List.map_cons, List.sum_cons] at hle hlt
    rw [List.cons_append, fitPrefix, if_pos (by omega), ih (by omega) (by omega), List.map_cons,
      List.sum_cons]

end FitPrefix

theorem checkedDiv_ok {a b : ℕ} (h : 0 < b) : checkedDiv a b = .ok (a / b) := if_neg h.ne'

theorem walkCols_eq {runs : List GraphemeRun}
    (h : ∀ info ∈ runInfos runs, 0 < info.cellWidth) (offset c : ℕ) :
    walkCols runs offset c =
      .ok (offset + bytesBefore (runInfos runs) c, c - cellsOf (runInfos runs)) := by
  induction runs generalizing offset c with
  | nil => rfl
  | cons run runs ih =>
    have hw : 0 < run.info.cellWidth :=
      h run.info (by rw [runInfos_cons]; exact List.mem_append_left _ (mem_infos.mpr rfl))
    have hrest : ∀ info ∈ runInfos runs, 0 < info.cellWidth := fun info hi =>
      h info (by rw [runInfos_cons]; exact List.mem_append_right _ hi)
    rw [walkCols]
    split
    · rename_i hc
      rw [hc, bytesBefore, fitPrefix_zero h, Nat.add_zero, Nat.zero_sub]
    · dsimp only
      rw [checkedDiv_ok hw, ok_bind, ih hrest, runInfos_cons, cellsOf_append, cellsOf_infos,
        bytesBefore, bytesBefore, GraphemeRun.infos, fitPrefix_replicate hw, GraphemeRun.cols]
      split
      · rename_i hle
        rw [Nat.min_eq_left hle, Nat.mul_div_cancel _ hw, Nat.add_assoc, Nat.sub_sub]
      · rename_i hle
        rw [Nat.min_eq_right (by omega), Nat.sub_self, fitPrefix_zero hrest, Nat.add_zero,
          Nat.zero_sub, Nat.sub_eq_zero_of_le (by omega)]

theorem walkBytes_eq {runs : List GraphemeRun}
    (h : ∀ info ∈ runInfos runs, 0 < info.cellWidth) (column r : ℕ) (hr : runs ≠ [] ∨ 0 < r) :
    walkBytes runs column r =
      .ok (if r ≤ bytesOf (runInfos runs) then some (column + cellsBefore (runInfos runs) r)
        else none) := by
  induction runs generalizing column r with
  | nil =>
    have hr : 0 < r := hr.resolve_left fun hne => hne rfl
    rw [walkBytes, runInfos_nil, bytesOf_nil, if_neg (by omega)]
  | cons run runs ih =>
    have hw : 0 < run.info.cellWidth :=
      h run.info (by rw [runInfos_cons]; exact List.mem_append_left _ (mem_infos.mpr rfl))
    have hrest : ∀ info ∈ runInfos runs, 0 < info.cellWidth := fun info hi =>
      h info (by rw [runInfos_cons]; exact List.mem_append_right _ hi)
    have hb := run.info.utf8Bytes_pos
    rw [walkBytes, checkedDiv_ok hw, ok_bind]
    dsimp only
    rw [checkedDiv_ok hb, ok_bind, GraphemeRun.cols,
      Nat.mul_div_cancel _ hw, runInfos_cons, bytesOf_append, bytesOf_infos, cellsBefore,
      GraphemeRun.infos, fitPrefix_replicate hb, GraphemeRun.bytes]
    by_cases hle : run.count * run.info.utf8Bytes ≤ r
    · rw [Nat.min_eq_right hle, if_pos hle, Nat.mul_div_cancel _ hb]
      split
      · rename_i h0
        rw [h0, fitPrefix_zero fun info _ => info.utf8Bytes_pos, if_pos (by omega), Nat.add_zero]
      · rw [ih hrest _ _ (Or.inr (by omega)), cellsBefore, Nat.add_assoc]
        congr 1
        exact if_congr (by omega) rfl rfl
    · rw [Nat.min_eq_left (by omega), if_neg hle, Nat.sub_self, if_pos rfl, if_pos (by omega)]

/-! ## The two functions on the stored rows -/

theorem entry_emptyRow {row : StoredRow} {offset : ℕ} :
    (row.entry offset).graphemeSizing = .emptyRow ↔ row.runs = [] := by
  obtain ⟨runs, newline, leading⟩ := row
  match runs with
  | [] => simp [StoredRow.entry, EntryBuilder.sizing]
  | [_] => simp [StoredRow.entry, EntryBuilder.sizing]
  | _ :: _ :: _ => simp [StoredRow.entry, EntryBuilder.sizing]

@[simp] theorem entry_contentOffset (row : StoredRow) (offset : ℕ) :
    (row.entry offset).contentOffset = offset := rfl

/-- The offset at which a row begins. -/
def rowStart (start : ℕ) (rows : List StoredRow) (i : ℕ) : ℕ := start + totalBytes (rows.take i)

theorem rowStart_succ {start i : ℕ} {rows : List StoredRow} {row : StoredRow}
    (h : rows[i]? = some row) :
    rowStart start rows (i + 1) = rowStart start rows i + row.bytes := by
  rw [rowStart, rowStart, List.take_add_one, h, Option.toList_some, totalBytes_append,
    totalBytes_cons, totalBytes_nil, Nat.add_zero, Nat.add_assoc]

theorem rowStart_mono (start : ℕ) (rows : List StoredRow) {i j : ℕ} (h : i ≤ j) :
    rowStart start rows i ≤ rowStart start rows j := by
  have hle := totalBytes_take_le (rows.take j) i
  rw [List.take_take, Nat.min_eq_left h] at hle
  exact Nat.add_le_add_left hle _

theorem rowStart_length {start i : ℕ} {rows : List StoredRow} (h : rows.length ≤ i) :
    rowStart start rows i = start + totalBytes rows := by
  rw [rowStart, List.take_of_length_le h]

namespace Index.Stores

variable {index : Index} {start : ℕ} {rows : List StoredRow}

theorem getElem? (h : index.Stores start rows) (i : ℕ) :
    index.rows[i]? = (rows[i]?).map fun row => row.entry (rowStart start rows i) := h.getEntry i

theorem runsOf_rowStart (h : index.Stores start rows) {i : ℕ} {row : StoredRow}
    (hi : rows[i]? = some row) :
    index.runsOf (row.entry (rowStart start rows i)) = some row.runs := h.runsOf hi

/-- A point in a row with that many cells has an offset. -/
theorem contentOffsetAtPoint_ok (h : index.Stores start rows) {point : Point} {row : StoredRow}
    (hrow : rows[point.row]? = some row) (hcol : point.col ≤ cellsOf row.infos) :
    index.contentOffsetAtPoint point =
      .ok (.ok (rowStart start rows point.row + bytesBefore row.infos point.col)) := by
  simp only [Index.contentOffsetAtPoint, h.getElem?, hrow, Option.map_some]
  by_cases hruns : row.runs = []
  · have hinfos : row.infos = [] := by rw [StoredRow.infos, hruns, runInfos_nil]
    rw [hinfos, cellsOf_nil, Nat.le_zero] at hcol
    rw [if_pos (entry_emptyRow.mpr hruns), if_pos hcol, hinfos]
    rfl
  · rw [if_neg (mt entry_emptyRow.mp hruns), h.runsOf_rowStart hrow]
    dsimp only
    rw [walkCols_eq (h.width_pos row (List.mem_of_getElem? hrow)), ok_bind]
    exact congrArg _ (if_pos (Nat.sub_eq_zero_of_le hcol))

/-- Any other point has none. -/
theorem contentOffsetAtPoint_error (h : index.Stores start rows) {point : Point}
    (hout : ∀ row, rows[point.row]? = some row → cellsOf row.infos < point.col) :
    ∃ e, index.contentOffsetAtPoint point = .ok (.error e) := by
  simp only [Index.contentOffsetAtPoint, h.getElem?]
  cases hrow : rows[point.row]? with
  | none => exact ⟨_, rfl⟩
  | some row =>
    have hcol := hout row hrow
    simp only [Option.map_some]
    by_cases hruns : row.runs = []
    · rw [if_pos (entry_emptyRow.mpr hruns), if_neg (by omega)]
      exact ⟨_, rfl⟩
    · rw [if_neg (mt entry_emptyRow.mp hruns), h.runsOf_rowStart hrow]
      dsimp only
      rw [walkCols_eq (h.width_pos row (List.mem_of_getElem? hrow)), ok_bind]
      dsimp only
      rw [StoredRow.infos] at hcol
      rw [if_neg (by omega)]
      exact ⟨_, rfl⟩

/-- The partition point is behind the rows that begin at or before the offset. -/
theorem partitionPoint_spec (h : index.Stores start rows) (offset : ℕ) :
    index.partitionPoint offset ≤ rows.length ∧
      (∀ i < index.partitionPoint offset, rowStart start rows i ≤ offset) ∧
      (index.partitionPoint offset < rows.length →
        offset < rowStart start rows (index.partitionPoint offset)) := by
  obtain ⟨hlen, hbefore, hafter⟩ := RangeSearch.takeWhile_spec
    (fun entry : Entry => decide (entry.contentOffset ≤ offset)) index.rows
  rw [h.length] at hlen
  refine ⟨hlen, fun i hi => ?_, fun hlt => ?_⟩
  · obtain ⟨row, hrow⟩ : ∃ row, rows[i]? = some row :=
      ⟨_, List.getElem?_eq_getElem (hi.trans_le hlen)⟩
    exact of_decide_eq_true
      (hbefore i hi (row.entry (rowStart start rows i)) (by rw [h.getElem?, hrow]; rfl))
  · obtain ⟨row, hrow⟩ : ∃ row, rows[index.partitionPoint offset]? = some row :=
      ⟨_, List.getElem?_eq_getElem hlt⟩
    have hentry := h.getElem? (index.partitionPoint offset)
    rw [hrow] at hentry
    exact not_le.mp (of_decide_eq_false (hafter _ hentry))

/-- The row found is the last that begins at or before the offset. -/
theorem partitionPoint_eq (h : index.Stores start rows) {offset i : ℕ} (hi : i < rows.length)
    (hle : rowStart start rows i ≤ offset)
    (hlt : i + 1 < rows.length → offset < rowStart start rows (i + 1)) :
    index.partitionPoint offset = i + 1 := by
  obtain ⟨hlen, hbefore, hafter⟩ := h.partitionPoint_spec offset
  apply le_antisymm
  · by_contra hgt
    have := hbefore (i + 1) (by omega)
    have := hlt (by omega)
    omega
  · by_contra hgt
    have hmono := rowStart_mono start rows (Nat.le_of_lt_succ (not_le.mp hgt))
    have := hafter (by omega)
    omega

/-- Every offset from the first row on has such a row. -/
theorem exists_row (h : index.Stores start rows) {offset : ℕ} (hrows : rows ≠ [])
    (hoffset : start ≤ offset) :
    ∃ i row, rows[i]? = some row ∧ rowStart start rows i ≤ offset ∧
      (i + 1 < rows.length → offset < rowStart start rows (i + 1)) := by
  obtain ⟨hlen, hbefore, hafter⟩ := h.partitionPoint_spec offset
  have hpos : 0 < rows.length := List.length_pos_of_ne_nil hrows
  cases hp : index.partitionPoint offset with
  | zero =>
    rw [hp] at hafter
    exact absurd hoffset (not_le.mpr (hafter hpos))
  | succ i =>
    rw [hp] at hlen hbefore hafter
    exact ⟨i, _, List.getElem?_eq_getElem hlen, hbefore i (Nat.lt_succ_self i), hafter⟩

/-- What is answered for an offset, by the row it is in. -/
theorem contentOffsetToPoint_eq (h : index.Stores start rows) {offset i : ℕ} {row : StoredRow}
    (hrow : rows[i]? = some row) (hle : rowStart start rows i ≤ offset)
    (hlt : i + 1 < rows.length → offset < rowStart start rows (i + 1)) :
    index.contentOffsetToPoint offset =
      if row.runs = [] then
        if offset = rowStart start rows i then .ok (.ok ⟨i, 0⟩) else .error .assert
      else if offset - rowStart start rows i ≤ bytesOf row.infos then
        .ok (.ok ⟨i, cellsBefore row.infos (offset - rowStart start rows i)⟩)
      else .ok (.error (.offsetDoesNotMapToCellInRow i offset)) := by
  have hi : i < rows.length := (List.getElem?_eq_some_iff.mp hrow).1
  simp only [Index.contentOffsetToPoint, h.partitionPoint_eq hi hle hlt, Index.getEntry,
    h.getElem?, hrow, Option.map_some, entry_emptyRow, entry_contentOffset, h.runsOf_rowStart hrow]
  by_cases hruns : row.runs = []
  · rw [if_pos hruns, if_pos hruns]
    exact if_congr Iff.rfl rfl rfl
  · rw [if_neg hruns, if_neg hruns,
      walkBytes_eq (h.width_pos row (List.mem_of_getElem? hrow)) _ _ (Or.inl hruns), ok_bind,
      Nat.zero_add, StoredRow.infos]
    by_cases hfit : offset - rowStart start rows i ≤ bytesOf (runInfos row.runs)
    · rw [if_pos hfit, if_pos hfit]
      rfl
    · rw [if_neg hfit, if_neg hfit]
      rfl

/-- Before the first row there is nothing. -/
theorem contentOffsetToPoint_before (h : index.Stores start rows) {offset : ℕ}
    (hout : rows = [] ∨ offset < start) :
    ∃ e, index.contentOffsetToPoint offset = .ok (.error e) := by
  have hp : index.partitionPoint offset = 0 := by
    obtain ⟨hlen, hbefore, -⟩ := h.partitionPoint_spec offset
    by_contra hne
    rcases hout with rfl | hout
    · exact hne (Nat.le_zero.mp hlen)
    · have := hbefore 0 (Nat.pos_of_ne_zero hne)
      exact absurd this (not_le.mpr hout)
  rw [Index.contentOffsetToPoint, hp]
  exact ⟨_, rfl⟩

end Index.Stores

/-! ## The lookup -/

/-- The builder of a row that is pushed: graphemes of some width and leading spacers are processed
in any order. -/
inductive EntryBuilder.Built : EntryBuilder → Prop
  | new : Built EntryBuilder.new
  | process {b b' : EntryBuilder} {info : GraphemeInfo} (h : Built b) (hw : 0 < info.cellWidth)
      (hok : b.processGraphemeInfoUnchecked info = .ok b') : Built b'
  | leading {b : EntryBuilder} (h : Built b) : Built b.addLeadingWideCharSpacer

/-- The indices that the operations lead to. -/
inductive Index.Reachable : Index → Prop
  | new (columns : ℕ) : Reachable (Index.new columns)
  | pushRow {index : Index} {b : EntryBuilder} (h : Reachable index) (hb : b.Built)
      (newline : Bool) :
      Reachable ((if newline then b.addTrailingNewline else b).appendToIndex index)
  | truncate {index : Index} (h : Reachable index) (newLen : ℕ) :
      Reachable (index.truncate newLen).1
  | truncateFront {index : Index} (h : Reachable index) (count : ℕ) :
      Reachable (index.truncateFront count).1
  | rebuild {index index' : Index} (h : Reachable index) {columns : ℕ}
      (hok : index.rebuild columns = .ok index') : Reachable index'

theorem EntryBuilder.Built.counts {b : EntryBuilder} (h : b.Built) :
    b.Counts ∧ b.hasTrailingNewline = false := by
  induction h with
  | new => exact ⟨EntryBuilder.Counts.new, rfl⟩
  | process h hw hok ih =>
    exact ⟨ih.1.processGraphemeInfoUnchecked hw hok,
      (EntryBuilder.processGraphemeInfoUnchecked_ok hok).2.2.2.1.trans ih.2⟩
  | leading h ih => exact ⟨ih.1.addLeadingWideCharSpacer, ih.2⟩

/-- Every index that is reached stores some rows. -/
theorem Index.Reachable.stores {index : Index} (h : index.Reachable) :
    ∃ start rows, index.Stores start rows := by
  induction h with
  | new columns => exact ⟨0, [], Index.Stores.new columns 0⟩
  | pushRow h hb newline ih =>
    obtain ⟨start, rows, hs⟩ := ih
    obtain ⟨hcounts, hopen⟩ := hb.counts
    refine ⟨start, _, hs.appendToIndex ?_⟩
    cases newline with
    | true => exact hcounts.addTrailingNewline hopen
    | false => exact hcounts
  | truncate h newLen ih =>
    obtain ⟨start, rows, hs⟩ := ih
    exact ⟨start, _, (hs.truncate newLen).1⟩
  | truncateFront h count ih =>
    obtain ⟨start, rows, hs⟩ := ih
    exact ⟨_, _, (hs.truncateFront count).1⟩
  | rebuild h hok ih =>
    obtain ⟨start, rows, hs⟩ := ih
    obtain ⟨rows', hs', -⟩ := hs.rebuild hok
    exact ⟨start, rows', hs'⟩

/-- `p` is at or before `q` in reading order. -/
def ReadsBefore (p q : Point) : Prop := p.row < q.row ∨ p.row = q.row ∧ p.col ≤ q.col

/-- A grapheme of that size starts at the point, and is stored from the byte `offset` on. -/
def Index.StartsAt (index : Index) (point : Point) (offset : ℕ) (info : GraphemeInfo) : Prop :=
  ∃ entry before after, index.getEntry point.row = some entry ∧
    index.graphemeInfosForRow point.row = some (before ++ info :: after) ∧
    point.col = cellsOf before ∧ offset = entry.contentOffset + bytesOf before

/-- The point is in no row, or further right than the content of its row goes. -/
def Index.PointOutOfRange (index : Index) (point : Point) : Prop :=
  ∀ infos, index.graphemeInfosForRow point.row = some infos → cellsOf infos < point.col

/-- The offset is before the content of the first row, or behind the end of the content. -/
def Index.OffsetOutOfRange (index : Index) (offset : ℕ) : Prop :=
  (∀ entry ∈ index.rows, offset < entry.contentOffset) ∨ index.contentLen < offset

/-- The conversions between points and offsets are a total lookup. -/
structure Index.TotalLookup (index : Index) : Prop where
  point_returns : ∀ point, ∃ r, index.contentOffsetAtPoint point = .ok r
  offset_returns : ∀ offset, ∃ r, index.contentOffsetToPoint offset = .ok r
  point_out_of_range : ∀ point, index.PointOutOfRange point →
    ∃ e, index.contentOffsetAtPoint point = .ok (.error e)
  offset_out_of_range : ∀ offset, index.OffsetOutOfRange offset →
    ∃ e, index.contentOffsetToPoint offset = .ok (.error e)
  point_to_offset : ∀ point offset info, index.StartsAt point offset info →
    index.contentOffsetAtPoint point = .ok (.ok offset)
  offset_to_point : ∀ point offset info, index.StartsAt point offset info →
    ∀ byte, offset ≤ byte → byte < offset + info.utf8Bytes →
      index.contentOffsetToPoint byte = .ok (.ok point)
  point_mono : ∀ p q a b, ReadsBefore p q → index.contentOffsetAtPoint p = .ok (.ok a) →
    index.contentOffsetAtPoint q = .ok (.ok b) → a ≤ b
  offset_mono : ∀ a b p q, a ≤ b → index.contentOffsetToPoint a = .ok (.ok p) →
    index.contentOffsetToPoint b = .ok (.ok q) → ReadsBefore p q

namespace Index.Stores

variable {index : Index} {start : ℕ} {rows : List StoredRow}

/-- Only the last row is left when an offset is not inside its row. -/
theorem offset_le (_ : index.Stores start rows) {offset i : ℕ} {row : StoredRow}
    (hrow : rows[i]? = some row) (hi : i + 1 < rows.length)
    (hlt : i + 1 < rows.length → offset < rowStart start rows (i + 1)) :
    offset - rowStart start rows i ≤ bytesOf row.infos := by
  have hlt := hlt hi
  have hnl := Bool.toNat_le row.newline
  rw [rowStart_succ hrow, StoredRow.bytes] at hlt
  omega

/-- What the point of an answer says. -/
theorem of_contentOffsetToPoint (h : index.Stores start rows) {offset : ℕ} {point : Point}
    (hok : index.contentOffsetToPoint offset = .ok (.ok point)) :
    ∃ row, rows[point.row]? = some row ∧ rowStart start rows point.row ≤ offset ∧
      (point.row + 1 < rows.length → offset < rowStart start rows (point.row + 1)) ∧
      offset - rowStart start rows point.row ≤ bytesOf row.infos ∧
      point.col = cellsBefore row.infos (offset - rowStart start rows point.row) := by
  by_cases hout : rows = [] ∨ offset < start
  · obtain ⟨e, he⟩ := h.contentOffsetToPoint_before hout
    rw [he] at hok
    cases hok
  · obtain ⟨hrows, hoffset⟩ := not_or.mp hout
    obtain ⟨i, row, hrow, hle, hlt⟩ := h.exists_row hrows (not_lt.mp hoffset)
    rw [h.contentOffsetToPoint_eq hrow hle hlt] at hok
    split at hok
    · rename_i hruns
      split at hok
      · rename_i hoffset
        cases hok
        refine ⟨row, hrow, hle, hlt, ?_, ?_⟩
        · rw [hoffset, Nat.sub_self]
          exact Nat.zero_le _
        · rw [StoredRow.infos, hruns]
          rfl
      · cases hok
    · split at hok
      · rename_i hfit
        cases hok
        exact ⟨row, hrow, hle, hlt, hfit, rfl⟩
      · cases hok

/-- What the offset of an answer says. -/
theorem of_contentOffsetAtPoint (h : index.Stores start rows) {offset : ℕ} {point : Point}
    (hok : index.contentOffsetAtPoint point = .ok (.ok offset)) :
    ∃ row, rows[point.row]? = some row ∧
      offset = rowStart start rows point.row + bytesBefore row.infos point.col := by
  by_cases hout : ∀ row, rows[point.row]? = some row → cellsOf row.infos < point.col
  · obtain ⟨e, he⟩ := h.contentOffsetAtPoint_error hout
    rw [he] at hok
    exact nomatch hok
  · push Not at hout
    obtain ⟨row, hrow, hcol⟩ := hout
    rw [h.contentOffsetAtPoint_ok hrow hcol] at hok
    cases hok
    exact ⟨row, hrow, rfl⟩

/-- The row a grapheme is in, and where in it. -/
theorem of_startsAt (h : index.Stores start rows) {point : Point} {offset : ℕ}
    {info : GraphemeInfo} (hs : index.StartsAt point offset info) :
    ∃ row before after, rows[point.row]? = some row ∧ row.infos = before ++ info :: after ∧
      point.col = cellsOf before ∧ offset = rowStart start rows point.row + bytesOf before := by
  obtain ⟨entry, before, after, hentry, hinfos, hcol, hoffset⟩ := hs
  rw [h.getEntry] at hentry
  rw [h.graphemeInfosForRow] at hinfos
  cases hrow : rows[point.row]? with
  | none =>
    rw [hrow] at hinfos
    exact nomatch hinfos
  | some row =>
    rw [hrow] at hentry hinfos
    cases hentry
    exact ⟨row, before, after, rfl, Option.some.inj hinfos, hcol, hoffset⟩

theorem startsAt_point (h : index.Stores start rows) {point : Point} {offset : ℕ}
    {info : GraphemeInfo} (hs : index.StartsAt point offset info) :
    index.contentOffsetAtPoint point = .ok (.ok offset) := by
  obtain ⟨row, before, after, hrow, hinfos, hcol, rfl⟩ := h.of_startsAt hs
  have hw : 0 < info.cellWidth :=
    h.width_pos row (List.mem_of_getElem? hrow) info (by rw [hinfos]; simp)
  have hle : point.col ≤ cellsOf row.infos := by
    rw [hinfos, cellsOf_append, hcol]
    omega
  have hbefore : bytesBefore row.infos point.col = bytesOf before := by
    rw [hinfos, hcol]
    exact fitPrefix_inside le_rfl (Nat.lt_add_of_pos_right hw)
  rw [h.contentOffsetAtPoint_ok hrow hle, hbefore]

theorem startsAt_byte (h : index.Stores start rows) {point : Point} {offset byte : ℕ}
    {info : GraphemeInfo} (hs : index.StartsAt point offset info) (hle : offset ≤ byte)
    (hlt : byte < offset + info.utf8Bytes) :
    index.contentOffsetToPoint byte = .ok (.ok point) := by
  obtain ⟨row, before, after, hrow, hinfos, hcol, rfl⟩ := h.of_startsAt hs
  have hbytes : bytesOf row.infos = bytesOf before + (info.utf8Bytes + bytesOf after) := by
    rw [hinfos, bytesOf_append, bytesOf_cons]
  have hruns : row.runs ≠ [] := by
    intro hruns
    rw [StoredRow.infos, hruns, runInfos_nil] at hinfos
    exact absurd hinfos.symm (by simp)
  have hnext : point.row + 1 < rows.length → byte < rowStart start rows (point.row + 1) := by
    intro _
    rw [rowStart_succ hrow, StoredRow.bytes]
    omega
  have hbefore : cellsBefore row.infos (byte - rowStart start rows point.row) = point.col := by
    rw [hinfos, hcol]
    refine fitPrefix_inside ?_ ?_
    · change bytesOf before ≤ _
      omega
    · change _ < bytesOf before + _
      omega
  rw [h.contentOffsetToPoint_eq hrow (by omega) hnext, if_neg hruns, if_pos (by omega), hbefore]

theorem point_mono (h : index.Stores start rows) {p q : Point} {a b : ℕ} (hpq : ReadsBefore p q)
    (ha : index.contentOffsetAtPoint p = .ok (.ok a))
    (hb : index.contentOffsetAtPoint q = .ok (.ok b)) : a ≤ b := by
  obtain ⟨row, hrow, rfl⟩ := h.of_contentOffsetAtPoint ha
  obtain ⟨row', hrow', rfl⟩ := h.of_contentOffsetAtPoint hb
  rcases hpq with hlt | ⟨heq, hcol⟩
  · have hmono := rowStart_mono start rows (Nat.succ_le_of_lt hlt)
    have hle : bytesBefore row.infos p.col ≤ bytesOf row.infos := fitPrefix_le _
    rw [Nat.succ_eq_add_one, rowStart_succ hrow, StoredRow.bytes] at hmono
    omega
  · rw [← heq, hrow] at hrow'
    cases hrow'
    rw [← heq]
    exact Nat.add_le_add_left (fitPrefix_mono hcol) _

theorem offset_mono (h : index.Stores start rows) {p q : Point} {a b : ℕ} (hab : a ≤ b)
    (hp : index.contentOffsetToPoint a = .ok (.ok p))
    (hq : index.contentOffsetToPoint b = .ok (.ok q)) : ReadsBefore p q := by
  obtain ⟨row, hrow, hle, hlt, -, hcol⟩ := h.of_contentOffsetToPoint hp
  obtain ⟨row', hrow', hle', hlt', -, hcol'⟩ := h.of_contentOffsetToPoint hq
  rcases Nat.lt_trichotomy p.row q.row with hr | hr | hr
  · exact Or.inl hr
  · refine Or.inr ⟨hr, ?_⟩
    rw [← hr, hrow] at hrow'
    cases hrow'
    rw [hcol, hcol', ← hr]
    exact fitPrefix_mono (Nat.sub_le_sub_right hab _)
  · have hmono := rowStart_mono start rows (Nat.succ_le_of_lt hr)
    have hp' := (List.getElem?_eq_some_iff.mp hrow).1
    have := hlt' (by omega)
    rw [Nat.succ_eq_add_one] at hmono
    omega

/-- Behind the start of an empty last row the assertion fails. -/
theorem offset_panics (h : index.Stores start rows) {i : ℕ} {row : StoredRow}
    (hrow : rows[i]? = some row) (hlast : i + 1 = rows.length) (hruns : row.runs = []) :
    index.contentOffsetToPoint (rowStart start rows i + 1) = .error .assert := by
  rw [h.contentOffsetToPoint_eq hrow (Nat.le_succ _) (fun hlt => by omega), if_pos hruns,
    if_neg (by omega)]

/-- When the last row holds a grapheme, every offset is answered. -/
theorem offset_returns (h : index.Stores start rows)
    (hlast : ∀ row, rows.getLast? = some row → row.runs ≠ []) (offset : ℕ) :
    ∃ r, index.contentOffsetToPoint offset = .ok r := by
  by_cases hout : rows = [] ∨ offset < start
  · obtain ⟨e, he⟩ := h.contentOffsetToPoint_before hout
    exact ⟨_, he⟩
  · obtain ⟨hrows, hoffset⟩ := not_or.mp hout
    obtain ⟨i, row, hrow, hle, hlt⟩ := h.exists_row hrows (not_lt.mp hoffset)
    have hi := (List.getElem?_eq_some_iff.mp hrow).1
    rw [h.contentOffsetToPoint_eq hrow hle hlt]
    by_cases hruns : row.runs = []
    · have hnext : i + 1 < rows.length := by
        by_contra hge
        refine hlast row ?_ hruns
        rw [List.getLast?_eq_getElem?, ← hrow]
        congr 1
        omega
      have hin := h.offset_le hrow hnext hlt
      rw [StoredRow.infos, hruns, runInfos_nil, bytesOf_nil] at hin
      rw [if_pos hruns, if_pos (by omega)]
      exact ⟨_, rfl⟩
    · rw [if_neg hruns]
      split
      · exact ⟨_, rfl⟩
      · exact ⟨_, rfl⟩

/-- Behind the end of the content there is no answer but an error, where there is one. -/
theorem offset_out_of_range (h : index.Stores start rows) {offset : ℕ}
    (hout : index.OffsetOutOfRange offset) {r : Except PointFromContentOffsetError Point}
    (hok : index.contentOffsetToPoint offset = .ok r) : ∃ e, r = .error e := by
  cases r with
  | error e => exact ⟨e, rfl⟩
  | ok point =>
    obtain ⟨row, hrow, hle, hlt, hfit, -⟩ := h.of_contentOffsetToPoint hok
    rcases hout with hbefore | hbehind
    · have hentry : row.entry (rowStart start rows point.row) ∈ index.rows :=
        List.mem_of_getElem? (by rw [h.getElem?, hrow]; rfl)
      exact absurd hle (not_le.mpr (hbefore _ hentry))
    · have hmono : rowStart start rows (point.row + 1) ≤ index.contentLen := by
        rw [h.contentLen_eq]
        exact Nat.add_le_add_left (totalBytes_take_le rows _) _
      rw [rowStart_succ hrow, StoredRow.bytes] at hmono
      omega

end Index.Stores

/-- **The conversions are a total lookup if and only if the last row holds a grapheme**, where
there is a row. -/
theorem totalLookup_iff {index : Index} (h : index.Reachable) :
    index.TotalLookup ↔
      ∀ entry, index.rows.getLast? = some entry → entry.graphemeSizing ≠ .emptyRow := by
  obtain ⟨start, rows, hs⟩ := h.stores
  have hlast : index.rows.getLast? =
      (rows.getLast?).map fun row => row.entry (rowStart start rows (rows.length - 1)) := by
    rw [List.getLast?_eq_getElem?, hs.getElem?, hs.length, List.getLast?_eq_getElem?]
  constructor
  · intro hlookup entry hentry hempty
    rw [hlast, List.getLast?_eq_getElem?] at hentry
    obtain ⟨row, hrow, rfl⟩ := Option.map_eq_some_iff.mp hentry
    have hlt := (List.getElem?_eq_some_iff.mp hrow).1
    obtain ⟨r, hr⟩ := hlookup.offset_returns (rowStart start rows (rows.length - 1) + 1)
    rw [hs.offset_panics hrow (by omega) (entry_emptyRow.mp hempty)] at hr
    exact nomatch hr
  · intro hne
    have hruns : ∀ row, rows.getLast? = some row → row.runs ≠ [] := fun row hrow hruns =>
      hne _ (by rw [hlast, hrow]; rfl) (entry_emptyRow.mpr hruns)
    refine ⟨fun point => ?_, hs.offset_returns hruns, fun point hout => ?_, fun offset hout => ?_,
      fun _ _ _ => hs.startsAt_point, fun _ _ _ hat _ => hs.startsAt_byte hat,
      fun _ _ _ _ => hs.point_mono, fun _ _ _ _ => hs.offset_mono⟩
    · by_cases hout : ∀ row, rows[point.row]? = some row → cellsOf row.infos < point.col
      · obtain ⟨e, he⟩ := hs.contentOffsetAtPoint_error hout
        exact ⟨_, he⟩
      · push Not at hout
        obtain ⟨row, hrow, hcol⟩ := hout
        exact ⟨_, hs.contentOffsetAtPoint_ok hrow hcol⟩
    · refine hs.contentOffsetAtPoint_error fun row hrow => hout row.infos ?_
      rw [hs.graphemeInfosForRow, hrow]
      rfl
    · obtain ⟨r, hr⟩ := hs.offset_returns hruns offset
      obtain ⟨e, rfl⟩ := hs.offset_out_of_range hout hr
      exact ⟨e, hr⟩

/-- The size of an ASCII grapheme. -/
def asciiInfo : GraphemeInfo := ⟨1, 1, Nat.one_pos⟩

/-- A grid of five columns with the row `a`. -/
theorem totalLookup_a :
    (EntryBuilder.addTrailingNewline ⟨0, 1, false, false, [⟨1, asciiInfo, Nat.one_pos⟩]⟩
      |>.appendToIndex (Index.new 5)).TotalLookup :=
  (totalLookup_iff (Index.Reachable.pushRow (Index.Reachable.new 5)
    (EntryBuilder.Built.process EntryBuilder.Built.new (Nat.one_pos) rfl) true)).mpr fun entry h => by
      cases h
      decide

/-- A grid of five columns with one blank row: behind the row's offset the assertion fails. -/
theorem blank_last_row_panics : ¬ ∀ index : Index, index.Reachable → index.TotalLookup := by
  intro hall
  have h := hall _ (Index.Reachable.pushRow (Index.Reachable.new 5) EntryBuilder.Built.new true)
  obtain ⟨r, hr⟩ := h.offset_returns 1
  exact nomatch hr

end FlatStorage

end Clinch
