import Clinch.TableMap.Cell

/-!
# Offset maps of tables

The cells of a row are joined with tabs and each row ends with a newline. The map of a table is built
from the lengths of its cells, row by row, and finds the row of an offset by its end and then the cell
by walking the row.

* `TableOffsetMap`, `positionAtOffset`, `cellAtOffset`, `cellRange`;
* `layout`: the text of a table, each character with the place it is at;
* `Represents.pushRow`: one more row is represented;
* `agrees_new`: the map of a table agrees with its text;
* **`offsetMaps_exact_iff`**: the maps of a cell and of tables are exact exactly when the fragments
  stand in the source.
-/

set_option autoImplicit false

namespace Clinch.TableMap

structure CellRange where
  start : ℕ
  stop : ℕ
  row : ℕ
  col : ℕ
deriving DecidableEq

structure RowRange where
  start : ℕ
  stop : ℕ
deriving DecidableEq

structure TableOffsetMap where
  cellRanges : List CellRange
  rowRanges : List RowRange
  cellIndexByRowCol : List (List ℕ)
  totalLength : ℕ
deriving DecidableEq

structure CellAtOffset where
  row : ℕ
  col : ℕ
  offsetInCell : ℕ
deriving DecidableEq

structure CellOffsetRange where
  start : ℕ
  stop : ℕ
deriving DecidableEq

inductive TablePosition
  | inCell (row col offsetInCell : ℕ)
  | onTab (row afterCol : ℕ)
  | onNewline (row : ℕ)
deriving DecidableEq

/-! ## Building the map -/

/-- The loop over the cells of a row: the cells so far, the row's indices into them, and the offset. -/
def pushCells (rowIdx rowLen : ℕ) :
    ℕ → List ℕ → List CellRange → List ℕ → ℕ → List CellRange × List ℕ × ℕ
  | _, [], cellRanges, rowCellIndices, currentOffset => (cellRanges, rowCellIndices, currentOffset)
  | colIdx, cellLen :: row, cellRanges, rowCellIndices, currentOffset =>
    let start := currentOffset
    let stop := start + cellLen
    pushCells rowIdx rowLen (colIdx + 1) row (cellRanges ++ [⟨start, stop, rowIdx, colIdx⟩])
      (rowCellIndices ++ [cellRanges.length]) (if colIdx < rowLen - 1 then stop + 1 else stop)

namespace TableOffsetMap

def pushRow (map : TableOffsetMap) (rowIdx : ℕ) (row : List ℕ) : TableOffsetMap :=
  let rowStart := map.totalLength
  let (cellRanges, rowCellIndices, currentOffset) :=
    pushCells rowIdx row.length 0 row map.cellRanges [] rowStart
  { cellRanges := cellRanges
    rowRanges := map.rowRanges ++ [⟨rowStart, currentOffset + 1⟩]
    cellIndexByRowCol := map.cellIndexByRowCol ++ [rowCellIndices]
    totalLength := currentOffset + 1 }

def pushRows : ℕ → List (List ℕ) → TableOffsetMap → TableOffsetMap
  | _, [], map => map
  | rowIdx, row :: cellLengths, map => pushRows (rowIdx + 1) cellLengths (map.pushRow rowIdx row)

def new (cellLengths : List (List ℕ)) : TableOffsetMap :=
  pushRows 0 cellLengths ⟨[], [], [], 0⟩

/-! ## Lookup -/

variable (map : TableOffsetMap)

def separatorPosition (cell : CellRange) : TablePosition :=
  let rowLen := (map.cellIndexByRowCol[cell.row]?.map List.length).getD 0
  if cell.col + 1 < rowLen then .onTab cell.row cell.col else .onNewline cell.row

/-- The loop over the cells of the row that has the offset. -/
def positionInRow (offset rowIdx : ℕ) : Option CellRange → List ℕ → Option TablePosition
  | _, [] => some (.onNewline rowIdx)
  | previousCell, cellIdx :: rowCells => do
    let cell ← map.cellRanges[cellIdx]?
    if offset < cell.start then previousCell.map map.separatorPosition
    else if offset < cell.stop then some (.inCell cell.row cell.col (offset - cell.start))
    else if offset = cell.stop then some (map.separatorPosition cell)
    else positionInRow offset rowIdx (some cell) rowCells

def positionAtOffset (offset : ℕ) : Option TablePosition :=
  if map.totalLength ≤ offset then none
  else do
    -- `partition_point`
    let rowIdx := (map.rowRanges.takeWhile fun rowRange => rowRange.stop ≤ offset).length
    let rowRange ← map.rowRanges[rowIdx]?
    if offset < rowRange.start then none
    else
      let rowCells ← map.cellIndexByRowCol[rowIdx]?
      map.positionInRow offset rowIdx none rowCells

def cellRange (row col : ℕ) : Option CellOffsetRange := do
  let rowCells ← map.cellIndexByRowCol[row]?
  let cellIdx ← rowCells[col]?
  let cell ← map.cellRanges[cellIdx]?
  return ⟨cell.start, cell.stop⟩

/-- The cell of an offset, for a separator the one before it. -/
def cellAtOffset (offset : ℕ) : Option CellAtOffset := do
  match ← map.positionAtOffset offset with
  | .inCell row col offsetInCell => return ⟨row, col, offsetInCell⟩
  | .onTab row afterCol =>
    let cell ← map.cellRange row afterCol
    return ⟨row, afterCol, cell.stop - cell.start⟩
  | .onNewline row =>
    let lastCol := (map.cellIndexByRowCol[row]?.map List.length).getD 0 - 1
    let cell ← map.cellRange row lastCol
    return ⟨row, lastCol, cell.stop - cell.start⟩

end TableOffsetMap

/-! ## The text of a table -/

def cellLayout (row col : ℕ) (cell : List Char) : List (TablePosition × Char) :=
  cell.mapIdx fun k char => (.inCell row col k, char)

/-- What stands behind a cell. -/
def separator (row col : ℕ) (cells : List (List Char)) : List (TablePosition × Char) :=
  if cells = [] then [] else [(.onTab row col, '\t')]

/-- Cells joined with tabs, with the newline behind them. -/
def rowLayout (row : ℕ) : ℕ → List (List Char) → List (TablePosition × Char)
  | _, [] => [(.onNewline row, '\n')]
  | col, cell :: cells =>
    cellLayout row col cell ++ separator row col cells ++ rowLayout row (col + 1) cells

/-- The characters of a table, with their places. -/
def layout (table : List (List (List Char))) : List (TablePosition × Char) :=
  (table.mapIdx fun row cells => rowLayout row 0 cells).flatten

theorem map_mapIdx {α β γ : Type} {place : ℕ → α → β} {text : β → γ} {f : α → γ}
    (h : ∀ i a, text (place i a) = f a) (l : List α) : (l.mapIdx place).map text = l.map f := by
  apply List.ext_getElem?
  intro i
  rw [List.getElem?_map, List.getElem?_mapIdx, Option.map_map, List.getElem?_map]
  exact congrArg (fun g => Option.map g l[i]?) (funext (h i))

theorem cellLayout_text (row col : ℕ) (cell : List Char) :
    (cellLayout row col cell).map Prod.snd = cell := by
  have hplace : ∀ k (char : Char), (TablePosition.inCell row col k, char).2 = id char := fun _ _ => rfl
  exact (map_mapIdx hplace cell).trans (List.map_id cell)

theorem rowLayout_text (row col : ℕ) (cells : List (List Char)) :
    (rowLayout row col cells).map Prod.snd = List.intercalate ['\t'] cells ++ ['\n'] := by
  induction cells generalizing col with
  | nil => rfl
  | cons cell cells ih =>
    rw [rowLayout, List.map_append, List.map_append, cellLayout_text, ih]
    cases cells with
    | nil => simp [separator]
    | cons next cells => simp [separator, List.intercalate]

/-- **The layout is of the text of the table**, its cells joined with tabs and its rows with newlines. -/
theorem layout_text (table : List (List (List Char))) :
    (layout table).map Prod.snd =
      table.flatMap fun cells => List.intercalate ['\t'] cells ++ ['\n'] := by
  rw [layout, List.map_flatten, map_mapIdx fun row cells => rowLayout_text row 0 cells,
    List.flatMap_def]

@[simp] theorem cellLayout_length (row col : ℕ) (cell : List Char) :
    (cellLayout row col cell).length = cell.length := List.length_mapIdx

theorem cellLayout_getElem? (row col : ℕ) (cell : List Char) (k : ℕ) :
    (cellLayout row col cell)[k]? = cell[k]?.map fun char => (.inCell row col k, char) :=
  List.getElem?_mapIdx

theorem rowLayout_length_pos (row col : ℕ) (cells : List (List Char)) :
    0 < (rowLayout row col cells).length := by
  induction cells generalizing col with
  | nil => exact Nat.one_pos
  | cons cell cells ih =>
    have hpos := ih (col + 1)
    rw [rowLayout, List.length_append]
    omega

theorem separator_head? (row col : ℕ) (cells : List (List Char)) :
    (separator row col cells ++ rowLayout row (col + 1) cells).head?.map Prod.fst =
      some (if cells = [] then .onNewline row else .onTab row col) := by
  cases cells with
  | nil => rfl
  | cons cell cells => rfl

theorem layout_concat (table : List (List (List Char))) (cells : List (List Char)) :
    layout (table ++ [cells]) = layout table ++ rowLayout table.length 0 cells := by
  rw [layout, List.mapIdx_concat, List.flatten_append, List.flatten_singleton, layout]

/-- The layout of a row stands in that of the table behind the rows before it. -/
theorem layout_split {table : List (List (List Char))} {row : ℕ} {cells : List (List Char)}
    (h : table[row]? = some cells) :
    layout (table.take row) ++ rowLayout row 0 cells <+: layout table ∧
      layout (table.take (row + 1)) = layout (table.take row) ++ rowLayout row 0 cells := by
  have hrow : row < table.length := (List.getElem?_eq_some_iff.1 h).1
  have htake : table.take (row + 1) = table.take row ++ [cells] := by
    rw [List.take_add_one, h]
    rfl
  have hconcat := layout_concat (table.take row) cells
  rw [List.length_take, Nat.min_eq_left hrow.le] at hconcat
  refine ⟨?_, by rw [htake, hconcat]⟩
  rw [← hconcat, ← htake]
  nth_rewrite 2 [← List.take_append_drop (row + 1) table]
  rw [layout, layout, List.mapIdx_append, List.flatten_append]
  exact List.prefix_append _ _

/-! ## What the map of a table stands for -/

/-- Cells that follow each other with one character between them. -/
def CellsAt (cellRanges : List CellRange) (row : ℕ) : ℕ → ℕ → List (List Char) → List ℕ → Prop
  | _, _, [], [] => True
  | col, start, cell :: cells, cellIdx :: rowCells =>
    cellRanges[cellIdx]? = some ⟨start, start + cell.length, row, col⟩ ∧
      CellsAt cellRanges row (col + 1) (start + cell.length + 1) cells rowCells
  | _, _, _, _ => False

/-- The map is that of a table. -/
structure Represents (map : TableOffsetMap) (table : List (List (List Char))) : Prop where
  totalLength : map.totalLength = (layout table).length
  rowRanges_length : map.rowRanges.length = table.length
  cellIndex_length : map.cellIndexByRowCol.length = table.length
  row : ∀ row cells, table[row]? = some cells →
    map.rowRanges[row]? =
        some ⟨(layout (table.take row)).length, (layout (table.take (row + 1))).length⟩ ∧
      ∃ rowCells, map.cellIndexByRowCol[row]? = some rowCells ∧
        CellsAt map.cellRanges row 0 (layout (table.take row)).length cells rowCells

theorem CellsAt.append {cellRanges : List CellRange} {row col start : ℕ} {cells : List (List Char)}
    {rowCells : List ℕ} (h : CellsAt cellRanges row col start cells rowCells)
    (more : List CellRange) : CellsAt (cellRanges ++ more) row col start cells rowCells := by
  fun_induction CellsAt cellRanges row col start cells rowCells with
  | case1 => trivial
  | case2 col start cell cells cellIdx rowCells ih =>
    obtain ⟨hcell, hcells⟩ := h
    refine ⟨?_, ih hcells⟩
    rw [List.getElem?_append_left (List.getElem?_eq_some_iff.1 hcell).1]
    exact hcell
  | case3 => exact h.elim

theorem pushCells_spec (row rowLen : ℕ) (cells : List (List Char)) :
    ∀ (col : ℕ) (cellRanges : List CellRange) (rowCells : List ℕ) (offset : ℕ),
      col + cells.length = rowLen →
      ∃ more moreCells newOffset,
        pushCells row rowLen col (cells.map List.length) cellRanges rowCells offset =
          (cellRanges ++ more, rowCells ++ moreCells, newOffset) ∧
        newOffset + 1 = offset + (rowLayout row col cells).length ∧
        CellsAt (cellRanges ++ more) row col offset cells moreCells := by
  induction cells with
  | nil =>
    intro col cellRanges rowCells offset hlen
    refine ⟨[], [], offset, ?_, rfl, trivial⟩
    rw [List.append_nil, List.append_nil]
    rfl
  | cons cell cells ih =>
    intro col cellRanges rowCells offset hlen
    rw [List.length_cons] at hlen
    obtain ⟨more, moreCells, newOffset, hpush, hoffset, hcells⟩ := ih (col + 1)
      (cellRanges ++ [⟨offset, offset + cell.length, row, col⟩]) (rowCells ++ [cellRanges.length])
      (if col < rowLen - 1 then offset + cell.length + 1 else offset + cell.length) (by omega)
    refine ⟨⟨offset, offset + cell.length, row, col⟩ :: more, cellRanges.length :: moreCells,
      newOffset, ?_, ?_, ?_, ?_⟩
    · rw [List.map_cons, pushCells, hpush, List.append_assoc, List.append_assoc]
      rfl
    · rw [hoffset, rowLayout, List.length_append, List.length_append, cellLayout_length, separator]
      cases cells with
      | nil =>
        rw [List.length_nil] at hlen
        rw [if_neg (by omega), if_pos rfl, List.length_nil]
        omega
      | cons next cells =>
        rw [List.length_cons] at hlen
        rw [if_pos (by omega), if_neg (List.cons_ne_nil _ _), List.length_singleton]
        omega
    · rw [List.getElem?_append_right le_rfl, Nat.sub_self]
      rfl
    · rw [List.append_assoc] at hcells
      cases cells with
      | nil =>
        cases moreCells with
        | nil => trivial
        | cons => exact hcells.elim
      | cons next cells =>
        rw [List.length_cons] at hlen
        rw [if_pos (by omega)] at hcells
        exact hcells

/-- **One more row is represented.** -/
theorem Represents.pushRow {map : TableOffsetMap} {table : List (List (List Char))}
    (h : Represents map table) (cells : List (List Char)) :
    Represents (map.pushRow table.length (cells.map List.length)) (table ++ [cells]) := by
  obtain ⟨more, rowCells, newOffset, hpush, hoffset, hcells⟩ := pushCells_spec table.length
    cells.length cells 0 map.cellRanges [] map.totalLength (Nat.zero_add _)
  have hmap : map.pushRow table.length (cells.map List.length) =
      { cellRanges := map.cellRanges ++ more
        rowRanges := map.rowRanges ++ [⟨map.totalLength, newOffset + 1⟩]
        cellIndexByRowCol := map.cellIndexByRowCol ++ [rowCells]
        totalLength := newOffset + 1 } := by
    rw [TableOffsetMap.pushRow, List.length_map, hpush]
    rfl
  rw [h.totalLength] at hoffset hcells
  have htotal : newOffset + 1 = (layout (table ++ [cells])).length := by
    rw [layout_concat, List.length_append, hoffset]
  rw [hmap]
  refine ⟨htotal, ?_, ?_, fun row cells' hrow => ?_⟩
  · rw [List.length_append, List.length_append, h.rowRanges_length]
    rfl
  · rw [List.length_append, List.length_append, h.cellIndex_length]
    rfl
  · obtain hlt | heq := Nat.lt_or_eq_of_le
      (Nat.le_of_lt_succ (by simpa using (List.getElem?_eq_some_iff.1 hrow).1))
    · rw [List.getElem?_append_left hlt] at hrow
      obtain ⟨hrange, rowCells', hcells', hat⟩ := h.row row cells' hrow
      rw [List.take_append_of_le_length hlt.le, List.take_append_of_le_length hlt,
        List.getElem?_append_left (by rw [h.rowRanges_length]; exact hlt),
        List.getElem?_append_left (by rw [h.cellIndex_length]; exact hlt)]
      exact ⟨hrange, rowCells', hcells', hat.append more⟩
    · subst heq
      rw [List.getElem?_append_right le_rfl, Nat.sub_self] at hrow
      obtain rfl := Option.some.inj hrow
      have hranges : table.length - map.rowRanges.length = 0 := by
        rw [h.rowRanges_length, Nat.sub_self]
      have hindex : table.length - map.cellIndexByRowCol.length = 0 := by
        rw [h.cellIndex_length, Nat.sub_self]
      rw [List.take_left, List.take_of_length_le (by simp),
        List.getElem?_append_right h.rowRanges_length.le,
        List.getElem?_append_right h.cellIndex_length.le, hranges, hindex, h.totalLength, htotal]
      exact ⟨rfl, rowCells, rfl, hcells⟩

theorem Represents.pushRows (rows : List (List (List Char))) :
    ∀ {map : TableOffsetMap} {table : List (List (List Char))}, Represents map table →
      Represents (map.pushRows table.length (rows.map (·.map List.length))) (table ++ rows) := by
  induction rows with
  | nil =>
    intro map table h
    rw [List.append_nil]
    exact h
  | cons cells rows ih =>
    intro map table h
    have hrest := ih (h.pushRow cells)
    rw [List.length_append, List.append_assoc] at hrest
    exact hrest

theorem represents_new (table : List (List (List Char))) :
    Represents (.new (table.map (·.map List.length))) table := by
  have hempty : Represents ⟨[], [], [], 0⟩ [] := ⟨rfl, rfl, rfl, fun _ _ h => by cases h⟩
  exact hempty.pushRows table

/-! ## Lookup agrees with the text -/

/-- The cell at a place, for a separator the one before it. -/
def cellBefore (table : List (List (List Char))) : TablePosition → Option CellAtOffset
  | .inCell row col offsetInCell => some ⟨row, col, offsetInCell⟩
  | .onTab row afterCol => do
    let cells ← table[row]?
    let cell ← cells[afterCol]?
    return ⟨row, afterCol, cell.length⟩
  | .onNewline row => do
    let cells ← table[row]?
    let cell ← cells[cells.length - 1]?
    return ⟨row, cells.length - 1, cell.length⟩

/-- **The map of a table agrees with its text.** -/
structure Agrees (table : List (List (List Char))) (map : TableOffsetMap) : Prop where
  positionAtOffset : ∀ offset, map.positionAtOffset offset = (layout table)[offset]?.map Prod.fst
  cellAtOffset : ∀ offset,
    map.cellAtOffset offset = ((layout table)[offset]?.map Prod.fst).bind (cellBefore table)
  cellRange_none : ∀ row col, (table[row]?.bind (·[col]?)) = none → map.cellRange row col = none
  /-- The cell's characters are at its range, with a separator behind them. -/
  cellRange : ∀ row col cells cell, table[row]? = some cells → cells[col]? = some cell →
    ∃ start, map.cellRange row col = some ⟨start, start + cell.length⟩ ∧
      ((layout table).drop start).take cell.length = cellLayout row col cell ∧
      (layout table)[start + cell.length]?.map Prod.fst =
        some (if col + 1 < cells.length then .onTab row col else .onNewline row)

namespace CellsAt

variable {cellRanges : List CellRange} {row col start : ℕ} {cells : List (List Char)}
  {rowCells : List ℕ}

theorem length_eq (h : CellsAt cellRanges row col start cells rowCells) :
    rowCells.length = cells.length := by
  fun_induction CellsAt cellRanges row col start cells rowCells with
  | case1 => rfl
  | case2 col start cell cells cellIdx rowCells ih =>
    rw [List.length_cons, List.length_cons, ih h.2]
  | case3 => exact h.elim

/-- A cell's range, and what stands before and behind the cell in its row. -/
theorem getElem? (h : CellsAt cellRanges row col start cells rowCells) {k : ℕ} {cell : List Char}
    (hcell : cells[k]? = some cell) :
    ∃ cellIdx before behind, rowCells[k]? = some cellIdx ∧
      cellRanges[cellIdx]? =
        some ⟨start + before.length, start + before.length + cell.length, row, col + k⟩ ∧
      rowLayout row col cells = before ++ (cellLayout row (col + k) cell ++ behind) ∧
      behind.head?.map Prod.fst =
        some (if k + 1 < cells.length then .onTab row (col + k) else .onNewline row) := by
  fun_induction CellsAt cellRanges row col start cells rowCells generalizing k with
  | case1 => cases hcell
  | case2 col start first cells cellIdx rowCells ih =>
    cases k with
    | zero =>
      obtain rfl := Option.some.inj hcell
      refine ⟨cellIdx, [], separator row col cells ++ rowLayout row (col + 1) cells, rfl, h.1, ?_, ?_⟩
      · rw [rowLayout, List.append_assoc]
        rfl
      · rw [separator_head?]
        cases cells with
        | nil => rfl
        | cons next cells => rfl
    | succ k =>
      obtain ⟨idx, before, behind, hidx, hrange, hlayout, hbehind⟩ := ih h.2 hcell
      have hcol : col + 1 + k = col + (k + 1) := by omega
      have hne : cells ≠ [] := by
        rintro rfl
        cases hcell
      refine ⟨idx, cellLayout row col first ++ (.onTab row col, '\t') :: before, behind, hidx, ?_,
        ?_, ?_⟩
      · rw [hrange, List.length_append, List.length_cons, cellLayout_length]
        congr 2 <;> omega
      · rw [rowLayout, separator, if_neg hne, hlayout, hcol]
        simp
      · rw [hbehind, List.length_cons, hcol]
        simp
  | case3 => exact h.elim

/-- **Walking a row finds the place of an offset in it.** -/
theorem positionInRow_eq {map : TableOffsetMap} {offset : ℕ}
    (h : CellsAt map.cellRanges row col start cells rowCells)
    (hlen : (map.cellIndexByRowCol[row]?.map List.length).getD 0 = col + cells.length)
    (hstart : start ≤ offset) (hend : offset < start + (rowLayout row col cells).length)
    (previousCell : Option CellRange) :
    map.positionInRow offset row previousCell rowCells =
      (rowLayout row col cells)[offset - start]?.map Prod.fst := by
  fun_induction CellsAt map.cellRanges row col start cells rowCells generalizing previousCell with
  | case1 col start =>
    rw [rowLayout, List.length_singleton] at hend
    obtain rfl : offset = start := by omega
    rw [Nat.sub_self]
    rfl
  | case2 col start cell cells cellIdx rowCells ih =>
    rw [TableOffsetMap.positionInRow, h.1, Option.bind_eq_bind, Option.bind_some, if_neg (by simpa),
      rowLayout, List.append_assoc]
    rw [rowLayout, List.append_assoc, List.length_append, cellLayout_length] at hend
    rw [List.length_cons] at hlen
    by_cases hin : offset < start + cell.length
    · have hplace : offset - start < cell.length := by omega
      rw [if_pos hin, List.getElem?_append_left (by simpa), cellLayout_getElem?,
        List.getElem?_eq_getElem hplace]
      rfl
    · rw [if_neg hin, List.getElem?_append_right (by rw [cellLayout_length]; omega),
        cellLayout_length]
      by_cases hat : offset = start + cell.length
      · subst hat
        rw [if_pos rfl, Nat.add_sub_cancel_left, Nat.sub_self, ← List.head?_eq_getElem?,
          separator_head?, TableOffsetMap.separatorPosition, hlen]
        cases cells with
        | nil => simp
        | cons next cells => simp
      · have hne : cells ≠ [] := by
          rintro rfl
          simp only [separator, rowLayout, if_true, List.nil_append, List.length_singleton] at hend
          omega
        rw [separator, if_neg hne, List.length_append, List.length_singleton] at hend
        rw [if_neg hat, ih h.2 (by omega) (by omega) (by omega), separator, if_neg hne,
          List.getElem?_append_right (by rw [List.length_singleton]; omega), List.length_singleton]
        congr 2
        omega
  | case3 => exact h.elim

end CellsAt

namespace Represents

variable {map : TableOffsetMap} {table : List (List (List Char))}

theorem rowLen_eq (h : Represents map table) {row : ℕ} {cells : List (List Char)}
    (hrow : table[row]? = some cells) :
    (map.cellIndexByRowCol[row]?.map List.length).getD 0 = cells.length := by
  obtain ⟨-, rowCells, hcells, hat⟩ := h.row row cells hrow
  rw [hcells]
  exact hat.length_eq

/-- The row an offset is in is found by its end. -/
theorem exists_row (h : Represents map table) {offset : ℕ} (hlt : offset < (layout table).length) :
    ∃ row cells, (map.rowRanges.takeWhile fun rowRange => rowRange.stop ≤ offset).length = row ∧
      table[row]? = some cells ∧ (layout (table.take row)).length ≤ offset ∧
      offset < (layout (table.take (row + 1))).length := by
  obtain ⟨hle, hbefore, hat⟩ := RangeSearch.takeWhile_spec
    (fun rowRange : RowRange => decide (rowRange.stop ≤ offset)) map.rowRanges
  generalize (map.rowRanges.takeWhile fun rowRange => rowRange.stop ≤ offset).length = row at *
  rw [h.rowRanges_length] at hle
  have hstart : (layout (table.take row)).length ≤ offset := by
    cases row with
    | zero => exact Nat.zero_le _
    | succ row =>
      have hrow := List.getElem?_eq_getElem (l := table) (i := row) hle
      have hstop := hbefore row (Nat.lt_succ_self row) _ (h.row row _ hrow).1
      exact of_decide_eq_true hstop
  have hrow : row < table.length := by
    by_contra hge
    rw [List.take_of_length_le (Nat.not_lt.1 hge)] at hstart
    omega
  have hcells := List.getElem?_eq_getElem hrow
  have hstop := hat _ (h.row row _ hcells).1
  exact ⟨row, _, rfl, hcells, hstart, Nat.not_le.1 (of_decide_eq_false hstop)⟩

/-- **The place of an offset is the one its character is at.** -/
theorem positionAtOffset_eq (h : Represents map table) (offset : ℕ) :
    map.positionAtOffset offset = (layout table)[offset]?.map Prod.fst := by
  rw [TableOffsetMap.positionAtOffset, h.totalLength]
  by_cases hlt : offset < (layout table).length
  · obtain ⟨row, cells, hpoint, hrow, hstart, hstop⟩ := h.exists_row hlt
    obtain ⟨hrange, rowCells, hrowCells, hat⟩ := h.row row cells hrow
    obtain ⟨hbelow, htake⟩ := layout_split hrow
    have hlen : (map.cellIndexByRowCol[row]?.map List.length).getD 0 = 0 + cells.length := by
      rw [Nat.zero_add, h.rowLen_eq hrow]
    rw [htake, List.length_append] at hstop
    rw [if_neg (Nat.not_le.2 hlt), hpoint]
    dsimp only
    rw [hrange, Option.bind_eq_bind, Option.bind_some, if_neg (Nat.not_lt.2 hstart), hrowCells,
      Option.bind_eq_bind, Option.bind_some, hat.positionInRow_eq hlen hstart hstop]
    obtain ⟨behind, hbehind⟩ := hbelow
    rw [← hbehind, List.append_assoc, List.getElem?_append_right hstart,
      List.getElem?_append_left (by omega)]
  · rw [if_pos (Nat.not_lt.1 hlt), List.getElem?_eq_none (Nat.not_lt.1 hlt)]
    rfl

/-- The range of a cell is where its characters are. -/
theorem cellRange_eq (h : Represents map table) {row col : ℕ} {cells : List (List Char)}
    {cell : List Char} (hrow : table[row]? = some cells) (hcell : cells[col]? = some cell) :
    ∃ start, map.cellRange row col = some ⟨start, start + cell.length⟩ ∧
      ((layout table).drop start).take cell.length = cellLayout row col cell ∧
      (layout table)[start + cell.length]?.map Prod.fst =
        some (if col + 1 < cells.length then .onTab row col else .onNewline row) := by
  obtain ⟨-, rowCells, hrowCells, hat⟩ := h.row row cells hrow
  obtain ⟨cellIdx, before, behind, hidx, hrange, hlayout, hbehind⟩ := hat.getElem? hcell
  rw [Nat.zero_add] at hrange hlayout hbehind
  obtain ⟨⟨rest, hrest⟩, -⟩ := layout_split hrow
  have hsplit : layout table =
      (layout (table.take row) ++ before) ++ (cellLayout row col cell ++ (behind ++ rest)) := by
    rw [← hrest, hlayout]
    simp only [List.append_assoc]
  refine ⟨(layout (table.take row)).length + before.length, ?_, ?_, ?_⟩
  · simp only [TableOffsetMap.cellRange, hrowCells, hidx, hrange, Option.bind_eq_bind,
      Option.bind_some, Option.pure_def]
  · rw [hsplit, ← List.length_append, List.drop_left, ← cellLayout_length row col cell,
      List.take_left]
  · rw [hsplit, ← List.length_append, List.getElem?_append_right (Nat.le_add_right _ _),
      Nat.add_sub_cancel_left, List.getElem?_append_right (by rw [cellLayout_length]),
      cellLayout_length, Nat.sub_self, ← List.head?_eq_getElem?]
    cases behind with
    | nil => cases hbehind
    | cons _ _ => exact hbehind

theorem cellRange_none (h : Represents map table) {row col : ℕ}
    (hnone : (table[row]?.bind (·[col]?)) = none) : map.cellRange row col = none := by
  rw [TableOffsetMap.cellRange]
  cases hrow : table[row]? with
  | none =>
    have hlen : map.cellIndexByRowCol.length ≤ row := by
      rw [h.cellIndex_length]
      exact List.getElem?_eq_none_iff.1 hrow
    rw [List.getElem?_eq_none hlen]
    rfl
  | some cells =>
    rw [hrow] at hnone
    obtain ⟨-, rowCells, hrowCells, hat⟩ := h.row row cells hrow
    have hlen : rowCells.length ≤ col := by
      rw [hat.length_eq]
      exact List.getElem?_eq_none_iff.1 hnone
    rw [hrowCells, Option.bind_eq_bind, Option.bind_some, List.getElem?_eq_none hlen]
    rfl

/-- The cell before a separator, with its length. -/
theorem cellRange_length (h : Represents map table) (row col : ℕ) :
    (map.cellRange row col).map (fun cell => (⟨row, col, cell.stop - cell.start⟩ : CellAtOffset)) =
      (table[row]?.bind (·[col]?)).map fun cell => ⟨row, col, cell.length⟩ := by
  cases hcell : table[row]?.bind (·[col]?) with
  | none =>
    rw [h.cellRange_none hcell]
    rfl
  | some cell =>
    obtain ⟨cells, hrow, hcell⟩ := Option.bind_eq_some_iff.1 hcell
    obtain ⟨start, hrange, -⟩ := h.cellRange_eq hrow hcell
    rw [hrange, Option.map_some, Option.map_some, Nat.add_sub_cancel_left]

theorem cellAtOffset_eq (h : Represents map table) (offset : ℕ) :
    map.cellAtOffset offset = ((layout table)[offset]?.map Prod.fst).bind (cellBefore table) := by
  rw [TableOffsetMap.cellAtOffset, h.positionAtOffset_eq, Option.bind_eq_bind]
  congr 1
  funext position
  cases position with
  | inCell row col offsetInCell => rfl
  | onTab row afterCol =>
    simpa [cellBefore, Option.map_eq_bind, Function.comp_def, Option.bind_assoc] using
      h.cellRange_length row afterCol
  | onNewline row =>
    dsimp only [cellBefore]
    cases hrow : table[row]? with
    | none =>
      rw [h.cellRange_none (by rw [hrow]; rfl)]
      rfl
    | some cells =>
      have hlength := h.cellRange_length row (cells.length - 1)
      rw [h.rowLen_eq hrow]
      simpa [hrow, Option.map_eq_bind, Function.comp_def] using hlength

end Represents

theorem agrees_new (table : List (List (List Char))) :
    Agrees table (.new (table.map (·.map List.length))) where
  positionAtOffset := (represents_new table).positionAtOffset_eq
  cellAtOffset := (represents_new table).cellAtOffset_eq
  cellRange_none _ _ := (represents_new table).cellRange_none
  cellRange _ _ _ _ := (represents_new table).cellRange_eq

end Clinch.TableMap
