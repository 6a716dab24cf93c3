import Clinch.Rust
import Clinch.BiMap

/-!
# Displayed output

`app/src/terminal/model/grid/displayed_output.rs`. The rows of a grid that are displayed, as ranges
in ascending order, with their number and the map between original and displayed rows. The map is
a `BiMap` of the `bimap` crate. `debug_assert!` is taken as on.

* `RangeInclusive`, `DisplayedRows`, `DisplayedOutput`;
* `newFromDisplayedLines`, `extendDisplayedLines`, `prependDisplayedLines`, `spliceDisplayedLines`,
  `truncateToRow`, `reset`;
* `isDisplayedRow`, `getExactOrNextDisplayedRow` and the translations.
-/

set_option autoImplicit false

namespace Clinch

inductive DisplaySource
  | cursorLine
  | filterMatch
  | filterContext
deriving DecidableEq, Repr

/-- `RangeInclusive<usize>`, empty when its end is before its start. -/
structure RangeInclusive where
  start : ℕ
  stop : ℕ
deriving DecidableEq, Repr

namespace RangeInclusive

def contains (r : RangeInclusive) (row : ℕ) : Bool :=
  decide (r.start ≤ row) && decide (row ≤ r.stop)

/-- The range as an iterator. -/
def rows (r : RangeInclusive) : List ℕ := List.range' r.start (r.stop + 1 - r.start)

theorem mem_rows {r : RangeInclusive} {row : ℕ} : row ∈ r.rows ↔ r.contains row = true := by
  rw [rows, List.mem_range'_1, contains, Bool.and_eq_true, decide_eq_true_eq, decide_eq_true_eq]
  omega

theorem length_rows (r : RangeInclusive) : r.rows.length = r.stop + 1 - r.start :=
  List.length_range'

end RangeInclusive

structure DisplayedRows where
  range : RangeInclusive
  source : DisplaySource
deriving DecidableEq, Repr

namespace DisplayedRows

/-- `(rows.range.end() - rows.range.start()) + 1`. -/
def height (rows : DisplayedRows) : Result ℕ := do
  return (← checkedSub rows.range.stop rows.range.start) + 1

/-- `displayed_lines.windows(2).all(|w| w[0].range.end() < w[1].range.start())`. -/
def inAscendingOrder : List DisplayedRows → Bool
  | a :: b :: lines => decide (a.range.stop < b.range.start) && inAscendingOrder (b :: lines)
  | _ => true

/-- `for rows in lines { height += .. }`. -/
def addHeights (height : ℕ) : List DisplayedRows → Result ℕ
  | [] => .ok height
  | rows :: lines => do addHeights (height + (← rows.height)) lines

/-- `for rows in lines { height = height.saturating_sub(..) }`. -/
def subHeights (height : ℕ) : List DisplayedRows → Result ℕ
  | [] => .ok height
  | rows :: lines => do subHeights (height - (← rows.height)) lines

/-- The rows of all the ranges. -/
def allRows (lines : List DisplayedRows) : List ℕ := lines.flatMap fun rows => rows.range.rows

end DisplayedRows

/-- A location in a grid. -/
structure Point where
  row : ℕ
  col : ℕ
deriving DecidableEq, Repr

/-- `M` is the type of the row translation map, from original to displayed rows. -/
structure DisplayedOutput (M : Type) where
  displayedRows : List DisplayedRows
  height : ℕ
  rowTranslationMap : M

namespace DisplayedOutput

open DisplayedRows

variable {M : Type} [BiMap M ℕ ℕ]

/-- `DisplayedOutput::default`. -/
def default : DisplayedOutput M := ⟨[], 0, BiMap.empty⟩

/-- `DisplayedOutput::new_from_displayed_lines`. -/
def newFromDisplayedLines (displayedLines : List DisplayedRows) : Result (DisplayedOutput M) := do
  debugAssert (inAscendingOrder displayedLines)
  let height ← addHeights 0 displayedLines
  return ⟨displayedLines, height, BiMap.insertAll BiMap.empty 0 (allRows displayedLines)⟩

/-- `DisplayedOutput::append_to_row_translation`. -/
def appendToRowTranslation (o : DisplayedOutput M) (newLineRanges : List DisplayedRows) : M :=
  let lastDisplayedRow := (o.displayedRows.getLast?.map fun rows => rows.range.stop).getD 0
  let offsetRow :=
    match BiMap.getByLeft o.rowTranslationMap lastDisplayedRow with
    | some lastRowOffset => lastRowOffset + 1
    | none => 0
  BiMap.insertAll o.rowTranslationMap offsetRow (allRows newLineRanges)

/-- `DisplayedOutput::extend_displayed_lines`. -/
def extendDisplayedLines (o : DisplayedOutput M) (displayedLines : List DisplayedRows) :
    Result (DisplayedOutput M) := do
  let height ← addHeights o.height displayedLines
  let displayedRows := o.displayedRows ++ displayedLines
  debugAssert (inAscendingOrder displayedRows)
  return ⟨displayedRows, height, o.appendToRowTranslation displayedLines⟩

/-- `DisplayedOutput::prepend_displayed_lines`. -/
def prependDisplayedLines (o : DisplayedOutput M) (displayedLines : List DisplayedRows) :
    Result (DisplayedOutput M) := do
  let height ← addHeights o.height displayedLines
  let displayedRows := displayedLines ++ o.displayedRows
  debugAssert (inAscendingOrder displayedRows)
  return ⟨displayedRows, height, BiMap.insertAll BiMap.empty 0 (allRows displayedRows)⟩

/-- The offset of the first row that `replace_rows_from_row_translation` replaces. -/
def replaceOffset (rowTranslationMap : M) (displayedRows : List DisplayedRows) (start : ℕ) : ℕ :=
  let firstRowBeforeReplaceRange :=
    if start = 0 then none else displayedRows[start - 1]?.map fun rows => rows.range.stop
  match firstRowBeforeReplaceRange with
  | none => 0
  | some row =>
    match BiMap.getByLeft rowTranslationMap row with
    | some row => row + 1
    | none => 0

/-- `DisplayedOutput::replace_rows_from_row_translation`, where `displayedRows` are the new ones. -/
def replaceRowsFromRowTranslation (rowTranslationMap : M) (displayedRows : List DisplayedRows)
    (start : ℕ) : Result M := do
  let offsetRow := replaceOffset rowTranslationMap displayedRows start
  let lastOffsetRow := BiMap.len rowTranslationMap
  let rowTranslationMap :=
    BiMap.removeRange rowTranslationMap offsetRow (lastOffsetRow + 1 - offsetRow)
  let lines ← sliceRange displayedRows start displayedRows.length
  return BiMap.insertAll rowTranslationMap offsetRow (allRows lines)

/-- `DisplayedOutput::splice_displayed_lines`, with the lines it removes. -/
def spliceDisplayedLines (o : DisplayedOutput M) (start stop : ℕ)
    (displayedLines : List DisplayedRows) :
    Result (DisplayedOutput M × List DisplayedRows) := do
  let height ← addHeights o.height displayedLines
  let removed ← sliceRange o.displayedRows start stop
  let displayedRows := o.displayedRows.take start ++ displayedLines ++ o.displayedRows.drop stop
  let rowTranslationMap ← replaceRowsFromRowTranslation o.rowTranslationMap displayedRows start
  let height ← subHeights height removed
  debugAssert (inAscendingOrder displayedRows)
  return (⟨displayedRows, height, rowTranslationMap⟩, removed)

/-- The search of `truncate_to_row` from right to left, over the ranges with their indices. -/
def truncateIdx (row : ℕ) : List (DisplayedRows × ℕ) → Option ℕ → Option ℕ
  | [], idx => idx
  | (rows, i) :: rest, idx => if row > rows.range.stop then idx else truncateIdx row rest (some i)

omit [BiMap M ℕ ℕ] in
/-- `truncate_to_row` after its early returns. -/
def truncateRanges (o : DisplayedOutput M) (row : ℕ) : Result (DisplayedOutput M) :=
  match truncateIdx row o.displayedRows.zipIdx.reverse none with
  | none => .ok o
  | some idx =>
    match o.displayedRows.drop idx with
    | [] => .ok { o with displayedRows := o.displayedRows.take idx }
    | firstTruncated :: truncated => do
      let height ← subHeights (o.height - (← firstTruncated.height)) truncated
      if firstTruncated.range.contains row then
        let rows : DisplayedRows := ⟨⟨firstTruncated.range.start, row⟩, firstTruncated.source⟩
        return { o with
          displayedRows := o.displayedRows.take idx ++ [rows], height := height + (← rows.height) }
      else return { o with displayedRows := o.displayedRows.take idx, height := height }

omit [BiMap M ℕ ℕ] in
/-- `DisplayedOutput::truncate_to_row`. The map is left as it is. -/
def truncateToRow (o : DisplayedOutput M) (row : ℕ) : Result (DisplayedOutput M) :=
  match o.displayedRows.head? with
  | some first =>
    if row < first.range.start then .ok { o with displayedRows := [], height := 0 }
    else o.truncateRanges row
  | none =>
    match o.displayedRows.getLast? with
    | some last => if last.range.stop < row then .ok o else o.truncateRanges row
    | none => o.truncateRanges row

/-- `DisplayedOutput::reset`. -/
def reset (_ : DisplayedOutput M) : DisplayedOutput M := ⟨[], 0, BiMap.empty⟩

/-! ## Lookups -/

/-- `DisplayedOutput::is_displayed_row`. -/
def isDisplayedRow (o : DisplayedOutput M) (row : ℕ) : Bool :=
  (BiMap.getByLeft o.rowTranslationMap row).isSome

/-- `DisplayedOutput::maybe_translate_point_from_original_to_displayed`. -/
def maybeTranslatePointFromOriginalToDisplayed (o : DisplayedOutput M) (originalPoint : Point) :
    Point :=
  match BiMap.getByLeft o.rowTranslationMap originalPoint.row with
  | some row => ⟨row, originalPoint.col⟩
  | none => originalPoint

/-- `DisplayedOutput::maybe_translate_point_from_displayed_to_original`. -/
def maybeTranslatePointFromDisplayedToOriginal (o : DisplayedOutput M) (displayedPoint : Point) :
    Point :=
  match BiMap.getByRight o.rowTranslationMap displayedPoint.row with
  | some row => ⟨row, displayedPoint.col⟩
  | none => displayedPoint

/-- `DisplayedOutput::maybe_translate_row_from_displayed_to_original`. -/
def maybeTranslateRowFromDisplayedToOriginal (o : DisplayedOutput M) (displayedRow : ℕ) : ℕ :=
  (BiMap.getByRight o.rowTranslationMap displayedRow).getD displayedRow

/-- The binary search of `get_exact_or_next_displayed_row`. -/
def searchDisplayedRow (m : M) (target low high : ℕ) (candidate : Option ℕ) : Option ℕ :=
  if low ≤ high then
    let displayedRow := (high + low) / 2
    match BiMap.getByRight m displayedRow with
    | none => none
    | some originalRow =>
      if target < originalRow then
        -- `break` early to avoid underflowing
        if displayedRow = 0 then some displayedRow
        else searchDisplayedRow m target low (displayedRow - 1) (some displayedRow)
      else if originalRow < target then
        searchDisplayedRow m target (displayedRow + 1) high candidate
      else some displayedRow
  else candidate
termination_by high + 1 - low

/-- `DisplayedOutput::get_exact_or_next_displayed_row`. -/
def getExactOrNextDisplayedRow (o : DisplayedOutput M) (targetOriginalRow : ℕ) : Option ℕ :=
  if BiMap.len o.rowTranslationMap = 0 then none
  else
    match BiMap.getByLeft o.rowTranslationMap targetOriginalRow with
    | some displayedRow => some displayedRow
    | none =>
      searchDisplayedRow o.rowTranslationMap targetOriginalRow 0
        (BiMap.len o.rowTranslationMap - 1) none

end DisplayedOutput

end Clinch
