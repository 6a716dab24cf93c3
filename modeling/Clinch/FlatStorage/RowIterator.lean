import Clinch.FlatStorage.Storage

/-!
# Rows from flat storage

`flat_storage/row_iterator.rs`. The iterator writes the graphemes of a row into a grid row, each at
the first cell that was not touched since the row was reset.

* `writeGrapheme`, `writeGraphemes`: the loop over the graphemes of a row;
* `RowIterator`, `RowIterator.next`, `rowsFrom`, `popRows`.
-/

set_option autoImplicit false

namespace Clinch

namespace FlatStorage

/-- The cell of a grapheme: its characters, its colors and its style. -/
def graphemeCell (cell : Cell) (c : Char) (rest : List Char) (fg : Color) (style : BgAndStyle)
    (marker : Option StoredMarker) (offset : ℕ) : Cell :=
  let cell := rest.foldl Cell.pushZerowidth { cell with c := c }
  let cell := { cell with fg := fg, bg := style.bg, flags := style.flags }
  match marker with
  | some marker =>
    if marker.offset = offset then cell.markEndOfPrompt marker.hasExtraTrailingNewline else cell
  | none => cell

/-- Write a grapheme into the row. A wide one marks the next cell as a spacer. -/
def writeGrapheme (marker : Option StoredMarker) (row : Row) (offset : ℕ) (info : GraphemeInfo)
    (text : List Char) (fg : Color) (style : BgAndStyle) : Result Row :=
  match text with
  | [] => .error .unwrap
  | c :: rest =>
    match row.getMut row.occ fun cell => graphemeCell cell c rest fg style marker offset with
    | none => .error .assert
    | some row' =>
      if info.cellWidth = 2 then do
        let row' ← row'.indexMut row.occ fun cell =>
          { cell with flags := cell.flags.insert .wideChar }
        row'.indexMut (row.occ + 1) fun cell =>
          { cell with flags := cell.flags.insert .wideCharSpacer }
      else .ok row'

/-- The variables of `next` inside a row. -/
structure RowWrite where
  row : Row
  currentOffset : ℕ
  fgColorIter : AttributeIter Color
  bgAndStyleIter : AttributeIter BgAndStyle

/-- The loop over the graphemes of a row; a lone line feed ends it. -/
def writeGraphemes (s : FlatStorage) : List GraphemeInfo → RowWrite → Result Row
  | [], w => .ok w.row
  | info :: infos, w => do
    let content ← s.content.slice w.currentOffset (w.currentOffset + info.utf8Bytes)
    if content = newlineText then return w.row
    let (fg, fgColorIter) := w.fgColorIter.nth (info.utf8Bytes - 1)
    let (style, bgAndStyleIter) := w.bgAndStyleIter.nth (info.utf8Bytes - 1)
    let row ←
      if info.cellWidth = 0 then pure w.row
      else writeGrapheme s.endOfPromptMarker w.row w.currentOffset info (utf8Chars content) fg style
    writeGraphemes s infos ⟨row, w.currentOffset + info.utf8Bytes, fgColorIter, bgAndStyleIter⟩

/-- `RowIterator`. The template is a default cell. -/
structure RowIterator where
  rowIndex : ℕ
  row : Row

/-- `RowIterator::new`. -/
def RowIterator.new (s : FlatStorage) (startRow : ℕ) : RowIterator := ⟨startRow, Row.new s.columns⟩

/-- `last_mut().unwrap().flags_mut().insert(..)`, under a condition. -/
def flagLast (row : Row) (f : Flag) (condition : Bool) : Result Row :=
  if condition then unwrap (row.lastMut fun cell => { cell with flags := cell.flags.insert f })
  else .ok row

/-- `next`. -/
def RowIterator.next (s : FlatStorage) (iter : RowIterator) : Result (Option (Row × RowIterator)) :=
  match s.index.contentOffsetForRow iter.rowIndex, s.index.graphemeInfosForRow iter.rowIndex with
  | some startOffset, some infos => do
    let row ← iter.row.reset Cell.default
    let row ← s.writeGraphemes infos
      ⟨row, startOffset, s.fgColorMap.iterFrom startOffset, s.bgAndStyleMap.iterFrom startOffset⟩
    let entry ← unwrap (s.index.getEntry iter.rowIndex)
    let row ← flagLast row .wrapline (!entry.hasTrailingNewline)
    let row ← flagLast row .leadingWideCharSpacer entry.endsWithLeadingWideCharSpacer
    return some (row, ⟨iter.rowIndex + 1, row⟩)
  | _, _ => .ok none

/-- The rows that the iterator still returns, as many as the fuel allows. -/
def RowIterator.collect (s : FlatStorage) : ℕ → RowIterator → Result (List Row)
  | 0, _ => .ok []
  | fuel + 1, iter => do
    match ← iter.next s with
    | some (row, iter) => return row :: (← collect s fuel iter)
    | none => return []

/-- `rows_from`, collected. There is fuel for one row more than there are. -/
def rowsFrom (s : FlatStorage) (startRow : ℕ) : Result (List Row) :=
  (RowIterator.new s startRow).collect s (s.totalRows - startRow + 1)

/-- `pop_rows`; with the storage that is left the rows that are returned. -/
def popRows (s : FlatStorage) (count : ℕ) : Result (FlatStorage × List Row) := do
  let startRow := s.totalRows - count
  let rows ← s.rowsFrom startRow
  return (s.truncate startRow, rows)

end FlatStorage

end Clinch
