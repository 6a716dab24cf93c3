import Clinch.FlatStorage.AttributeMap
import Clinch.FlatStorage.Content
import Clinch.FlatStorage.Index
import Clinch.Grid.Row

/-!
# Flat storage

`flat_storage/mod.rs`. Rows are pushed at the end: the graphemes of a row go to the content, their
sizes to the index and the changes of color and style to the attribute maps. Cells without content
at the end of a row are not stored.

* `Grapheme`, `Grapheme.newFromCell`: the text of a cell and its size;
* `FlatStorage`, `pushCell`, `pushRow`, `pushRowsInternal`: pushing rows;
* `truncate`, `truncateRowsFront`, `applyMaxRows`, `setColumns`: the other operations.
-/

set_option autoImplicit false

namespace Clinch

/-! ## Graphemes -/

namespace FlatStorage

/-- `Grapheme`: its size and the bytes of its text. -/
structure Grapheme where
  info : GraphemeInfo
  content : List UInt8

/-- `Grapheme::EMPTY_CELL`. -/
def Grapheme.emptyCell : Grapheme := ⟨⟨1, 1, Nat.one_pos⟩, utf8 [defaultChar]⟩

/-- The text of `Grapheme::NEWLINE`. -/
def newlineText : List UInt8 := utf8 ['\n']

/-- `Grapheme::new_from_cell`. -/
def Grapheme.newFromCell (cell : Cell) : Result Grapheme :=
  let content := utf8 cell.rawContent
  if h : 0 < content.length ∧ content.length < 2 ^ 16 then
    .ok ⟨⟨1 + (cell.flags.has .wideChar).toNat, content.length, h.1⟩, content⟩
  else .error .unwrap

/-- `flat_storage::EndOfPromptMarker`. -/
structure StoredMarker where
  offset : ℕ
  hasExtraTrailingNewline : Bool

end FlatStorage

open FlatStorage

/-- `FlatStorage`. -/
structure FlatStorage where
  content : Content
  index : Index
  columns : ℕ
  fgColorMap : AttributeMap Color
  bgAndStyleMap : AttributeMap BgAndStyle
  endOfPromptMarker : Option StoredMarker
  maxRows : Option ℕ
  numTruncatedRows : ℕ

namespace FlatStorage

/-- `FlatStorage::new`. -/
def new (columns : ℕ) (maxRows : Option ℕ) : FlatStorage where
  content := Content.new
  index := Index.new columns
  columns := columns
  fgColorMap := AttributeMap.new (.named .foreground)
  bgAndStyleMap := AttributeMap.new BgAndStyle.default
  endOfPromptMarker := none
  maxRows := maxRows
  numTruncatedRows := 0

/-- `total_rows`. -/
def totalRows (s : FlatStorage) : ℕ := s.index.len

/-! ## Pushing rows -/

/-- The variables of `push_rows_internal` inside a row. -/
structure RowPush where
  storage : FlatStorage
  fgColor : Color
  bgAndStyle : BgAndStyle
  entryBuilder : EntryBuilder
  lastCell : ℤ
  offset : ℕ
  idx : ℤ

namespace RowPush

/-- The changes of color and style and the end of prompt marker of a cell; whether there is one. -/
def noteAttributes (p : RowPush) (cell : Cell) : RowPush × Bool :=
  let (p, needsProcessing) :=
    if cell.fg ≠ p.fgColor then
      ({ p with
          fgColor := cell.fg
          storage := { p.storage with
            fgColorMap := p.storage.fgColorMap.pushAttributeChange p.offset cell.fg } }, true)
    else (p, !cell.isEmpty)
  let (p, needsProcessing) :=
    if p.bgAndStyle ≠ BgAndStyle.ofCell cell then
      ({ p with
          bgAndStyle := BgAndStyle.ofCell cell
          storage := { p.storage with
            bgAndStyleMap :=
              p.storage.bgAndStyleMap.pushAttributeChange p.offset (BgAndStyle.ofCell cell) } },
        true)
    else (p, needsProcessing)
  match cell.endOfPromptMarker with
  | some marker =>
    ({ p with
        storage := { p.storage with
          endOfPromptMarker := some ⟨p.offset, marker.hasExtraTrailingNewline⟩ } }, true)
  | none => (p, needsProcessing)

/-- A grapheme goes to the index and to the content. -/
def store (p : RowPush) (grapheme : Grapheme) : Result RowPush := do
  let entryBuilder ← p.entryBuilder.processGraphemeInfoUnchecked grapheme.info
  let content ← p.storage.content.pushGrapheme grapheme.content
  return { p with entryBuilder := entryBuilder, storage := { p.storage with content := content } }

/-- The empty cells that were skipped are stored after all. -/
def fillGap : ℕ → RowPush → Result RowPush
  | 0, p => .ok p
  | n + 1, p => do fillGap n (← p.store Grapheme.emptyCell)

/-- A cell with content, a color, a style or a marker of its own is stored. -/
def pushContent (p : RowPush) (cell : Cell) : Result RowPush := do
  let (p, needsProcessing) := p.noteAttributes cell
  let grapheme ← Grapheme.newFromCell cell
  let p := { p with offset := p.offset + grapheme.info.utf8Bytes }
  if needsProcessing then
    let p ← fillGap (p.idx - 1 - p.lastCell).toNat p
    let p := { p with lastCell := p.idx }
    p.store grapheme
  else return p

/-- One turn of the loop over the dirty cells of a row. -/
def pushCell (p : RowPush) (cell : Cell) : Result RowPush :=
  let p := { p with idx := p.idx + 1 }
  if cell.flags.intersects [.wideCharSpacer, .leadingWideCharSpacer] then
    .ok { p with
      entryBuilder :=
        if cell.flags.intersects [.leadingWideCharSpacer] then
          p.entryBuilder.addLeadingWideCharSpacer
        else p.entryBuilder
      lastCell := p.idx }
  else p.pushContent cell

end RowPush

/-- Whether a row of the grid soft-wraps. -/
def rowSoftWraps (columns : ℕ) (row : Row) : Result Bool :=
  if row.occ = columns then do
    let cell ← Clinch.index row.inner (← checkedSub columns 1)
    return cell.flags.intersects [.wrapline]
  else return false

/-- The storage and the color and style of the last cell. -/
structure RowsPush where
  storage : FlatStorage
  fgColor : Color
  bgAndStyle : BgAndStyle

/-- The loop over the dirty cells of a row. -/
def pushCells (p : RowsPush) (row : Row) : Result RowPush := do
  let cells ← row.dirtyCells
  cells.foldlM RowPush.pushCell
    ⟨p.storage, p.fgColor, p.bgAndStyle, EntryBuilder.new, -1, p.storage.content.endOffset, -1⟩

/-- One turn of the loop over the rows. -/
def pushRow (p : RowsPush) (row : Row) : Result RowsPush := do
  let q ← pushCells p row
  let softWraps ← rowSoftWraps q.storage.columns row
  let entryBuilder := if softWraps then q.entryBuilder else q.entryBuilder.addTrailingNewline
  let content ← if softWraps then pure q.storage.content
    else q.storage.content.pushGrapheme newlineText
  return ⟨{ q.storage with
    content := content
    index := entryBuilder.appendToIndex q.storage.index }, q.fgColor, q.bgAndStyle⟩

/-- `push_rows_internal`, and `push_rows_without_truncation`. -/
def pushRowsInternal (s : FlatStorage) (rows : List Row) : Result FlatStorage := do
  let p ← rows.foldlM pushRow ⟨s, s.fgColorMap.tail, s.bgAndStyleMap.tail⟩
  return p.storage

/-! ## The other operations -/

/-- `truncate`. -/
def truncate (s : FlatStorage) (newLen : ℕ) : FlatStorage :=
  let (index, newContentLen) := s.index.truncate newLen
  { s with
    index := index
    content := s.content.truncate newContentLen
    fgColorMap := s.fgColorMap.truncate newContentLen
    bgAndStyleMap := s.bgAndStyleMap.truncate newContentLen
    endOfPromptMarker := s.endOfPromptMarker.filter fun marker => marker.offset < newContentLen }

/-- `clear`. -/
def clear (s : FlatStorage) : FlatStorage := s.truncate 0

/-- `truncate_rows_front`. -/
def truncateRowsFront (s : FlatStorage) (count : ℕ) : FlatStorage :=
  if count = 0 then s
  else
    let count := min count s.totalRows
    let (index, newStartOffset) := s.index.truncateFront count
    { s with
      index := index
      content := s.content.truncateFront newStartOffset
      fgColorMap := s.fgColorMap.truncateFront newStartOffset
      bgAndStyleMap := s.bgAndStyleMap.truncateFront newStartOffset
      numTruncatedRows := s.numTruncatedRows + count }

/-- `apply_max_rows`. -/
def applyMaxRows (s : FlatStorage) : FlatStorage :=
  match s.maxRows with
  | some maxRows => if maxRows ≤ s.totalRows then s.truncateRowsFront (s.totalRows - maxRows) else s
  | none => s

/-- `push_rows`. -/
def pushRows (s : FlatStorage) (rows : List Row) : Result FlatStorage := do
  let s ← s.pushRowsInternal rows
  return s.applyMaxRows

/-- `set_columns`. -/
def setColumns (s : FlatStorage) (newColumns : ℕ) : Result FlatStorage :=
  if s.columns = newColumns then .ok s
  else do
    let index ← s.index.rebuild newColumns
    return { s with columns := newColumns, index := index }

/-- `set_max_rows`. -/
def setMaxRows (s : FlatStorage) (maxRows : Option ℕ) : FlatStorage :=
  { s with maxRows := maxRows }.applyMaxRows

/-- `row_wraps`. -/
def rowWraps (s : FlatStorage) (row : ℕ) : Bool :=
  (s.index.getEntry row).any fun entry => !entry.hasTrailingNewline

end FlatStorage

end Clinch
