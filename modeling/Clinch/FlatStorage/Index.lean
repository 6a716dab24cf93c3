import Clinch.BTreeMap
import Clinch.Rust

/-!
# The row index of flat storage

`flat_storage/index.rs`. The index maps a row to the byte offset at which its content begins and to
the sizes of its graphemes, as runs of graphemes of one size. Offsets count all bytes the grid has
ever seen, so that they stay what they are when rows are dropped from the front. The debug
assertions are left out.

* `GraphemeInfo`, `GraphemeRun`, `Entry`, `Index`: the data;
* `EntryBuilder`: the entry of a row while its graphemes are processed;
* `Index.rebuild`, `Index.truncate`, `Index.truncateFront`: the operations on the rows;
* `Index.graphemeInfosForRow`: the graphemes of a row one by one.
-/

set_option autoImplicit false

namespace Clinch

namespace FlatStorage

/-! ## Graphemes and runs -/

/-- `GraphemeInfo`; `utf8_bytes` is a `NonZeroU16`. -/
structure GraphemeInfo where
  cellWidth : ℕ
  utf8Bytes : ℕ
  utf8Bytes_pos : 0 < utf8Bytes
  deriving DecidableEq

/-- `GraphemeRun`; `count` is a `NonZeroU16`. -/
structure GraphemeRun where
  count : ℕ
  info : GraphemeInfo
  count_pos : 0 < count
  deriving DecidableEq

/-- The number of cells of a run. -/
def GraphemeRun.cols (run : GraphemeRun) : ℕ := run.count * run.info.cellWidth

/-- The number of bytes of a run. -/
def GraphemeRun.bytes (run : GraphemeRun) : ℕ := run.count * run.info.utf8Bytes

/-- The graphemes of a run one by one. -/
def GraphemeRun.infos (run : GraphemeRun) : List GraphemeInfo := List.replicate run.count run.info

/-- The graphemes of a list of runs one by one. -/
def runInfos (runs : List GraphemeRun) : List GraphemeInfo := runs.flatMap GraphemeRun.infos

/-- The cells a list of graphemes takes. -/
def cellsOf (infos : List GraphemeInfo) : ℕ := (infos.map GraphemeInfo.cellWidth).sum

/-- The bytes a list of graphemes takes. -/
def bytesOf (infos : List GraphemeInfo) : ℕ := (infos.map GraphemeInfo.utf8Bytes).sum

/-- The match on `grapheme_runs.last_mut()` in `process_grapheme_info_unchecked`: the last run
counts one more grapheme, or a new run begins. A run counts with a `u16`. -/
def pushInfo : List GraphemeRun → GraphemeInfo → Result (List GraphemeRun)
  | [], info => .ok [⟨1, info, Nat.one_pos⟩]
  | [run], info =>
    if run.info = info then
      if run.count + 1 < 2 ^ 16 then .ok [⟨run.count + 1, info, Nat.succ_pos _⟩]
      else .error .unwrap
    else .ok [run, ⟨1, info, Nat.one_pos⟩]
  | run :: run' :: runs, info => do return run :: (← pushInfo (run' :: runs) info)

/-! ## The index -/

/-- `GraphemeSizing`. -/
inductive GraphemeSizing where
  | uniform (run : GraphemeRun)
  | nonUniform
  | emptyRow
  deriving DecidableEq

/-- `Entry`: what the index knows of a row. -/
structure Entry where
  contentOffset : ℕ
  graphemeSizing : GraphemeSizing
  hasTrailingNewline : Bool
  endsWithLeadingWideCharSpacer : Bool

/-- `Index`. The sizes of a row whose runs differ are in `graphemeSizing`, at the row's offset. -/
structure Index where
  rows : List Entry
  columns : ℕ
  contentLen : ℕ
  graphemeSizing : BTreeMap ℕ (List GraphemeRun)

/-- `Index::new`. -/
def Index.new (columns : ℕ) : Index := ⟨[], columns, 0, BTreeMap.empty⟩

/-- `Index::len`. -/
def Index.len (index : Index) : ℕ := index.rows.length

/-- `Index::get_entry`. -/
def Index.getEntry (index : Index) (row : ℕ) : Option Entry := index.rows[row]?

/-- `Index::content_offset_for_row`. -/
def Index.contentOffsetForRow (index : Index) (row : ℕ) : Option ℕ :=
  (index.rows[row]?).map Entry.contentOffset

/-- The runs of an entry, `none` where the map does not have them. -/
def Index.runsOf (index : Index) (entry : Entry) : Option (List GraphemeRun) :=
  match entry.graphemeSizing with
  | .uniform run => some [run]
  | .nonUniform => index.graphemeSizing.get entry.contentOffset
  | .emptyRow => some []

/-- `Index::grapheme_runs_for_row`. -/
def Index.graphemeRunsForRow (index : Index) (row : ℕ) : Option (List GraphemeRun) :=
  (index.getEntry row).bind index.runsOf

/-- `Index::grapheme_infos_for_row`. -/
def Index.graphemeInfosForRow (index : Index) (row : ℕ) : Option (List GraphemeInfo) :=
  (index.graphemeRunsForRow row).map runInfos

/-- `Index::truncate`; with it the new content length, which is returned. -/
def Index.truncate (index : Index) (newLen : ℕ) : Index × ℕ :=
  match index.contentOffsetForRow newLen with
  | none => (index, index.contentLen)
  | some newContentLen =>
    ({ index with
        rows := index.rows.take newLen
        contentLen := newContentLen
        graphemeSizing := index.graphemeSizing.below newContentLen }, newContentLen)

/-- `Index::truncate_front`; with it the new start offset, which is returned. -/
def Index.truncateFront (index : Index) (count : ℕ) : Index × ℕ :=
  let newStartOffset := (index.contentOffsetForRow count).getD index.contentLen
  ({ index with
      rows := index.rows.drop count
      graphemeSizing := index.graphemeSizing.splitOff newStartOffset }, newStartOffset)

/-! ## Building an entry -/

/-- `EntryBuilder`. -/
structure EntryBuilder where
  numCells : ℕ
  incrContentOffset : ℕ
  hasTrailingNewline : Bool
  endsWithLeadingWideCharSpacer : Bool
  graphemeRuns : List GraphemeRun

namespace EntryBuilder

/-- `EntryBuilder::new`. -/
def new : EntryBuilder := ⟨0, 0, false, false, []⟩

/-- `process_grapheme_info_unchecked`. -/
def processGraphemeInfoUnchecked (b : EntryBuilder) (info : GraphemeInfo) :
    Result EntryBuilder := do
  let runs ← pushInfo b.graphemeRuns info
  return { b with
    incrContentOffset := b.incrContentOffset + info.utf8Bytes
    graphemeRuns := runs }

/-- `add_trailing_newline`. -/
def addTrailingNewline (b : EntryBuilder) : EntryBuilder :=
  { b with incrContentOffset := b.incrContentOffset + 1, hasTrailingNewline := true }

/-- `add_leading_wide_char_spacer`. -/
def addLeadingWideCharSpacer (b : EntryBuilder) : EntryBuilder :=
  { b with endsWithLeadingWideCharSpacer := true }

/-- The sizing of the entry that `append_to_index` builds. -/
def sizing : List GraphemeRun → GraphemeSizing
  | [] => .emptyRow
  | [run] => .uniform run
  | _ :: _ :: _ => .nonUniform

/-- `append_to_index`. -/
def appendToIndex (b : EntryBuilder) (index : Index) : Index :=
  { index with
    rows := index.rows ++
      [⟨index.contentLen, sizing b.graphemeRuns, b.hasTrailingNewline,
        b.endsWithLeadingWideCharSpacer⟩]
    contentLen := index.contentLen + b.incrContentOffset
    graphemeSizing :=
      if 2 ≤ b.graphemeRuns.length then index.graphemeSizing.insert index.contentLen b.graphemeRuns
      else index.graphemeSizing }

/-- `is_empty`. -/
def isEmpty (b : EntryBuilder) : Bool :=
  b.incrContentOffset == 0 && !b.hasTrailingNewline && !b.endsWithLeadingWideCharSpacer &&
    b.graphemeRuns.isEmpty

/-- `append_to_index_if_nonempty`. -/
def appendToIndexIfNonempty (b : EntryBuilder) (index : Index) : Index :=
  if b.isEmpty then index else b.appendToIndex index

/-- `process_grapheme_info`: a grapheme that does not fit ends the row and begins the next. -/
def processGraphemeInfo (b : EntryBuilder) (info : GraphemeInfo) (index : Index) :
    Result (EntryBuilder × Index) := do
  if info.cellWidth = 0 then return (b, index)
  if index.columns < b.numCells + info.cellWidth then
    let b := if 1 < info.cellWidth ∧ b.numCells ≠ index.columns then b.addLeadingWideCharSpacer
      else b
    let b' ← { new with numCells := info.cellWidth }.processGraphemeInfoUnchecked info
    return (b', b.appendToIndex index)
  let b' ← { b with numCells := b.numCells + info.cellWidth }.processGraphemeInfoUnchecked info
  return (b', index)

/-- `process_grapheme` for `Grapheme::NEWLINE`. -/
def processNewline (b : EntryBuilder) (index : Index) : EntryBuilder × Index :=
  (new, b.addTrailingNewline.appendToIndex index)

end EntryBuilder

/-! ## Another number of columns -/

/-- One turn of the loop of `Index::rebuild`: the graphemes of a row of the old index, then its
newline. -/
def Index.rebuildRow (oldIndex : Index) (s : EntryBuilder × Index) (row : ℕ) :
    Result (EntryBuilder × Index) := do
  let (b, index) ← ((oldIndex.graphemeInfosForRow row).getD []).foldlM
    (fun s info => s.1.processGraphemeInfo info s.2) s
  let entry ← unwrap (oldIndex.getEntry row)
  return if entry.hasTrailingNewline then b.processNewline index else (b, index)

/-- `Index::rebuild`. -/
def Index.rebuild (oldIndex : Index) (columns : ℕ) : Result Index := do
  let start := (oldIndex.contentOffsetForRow 0).getD oldIndex.contentLen
  let (b, index) ← (List.range oldIndex.len).foldlM oldIndex.rebuildRow
    (EntryBuilder.new, { Index.new columns with contentLen := start })
  return b.appendToIndexIfNonempty index

end FlatStorage

end Clinch
