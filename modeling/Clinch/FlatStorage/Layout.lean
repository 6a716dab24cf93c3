import Clinch.FlatStorage.Index

/-!
# What an index stores

An index stands for a list of rows and the offset at which they begin: the entries follow from the
rows, each beginning where the one before it ends. Every operation of the index is one on the list
of rows.

* `StoredRow`, `entries`, `Sized`, `Index.Stores`: the rows an index stands for;
* `Stores.getEntry`, `Stores.runsOf`: what is read of a row;
* `Stores.appendToIndex`, `Stores.truncate`, `Stores.truncateFront`: the operations on the rows;
* **`Stores.rebuild`**: another number of columns leaves the graphemes and newlines as they were.
-/

set_option autoImplicit false

namespace Clinch

namespace FlatStorage

/-! ## Sizes -/

theorem cellsOf_append (a b : List GraphemeInfo) : cellsOf (a ++ b) = cellsOf a + cellsOf b := by
  rw [cellsOf, List.map_append, List.sum_append, cellsOf, cellsOf]

theorem cellsOf_cons (a : GraphemeInfo) (b : List GraphemeInfo) :
    cellsOf (a :: b) = a.cellWidth + cellsOf b := by
  rw [cellsOf, List.map_cons, List.sum_cons, cellsOf]

theorem bytesOf_append (a b : List GraphemeInfo) : bytesOf (a ++ b) = bytesOf a + bytesOf b := by
  rw [bytesOf, List.map_append, List.sum_append, bytesOf, bytesOf]

theorem bytesOf_cons (a : GraphemeInfo) (b : List GraphemeInfo) :
    bytesOf (a :: b) = a.utf8Bytes + bytesOf b := by
  rw [bytesOf, List.map_cons, List.sum_cons, bytesOf]

@[simp] theorem cellsOf_nil : cellsOf [] = 0 := rfl

@[simp] theorem bytesOf_nil : bytesOf [] = 0 := rfl

@[simp] theorem runInfos_nil : runInfos [] = [] := rfl

theorem runInfos_cons (run : GraphemeRun) (runs : List GraphemeRun) :
    runInfos (run :: runs) = run.infos ++ runInfos runs := List.flatMap_cons

theorem cellsOf_infos (run : GraphemeRun) : cellsOf run.infos = run.cols := by
  simp [cellsOf, GraphemeRun.infos, GraphemeRun.cols]

theorem bytesOf_infos (run : GraphemeRun) : bytesOf run.infos = run.bytes := by
  simp [bytesOf, GraphemeRun.infos, GraphemeRun.bytes]

theorem mem_infos {run : GraphemeRun} {info : GraphemeInfo} :
    info ∈ run.infos ↔ info = run.info := by
  rw [GraphemeRun.infos, List.mem_replicate]
  exact and_iff_right run.count_pos.ne'

theorem run_bytes_pos (run : GraphemeRun) : 0 < run.bytes :=
  Nat.mul_pos run.count_pos run.info.utf8Bytes_pos

theorem bytesOf_runInfos_pos {runs : List GraphemeRun} (h : runs ≠ []) :
    0 < bytesOf (runInfos runs) := by
  obtain ⟨run, runs, rfl⟩ := List.exists_cons_of_ne_nil h
  have := run_bytes_pos run
  rw [runInfos_cons, bytesOf_append, bytesOf_infos]
  omega

/-- The runs count the graphemes that were pushed, in order. -/
theorem runInfos_pushInfo {runs runs' : List GraphemeRun} {info : GraphemeInfo}
    (h : pushInfo runs info = .ok runs') : runInfos runs' = runInfos runs ++ [info] := by
  induction runs generalizing runs' with
  | nil =>
    cases h
    rfl
  | cons run runs ih =>
    cases runs with
    | nil =>
      simp only [pushInfo] at h
      split at h
      · rename_i hinfo
        split at h
        · cases h
          simp [runInfos, GraphemeRun.infos, ← hinfo, List.replicate_succ']
        · exact nomatch h
      · cases h
        simp [runInfos, GraphemeRun.infos]
    | cons run' runs =>
      obtain ⟨runs'', h', e⟩ := bind_eq_ok h
      cases e
      rw [runInfos_cons, ih h', runInfos_cons run, List.append_assoc]

/-! ## The rows -/

/-- A row as it is stored: its runs, whether a newline follows them, and whether a wide character
had to wrap at its end. -/
structure StoredRow where
  runs : List GraphemeRun
  newline : Bool
  leading : Bool

namespace StoredRow

/-- The graphemes of the row one by one. -/
def infos (row : StoredRow) : List GraphemeInfo := runInfos row.runs

/-- The bytes of the row, with its newline. -/
def bytes (row : StoredRow) : ℕ := bytesOf row.infos + row.newline.toNat

/-- The entry of the row when its content begins at `offset`. -/
def entry (row : StoredRow) (offset : ℕ) : Entry :=
  ⟨offset, EntryBuilder.sizing row.runs, row.newline, row.leading⟩

/-- What the row holds: its graphemes, then its newline as a `none`. -/
def stream (row : StoredRow) : List (Option GraphemeInfo) :=
  row.infos.map some ++ if row.newline then [none] else []

/-- The row is no wider than the grid, with its leading wide character spacer. -/
def Fits (columns : ℕ) (row : StoredRow) : Prop :=
  cellsOf row.infos + row.leading.toNat ≤ columns

end StoredRow

/-- The bytes of the rows. -/
def totalBytes (rows : List StoredRow) : ℕ := (rows.map StoredRow.bytes).sum

/-- What the rows hold one after another. -/
def streamOf (rows : List StoredRow) : List (Option GraphemeInfo) := rows.flatMap StoredRow.stream

/-- The entries of the rows when the first begins at the offset. -/
def entries : ℕ → List StoredRow → List Entry
  | _, [] => []
  | offset, row :: rows => row.entry offset :: entries (offset + row.bytes) rows

/-- The map has the runs of every row with more than one run. -/
def Sized (m : BTreeMap ℕ (List GraphemeRun)) : ℕ → List StoredRow → Prop
  | _, [] => True
  | offset, row :: rows =>
    (2 ≤ row.runs.length → m.get offset = some row.runs) ∧ Sized m (offset + row.bytes) rows

/-- The index stores the rows, from the offset `start` on. -/
structure Index.Stores (index : Index) (start : ℕ) (rows : List StoredRow) : Prop where
  rows_eq : index.rows = entries start rows
  contentLen_eq : index.contentLen = start + totalBytes rows
  sized : Sized index.graphemeSizing start rows
  width_pos : ∀ row ∈ rows, ∀ info ∈ row.infos, 0 < info.cellWidth

@[simp] theorem totalBytes_nil : totalBytes [] = 0 := rfl

theorem totalBytes_cons (row : StoredRow) (rows : List StoredRow) :
    totalBytes (row :: rows) = row.bytes + totalBytes rows := by
  rw [totalBytes, List.map_cons, List.sum_cons, totalBytes]

theorem totalBytes_append (a b : List StoredRow) :
    totalBytes (a ++ b) = totalBytes a + totalBytes b := by
  rw [totalBytes, List.map_append, List.sum_append, totalBytes, totalBytes]

theorem streamOf_append (a b : List StoredRow) : streamOf (a ++ b) = streamOf a ++ streamOf b :=
  List.flatMap_append

theorem length_entries (offset : ℕ) (rows : List StoredRow) :
    (entries offset rows).length = rows.length := by
  induction rows generalizing offset with
  | nil => rfl
  | cons row rows ih => rw [entries, List.length_cons, ih, List.length_cons]

theorem entries_append (offset : ℕ) (a b : List StoredRow) :
    entries offset (a ++ b) = entries offset a ++ entries (offset + totalBytes a) b := by
  induction a generalizing offset with
  | nil => rfl
  | cons row a ih =>
    rw [List.cons_append, entries, ih, entries, totalBytes_cons, Nat.add_assoc, List.cons_append]

theorem sized_append {m : BTreeMap ℕ (List GraphemeRun)} {offset : ℕ} {a b : List StoredRow} :
    Sized m offset (a ++ b) ↔ Sized m offset a ∧ Sized m (offset + totalBytes a) b := by
  induction a generalizing offset with
  | nil => simp [Sized]
  | cons row a ih =>
    rw [List.cons_append, Sized, ih, Sized, totalBytes_cons, and_assoc, Nat.add_assoc]

theorem row_bytes_pos {row : StoredRow} (h : row.runs ≠ []) : 0 < row.bytes :=
  Nat.lt_of_lt_of_le (bytesOf_runInfos_pos h) (Nat.le_add_right _ _)

/-- A row with more than one run begins before the content ends, so that a map with the same
values before that has the runs as well. -/
theorem sized_congr {m m' : BTreeMap ℕ (List GraphemeRun)} {offset : ℕ} {rows : List StoredRow}
    (h : Sized m offset rows)
    (hm : ∀ k, offset ≤ k → k < offset + totalBytes rows → m'.get k = m.get k) :
    Sized m' offset rows := by
  induction rows generalizing offset with
  | nil => trivial
  | cons row rows ih =>
    rw [totalBytes_cons] at hm
    refine ⟨fun hlen => ?_, ih h.2 fun k hk hk' => hm k (by omega) (by omega)⟩
    have hpos : 0 < row.bytes := row_bytes_pos (List.ne_nil_of_length_pos (by omega))
    rw [hm offset le_rfl (by omega)]
    exact h.1 hlen

/-! ## Reading a row -/

theorem getElem?_entries (offset : ℕ) (rows : List StoredRow) (i : ℕ) :
    (entries offset rows)[i]? =
      (rows[i]?).map fun row => row.entry (offset + totalBytes (rows.take i)) := by
  induction rows generalizing offset i with
  | nil => rfl
  | cons row rows ih =>
    cases i with
    | zero => rfl
    | succ i =>
      rw [entries, List.getElem?_cons_succ, ih, List.getElem?_cons_succ, List.take_succ_cons,
        totalBytes_cons, Nat.add_assoc]

theorem totalBytes_take_le (rows : List StoredRow) (i : ℕ) :
    totalBytes (rows.take i) ≤ totalBytes rows := by
  calc totalBytes (rows.take i) ≤ totalBytes (rows.take i) + totalBytes (rows.drop i) :=
        Nat.le_add_right _ _
    _ = totalBytes rows := by rw [← totalBytes_append, List.take_append_drop]

namespace Index.Stores

variable {index : Index} {start : ℕ} {rows : List StoredRow}

theorem length (h : index.Stores start rows) : index.rows.length = rows.length := by
  rw [h.rows_eq, length_entries]

theorem getEntry (h : index.Stores start rows) (i : ℕ) :
    index.getEntry i =
      (rows[i]?).map fun row => row.entry (start + totalBytes (rows.take i)) := by
  rw [Index.getEntry, h.rows_eq, getElem?_entries]

theorem contentOffsetForRow (h : index.Stores start rows) (i : ℕ) :
    index.contentOffsetForRow i =
      (rows[i]?).map fun _ => start + totalBytes (rows.take i) := by
  have := h.getEntry i
  rw [Index.getEntry] at this
  rw [Index.contentOffsetForRow, this, Option.map_map]
  rfl

/-- The runs of a stored row are found at its entry. -/
theorem runsOf (h : index.Stores start rows) {i : ℕ} {row : StoredRow} (hi : rows[i]? = some row) :
    index.runsOf (row.entry (start + totalBytes (rows.take i))) = some row.runs := by
  obtain ⟨runs, newline, leading⟩ := row
  match runs with
  | [] => rfl
  | [run] => rfl
  | run :: run' :: runs =>
    obtain ⟨hlt, hget⟩ := List.getElem?_eq_some_iff.mp hi
    have hs := h.sized
    rw [← List.take_append_drop i rows, sized_append, List.drop_eq_getElem_cons hlt, hget] at hs
    exact hs.2.1 (by simp)

theorem graphemeRunsForRow (h : index.Stores start rows) (i : ℕ) :
    index.graphemeRunsForRow i = (rows[i]?).map StoredRow.runs := by
  rw [Index.graphemeRunsForRow, h.getEntry]
  cases hi : rows[i]? with
  | none => rfl
  | some row => exact h.runsOf hi

theorem graphemeInfosForRow (h : index.Stores start rows) (i : ℕ) :
    index.graphemeInfosForRow i = (rows[i]?).map StoredRow.infos := by
  rw [Index.graphemeInfosForRow, h.graphemeRunsForRow, Option.map_map]
  rfl

end Index.Stores

/-! ## The operations -/

/-- The row an entry builder has built so far. -/
def EntryBuilder.row (b : EntryBuilder) : StoredRow :=
  ⟨b.graphemeRuns, b.hasTrailingNewline, b.endsWithLeadingWideCharSpacer⟩

/-- The builder counts the bytes of its row, and every grapheme takes a cell. -/
structure EntryBuilder.Counts (b : EntryBuilder) : Prop where
  bytes : b.incrContentOffset = b.row.bytes
  width_pos : ∀ info ∈ b.row.infos, 0 < info.cellWidth

namespace EntryBuilder.Counts

variable {b b' : EntryBuilder}

theorem new : EntryBuilder.new.Counts := ⟨rfl, fun _ h => nomatch h⟩

theorem addLeadingWideCharSpacer (h : b.Counts) : b.addLeadingWideCharSpacer.Counts :=
  ⟨h.bytes, h.width_pos⟩

theorem addTrailingNewline (h : b.Counts) (hopen : b.hasTrailingNewline = false) :
    b.addTrailingNewline.Counts := by
  refine ⟨?_, h.width_pos⟩
  have hb := h.bytes
  simp only [row, StoredRow.bytes, hopen, Bool.toNat_false] at hb
  simp only [EntryBuilder.addTrailingNewline, row, StoredRow.bytes, Bool.toNat_true, hb]
  rfl

end EntryBuilder.Counts

/-- What one more grapheme does to the row of a builder. -/
theorem EntryBuilder.processGraphemeInfoUnchecked_ok {b b' : EntryBuilder} {info : GraphemeInfo}
    (h : b.processGraphemeInfoUnchecked info = .ok b') :
    b'.row.infos = b.row.infos ++ [info] ∧ b'.numCells = b.numCells ∧
      b'.incrContentOffset = b.incrContentOffset + info.utf8Bytes ∧
      b'.hasTrailingNewline = b.hasTrailingNewline ∧
      b'.endsWithLeadingWideCharSpacer = b.endsWithLeadingWideCharSpacer := by
  obtain ⟨runs, hruns, e⟩ := bind_eq_ok h
  cases e
  exact ⟨runInfos_pushInfo hruns, rfl, rfl, rfl, rfl⟩

theorem EntryBuilder.Counts.processGraphemeInfoUnchecked {b b' : EntryBuilder}
    {info : GraphemeInfo} (h : b.Counts) (hw : 0 < info.cellWidth)
    (hok : b.processGraphemeInfoUnchecked info = .ok b') : b'.Counts := by
  obtain ⟨hinfos, -, hincr, hnewline, -⟩ := EntryBuilder.processGraphemeInfoUnchecked_ok hok
  refine ⟨?_, fun i hi => ?_⟩
  · have hb := h.bytes
    rw [StoredRow.bytes] at hb ⊢
    rw [hincr, hinfos, bytesOf_append, bytesOf_cons, bytesOf_nil, hb]
    simp only [row, hnewline]
    omega
  · rw [hinfos, List.mem_append, List.mem_singleton] at hi
    rcases hi with hi | rfl
    · exact h.width_pos i hi
    · exact hw

namespace Index.Stores

variable {index : Index} {start : ℕ} {rows : List StoredRow}

theorem new (columns start : ℕ) :
    ({ Index.new columns with contentLen := start } : Index).Stores start [] :=
  ⟨rfl, rfl, trivial, fun _ h => nomatch h⟩

theorem appendToIndex {b : EntryBuilder} (h : index.Stores start rows) (hb : b.Counts) :
    (b.appendToIndex index).Stores start (rows ++ [b.row]) := by
  constructor
  · rw [entries_append, ← h.contentLen_eq, ← h.rows_eq]
    rfl
  · rw [totalBytes_append, ← Nat.add_assoc, ← h.contentLen_eq, totalBytes_cons, ← hb.bytes]
    rfl
  · rw [sized_append, ← h.contentLen_eq]
    refine ⟨sized_congr h.sized fun k _ hk => ?_, fun hlen => ?_, trivial⟩
    · rw [← h.contentLen_eq] at hk
      simp only [EntryBuilder.appendToIndex]
      split
      · exact BTreeMap.get_insert_ne _ (by omega) _
      · rfl
    · have hlen' : 2 ≤ b.graphemeRuns.length := hlen
      simp only [EntryBuilder.appendToIndex, if_pos hlen', BTreeMap.get_insert_self]
      rfl
  · intro row hrow
    rcases List.mem_append.mp hrow with hrow | hrow
    · exact h.width_pos row hrow
    · rw [List.mem_singleton.mp hrow]
      exact hb.width_pos

theorem appendToIndexIfNonempty {b : EntryBuilder} (h : index.Stores start rows) (hb : b.Counts) :
    (b.appendToIndexIfNonempty index).Stores start
      (if b.isEmpty then rows else rows ++ [b.row]) := by
  rw [EntryBuilder.appendToIndexIfNonempty]
  split
  · exact h
  · exact h.appendToIndex hb

theorem truncate (h : index.Stores start rows) (newLen : ℕ) :
    (index.truncate newLen).1.Stores start (rows.take newLen) ∧
      (index.truncate newLen).2 = start + totalBytes (rows.take newLen) := by
  rw [Index.truncate, h.contentOffsetForRow]
  cases hi : rows[newLen]? with
  | none =>
    have htake : rows.take newLen = rows :=
      List.take_of_length_le (List.getElem?_eq_none_iff.mp hi)
    rw [htake]
    exact ⟨h, h.contentLen_eq⟩
  | some row =>
    have hsplit := List.take_append_drop newLen rows
    have hlen : (rows.take newLen).length = newLen :=
      List.length_take_of_le (List.getElem?_eq_some_iff.mp hi).1.le
    refine ⟨⟨?_, rfl, ?_, fun r hr => h.width_pos r (List.mem_of_mem_take hr)⟩, rfl⟩
    · change index.rows.take newLen = _
      rw [h.rows_eq]
      conv_lhs => rw [← hsplit, entries_append]
      exact List.take_left' (by rw [length_entries, hlen])
    · have hs := h.sized
      rw [← hsplit, sized_append] at hs
      exact sized_congr hs.1 fun k _ hk => BTreeMap.get_below _ hk

theorem truncateFront (h : index.Stores start rows) (count : ℕ) :
    (index.truncateFront count).1.Stores (start + totalBytes (rows.take count))
        (rows.drop count) ∧
      (index.truncateFront count).2 = start + totalBytes (rows.take count) := by
  have hstart : (index.contentOffsetForRow count).getD index.contentLen =
      start + totalBytes (rows.take count) := by
    rw [h.contentOffsetForRow]
    cases hi : rows[count]? with
    | none => rw [List.take_of_length_le (List.getElem?_eq_none_iff.mp hi)]; exact h.contentLen_eq
    | some row => rfl
  have hsplit := List.take_append_drop count rows
  refine ⟨⟨?_, ?_, ?_, fun r hr => h.width_pos r (List.mem_of_mem_drop hr)⟩, hstart⟩
  · change index.rows.drop count = _
    rw [h.rows_eq]
    rcases Nat.le_total count rows.length with hle | hle
    · conv_lhs => rw [← hsplit, entries_append]
      exact List.drop_left' (by rw [length_entries, List.length_take_of_le hle])
    · rw [List.drop_eq_nil_of_le hle, List.drop_eq_nil_of_le (by rw [length_entries]; exact hle)]
      rfl
  · change index.contentLen = _
    rw [h.contentLen_eq, Nat.add_assoc, ← totalBytes_append, hsplit]
  · have hs := h.sized
    rw [← hsplit, sized_append] at hs
    refine sized_congr hs.2 fun k hk _ => ?_
    simp only [Index.truncateFront]
    rw [hstart]
    exact BTreeMap.get_splitOff _ hk

end Index.Stores

/-! ## Another number of columns -/

/-- Every grapheme of a stream is no wider than the grid. -/
def NoneWider (columns : ℕ) (stream : List (Option GraphemeInfo)) : Prop :=
  ∀ info, some info ∈ stream → info.cellWidth ≤ columns

/-- The state of the loops of `rebuild` when the graphemes and newlines of `done` are processed. -/
structure Building (columns start : ℕ) (done : List (Option GraphemeInfo))
    (s : EntryBuilder × Index) : Prop where
  stored : ∃ rows, s.2.Stores start rows ∧ streamOf rows ++ s.1.row.infos.map some = done ∧
    (NoneWider columns done → ∀ row ∈ rows, row.Fits columns)
  columns_eq : s.2.columns = columns
  counts : s.1.Counts
  isOpen : s.1.hasTrailingNewline = false
  notLeading : s.1.endsWithLeadingWideCharSpacer = false
  numCells_eq : s.1.numCells = cellsOf s.1.row.infos
  fits : NoneWider columns done → s.1.numCells ≤ columns

theorem NoneWider.left {columns : ℕ} {a b : List (Option GraphemeInfo)}
    (h : NoneWider columns (a ++ b)) : NoneWider columns a :=
  fun info hi => h info (List.mem_append_left _ hi)

theorem stream_of_open {row : StoredRow} (h : row.newline = false) :
    row.stream = row.infos.map some := by
  rw [StoredRow.stream, h]
  exact List.append_nil _

namespace Building

variable {columns start : ℕ} {done : List (Option GraphemeInfo)} {b b' : EntryBuilder}
  {index index' : Index}

/-- One more grapheme in a row that has room for it. -/
theorem extend {info : GraphemeInfo} {numCells : ℕ}
    (h : Building columns start done (b, index)) (hw : 0 < info.cellWidth)
    (hcells : numCells = b.numCells + info.cellWidth)
    (hroom : NoneWider columns (done ++ [some info]) → numCells ≤ columns)
    (hok : { b with numCells := numCells }.processGraphemeInfoUnchecked info = .ok b') :
    Building columns start (done ++ [some info]) (b', index) := by
  obtain ⟨hinfos, hnum, -, hnewline, hleading⟩ := EntryBuilder.processGraphemeInfoUnchecked_ok hok
  have hinfos : b'.row.infos = b.row.infos ++ [info] := hinfos
  have hnum : b'.numCells = numCells := hnum
  have hcounts : ({ b with numCells := numCells } : EntryBuilder).Counts :=
    ⟨h.counts.bytes, h.counts.width_pos⟩
  obtain ⟨rows, hrows, hdone, hfits⟩ := h.stored
  refine ⟨⟨rows, hrows, ?_, fun hn => hfits hn.left⟩, h.columns_eq,
    hcounts.processGraphemeInfoUnchecked hw hok, hnewline.trans h.isOpen,
    hleading.trans h.notLeading, ?_, fun hn => hnum.trans_le (hroom hn)⟩
  · rw [hinfos, List.map_append, ← List.append_assoc, hdone]
    rfl
  · change b'.numCells = _
    have hb : b.numCells = cellsOf b.row.infos := h.numCells_eq
    rw [hnum, hcells, hb, hinfos, cellsOf_append, cellsOf_cons, cellsOf_nil, Nat.add_zero]

/-- The row that is being built fits. -/
theorem row_fits {row : StoredRow} (h : Building columns start done (b, index))
    (hn : NoneWider columns done) (hinfos : row.infos = b.row.infos)
    (hl : row.leading = true → b.numCells ≠ columns) : row.Fits columns := by
  have hle : b.numCells ≤ columns := h.fits hn
  have hcells : b.numCells = cellsOf b.row.infos := h.numCells_eq
  rw [StoredRow.Fits, hinfos, ← hcells]
  cases hlead : row.leading with
  | false => exact hle
  | true => exact lt_of_le_of_ne hle (hl hlead)

/-- The row ends, and a new one begins. -/
theorem endRow {row : EntryBuilder} (h : Building columns start done (b, index))
    (hrow : row.Counts) (hinfos : row.row.infos = b.row.infos)
    (hl : row.endsWithLeadingWideCharSpacer = true → b.numCells ≠ columns) :
    Building columns start
      (done ++ if row.hasTrailingNewline then [none] else [])
      (EntryBuilder.new, row.appendToIndex index) := by
  obtain ⟨rows, hrows, hdone, hf⟩ := h.stored
  refine ⟨⟨rows ++ [row.row], hrows.appendToIndex hrow, ?_, fun hn r hr => ?_⟩, h.columns_eq,
    EntryBuilder.Counts.new, rfl, rfl, rfl, fun _ => Nat.zero_le _⟩
  · rw [streamOf_append, ← hdone, ← hinfos]
    simp [streamOf, StoredRow.stream, EntryBuilder.row, EntryBuilder.new, StoredRow.infos]
  · rcases List.mem_append.mp hr with hr | hr
    · exact hf hn.left r hr
    · rw [List.mem_singleton.mp hr]
      exact h.row_fits hn.left hinfos hl

theorem processGraphemeInfo {info : GraphemeInfo} (h : Building columns start done (b, index))
    (hw : 0 < info.cellWidth) (hok : b.processGraphemeInfo info index = .ok (b', index')) :
    Building columns start (done ++ [some info]) (b', index') := by
  have hcol : index.columns = columns := h.columns_eq
  have hopen : b.hasTrailingNewline = false := h.isOpen
  rw [EntryBuilder.processGraphemeInfo, if_neg hw.ne'] at hok
  split at hok
  · rename_i hlong
    obtain ⟨b₁, hb₁, e⟩ := bind_eq_ok hok
    cases e
    suffices hnew : Building columns start done (EntryBuilder.new, EntryBuilder.appendToIndex
        (if 1 < info.cellWidth ∧ b.numCells ≠ index.columns then b.addLeadingWideCharSpacer
          else b) index) from
      hnew.extend hw (Nat.zero_add _).symm (fun hn => hn info (by simp)) hb₁
    split
    · rename_i hlead
      simpa [EntryBuilder.addLeadingWideCharSpacer, hopen] using
        h.endRow h.counts.addLeadingWideCharSpacer rfl fun _ => hcol ▸ hlead.2
    · simpa [hopen] using h.endRow h.counts rfl fun hl => nomatch hl.symm.trans h.notLeading
  · rename_i hshort
    obtain ⟨b₁, hb₁, e⟩ := bind_eq_ok hok
    cases e
    exact h.extend hw rfl (fun _ => by omega) hb₁

/-- The newline ends the row. -/
theorem processNewline (h : Building columns start done (b, index)) :
    Building columns start (done ++ [none]) (b.processNewline index) := by
  exact h.endRow (h.counts.addTrailingNewline h.isOpen) rfl
    fun hl => nomatch hl.symm.trans h.notLeading

/-- One turn of the loop over the rows of the old index. -/
theorem rebuildRow {oldIndex : Index} {oldStart i : ℕ} {rows : List StoredRow}
    {s s' : EntryBuilder × Index} (hold : oldIndex.Stores oldStart rows)
    (h : Building columns start done s) (hok : oldIndex.rebuildRow s i = .ok s') :
    Building columns start (done ++ ((rows[i]?).map StoredRow.stream).getD []) s' := by
  obtain ⟨⟨b, index⟩, hloop, hok⟩ := bind_eq_ok hok
  obtain ⟨entry, hentry, e⟩ := bind_eq_ok hok
  rw [hold.graphemeInfosForRow] at hloop
  rw [hold.getEntry] at hentry
  cases hi : rows[i]? with
  | none =>
    rw [hi] at hentry
    exact nomatch hentry
  | some row =>
    rw [hi] at hloop hentry
    cases hentry
    have hinfos : Building columns start (done ++ row.infos.map some) (b, index) := by
      have hpos := hold.width_pos row (List.mem_of_getElem? hi)
      refine (foldlM_ok (P := fun pre s => (∀ info ∈ pre, info ∈ row.infos) →
        Building columns start (done ++ pre.map some) s) ?_ ?_ hloop) fun _ h => h
      · intro pre info s s' hs hok hsub
        rw [List.map_append, ← List.append_assoc]
        exact (hs fun i hi => hsub i (List.mem_append_left _ hi)).processGraphemeInfo
          (hpos info (hsub info (by simp))) hok
      · intro _
        simpa using h
    cases e
    rw [Option.map_some, Option.getD_some, StoredRow.stream, ← List.append_assoc]
    cases hnl : row.newline with
    | true => simpa [StoredRow.entry, hnl] using hinfos.processNewline
    | false => simpa [StoredRow.entry, hnl] using hinfos

end Building

/-- Reading a list at every index is reading the list. -/
theorem flatMap_range_getElem? {α β : Type} (f : α → List β) (l : List α) :
    (List.range l.length).flatMap (fun i => ((l[i]?).map f).getD []) = l.flatMap f := by
  induction l with
  | nil => rfl
  | cons a l ih =>
    rw [List.length_cons, List.range_succ_eq_map, List.flatMap_cons, List.flatMap_map,
      List.flatMap_cons, ← ih]
    rfl

/-- **Another number of columns leaves the graphemes and the newlines as they were**, and where the
grid is wide enough for each of them, every row fits into it. -/
theorem Index.Stores.rebuild {index index' : Index} {start columns : ℕ} {rows : List StoredRow}
    (h : index.Stores start rows) (hok : index.rebuild columns = .ok index') :
    ∃ rows', index'.Stores start rows' ∧ streamOf rows' = streamOf rows ∧
      index'.columns = columns ∧
      (NoneWider columns (streamOf rows) → ∀ row ∈ rows', row.Fits columns) := by
  have hstart : (index.contentOffsetForRow 0).getD index.contentLen = start := by
    rw [h.contentOffsetForRow]
    cases rows with
    | nil => exact h.contentLen_eq
    | cons row rows => rfl
  rw [Index.rebuild, hstart] at hok
  obtain ⟨⟨b, index₁⟩, hloop, e⟩ := bind_eq_ok hok
  have hbuilt : Building columns start (streamOf rows) (b, index₁) := by
    rw [streamOf, ← flatMap_range_getElem?, ← h.length]
    refine foldlM_ok (P := fun done s => Building columns start
      (done.flatMap fun i => ((rows[i]?).map StoredRow.stream).getD []) s) ?_ ?_ hloop
    · intro done i s s' hs hrow
      rw [List.flatMap_append, List.flatMap_singleton]
      exact hs.rebuildRow h hrow
    · exact ⟨⟨[], Index.Stores.new columns start, rfl, fun _ _ hr => nomatch hr⟩, rfl,
        EntryBuilder.Counts.new, rfl, rfl, rfl, fun _ => Nat.zero_le _⟩
  obtain ⟨rows', hrows', hdone, hfits⟩ := hbuilt.stored
  cases e
  refine ⟨_, hrows'.appendToIndexIfNonempty hbuilt.counts, ?_, ?_, fun hn row hr => ?_⟩
  · split
    · rename_i hempty
      simp only [EntryBuilder.isEmpty, Bool.and_eq_true, List.isEmpty_iff] at hempty
      rw [← hdone]
      simp [EntryBuilder.row, StoredRow.infos, hempty.2]
    · rw [streamOf_append, ← hdone]
      simp [streamOf, stream_of_open (show b.row.newline = false from hbuilt.isOpen)]
  · rw [EntryBuilder.appendToIndexIfNonempty]
    split
    · exact hbuilt.columns_eq
    · exact hbuilt.columns_eq
  · split at hr
    · exact hfits hn row hr
    · rcases List.mem_append.mp hr with hr | hr
      · exact hfits hn row hr
      · rw [List.mem_singleton.mp hr]
        exact hbuilt.row_fits hn rfl fun hl => nomatch hl.symm.trans hbuilt.notLeading

end FlatStorage

end Clinch
