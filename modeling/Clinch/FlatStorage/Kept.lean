import Clinch.FlatStorage.Written

/-!
# What the storage keeps

Index and content agree: the texts of the graphemes that the index counts lie in the content one
after another. Every operation keeps this.

* `HoldsStream`: graphemes and newlines at consecutive offsets of the content;
* `Kept`: index and content store the same rows, and each of them can be shown;
* `Pushing`, `Kept.pushRow`: one more row;
* `Kept.truncate`, `Kept.truncateRowsFront`, `Kept.setColumns`: the other operations.
-/

set_option autoImplicit false

namespace Clinch

namespace FlatStorage

/-! ## Graphemes and newlines in the content -/

/-- The graphemes of the stream are in the content one after another, a newline is one byte. -/
def HoldsStream (content : Content) : ℕ → List (Option GraphemeInfo) → Prop
  | _, [] => True
  | offset, some info :: stream =>
    NarrowOrWide info ∧ TextAt content offset info ∧
      HoldsStream content (offset + info.utf8Bytes) stream
  | offset, none :: stream => HoldsStream content (offset + 1) stream

/-- The bytes of a stream. -/
def streamBytes (stream : List (Option GraphemeInfo)) : ℕ :=
  (stream.map fun item => item.elim 1 GraphemeInfo.utf8Bytes).sum

theorem streamBytes_cons (item : Option GraphemeInfo) (stream : List (Option GraphemeInfo)) :
    streamBytes (item :: stream) = item.elim 1 GraphemeInfo.utf8Bytes + streamBytes stream := by
  rw [streamBytes, List.map_cons, List.sum_cons, streamBytes]

theorem streamBytes_append (a b : List (Option GraphemeInfo)) :
    streamBytes (a ++ b) = streamBytes a + streamBytes b := by
  rw [streamBytes, List.map_append, List.sum_append, streamBytes, streamBytes]

theorem streamBytes_infos (infos : List GraphemeInfo) :
    streamBytes (infos.map some) = bytesOf infos := by
  rw [streamBytes, List.map_map, bytesOf]
  rfl

theorem streamBytes_stream (row : StoredRow) : streamBytes row.stream = row.bytes := by
  rw [StoredRow.stream, streamBytes_append, streamBytes_infos, StoredRow.bytes]
  cases row.newline <;> rfl

theorem streamBytes_streamOf (rows : List StoredRow) :
    streamBytes (streamOf rows) = totalBytes rows := by
  induction rows with
  | nil => rfl
  | cons row rows ih =>
    rw [streamOf, List.flatMap_cons, streamBytes_append, streamBytes_stream, totalBytes_cons]
    exact congrArg (row.bytes + ·) ih

variable {content content' : Content} {offset : ℕ}

theorem holdsStream_append {a b : List (Option GraphemeInfo)} :
    HoldsStream content offset (a ++ b) ↔
      HoldsStream content offset a ∧ HoldsStream content (offset + streamBytes a) b := by
  induction a generalizing offset with
  | nil => simp [HoldsStream, streamBytes]
  | cons item a ih =>
    rw [streamBytes_cons, ← Nat.add_assoc]
    cases item with
    | none =>
      change HoldsStream content (offset + 1) (a ++ b) ↔ _
      rw [ih]
      rfl
    | some info =>
      change NarrowOrWide info ∧ TextAt content offset info ∧
        HoldsStream content (offset + info.utf8Bytes) (a ++ b) ↔ _
      rw [ih, ← and_assoc, ← and_assoc, and_assoc (a := NarrowOrWide info)]
      rfl

/-- The texts stay where they are when the content keeps the bytes of a range. -/
theorem HoldsStream.mono {lo hi : ℕ} {stream : List (Option GraphemeInfo)}
    (h : HoldsStream content offset stream) (hlo : lo ≤ offset)
    (hhi : offset + streamBytes stream ≤ hi)
    (hkeep : ∀ offset bytes, bytes ≠ [] → lo ≤ offset → offset + bytes.length ≤ hi →
      content.Holds offset bytes → content'.Holds offset bytes) :
    HoldsStream content' offset stream := by
  induction stream generalizing offset with
  | nil => trivial
  | cons item stream ih =>
    rw [streamBytes_cons] at hhi
    cases item with
    | none =>
      have hone : (none : Option GraphemeInfo).elim 1 GraphemeInfo.utf8Bytes = 1 := rfl
      have hrest : HoldsStream content (offset + 1) stream := h
      exact ih hrest (by omega) (by omega)
    | some info =>
      obtain ⟨hinfo, ⟨text, hne, hnl, hlen, hholds⟩, h⟩ := h
      have hsome : (some info).elim 1 GraphemeInfo.utf8Bytes = info.utf8Bytes := rfl
      refine ⟨hinfo, ⟨text, hne, hnl, hlen, ?_⟩, ih h (by omega) (by omega)⟩
      exact hkeep offset _ (utf8_ne_nil hne) hlo (by omega) hholds

theorem HoldsStream.narrowOrWide {stream : List (Option GraphemeInfo)} {info : GraphemeInfo}
    (h : HoldsStream content offset stream) (hmem : some info ∈ stream) : NarrowOrWide info := by
  induction stream generalizing offset with
  | nil => exact nomatch hmem
  | cons item stream ih =>
    cases item with
    | none =>
      have hrest : HoldsStream content (offset + 1) stream := h
      exact ih hrest (by simpa using hmem)
    | some info' =>
      obtain ⟨hinfo, -, h⟩ := h
      rcases List.mem_cons.mp hmem with heq | hmem
      · cases heq
        exact hinfo
      · exact ih h hmem

theorem HoldsStream.texts {infos : List GraphemeInfo} {rest : List (Option GraphemeInfo)}
    (h : HoldsStream content offset (infos.map some ++ rest)) : TextsAt content offset infos := by
  induction infos generalizing offset with
  | nil => trivial
  | cons info infos ih =>
    obtain ⟨-, htext, h⟩ := h
    exact ⟨htext, ih h⟩

/-- The texts of a row lie at its offset. -/
theorem HoldsStream.textsAt {start i : ℕ} {rows : List StoredRow} {row : StoredRow}
    (h : HoldsStream content start (streamOf rows)) (hrow : rows[i]? = some row) :
    TextsAt content (start + totalBytes (rows.take i)) row.infos := by
  obtain ⟨hlt, hget⟩ := List.getElem?_eq_some_iff.mp hrow
  rw [← List.take_append_drop i rows, streamOf_append, holdsStream_append, streamBytes_streamOf,
    List.drop_eq_getElem_cons hlt, hget] at h
  have hrest : HoldsStream content (start + totalBytes (rows.take i))
      (row.stream ++ streamOf (rows.drop (i + 1))) := h.2
  rw [StoredRow.stream, List.append_assoc] at hrest
  exact hrest.texts

/-! ## Index and content -/

/-- Index and content store the rows, from the offset `start` on, and each row can be shown. -/
structure Kept (s : FlatStorage) (start : ℕ) (rows : List StoredRow) : Prop where
  stores : s.index.Stores start rows
  index_columns : s.index.columns = s.columns
  columns_pos : 0 < s.columns
  shows : ∀ row ∈ rows, Shows s.columns row
  inOrder : s.content.InOrder start
  holds : HoldsStream s.content start (streamOf rows)
  content_end : s.content.endOffset = s.index.contentLen

theorem kept_new {columns : ℕ} (maxRows : Option ℕ) (h : 0 < columns) :
    Kept (FlatStorage.new columns maxRows) 0 [] where
  stores := Index.Stores.new columns 0
  index_columns := rfl
  columns_pos := h
  shows _ hr := nomatch hr
  inOrder := ⟨0, le_rfl, rfl⟩
  holds := trivial
  content_end := rfl

/-! ## One more row -/

/-- A grapheme with a text that is not a lone line feed. -/
def Grapheme.IsText (grapheme : Grapheme) : Prop :=
  NarrowOrWide grapheme.info ∧ grapheme.content.length = grapheme.info.utf8Bytes ∧
    ∃ text : List Char, text ≠ [] ∧ text ≠ ['\n'] ∧ grapheme.content = utf8 text

theorem isText_emptyCell : Grapheme.emptyCell.IsText :=
  ⟨Or.inl rfl, by decide, [defaultChar], by simp, by decide, rfl⟩

theorem isText_newFromCell {cell : Cell} {grapheme : Grapheme} (hcell : cell.rawContent ≠ ['\n'])
    (h : Grapheme.newFromCell cell = .ok grapheme) : grapheme.IsText := by
  rw [Grapheme.newFromCell] at h
  split at h
  · rename_i hlen
    cases h
    refine ⟨?_, rfl, cell.rawContent, ?_, hcell, rfl⟩
    · cases cell.flags.has .wideChar
      · exact Or.inl rfl
      · exact Or.inr rfl
    · intro hnil
      rw [hnil] at hlen
      exact absurd hlen.1 (by decide)
  · exact nomatch h

/-- The loop over the cells of a row: what the entry builder counts is in the content. -/
structure Pushing (s : FlatStorage) (start : ℕ) (rows : List StoredRow) (p : RowPush) : Prop where
  index_eq : p.storage.index = s.index
  columns_eq : p.storage.columns = s.columns
  counts : p.entryBuilder.Counts
  isOpen : p.entryBuilder.hasTrailingNewline = false
  inOrder : p.storage.content.InOrder start
  holds : HoldsStream p.storage.content start
    (streamOf rows ++ p.entryBuilder.row.infos.map some)
  content_end : p.storage.content.endOffset =
    start + totalBytes rows + bytesOf p.entryBuilder.row.infos

theorem noteAttributes_same (p : RowPush) (cell : Cell) :
    (p.noteAttributes cell).1.storage.index = p.storage.index ∧
      (p.noteAttributes cell).1.storage.columns = p.storage.columns ∧
      (p.noteAttributes cell).1.storage.content = p.storage.content ∧
      (p.noteAttributes cell).1.entryBuilder = p.entryBuilder := by
  unfold RowPush.noteAttributes
  dsimp only
  split_ifs <;> cases cell.endOfPromptMarker <;> exact ⟨rfl, rfl, rfl, rfl⟩

namespace Pushing

variable {s : FlatStorage} {start : ℕ} {rows : List StoredRow} {p p' : RowPush}

/-- Only index, columns, content and entry builder matter. -/
theorem congr (h : Pushing s start rows p) (hindex : p'.storage.index = p.storage.index)
    (hcolumns : p'.storage.columns = p.storage.columns)
    (hcontent : p'.storage.content = p.storage.content)
    (hbuilder : p'.entryBuilder = p.entryBuilder) : Pushing s start rows p' := by
  obtain ⟨h₁, h₂, h₃, h₄, h₅, h₆, h₇⟩ := h
  constructor
  · rw [hindex, h₁]
  · rw [hcolumns, h₂]
  · rwa [hbuilder]
  · rwa [hbuilder]
  · rwa [hcontent]
  · rwa [hcontent, hbuilder]
  · rwa [hcontent, hbuilder]

theorem store {grapheme : Grapheme} (h : Pushing s start rows p) (hg : grapheme.IsText)
    (hok : p.store grapheme = .ok p') : Pushing s start rows p' := by
  obtain ⟨b, hb, hok⟩ := bind_eq_ok hok
  obtain ⟨content, hcontent, e⟩ := bind_eq_ok hok
  cases e
  obtain ⟨hinfo, hlen, text, hne, hnl, htext⟩ := hg
  obtain ⟨hinfos, -, -, hnewline, -⟩ := EntryBuilder.processGraphemeInfoUnchecked_ok hb
  obtain ⟨hinOrder, hend, hholds, hkeep⟩ := Content.pushGrapheme_ok h.inOrder hcontent
  refine ⟨h.index_eq, h.columns_eq, h.counts.processGraphemeInfoUnchecked hinfo.pos hb,
    hnewline.trans h.isOpen, hinOrder, ?_, ?_⟩
  · change HoldsStream content start (streamOf rows ++ b.row.infos.map some)
    rw [hinfos, List.map_append, ← List.append_assoc, holdsStream_append, streamBytes_append,
      streamBytes_streamOf, streamBytes_infos, ← Nat.add_assoc, ← h.content_end]
    refine ⟨h.holds.mono le_rfl le_rfl fun offset bytes _ _ _ => hkeep offset bytes, hinfo,
      ⟨text, hne, hnl, ?_, ?_⟩, trivial⟩
    · rw [← htext, hlen]
    · rw [← htext]
      exact hholds
  · change content.endOffset = start + totalBytes rows + bytesOf b.row.infos
    rw [hinfos, bytesOf_append, bytesOf_cons, bytesOf_nil, hend, h.content_end, hlen]
    omega

theorem fillGap {n : ℕ} (h : Pushing s start rows p) (hok : RowPush.fillGap n p = .ok p') :
    Pushing s start rows p' := by
  induction n generalizing p with
  | zero =>
    cases hok
    exact h
  | succ n ih =>
    obtain ⟨p₁, hp₁, hok⟩ := bind_eq_ok hok
    exact ih (h.store isText_emptyCell hp₁) hok

theorem pushContent {cell : Cell} (h : Pushing s start rows p) (hcell : cell.rawContent ≠ ['\n'])
    (hok : p.pushContent cell = .ok p') : Pushing s start rows p' := by
  obtain ⟨hindex, hcolumns, hcontent, hbuilder⟩ := noteAttributes_same p cell
  rw [RowPush.pushContent] at hok
  generalize p.noteAttributes cell = noted at hindex hcolumns hcontent hbuilder hok
  obtain ⟨p₁, needsProcessing⟩ := noted
  obtain ⟨grapheme, hgrapheme, hok⟩ := bind_eq_ok hok
  have h₁ : Pushing s start rows { p₁ with offset := p₁.offset + grapheme.info.utf8Bytes } :=
    h.congr hindex hcolumns hcontent hbuilder
  dsimp only at hok
  split at hok
  · obtain ⟨p₂, hp₂, hok⟩ := bind_eq_ok hok
    have h₂ : Pushing s start rows { p₂ with lastCell := p₂.idx } :=
      (h₁.fillGap hp₂).congr rfl rfl rfl rfl
    exact h₂.store (isText_newFromCell hcell hgrapheme) hok
  · cases hok
    exact h₁

/-- One turn of the loop over the cells. -/
theorem pushCell {cell : Cell} (h : Pushing s start rows p) (hcell : cell.rawContent ≠ ['\n'])
    (hok : p.pushCell cell = .ok p') : Pushing s start rows p' := by
  rw [RowPush.pushCell] at hok
  dsimp only at hok
  split at hok
  · cases hok
    split
    · exact ⟨h.index_eq, h.columns_eq, h.counts.addLeadingWideCharSpacer, h.isOpen, h.inOrder,
        h.holds, h.content_end⟩
    · exact h.congr rfl rfl rfl rfl
  · have h₁ : Pushing s start rows { p with idx := p.idx + 1 } := h.congr rfl rfl rfl rfl
    exact h₁.pushContent hcell hok

end Pushing

/-- No cell of the row is a line feed. -/
def NoLineFeed (row : Row) : Prop := ∀ cell ∈ row.inner, cell.rawContent ≠ ['\n']

instance (row : Row) : Decidable (NoLineFeed row) :=
  inferInstanceAs (Decidable (∀ cell ∈ row.inner, _))

theorem Kept.pushCells {p : RowsPush} {q : RowPush} {start : ℕ} {rows : List StoredRow} {row : Row}
    (h : Kept p.storage start rows) (hrow : NoLineFeed row) (hok : pushCells p row = .ok q) :
    Pushing p.storage start rows q := by
  obtain ⟨cells, hcells, hok⟩ := bind_eq_ok hok
  have hmem : ∀ cell ∈ cells, cell ∈ row.inner := by
    rw [Row.dirtyCells, sliceRange] at hcells
    split at hcells
    · cases hcells
      exact fun cell hcell => List.mem_of_mem_take (List.mem_of_mem_drop hcell)
    · cases hcells
  have hstart : Pushing p.storage start rows ⟨p.storage, p.fgColor, p.bgAndStyle,
      EntryBuilder.new, -1, p.storage.content.endOffset, -1⟩ := by
    refine ⟨rfl, rfl, EntryBuilder.Counts.new, rfl, h.inOrder, ?_, ?_⟩
    · exact (List.append_nil (streamOf rows)).symm ▸ h.holds
    · exact h.content_end.trans h.stores.contentLen_eq
  refine foldlM_ok (P := fun pre q => (∀ cell ∈ pre, cell ∈ row.inner) →
    Pushing p.storage start rows q) ?_ (fun _ => hstart) hok hmem
  intro pre cell q q' hq hok hsub
  exact (hq fun c hc => hsub c (List.mem_append_left _ hc)).pushCell
    (hrow cell (hsub cell (by simp))) hok

/-- The row can be shown as the loop over its cells stores it. -/
def RowShows (p : RowsPush) (row : Row) : Prop :=
  NoLineFeed row ∧ ∀ q, pushCells p row = .ok q → Shows p.storage.columns q.entryBuilder.row

/-- One turn of the loop over the rows. -/
theorem Kept.pushRow {p p' : RowsPush} {start : ℕ} {rows : List StoredRow} {row : Row}
    (h : Kept p.storage start rows) (hrow : RowShows p row) (hok : pushRow p row = .ok p') :
    ∃ stored, Kept p'.storage start (rows ++ [stored]) := by
  obtain ⟨q, hq, hok⟩ := bind_eq_ok hok
  obtain ⟨softWraps, -, hok⟩ := bind_eq_ok hok
  have hpush := h.pushCells hrow.1 hq
  have hshows := hrow.2 q hq
  let b : EntryBuilder := if softWraps then q.entryBuilder else q.entryBuilder.addTrailingNewline
  -- the newline is one byte behind the texts of the row
  have hrest : ∃ content : Content, p' = ⟨{ q.storage with
        content := content, index := b.appendToIndex q.storage.index }, q.fgColor, q.bgAndStyle⟩ ∧
      content.InOrder start ∧
      content.endOffset = q.storage.content.endOffset + (!softWraps).toNat ∧
      ∀ offset bytes, q.storage.content.Holds offset bytes → content.Holds offset bytes := by
    cases softWraps with
    | true =>
      cases hok
      exact ⟨_, rfl, hpush.inOrder, rfl, fun _ _ hb => hb⟩
    | false =>
      obtain ⟨content, hcontent, e⟩ := bind_eq_ok hok
      cases e
      obtain ⟨hinOrder, hend, -, hkeep⟩ := Content.pushGrapheme_ok hpush.inOrder hcontent
      exact ⟨content, rfl, hinOrder, hend, hkeep⟩
  obtain ⟨content, rfl, hinOrder, hend, hkeep⟩ := hrest
  have hb : b.Counts ∧ b.row.infos = q.entryBuilder.row.infos ∧
      b.row.newline = !softWraps ∧ b.row.leading = q.entryBuilder.row.leading := by
    cases softWraps with
    | true => exact ⟨hpush.counts, rfl, hpush.isOpen, rfl⟩
    | false => exact ⟨hpush.counts.addTrailingNewline hpush.isOpen, rfl, rfl, rfl⟩
  obtain ⟨hcounts, hinfos, hnewline, hleading⟩ := hb
  have hcolumns : q.storage.columns = p.storage.columns := hpush.columns_eq
  have hstores := h.stores.appendToIndex hcounts
  rw [← hpush.index_eq] at hstores
  have hend' : content.endOffset = start + totalBytes (rows ++ [b.row]) := by
    rw [hend, hpush.content_end, totalBytes_append, totalBytes_cons, totalBytes_nil,
      StoredRow.bytes, hinfos, hnewline]
    omega
  refine ⟨b.row, hstores, ?_, hcolumns ▸ h.columns_pos, fun r hr => ?_, hinOrder, ?_, ?_⟩
  · change q.storage.index.columns = q.storage.columns
    rw [hpush.index_eq, hcolumns, h.index_columns]
  · change Shows q.storage.columns r
    rw [hcolumns]
    rcases List.mem_append.mp hr with hr | hr
    · exact h.shows r hr
    · rw [List.mem_singleton.mp hr]
      refine ⟨fun info hi => hshows.narrow_or_wide info (hinfos ▸ hi), ?_, fun hl => ?_⟩
      · rw [hinfos]
        exact hshows.fits
      · rw [hinfos]
        exact hshows.leading (hleading ▸ hl)
  · change HoldsStream content start (streamOf (rows ++ [b.row]))
    have hstream : streamOf (rows ++ [b.row]) = (streamOf rows ++
        q.entryBuilder.row.infos.map some) ++ if !softWraps then [none] else [] := by
      rw [streamOf_append, List.append_assoc, ← hinfos, ← hnewline]
      simp [streamOf, StoredRow.stream]
    rw [hstream, holdsStream_append]
    refine ⟨hpush.holds.mono le_rfl le_rfl fun offset bytes _ _ _ => hkeep offset bytes, ?_⟩
    cases softWraps <;> trivial
  · exact hend'.trans hstores.contentLen_eq.symm

/-- The rows that are pushed one after another can be shown. -/
def RowsShow : RowsPush → List Row → Prop
  | _, [] => True
  | p, row :: rows => RowShows p row ∧ ∀ p', pushRow p row = .ok p' → RowsShow p' rows

theorem Kept.pushRows {p p' : RowsPush} {start : ℕ} {stored : List StoredRow} {rows : List Row}
    (h : Kept p.storage start stored) (hrows : RowsShow p rows)
    (hok : rows.foldlM FlatStorage.pushRow p = .ok p') :
    ∃ stored', Kept p'.storage start stored' := by
  induction rows generalizing p stored with
  | nil =>
    cases hok
    exact ⟨stored, h⟩
  | cons row rows ih =>
    rw [List.foldlM_cons] at hok
    obtain ⟨p₁, hp₁, hok⟩ := bind_eq_ok hok
    obtain ⟨new, hnew⟩ := h.pushRow hrows.1 hp₁
    exact ih hnew (hrows.2 p₁ hp₁) hok

/-! ## The other operations -/

namespace Kept

variable {s s' : FlatStorage} {start : ℕ} {rows : List StoredRow}

theorem truncate (h : Kept s start rows) (newLen : ℕ) :
    Kept (s.truncate newLen) start (rows.take newLen) := by
  obtain ⟨hstores, hlen⟩ := h.stores.truncate newLen
  have hle : start + totalBytes (rows.take newLen) ≤ s.content.endOffset := by
    rw [h.content_end, h.stores.contentLen_eq]
    exact Nat.add_le_add_left (totalBytes_take_le rows newLen) start
  rw [← hlen] at hle
  obtain ⟨hinOrder, hend, hkeep⟩ := Content.truncate_ok h.inOrder (by omega) hle
  refine ⟨hstores, ?_, h.columns_pos, fun row hr => h.shows row (List.mem_of_mem_take hr),
    hinOrder, ?_, ?_⟩
  · change (s.index.truncate newLen).1.columns = s.columns
    rw [← h.index_columns, Index.truncate]
    cases s.index.contentOffsetForRow newLen <;> rfl
  · have hholds := h.holds
    rw [← List.take_append_drop newLen rows, streamOf_append, holdsStream_append] at hholds
    refine hholds.1.mono (Nat.zero_le _) ?_ fun offset bytes hne _ => hkeep offset bytes hne
    rw [hlen, streamBytes_streamOf]
  · rw [FlatStorage.truncate]
    exact hend.trans (hlen.trans hstores.contentLen_eq.symm)

theorem truncateRowsFront (h : Kept s start rows) (count : ℕ) :
    ∃ start' rows', Kept (s.truncateRowsFront count) start' rows' := by
  rw [FlatStorage.truncateRowsFront]
  split
  · exact ⟨start, rows, h⟩
  · dsimp only
    generalize min count s.totalRows = n
    obtain ⟨hstores, hstart⟩ := h.stores.truncateFront n
    obtain ⟨hinOrder, hend, hkeep⟩ := Content.truncateFront_ok h.inOrder
      (Nat.le_add_right start (totalBytes (rows.take n)))
    rw [← hstart] at hinOrder hend hkeep
    refine ⟨_, _, hstores, h.index_columns, h.columns_pos,
      fun row hr => h.shows row (List.mem_of_mem_drop hr), hstart ▸ hinOrder, ?_, ?_⟩
    · have hholds := h.holds
      rw [← List.take_append_drop n rows, streamOf_append, holdsStream_append,
        streamBytes_streamOf] at hholds
      exact hholds.2.mono hstart.le le_rfl fun offset bytes hne hlo _ => hkeep offset bytes hne hlo
    · exact hend.trans h.content_end

theorem applyMaxRows (h : Kept s start rows) : ∃ start' rows', Kept s.applyMaxRows start' rows' := by
  rw [FlatStorage.applyMaxRows]
  split
  · split
    · exact h.truncateRowsFront _
    · exact ⟨start, rows, h⟩
  · exact ⟨start, rows, h⟩

theorem setMaxRows (h : Kept s start rows) (maxRows : Option ℕ) :
    ∃ start' rows', Kept (s.setMaxRows maxRows) start' rows' := by
  have h' : Kept { s with maxRows := maxRows } start rows := ⟨h.stores, h.index_columns,
    h.columns_pos, h.shows, h.inOrder, h.holds, h.content_end⟩
  exact h'.applyMaxRows

/-- In a grid that is wide enough for every grapheme, the rows can be shown after a reflow. -/
theorem setColumns {newColumns : ℕ} (h : Kept s start rows) (hpos : 0 < newColumns)
    (hwide : NoneWider newColumns (streamOf rows)) (hok : s.setColumns newColumns = .ok s') :
    ∃ rows', Kept s' start rows' := by
  rw [FlatStorage.setColumns] at hok
  split at hok
  · cases hok
    exact ⟨rows, h⟩
  · obtain ⟨index, hindex, e⟩ := bind_eq_ok hok
    cases e
    obtain ⟨rows', hstores, hstream, hcolumns, hfits⟩ := h.stores.rebuild hindex
    refine ⟨rows', hstores, hcolumns, hpos, fun row hr => ?_, h.inOrder, ?_, ?_⟩
    · have hfit : cellsOf row.infos + row.leading.toNat ≤ newColumns := hfits hwide row hr
      refine ⟨fun info hi => ?_, (Nat.le_add_right _ _).trans hfit, fun hl => ?_⟩
      · have hmem : some info ∈ streamOf rows := by
          rw [← hstream]
          exact List.mem_flatMap.mpr ⟨row, hr, List.mem_append_left _ (List.mem_map_of_mem hi)⟩
        exact h.holds.narrowOrWide hmem
      · rw [hl, Bool.toNat_true] at hfit
        have hlast : cellsOf row.infos ≤ newColumns - 1 := by omega
        exact typeAt_of_le hlast
    · exact hstream ▸ h.holds
    · change s.content.endOffset = index.contentLen
      rw [h.content_end, h.stores.contentLen_eq, hstores.contentLen_eq, ← streamBytes_streamOf,
        ← streamBytes_streamOf, hstream]

end Kept

end FlatStorage

end Clinch
