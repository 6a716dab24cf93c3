import Clinch.BTreeMap
import Clinch.Rust
import Clinch.Utf8

/-!
# The content of flat storage

`flat_storage/content.rs`. The bytes of the grid are kept in chunks of 1024 bytes, so that they can
be dropped from the front. A grapheme is in one chunk. The chunks that are filled are keyed by the
offset of their last byte.

* `Chunk`, `Content`, `pushGrapheme`, `truncate`, `truncateFront`, `slice`;
* `Chain`: each chunk begins where the one before it ends;
* `Content.Holds`, `slice_eq`: bytes that lie in a chunk are what `slice` reads;
* `holds_push`, `holds_truncate`, `holds_truncateFront`: which bytes an operation keeps.
-/

set_option autoImplicit false

namespace Clinch

namespace FlatStorage

/-- `Chunk::CHUNK_SIZE`. -/
def chunkSize : ℕ := 1024

/-- `Chunk`: the bytes in use and the offset of the first. -/
structure Chunk where
  content : List UInt8
  startOffset : ℕ

/-- The end of `content_range`. -/
def Chunk.endOffset (chunk : Chunk) : ℕ := chunk.startOffset + chunk.content.length

/-- `Chunk::truncate`. -/
def Chunk.truncate (chunk : Chunk) (offset : ℕ) : Chunk :=
  { chunk with content := chunk.content.take (offset - chunk.startOffset) }

/-- `Content`. -/
structure Content where
  filledChunks : BTreeMap ℕ Chunk
  activeChunk : Chunk

namespace Content

/-- `new`. -/
def new : Content := ⟨BTreeMap.empty, ⟨[], 0⟩⟩

/-- `end_offset`. -/
def endOffset (content : Content) : ℕ := content.activeChunk.endOffset

/-- The active chunk that has room for `n` more bytes. -/
def makeRoom (content : Content) (n : ℕ) : Content :=
  if chunkSize < content.activeChunk.content.length + n then
    ⟨content.filledChunks.insert (content.activeChunk.endOffset - 1) content.activeChunk,
      ⟨[], content.activeChunk.endOffset⟩⟩
  else content

/-- The bytes are appended to the active chunk. -/
def append (content : Content) (bytes : List UInt8) : Content :=
  { content with
    activeChunk := ⟨content.activeChunk.content ++ bytes, content.activeChunk.startOffset⟩ }

/-- `push_grapheme`. -/
def pushGrapheme (content : Content) (grapheme : List UInt8) : Result Content :=
  if grapheme.length < chunkSize then .ok ((content.makeRoom grapheme.length).append grapheme)
  else .error .assert

/-- The first chunk that ends behind an offset. -/
def chunkAt (content : Content) (offset : ℕ) : Chunk :=
  ((content.filledChunks.splitOff offset).firstValue).getD content.activeChunk

/-- `truncate`. -/
def truncate (content : Content) (newLen : ℕ) : Content :=
  ⟨content.filledChunks.below newLen, (content.chunkAt newLen).truncate newLen⟩

/-- `truncate_front`: the loop removes the chunks at the front that end before the offset. -/
def truncateFront (content : Content) (newStartOffset : ℕ) : Content :=
  { content with filledChunks := content.filledChunks.splitOff newStartOffset }

/-- `Index<Range<ByteOffset>>`. -/
def slice (content : Content) (start stop : ℕ) : Result (List UInt8) :=
  let chunk := content.chunkAt start
  if chunk.startOffset ≤ start ∧ stop ≤ chunk.endOffset then
    .ok ((chunk.content.drop (start - chunk.startOffset)).take (stop - start))
  else .error .bounds

/-! ## The chunks -/

/-- The chunks from an offset on: each begins where the one before it ends, and is found by its
last byte. -/
def Chain (active : Chunk) : ℕ → List (ℕ × Chunk) → Prop
  | base, [] => active.startOffset = base
  | base, (key, chunk) :: chunks =>
    chunk.startOffset = base ∧ chunk.content ≠ [] ∧ key + 1 = chunk.endOffset ∧
      Chain active chunk.endOffset chunks

/-- The chunks are in order, from an offset at or before `start` on. -/
def InOrder (content : Content) (start : ℕ) : Prop :=
  ∃ base ≤ start, Chain content.activeChunk base content.filledChunks.entries

/-- The bytes lie at the offset, in one chunk. -/
def Holds (content : Content) (offset : ℕ) (bytes : List UInt8) : Prop :=
  ∃ chunk : Chunk, (chunk = content.activeChunk ∨ ∃ key, (key, chunk) ∈
      content.filledChunks.entries) ∧ chunk.startOffset ≤ offset ∧
    bytes <+: chunk.content.drop (offset - chunk.startOffset)

variable {content : Content} {active : Chunk} {base start offset : ℕ} {bytes : List UInt8}
  {chunks : List (ℕ × Chunk)}

theorem endOffset_pos {chunk : Chunk} (h : chunk.content ≠ []) :
    chunk.startOffset < chunk.endOffset :=
  Nat.lt_add_of_pos_right (List.length_pos_of_ne_nil h)

theorem chain_start (h : Chain active base chunks) {e : ℕ × Chunk} (he : e ∈ chunks) :
    base ≤ e.2.startOffset ∧ e.1 + 1 = e.2.endOffset ∧ e.2.content ≠ [] := by
  induction chunks generalizing base with
  | nil => exact nomatch he
  | cons e' chunks ih =>
    obtain ⟨key, chunk⟩ := e'
    obtain ⟨hbase, hne, hkey, hchain⟩ := h
    rcases List.mem_cons.mp he with rfl | he
    · exact ⟨hbase.ge, hkey, hne⟩
    · have := ih hchain he
      have hpos := endOffset_pos hne
      exact ⟨by omega, this.2⟩

theorem chain_active (h : Chain active base chunks) :
    base ≤ active.startOffset ∧ ∀ e ∈ chunks, e.2.endOffset ≤ active.startOffset := by
  induction chunks generalizing base with
  | nil => exact ⟨h.ge, fun _ he => nomatch he⟩
  | cons e chunks ih =>
    obtain ⟨key, chunk⟩ := e
    obtain ⟨hbase, hne, hkey, hchain⟩ := h
    obtain ⟨hle, hall⟩ := ih hchain
    have hpos := endOffset_pos hne
    refine ⟨by omega, fun e he => ?_⟩
    rcases List.mem_cons.mp he with rfl | he
    · exact hle
    · exact hall e he

theorem chunkAt_def (content : Content) (offset : ℕ) :
    content.chunkAt offset =
      (((content.filledChunks.entries.filter fun e => decide (offset ≤ e.1)).head?).map
        Prod.snd).getD content.activeChunk := rfl

/-- The chunk with the byte at the offset is the one that is found. -/
theorem head_filter_chain (h : Chain active base chunks) {chunk : Chunk} {key : ℕ}
    (hmem : (key, chunk) ∈ chunks) (hle : chunk.startOffset ≤ offset)
    (hlt : offset < chunk.endOffset) :
    ((chunks.filter fun e => decide (offset ≤ e.1)).head?).map Prod.snd = some chunk := by
  induction chunks generalizing base with
  | nil => exact nomatch hmem
  | cons e chunks ih =>
    obtain ⟨key', chunk'⟩ := e
    obtain ⟨hbase, hne, hkey, hchain⟩ := h
    rcases List.mem_cons.mp hmem with heq | hmem
    · cases heq
      rw [List.filter_cons_of_pos (by simpa using (by omega : offset ≤ key))]
      rfl
    · have hstart : chunk'.endOffset ≤ chunk.startOffset := (chain_start hchain hmem).1
      rw [List.filter_cons_of_neg (by simpa using (by omega : key' < offset))]
      exact ih hchain hmem

theorem chunkAt_filled (h : content.InOrder start) {chunk : Chunk} {key : ℕ}
    (hmem : (key, chunk) ∈ content.filledChunks.entries) (hle : chunk.startOffset ≤ offset)
    (hlt : offset < chunk.endOffset) : content.chunkAt offset = chunk := by
  obtain ⟨base, -, hchain⟩ := h
  rw [chunkAt_def, head_filter_chain hchain hmem hle hlt, Option.getD_some]

theorem chunkAt_active (h : content.InOrder start)
    (hle : content.activeChunk.startOffset ≤ offset) :
    content.chunkAt offset = content.activeChunk := by
  obtain ⟨base, -, hchain⟩ := h
  have hnil : content.filledChunks.entries.filter (fun e => decide (offset ≤ e.1)) = [] := by
    rw [List.filter_eq_nil_iff]
    intro e he
    have hend := (chain_active hchain).2 e he
    have hkey := (chain_start hchain he).2.1
    simpa using (by omega : e.1 < offset)
  rw [chunkAt_def, hnil]
  rfl

/-- What lies in a chunk is what is read. -/
theorem slice_eq (h : content.InOrder start) (hb : content.Holds offset bytes)
    (hne : bytes ≠ []) : content.slice offset (offset + bytes.length) = .ok bytes := by
  obtain ⟨chunk, hmem, hle, hbytes⟩ := hb
  have hlen := hbytes.length_le
  have hpos := List.length_pos_of_ne_nil hne
  rw [List.length_drop] at hlen
  have hat : content.chunkAt offset = chunk := by
    rcases hmem with rfl | ⟨key, hmem⟩
    · exact chunkAt_active h hle
    · exact chunkAt_filled h hmem hle (by rw [Chunk.endOffset]; omega)
  rw [slice, hat, Nat.add_sub_cancel_left]
  rw [if_pos ⟨hle, by rw [Chunk.endOffset]; omega⟩]
  exact congrArg _ (List.prefix_iff_eq_take.mp hbytes).symm

/-! ## The operations -/

theorem chain_append {active' : Chunk} (h : Chain active base chunks) (hne : active.content ≠ [])
    (hstart : active'.startOffset = active.endOffset) :
    Chain active' base (chunks ++ [(active.endOffset - 1, active)]) := by
  induction chunks generalizing base with
  | nil =>
    have hpos := endOffset_pos hne
    have hkey : active.endOffset - 1 + 1 = active.endOffset := by omega
    exact ⟨h, hne, hkey, hstart⟩
  | cons e chunks ih =>
    obtain ⟨key, chunk⟩ := e
    obtain ⟨hbase, hne', hkey, hchain⟩ := h
    exact ⟨hbase, hne', hkey, ih hchain⟩

/-- The key of the active chunk is the largest. -/
theorem entries_insert (h : Chain content.activeChunk base content.filledChunks.entries)
    (hne : content.activeChunk.content ≠ []) :
    (content.filledChunks.insert (content.activeChunk.endOffset - 1)
      content.activeChunk).entries =
      content.filledChunks.entries ++
        [(content.activeChunk.endOffset - 1, content.activeChunk)] := by
  refine BTreeMap.entries_insert_last _ _ fun e he => ?_
  have hend := (chain_active h).2 e he
  have hkey := (chain_start h he).2.1
  have hpos := endOffset_pos hne
  omega

theorem inOrder_makeRoom (h : content.InOrder start) {n : ℕ} (hn : n < chunkSize) :
    (content.makeRoom n).InOrder start ∧
      (content.makeRoom n).endOffset = content.endOffset ∧
      ∀ offset bytes, content.Holds offset bytes → (content.makeRoom n).Holds offset bytes := by
  rw [makeRoom]
  split
  · rename_i hfull
    obtain ⟨base, hbase, hchain⟩ := h
    have hne : content.activeChunk.content ≠ [] := by
      intro hnil
      rw [hnil, List.length_nil] at hfull
      omega
    have hentries := entries_insert hchain hne
    refine ⟨⟨base, hbase, ?_⟩, rfl, ?_⟩
    · rw [hentries]
      exact chain_append hchain hne rfl
    · rintro offset bytes ⟨chunk, hmem, hle, hbytes⟩
      refine ⟨chunk, Or.inr ?_, hle, hbytes⟩
      rw [hentries]
      rcases hmem with rfl | ⟨key, hmem⟩
      · exact ⟨_, List.mem_append_right _ (List.mem_singleton.mpr rfl)⟩
      · exact ⟨key, List.mem_append_left _ hmem⟩
  · exact ⟨h, rfl, fun _ _ hb => hb⟩

theorem chain_congr {active' : Chunk} (h : Chain active base chunks)
    (hstart : active'.startOffset = active.startOffset) : Chain active' base chunks := by
  induction chunks generalizing base with
  | nil => exact hstart.trans h
  | cons e chunks ih =>
    obtain ⟨key, chunk⟩ := e
    obtain ⟨hbase, hne', hkey, hchain⟩ := h
    exact ⟨hbase, hne', hkey, ih hchain⟩

/-- A grapheme lies at the end that the content had. -/
theorem pushGrapheme_ok {content' : Content} (h : content.InOrder start)
    (hok : content.pushGrapheme bytes = .ok content') :
    content'.InOrder start ∧ content'.endOffset = content.endOffset + bytes.length ∧
      content'.Holds content.endOffset bytes ∧
      ∀ offset old, content.Holds offset old → content'.Holds offset old := by
  rw [pushGrapheme] at hok
  split at hok
  · rename_i hlen
    cases hok
    obtain ⟨⟨base, hbase, hchain⟩, hend, hkeep⟩ := inOrder_makeRoom h hlen
    generalize content.makeRoom bytes.length = room at hchain hend hkeep ⊢
    rw [endOffset, Chunk.endOffset] at hend
    refine ⟨⟨base, hbase, chain_congr hchain rfl⟩, ?_, ?_, ?_⟩
    · simp only [endOffset, Chunk.endOffset, append, List.length_append] at hend ⊢
      omega
    · refine ⟨_, Or.inl rfl, ?_, ?_⟩
      · change room.activeChunk.startOffset ≤ _
        omega
      · change bytes <+: (room.activeChunk.content ++ bytes).drop
          (content.endOffset - room.activeChunk.startOffset)
        rw [← hend, Nat.add_sub_cancel_left, List.drop_left]
    · intro offset old hold
      obtain ⟨chunk, hmem, hle, hbytes⟩ := hkeep offset old hold
      rcases hmem with rfl | hmem
      · refine ⟨_, Or.inl rfl, hle, hbytes.trans ?_⟩
        change _ <+: (room.activeChunk.content ++ bytes).drop _
        rw [List.drop_append]
        exact List.prefix_append _ _
      · exact ⟨chunk, Or.inr hmem, hle, hbytes⟩
  · exact nomatch hok

/-- The chunks that end before an offset, and the chunk that is cut. -/
theorem chain_below (h : Chain active base chunks) (hbase : base ≤ offset)
    (hend : offset ≤ active.endOffset) :
    let cut := (((chunks.filter fun e => decide (offset ≤ e.1)).head?).map Prod.snd).getD active
    Chain cut base (chunks.filter fun e => decide (e.1 < offset)) ∧
      cut.startOffset ≤ offset ∧ offset ≤ cut.endOffset := by
  induction chunks generalizing base with
  | nil => exact ⟨h, h.trans_le hbase, hend⟩
  | cons e chunks ih =>
    obtain ⟨key, chunk⟩ := e
    obtain ⟨hstart, hne, hkey, hchain⟩ := h
    by_cases hlt : key < offset
    · have hih := ih hchain (by omega)
      have hge : ((key, chunk) :: chunks).filter (fun e => decide (offset ≤ e.1)) =
          chunks.filter fun e => decide (offset ≤ e.1) :=
        List.filter_cons_of_neg (by simpa using hlt)
      rw [hge, List.filter_cons_of_pos (by simpa using hlt)]
      exact ⟨⟨hstart, hne, hkey, hih.1⟩, hih.2⟩
    · have hnil : chunks.filter (fun e => decide (e.1 < offset)) = [] := by
        rw [List.filter_eq_nil_iff]
        intro e he
        obtain ⟨hle, hk, hn⟩ := chain_start hchain he
        have hpos := endOffset_pos hn
        simpa using (by omega : offset ≤ e.1)
      have hge : ((key, chunk) :: chunks).filter (fun e => decide (offset ≤ e.1)) =
          (key, chunk) :: chunks.filter fun e => decide (offset ≤ e.1) :=
        List.filter_cons_of_pos (by simpa using hlt)
      rw [hge, List.filter_cons_of_neg (by simpa using hlt), hnil]
      have hcutEnd : offset ≤ chunk.endOffset := by omega
      exact ⟨hstart, hstart.trans_le hbase, hcutEnd⟩

/-- What lies before the cut stays. -/
theorem truncate_ok {newLen : ℕ} (h : content.InOrder start) (hstart : start ≤ newLen)
    (hend : newLen ≤ content.endOffset) :
    (content.truncate newLen).InOrder start ∧ (content.truncate newLen).endOffset = newLen ∧
      ∀ offset bytes, bytes ≠ [] → offset + bytes.length ≤ newLen → content.Holds offset bytes →
        (content.truncate newLen).Holds offset bytes := by
  obtain ⟨base, hbase, hchain⟩ := h
  obtain ⟨hbelow, hcut, hcutEnd⟩ := chain_below hchain (hbase.trans hstart) hend
  rw [← chunkAt_def] at hbelow hcut hcutEnd
  rw [Chunk.endOffset] at hcutEnd
  refine ⟨⟨base, hbase, chain_congr hbelow rfl⟩, ?_, ?_⟩
  · simp only [endOffset, truncate, Chunk.endOffset, Chunk.truncate, List.length_take]
    omega
  · rintro offset bytes hne hlen ⟨chunk, hmem, hle, hbytes⟩
    have hpos := List.length_pos_of_ne_nil hne
    have hplen := hbytes.length_le
    rw [List.length_drop] at hplen
    by_cases hkept : ∃ key, (key, chunk) ∈ content.filledChunks.entries ∧ key < newLen
    · obtain ⟨key, hkey, hlt⟩ := hkept
      exact ⟨chunk, Or.inr ⟨key, List.mem_filter.mpr ⟨hkey, by simpa using hlt⟩⟩, hle, hbytes⟩
    · have hat : content.chunkAt newLen = chunk := by
        rcases hmem with rfl | ⟨key, hmem⟩
        · exact chunkAt_active ⟨base, hbase, hchain⟩ (by omega)
        · have hkey := (chain_start hchain hmem).2.1
          have hge : ¬ key < newLen := fun hlt => hkept ⟨key, hmem, hlt⟩
          refine chunkAt_filled ⟨base, hbase, hchain⟩ hmem (by omega) ?_
          change key + 1 = chunk.endOffset at hkey
          omega
      refine ⟨_, Or.inl rfl, ?_, ?_⟩
      · change (content.chunkAt newLen).startOffset ≤ offset
        rwa [hat]
      · change bytes <+: ((content.chunkAt newLen).content.take
          (newLen - (content.chunkAt newLen).startOffset)).drop
            (offset - (content.chunkAt newLen).startOffset)
        rw [hat, List.drop_take]
        exact List.prefix_take_iff.mpr ⟨hbytes, by omega⟩

theorem chain_above (h : Chain active base chunks) (hbase : base ≤ offset) :
    ∃ base' ≤ offset, Chain active base' (chunks.filter fun e => decide (offset ≤ e.1)) := by
  induction chunks generalizing base with
  | nil => exact ⟨base, hbase, h⟩
  | cons e chunks ih =>
    obtain ⟨key, chunk⟩ := e
    have h' := h
    obtain ⟨hstart, hne, hkey, hchain⟩ := h
    by_cases hle : offset ≤ key
    · have hall : chunks.filter (fun e => decide (offset ≤ e.1)) = chunks := by
        rw [List.filter_eq_self]
        intro e he
        obtain ⟨hle', hk, hn⟩ := chain_start hchain he
        have hpos := endOffset_pos hn
        simpa using (by omega : offset ≤ e.1)
      rw [List.filter_cons_of_pos (by simpa using hle), hall]
      exact ⟨base, hbase, h'⟩
    · rw [List.filter_cons_of_neg (by simpa using hle)]
      exact ih hchain (by omega)

/-- What lies behind the new start stays. -/
theorem truncateFront_ok {newStart : ℕ} (h : content.InOrder start) (hstart : start ≤ newStart) :
    (content.truncateFront newStart).InOrder newStart ∧
      (content.truncateFront newStart).endOffset = content.endOffset ∧
      ∀ offset bytes, bytes ≠ [] → newStart ≤ offset → content.Holds offset bytes →
        (content.truncateFront newStart).Holds offset bytes := by
  obtain ⟨base, hbase, hchain⟩ := h
  obtain ⟨base', hbase', habove⟩ := chain_above hchain (hbase.trans hstart)
  refine ⟨⟨base', hbase', habove⟩, rfl, ?_⟩
  rintro offset bytes hne hle' ⟨chunk, hmem, hle, hbytes⟩
  refine ⟨chunk, hmem.imp_right ?_, hle, hbytes⟩
  rintro ⟨key, hmem⟩
  have hpos := List.length_pos_of_ne_nil hne
  have hplen := hbytes.length_le
  have hkey : key + 1 = chunk.startOffset + chunk.content.length := (chain_start hchain hmem).2.1
  rw [List.length_drop] at hplen
  exact ⟨key, List.mem_filter.mpr ⟨hmem, by simpa using (by omega : newStart ≤ key)⟩⟩

end Content

end FlatStorage

end Clinch
