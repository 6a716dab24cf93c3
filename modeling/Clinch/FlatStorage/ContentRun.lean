import Clinch.FlatStorage.Content

/-!
# Runs of the content buffer

`flat_storage/content.rs` over a whole history. What the buffer stands for is a byte string: the
graphemes that were pushed and not cut off, one after another from offset 0 on. Those from the front
on are live.

* `ByteString`, `ContentRun`: the string, and a buffer with its string after any operations;
* `Represents`: the chunks are in order and hold the live graphemes of the string;
* `Represents.pushGrapheme`, `.truncate`, `.truncateFront`: every operation keeps this;
* `content_live`: a live grapheme lies in one chunk and is what is read.
-/

set_option autoImplicit false

namespace Clinch

namespace FlatStorage

/-- What a content buffer stands for: its graphemes from offset 0 on, and the first live offset. -/
structure ByteString where
  graphemes : List (List UInt8)
  front : ℕ

namespace ByteString

/-- The bytes. -/
def text (s : ByteString) : List UInt8 := s.graphemes.flatten

/-- Where a grapheme begins. -/
def startOf (s : ByteString) (i : ℕ) : ℕ := (s.graphemes.take i).flatten.length

variable {s : ByteString} {i : ℕ} {grapheme : List UInt8}

theorem startOf_le (s : ByteString) (i : ℕ) : s.startOf i ≤ s.text.length := by
  have h : s.graphemes.flatten = (s.graphemes.take i).flatten ++ (s.graphemes.drop i).flatten := by
    rw [← List.flatten_append, List.take_append_drop]
  rw [text, h, List.length_append]
  exact Nat.le_add_right _ _

theorem startOf_succ (h : s.graphemes[i]? = some grapheme) :
    s.startOf (i + 1) = s.startOf i + grapheme.length := by
  rw [startOf, List.take_add_one, h, List.flatten_append, List.length_append]
  simp [startOf]

theorem startOf_add_le (h : s.graphemes[i]? = some grapheme) :
    s.startOf i + grapheme.length ≤ s.text.length := by
  rw [← startOf_succ h]
  exact startOf_le s (i + 1)

theorem startOf_mono (s : ByteString) {i j : ℕ} (h : i ≤ j) : s.startOf i ≤ s.startOf j := by
  have hle := startOf_le ⟨s.graphemes.take j, s.front⟩ i
  rwa [startOf, List.take_take, Nat.min_eq_left h] at hle

end ByteString

/-- A buffer and its string after any operations: pushes, cuts at the end of a grapheme at or after
the front, and cuts of the front. -/
inductive ContentRun : Content → ByteString → Prop
  | new : ContentRun Content.new ⟨[], 0⟩
  | pushGrapheme {content content' : Content} {s : ByteString} (grapheme : List UInt8)
      (h : ContentRun content s) (hok : content.pushGrapheme grapheme = .ok content') :
      ContentRun content' ⟨s.graphemes ++ [grapheme], s.front⟩
  | truncate {content : Content} {s : ByteString} (count : ℕ) (h : ContentRun content s)
      (hfront : s.front ≤ s.startOf count) :
      ContentRun (content.truncate (s.startOf count)) ⟨s.graphemes.take count, s.front⟩
  | truncateFront {content : Content} {s : ByteString} (newStart : ℕ) (h : ContentRun content s) :
      ContentRun (content.truncateFront newStart) ⟨s.graphemes, max s.front newStart⟩

namespace Content

/-- The chunk is one of the chunks of the content. -/
def HasChunk (content : Content) (chunk : Chunk) : Prop :=
  chunk = content.activeChunk ∨ ∃ key, (key, chunk) ∈ content.filledChunks.entries

/-- No chunk has more bytes than its array. -/
def Fits (content : Content) : Prop :=
  ∀ chunk, content.HasChunk chunk → chunk.content.length ≤ chunkSize

variable {content content' : Content} {start offset : ℕ} {bytes : List UInt8}

theorem hasChunk_chunkAt (content : Content) (offset : ℕ) :
    content.HasChunk (content.chunkAt offset) := by
  rw [chunkAt_def, List.head?_filter]
  cases hfind : content.filledChunks.entries.find? fun e => decide (offset ≤ e.1) with
  | none => exact Or.inl rfl
  | some e => exact Or.inr ⟨e.1, List.mem_of_find?_eq_some hfind⟩

/-- The chunk that is found covers the offset. -/
theorem chunkAt_covers (h : content.InOrder start) (hstart : start ≤ offset)
    (hend : offset ≤ content.endOffset) :
    (content.chunkAt offset).startOffset ≤ offset ∧ offset ≤ (content.chunkAt offset).endOffset := by
  obtain ⟨base, hbase, hchain⟩ := h
  rw [chunkAt_def]
  exact (chain_below hchain (hbase.trans hstart) hend).2

/-- An empty range is read as no bytes. -/
theorem slice_self (h : content.InOrder start) (hstart : start ≤ offset)
    (hend : offset ≤ content.endOffset) : content.slice offset offset = .ok [] := by
  rw [slice, if_pos (chunkAt_covers h hstart hend), Nat.sub_self, List.take_zero]

theorem fits_new : new.Fits := by
  rintro chunk (rfl | ⟨key, hmem⟩)
  · exact Nat.zero_le _
  · exact nomatch hmem

/-- There is room for the bytes, and the chunks are no larger than before. -/
theorem fits_makeRoom (h : content.Fits) {n : ℕ} (hn : n < chunkSize) :
    (content.makeRoom n).Fits ∧ (content.makeRoom n).activeChunk.content.length + n ≤ chunkSize := by
  rw [makeRoom]
  split
  · refine ⟨?_, ?_⟩
    · rintro chunk (rfl | ⟨key, hmem⟩)
      · exact Nat.zero_le _
      · rcases List.mem_append.mp hmem with hmem | hmem
        · exact h chunk (Or.inr ⟨key, (List.mem_filter.mp hmem).1⟩)
        · rcases List.mem_cons.mp hmem with heq | hmem
          · cases heq
            exact h _ (Or.inl rfl)
          · exact h chunk (Or.inr ⟨key, (List.mem_filter.mp hmem).1⟩)
    · simpa using hn.le
  · exact ⟨h, by omega⟩

theorem fits_pushGrapheme (h : content.Fits) (hok : content.pushGrapheme bytes = .ok content') :
    content'.Fits := by
  rw [pushGrapheme] at hok
  split at hok
  · rename_i hlen
    cases hok
    obtain ⟨hfits, hroom⟩ := fits_makeRoom h hlen
    rintro chunk (rfl | hmem)
    · rw [append, List.length_append]
      exact hroom
    · exact hfits chunk (Or.inr hmem)
  · cases hok

theorem fits_truncate (h : content.Fits) (newLen : ℕ) : (content.truncate newLen).Fits := by
  rintro chunk (rfl | ⟨key, hmem⟩)
  · have hcut := h _ (content.hasChunk_chunkAt newLen)
    rw [truncate, Chunk.truncate, List.length_take]
    omega
  · exact h chunk (Or.inr ⟨key, (List.mem_filter.mp hmem).1⟩)

theorem fits_truncateFront (h : content.Fits) (newStart : ℕ) :
    (content.truncateFront newStart).Fits := by
  rintro chunk (rfl | ⟨key, hmem⟩)
  · exact h _ (Or.inl rfl)
  · exact h chunk (Or.inr ⟨key, (List.mem_filter.mp hmem).1⟩)

/-- The front never moves back. -/
theorem inOrder_truncateFront (h : content.InOrder start) (newStart : ℕ) :
    (content.truncateFront newStart).InOrder (max start newStart) := by
  by_cases hle : start ≤ newStart
  · rw [Nat.max_eq_right hle]
    exact (truncateFront_ok h hle).1
  · rw [Nat.max_eq_left (by omega)]
    obtain ⟨base, hbase, hchain⟩ := h
    by_cases hcut : base ≤ newStart
    · obtain ⟨base', hbase', habove⟩ := chain_above hchain hcut
      exact ⟨base', by omega, habove⟩
    · -- every chunk ends behind the offset
      refine ⟨base, hbase, ?_⟩
      have hall : content.filledChunks.entries.filter (fun e => decide (newStart ≤ e.1)) =
          content.filledChunks.entries := by
        rw [List.filter_eq_self]
        intro e he
        obtain ⟨hle', hkey, hne⟩ := chain_start hchain he
        have hpos := endOffset_pos hne
        simpa using (by omega : newStart ≤ e.1)
      change Chain _ base (content.filledChunks.entries.filter fun e => decide (newStart ≤ e.1))
      rw [hall]
      exact hchain

/-- What lies behind a cut of the front stays. -/
theorem holds_truncateFront (h : content.InOrder start) {newStart : ℕ} (hle : newStart ≤ offset)
    (hne : bytes ≠ []) (hb : content.Holds offset bytes) :
    (content.truncateFront newStart).Holds offset bytes := by
  obtain ⟨base, hbase, hchain⟩ := h
  obtain ⟨chunk, hmem, hstart, hbytes⟩ := hb
  refine ⟨chunk, hmem.imp_right ?_, hstart, hbytes⟩
  rintro ⟨key, hmem⟩
  have hpos := List.length_pos_of_ne_nil hne
  have hlen := hbytes.length_le
  have hkey : key + 1 = chunk.startOffset + chunk.content.length := (chain_start hchain hmem).2.1
  rw [List.length_drop] at hlen
  exact ⟨key, List.mem_filter.mpr ⟨hmem, by simpa using (by omega : newStart ≤ key)⟩⟩

end Content

/-! ## The buffer and its string -/

/-- The buffer holds the live graphemes of the string, its chunks are in order and none is too
long. -/
structure Represents (content : Content) (s : ByteString) : Prop where
  endOffset : content.endOffset = s.text.length
  inOrder : content.InOrder s.front
  fits : content.Fits
  holds : ∀ i grapheme, s.graphemes[i]? = some grapheme → s.front ≤ s.startOf i →
    grapheme ≠ [] → content.Holds (s.startOf i) grapheme

namespace Represents

variable {content content' : Content} {s : ByteString} {grapheme : List UInt8}

theorem new : Represents Content.new ⟨[], 0⟩ where
  endOffset := rfl
  inOrder := ⟨0, le_rfl, rfl⟩
  fits := Content.fits_new
  holds := fun _ _ h => nomatch h

theorem pushGrapheme (h : Represents content s) (hok : content.pushGrapheme grapheme = .ok content') :
    Represents content' ⟨s.graphemes ++ [grapheme], s.front⟩ := by
  obtain ⟨horder, hend, hnew, hkeep⟩ := Content.pushGrapheme_ok h.inOrder hok
  refine ⟨?_, horder, Content.fits_pushGrapheme h.fits hok, ?_⟩
  · rw [hend, h.endOffset]
    simp [ByteString.text]
  · intro i g hget hfront hne
    rcases lt_or_ge i s.graphemes.length with hlt | hge
    · have hstart : ByteString.startOf ⟨s.graphemes ++ [grapheme], s.front⟩ i = s.startOf i := by
        simp [ByteString.startOf, List.take_append_of_le_length hlt.le]
      change (s.graphemes ++ [grapheme])[i]? = some g at hget
      rw [List.getElem?_append_left hlt] at hget
      rw [hstart] at hfront ⊢
      exact hkeep _ _ (h.holds i g hget hfront hne)
    · have hi : i = s.graphemes.length := by
        have hbound := (List.getElem?_eq_some_iff.mp hget).1
        simp only [List.length_append, List.length_singleton] at hbound
        omega
      subst hi
      have hstart : ByteString.startOf ⟨s.graphemes ++ [grapheme], s.front⟩ s.graphemes.length =
          content.endOffset := by
        rw [h.endOffset, ByteString.startOf, List.take_left, ByteString.text]
      have hg : grapheme = g := by simpa using hget
      rw [hstart, ← hg]
      exact hnew

theorem truncate (h : Represents content s) {count : ℕ} (hfront : s.front ≤ s.startOf count) :
    Represents (content.truncate (s.startOf count)) ⟨s.graphemes.take count, s.front⟩ := by
  have hle : s.startOf count ≤ content.endOffset := by
    rw [h.endOffset]
    exact s.startOf_le count
  obtain ⟨horder, hend, hkeep⟩ := Content.truncate_ok h.inOrder hfront hle
  refine ⟨hend, horder, Content.fits_truncate h.fits _, ?_⟩
  intro i g hget hi hne
  change (s.graphemes.take count)[i]? = some g at hget
  have hlt : i < count := by
    have hbound := (List.getElem?_eq_some_iff.mp hget).1
    rw [List.length_take] at hbound
    omega
  rw [List.getElem?_take_of_lt hlt] at hget
  have hstart : ByteString.startOf ⟨s.graphemes.take count, s.front⟩ i = s.startOf i := by
    rw [ByteString.startOf, List.take_take, Nat.min_eq_left hlt.le, ByteString.startOf]
  rw [hstart] at hi ⊢
  refine hkeep _ _ hne ?_ (h.holds i g hget hi hne)
  rw [← ByteString.startOf_succ hget]
  exact s.startOf_mono hlt

theorem truncateFront (h : Represents content s) (newStart : ℕ) :
    Represents (content.truncateFront newStart) ⟨s.graphemes, max s.front newStart⟩ where
  endOffset := h.endOffset
  inOrder := Content.inOrder_truncateFront h.inOrder newStart
  fits := Content.fits_truncateFront h.fits newStart
  holds := by
    intro i g hget hfront hne
    have hlive : max s.front newStart ≤ s.startOf i := hfront
    exact Content.holds_truncateFront h.inOrder (le_of_max_le_right hlive) hne
      (h.holds i g hget (le_of_max_le_left hlive) hne)

/-- A live grapheme lies in one chunk. -/
theorem in_chunk (h : Represents content s) {i : ℕ} (hget : s.graphemes[i]? = some grapheme)
    (hfront : s.front ≤ s.startOf i) :
    ∃ chunk, content.HasChunk chunk ∧ chunk.startOffset ≤ s.startOf i ∧
      s.startOf i + grapheme.length ≤ chunk.endOffset := by
  by_cases hne : grapheme = []
  · have hend : s.startOf i ≤ content.endOffset := by
      rw [h.endOffset]
      exact s.startOf_le i
    refine ⟨_, content.hasChunk_chunkAt (s.startOf i), ?_⟩
    rw [hne, List.length_nil, Nat.add_zero]
    exact Content.chunkAt_covers h.inOrder hfront hend
  · obtain ⟨chunk, hmem, hstart, hbytes⟩ := h.holds i grapheme hget hfront hne
    have hlen := hbytes.length_le
    have hpos := List.length_pos_of_ne_nil hne
    rw [List.length_drop] at hlen
    refine ⟨chunk, hmem, hstart, ?_⟩
    rw [Chunk.endOffset]
    omega

/-- A live grapheme is what is read. -/
theorem slice_eq (h : Represents content s) {i : ℕ} (hget : s.graphemes[i]? = some grapheme)
    (hfront : s.front ≤ s.startOf i) :
    content.slice (s.startOf i) (s.startOf i + grapheme.length) = .ok grapheme := by
  by_cases hne : grapheme = []
  · have hend : s.startOf i ≤ content.endOffset := by
      rw [h.endOffset]
      exact s.startOf_le i
    rw [hne, List.length_nil, Nat.add_zero]
    exact Content.slice_self h.inOrder hfront hend
  · exact Content.slice_eq h.inOrder (h.holds i grapheme hget hfront hne) hne

end Represents

/-- After any operations the buffer represents its string. -/
theorem ContentRun.represents {content : Content} {s : ByteString} (h : ContentRun content s) :
    Represents content s := by
  induction h with
  | new => exact Represents.new
  | pushGrapheme _ _ hok ih => exact ih.pushGrapheme hok
  | truncate _ _ hfront ih => exact ih.truncate hfront
  | truncateFront newStart _ ih => exact ih.truncateFront newStart

/-- **The content is a byte string.** After any operations the content ends where the string does,
its chunks follow one another from an offset at or before the front to the end and none outgrows its
array, a short grapheme can be pushed, and every live grapheme lies in one chunk and is what is
read. -/
theorem content_live {content : Content} {s : ByteString} (h : ContentRun content s) :
    content.endOffset = s.text.length ∧ content.InOrder s.front ∧ content.Fits ∧
      (∀ grapheme : List UInt8, grapheme.length < chunkSize →
        ∃ content', content.pushGrapheme grapheme = .ok content') ∧
      ∀ i grapheme, s.graphemes[i]? = some grapheme → s.front ≤ s.startOf i →
        (∃ chunk, content.HasChunk chunk ∧ chunk.startOffset ≤ s.startOf i ∧
          s.startOf i + grapheme.length ≤ chunk.endOffset) ∧
        content.slice (s.startOf i) (s.startOf i + grapheme.length) = .ok grapheme := by
  have hrep := h.represents
  refine ⟨hrep.endOffset, hrep.inOrder, hrep.fits, ?_, ?_⟩
  · intro grapheme hlen
    exact ⟨_, if_pos hlen⟩
  · intro i grapheme hget hfront
    exact ⟨hrep.in_chunk hget hfront, hrep.slice_eq hget hfront⟩

/-- The second of two graphemes was cut off and another one was pushed. -/
theorem content_live_rewritten :
    ∃ content, (((Content.new.pushGrapheme [97]).bind fun content =>
        content.pushGrapheme [98]).bind fun content =>
        (content.truncate 1).pushGrapheme [195, 169]) = .ok content ∧
      content.endOffset = 3 ∧ content.slice 1 3 = .ok [195, 169] := by
  have hrun := ((ContentRun.new.pushGrapheme [97] rfl).pushGrapheme [98] rfl).truncate 1
    (Nat.zero_le _)
  obtain ⟨hend, -, -, -, hlive⟩ := content_live (hrun.pushGrapheme [195, 169] rfl)
  exact ⟨_, rfl, hend, (hlive 1 _ rfl (Nat.zero_le _)).2⟩

end FlatStorage

end Clinch
