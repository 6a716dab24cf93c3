import Clinch.Chunker.Semantic
import Clinch.Chunker.Naive

/-!
# Chunking code

Code is chunked along its syntax tree, and by lines where there is no tree or the tree is too deep.

* `chunkCode`;
* **`chunks_kept`**: when chunking loses no code.
-/

set_option autoImplicit false

namespace Clinch.Chunker

open ByteText Semantic

def linesPerChunk : ℕ := 200

/-- The average number of characters per line. -/
def avgCharPerLine : ℕ := 60

def maxBytesPerChunk : ℕ := linesPerChunk * avgCharPerLine

/-- `chunk_code`, where `tree` is the tree that was parsed, if the file has a language. -/
def chunkCode (code path : List Char) (lines : Naive.LineSpans code) (tree : Option Node) :
    Option (List Fragment) :=
  let naive := Naive.chunkCode path maxBytesPerChunk lines linesPerChunk
  match tree with
  | none => naive
  | some root =>
    match Semantic.chunkCode code maxBytesPerChunk path root with
    | .ok fragments => some fragments
    | .error .tooDeep => naive
    | .error .panic => none

/-- The production limits leave the naive chunker no character that is too wide. -/
theorem naive_law (code path : List Char) (lines : Naive.LineSpans code) :
    ∃ fragments, Naive.chunkCode path maxBytesPerChunk lines linesPerChunk = some fragments ∧
      Law code maxBytesPerChunk fragments :=
  Naive.chunkCode_law_iff.2 ⟨by decide, Naive.narrow_of_four_le lines (by decide)⟩

theorem chunkCode_kept {code path : List Char} {lines : Naive.LineSpans code} {tree : Option Node}
    (h : ∀ root, tree = some root →
      root.Ordered ∧ root.BetweenChars code ∧ root.Keeps code maxBytesPerChunk) :
    ∃ fragments, chunkCode code path lines tree = some fragments ∧
      Law code maxBytesPerChunk fragments := by
  have hnaive := naive_law code path lines
  unfold chunkCode
  cases tree with
  | none => exact hnaive
  | some root =>
    obtain ⟨hordered, hbetween, hkeeps⟩ := h root rfl
    dsimp only
    obtain hdeep | ⟨fragments, hfragments, hlaw⟩ :=
      @chunkCode_law code maxBytesPerChunk path root hordered hbetween hkeeps
    · rw [hdeep]
      exact hnaive
    · rw [hfragments]
      exact ⟨fragments, rfl, hlaw⟩

/-- **When chunking loses no code.** -/
theorem chunks_kept (code path : List Char) (lines : Naive.LineSpans code) :
    (∀ (limit : ℕ) (root : Node), root.Ordered → root.BetweenChars code →
      (∀ fragments, splitNode code limit path 0 root = .ok fragments →
        (Law code limit fragments ↔ root.Keeps code limit)) ∧
      (root.Keeps code limit → Semantic.chunkCode code limit path root = .error .tooDeep ∨
        ∃ fragments, Semantic.chunkCode code limit path root = .ok fragments ∧
          Law code limit fragments)) ∧
    (∀ limit numLines : ℕ, (∃ fragments,
      Naive.chunkCode path limit lines numLines = some fragments ∧ Law code limit fragments) ↔
        numLines ≠ 0 ∧ Naive.Narrow limit lines) ∧
    ∀ tree : Option Node, (∀ root, tree = some root →
      root.Ordered ∧ root.BetweenChars code ∧ root.Keeps code maxBytesPerChunk) →
        ∃ fragments, chunkCode code path lines tree = some fragments ∧
          Law code maxBytesPerChunk fragments := by
  refine ⟨fun limit root hordered hbetween => ⟨fun fragments h => ?_, ?_⟩, ?_, ?_⟩
  · exact splitNode_law_iff hordered hbetween h
  · exact chunkCode_law hordered hbetween
  · exact fun limit numLines => Naive.chunkCode_law_iff
  · exact fun tree => chunkCode_kept

/-- The only line of a text without line breaks. -/
def oneLine (code : List Char) : Naive.LineSpans code where
  spans := [(0, byteLen code)]
  ordered := List.pairwise_singleton _ _
  between := by
    intro s hs
    obtain rfl := List.mem_singleton.1 hs
    exact ⟨Nat.zero_le _, isCharBoundary_iff.2 ⟨[], code, rfl, rfl⟩,
      isCharBoundary_iff.2 ⟨code, [], by simp, rfl⟩⟩
  breaks := fun n hn => ⟨_, List.mem_cons_self, Nat.zero_le n, hn.lt_byteLen⟩

/-- `a b`, with a node for each letter. -/
def letters : Node := .mk 0 3 0 0 [.mk 0 1 0 0 [], .mk 2 3 0 0 []]

theorem letters_kept :
    (Law ['a', ' ', 'b'] 3 [⟨['a', ' ', 'b'], 0, 0, 0, 3, []⟩] ↔ letters.Keeps ['a', ' ', 'b'] 3) ∧
      ∃ fragments, chunkCode ['a', ' ', 'b'] [] (oneLine _) none = some fragments ∧
        Law ['a', ' ', 'b'] maxBytesPerChunk fragments := by
  have hkept := chunks_kept ['a', ' ', 'b'] [] (oneLine _)
  have hordered : letters.Ordered := by
    simp [letters, Node.Ordered, OrderedAll, Node.startByte, Node.endByte]
  have hbetween : letters.BetweenChars ['a', ' ', 'b'] := by
    simp [letters, Node.BetweenChars, BetweenCharsAll]
    decide
  exact ⟨(hkept.1 3 letters hordered hbetween).1 _ rfl, hkept.2.2 none (by simp)⟩

/-- A leaf that is too long is lost, the space between two letters makes a fragment too long, and a
wide character does not fit. -/
theorem letters_lost :
    (∃ fragments, Semantic.chunkCode ['a', 'b'] 1 [] (.mk 0 2 0 0 []) = .ok fragments ∧
      ¬ Law ['a', 'b'] 1 fragments) ∧
    (∃ fragments, Semantic.chunkCode ['a', ' ', 'b'] 2 [] letters = .ok fragments ∧
      ¬ Law ['a', ' ', 'b'] 2 fragments) ∧
    ¬ ∃ fragments, Naive.chunkCode [] 1 (oneLine ['é']) 1 = some fragments ∧ Law ['é'] 1 fragments := by
  refine ⟨⟨[⟨[], 0, 0, 0, 0, []⟩], rfl, fun h => ?_⟩,
    ⟨[⟨['a', ' ', 'b'], 0, 0, 0, 3, []⟩], rfl, fun h => ?_⟩, ?_⟩
  · obtain ⟨f, hf, -, hlt⟩ := h.covers 0 le_rfl (by decide) ⟨[], 'a', ['b'], rfl, rfl, le_rfl, by decide⟩
    obtain rfl := List.mem_singleton.1 hf
    exact absurd hlt (by decide)
  · exact absurd (h.bounded _ List.mem_cons_self) (by decide)
  · intro h
    obtain ⟨m, hm, hmle, hmb⟩ := (Naive.chunkCode_law_iff.1 h).2 _ List.mem_cons_self 0 le_rfl
      (by decide) rfl
    obtain rfl : m = 1 := by omega
    exact absurd hmb (by decide)

end Clinch.Chunker
