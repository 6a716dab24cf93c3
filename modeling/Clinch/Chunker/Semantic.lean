import Clinch.Chunker.Fragment

/-!
# Chunking along a syntax tree

A node's children are gathered into fragments while they fit, and a child that is too long is split
in turn. What no fragment takes is lost: the text between a closed fragment and the next child, the
text behind the last child, and a leaf that is too long. The text between two gathered children is
not counted.

* `Node`, `splitNode`, `chunkCode`;
* `Node.Kept`: where splitting loses white space only, and counts enough;
* **`splitNode_law_iff`**: that is exactly when the split fragments keep the law;
* **`chunkCode_law`**: then so do the coalesced ones.
-/

set_option autoImplicit false

namespace Clinch.Chunker.Semantic

open ByteText

/-- A node of a syntax tree. -/
inductive Node where
  | mk (startByte endByte startRow endRow : ℕ) (children : List Node)

namespace Node

def startByte : Node → ℕ
  | mk startByte _ _ _ _ => startByte

def endByte : Node → ℕ
  | mk _ endByte _ _ _ => endByte

def startRow : Node → ℕ
  | mk _ _ startRow _ _ => startRow

def endRow : Node → ℕ
  | mk _ _ _ endRow _ => endRow

end Node

/-- A fragment comprised solely of the start of a node. -/
def fromNodeStart (node : Node) (path : List Char) : Fragment :=
  ⟨[], node.startRow, node.startRow, node.startByte, node.startByte, path⟩

/-- A fragment comprised solely of the end of a node. -/
def fromNodeEnd (node : Node) (path : List Char) : Fragment :=
  ⟨[], node.endRow, node.endRow, node.endByte, node.endByte, path⟩

def maxTraversalDepth : ℕ := 200

/-- Why chunking stops: the tree is too deep, or the code is sliced inside a character. -/
inductive Stop
  | tooDeep
  | panic
deriving DecidableEq

def orPanic {α : Type} : Option α → Except Stop α
  | some a => .ok a
  | none => .error .panic

variable (code : List Char) (maxBytesPerChunk : ℕ) (path : List Char)

mutual

/-- Splits a node into fragments. -/
def splitNode (depth : ℕ) : Node → Except Stop (List Fragment)
  | .mk startByte endByte startRow endRow children =>
    if maxTraversalDepth < depth then .error .tooDeep
    else splitChildren depth (fromNodeStart (.mk startByte endByte startRow endRow []) path) children

/-- The fragments from the current one on. -/
def splitChildren (depth : ℕ) (currentFragment : Fragment) : List Node → Except Stop (List Fragment)
  | [] => .ok [currentFragment]
  | child :: children =>
    let childSize := child.endByte - child.startByte
    if maxBytesPerChunk < childSize then do
      let inner ← splitNode (depth + 1) child
      let rest ← splitChildren depth (fromNodeEnd child path) children
      .ok (currentFragment :: (inner ++ rest))
    else if maxBytesPerChunk < childSize + currentFragment.size then do
      let newFragment ← orPanic ((fromNodeStart child path).append code (fromNodeEnd child path))
      let rest ← splitChildren depth newFragment children
      .ok (currentFragment :: rest)
    else do
      let content ← orPanic (slice code currentFragment.startByteIndex child.endByte)
      splitChildren depth
        { currentFragment with
          endLine := child.endRow
          endByteIndex := child.endByte
          content := content }
        children

end

/-- `chunk_code` on the root of the tree that was parsed. -/
def chunkCode (root : Node) : Except Stop (List Fragment) := do
  let nodes ← splitNode code maxBytesPerChunk path 0 root
  orPanic (coalesceFragments code maxBytesPerChunk nodes)

/-! ## Trees of a text -/

mutual

/-- The nodes are nested, and ordered by byte range. -/
def Node.Ordered : Node → Prop
  | .mk startByte endByte _ _ children => startByte ≤ endByte ∧ OrderedAll startByte endByte children

def OrderedAll (start stop : ℕ) : List Node → Prop
  | [] => start ≤ stop
  | child :: children =>
    start ≤ child.startByte ∧ child.Ordered ∧ OrderedAll child.endByte stop children

end

mutual

/-- The nodes begin and end between characters. -/
def Node.BetweenChars : Node → Prop
  | .mk startByte endByte _ _ children =>
    isCharBoundary code startByte = true ∧ isCharBoundary code endByte = true ∧
      BetweenCharsAll children

def BetweenCharsAll : List Node → Prop
  | [] => True
  | child :: children => child.BetweenChars ∧ BetweenCharsAll children

end

/-- There is nothing but white space in a range. -/
def White (start stop : ℕ) : Prop := ∀ n, start ≤ n → n < stop → ¬ NonWhite code n

mutual

/-- Splitting a node loses white space only, and makes no fragment too long. -/
def Node.Kept : Node → Prop
  | .mk startByte endByte _ _ children => KeptAll startByte startByte endByte children

/-- The same of the children from some place on, where the current fragment has the bytes from
`start` to `stop`. -/
def KeptAll (start stop endByte : ℕ) : List Node → Prop
  | [] => White code stop endByte
  | child :: children =>
    if maxBytesPerChunk < child.endByte - child.startByte then
      White code stop child.startByte ∧ child.Kept ∧ KeptAll child.endByte child.endByte endByte children
    else if maxBytesPerChunk < child.endByte - child.startByte + (stop - start) then
      White code stop child.startByte ∧ KeptAll child.startByte child.endByte endByte children
    else child.endByte - start ≤ maxBytesPerChunk ∧ KeptAll start child.endByte endByte children

end

variable {code maxBytesPerChunk path}

theorem Node.Ordered.le {node : Node} (h : node.Ordered) : node.startByte ≤ node.endByte := by
  cases node with
  | mk startByte endByte startRow endRow children =>
    unfold Node.Ordered at h
    exact h.1

theorem OrderedAll.le {start stop : ℕ} {children : List Node} (h : OrderedAll start stop children) :
    start ≤ stop := by
  induction children generalizing start with
  | nil =>
    unfold OrderedAll at h
    exact h
  | cons child children ih =>
    unfold OrderedAll at h
    exact h.1.trans (h.2.1.le.trans (ih h.2.2))

theorem Node.BetweenChars.start {node : Node} (h : node.BetweenChars code) :
    isCharBoundary code node.startByte = true := by
  cases node with
  | mk startByte endByte startRow endRow children =>
    unfold Node.BetweenChars at h
    exact h.1

theorem Node.BetweenChars.stop {node : Node} (h : node.BetweenChars code) :
    isCharBoundary code node.endByte = true := by
  cases node with
  | mk startByte endByte startRow endRow children =>
    unfold Node.BetweenChars at h
    exact h.2.1

/-! ## Splitting -/

variable (code maxBytesPerChunk) in
/-- Fragments of a byte range that keep the law there exactly when `kept` holds. -/
structure Split (start stop : ℕ) (kept : Prop) (fragments : List Fragment) : Prop where
  within : Within code start stop fragments
  law_iff : Bounded maxBytesPerChunk fragments ∧
    Covers (NonWhite code) start stop fragments ↔ kept

theorem Split.congr {start stop : ℕ} {kept kept' : Prop} {fragments : List Fragment}
    (h : Split code maxBytesPerChunk start stop kept fragments) (hkept : kept ↔ kept') :
    Split code maxBytesPerChunk start stop kept' fragments := ⟨h.within, h.law_iff.trans hkept⟩

/-- Fragments of two ranges, one after the other. -/
theorem Split.append {start mid stop : ℕ} {kept₁ kept₂ : Prop} {fs gs : List Fragment}
    (hfs : Split code maxBytesPerChunk start mid kept₁ fs)
    (hgs : Split code maxBytesPerChunk mid stop kept₂ gs) (hstart : start ≤ mid) (hstop : mid ≤ stop) :
    Split code maxBytesPerChunk start stop (kept₁ ∧ kept₂) (fs ++ gs) where
  within := hfs.within.append hgs.within hstart hstop
  law_iff := by
    rw [bounded_append_iff, covers_append_iff hfs.within hgs.within hstart hstop, ← hfs.law_iff,
      ← hgs.law_iff]
    tauto

/-- The current fragment, when it is closed. -/
theorem split_single {f : Fragment} (h : IsText code f.startByteIndex f.endByteIndex f.content)
    {stop : ℕ} (hstop : f.endByteIndex ≤ stop) :
    Split code maxBytesPerChunk f.startByteIndex stop
      (f.endByteIndex - f.startByteIndex ≤ maxBytesPerChunk ∧ White code f.endByteIndex stop) [f] where
  within := within_single h hstop
  law_iff := by
    have hsize : Bounded maxBytesPerChunk [f] ↔
        f.endByteIndex - f.startByteIndex ≤ maxBytesPerChunk := by
      rw [← h.byteLen_eq]
      simp [Bounded, Fragment.size]
    have hcovers : Covers (NonWhite code) f.startByteIndex stop [f] ↔
        White code f.endByteIndex stop := by
      have hle := h.le
      constructor
      · intro hcovers n hn hlt hwhite
        obtain ⟨g, hg, -, hglt⟩ := hcovers n (hle.trans hn) hlt hwhite
        obtain rfl := List.mem_singleton.1 hg
        omega
      · intro hgap n hn hlt hnonwhite
        refine ⟨f, List.mem_cons_self, hn, ?_⟩
        by_contra hge
        exact hgap n (by omega) hlt hnonwhite
    rw [hsize, hcovers]

variable (code maxBytesPerChunk) in
/-- The tree is too deep, or its fragments are split. -/
def Splits (result : Except Stop (List Fragment)) (start stop : ℕ) (kept : Prop) : Prop :=
  result = .error .tooDeep ∨
    ∃ fragments, result = .ok fragments ∧ Split code maxBytesPerChunk start stop kept fragments

theorem ok_bind {α β : Type} (a : α) (f : α → Except Stop β) : (Except.ok a >>= f) = f a := rfl

mutual

/-- **What splitting a node does.** -/
theorem splitNode_spec (depth : ℕ) : ∀ node : Node, node.Ordered → node.BetweenChars code →
    Splits code maxBytesPerChunk (splitNode code maxBytesPerChunk path depth node) node.startByte
      node.endByte (node.Kept code maxBytesPerChunk)
  | .mk startByte endByte startRow endRow children, hordered, hbetween => by
    unfold Node.Ordered at hordered
    unfold Node.BetweenChars at hbetween
    unfold splitNode
    split
    · exact .inl rfl
    · have hchildren := splitChildren_spec depth
        (fromNodeStart (.mk startByte endByte startRow endRow []) path) endByte children
        (isText_nil hbetween.1) hordered.2 hbetween.2.2
      obtain hdeep | ⟨fragments, hfragments, hsplit⟩ := hchildren
      · exact .inl hdeep
      · refine .inr ⟨fragments, hfragments, hsplit.congr ?_⟩
        unfold Node.Kept
        exact and_iff_right (by simp [fromNodeStart])

/-- What splitting the children from some place on does. -/
theorem splitChildren_spec (depth : ℕ) (current : Fragment) (stop : ℕ) : ∀ children : List Node,
    IsText code current.startByteIndex current.endByteIndex current.content →
    OrderedAll current.endByteIndex stop children → BetweenCharsAll code children →
    Splits code maxBytesPerChunk
      (splitChildren code maxBytesPerChunk path depth current children) current.startByteIndex stop
      (current.endByteIndex - current.startByteIndex ≤ maxBytesPerChunk ∧
        KeptAll code maxBytesPerChunk current.startByteIndex current.endByteIndex stop children)
  | [], htext, hordered, _ => by
    unfold OrderedAll at hordered
    unfold splitChildren KeptAll
    exact .inr ⟨_, rfl, split_single htext hordered⟩
  | child :: children, htext, hordered, hbetween => by
    unfold OrderedAll at hordered
    unfold BetweenCharsAll at hbetween
    obtain ⟨hgap, hchild, hchildren⟩ := hordered
    have hchildLe := hchild.le
    have htextLe := htext.le
    have hclosed : Split code maxBytesPerChunk current.startByteIndex child.startByte _ [current] :=
      split_single htext hgap
    have hsize : current.size = current.endByteIndex - current.startByteIndex := htext.byteLen_eq
    unfold splitChildren KeptAll
    dsimp only
    rw [hsize]
    split
    · -- the child is split in turn
      have hinner := splitNode_spec (depth + 1) child hchild hbetween.1
      have hrest := splitChildren_spec depth (fromNodeEnd child path) stop children
        (isText_nil hbetween.1.stop) hchildren hbetween.2
      obtain hdeep | ⟨inner, hinner, hinnerSplit⟩ := hinner
      · rw [hdeep]
        exact .inl rfl
      obtain hdeep | ⟨rest, hrest, hrestSplit⟩ := hrest
      · rw [hinner, hdeep]
        exact .inl rfl
      rw [hinner, hrest]
      refine .inr ⟨_, rfl, ((hclosed.append (hinnerSplit.append hrestSplit hchildLe hchildren.le)
        (htextLe.trans hgap) (hchildLe.trans hchildren.le)).congr ?_)⟩
      simp only [fromNodeEnd, Nat.sub_self, Nat.zero_le, true_and]
      tauto
    · rename_i hfits
      split
      · -- a new fragment begins with the child
        obtain ⟨content, hcontent⟩ := exists_isText hbetween.1.start hbetween.1.stop hchildLe
        have hrest := splitChildren_spec depth
          ⟨content, child.startRow, child.endRow, child.startByte, child.endByte, path⟩ stop children
          hcontent hchildren hbetween.2
        have happend : (fromNodeStart child path).append code (fromNodeEnd child path) =
            some ⟨content, child.startRow, child.endRow, child.startByte, child.endByte, path⟩ := by
          rw [Fragment.append, show slice code (fromNodeStart child path).startByteIndex
            (fromNodeEnd child path).endByteIndex = some content from slice_eq_some_iff.2 hcontent]
          rfl
        rw [happend]
        obtain hdeep | ⟨rest, hrest, hrestSplit⟩ := hrest
        · exact .inl (by rw [orPanic, ok_bind, hdeep]; rfl)
        refine .inr ⟨_, by rw [orPanic, ok_bind, hrest]; rfl, ((hclosed.append hrestSplit
          (htextLe.trans hgap) (hchildLe.trans hchildren.le)).congr ?_)⟩
        dsimp only
        have hchildFits : child.endByte - child.startByte ≤ maxBytesPerChunk := by omega
        tauto
      · -- the child is gathered
        obtain ⟨content, hcontent⟩ := exists_isText htext.start_boundary hbetween.1.stop
          (htextLe.trans (hgap.trans hchildLe))
        have hrest := splitChildren_spec depth
          { current with endLine := child.endRow, endByteIndex := child.endByte, content := content }
          stop children hcontent hchildren hbetween.2
        rw [slice_eq_some_iff.2 hcontent]
        obtain hdeep | ⟨rest, hrest, hrestSplit⟩ := hrest
        · exact .inl (by rw [orPanic, ok_bind, hdeep])
        refine .inr ⟨_, by rw [orPanic, ok_bind, hrest], hrestSplit.congr ?_⟩
        dsimp only
        have hcurrent : child.endByte - current.startByteIndex ≤ maxBytesPerChunk →
            current.endByteIndex - current.startByteIndex ≤ maxBytesPerChunk := by omega
        tauto

end

variable (code maxBytesPerChunk) in
/-- Chunking along a tree loses white space only, and makes no fragment too long. -/
def Node.Keeps (root : Node) : Prop :=
  White code 0 root.startByte ∧ root.Kept code maxBytesPerChunk ∧
    White code root.endByte (byteLen code)

theorem split_nil (start stop : ℕ) : Split code maxBytesPerChunk start stop (White code start stop) [] where
  within := within_nil
  law_iff := by
    constructor
    · rintro ⟨-, hcovers⟩ n hle hlt hn
      obtain ⟨f, hf, -⟩ := hcovers n hle hlt hn
      exact absurd hf List.not_mem_nil
    · intro hwhite
      exact ⟨fun f hf => absurd hf List.not_mem_nil,
        fun n hle hlt hn => absurd hn (hwhite n hle hlt)⟩

/-- **The split fragments keep the law exactly on the trees that are kept.** -/
theorem splitNode_law_iff {root : Node} (hordered : root.Ordered) (hbetween : root.BetweenChars code)
    {fragments : List Fragment}
    (h : splitNode code maxBytesPerChunk path 0 root = .ok fragments) :
    Law code maxBytesPerChunk fragments ↔ root.Keeps code maxBytesPerChunk := by
  obtain hdeep | ⟨fragments', hfragments, hsplit⟩ :=
    @splitNode_spec code maxBytesPerChunk path 0 root hordered hbetween
  · rw [h] at hdeep
    cases hdeep
  · rw [h] at hfragments
    cases hfragments
    have hstop := le_byteLen hbetween.stop
    have hall := ((split_nil 0 root.startByte).append (hsplit.append
      (split_nil root.endByte (byteLen code)) hordered.le hstop) (Nat.zero_le _)
        (hordered.le.trans hstop))
    rw [List.nil_append, List.append_nil] at hall
    rw [Node.Keeps, ← hall.law_iff]
    exact ⟨fun hlaw => ⟨hlaw.bounded, hlaw.covers⟩, fun hlaw => ⟨hall.within, hlaw.1, hlaw.2⟩⟩

/-- **Chunking a kept tree keeps the law**, unless the tree is too deep. -/
theorem chunkCode_law {root : Node} (hordered : root.Ordered) (hbetween : root.BetweenChars code)
    (hkeeps : root.Keeps code maxBytesPerChunk) :
    chunkCode code maxBytesPerChunk path root = .error .tooDeep ∨
      ∃ fragments, chunkCode code maxBytesPerChunk path root = .ok fragments ∧
        Law code maxBytesPerChunk fragments := by
  obtain hdeep | ⟨nodes, hnodes, -⟩ :=
    @splitNode_spec code maxBytesPerChunk path 0 root hordered hbetween
  · exact .inl (by rw [chunkCode, hdeep]; rfl)
  · obtain ⟨fragments, hfragments, hlaw⟩ :=
      ((splitNode_law_iff hordered hbetween hnodes).2 hkeeps).coalesce
    exact .inr ⟨fragments, by rw [chunkCode, hnodes, ok_bind, hfragments]; rfl, hlaw⟩

end Clinch.Chunker.Semantic
