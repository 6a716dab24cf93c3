import Clinch.Content.Text

/-!
# Slices of a content tree

`BufferCursor` of `crates/editor/src/content/cursor.rs`: a cursor of the content tree with an offset
in characters, which can be inside of a text fragment. A slice up to an offset splits the fragment
that the offset is inside of, and stands before or behind the markers at the offset.

* `BufferCursor`, `sliceInside`, `sliceToOffsetBeforeMarkers`, `sliceToOffsetAfterMarkers`, `suffix`;
* `cutAt`: how many pieces a slice takes;
* `Stands`, **`Stands.sliceTo`**, `Stands.suffix`: a slice takes them, and leaves the others.
-/

set_option autoImplicit false

namespace Clinch.Content

open SumTree

/-- On which side of the markers at its offset a slice ends. -/
inductive Markers
  | before
  | after
deriving DecidableEq

/-- The bias of the cursor's slice. -/
def Markers.bias : Markers → SeekBias
  | .before => .left
  | .after => .right

structure BufferCursor (M U : Type) where
  cursor : Cursor (BufferText M) BufferSummary ℕ U
  offset : ℕ

variable {M U : Type} [Dimension U BufferSummary]

/-- `Cursor::end_seek_position`. -/
def endSeekPosition (cursor : Cursor (BufferText M) BufferSummary ℕ U) : Result ℕ := do
  match ← cursor.itemSummary with
  | some itemSummary => return Dimension.addSummary cursor.seekDimension itemSummary
  | none => return cursor.seekDimension

/-- `if !new_fragment.is_empty() { new_content.append_str(&new_fragment); }`. -/
def appendFragment (newContent : SumTree (BufferText M) BufferSummary) (newFragment : List Char) :
    Result (SumTree (BufferText M) BufferSummary) :=
  if newFragment = [] then .ok newContent else appendStr newContent newFragment

/-- The first characters of the fragment at the cursor, up to the end of a slice. -/
def appendCut (newContent : SumTree (BufferText M) BufferSummary)
    (cursor : Cursor (BufferText M) BufferSummary ℕ U) (endOffset : ℕ) :
    Result (SumTree (BufferText M) BufferSummary) := do
  match ← cursor.item with
  | some (.text fragment _) =>
    let ix ← checkedSub endOffset cursor.seekDimension
    appendFragment newContent (fragment.take ix)
  | _ => return newContent

namespace BufferCursor

/-- `BufferCursor::new`. -/
def new (cursor : Cursor (BufferText M) BufferSummary ℕ U) : BufferCursor M U := ⟨cursor, 0⟩

/-- The fragment that the offset is inside of. -/
def insideFragment (self : BufferCursor M U) : Result (Option (List Char)) :=
  if self.offset > self.cursor.seekDimension then do
    match ← self.cursor.item with
    | some (.text fragment _) => return some fragment
    | _ => return none
  else return none

/-- How both slices begin: the rest of the fragment that the offset is inside of, and whether the
slice ends in it. -/
def sliceInside (self : BufferCursor M U) (endOffset : ℕ) :
    Result (BufferCursor M U × SumTree (BufferText M) BufferSummary × Bool) := do
  match ← self.insideFragment with
  | none => return (self, .new, false)
  | some fragment =>
    let startIx ← checkedSub self.offset self.cursor.seekDimension
    let charToTake ← checkedSub endOffset self.offset
    let newContent ← appendFragment .new ((fragment.drop startIx).take charToTake)
    if endOffset < (← endSeekPosition self.cursor) then
      return ({ self with offset := endOffset }, newContent, true)
    else return ({ self with cursor := ← self.cursor.next }, newContent, false)

/-- The slice before the markers from an item on. -/
def sliceBefore (cursor : Cursor (BufferText M) BufferSummary ℕ U)
    (newContent : SumTree (BufferText M) BufferSummary) (endOffset : ℕ) :
    Result (BufferCursor M U × SumTree (BufferText M) BufferSummary) := do
  let (cursor, sliced) ← cursor.slice endOffset .left
  let newContent ← newContent.pushTree sliced
  if (← endSeekPosition cursor) > endOffset then
    return (⟨cursor, endOffset⟩, ← appendCut newContent cursor endOffset)
  else if endOffset > cursor.seekDimension ∧ endOffset > 0 then
    let newContent ← (match ← cursor.item with
      | some item => newContent.push item
      | none => .ok newContent : Result _)
    return (⟨← cursor.next, endOffset⟩, newContent)
  else return (⟨cursor, endOffset⟩, newContent)

/-- `slice_to_offset_before_markers`. -/
def sliceToOffsetBeforeMarkers (self : BufferCursor M U) (endOffset : ℕ) :
    Result (BufferCursor M U × SumTree (BufferText M) BufferSummary) := do
  debugAssert (self.offset ≤ endOffset)
  let (self, newContent, done) ← self.sliceInside endOffset
  if done then return (self, newContent) else sliceBefore self.cursor newContent endOffset

/-- The slice behind the markers from an item on. -/
def sliceAfter (cursor : Cursor (BufferText M) BufferSummary ℕ U)
    (newContent : SumTree (BufferText M) BufferSummary) (endOffset : ℕ) :
    Result (BufferCursor M U × SumTree (BufferText M) BufferSummary) := do
  let (cursor, sliced) ← cursor.slice endOffset .right
  let newContent ← newContent.pushTree sliced
  if cursor.seekDimension < endOffset then
    return (⟨cursor, endOffset⟩, ← appendCut newContent cursor endOffset)
  else return (⟨cursor, endOffset⟩, newContent)

/-- `slice_to_offset_after_markers`. -/
def sliceToOffsetAfterMarkers (self : BufferCursor M U) (endOffset : ℕ) :
    Result (BufferCursor M U × SumTree (BufferText M) BufferSummary) := do
  debugAssert (self.offset ≤ endOffset)
  let (self, newContent, done) ← self.sliceInside endOffset
  if done then return (self, newContent) else sliceAfter self.cursor newContent endOffset

/-- `suffix`. -/
def suffix (self : BufferCursor M U) :
    Result (BufferCursor M U × SumTree (BufferText M) BufferSummary) := do
  let (self, newContent) ← (match ← self.insideFragment with
    | none => .ok (self, .new)
    | some fragment => do
      let startIx ← checkedSub self.offset self.cursor.seekDimension
      let newContent ← appendFragment .new (fragment.drop startIx)
      return ({ self with cursor := ← self.cursor.next }, newContent) : Result _)
  let (cursor, rest) ← self.cursor.suffix
  return ({ self with cursor := cursor }, ← newContent.pushTree rest)

/-- The slice up to an offset, on one side of the markers there. -/
def sliceTo (self : BufferCursor M U) : Markers → ℕ →
    Result (BufferCursor M U × SumTree (BufferText M) BufferSummary)
  | .before, endOffset => self.sliceToOffsetBeforeMarkers endOffset
  | .after, endOffset => self.sliceToOffsetAfterMarkers endOffset

end BufferCursor

/-! ## Where a slice ends -/

/-- How many of the pieces are before an offset, on one side of the markers there. -/
def cutAt : Markers → ℕ → List (Piece M) → ℕ
  | _, _, [] => 0
  | .before, n, p :: ps => if n = 0 then 0 else cutAt .before (n - p.width) ps + 1
  | .after, n, p :: ps => if p.width ≤ n then cutAt .after (n - p.width) ps + 1 else 0

/-- The width of some pieces. -/
def widthOf (ps : List (Piece M)) : ℕ := (ps.map Piece.width).sum

@[simp] theorem widthOf_nil : widthOf ([] : List (Piece M)) = 0 := rfl

@[simp] theorem widthOf_cons (p : Piece M) (ps : List (Piece M)) :
    widthOf (p :: ps) = p.width + widthOf ps := List.sum_cons

@[simp] theorem widthOf_append (ps qs : List (Piece M)) :
    widthOf (ps ++ qs) = widthOf ps + widthOf qs := by
  rw [widthOf, List.map_append, List.sum_append]
  rfl

@[simp] theorem widthOf_chars (text : List Char) :
    widthOf (text.map (Piece.char (M := M))) = text.length := by
  rw [widthOf, List.map_map, show Piece.width (M := M) ∘ Piece.char = fun _ => 1 from rfl]
  simp

theorem cutAt_before_zero (ps : List (Piece M)) : cutAt .before 0 ps = 0 := by
  cases ps with
  | nil => rfl
  | cons p ps => exact if_pos rfl

theorem cutAt_before_append {ps : List (Piece M)} {n : ℕ} (h : widthOf ps < n) (qs : List (Piece M)) :
    cutAt .before n (ps ++ qs) = ps.length + cutAt .before (n - widthOf ps) qs := by
  induction ps generalizing n with
  | nil => simp
  | cons p ps ih =>
    rw [widthOf_cons] at h
    rw [List.cons_append, cutAt, if_neg (by omega), ih (by omega), widthOf_cons, List.length_cons,
      Nat.sub_sub]
    omega

theorem cutAt_after_append {ps : List (Piece M)} {n : ℕ} (h : widthOf ps ≤ n) (qs : List (Piece M)) :
    cutAt .after n (ps ++ qs) = ps.length + cutAt .after (n - widthOf ps) qs := by
  induction ps generalizing n with
  | nil => simp
  | cons p ps ih =>
    rw [widthOf_cons] at h
    rw [List.cons_append, cutAt, if_pos (by omega), ih (by omega), widthOf_cons, List.length_cons,
      Nat.sub_sub]
    omega

/-- A slice takes all the characters before its offset. -/
theorem cutAt_chars (side : Markers) {text : List Char} {n : ℕ} (h : text.length ≤ n)
    (qs : List (Piece M)) :
    cutAt side n (text.map .char ++ qs) = text.length + cutAt side (n - text.length) qs := by
  cases side with
  | before =>
    induction text generalizing n with
    | nil => simp
    | cons c text ih =>
      rw [List.length_cons] at h
      rw [List.map_cons, List.cons_append, cutAt, if_neg (by omega), Piece.width, ih (by omega),
        List.length_cons, Nat.sub_sub, Nat.add_comm 1]
      omega
  | after =>
    have h' : widthOf (text.map (Piece.char (M := M))) ≤ n := by rwa [widthOf_chars]
    rw [cutAt_after_append h', widthOf_chars, List.length_map]

/-- A slice that ends among some characters. -/
theorem cutAt_chars_lt (side : Markers) {text : List Char} {n : ℕ} (h : n < text.length)
    (qs : List (Piece M)) : cutAt side n (text.map .char ++ qs) = n := by
  obtain ⟨front, c, behind, rfl, rfl⟩ : ∃ front c behind, text = front ++ c :: behind ∧
      front.length = n :=
    ⟨text.take n, text[n], text.drop (n + 1), by simp, by simp; omega⟩
  rw [List.map_append, List.append_assoc, cutAt_chars side le_rfl, Nat.sub_self]
  cases side with
  | before => rw [cutAt_before_zero]; rfl
  | after => rfl

/-! ## The dimension of characters -/

theorem exact_chars : ExactDimension (BufferText M) ℕ :=
  .of_add (fun d a b => Nat.add_assoc d a.chars b.chars) rfl

/-- The offset behind some items is the width of their pieces. -/
theorem measure_eq_widthOf {items : List (BufferText M)} (h : ∀ item ∈ items, item.Valid) :
    measure ℕ items = widthOf (pieces items) := by
  have key : ∀ d : ℕ, measureFrom d items = d + widthOf (pieces items) := by
    induction items with
    | nil => exact fun _ => rfl
    | cons item items ih =>
      intro d
      have hitem := (h item List.mem_cons_self).sum_width
      rw [pieces_cons, widthOf_append, show widthOf item.pieces = item.charLen from hitem,
        ← Nat.add_assoc]
      exact ih (fun x hx => h x (List.mem_cons_of_mem _ hx)) (d + item.charLen)
  exact (key 0).trans (Nat.zero_add _)

theorem monotone_chars {items : List (BufferText M)} (h : ∀ item ∈ items, item.Valid) :
    MonotoneDimension ℕ items := by
  rintro xs ys zs rfl
  have hxs : ∀ item ∈ xs, item.Valid := fun x hx => h x (by simp [hx])
  have hys : ∀ item ∈ xs ++ ys, item.Valid := fun x hx => h x (List.mem_append_left _ hx)
  rw [measure_eq_widthOf hxs, measure_eq_widthOf hys, pieces_append, widthOf_append]
  exact Nat.le_add_right _ _

theorem measure_concat (xs : List (BufferText M)) (item : BufferText M) :
    measure ℕ (xs ++ [item]) = measure ℕ xs + item.charLen := measure_append xs [item]

/-- Only a fragment is wider than one character. -/
theorem BufferText.charLen_le_one {item : BufferText M}
    (h : ∀ fragment charCount, item ≠ .text fragment charCount) : item.charLen ≤ 1 := by
  cases item with
  | text fragment charCount => exact absurd rfl (h fragment charCount)
  | _ => simp [BufferText.charLen]

/-- An item that is wider than its offset is not behind a slice that ends there. -/
theorem cutAt_after_zero {item : BufferText M} (h : item.Valid) (hpos : 0 < item.charLen)
    (qs : List (Piece M)) : cutAt .after 0 (item.pieces ++ qs) = 0 := by
  cases item with
  | text fragment charCount =>
    obtain ⟨c, fragment, rfl⟩ := List.exists_cons_of_ne_nil h.1
    rfl
  | _ => exact if_neg (Nat.not_le.2 hpos)

/-- A slice that ends behind an item takes it. -/
theorem cutAt_before_item {item : BufferText M} (h : item.Valid) (hpos : 0 < item.charLen)
    (qs : List (Piece M)) :
    cutAt .before item.charLen (item.pieces ++ qs) = item.pieces.length := by
  cases item with
  | text fragment charCount =>
    obtain ⟨-, -, -, rfl⟩ := h
    rw [BufferText.pieces, BufferText.charLen, cutAt_chars .before le_rfl, Nat.sub_self,
      cutAt_before_zero, List.length_map, Nat.add_zero]
  | _ =>
    change cutAt .before _ (_ :: qs) = 1
    rw [cutAt, if_neg hpos.ne', Piece.width, Nat.sub_self, cutAt_before_zero]

/-! ## Calls that grow a content -/

theorem Grows.returns {ps : List (Piece M)} {r : Result (SumTree (BufferText M) BufferSummary)}
    (h : Grows ps r) (hlen : ps.length < treeBase ^ 254) :
    Returns (fun t => IsContent t ∧ pieces t.toList = ps) r := by
  rcases h with ⟨t, e, ht, hps⟩ | ⟨-, hle⟩
  · exact ⟨t, e, ht, hps⟩
  · exact absurd hle (Nat.not_le.2 hlen)

theorem isContent_new : IsContent (SumTree.new : SumTree (BufferText M) BufferSummary) :=
  ⟨⟨0, wf_new⟩, List.forall_mem_nil _⟩

theorem pushTree_grows {s t : SumTree (BufferText M) BufferSummary} (hs : IsContent s)
    (ht : IsContent t) : Grows (pieces s.toList ++ pieces t.toList) (s.pushTree t) := by
  obtain ⟨h, w⟩ := hs.wf
  obtain ⟨k, w'⟩ := ht.wf
  rw [← pieces_append]
  refine Grows.of_yields (pushTree_spec w w') fun item hitem => ?_
  exact (List.mem_append.1 hitem).elim (hs.valid item) (ht.valid item)

theorem push_grows {t : SumTree (BufferText M) BufferSummary} (ht : IsContent t)
    {item : BufferText M} (hitem : item.Valid) :
    Grows (pieces t.toList ++ item.pieces) (t.push item) := by
  obtain ⟨h, w⟩ := ht.wf
  have happ : pieces t.toList ++ item.pieces = pieces (t.toList ++ [item]) := by
    rw [pieces_append, pieces_cons, pieces_nil, List.append_nil]
  rw [happ]
  refine Grows.of_yields (push_spec w item) fun x hx => ?_
  rcases List.mem_append.1 hx with hx | hx
  · exact ht.valid x hx
  · exact List.mem_singleton.1 hx ▸ hitem

theorem appendFragment_grows {t : SumTree (BufferText M) BufferSummary} (ht : IsContent t)
    {text : List Char} (hline : '\n' ∉ text) :
    Grows (pieces t.toList ++ text.map .char) (appendFragment t text) := by
  rw [appendFragment]
  split
  · rename_i hnil
    rw [hnil]
    exact Or.inl ⟨t, rfl, ht, (List.append_nil _).symm⟩
  · rw [← breakPieces_line hline]
    exact appendStr_spec ht text

/-! ## Where the cursor stands -/

namespace BufferCursor

/-- The cursor stands before the pieces. -/
inductive Stands (root : SumTree (BufferText M) BufferSummary) (H : ℕ) (self : BufferCursor M U) :
    List (Piece M) → Prop
  | between {xs ys : List (BufferText M)} : self.cursor.Ready root H xs ys →
    self.offset = measure ℕ xs → Stands root H self (pieces ys)
  | inside {xs ys : List (BufferText M)} {fragment : List Char} {charCount : ℕ} :
    self.cursor.At root H xs (.text fragment charCount :: ys) → measure ℕ xs < self.offset →
    self.offset < measure ℕ xs + fragment.length →
    Stands root H self ((fragment.drop (self.offset - measure ℕ xs)).map .char ++ pieces ys)
  | beyond {xs : List (BufferText M)} : self.cursor.At root H xs [] →
    measure ℕ xs < self.offset → Stands root H self []

variable {root : SumTree (BufferText M) BufferSummary} {H : ℕ} {self : BufferCursor M U}
  {rest : List (Piece M)} {xs ys : List (BufferText M)}

theorem stands_new : (new (.new root) : BufferCursor M U).Stands root H (pieces root.toList) :=
  .between Cursor.ready_new rfl

theorem endSeekPosition_cons {c : Cursor (BufferText M) BufferSummary ℕ U} {y : BufferText M}
    (w : Wf H root) (hc : c.At root H xs (y :: ys)) :
    endSeekPosition c = .ok (measure ℕ xs + y.charLen) := by
  rw [endSeekPosition, Cursor.Stands.itemSummary w hc, ok_bind, hc.sums.1]
  rfl

theorem endSeekPosition_nil {c : Cursor (BufferText M) BufferSummary ℕ U} (w : Wf H root)
    (hc : c.At root H xs []) : endSeekPosition c = .ok (measure ℕ xs) := by
  rw [endSeekPosition, Cursor.Stands.itemSummary w hc, ok_bind, hc.sums.1]
  rfl

/-- There are fewer pieces than would overflow the height of a tree. -/
theorem length_pieces_lt (w : Wf H root) (hH : H < stackCapacity)
    (hvalid : ∀ item ∈ root.toList, item.Valid) : (pieces root.toList).length < treeBase ^ 254 := by
  have hitem : ∀ item : BufferText M, item.Valid → item.pieces.length ≤ textFragmentSize := by
    intro item h
    cases item with
    | text fragment charCount =>
      rw [BufferText.pieces, List.length_map]
      exact (length_le_byteLenOf fragment).trans h.2.2.1
    | _ => simp [BufferText.pieces, textFragmentSize]
  have key : ∀ items : List (BufferText M), (∀ item ∈ items, item.Valid) →
      (pieces items).length ≤ items.length * textFragmentSize := by
    intro items h
    induction items with
    | nil => exact Nat.zero_le _
    | cons item items ih =>
      have h₁ := hitem item (h item List.mem_cons_self)
      have h₂ := ih fun x hx => h x (List.mem_cons_of_mem _ hx)
      rw [pieces_cons, List.length_append, List.length_cons, Nat.succ_mul]
      omega
  calc (pieces root.toList).length ≤ root.toList.length * textFragmentSize := key _ hvalid
    _ ≤ nodeCapacity ^ (H + 1) * textFragmentSize := Nat.mul_le_mul_right _ w.length_le
    _ ≤ nodeCapacity ^ 16 * textFragmentSize :=
      Nat.mul_le_mul_right _ (Nat.pow_le_pow_right (by decide) hH)
    _ ≤ treeBase ^ 40 := by decide
    _ < treeBase ^ 254 := Nat.pow_lt_pow_right (by decide) (by decide)

/-- What is left is among the pieces of the tree. -/
theorem Stands.length_le (h : self.Stands root H rest) :
    rest.length ≤ (pieces root.toList).length := by
  cases h with
  | between hc _ =>
    rw [hc.append_eq, pieces_append, List.length_append]
    exact Nat.le_add_left _ _
  | inside hc _ _ =>
    rw [hc.place.append_eq, pieces_append, pieces_cons, BufferText.pieces]
    simp only [List.length_append, List.length_map, List.length_drop]
    omega
  | beyond _ _ => exact Nat.zero_le _

/-- A slice has taken the pieces before its end, behind what it had before. -/
structure Sliced (root : SumTree (BufferText M) BufferSummary) (H : ℕ) (side : Markers) (n : ℕ)
    (front rest : List (Piece M)) (endOffset : ℕ)
    (r : BufferCursor M U × SumTree (BufferText M) BufferSummary) : Prop where
  content : IsContent r.2
  offset : r.1.offset = endOffset
  taken : pieces r.2.toList = front ++ rest.take (cutAt side n rest)
  stands : r.1.Stands root H (rest.drop (cutAt side n rest))

/-- What is taken as a whole comes first. -/
theorem Sliced.of_append {side : Markers} {n n' endOffset : ℕ} {front ps qs : List (Piece M)}
    {r : BufferCursor M U × SumTree (BufferText M) BufferSummary}
    (h : Sliced root H side n' (front ++ ps) qs endOffset r)
    (hcut : cutAt side n (ps ++ qs) = ps.length + cutAt side n' qs) :
    Sliced root H side n front (ps ++ qs) endOffset r := by
  refine ⟨h.content, h.offset, ?_, ?_⟩
  · rw [h.taken, hcut, List.take_length_add_append, List.append_assoc]
  · rw [hcut, List.drop_length_add_append]
    exact h.stands

section Calls

variable (w : Wf H root) (hH : H < stackCapacity) (hvalid : ∀ item ∈ root.toList, item.Valid)

include w hH hvalid

omit w hH in
/-- What `insideFragment` finds. -/
theorem Stands.insideFragment (h : self.Stands root H rest) :
    (∃ xs ys, self.insideFragment = .ok none ∧ self.cursor.Ready root H xs ys ∧ rest = pieces ys ∧
      measure ℕ xs ≤ self.offset ∧ (measure ℕ xs < self.offset → ys = [])) ∨
    ∃ xs fragment charCount ys, self.insideFragment = .ok (some fragment) ∧
      self.cursor.At root H xs (.text fragment charCount :: ys) ∧ measure ℕ xs < self.offset ∧
      self.offset < measure ℕ xs + fragment.length ∧ charCount = fragment.length ∧
      '\n' ∉ fragment ∧
      rest = (fragment.drop (self.offset - measure ℕ xs)).map .char ++ pieces ys := by
  cases h with
  | @between xs ys hc hoff =>
    refine Or.inl ⟨xs, ys, ?_, hc, rfl, hoff.ge, fun hlt => absurd hoff hlt.ne'⟩
    rw [BufferCursor.insideFragment, if_neg]
    · rfl
    · rw [hc.sums.1, hoff]
      exact lt_irrefl _
  | @inside xs ys fragment charCount hc hlt hlt' =>
    have hitem := hvalid (.text fragment charCount) (by rw [hc.place.append_eq]; simp)
    refine Or.inr ⟨xs, fragment, charCount, ys, ?_, hc, hlt, hlt', hitem.2.2.2, hitem.2.1, rfl⟩
    rw [BufferCursor.insideFragment, if_pos (hc.sums.1 ▸ hlt), Cursor.Stands.item hc]
    rfl
  | @beyond xs hc hlt =>
    refine Or.inl ⟨xs, [], ?_, Or.inl hc, rfl, hlt.le, fun _ => rfl⟩
    rw [BufferCursor.insideFragment, if_pos (hc.sums.1 ▸ hlt), Cursor.Stands.item hc]
    rfl

/-- A text of the fragment at the cursor, as a slice of its own. -/
theorem appendFragment_new {fragment : List Char} {charCount : ℕ}
    (hroot : root.toList = xs ++ .text fragment charCount :: ys) {text : List Char}
    (htext : text.Sublist fragment) :
    Returns (fun t => IsContent t ∧ pieces t.toList = text.map (Piece.char (M := M)))
      (appendFragment .new text) := by
  have hitem := hvalid (.text fragment charCount) (by rw [hroot]; simp)
  have hline : '\n' ∉ text := fun hmem => hitem.2.1 (htext.subset hmem)
  refine (appendFragment_grows isContent_new hline).returns (lt_of_le_of_lt ?_
    (length_pieces_lt w hH hvalid))
  have hlen := htext.length_le
  rw [hroot, pieces_append, pieces_cons, show pieces (SumTree.new : SumTree (BufferText M) _).toList = []
    from rfl, List.nil_append, List.length_map, List.length_append, List.length_append,
    BufferText.pieces, List.length_map]
  omega

/-- **The beginning of a slice.** -/
theorem Stands.sliceInside (h : self.Stands root H rest) {endOffset : ℕ}
    (hle : self.offset ≤ endOffset) (side : Markers) :
    Returns (fun r => IsContent r.2.1 ∧
      (r.2.2 = true ∧ r.1.offset = endOffset ∧
        pieces r.2.1.toList = rest.take (cutAt side (endOffset - self.offset) rest) ∧
        r.1.Stands root H (rest.drop (cutAt side (endOffset - self.offset) rest)) ∨
      r.2.2 = false ∧ ∃ xs ys, r.1.cursor.Ready root H xs ys ∧ measure ℕ xs ≤ endOffset ∧
        rest = pieces r.2.1.toList ++ pieces ys ∧
        cutAt side (endOffset - self.offset) rest = (pieces r.2.1.toList).length +
          cutAt side (endOffset - measure ℕ xs) (pieces ys))) (self.sliceInside endOffset) := by
  rw [BufferCursor.sliceInside]
  rcases h.insideFragment hvalid with ⟨xs, ys, e, hc, rfl, hoff, hys⟩ |
    ⟨xs, fragment, charCount, ys, e, hc, hlt, hlt', rfl, hline, rfl⟩
  · rw [e, ok_bind]
    refine Returns.ok ⟨isContent_new, Or.inr ⟨rfl, xs, ys, hc, hoff.trans hle, rfl, ?_⟩⟩
    rcases hoff.lt_or_eq with hlt | heq
    · rw [hys hlt]
      cases side <;> rfl
    · rw [heq]
      exact (Nat.zero_add _).symm
  · have hlen : (fragment.drop (self.offset - measure ℕ xs)).length =
        fragment.length - (self.offset - measure ℕ xs) := List.length_drop
    simp only [e, ok_bind, hc.sums.1, checkedSub_ok hlt.le, checkedSub_ok hle]
    refine (appendFragment_new w hH hvalid hc.place.append_eq
      ((List.take_sublist _ _).trans (List.drop_sublist _ _))).bind fun newContent hnew => ?_
    rw [endSeekPosition_cons w hc, ok_bind, BufferText.charLen]
    by_cases hend : endOffset < measure ℕ xs + fragment.length
    · rw [if_pos hend]
      have hcut : cutAt side (endOffset - self.offset)
          ((fragment.drop (self.offset - measure ℕ xs)).map .char ++ pieces ys) =
          endOffset - self.offset := cutAt_chars_lt side (by omega) _
      refine Returns.ok ⟨hnew.1, Or.inl ⟨rfl, rfl, ?_, ?_⟩⟩
      · rw [hcut, hnew.2, List.take_append_of_le_length (by rw [List.length_map]; omega),
          List.map_take]
      · rw [hcut, List.drop_append_of_le_length (by rw [List.length_map]; omega), ← List.map_drop,
          List.drop_drop,
          show self.offset - measure ℕ xs + (endOffset - self.offset) = endOffset - measure ℕ xs by
            omega]
        exact Stands.inside hc (hlt.trans_le hle) hend
    · obtain ⟨c', hnext, hat⟩ := hc.next w hH
      rw [if_neg hend]
      simp only [hnext, ok_bind]
      have htake : (fragment.drop (self.offset - measure ℕ xs)).take (endOffset - self.offset) =
          fragment.drop (self.offset - measure ℕ xs) := List.take_of_length_le (by omega)
      rw [htake] at hnew
      refine Returns.ok ⟨hnew.1, Or.inr ⟨rfl, xs ++ [.text fragment fragment.length], ys, Or.inl hat, ?_,
        by rw [hnew.2], ?_⟩⟩
      · rw [measure_concat, BufferText.charLen]
        omega
      · rw [hnew.2, cutAt_chars side (by omega), List.length_map, measure_concat, BufferText.charLen,
          show endOffset - self.offset - (fragment.drop (self.offset - measure ℕ xs)).length =
            endOffset - (measure ℕ xs + fragment.length) by omega]

/-- **The items that a slice takes as a whole**, when it does not end inside of the next one. -/
theorem slice_items {cursor : Cursor (BufferText M) BufferSummary ℕ U}
    (hc : cursor.Ready root H xs ys) {endOffset : ℕ} (hle : measure ℕ xs ≤ endOffset)
    (side : Markers) : Returns (fun r => ∃ xs' ys', r.1.At root H xs' ys' ∧ IsContent r.2 ∧
      pieces ys = pieces r.2.toList ++ pieces ys' ∧ measure ℕ xs' ≤ endOffset ∧
      (∀ y ∈ ys'.head?, ¬ EndsBefore endOffset side.bias (measure ℕ xs' + y.charLen)) ∧
      cutAt side (endOffset - measure ℕ xs) (pieces ys) =
        (pieces r.2.toList).length + cutAt side (endOffset - measure ℕ xs') (pieces ys'))
      (cursor.slice endOffset side.bias) := by
  refine Returns.mono (hc.slice w hH exact_chars (hc.sums.1 ▸ hle) side.bias) ?_
  rintro ⟨c', sliced⟩ ⟨ms, ys', rfl, hat, rfl, hwf, hp, hstop⟩
  have hroot := hat.place.append_eq
  have hmem : ∀ item ∈ sliced.toList, item ∈ root.toList := fun item hitem => by
    rw [hroot]
    simp [hitem]
  have hms : ∀ item ∈ sliced.toList, item.Valid := fun item hitem => hvalid item (hmem item hitem)
  have hxs : ∀ item ∈ xs, item.Valid := fun item hitem => hvalid item (by rw [hroot]; simp [hitem])
  have hsum : measure ℕ (xs ++ sliced.toList) = measure ℕ xs + widthOf (pieces sliced.toList) := by
    rw [measure_eq_widthOf hxs, ← widthOf_append, ← pieces_append]
    refine measure_eq_widthOf fun item hitem => ?_
    exact (List.mem_append.1 hitem).elim (hxs item) (hms item)
  have hto : measure ℕ (xs ++ sliced.toList) ≤ endOffset := by
    refine hp.measure_le rfl ?_
    exact hle
  refine ⟨xs ++ sliced.toList, ys', hat, ⟨hwf, hms⟩, pieces_append _ _, hto, ?_, ?_⟩
  · intro y hy
    rw [← measure_concat, ← targetBeyond_iff, Bool.not_eq_true]
    exact hstop rfl y hy
  · dsimp only
    rw [pieces_append, hsum, ← Nat.sub_sub]
    cases side with
    | after => exact cutAt_after_append (by omega) _
    | before =>
      rcases hp rfl with hnil | hbeyond
      · rw [List.append_right_eq_self.1 hnil]
        exact (Nat.zero_add _).symm
      · have hlt : measure ℕ (xs ++ sliced.toList) < endOffset := targetBeyond_iff.1 hbeyond
        exact cutAt_before_append (by omega) _

omit w hH in
/-- **The end of a slice** in or before the item at the cursor. -/
theorem appendCut_spec {cursor : Cursor (BufferText M) BufferSummary ℕ U} (hc : cursor.At root H xs ys)
    {newContent : SumTree (BufferText M) BufferSummary} (hnew : IsContent newContent)
    (hlen : (pieces newContent.toList ++ pieces ys).length < treeBase ^ 254) {endOffset : ℕ}
    (hle : measure ℕ xs ≤ endOffset) (hstop : ∀ y ∈ ys.head?, endOffset < measure ℕ xs + y.charLen)
    (side : Markers) : Returns (fun t => IsContent t ∧ pieces t.toList = pieces newContent.toList ++
        (pieces ys).take (cutAt side (endOffset - measure ℕ xs) (pieces ys)) ∧
      (⟨cursor, endOffset⟩ : BufferCursor M U).Stands root H
        ((pieces ys).drop (cutAt side (endOffset - measure ℕ xs) (pieces ys))))
      (appendCut newContent cursor endOffset) := by
  rw [appendCut, Cursor.Stands.item hc, ok_bind]
  cases ys with
  | nil =>
    refine Returns.ok ⟨hnew, by simp, ?_⟩
    rw [pieces_nil, List.drop_nil]
    rcases hle.lt_or_eq with hlt | heq
    · exact .beyond hc hlt
    · exact @Stands.between M U _ root H ⟨cursor, endOffset⟩ xs [] (Or.inl hc) heq.symm
  | cons y ys =>
    have hy := hvalid y (by rw [hc.place.append_eq]; simp)
    have hend := hstop y rfl
    by_cases htext : ∃ fragment charCount, y = .text fragment charCount
    · obtain ⟨fragment, charCount, rfl⟩ := htext
      obtain ⟨-, hline, -, rfl⟩ := hy
      rw [BufferText.charLen] at hend
      have hcut : cutAt side (endOffset - measure ℕ xs)
          (pieces (.text fragment fragment.length :: ys)) = endOffset - measure ℕ xs :=
        cutAt_chars_lt side (by omega) _
      have hline' : '\n' ∉ fragment.take (endOffset - measure ℕ xs) :=
        fun hmem => hline (List.mem_of_mem_take hmem)
      simp only [List.head?_cons, hc.sums.1, checkedSub_ok hle, ok_bind]
      rw [hcut, pieces_cons, BufferText.pieces,
        List.take_append_of_le_length (by rw [List.length_map]; omega),
        List.drop_append_of_le_length (by rw [List.length_map]; omega), ← List.map_take,
        ← List.map_drop]
      refine Returns.mono ((appendFragment_grows hnew hline').returns ?_) fun t ht => ⟨ht.1, ht.2, ?_⟩
      · rw [pieces_cons, BufferText.pieces] at hlen
        simp only [List.length_append, List.length_map, List.length_take] at hlen ⊢
        omega
      · rcases hle.lt_or_eq with hlt | heq
        · exact @Stands.inside M U _ root H ⟨cursor, endOffset⟩ xs ys _ _ hc hlt hend
        · rw [← heq, Nat.sub_self, List.drop_zero]
          exact @Stands.between M U _ root H ⟨cursor, _⟩ xs (.text fragment fragment.length :: ys)
            (Or.inl hc) rfl
    · -- the slice ends before an item that is no fragment
      have hone := BufferText.charLen_le_one fun fragment charCount heq =>
        htext ⟨fragment, charCount, heq⟩
      have heq : endOffset = measure ℕ xs := by omega
      have hcut : cutAt side (endOffset - measure ℕ xs) (pieces (y :: ys)) = 0 := by
        rw [heq, Nat.sub_self]
        cases side with
        | before => exact cutAt_before_zero _
        | after => exact cutAt_after_zero hy (by omega) _
      rw [hcut, List.take_zero, List.drop_zero, List.append_nil]
      have hstands : (⟨cursor, endOffset⟩ : BufferCursor M U).Stands root H (pieces (y :: ys)) :=
        .between (Or.inl hc) heq
      cases y with
      | text fragment charCount => exact absurd ⟨fragment, charCount, rfl⟩ htext
      | _ => exact Returns.ok ⟨hnew, rfl, hstands⟩

/-- The end of a slice before the markers, behind the items that it takes as a whole. -/
theorem sliceBefore_end {cursor : Cursor (BufferText M) BufferSummary ℕ U} (hc : cursor.At root H xs ys)
    {newContent : SumTree (BufferText M) BufferSummary} (hnew : IsContent newContent)
    (hlen : (pieces newContent.toList ++ pieces ys).length < treeBase ^ 254) {endOffset : ℕ}
    (hle : measure ℕ xs ≤ endOffset) (hstop : ∀ y ∈ ys.head?, endOffset ≤ measure ℕ xs + y.charLen) :
    Returns (Sliced root H .before (endOffset - measure ℕ xs) (pieces newContent.toList) (pieces ys)
      endOffset) (do
        if (← endSeekPosition cursor) > endOffset then
          return (⟨cursor, endOffset⟩, ← appendCut newContent cursor endOffset)
        else if endOffset > cursor.seekDimension ∧ endOffset > 0 then
          let newContent ← (match ← cursor.item with
            | some item => newContent.push item
            | none => .ok newContent : Result _)
          return (⟨← cursor.next, endOffset⟩, newContent)
        else return (⟨cursor, endOffset⟩, newContent)) := by
  -- the cursor is at the offset, before its markers
  have hat : endOffset = measure ℕ xs → Sliced root H .before (endOffset - measure ℕ xs)
      (pieces newContent.toList) (pieces ys) endOffset
      ((⟨cursor, endOffset⟩ : BufferCursor M U), newContent) := by
    intro heq
    have hcut : cutAt .before (endOffset - measure ℕ xs) (pieces ys) = 0 := by
      rw [heq, Nat.sub_self, cutAt_before_zero]
    refine ⟨hnew, rfl, ?_, ?_⟩
    · rw [hcut, List.take_zero, List.append_nil]
    · rw [hcut, List.drop_zero]
      exact .between (Or.inl hc) heq
  rw [hc.sums.1, Cursor.Stands.item hc]
  cases ys with
  | nil =>
    rw [endSeekPosition_nil w hc, ok_bind, if_neg (Nat.not_lt.2 hle)]
    by_cases hlt : endOffset > measure ℕ xs ∧ endOffset > 0
    · rw [if_pos hlt]
      simp only [List.head?_nil, ok_bind, hc.next_end]
      exact Returns.ok ⟨hnew, rfl, (List.append_nil _).symm, .beyond hc hlt.1⟩
    · rw [if_neg hlt]
      exact Returns.ok (hat (by omega))
  | cons y ys =>
    have hy := hvalid y (by rw [hc.place.append_eq]; simp)
    have hend := hstop y rfl
    rw [endSeekPosition_cons w hc, ok_bind]
    by_cases hinside : measure ℕ xs + y.charLen > endOffset
    · rw [if_pos hinside]
      obtain ⟨t, e, ht, hpieces, hstands⟩ := appendCut_spec hvalid hc hnew hlen hle
        (fun y' hy' => by obtain rfl := Option.some.inj hy'; exact hinside) .before
      rw [e, ok_bind]
      exact Returns.ok ⟨ht, rfl, hpieces, hstands⟩
    · rw [if_neg hinside]
      by_cases hlt : endOffset > measure ℕ xs ∧ endOffset > 0
      · -- the slice ends behind the item
        have hsub : endOffset - measure ℕ xs = y.charLen := by omega
        have hcut : cutAt .before (endOffset - measure ℕ xs) (pieces (y :: ys)) = y.pieces.length := by
          rw [hsub, pieces_cons]
          exact cutAt_before_item hy (by omega) _
        rw [pieces_cons, ← List.append_assoc] at hlen
        obtain ⟨t, e, ht, hpieces⟩ := (push_grows hnew hy).returns
          (by rw [List.length_append] at hlen; omega)
        obtain ⟨c', hnext, hat'⟩ := hc.next w hH
        rw [if_pos hlt]
        simp only [List.head?_cons, ok_bind, e, hnext]
        refine Returns.ok ⟨ht, rfl, ?_, ?_⟩
        · rw [hcut, pieces_cons, List.take_left, hpieces]
        · rw [hcut, pieces_cons, List.drop_left]
          refine .between (Or.inl hat') ?_
          rw [measure_concat]
          change endOffset = _
          omega
      · rw [if_neg hlt]
        exact Returns.ok (hat (by omega))

theorem sliceBefore_spec {cursor : Cursor (BufferText M) BufferSummary ℕ U}
    (hc : cursor.Ready root H xs ys) {newContent : SumTree (BufferText M) BufferSummary}
    (hnew : IsContent newContent) (hlen : (pieces newContent.toList ++ pieces ys).length < treeBase ^ 254)
    {endOffset : ℕ} (hle : measure ℕ xs ≤ endOffset) :
    Returns (Sliced root H .before (endOffset - measure ℕ xs) (pieces newContent.toList) (pieces ys)
      endOffset) (sliceBefore cursor newContent endOffset) := by
  obtain ⟨⟨c', sliced⟩, e, xs', ys', hat, hsliced, hys, hle', hstop, hcut⟩ :=
    slice_items w hH hvalid hc hle .before
  rw [hys] at hlen hcut ⊢
  rw [← List.append_assoc] at hlen
  obtain ⟨content, e', hcontent, hpieces⟩ := (pushTree_grows hnew hsliced).returns
    (by rw [List.length_append] at hlen; omega)
  rw [← hpieces] at hlen
  change cursor.slice endOffset .left = _ at e
  rw [sliceBefore, e, ok_bind]
  simp only [e', ok_bind]
  refine Returns.mono (sliceBefore_end w hH hvalid hat hcontent hlen hle'
    fun y hy => Nat.not_lt.1 (hstop y hy)) fun r hr => ?_
  rw [hpieces] at hr
  exact hr.of_append hcut

theorem sliceAfter_spec {cursor : Cursor (BufferText M) BufferSummary ℕ U}
    (hc : cursor.Ready root H xs ys) {newContent : SumTree (BufferText M) BufferSummary}
    (hnew : IsContent newContent) (hlen : (pieces newContent.toList ++ pieces ys).length < treeBase ^ 254)
    {endOffset : ℕ} (hle : measure ℕ xs ≤ endOffset) :
    Returns (Sliced root H .after (endOffset - measure ℕ xs) (pieces newContent.toList) (pieces ys)
      endOffset) (sliceAfter cursor newContent endOffset) := by
  obtain ⟨⟨c', sliced⟩, e, xs', ys', hat, hsliced, hys, hle', hstop, hcut⟩ :=
    slice_items w hH hvalid hc hle .after
  rw [hys] at hlen hcut ⊢
  rw [← List.append_assoc] at hlen
  obtain ⟨content, e', hcontent, hpieces⟩ := (pushTree_grows hnew hsliced).returns
    (by rw [List.length_append] at hlen; omega)
  rw [← hpieces] at hlen
  change cursor.slice endOffset .right = _ at e
  have hstop' : ∀ y ∈ ys'.head?, endOffset < measure ℕ xs' + y.charLen :=
    fun y hy => Nat.not_le.1 (hstop y hy)
  have hsum : c'.seekDimension = measure ℕ xs' := hat.sums.1
  rw [sliceAfter, e, ok_bind]
  simp only [e', ok_bind, hsum]
  obtain ⟨t, e'', ht, hpieces', hstands⟩ := appendCut_spec hvalid hat hcontent hlen hle' hstop' .after
  by_cases hlt : measure ℕ xs' < endOffset
  · rw [if_pos hlt, e'', ok_bind]
    rw [hpieces] at hpieces'
    exact Returns.ok (Sliced.of_append ⟨ht, rfl, hpieces', hstands⟩ hcut)
  · -- the cursor is at the offset, behind its markers
    have heq : endOffset = measure ℕ xs' := by omega
    have hzero : cutAt .after (endOffset - measure ℕ xs') (pieces ys') = 0 := by
      rw [heq, Nat.sub_self]
      cases ys' with
      | nil => rfl
      | cons y ys' =>
        have hpos := hstop' y rfl
        exact cutAt_after_zero (hvalid y (by rw [hat.place.append_eq]; simp)) (by omega) _
    rw [if_neg hlt]
    refine Returns.ok (Sliced.of_append ⟨hcontent, rfl, ?_, ?_⟩ hcut)
    · rw [hzero, List.take_zero, List.append_nil, hpieces]
    · rwa [hzero, List.drop_zero] at hstands ⊢

/-- **A slice takes the pieces before its offset**, on its side of the markers there. -/
theorem Stands.sliceTo (h : self.Stands root H rest) {endOffset : ℕ} (hle : self.offset ≤ endOffset)
    (side : Markers) : Returns (Sliced root H side (endOffset - self.offset) [] rest endOffset)
      (self.sliceTo side endOffset) := by
  obtain ⟨⟨self', newContent, done⟩, e, hnew, hslice⟩ := h.sliceInside w hH hvalid hle side
  have hassert : debugAssert (self.offset ≤ endOffset) = .ok () := debugAssert_ok (decide_eq_true hle)
  rcases hslice with ⟨rfl, hoff, hpieces, hstands⟩ | ⟨rfl, xs, ys, hc, hle', rfl, hcut⟩
  · have hdone : Sliced root H side (endOffset - self.offset) [] rest endOffset (self', newContent) :=
      ⟨hnew, hoff, hpieces, hstands⟩
    cases side with
    | before =>
      rw [BufferCursor.sliceTo, sliceToOffsetBeforeMarkers, hassert, ok_bind, e, ok_bind]
      exact Returns.ok hdone
    | after =>
      rw [BufferCursor.sliceTo, sliceToOffsetAfterMarkers, hassert, ok_bind, e, ok_bind]
      exact Returns.ok hdone
  · have hlen : (pieces newContent.toList ++ pieces ys).length < treeBase ^ 254 :=
      h.length_le.trans_lt (length_pieces_lt w hH hvalid)
    cases side with
    | before =>
      rw [BufferCursor.sliceTo, sliceToOffsetBeforeMarkers, hassert, ok_bind, e, ok_bind]
      exact Returns.mono (sliceBefore_spec w hH hvalid hc hnew hlen hle')
        fun r hr => Sliced.of_append hr hcut
    | after =>
      rw [BufferCursor.sliceTo, sliceToOffsetAfterMarkers, hassert, ok_bind, e, ok_bind]
      exact Returns.mono (sliceAfter_spec w hH hvalid hc hnew hlen hle')
        fun r hr => Sliced.of_append hr hcut

/-- **The suffix is all that is left.** -/
theorem Stands.suffix (h : self.Stands root H rest) :
    Returns (fun r => IsContent r.2 ∧ pieces r.2.toList = rest) self.suffix := by
  have hsuffix : ∀ {xs ys} {cursor : Cursor (BufferText M) BufferSummary ℕ U}
      {newContent : SumTree (BufferText M) BufferSummary}, cursor.Ready root H xs ys →
      IsContent newContent → (pieces newContent.toList ++ pieces ys).length < treeBase ^ 254 →
      Returns (fun r => IsContent r.2 ∧ pieces r.2.toList = pieces newContent.toList ++ pieces ys)
        (do
          let (cursor, rest) ← cursor.suffix
          return ((⟨cursor, self.offset⟩ : BufferCursor M U), ← newContent.pushTree rest)) := by
    intro xs ys cursor newContent hc hnew hlen
    refine (hc.suffix w hH exact_chars (monotone_chars hvalid)).bind ?_
    rintro ⟨c', tail⟩ ⟨rfl, hwf⟩
    have htail : IsContent tail := ⟨hwf, fun item hitem => hvalid item (by rw [hc.append_eq]; simp [hitem])⟩
    refine ((pushTree_grows hnew htail).returns hlen).bind fun t ht => Returns.ok ht
  have hlen : rest.length < treeBase ^ 254 := h.length_le.trans_lt (length_pieces_lt w hH hvalid)
  rw [BufferCursor.suffix]
  rcases h.insideFragment hvalid with ⟨xs, ys, e, hc, rfl, -, -⟩ |
    ⟨xs, fragment, charCount, ys, e, hc, hlt, -, rfl, -, rfl⟩
  · rw [e, ok_bind]
    exact hsuffix hc isContent_new hlen
  · simp only [e, ok_bind, hc.sums.1, checkedSub_ok hlt.le]
    obtain ⟨newContent, e', hnew, hpieces⟩ := appendFragment_new w hH hvalid hc.place.append_eq
      (List.drop_sublist (self.offset - measure ℕ xs) fragment)
    obtain ⟨c', hnext, hat⟩ := hc.next w hH
    simp only [e', ok_bind, hnext]
    rw [← hpieces] at hlen ⊢
    exact hsuffix (Or.inl hat) hnew hlen

end Calls

end BufferCursor

end Clinch.Content
