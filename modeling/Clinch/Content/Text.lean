import Clinch.BufferText.Queries
import Clinch.Lines

/-!
# The text of a content tree

`BufferText` of `crates/editor/src/content/text.rs` and `append_str` of `content/cursor.rs`: the
content of a rich-text buffer is a sum tree of text fragments, of items that are one character wide,
and of markers without a width. A string is the list of its characters.

* `BufferText`, `BufferText.charLen`: the items and how wide they are;
* `floorBoundary`, `fillLast`, `fragments`, `appendStr`;
* `Piece`, `pieces`, `breakPieces`: a content up to the splitting of its fragments;
* `Valid`, `IsContent`: fragments within their capacity, with their count of characters;
* **`appendStr_spec`**: what is appended are the characters, and a newline for each line break.
-/

set_option autoImplicit false

namespace Clinch.Content

open SumTree

/-- `TEXT_FRAGMENT_SIZE`, in bytes. -/
def textFragmentSize : ℕ := 128

/-- `BufferText`; what a marker or a block says (`M`) is carried along. -/
inductive BufferText (M : Type)
  | text (fragment : List Char) (charCount : ℕ)
  | marker (markerType : M)
  | link (marker : M)
  | color (marker : M)
  | newline
  | blockItem (itemType : M)
  | blockMarker (markerType : M)
  | placeholder (content : List Char)
deriving DecidableEq

variable {M : Type}

/-- `text.chars` of the summary. -/
def BufferText.charLen : BufferText M → ℕ
  | .text _ charCount => charCount
  | .marker _ => 0
  | .link _ => 0
  | .color _ => 0
  | .newline => 1
  | .blockItem _ => 1
  | .blockMarker _ => 1
  | .placeholder _ => 1

/-- `BufferSummary`, of which only `text.chars` is read here. -/
@[ext] structure BufferSummary where
  chars : ℕ
deriving DecidableEq

instance : Zero BufferSummary := ⟨⟨0⟩⟩

instance : Add BufferSummary := ⟨fun a b => ⟨a.chars + b.chars⟩⟩

instance : AddMonoid BufferSummary where
  add_assoc a b c := BufferSummary.ext (Nat.add_assoc a.chars b.chars c.chars)
  zero_add a := BufferSummary.ext (Nat.zero_add a.chars)
  add_zero a := BufferSummary.ext (Nat.add_zero a.chars)
  nsmul := nsmulRec

instance : Item (BufferText M) BufferSummary := ⟨fun item => ⟨item.charLen⟩⟩

/-- `CharOffset`, as a dimension. -/
instance : Dimension ℕ BufferSummary := ⟨0, fun offset summary => offset + summary.chars⟩

/-! ## `append_str` -/

/-- `while !text.is_char_boundary(split_ix) { split_ix -= 1; }`. -/
def floorBoundary (text : List Char) : ℕ → ℕ
  | 0 => 0
  | splitIx + 1 =>
    if (BufferText.charsAtByte text (splitIx + 1)).isSome then splitIx + 1
    else floorBoundary text splitIx

/-- `str::split_at`. -/
def splitAt (text : List Char) (splitIx : ℕ) : Result (List Char × List Char) :=
  match BufferText.charsAtByte text splitIx with
  | some i => .ok (text.take i, text.drop i)
  | none => .error .bounds

/-- `ArrayString::push_str`. -/
def pushStr (fragment text : List Char) : Result (List Char) :=
  if BufferText.byteLenOf fragment + BufferText.byteLenOf text ≤ textFragmentSize then
    .ok (fragment ++ text)
  else .error .capacity

/-- `ArrayString::from(text).unwrap()`. -/
def arrayString (text : List Char) : Result (List Char) :=
  if BufferText.byteLenOf text ≤ textFragmentSize then .ok text else .error .unwrap

/-- `s.chars().count() as u8`. -/
def charCountU8 (text : List Char) : ℕ := text.length % 256

/-- What the first line does to the last item of the tree, and what is left of the line. -/
def fillLast (last : BufferText M) (text : List Char) : Result (BufferText M × List Char) :=
  match last with
  | .text fragment _ => do
    let splitIx :=
      if BufferText.byteLenOf fragment + BufferText.byteLenOf text ≤ textFragmentSize then
        BufferText.byteLenOf text
      else floorBoundary text
        (min (textFragmentSize - BufferText.byteLenOf fragment) (BufferText.byteLenOf text))
    let (suffix, remainder) ← splitAt text splitIx
    let fragment ← pushStr fragment suffix
    return (.text fragment (charCountU8 fragment), remainder)
  | item => .ok (item, text)

/-- `while !text.is_empty() { .. }`: a turn takes at least one character. -/
def fragmentsN : ℕ → List Char → Result (List (BufferText M))
  | 0, _ => .ok []
  | n + 1, text =>
    if text = [] then .ok []
    else do
      let splitIx := floorBoundary text (min (BufferText.byteLenOf text) textFragmentSize)
      let (chunk, remainder) ← splitAt text splitIx
      let fragment ← arrayString chunk
      return .text fragment (charCountU8 chunk) :: (← fragmentsN n remainder)

def fragments (text : List Char) : Result (List (BufferText M)) := fragmentsN text.length text

/-- `new_fragments`, behind what was put into the last item. -/
def newFragments (trailingNewline : Bool) : List (List Char) → Result (List (BufferText M))
  | [] => .ok []
  | text :: lines => do
    let chunks ← fragments text
    let behind ← newFragments trailingNewline lines
    return chunks ++ (if lines ≠ [] ∨ trailingNewline then [.newline] else []) ++ behind

/-- `self.update_last(..)` for the first line. -/
def fillTree (self : SumTree (BufferText M) BufferSummary) :
    List (List Char) → Result (SumTree (BufferText M) BufferSummary × List (List Char))
  | [] => .ok (self, [])
  | line :: lines =>
    if self.isEmpty then .ok (self, line :: lines)
    else do
      let (last, text) ← fillLast (← unwrap (← self.last)) line
      return (← self.updateLast fun _ => last, text :: lines)

/-- `append_str`. -/
def appendStr (self : SumTree (BufferText M) BufferSummary) (s : List Char) :
    Result (SumTree (BufferText M) BufferSummary) := do
  let (self, lines) ← fillTree self (strLines s)
  self.extend (← newFragments (s.getLast? = some '\n') lines)

/-! ## Contents up to the splitting of fragments -/

/-- A character of a fragment, or any other item. -/
inductive Piece (M : Type)
  | char (c : Char)
  | whole (item : BufferText M)
deriving DecidableEq

def Piece.width : Piece M → ℕ
  | .char _ => 1
  | .whole item => item.charLen

def BufferText.pieces : BufferText M → List (Piece M)
  | .text fragment _ => fragment.map .char
  | item => [.whole item]

def pieces (items : List (BufferText M)) : List (Piece M) := items.flatMap BufferText.pieces

/-- The characters of a text, with a newline for each line feed, with or without a carriage return. -/
def breakPieces : List Char → List (Piece M)
  | [] => []
  | '\r' :: '\n' :: s => .whole .newline :: breakPieces s
  | '\n' :: s => .whole .newline :: breakPieces s
  | c :: s => .char c :: breakPieces s

/-- A fragment holds text of one line within its capacity, and counts its characters. -/
def BufferText.Valid : BufferText M → Prop
  | .text fragment charCount => fragment ≠ [] ∧ '\n' ∉ fragment ∧
    BufferText.byteLenOf fragment ≤ textFragmentSize ∧ charCount = fragment.length
  | _ => True

/-- **The tree of a content.** -/
structure IsContent (t : SumTree (BufferText M) BufferSummary) : Prop where
  wf : ∃ h, Wf h t
  valid : ∀ item ∈ t.toList, item.Valid

@[simp] theorem pieces_nil : pieces ([] : List (BufferText M)) = [] := rfl

@[simp] theorem pieces_cons (item : BufferText M) (items : List (BufferText M)) :
    pieces (item :: items) = item.pieces ++ pieces items := rfl

@[simp] theorem pieces_append (xs ys : List (BufferText M)) :
    pieces (xs ++ ys) = pieces xs ++ pieces ys := List.flatMap_append

theorem BufferText.Valid.pieces_ne_nil {item : BufferText M} (h : item.Valid) : item.pieces ≠ [] := by
  cases item with
  | text fragment charCount => exact fun hnil => h.1 (List.map_eq_nil_iff.1 hnil)
  | _ => exact List.cons_ne_nil _ _

/-- The width of an item is that of its pieces. -/
theorem BufferText.Valid.sum_width {item : BufferText M} (h : item.Valid) :
    (item.pieces.map Piece.width).sum = item.charLen := by
  cases item with
  | text fragment charCount =>
    rw [BufferText.pieces, List.map_map, BufferText.charLen, h.2.2.2,
      show Piece.width (M := M) ∘ Piece.char = fun _ => 1 from rfl]
    simp
  | _ => exact Nat.add_zero _

/-- There are no more items than pieces. -/
theorem length_le_pieces {items : List (BufferText M)} (h : ∀ item ∈ items, item.Valid) :
    items.length ≤ (pieces items).length := by
  induction items with
  | nil => exact le_rfl
  | cons item items ih =>
    have hpos := List.length_pos_iff.2 (h item List.mem_cons_self).pieces_ne_nil
    have hrest := ih fun item hitem => h item (List.mem_cons_of_mem _ hitem)
    rw [pieces_cons, List.length_append, List.length_cons]
    omega

/-! ## Splitting at a character boundary -/

theorem charsAtByte_zero (text : List Char) : BufferText.charsAtByte text 0 = some 0 := by
  unfold BufferText.charsAtByte
  rfl

theorem byteLenOf_cons (c : Char) (text : List Char) :
    BufferText.byteLenOf (c :: text) = c.utf8Size + BufferText.byteLenOf text := List.sum_cons

theorem length_le_byteLenOf (text : List Char) : text.length ≤ BufferText.byteLenOf text := by
  induction text with
  | nil => exact le_rfl
  | cons c text ih =>
    have hpos := c.utf8Size_pos
    rw [byteLenOf_cons, List.length_cons]
    omega

theorem charCountU8_eq {text : List Char} (h : BufferText.byteLenOf text ≤ textFragmentSize) :
    charCountU8 text = text.length := by
  have hlen := length_le_byteLenOf text
  have hsize : textFragmentSize < 256 := by decide
  exact Nat.mod_eq_of_lt (by omega)

/-- A character boundary is the end of some characters. -/
theorem take_of_charsAtByte {text : List Char} {byte i : ℕ}
    (h : BufferText.charsAtByte text byte = some i) :
    BufferText.byteLenOf (text.take i) = byte := by
  induction text generalizing byte i with
  | nil =>
    cases byte with
    | zero =>
      obtain rfl := Option.some.inj ((charsAtByte_zero []).symm.trans h)
      rfl
    | succ byte => cases h
  | cons c text ih =>
    cases byte with
    | zero =>
      obtain rfl := Option.some.inj ((charsAtByte_zero _).symm.trans h)
      rfl
    | succ byte =>
      rw [BufferText.charsAtByte] at h
      split at h
      · obtain ⟨j, hj, rfl⟩ := Option.map_eq_some_iff.1 h
        rw [List.take_succ_cons, byteLenOf_cons, ih hj]
        omega
      · cases h

theorem floorBoundary_spec (text : List Char) (splitIx : ℕ) :
    (BufferText.charsAtByte text (floorBoundary text splitIx)).isSome ∧
      floorBoundary text splitIx ≤ splitIx ∧
      ∀ byte ≤ splitIx, (BufferText.charsAtByte text byte).isSome → byte ≤ floorBoundary text splitIx := by
  induction splitIx with
  | zero =>
    refine ⟨?_, le_rfl, fun byte hbyte _ => hbyte⟩
    rw [floorBoundary, charsAtByte_zero]
    rfl
  | succ splitIx ih =>
    rw [floorBoundary]
    split
    · exact ⟨‹_›, le_rfl, fun byte hbyte _ => hbyte⟩
    · rename_i hnot
      refine ⟨ih.1, ih.2.1.trans (Nat.le_succ _), fun byte hbyte hsome => ih.2.2 byte ?_ hsome⟩
      exact Nat.lt_succ_iff.1 (lt_of_le_of_ne hbyte fun heq => hnot (by rwa [heq] at hsome))

/-- **A text is split at the last character boundary that is not behind the limit.** -/
theorem splitAt_floorBoundary (text : List Char) (limit : ℕ) : ∃ front behind,
    splitAt text (floorBoundary text limit) = .ok (front, behind) ∧ text = front ++ behind ∧
      BufferText.byteLenOf front ≤ limit ∧ (text ≠ [] → 4 ≤ limit → front ≠ []) := by
  obtain ⟨hsome, hle, hmax⟩ := floorBoundary_spec text limit
  obtain ⟨i, hi⟩ := Option.isSome_iff_exists.1 hsome
  have hbytes := take_of_charsAtByte hi
  refine ⟨text.take i, text.drop i, ?_, (List.take_append_drop i text).symm, hbytes.trans_le hle, ?_⟩
  · rw [splitAt, hi]
  · -- the first character has at most four bytes
    intro hne hlimit hnil
    obtain ⟨c, text, rfl⟩ := List.exists_cons_of_ne_nil hne
    rw [hnil] at hbytes
    have hfirst := BufferText.charsAtByte_append [c] text
    have hsize : BufferText.byteLenOf [c] = c.utf8Size := Nat.add_zero _
    have hfour : c.utf8Size ≤ 4 := c.utf8Size_le_four
    have hpos := c.utf8Size_pos
    have hle := hmax _ (hsize.trans_le (hfour.trans hlimit)) (Option.isSome_iff_exists.2 ⟨_, hfirst⟩)
    rw [hsize, ← hbytes] at hle
    exact absurd hle (Nat.not_le.2 hpos)

theorem splitAt_byteLenOf (text : List Char) :
    splitAt text (BufferText.byteLenOf text) = .ok (text, []) := by
  have hend := BufferText.charsAtByte_append text []
  rw [List.append_nil] at hend
  rw [splitAt, hend]
  simp

/-! ## What is appended -/

theorem arrayString_ok {text : List Char} (h : BufferText.byteLenOf text ≤ textFragmentSize) :
    arrayString text = .ok text := if_pos h

theorem byteLenOf_append (front behind : List Char) : BufferText.byteLenOf (front ++ behind) =
    BufferText.byteLenOf front + BufferText.byteLenOf behind := by
  rw [BufferText.byteLenOf, List.map_append, List.sum_append]
  rfl

/-- The last fragment takes what it has room for. -/
theorem fillLast_spec {last : BufferText M} (h : last.Valid) {text : List Char}
    (hline : '\n' ∉ text) : Returns (fun r => ∃ front, text = front ++ r.2 ∧ r.1.Valid ∧
      r.1.pieces = last.pieces ++ front.map .char) (fillLast last text) := by
  cases last with
  | text fragment charCount =>
    obtain ⟨hne, hfragment, hsize, -⟩ := h
    have hsplit : ∃ front behind, splitAt text
        (if BufferText.byteLenOf fragment + BufferText.byteLenOf text ≤ textFragmentSize then
          BufferText.byteLenOf text
        else floorBoundary text
          (min (textFragmentSize - BufferText.byteLenOf fragment) (BufferText.byteLenOf text))) =
          .ok (front, behind) ∧ text = front ++ behind ∧
        BufferText.byteLenOf fragment + BufferText.byteLenOf front ≤ textFragmentSize := by
      split
      · exact ⟨text, [], splitAt_byteLenOf text, (List.append_nil text).symm, ‹_›⟩
      · obtain ⟨front, behind, hsplit, htext, hle, -⟩ := splitAt_floorBoundary text
          (min (textFragmentSize - BufferText.byteLenOf fragment) (BufferText.byteLenOf text))
        have hroom := hle.trans (min_le_left _ _)
        exact ⟨front, behind, hsplit, htext, by omega⟩
    obtain ⟨front, behind, hsplit, rfl, hroom⟩ := hsplit
    rw [List.mem_append, not_or] at hline
    have hbytes : BufferText.byteLenOf (fragment ++ front) ≤ textFragmentSize := by
      rwa [byteLenOf_append]
    simp only [fillLast, hsplit, ok_bind]
    rw [pushStr, if_pos hroom, ok_bind]
    refine Returns.ok ⟨front, rfl, ⟨?_, ?_, hbytes, charCountU8_eq hbytes⟩, List.map_append⟩
    · exact List.append_ne_nil_of_left_ne_nil hne front
    · rw [List.mem_append, not_or]
      exact ⟨hfragment, hline.1⟩
  | _ => exact Returns.ok ⟨[], rfl, trivial, (List.append_nil _).symm⟩

/-- A line becomes fragments within their capacity. -/
theorem fragmentsN_spec (n : ℕ) {text : List Char} (hline : '\n' ∉ text) (hn : text.length ≤ n) :
    Returns (fun items => (∀ item ∈ items, item.Valid) ∧
      pieces items = text.map (Piece.char (M := M))) (fragmentsN n text) := by
  induction n generalizing text with
  | zero =>
    obtain rfl := List.eq_nil_of_length_eq_zero (Nat.le_zero.1 hn)
    exact Returns.ok ⟨List.forall_mem_nil _, rfl⟩
  | succ n ih =>
    rw [fragmentsN]
    split
    · rename_i hnil
      subst hnil
      exact Returns.ok ⟨List.forall_mem_nil _, rfl⟩
    · rename_i hne
      have hlen := List.length_pos_iff.2 hne
      -- without a limit below the size of the text there is nothing to split off
      have hsplit : ∃ front behind, splitAt text
          (floorBoundary text (min (BufferText.byteLenOf text) textFragmentSize)) =
            .ok (front, behind) ∧ text = front ++ behind ∧
          BufferText.byteLenOf front ≤ textFragmentSize ∧ front ≠ [] := by
        by_cases hle : BufferText.byteLenOf text ≤ textFragmentSize
        · rw [min_eq_left hle]
          refine ⟨text, [], ?_, (List.append_nil text).symm, hle, hne⟩
          have hend := BufferText.charsAtByte_append text []
          rw [List.append_nil] at hend
          have hmax := (floorBoundary_spec text (BufferText.byteLenOf text)).2.2 _ le_rfl
            (Option.isSome_iff_exists.2 ⟨_, hend⟩)
          rw [le_antisymm (floorBoundary_spec text _).2.1 hmax]
          exact splitAt_byteLenOf text
        · rw [min_eq_right (Nat.le_of_not_le hle)]
          obtain ⟨front, behind, hsplit, htext, hle, hfront⟩ :=
            splitAt_floorBoundary text textFragmentSize
          exact ⟨front, behind, hsplit, htext, hle, hfront hne (by decide)⟩
      obtain ⟨front, behind, hsplit, rfl, hbytes, hfront⟩ := hsplit
      rw [List.mem_append, not_or] at hline
      have hpos := List.length_pos_iff.2 hfront
      rw [List.length_append] at hn
      simp only [hsplit, ok_bind, arrayString_ok hbytes]
      refine (ih hline.2 (by omega)).bind fun items hitems => Returns.ok ⟨?_, ?_⟩
      · rintro item (_ | ⟨_, hitem⟩)
        · exact ⟨hfront, hline.1, hbytes, charCountU8_eq hbytes⟩
        · exact hitems.1 item hitem
      · rw [pieces_cons, hitems.2, List.map_append]
        rfl

/-- The pieces of some lines. -/
def linePieces (trailingNewline : Bool) : List (List Char) → List (Piece M)
  | [] => []
  | line :: lines => line.map .char ++
    (if lines ≠ [] ∨ trailingNewline then [.whole .newline] else []) ++
    linePieces trailingNewline lines

theorem newFragments_spec (trailingNewline : Bool) {lines : List (List Char)}
    (hlines : ∀ line ∈ lines, '\n' ∉ line) :
    Returns (fun items => (∀ item ∈ items, item.Valid) ∧
      pieces items = linePieces (M := M) trailingNewline lines)
      (newFragments trailingNewline lines) := by
  induction lines with
  | nil => exact Returns.ok ⟨List.forall_mem_nil _, rfl⟩
  | cons line lines ih =>
    rw [newFragments]
    refine (fragmentsN_spec _ (hlines line List.mem_cons_self) le_rfl).bind fun chunks hchunks => ?_
    refine (ih fun l hl => hlines l (List.mem_cons_of_mem _ hl)).bind fun behind hbehind => ?_
    have hnewline : ∀ item ∈ (if lines ≠ [] ∨ trailingNewline = true then [.newline] else [] :
        List (BufferText M)), item.Valid := by
      split
      · rintro item (_ | ⟨_, hitem⟩)
        · exact trivial
        · exact nomatch hitem
      · exact List.forall_mem_nil _
    refine Returns.ok ⟨?_, ?_⟩
    · intro item hitem
      rcases List.mem_append.1 hitem with hitem | hitem
      · rcases List.mem_append.1 hitem with hitem | hitem
        · exact hchunks.1 item hitem
        · exact hnewline item hitem
      · exact hbehind.1 item hitem
    · rw [pieces_append, pieces_append, hchunks.2, hbehind.2, linePieces]
      split <;> rfl

theorem breakPieces_cons {c : Char} (hc : c ≠ '\n') {s : List Char}
    (hs : c = '\r' → s.head? ≠ some '\n') :
    breakPieces (M := M) (c :: s) = .char c :: breakPieces s := by
  refine breakPieces.eq_4 c s (fun s' hcr hs' => ?_) hc
  exact hs hcr (by rw [hs', List.head?_cons])

theorem head?_ne_of_not_mem {line : List Char} (h : '\n' ∉ line) : line.head? ≠ some '\n' :=
  fun hhead => h (List.mem_of_mem_head? hhead)

theorem breakPieces_line {line : List Char} (h : '\n' ∉ line) :
    breakPieces (M := M) line = line.map .char := by
  induction line with
  | nil => rfl
  | cons c line ih =>
    rw [List.mem_cons, not_or] at h
    rw [breakPieces_cons (Ne.symm h.1) fun _ => head?_ne_of_not_mem h.2, ih h.2, List.map_cons]

theorem stripCr_cons_cons (c d : Char) (line : List Char) :
    stripCr (c :: d :: line) = c :: stripCr (d :: line) := by
  rw [stripCr, stripCr, List.getLast?_cons_cons, List.dropLast_cons_cons]
  exact (apply_ite (List.cons c) _ _ _).symm

/-- A line that ends, with or without a carriage return before its line feed. -/
theorem breakPieces_newline {line : List Char} (h : '\n' ∉ line) (s : List Char) :
    breakPieces (M := M) (line ++ '\n' :: s) =
      (stripCr line).map .char ++ .whole .newline :: breakPieces s := by
  induction line with
  | nil => rfl
  | cons c line ih =>
    rw [List.mem_cons, not_or] at h
    cases line with
    | nil =>
      by_cases hcr : c = '\r'
      · subst hcr
        rfl
      · rw [stripCr_eq (by simpa using hcr), List.singleton_append,
          breakPieces_cons (Ne.symm h.1) fun hc => absurd hc hcr]
        rfl
    | cons d line =>
      have hd : d ≠ '\n' := fun heq => h.2 (heq ▸ List.mem_cons_self)
      rw [List.cons_append, breakPieces_cons (Ne.symm h.1) fun _ => by simpa using hd, ih h.2,
        stripCr_cons_cons, List.map_cons, List.cons_append]

theorem strLinesFrom_ne_nil {start text : List Char} (h : start ++ text ≠ []) :
    strLinesFrom start text ≠ [] := by
  induction text generalizing start with
  | nil =>
    rw [List.append_nil] at h
    rw [strLinesFrom, if_neg h]
    exact List.cons_ne_nil _ _
  | cons c text ih =>
    rw [strLinesFrom]
    split
    · exact List.cons_ne_nil _ _
    · exact ih (by simp)

/-- The lines of a text have its characters and line breaks. -/
theorem linePieces_strLinesFrom {start : List Char} (hstart : '\n' ∉ start) (text : List Char) :
    linePieces (M := M) ((start ++ text).getLast? = some '\n') (strLinesFrom start text) =
      breakPieces (start ++ text) := by
  induction text generalizing start with
  | nil =>
    have hlast : start.getLast? ≠ some '\n' := fun h => hstart (List.mem_of_getLast? h)
    rw [List.append_nil, breakPieces_line hstart, strLinesFrom]
    split
    · rename_i hnil
      rw [hnil]
      rfl
    · rw [linePieces, if_neg (by simpa using hlast), List.append_nil]
      exact List.append_nil _
  | cons c text ih =>
    rw [strLinesFrom]
    split
    · rename_i hc
      subst hc
      rw [breakPieces_newline hstart, linePieces, if_pos, List.append_assoc]
      · cases text with
        | nil => rfl
        | cons d text =>
          have hlast : (start ++ '\n' :: d :: text).getLast? = ([] ++ d :: text).getLast? := by
            rw [List.getLast?_append_of_ne_nil _ (List.cons_ne_nil _ _), List.getLast?_cons_cons]
            rfl
          rw [hlast, ih List.not_mem_nil]
          rfl
      · cases text with
        | nil => exact Or.inr (by simp)
        | cons d text => exact Or.inl (strLinesFrom_ne_nil (List.cons_ne_nil _ _))
    · rename_i hc
      rw [List.append_cons, ih]
      simpa [hstart] using Ne.symm hc

theorem length_breakPieces_le (s : List Char) : (breakPieces (M := M) s).length ≤ s.length := by
  fun_induction breakPieces s with
  | case1 => exact le_rfl
  | case2 s ih => exact (Nat.succ_le_succ ih).trans (Nat.le_succ _)
  | case3 s ih => exact Nat.succ_le_succ ih
  | case4 c s _ _ ih => exact Nat.succ_le_succ ih

/-! ## `append_str` appends -/

/-- The call returns a content with more pieces, unless there are too many items for a tree. -/
def Grows (ps : List (Piece M)) (r : Result (SumTree (BufferText M) BufferSummary)) : Prop :=
  (∃ t, r = .ok t ∧ IsContent t ∧ pieces t.toList = ps) ∨
    r = .error .overflow ∧ treeBase ^ 254 ≤ ps.length

theorem Grows.of_yields {items : List (BufferText M)}
    {r : Result (SumTree (BufferText M) BufferSummary)} (h : Yields items r)
    (hvalid : ∀ item ∈ items, item.Valid) : Grows (pieces items) r := by
  rcases h with ⟨h, t, e, w, rfl⟩ | ⟨e, hlen⟩
  · exact Or.inl ⟨t, e, ⟨⟨h, w⟩, hvalid⟩, rfl⟩
  · exact Or.inr ⟨e, hlen.trans (length_le_pieces hvalid)⟩

theorem isEmpty_iff {h : ℕ} {t : SumTree (BufferText M) BufferSummary} (w : Wf h t) :
    t.isEmpty = true ↔ t.toList = [] := by
  cases w with
  | leaf _ => exact List.isEmpty_iff
  | internal hu hne hl hw hf =>
    exact iff_of_false Bool.false_ne_true (toListAll_ne_nil hne fun t ht => (hf t ht).1)

theorem last_eq {h : ℕ} {t : SumTree (BufferText M) BufferSummary} (w : Wf h t)
    {xs : List (BufferText M)} {last : BufferText M} (hlast : t.toList = xs ++ [last]) :
    t.last = .ok (some last) := by
  have hne : t.toList ≠ [] := by rw [hlast]; exact List.append_ne_nil_of_right_ne_nil _ (by simp)
  obtain ⟨leaf, is, hleaf, his, hget⟩ := Cursor.rightmostLeaf_spec w hne
  simp only [SumTree.last, hleaf, his, ok_bind, hget, hlast, List.getLast_append_singleton]
  rfl

/-- What is left of the first line behind the last fragment. -/
theorem fillTree_spec {t : SumTree (BufferText M) BufferSummary} (ht : IsContent t)
    {lines : List (List Char)} (hlines : ∀ line ∈ lines, '\n' ∉ line) (trailingNewline : Bool) :
    Returns (fun r => IsContent r.1 ∧ (∀ line ∈ r.2, '\n' ∉ line) ∧
      pieces r.1.toList ++ linePieces trailingNewline r.2 =
        pieces t.toList ++ linePieces trailingNewline lines) (fillTree t lines) := by
  cases lines with
  | nil => exact Returns.ok ⟨ht, hlines, rfl⟩
  | cons line lines =>
    obtain ⟨h, w⟩ := ht.wf
    rw [fillTree]
    rcases List.eq_nil_or_concat' t.toList with hnil | ⟨xs, last, hlast⟩
    · rw [if_pos ((isEmpty_iff w).2 hnil)]
      exact Returns.ok ⟨ht, hlines, rfl⟩
    · have hne : ¬ t.isEmpty = true := fun hempty => by
        rw [(isEmpty_iff w).1 hempty] at hlast
        exact absurd hlast.symm (List.append_ne_nil_of_right_ne_nil _ (List.cons_ne_nil _ _))
      have hvalid : ∀ item ∈ xs ++ [last], item.Valid := hlast ▸ ht.valid
      have hmem : last ∈ xs ++ [last] := List.mem_append_right _ (List.mem_singleton_self last)
      rw [if_neg hne, last_eq w hlast, ok_bind, show unwrap (some last) = .ok last from rfl, ok_bind]
      refine (fillLast_spec (hvalid last hmem) (hlines line List.mem_cons_self)).bind ?_
      rintro ⟨last', rest⟩ ⟨front, rfl, hlast', hpieces⟩
      obtain ⟨t', e, w', htoList⟩ := updateLast_spec w (fun _ => last') hlast
      simp only [e, ok_bind]
      have hline := hlines _ List.mem_cons_self
      rw [List.mem_append, not_or] at hline
      refine Returns.ok ⟨⟨⟨h, w'⟩, fun item hitem => ?_⟩, fun l hl => ?_, ?_⟩
      · rw [htoList, List.mem_append, List.mem_singleton] at hitem
        rcases hitem with hitem | rfl
        · exact hvalid item (List.mem_append_left _ hitem)
        · exact hlast'
      · rcases List.mem_cons.1 hl with rfl | hl
        · exact hline.2
        · exact hlines l (List.mem_cons_of_mem _ hl)
      · rw [htoList, hlast, pieces_append, pieces_append, linePieces, linePieces, pieces_cons,
          pieces_cons, pieces_nil, hpieces, List.map_append]
        simp only [List.append_assoc, List.append_nil]

/-- **`append_str` appends the characters of a text, and a newline for each of its line breaks.** -/
theorem appendStr_spec {t : SumTree (BufferText M) BufferSummary} (ht : IsContent t)
    (s : List Char) : Grows (pieces t.toList ++ breakPieces s) (appendStr t s) := by
  have hlines : ∀ line ∈ strLines s, '\n' ∉ line := fun _ => not_mem_of_mem_strLines
  obtain ⟨⟨t', lines⟩, hfill, ht', hlines', hpieces⟩ :=
    fillTree_spec ht hlines (s.getLast? = some '\n')
  obtain ⟨items, hitems, hvalid, hnew⟩ :=
    newFragments_spec (M := M) (s.getLast? = some '\n') hlines'
  have hbreak := @linePieces_strLinesFrom M [] List.not_mem_nil s
  rw [List.nil_append] at hbreak
  rw [appendStr, hfill, ok_bind]
  simp only [hitems, ok_bind]
  obtain ⟨h, w⟩ := ht'.wf
  rw [← hbreak, ← strLines, ← hpieces, ← hnew, ← pieces_append]
  refine Grows.of_yields (extend_spec w items) fun item hitem => ?_
  rcases List.mem_append.1 hitem with hitem | hitem
  · exact ht'.valid item hitem
  · exact hvalid item hitem

end Clinch.Content
