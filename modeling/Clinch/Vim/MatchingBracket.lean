import Clinch.Brackets
import Clinch.Rust

/-!
# `vim_find_matching_bracket`

`crates/vim/src/matching_brackets.rs`, with `BracketChar` of `vim.rs` and the `%` motion of
`app/src/editor/view/model/mod.rs`. A text buffer is the list of its characters, and an offset is
valid up to its length.

* `BracketChar`, `findFrom`, `vimFindMatchingBracket`, `vimMoveCursorToMatchingBracket`;
* `findFrom_eq_some`, **`find_opening_iff`**, **`find_closing_iff`**: what the search returns;
* **`find_partner`**: it returns the partner of a bracket, and finds the bracket from there.
-/

set_option autoImplicit false

namespace Clinch.Vim

inductive BracketEnd
  | opening
  | closing
deriving DecidableEq

inductive BracketType
  | parenthesis
  | squareBracket
  | curlyBrace
deriving DecidableEq

structure BracketChar where
  bracketEnd : BracketEnd
  kind : BracketType
deriving DecidableEq

/-- `u32::MAX`. -/
def u32Max : ℕ := 4294967295

/-- `TextBuffer::chars_at`. -/
def charsAt (buffer : List Char) (offset : ℕ) : Option (List Char) :=
  if offset ≤ buffer.length then some (buffer.drop offset) else none

/-- `TextBuffer::chars_rev_at`. -/
def charsRevAt (buffer : List Char) (offset : ℕ) : Option (List Char) :=
  if offset ≤ buffer.length then some (buffer.take offset).reverse else none

namespace BracketChar

/-- `BracketChar::try_from`. -/
def tryFrom : Char → Option BracketChar
  | '(' => some ⟨.opening, .parenthesis⟩
  | ')' => some ⟨.closing, .parenthesis⟩
  | '[' => some ⟨.opening, .squareBracket⟩
  | ']' => some ⟨.closing, .squareBracket⟩
  | '{' => some ⟨.opening, .curlyBrace⟩
  | '}' => some ⟨.closing, .curlyBrace⟩
  | _ => none

/-- `is_char`. -/
def isChar (b : BracketChar) (c : Char) : Bool :=
  match tryFrom c with
  | some other => decide (b = other)
  | none => false

/-- `complements`. -/
def complements (b : BracketChar) (c : Char) : Bool :=
  match tryFrom c with
  | some other => decide (b.kind = other.kind) && decide (b.bracketEnd ≠ other.bracketEnd)
  | none => false

/-- `find_position` in `vim_find_matching_bracket`, from the `i`th character on. -/
def findFrom (b : BracketChar) : List Char → ℕ → ℕ → Result (Option ℕ)
  | [], _, _ => .ok none
  | c :: chars, depth, i =>
    if b.isChar c then do
      let depth ← checkedAdd u32Max depth 1
      b.findFrom chars depth (i + 1)
    else if b.complements c then
      if depth = 0 then .ok (some i)
      else b.findFrom chars (depth - 1) (i + 1)
    else b.findFrom chars depth (i + 1)

end BracketChar

/-- `vim_find_matching_bracket`. -/
def vimFindMatchingBracket (buffer : List Char) (bracketChar : BracketChar) (offset : ℕ) :
    Result (Option ℕ) :=
  match bracketChar.bracketEnd with
  | .opening =>
    match charsAt buffer (offset + 1) with
    | none => .ok none
    | some chars => do return (← bracketChar.findFrom chars 0 0).map fun i => offset + i + 1
  | .closing =>
    match charsRevAt buffer offset with
    | none => .ok none
    | some chars => do return (← bracketChar.findFrom chars 0 0).map fun i => offset - i - 1

/-- The bracket that the `%` motion starts from: on the line, from the cursor on. -/
def bracketOnLine (buffer : List Char) (offset : ℕ) : Option (BracketChar × ℕ) :=
  match (buffer.drop offset).takeWhile fun c => c ≠ '\n' with
  | [] => none
  | c :: rest =>
    match BracketChar.tryFrom c with
    | some bracket => some (bracket, offset)
    | none => rest.zipIdx.findSome? fun e =>
      (BracketChar.tryFrom e.1).map fun bracket => (bracket, offset + e.2 + 1)

/-- `vim_move_cursor_to_matching_bracket`, on the head of a selection. -/
def vimMoveCursorToMatchingBracket (buffer : List Char) (offset : ℕ) : Result ℕ :=
  match bracketOnLine buffer offset with
  | none => .ok offset
  | some (bracket, startOffset) => do
    return (← vimFindMatchingBracket buffer bracket startOffset).getD offset

/-! ## What the search returns -/

/-- The character opens a bracket of the kind. -/
abbrev opens (kind : BracketType) : Char → Bool := BracketChar.isChar ⟨.opening, kind⟩

/-- The character closes a bracket of the kind. -/
abbrev closes (kind : BracketType) : Char → Bool := BracketChar.isChar ⟨.closing, kind⟩

namespace BracketChar

variable {b : BracketChar} {c : Char} {kind : BracketType}

theorem isChar_iff : b.isChar c ↔ tryFrom c = some b := by
  unfold isChar
  cases tryFrom c with
  | none => simp
  | some other => simp [eq_comm]

theorem complements_opening (kind : BracketType) : complements ⟨.opening, kind⟩ = closes kind := by
  funext c
  unfold closes complements isChar
  cases tryFrom c with
  | none => rfl
  | some other =>
    obtain ⟨e, k⟩ := other
    cases e <;> simp

theorem complements_closing (kind : BracketType) : complements ⟨.closing, kind⟩ = opens kind := by
  funext c
  unfold opens complements isChar
  cases tryFrom c with
  | none => rfl
  | some other =>
    obtain ⟨e, k⟩ := other
    cases e <;> simp

theorem complements_of_isChar (h : b.isChar c) : b.complements c = false := by
  unfold complements
  rw [isChar_iff.mp h]
  simp

/-- The character in place `j` complements the bracket, and what is open before the scan and in it
is closed just there. -/
structure Found (b : BracketChar) (chars : List Char) (depth j : ℕ) : Prop where
  complement : ∃ c, chars[j]? = some c ∧ b.complements c
  closed : depth + height b.isChar b.complements chars j = 0
  bounded : ∀ q ≤ j, 0 ≤ depth + height b.isChar b.complements chars q ∧
    depth + height b.isChar b.complements chars q ≤ u32Max

variable {chars : List Char} {d e i j k : ℕ}

theorem found_zero : b.Found (c :: chars) d 0 ↔ b.complements c ∧ d = 0 := by
  constructor
  · rintro ⟨⟨c', hc', hcomp⟩, hclosed, -⟩
    cases hc'
    rw [height_zero] at hclosed
    exact ⟨hcomp, by omega⟩
  · rintro ⟨hcomp, rfl⟩
    refine ⟨⟨c, rfl, hcomp⟩, by simp, fun q hq => ?_⟩
    obtain rfl : q = 0 := by omega
    simp

/-- The scan goes on from the depth after its first character. -/
theorem found_succ (hd : d ≤ u32Max)
    (he : (d : ℤ) + ((if b.isChar c then 1 else 0) - (if b.complements c then 1 else 0)) = e) :
    b.Found (c :: chars) d (j + 1) ↔ b.Found chars e j := by
  have hheight : ∀ q, (d : ℤ) + height b.isChar b.complements (c :: chars) (q + 1) =
      e + height b.isChar b.complements chars q := by
    intro q
    rw [height_cons_succ, ← he]
    ring
  constructor
  · rintro ⟨hcomp, hclosed, hbounded⟩
    refine ⟨hcomp, by rw [← hheight, hclosed], fun q hq => ?_⟩
    rw [← hheight]
    exact hbounded (q + 1) (by omega)
  · rintro ⟨hcomp, hclosed, hbounded⟩
    refine ⟨hcomp, by rw [hheight, hclosed], fun q hq => ?_⟩
    cases q with
    | zero =>
      rw [height_zero]
      omega
    | succ q =>
      rw [hheight]
      exact hbounded q (by omega)

/-- **What the scan finds**: the first character that complements the bracket at its depth. -/
theorem findFrom_eq_some (hd : d ≤ u32Max) :
    b.findFrom chars d i = .ok (some k) ↔ ∃ j, k = i + j ∧ b.Found chars d j := by
  induction chars generalizing d i with
  | nil =>
    refine iff_of_false (fun h => nomatch h) ?_
    rintro ⟨j, -, ⟨c, hc, -⟩, -⟩
    exact nomatch hc
  | cons c chars ih =>
    have later : ∀ e : ℕ, e ≤ u32Max →
        (d : ℤ) + ((if b.isChar c then 1 else 0) - (if b.complements c then 1 else 0)) = e →
        ¬ (b.complements c ∧ d = 0) →
        (b.findFrom chars e (i + 1) = .ok (some k) ↔
          ∃ j, k = i + j ∧ b.Found (c :: chars) d j) := by
      intro e he hstep hnot
      rw [ih he]
      constructor
      · rintro ⟨j, rfl, h⟩
        exact ⟨j + 1, by omega, (found_succ hd hstep).mpr h⟩
      · rintro ⟨j, rfl, h⟩
        cases j with
        | zero => exact absurd (found_zero.mp h) hnot
        | succ j => exact ⟨j, by omega, (found_succ hd hstep).mp h⟩
    unfold findFrom
    split
    · next hchar =>
      have hcomp := complements_of_isChar hchar
      have hnot : ¬ (b.complements c ∧ d = 0) := by simp [hcomp]
      unfold checkedAdd
      split
      · next hmax =>
        exact later (d + 1) hmax (by simp [hchar, hcomp]) hnot
      · next hmax =>
        -- the depth overflows
        refine iff_of_false (fun h => nomatch h) ?_
        rintro ⟨j, -, h⟩
        cases j with
        | zero => exact hnot (found_zero.mp h)
        | succ j =>
          have hbound := (h.bounded 1 (by omega)).2
          rw [height_cons_succ, height_zero] at hbound
          simp only [hchar, hcomp, if_true, if_false, Bool.false_eq_true] at hbound
          omega
    · next hchar =>
      split
      · next hcomp =>
        split
        · next hzero =>
          subst hzero
          constructor
          · intro h
            cases h
            exact ⟨0, rfl, found_zero.mpr ⟨hcomp, rfl⟩⟩
          · rintro ⟨j, rfl, h⟩
            cases j with
            | zero => rfl
            | succ j =>
              have hbound := (h.bounded 1 (by omega)).1
              rw [height_cons_succ, height_zero] at hbound
              simp [hchar, hcomp] at hbound
        · next hzero =>
          refine later (d - 1) (by omega) ?_ fun h => hzero h.2
          simp only [hchar, hcomp, if_true, if_false, Bool.false_eq_true]
          omega
      · next hcomp => exact later d hd (by simp [hchar, hcomp]) fun h => hcomp h.1

end BracketChar

/-! ## The two directions -/

variable {kind : BracketType} {text : List Char} {i j : ℕ}

/-- The height of the brackets of a kind. -/
abbrev heightOf (kind : BracketType) : List Char → ℕ → ℤ := height (opens kind) (closes kind)

/-- What is open after place `i` is closed just before place `j`, and never more. -/
structure Nests (kind : BracketType) (text : List Char) (i j : ℕ) : Prop where
  lt : i < j
  balanced : heightOf kind text (i + 1) = heightOf kind text j
  bounded : ∀ k, i < k → k ≤ j → heightOf kind text (i + 1) ≤ heightOf kind text k ∧
    heightOf kind text k ≤ heightOf kind text (i + 1) + u32Max

theorem map_eq_ok_some {r : Result (Option ℕ)} {f : ℕ → ℕ} :
    (do return (← r).map f : Result (Option ℕ)) = .ok (some j) ↔
      ∃ k, r = .ok (some k) ∧ f k = j := by
  constructor
  · intro h
    obtain ⟨o, ho, h⟩ := bind_eq_ok h
    obtain ⟨k, hk, hf⟩ := Option.map_eq_some_iff.mp (Except.ok.inj h)
    exact ⟨k, by rw [ho, hk], hf⟩
  · rintro ⟨k, rfl, rfl⟩
    rfl

theorem found_opening {k : ℕ} : BracketChar.Found ⟨.opening, kind⟩ (text.drop (i + 1)) 0 k ↔
    (∃ c, text[i + k + 1]? = some c ∧ closes kind c) ∧ Nests kind text i (i + k + 1) := by
  have hplace : i + 1 + k = i + k + 1 := by omega
  have hheight : ∀ q, ((0 : ℕ) : ℤ) + height (BracketChar.isChar ⟨.opening, kind⟩)
      (BracketChar.complements ⟨.opening, kind⟩) (text.drop (i + 1)) q =
        heightOf kind text (i + 1 + q) - heightOf kind text (i + 1) := by
    intro q
    rw [BracketChar.complements_opening, height_drop, Nat.cast_zero, zero_add]
  constructor
  · rintro ⟨hcomp, hclosed, hbounded⟩
    rw [List.getElem?_drop, hplace, BracketChar.complements_opening] at hcomp
    rw [hheight, hplace] at hclosed
    refine ⟨hcomp, by omega, by omega, fun m hm hmj => ?_⟩
    have := hbounded (m - (i + 1)) (by omega)
    rw [hheight, show i + 1 + (m - (i + 1)) = m by omega] at this
    omega
  · rintro ⟨hcomp, hnests⟩
    have hbalanced := hnests.balanced
    refine ⟨?_, ?_, fun q hq => ?_⟩
    · rw [List.getElem?_drop, hplace, BracketChar.complements_opening]
      exact hcomp
    · rw [hheight, hplace]
      omega
    · rw [hheight]
      have := hnests.bounded (i + 1 + q) (by omega) (by omega)
      omega

/-- **The search from an opening bracket.** -/
theorem find_opening_iff : vimFindMatchingBracket text ⟨.opening, kind⟩ i = .ok (some j) ↔
    (∃ c, text[j]? = some c ∧ closes kind c) ∧ Nests kind text i j := by
  unfold vimFindMatchingBracket charsAt
  simp only
  by_cases hi : i + 1 ≤ text.length
  · rw [if_pos hi]
    simp only [map_eq_ok_some, BracketChar.findFrom_eq_some (Nat.zero_le u32Max), Nat.zero_add]
    constructor
    · rintro ⟨k, ⟨_, rfl, h⟩, rfl⟩
      exact found_opening.mp h
    · rintro ⟨hc, hnests⟩
      have hlt := hnests.lt
      obtain ⟨k, rfl⟩ : ∃ k, j = i + k + 1 := ⟨j - i - 1, by omega⟩
      exact ⟨k, ⟨k, rfl, found_opening.mpr ⟨hc, hnests⟩⟩, rfl⟩
  · rw [if_neg hi]
    refine iff_of_false (fun h => nomatch h) ?_
    rintro ⟨⟨c, hc, -⟩, hnests⟩
    have hlt := hnests.lt
    have hj := (List.getElem?_eq_some_iff.mp hc).1
    omega

theorem getElem?_take_reverse {k : ℕ} (hj : j ≤ text.length) (hk : k < j) :
    (text.take j).reverse[k]? = text[j - k - 1]? := by
  rw [List.getElem?_reverse (by rwa [List.length_take_of_le hj]), List.length_take_of_le hj,
    List.getElem?_take_of_lt (by omega)]
  congr 1
  omega

theorem found_closing {k : ℕ} (hj : j ≤ text.length) (hk : k < j) :
    BracketChar.Found ⟨.closing, kind⟩ (text.take j).reverse 0 k ↔
      (∃ c, text[j - k - 1]? = some c ∧ opens kind c) ∧ Nests kind text (j - k - 1) j := by
  have hget := getElem?_take_reverse hj hk
  have hheight : ∀ q, ((0 : ℕ) : ℤ) + height (BracketChar.isChar ⟨.closing, kind⟩)
      (BracketChar.complements ⟨.closing, kind⟩) (text.take j).reverse q =
        heightOf kind text (j - q) - heightOf kind text j := by
    intro q
    rw [BracketChar.complements_closing, height_swap, height_reverse hj, Nat.cast_zero]
    ring
  have hplace : j - k = j - k - 1 + 1 := by omega
  constructor
  · rintro ⟨hcomp, hclosed, hbounded⟩
    rw [hget, BracketChar.complements_closing] at hcomp
    rw [hheight, hplace] at hclosed
    refine ⟨hcomp, by omega, by omega, fun m hm hmj => ?_⟩
    have := hbounded (j - m) (by omega)
    rw [hheight, show j - (j - m) = m by omega] at this
    omega
  · rintro ⟨hcomp, hnests⟩
    have hbalanced := hnests.balanced
    refine ⟨?_, ?_, fun q hq => ?_⟩
    · rw [hget, BracketChar.complements_closing]
      exact hcomp
    · rw [hheight, hplace]
      omega
    · rw [hheight]
      have := hnests.bounded (j - q) (by omega) (by omega)
      omega

/-- **The search from a closing bracket.** -/
theorem find_closing_iff (hj : j ≤ text.length) :
    vimFindMatchingBracket text ⟨.closing, kind⟩ j = .ok (some i) ↔
      (∃ c, text[i]? = some c ∧ opens kind c) ∧ Nests kind text i j := by
  unfold vimFindMatchingBracket charsRevAt
  simp only [if_pos hj, map_eq_ok_some, BracketChar.findFrom_eq_some (Nat.zero_le u32Max),
    Nat.zero_add]
  constructor
  · rintro ⟨k, ⟨_, rfl, h⟩, rfl⟩
    refine (found_closing hj ?_).mp h
    obtain ⟨c, hc, -⟩ := h.complement
    have hlt := (List.getElem?_eq_some_iff.mp hc).1
    rwa [List.length_reverse, List.length_take_of_le hj] at hlt
  · rintro ⟨hc, hnests⟩
    have hlt := hnests.lt
    obtain ⟨k, hk, rfl⟩ : ∃ k, k < j ∧ i = j - k - 1 := ⟨j - i - 1, by omega, by omega⟩
    exact ⟨k, ⟨k, rfl, (found_closing hj hk).mpr ⟨hc, hnests⟩⟩, rfl⟩

theorem closes_of_opens {c : Char} (h : opens kind c) : closes kind c = false := by
  unfold opens at h
  unfold closes BracketChar.isChar
  rw [BracketChar.isChar_iff.mp h]
  simp

theorem Nests.partners (h : Nests kind text i j) (hi : ∃ c, text[i]? = some c ∧ opens kind c)
    (hj : ∃ c, text[j]? = some c ∧ closes kind c) :
    Partners (opens kind) (closes kind) text i j :=
  ⟨h.lt, hi, hj, h.balanced, fun k hk hkj => (h.bounded k hk hkj).1⟩

/-- The two places, the opening one first, are partners. -/
def PartnersAt (b : BracketChar) (text : List Char) (offset other : ℕ) : Prop :=
  match b.bracketEnd with
  | .opening => Partners (opens b.kind) (closes b.kind) text offset other
  | .closing => Partners (opens b.kind) (closes b.kind) text other offset

/-- **The search returns the partner of a bracket, and from there it returns to the bracket.** -/
theorem find_partner {b : BracketChar}
    (hb : ∃ c, text[i]? = some c ∧ BracketChar.tryFrom c = some b)
    (h : vimFindMatchingBracket text b i = .ok (some j)) : PartnersAt b text i j ∧
    ∃ b', (∃ c, text[j]? = some c ∧ BracketChar.tryFrom c = some b') ∧
      vimFindMatchingBracket text b' j = .ok (some i) := by
  obtain ⟨e, kind⟩ := b
  obtain ⟨c, hc, hfrom⟩ := hb
  have hchar := BracketChar.isChar_iff.mpr hfrom
  have hlen := (List.getElem?_eq_some_iff.mp hc).1
  cases e with
  | opening =>
    obtain ⟨hclose, hnests⟩ := find_opening_iff.mp h
    refine ⟨hnests.partners ⟨c, hc, hchar⟩ hclose, ⟨.closing, kind⟩, ?_, ?_⟩
    · obtain ⟨c', hc', hclose⟩ := hclose
      exact ⟨c', hc', BracketChar.isChar_iff.mp hclose⟩
    · obtain ⟨c', hc', -⟩ := hclose
      exact (find_closing_iff (List.getElem?_eq_some_iff.mp hc').1.le).mpr ⟨⟨c, hc, hchar⟩, hnests⟩
  | closing =>
    obtain ⟨hopen, hnests⟩ := (find_closing_iff hlen.le).mp h
    refine ⟨hnests.partners hopen ⟨c, hc, hchar⟩, ⟨.opening, kind⟩, ?_, ?_⟩
    · obtain ⟨c', hc', hopen⟩ := hopen
      exact ⟨c', hc', BracketChar.isChar_iff.mp hopen⟩
    · exact find_opening_iff.mpr ⟨⟨c, hc, hchar⟩, hnests⟩

end Clinch.Vim
