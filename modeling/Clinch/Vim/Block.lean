import Clinch.Intervals
import Clinch.Vim.MatchingBracket
import Clinch.Whitespace

/-!
# Block objects

`crates/vim/src/text_objects/block.rs`: the block around a cursor with its brackets, and without
them and the padding next to them.

* `vimABlock`, `vimInnerBlock`;
* `Innermost`: the pair of brackets of a kind around the cursor that lies in every other one;
* **`vimABlock_spec`**: what `vim_a_block` returns is the innermost pair;
* `BlankLine`: the contents of a block are white space with one newline in it;
* **`blocks_iff`**: when the motion and the objects respect nesting.
-/

set_option autoImplicit false

namespace Clinch.Vim

/-- `vim_a_block`. -/
def vimABlock (buffer : List Char) (offset : ℕ) (bracketType : BracketType) :
    Result (Option (Range ℕ)) :=
  match (charsAt buffer offset).bind List.head? with
  | none => .ok none
  | some c =>
    let onBracket := (BracketChar.tryFrom c).filter fun bracket => bracket.kind = bracketType
    match onBracket with
    | some bracket => do
      let some otherOffset ← vimFindMatchingBracket buffer bracket offset | return none
      let (startOffset, endOffset) :=
        if otherOffset > offset then (offset, otherOffset) else (otherOffset, offset)
      return some ⟨startOffset, endOffset + 1⟩
    | none => do
      let some endOffset ← vimFindMatchingBracket buffer ⟨.opening, bracketType⟩ offset
        | return none
      let some startOffset ← vimFindMatchingBracket buffer ⟨.closing, bracketType⟩ endOffset
        | return none
      return some ⟨startOffset, endOffset + 1⟩

/-- `take_while(|c| c.is_whitespace()).find_position(|c| *c == '\n')`. -/
def newlinePosition (chars : List Char) : Option ℕ :=
  (chars.takeWhile isWhitespace).findIdx? fun c => c = '\n'

/-- `vim_inner_block`. -/
def vimInnerBlock (buffer : List Char) (offset : ℕ) (bracketType : BracketType)
    (preserveLeadingPadding : Bool) : Result (Option (Range ℕ)) := do
  let some blockRange ← vimABlock buffer offset bracketType | return none
  let blockStart := blockRange.start + 1
  let blockEnd := blockRange.stop - 1
  let some trailing := charsRevAt buffer blockEnd | return none
  let blockEnd := match newlinePosition trailing with
    | some i => blockEnd - (i + 1)
    | none => blockEnd
  if preserveLeadingPadding then
    let some leading := charsAt buffer blockStart | return none
    match newlinePosition leading with
    | some i => return some ⟨blockStart + (i + 1), blockEnd⟩
    | none => return some ⟨blockStart, blockEnd⟩
  else return some ⟨blockStart, blockEnd⟩

/-! ## The block around the cursor -/

variable {kind : BracketType} {text : List Char} {offset i j : ℕ}

/-- The brackets of a kind around the cursor that lie within every other such pair. -/
structure Innermost (kind : BracketType) (text : List Char) (offset i j : ℕ) : Prop where
  partners : Partners (opens kind) (closes kind) text i j
  start_le : i ≤ offset
  le_stop : offset ≤ j
  smallest : ∀ i' j', Partners (opens kind) (closes kind) text i' j' → i' ≤ offset → offset ≤ j' →
    i' ≤ i ∧ j ≤ j'

/-- A pair with a bracket under the cursor is the innermost one. -/
theorem innermost_of_eq (h : Partners (opens kind) (closes kind) text i j)
    (hoffset : offset = i ∨ offset = j) : Innermost kind text offset i j := by
  have hlt := h.lt
  have hdisj : ∀ c, opens kind c → closes kind c = false := fun _ => closes_of_opens
  refine ⟨h, by omega, by omega, fun i' j' h' hi hj => ?_⟩
  rcases hoffset with rfl | rfl
  · rcases hi.eq_or_lt with rfl | hi
    · exact ⟨le_rfl, (h.right_unique hdisj h').le⟩
    rcases hj.eq_or_lt with rfl | hj
    · exact absurd h'.closer (not_closes_of_opens hdisj h.opener)
    · exact ⟨hi.le, (h.nested hdisj h' hi hj).le⟩
  · rcases hj.eq_or_lt with rfl | hj
    · exact ⟨(h.left_unique hdisj h').ge, le_rfl⟩
    rcases hi.eq_or_lt with rfl | hi
    · exact absurd h.closer (not_closes_of_opens hdisj h'.opener)
    refine ⟨?_, hj.le⟩
    by_contra hlt'
    have := h'.nested hdisj h (not_le.mp hlt') hi
    omega

/-- The pair found from between its brackets is the innermost one. -/
theorem innermost_of_search (hopen : ¬ ∃ c, text[offset]? = some c ∧ opens kind c)
    (hclose : ¬ ∃ c, text[offset]? = some c ∧ closes kind c) (hnests : Nests kind text offset j)
    (h : Partners (opens kind) (closes kind) text i j) : Innermost kind text offset i j := by
  have hdisj : ∀ c, opens kind c → closes kind c = false := fun _ => closes_of_opens
  have hlt := hnests.lt
  have hbalanced := hnests.balanced
  have hi : i < offset := by
    rcases Nat.lt_trichotomy i offset with hi | rfl | hi
    · exact hi
    · exact absurd h.opener hopen
    · -- what opens after the cursor would be closed before `j`
      have habove := (hnests.bounded i hi h.lt.le).1
      have hup : heightOf kind text (i + 1) = heightOf kind text i + 1 :=
        height_of_opens hdisj h.opener
      have hpair : heightOf kind text (i + 1) = heightOf kind text j := h.balanced
      omega
  refine ⟨h, hi.le, hlt.le, fun i' j' h' hi' hj' => ?_⟩
  rcases hi'.eq_or_lt with rfl | hi'
  · exact absurd h'.opener hopen
  rcases hj'.eq_or_lt with rfl | hj'
  · exact absurd h'.closer hclose
  have hj : j ≤ j' := by
    by_contra hlt'
    have habove := (hnests.bounded (j' + 1) (by omega) (by omega)).1
    have hdown : heightOf kind text (j' + 1) = heightOf kind text j' - 1 :=
      height_of_closes hdisj h'.closer
    have hinner : heightOf kind text (i' + 1) ≤ heightOf kind text (offset + 1) :=
      h'.above (offset + 1) (by omega) hj'
    have hpair : heightOf kind text (i' + 1) = heightOf kind text j' := h'.balanced
    omega
  refine ⟨?_, hj⟩
  rcases hj.eq_or_lt with rfl | hj
  · exact (h'.left_unique hdisj h).le
  · by_contra hlt'
    have := h'.nested hdisj h (not_le.mp hlt') (by omega)
    omega

theorem charsAt_head? : (charsAt text offset).bind List.head? = text[offset]? := by
  unfold charsAt
  split
  · exact List.head?_drop
  · next h => exact (List.getElem?_eq_none_iff.mpr (by omega)).symm

theorem vimABlock_on {c : Char} {e : BracketEnd} {other : ℕ} (hget : text[offset]? = some c)
    (hfrom : BracketChar.tryFrom c = some ⟨e, kind⟩)
    (h : vimFindMatchingBracket text ⟨e, kind⟩ offset = .ok (some other)) :
    vimABlock text offset kind =
      .ok (some (if other > offset then ⟨offset, other + 1⟩ else ⟨other, offset + 1⟩)) := by
  unfold vimABlock
  rw [charsAt_head?, hget]
  simp only [hfrom, Option.filter_some, decide_true, if_true, h, ok_bind]
  split <;> rfl

theorem vimABlock_between {c : Char} {e s : ℕ} (hget : text[offset]? = some c)
    (hnot : (BracketChar.tryFrom c).filter (fun bracket => bracket.kind = kind) = none)
    (hend : vimFindMatchingBracket text ⟨.opening, kind⟩ offset = .ok (some e))
    (hstart : vimFindMatchingBracket text ⟨.closing, kind⟩ e = .ok (some s)) :
    vimABlock text offset kind = .ok (some ⟨s, e + 1⟩) := by
  unfold vimABlock
  rw [charsAt_head?, hget]
  simp only [hnot, hend, hstart, ok_bind]
  rfl

/-- **What `vim_a_block` returns is the innermost pair around the cursor.** -/
theorem vimABlock_spec {r : Range ℕ} (h : vimABlock text offset kind = .ok (some r)) :
    ∃ i j, r = ⟨i, j + 1⟩ ∧ j < text.length ∧ Innermost kind text offset i j := by
  unfold vimABlock at h
  rw [charsAt_head?] at h
  split at h
  · exact nomatch h
  next c hget =>
  simp only at h
  split at h
  · next bracket hbracket =>
    obtain ⟨hfrom, hkind⟩ := Option.filter_eq_some_iff.mp hbracket
    obtain ⟨other, hother, h⟩ := bind_eq_ok h
    cases other with
    | none => exact nomatch h
    | some other =>
      obtain ⟨hat, -⟩ := find_partner ⟨c, hget, hfrom⟩ hother
      have hr := Option.some.inj (Except.ok.inj h)
      obtain ⟨e, k⟩ := bracket
      obtain rfl : k = kind := by simpa using hkind
      cases e with
      | opening =>
        have hlt : offset < other := Partners.lt hat
        rw [if_pos hlt] at hr
        exact ⟨offset, other, hr.symm, Partners.lt_length hat, innermost_of_eq hat (Or.inl rfl)⟩
      | closing =>
        have hlt : other < offset := Partners.lt hat
        rw [if_neg (by omega)] at hr
        exact ⟨other, offset, hr.symm, Partners.lt_length hat, innermost_of_eq hat (Or.inr rfl)⟩
  · next hbracket =>
    have hnot : ∀ e, ¬ ∃ c, text[offset]? = some c ∧ BracketChar.isChar ⟨e, kind⟩ c := by
      rintro e ⟨c', hget', hchar⟩
      rw [hget] at hget'
      cases hget'
      rw [BracketChar.isChar_iff.mp hchar] at hbracket
      simp at hbracket
    obtain ⟨endOffset, hend, h⟩ := bind_eq_ok h
    cases endOffset with
    | none => exact nomatch h
    | some endOffset =>
      obtain ⟨startOffset, hstart, h⟩ := bind_eq_ok h
      cases startOffset with
      | none => exact nomatch h
      | some startOffset =>
        have hr := Option.some.inj (Except.ok.inj h)
        obtain ⟨⟨c', hc', hclose⟩, hnests⟩ := find_opening_iff.mp hend
        have hlen := (List.getElem?_eq_some_iff.mp hc').1
        obtain ⟨hopen, hpair⟩ := (find_closing_iff hlen.le).mp hstart
        exact ⟨startOffset, endOffset, hr.symm, hlen, innermost_of_search (hnot .opening)
          (hnot .closing) hnests (hpair.partners hopen ⟨c', hc', hclose⟩)⟩

/-! ## Blank blocks -/

/-- The contents of the pair are white space with one newline in it, in place `p`. -/
structure BlankLine (text : List Char) (i j p : ℕ) : Prop where
  left_lt : i < p
  lt_right : p < j
  newline : text[p]? = some '\n'
  space : ∀ m, i < m → m < j → m ≠ p → ∃ c, text[m]? = some c ∧ isWhitespace c ∧ c ≠ '\n'

theorem tryFrom_of_isWhitespace {c : Char} (h : isWhitespace c) : BracketChar.tryFrom c = none := by
  unfold BracketChar.tryFrom
  split <;> first | rfl | exact absurd h (by decide)

theorem isChar_of_isWhitespace {b : BracketChar} {c : Char} (h : isWhitespace c) :
    b.isChar c = false := by
  unfold BracketChar.isChar
  rw [tryFrom_of_isWhitespace h]

theorem BlankLine.isWhitespace {p m : ℕ} (h : BlankLine text i j p) (hi : i < m) (hj : m < j) :
    ∃ c, text[m]? = some c ∧ isWhitespace c := by
  by_cases hm : m = p
  · exact ⟨_, hm ▸ h.newline, by decide⟩
  · obtain ⟨c, hc, hspace, -⟩ := h.space m hi hj hm
    exact ⟨c, hc, hspace⟩

/-- There are no brackets in a blank block. -/
theorem BlankLine.height_eq {p : ℕ} (h : BlankLine text i j p) {m : ℕ} (hi : i < m) (hj : m ≤ j) :
    heightOf kind text m = heightOf kind text (i + 1) := by
  induction m, hi using Nat.le_induction with
  | base => rfl
  | succ m hi ih =>
    obtain ⟨c, hc, hspace⟩ := h.isWhitespace hi hj
    have hopens : opens kind c = false := isChar_of_isWhitespace hspace
    have hcloses : closes kind c = false := isChar_of_isWhitespace hspace
    rw [← ih (by omega), heightOf, height_succ hc, hopens, hcloses]
    simp

theorem BlankLine.nests {p : ℕ} (h : BlankLine text i j p) {m : ℕ} (hi : i ≤ m) (hj : m < j) :
    Nests kind text m j where
  lt := hj
  balanced := by rw [h.height_eq (by omega) hj, h.height_eq (by omega) le_rfl]
  bounded := fun k hk hkj => by
    rw [h.height_eq (by omega) hj, h.height_eq (by omega) hkj]
    omega

/-- **The innermost pair, when it is blank, is what `vim_a_block` returns.** -/
theorem vimABlock_of_blank {p : ℕ} (h : Innermost kind text offset i j)
    (hb : BlankLine text i j p) : vimABlock text offset kind = .ok (some ⟨i, j + 1⟩) := by
  have hlt := h.partners.lt
  have hlen := h.partners.lt_length
  have hnests : Nests kind text i j := hb.nests le_rfl hlt
  have hclosing := (find_closing_iff hlen.le).mpr ⟨h.partners.opener, hnests⟩
  rcases h.start_le.eq_or_lt with rfl | hi
  · obtain ⟨c, hc, hopen⟩ := h.partners.opener
    rw [vimABlock_on hc (BracketChar.isChar_iff.mp hopen)
      (find_opening_iff.mpr ⟨h.partners.closer, hnests⟩), if_pos hlt]
  rcases h.le_stop.eq_or_lt with rfl | hj
  · obtain ⟨c, hc, hclose⟩ := h.partners.closer
    rw [vimABlock_on hc (BracketChar.isChar_iff.mp hclose) hclosing, if_neg (by omega)]
  · obtain ⟨c, hc, hspace⟩ := hb.isWhitespace hi hj
    exact vimABlock_between hc (by rw [tryFrom_of_isWhitespace hspace]; rfl)
      (find_opening_iff.mpr ⟨h.partners.closer, hb.nests hi.le hj⟩) hclosing

/-! ## The padding -/

/-- The newline found is the first one, and all before it is white space. -/
theorem newlinePosition_eq_some {chars : List Char} {q : ℕ} :
    newlinePosition chars = some q ↔ chars[q]? = some '\n' ∧
      ∀ m < q, ∃ c, chars[m]? = some c ∧ isWhitespace c ∧ c ≠ '\n' := by
  unfold newlinePosition
  induction chars generalizing q with
  | nil => simp
  | cons c chars ih =>
    have hnewline : isWhitespace '\n' := by decide
    by_cases hspace : isWhitespace c
    · rw [List.takeWhile_cons_of_pos hspace, List.findIdx?_cons]
      by_cases hc : c = '\n'
      · subst hc
        rw [if_pos (by simp)]
        constructor
        · intro h
          cases h
          exact ⟨rfl, fun m hm => absurd hm (Nat.not_lt_zero m)⟩
        · rintro ⟨-, hall⟩
          cases q with
          | zero => rfl
          | succ q =>
            obtain ⟨c, hc, -, hne⟩ := hall 0 (Nat.succ_pos q)
            exact absurd (Option.some.inj hc).symm hne
      · rw [if_neg (by simpa using hc)]
        cases q with
        | zero => simp [hc]
        | succ q =>
          rw [Option.map_eq_some_iff]
          constructor
          · rintro ⟨k, hk, hkq⟩
            obtain rfl : k = q := by omega
            obtain ⟨hget, hall⟩ := ih.mp hk
            refine ⟨hget, fun m hm => ?_⟩
            cases m with
            | zero => exact ⟨c, rfl, hspace, hc⟩
            | succ m => exact hall m (by omega)
          · rintro ⟨hget, hall⟩
            exact ⟨q, ih.mpr ⟨hget, fun m hm => hall (m + 1) (by omega)⟩, rfl⟩
    · rw [List.takeWhile_cons_of_neg hspace]
      refine iff_of_false (fun h => nomatch h) ?_
      rintro ⟨hget, hall⟩
      cases q with
      | zero => exact hspace (Option.some.inj hget ▸ hnewline)
      | succ q =>
        obtain ⟨c', hc', hspace', -⟩ := hall 0 (Nat.succ_pos q)
        exact hspace (Option.some.inj hc' ▸ hspace')

/-- The end of the contents, without the newline and the white space before the closing bracket. -/
def innerEnd (text : List Char) (j : ℕ) : ℕ :=
  match newlinePosition (text.take j).reverse with
  | some i => j - (i + 1)
  | none => j

/-- The start of the contents, without the white space and the newline after the opening bracket. -/
def innerStart (text : List Char) (i : ℕ) : ℕ :=
  match newlinePosition (text.drop (i + 1)) with
  | some k => i + 1 + (k + 1)
  | none => i + 1

theorem vimInnerBlock_eq {preserve : Bool} (h : vimABlock text offset kind = .ok (some ⟨i, j + 1⟩))
    (hi : i < j) (hj : j ≤ text.length) : vimInnerBlock text offset kind preserve =
      .ok (some ⟨if preserve then innerStart text i else i + 1, innerEnd text j⟩) := by
  unfold vimInnerBlock innerStart innerEnd charsRevAt charsAt
  rw [h, ok_bind]
  simp only [Nat.add_sub_cancel, if_pos hj, if_pos (show i + 1 ≤ text.length by omega)]
  cases preserve with
  | false => rfl
  | true =>
    simp only [if_true]
    cases newlinePosition (text.drop (i + 1)) <;> rfl

/-- A newline before a closing bracket, with white space in between. -/
def LastNewline (text : List Char) (j p : ℕ) : Prop :=
  p < j ∧ text[p]? = some '\n' ∧
    ∀ m, p < m → m < j → ∃ c, text[m]? = some c ∧ isWhitespace c ∧ c ≠ '\n'

/-- A newline after an opening bracket, with white space in between. -/
def FirstNewline (text : List Char) (i p : ℕ) : Prop :=
  i < p ∧ text[p]? = some '\n' ∧
    ∀ m, i < m → m < p → ∃ c, text[m]? = some c ∧ isWhitespace c ∧ c ≠ '\n'

theorem newlinePosition_reverse {k : ℕ} (hj : j ≤ text.length) (hk : k < j) :
    newlinePosition (text.take j).reverse = some k ↔ LastNewline text j (j - k - 1) := by
  rw [newlinePosition_eq_some, getElem?_take_reverse hj hk]
  constructor
  · rintro ⟨hget, hall⟩
    refine ⟨by omega, hget, fun m hm hmj => ?_⟩
    have := hall (j - m - 1) (by omega)
    rwa [getElem?_take_reverse hj (by omega), show j - (j - m - 1) - 1 = m by omega] at this
  · rintro ⟨-, hget, hall⟩
    refine ⟨hget, fun m hm => ?_⟩
    rw [getElem?_take_reverse hj (by omega)]
    exact hall (j - m - 1) (by omega) (by omega)

theorem newlinePosition_drop {k : ℕ} :
    newlinePosition (text.drop (i + 1)) = some k ↔ FirstNewline text i (i + 1 + k) := by
  rw [newlinePosition_eq_some, List.getElem?_drop]
  constructor
  · rintro ⟨hget, hall⟩
    refine ⟨by omega, hget, fun m hm hmk => ?_⟩
    have := hall (m - (i + 1)) (by omega)
    rwa [List.getElem?_drop, show i + 1 + (m - (i + 1)) = m by omega] at this
  · rintro ⟨-, hget, hall⟩
    refine ⟨hget, fun m hm => ?_⟩
    rw [List.getElem?_drop]
    exact hall (i + 1 + m) (by omega) (by omega)

/-- The contents end at the closing bracket or at the last newline before it. -/
theorem innerEnd_spec (hj : j ≤ text.length) :
    innerEnd text j = j ∨ LastNewline text j (innerEnd text j) := by
  unfold innerEnd
  split
  · next k hk =>
    have hlt : k < j := by
      have := (List.getElem?_eq_some_iff.mp (newlinePosition_eq_some.mp hk).1).1
      rwa [List.length_reverse, List.length_take_of_le hj] at this
    exact Or.inr ((newlinePosition_reverse hj hlt).mp hk)
  · exact Or.inl rfl

theorem innerEnd_eq {p : ℕ} (hj : j ≤ text.length) (h : LastNewline text j p) :
    innerEnd text j = p := by
  have hlt := h.1
  have hk := (newlinePosition_reverse hj (show j - p - 1 < j by omega)).mpr
    (by rwa [show j - (j - p - 1) - 1 = p by omega])
  unfold innerEnd
  rw [hk]
  show j - (j - p - 1 + 1) = p
  omega

/-- The contents start after the opening bracket or after the first newline that follows it. -/
theorem innerStart_spec (text : List Char) (i : ℕ) : innerStart text i = i + 1 ∨
    ∃ p, innerStart text i = p + 1 ∧ FirstNewline text i p := by
  unfold innerStart
  split
  · next k hk => exact Or.inr ⟨i + 1 + k, rfl, newlinePosition_drop.mp hk⟩
  · exact Or.inl rfl

theorem lt_innerStart (text : List Char) (i : ℕ) : i < innerStart text i := by
  rcases innerStart_spec text i with hstart | ⟨p, hstart, hp⟩
  · omega
  · have := hp.1
    omega

theorem innerStart_eq {p : ℕ} (h : FirstNewline text i p) : innerStart text i = p + 1 := by
  have hlt := h.1
  have hk : newlinePosition (text.drop (i + 1)) = some (p - (i + 1)) :=
    newlinePosition_drop.mpr (by rwa [show i + 1 + (p - (i + 1)) = p by omega])
  unfold innerStart
  rw [hk]
  show i + 1 + (p - (i + 1) + 1) = p + 1
  omega

theorem FirstNewline.lt_closer {p : ℕ} (h : FirstNewline text i p)
    (hij : Partners (opens kind) (closes kind) text i j) : p < j := by
  obtain ⟨c, hc, hclose⟩ := hij.closer
  have hnot : ¬ isWhitespace c := fun hspace => by
    rw [closes, isChar_of_isWhitespace hspace] at hclose
    exact nomatch hclose
  rcases Nat.lt_trichotomy p j with hlt | rfl | hgt
  · exact hlt
  · rw [h.2.1] at hc
    exact absurd (by decide) (Option.some.inj hc ▸ hnot)
  · obtain ⟨c', hc', hspace, -⟩ := h.2.2 j hij.lt hgt
    rw [hc] at hc'
    exact absurd hspace (Option.some.inj hc' ▸ hnot)

theorem LastNewline.opener_lt {p : ℕ} (h : LastNewline text j p)
    (hij : Partners (opens kind) (closes kind) text i j) : i < p := by
  obtain ⟨c, hc, hopen⟩ := hij.opener
  have hnot : ¬ isWhitespace c := fun hspace => by
    rw [opens, isChar_of_isWhitespace hspace] at hopen
    exact nomatch hopen
  rcases Nat.lt_trichotomy i p with hlt | rfl | hgt
  · exact hlt
  · rw [h.2.1] at hc
    exact absurd (by decide) (Option.some.inj hc ▸ hnot)
  · obtain ⟨c', hc', hspace, -⟩ := h.2.2 i hgt hij.lt
    rw [hc] at hc'
    exact absurd hspace (Option.some.inj hc' ▸ hnot)

/-- **The contents end before they start only if they are blank, with one newline.** -/
theorem blankLine_of_lt (h : Partners (opens kind) (closes kind) text i j)
    (hlt : innerEnd text j < innerStart text i) : ∃ p, BlankLine text i j p := by
  have hij := h.lt
  rcases innerEnd_spec h.lt_length.le with hend | hend
  · rcases innerStart_spec text i with hstart | ⟨p, hstart, hp⟩
    · omega
    · have := hp.lt_closer h
      omega
  · have hopen := hend.opener_lt h
    rcases innerStart_spec text i with hstart | ⟨p, hstart, hp⟩
    · omega
    rcases (show innerEnd text j ≤ p by omega).eq_or_lt with heq | hlt'
    · rw [heq] at hend
      refine ⟨p, hp.1, hend.1, hp.2.1, fun m hm hmj hne => ?_⟩
      rcases Nat.lt_or_gt_of_ne hne with hlt | hgt
      · exact hp.2.2 m hm hlt
      · exact hend.2.2 m hgt hmj
    · -- the first newline is not after the last one
      obtain ⟨c, hc, -, hne⟩ := hp.2.2 _ hopen hlt'
      rw [hend.2.1] at hc
      exact absurd (Option.some.inj hc).symm hne

theorem BlankLine.innerEnd_lt {p : ℕ} (h : BlankLine text i j p) (hj : j ≤ text.length) :
    innerEnd text j < innerStart text i := by
  rw [innerEnd_eq hj ⟨h.lt_right, h.newline, fun m hm hmj =>
      h.space m (h.left_lt.trans hm) hmj hm.ne'⟩,
    innerStart_eq ⟨h.left_lt, h.newline, fun m hm hmp =>
      h.space m hm (hmp.trans h.lt_right) hmp.ne⟩]
  exact Nat.lt_succ_self p

/-! ## Nesting -/

/-- The motion and the objects respect nesting. -/
structure RespectsNesting (text : List Char) (offset : ℕ) (kind : BracketType) (preserve : Bool) :
    Prop where
  /-- `%` moves to the partner of the bracket found, and from there to the bracket. -/
  motion : ∀ b s other, bracketOnLine text offset = some (b, s) →
    vimFindMatchingBracket text b s = .ok (some other) → PartnersAt b text s other ∧
      vimMoveCursorToMatchingBracket text offset = .ok other ∧
      vimMoveCursorToMatchingBracket text other = .ok s
  /-- A block is the innermost pair around the cursor. -/
  aBlock : ∀ r, vimABlock text offset kind = .ok (some r) →
    ∃ i j, r = ⟨i, j + 1⟩ ∧ Innermost kind text offset i j
  /-- An inner block is a valid range in the block. -/
  innerBlock : ∀ r', vimInnerBlock text offset kind preserve = .ok (some r') →
    ∃ r, vimABlock text offset kind = .ok (some r) ∧ r.start ≤ r'.start ∧ r'.stop ≤ r.stop ∧
      r'.start ≤ r'.stop ∧ r'.stop ≤ text.length

/-- The motion starts from a bracket. -/
theorem bracketOnLine_spec {b : BracketChar} {s : ℕ} (h : bracketOnLine text offset = some (b, s)) :
    ∃ c, text[s]? = some c ∧ BracketChar.tryFrom c = some b := by
  unfold bracketOnLine at h
  split at h
  · cases h
  next c rest hline =>
  obtain ⟨after, hafter⟩ : (c :: rest) <+: text.drop offset := hline ▸ List.takeWhile_prefix _
  have hget : ∀ k c', (c :: rest)[k]? = some c' → text[offset + k]? = some c' := by
    intro k c' hc'
    rw [← List.getElem?_drop, ← hafter,
      List.getElem?_append_left (List.getElem?_eq_some_iff.mp hc').1, hc']
  split at h
  · next b' hfrom =>
    cases h
    exact ⟨c, hget 0 c rfl, hfrom⟩
  · obtain ⟨⟨c', k⟩, hmem, he⟩ := List.exists_of_findSome?_eq_some h
    obtain ⟨b', hfrom, heq⟩ := Option.map_eq_some_iff.mp he
    cases heq
    have hk : rest[k]? = some c' := List.mk_mem_zipIdx_iff_getElem?.mp hmem
    exact ⟨c', hget (k + 1) c' hk, hfrom⟩

theorem bracketOnLine_of_bracket {b : BracketChar} {c : Char} (hc : text[offset]? = some c)
    (hfrom : BracketChar.tryFrom c = some b) : bracketOnLine text offset = some (b, offset) := by
  have hline : c ≠ '\n' := by
    rintro rfl
    exact nomatch hfrom
  unfold bracketOnLine
  rw [List.drop_eq_getElem?_toList_append, hc, Option.toList_some, List.singleton_append,
    List.takeWhile_cons_of_pos (by simpa using hline)]
  simp only [hfrom]

theorem motion_respects {b : BracketChar} {s other : ℕ}
    (hline : bracketOnLine text offset = some (b, s))
    (h : vimFindMatchingBracket text b s = .ok (some other)) : PartnersAt b text s other ∧
      vimMoveCursorToMatchingBracket text offset = .ok other ∧
      vimMoveCursorToMatchingBracket text other = .ok s := by
  obtain ⟨hpartners, b', ⟨c, hc, hfrom⟩, hback⟩ := find_partner (bracketOnLine_spec hline) h
  refine ⟨hpartners, ?_, ?_⟩
  · unfold vimMoveCursorToMatchingBracket
    rw [hline]
    simp only [h, ok_bind]
    rfl
  · unfold vimMoveCursorToMatchingBracket
    rw [bracketOnLine_of_bracket hc hfrom]
    simp only [hback, ok_bind]
    rfl

/-- **The motion and the objects respect nesting exactly when no white space with one newline is
changed**: the block object keeps its leading padding, and there is nothing else in the block. -/
theorem blocks_iff (text : List Char) (offset : ℕ) (kind : BracketType) (preserve : Bool) :
    RespectsNesting text offset kind preserve ↔
      ¬ (preserve = true ∧ ∃ i j p, Innermost kind text offset i j ∧ BlankLine text i j p) := by
  constructor
  · rintro h ⟨rfl, i, j, p, hinner, hblank⟩
    have hlen := hinner.partners.lt_length.le
    have hblock : vimInnerBlock text offset kind true =
        .ok (some ⟨innerStart text i, innerEnd text j⟩) :=
      vimInnerBlock_eq (vimABlock_of_blank hinner hblank) hinner.partners.lt hlen
    obtain ⟨r, -, -, -, hle, -⟩ := h.innerBlock _ hblock
    exact absurd hle (not_le.mpr (hblank.innerEnd_lt hlen))
  · intro h
    refine ⟨fun b s other hline hfind => motion_respects hline hfind, fun r hr => ?_,
      fun r' hr' => ?_⟩
    · obtain ⟨i, j, hr, -, hinner⟩ := vimABlock_spec hr
      exact ⟨i, j, hr, hinner⟩
    · obtain ⟨block, hblock, -⟩ := bind_eq_ok hr'
      cases block with
      | none =>
        unfold vimInnerBlock at hr'
        rw [hblock] at hr'
        exact nomatch hr'
      | some r =>
        obtain ⟨i, j, rfl, -, hinner⟩ := vimABlock_spec hblock
        have hlen := hinner.partners.lt_length.le
        have hlt := hinner.partners.lt
        rw [vimInnerBlock_eq hblock hlt hlen] at hr'
        obtain rfl := Option.some.inj (Except.ok.inj hr')
        have hend : i < innerEnd text j ∧ innerEnd text j ≤ j := by
          rcases innerEnd_spec hlen with hend | hend
          · omega
          · exact ⟨hend.opener_lt hinner.partners, hend.1.le⟩
        refine ⟨_, hblock, ?_, ?_, ?_, hend.2.trans hlen⟩
        · show i ≤ if preserve then innerStart text i else i + 1
          split
          · exact (lt_innerStart text i).le
          · exact Nat.le_succ i
        · exact hend.2.trans (Nat.le_succ j)
        · show (if preserve then innerStart text i else i + 1) ≤ innerEnd text j
          split
          · next hpreserve =>
            by_contra hle
            obtain ⟨p, hblank⟩ := blankLine_of_lt hinner.partners (not_le.mp hle)
            exact h ⟨hpreserve, i, j, p, hinner, hblank⟩
          · exact hend.1

/-- **Changing the inside of a block with one empty line**: the range ends before it starts. -/
theorem changeEmptyLine : ∃ text offset kind preserve r,
    vimInnerBlock text offset kind preserve = .ok (some r) ∧ r.stop < r.start ∧
    ¬ RespectsNesting text offset kind preserve := by
  have hblock : vimInnerBlock ['(', '\n', ')'] 0 .parenthesis true = .ok (some ⟨2, 1⟩) := rfl
  refine ⟨_, _, _, _, _, hblock, by decide, fun h => ?_⟩
  obtain ⟨r, -, -, -, hle, -⟩ := h.innerBlock _ hblock
  exact absurd hle (by decide)

end Clinch.Vim
