import Clinch.Whitespace

/-!
# Byte ranges of a text

A string is indexed by bytes and can only be cut between characters.

* `byteLen`, `isCharBoundary`, `slice`;
* `IsText`: a content is the text of a byte range, `slice_eq_some_iff`;
* `NonWhite`: a byte of a character that is not white space;
* `exists_boundary_after`: the next boundary is at most four bytes further.
-/

set_option autoImplicit false

namespace Clinch.ByteText

/-- `str::len`. -/
def byteLen (text : List Char) : ℕ := (text.map Char.utf8Size).sum

/-- The text from a byte on, when a character begins there or the text ends. -/
def dropBytes : ℕ → List Char → Option (List Char)
  | 0, text => some text
  | _ + 1, [] => none
  | n + 1, c :: text => if c.utf8Size ≤ n + 1 then dropBytes (n + 1 - c.utf8Size) text else none

/-- The text up to a byte. -/
def takeBytes : ℕ → List Char → Option (List Char)
  | 0, _ => some []
  | _ + 1, [] => none
  | n + 1, c :: text =>
    if c.utf8Size ≤ n + 1 then (c :: ·) <$> takeBytes (n + 1 - c.utf8Size) text else none

/-- `str::is_char_boundary`. -/
def isCharBoundary (text : List Char) (n : ℕ) : Bool := (dropBytes n text).isSome

/-- `&text[start..stop]`, which panics unless both ends are boundaries. -/
def slice (text : List Char) (start stop : ℕ) : Option (List Char) :=
  if start ≤ stop then (dropBytes start text).bind (takeBytes (stop - start)) else none

/-- A content is the text of a byte range. -/
def IsText (text : List Char) (start stop : ℕ) (content : List Char) : Prop :=
  ∃ before after, text = before ++ content ++ after ∧ byteLen before = start ∧
    start + byteLen content = stop

/-- A byte of a character that is not white space. -/
def NonWhite (text : List Char) (n : ℕ) : Prop :=
  ∃ before c after, text = before ++ c :: after ∧ isWhitespace c = false ∧ byteLen before ≤ n ∧
    n < byteLen before + c.utf8Size

@[simp] theorem byteLen_nil : byteLen [] = 0 := rfl

@[simp] theorem byteLen_cons (c : Char) (text : List Char) :
    byteLen (c :: text) = c.utf8Size + byteLen text := List.sum_cons

@[simp] theorem byteLen_append (text₁ text₂ : List Char) :
    byteLen (text₁ ++ text₂) = byteLen text₁ + byteLen text₂ := by
  simp [byteLen]

theorem dropBytes_eq_some_iff {n : ℕ} {text rest : List Char} :
    dropBytes n text = some rest ↔ ∃ before, text = before ++ rest ∧ byteLen before = n := by
  constructor
  · intro h
    fun_induction dropBytes n text with
    | case1 text => exact ⟨[], by simpa using h, rfl⟩
    | case2 n => cases h
    | case3 n c text hle ih =>
      obtain ⟨before, rfl, hlen⟩ := ih h
      exact ⟨c :: before, rfl, by rw [byteLen_cons]; omega⟩
    | case4 n c text hlt => cases h
  · rintro ⟨before, rfl, rfl⟩
    induction before with
    | nil => simp [dropBytes]
    | cons c before ih =>
      have hpos := c.utf8Size_pos
      obtain ⟨k, hk⟩ : ∃ k, byteLen (c :: before) = k + 1 := ⟨byteLen (c :: before) - 1, by simp; omega⟩
      rw [List.cons_append, hk, dropBytes]
      rw [byteLen_cons] at hk
      rw [if_pos (by omega), show k + 1 - c.utf8Size = byteLen before by omega, ih]

theorem takeBytes_eq_some_iff {n : ℕ} {text content : List Char} :
    takeBytes n text = some content ↔ ∃ after, text = content ++ after ∧ byteLen content = n := by
  constructor
  · intro h
    fun_induction takeBytes n text generalizing content with
    | case1 text =>
      cases h
      exact ⟨text, rfl, rfl⟩
    | case2 n => cases h
    | case3 n c text hle ih =>
      obtain ⟨content', hcontent, rfl⟩ := Option.map_eq_some_iff.1 h
      obtain ⟨after, rfl, hlen⟩ := ih hcontent
      exact ⟨after, rfl, by rw [byteLen_cons]; omega⟩
    | case4 n c text hlt => cases h
  · rintro ⟨after, rfl, rfl⟩
    induction content with
    | nil => simp [takeBytes]
    | cons c content ih =>
      have hpos := c.utf8Size_pos
      obtain ⟨k, hk⟩ : ∃ k, byteLen (c :: content) = k + 1 := ⟨byteLen (c :: content) - 1, by simp; omega⟩
      rw [List.cons_append, hk, takeBytes]
      rw [byteLen_cons] at hk
      rw [if_pos (by omega), show k + 1 - c.utf8Size = byteLen content by omega, ih]
      rfl

theorem isCharBoundary_iff {text : List Char} {n : ℕ} :
    isCharBoundary text n = true ↔ ∃ before after, text = before ++ after ∧ byteLen before = n := by
  unfold isCharBoundary
  rw [Option.isSome_iff_exists]
  constructor
  · rintro ⟨after, h⟩
    obtain ⟨before, htext, hlen⟩ := dropBytes_eq_some_iff.1 h
    exact ⟨before, after, htext, hlen⟩
  · rintro ⟨before, after, htext, hlen⟩
    exact ⟨after, dropBytes_eq_some_iff.2 ⟨before, htext, hlen⟩⟩

theorem le_byteLen {text : List Char} {n : ℕ} (h : isCharBoundary text n = true) :
    n ≤ byteLen text := by
  obtain ⟨before, after, rfl, rfl⟩ := isCharBoundary_iff.1 h
  simp

theorem NonWhite.lt_byteLen {text : List Char} {n : ℕ} (h : NonWhite text n) : n < byteLen text := by
  obtain ⟨before, c, after, rfl, -, -, hlt⟩ := h
  rw [byteLen_append, byteLen_cons]
  omega

/-- **Slicing reads the text of the range.** -/
theorem slice_eq_some_iff {text content : List Char} {start stop : ℕ} :
    slice text start stop = some content ↔ IsText text start stop content := by
  unfold slice IsText
  constructor
  · intro h
    split at h
    · obtain ⟨rest, hdrop, htake⟩ := Option.bind_eq_some_iff.1 h
      obtain ⟨before, rfl, hbefore⟩ := dropBytes_eq_some_iff.1 hdrop
      obtain ⟨after, rfl, hcontent⟩ := takeBytes_eq_some_iff.1 htake
      exact ⟨before, after, by rw [List.append_assoc], hbefore, by omega⟩
    · cases h
  · rintro ⟨before, after, rfl, hbefore, hstop⟩
    rw [if_pos (by omega), Option.bind_eq_some_iff]
    refine ⟨content ++ after, dropBytes_eq_some_iff.2 ⟨before, by rw [List.append_assoc], hbefore⟩,
      takeBytes_eq_some_iff.2 ⟨after, rfl, by omega⟩⟩

namespace IsText

variable {text content : List Char} {start stop : ℕ}

theorem le (h : IsText text start stop content) : start ≤ stop := by
  obtain ⟨_, _, _, _, hstop⟩ := h
  omega

theorem byteLen_eq (h : IsText text start stop content) : byteLen content = stop - start := by
  obtain ⟨_, _, _, _, hstop⟩ := h
  omega

theorem start_boundary (h : IsText text start stop content) : isCharBoundary text start = true := by
  obtain ⟨before, after, htext, hstart, -⟩ := h
  exact isCharBoundary_iff.2 ⟨before, content ++ after, by rw [htext, List.append_assoc], hstart⟩

theorem stop_boundary (h : IsText text start stop content) : isCharBoundary text stop = true := by
  obtain ⟨before, after, htext, hstart, hstop⟩ := h
  exact isCharBoundary_iff.2 ⟨before ++ content, after, htext, by rw [byteLen_append]; omega⟩

end IsText

/-- The empty text at a boundary. -/
theorem isText_nil {text : List Char} {n : ℕ} (h : isCharBoundary text n = true) :
    IsText text n n [] := by
  obtain ⟨before, after, htext, hlen⟩ := isCharBoundary_iff.1 h
  exact ⟨before, after, by rw [List.append_nil, htext], hlen, rfl⟩

/-- **Between two boundaries there is a text.** -/
theorem exists_isText {text : List Char} {start stop : ℕ} (hstart : isCharBoundary text start = true)
    (hstop : isCharBoundary text stop = true) (hle : start ≤ stop) :
    ∃ content, IsText text start stop content := by
  obtain ⟨before, rest, htext, hbefore⟩ := isCharBoundary_iff.1 hstart
  obtain ⟨upTo, after, htext', hupTo⟩ := isCharBoundary_iff.1 hstop
  obtain ⟨mid, hmid, hrest⟩ | ⟨mid, hmid, hrest⟩ := List.append_eq_append_iff.1 (htext ▸ htext')
  · refine ⟨mid, before, after, by rw [htext, hrest, List.append_assoc], hbefore, ?_⟩
    rw [hmid, byteLen_append] at hupTo
    omega
  · rw [hmid, byteLen_append] at hbefore
    have hzero : byteLen mid = 0 := by omega
    refine ⟨[], before, rest, by rw [List.append_nil, htext], hmid ▸ by simpa using hbefore, ?_⟩
    simp
    omega

/-- The next boundary is not far. -/
theorem exists_boundary_after {text : List Char} {n : ℕ} (h : isCharBoundary text n = true)
    (hlt : n < byteLen text) : ∃ m, n < m ∧ m ≤ n + 4 ∧ isCharBoundary text m = true := by
  obtain ⟨before, after, rfl, rfl⟩ := isCharBoundary_iff.1 h
  cases after with
  | nil => simp at hlt
  | cons c after =>
    refine ⟨byteLen before + c.utf8Size, ?_, ?_, isCharBoundary_iff.2 ⟨before ++ [c], after, by simp, by simp⟩⟩
    · have := c.utf8Size_pos
      omega
    · have := c.utf8Size_le_four
      omega

end Clinch.ByteText
