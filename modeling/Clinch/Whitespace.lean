import Mathlib

/-!
# White space

`char::is_whitespace`, `str::trim` and `str::split_whitespace`, on the characters of a string.
-/

set_option autoImplicit false

namespace Clinch

/-- `char::is_whitespace`. -/
def isWhitespace (c : Char) : Bool :=
  decide (9 ≤ c.toNat ∧ c.toNat ≤ 13) || decide (0x2000 ≤ c.toNat ∧ c.toNat ≤ 0x200a) ||
    [0x20, 0x85, 0xa0, 0x1680, 0x2028, 0x2029, 0x202f, 0x205f, 0x3000].contains c.toNat

theorem isWhitespace_of_isAlphanum {c : Char} (h : c.isAlphanum = true) : isWhitespace c = false := by
  simp only [Char.isAlphanum, Char.isAlpha, Char.isUpper, Char.isLower, Char.isDigit,
    Bool.or_eq_true, Bool.and_eq_true, decide_eq_true_eq, ge_iff_le, UInt32.le_iff_toNat_le] at h
  have hbounds : 48 ≤ c.toNat ∧ c.toNat ≤ 122 := by
    have h0 : '0'.val.toNat = 48 := rfl
    have h9 : '9'.val.toNat = 57 := rfl
    have hA : 'A'.val.toNat = 65 := rfl
    have hZ : 'Z'.val.toNat = 90 := rfl
    have ha : 'a'.val.toNat = 97 := rfl
    have hz : 'z'.val.toNat = 122 := rfl
    have hc : c.toNat = c.val.toNat := rfl
    omega
  simp [isWhitespace]
  omega

theorem isWhitespace_of_all {text : List Char} (h : text.all (fun c => !isWhitespace c) = true) :
    ∀ c ∈ text, isWhitespace c = false := by simpa using h

/-- `str::trim_end`. -/
def trimEndChars (text : List Char) : List Char := (text.reverse.dropWhile isWhitespace).reverse

/-- `str::trim`. -/
def trimChars (text : List Char) : List Char := trimEndChars (text.dropWhile isWhitespace)

theorem dropWhile_of_head? {α : Type} {p : α → Bool} {l : List α}
    (h : ∀ a, l.head? = some a → p a = false) : l.dropWhile p = l := by
  cases l with
  | nil => rfl
  | cons a l => rw [List.dropWhile_cons_of_neg (by rw [h a rfl]; decide)]

theorem head?_dropWhile {α : Type} (p : α → Bool) (l : List α) :
    ∀ a, (l.dropWhile p).head? = some a → p a = false := by
  intro a h
  have hnot := List.head?_dropWhile_not p l
  rw [h] at hnot
  exact hnot

theorem trimEndChars_of_getLast? {text : List Char}
    (h : ∀ c, text.getLast? = some c → isWhitespace c = false) : trimEndChars text = text := by
  unfold trimEndChars
  rw [dropWhile_of_head? (by rwa [List.head?_reverse]), List.reverse_reverse]

theorem trimEndChars_prefix (text : List Char) : trimEndChars text <+: text := by
  rw [← List.reverse_suffix]
  unfold trimEndChars
  rw [List.reverse_reverse]
  exact List.dropWhile_suffix _

/-- What is trimmed has no white space at its ends. -/
theorem head?_trimChars (text : List Char) :
    ∀ c, (trimChars text).head? = some c → isWhitespace c = false := by
  intro c h
  obtain ⟨rest, hrest⟩ := trimEndChars_prefix (text.dropWhile isWhitespace)
  refine head?_dropWhile isWhitespace text c ?_
  rw [← hrest]
  unfold trimChars at h
  rw [List.head?_append, h]
  rfl

theorem getLast?_trimEndChars (text : List Char) :
    ∀ c, (trimEndChars text).getLast? = some c → isWhitespace c = false := by
  intro c h
  unfold trimEndChars at h
  rw [List.getLast?_reverse] at h
  exact head?_dropWhile isWhitespace _ c h

theorem trimChars_of_ends {text : List Char} (hhead : ∀ c, text.head? = some c → isWhitespace c = false)
    (hlast : ∀ c, text.getLast? = some c → isWhitespace c = false) : trimChars text = text := by
  unfold trimChars
  rw [dropWhile_of_head? hhead, trimEndChars_of_getLast? hlast]

@[simp] theorem trimChars_trimChars (text : List Char) : trimChars (trimChars text) = trimChars text :=
  trimChars_of_ends (head?_trimChars text) (getLast?_trimEndChars _)

/-! ## Words between white space -/

/-- `str::split_whitespace`. -/
def splitWhitespace (text : List Char) : List (List Char) :=
  (text.splitOnP isWhitespace).filter (· ≠ [])

@[simp] theorem splitWhitespace_nil : splitWhitespace [] = [] := by
  simp [splitWhitespace, List.splitOnP_nil]

theorem ne_nil_of_mem_splitWhitespace {text word : List Char} (h : word ∈ splitWhitespace text) :
    word ≠ [] := by simpa using (List.mem_filter.1 h).2

/-- White space separates. -/
theorem splitWhitespace_append_cons {c : Char} (hc : isWhitespace c = true) (text rest : List Char) :
    splitWhitespace (text ++ c :: rest) = splitWhitespace text ++ splitWhitespace rest := by
  unfold splitWhitespace
  rw [List.splitOnP_append_cons text rest hc, List.filter_append]

theorem splitWhitespace_gap {gap : List Char} (h : ∀ c ∈ gap, isWhitespace c = true)
    (rest : List Char) : splitWhitespace (gap ++ rest) = splitWhitespace rest := by
  induction gap with
  | nil => rfl
  | cons c gap ih =>
    have hsplit := splitWhitespace_append_cons (h c List.mem_cons_self) [] (gap ++ rest)
    rw [List.nil_append, splitWhitespace_nil, List.nil_append] at hsplit
    rw [List.cons_append, hsplit, ih fun d hd => h d (List.mem_cons_of_mem c hd)]

theorem splitWhitespace_word {word : List Char} (hne : word ≠ [])
    (h : ∀ c ∈ word, isWhitespace c = false) : splitWhitespace word = [word] := by
  unfold splitWhitespace
  rw [List.splitOnP_eq_singleton fun c hc => by simp [h c hc]]
  simp [hne]

/-- A text, and what follows it after white space or not at all. -/
theorem splitWhitespace_append {rest : List Char}
    (h : ∀ c, rest.head? = some c → isWhitespace c = true) (text : List Char) :
    splitWhitespace (text ++ rest) = splitWhitespace text ++ splitWhitespace rest := by
  cases rest with
  | nil => simp
  | cons c rest =>
    have hc := h c rfl
    have hrest := @splitWhitespace_gap [c] (by simpa using hc) rest
    rw [splitWhitespace_append_cons hc, ← hrest]
    rfl

end Clinch
