import Mathlib

/-!
# The lines of a text

`str::lines` and joining with line feeds, on the characters of a string.

* `strLines`, `joinLines`;
* **`strLines_joinLines`**: joining lines and splitting the text again loses a blank last line, and
  the carriage return at the end of any other;
* `firstOccurrence`: where some lines first occur in others.
-/

set_option autoImplicit false

namespace Clinch

/-- A line without the carriage return before its line feed. -/
def stripCr (line : List Char) : List Char :=
  if line.getLast? = some '\r' then line.dropLast else line

/-- The lines of a text, of which the first begins with `line`. -/
def strLinesFrom (line : List Char) : List Char → List (List Char)
  | [] => if line = [] then [] else [line]
  | c :: text => if c = '\n' then stripCr line :: strLinesFrom [] text
    else strLinesFrom (line ++ [c]) text

/-- `str::lines`. -/
def strLines (text : List Char) : List (List Char) := strLinesFrom [] text

/-- `[..].join("\n")`. -/
def joinLines (lines : List (List Char)) : List Char := ['\n'].intercalate lines

theorem stripCr_eq {line : List Char} (h : line.getLast? ≠ some '\r') : stripCr line = line :=
  if_neg h

/-- A line that ends. -/
theorem strLinesFrom_newline {line : List Char} (h : '\n' ∉ line) (start text : List Char) :
    strLinesFrom start (line ++ '\n' :: text) = stripCr (start ++ line) :: strLines text := by
  induction line generalizing start with
  | nil => rw [List.nil_append, strLinesFrom, if_pos rfl, List.append_nil, strLines]
  | cons c line ih =>
    rw [List.mem_cons, not_or] at h
    rw [List.cons_append, strLinesFrom, if_neg (Ne.symm h.1), ih h.2, List.append_assoc,
      List.singleton_append]

/-- The last line. -/
theorem strLinesFrom_last {line : List Char} (h : '\n' ∉ line) (start : List Char) :
    strLinesFrom start line = if start ++ line = [] then [] else [start ++ line] := by
  induction line generalizing start with
  | nil => rw [strLinesFrom, List.append_nil]
  | cons c line ih =>
    rw [List.mem_cons, not_or] at h
    rw [strLinesFrom, if_neg (Ne.symm h.1), ih h.2, List.append_assoc, List.singleton_append]

theorem not_mem_stripCr {line : List Char} (h : '\n' ∉ line) : '\n' ∉ stripCr line := by
  unfold stripCr
  split
  · exact fun hmem => h (List.dropLast_subset _ hmem)
  · exact h

/-- No line holds a line feed. -/
theorem not_mem_of_mem_strLinesFrom {start text : List Char} (hstart : '\n' ∉ start) :
    ∀ line ∈ strLinesFrom start text, '\n' ∉ line := by
  induction text generalizing start with
  | nil =>
    rw [strLinesFrom]
    split
    · simp
    · simpa using hstart
  | cons c text ih =>
    rw [strLinesFrom]
    split
    · intro line hline
      rcases List.mem_cons.mp hline with rfl | hline
      · exact not_mem_stripCr hstart
      · exact ih List.not_mem_nil line hline
    · rename_i hc
      exact ih (by simpa [hstart] using Ne.symm hc)

theorem not_mem_of_mem_strLines {text line : List Char} (h : line ∈ strLines text) :
    '\n' ∉ line := not_mem_of_mem_strLinesFrom List.not_mem_nil line h

theorem joinLines_cons (line line' : List Char) (lines : List (List Char)) :
    joinLines (line :: line' :: lines) = line ++ '\n' :: joinLines (line' :: lines) := by
  simp [joinLines, List.intercalate]

@[simp] theorem joinLines_singleton (line : List Char) : joinLines [line] = line := by
  simp [joinLines, List.intercalate]

/-- **Joining lines and splitting the text again.** -/
theorem strLines_joinLines {lines : List (List Char)} {last : List Char}
    (hlines : ∀ line ∈ lines, '\n' ∉ line) (hlast : '\n' ∉ last) :
    strLines (joinLines (lines ++ [last])) =
      lines.map stripCr ++ if last = [] then [] else [last] := by
  induction lines with
  | nil =>
    rw [List.nil_append, joinLines_singleton, strLines, strLinesFrom_last hlast]
    rfl
  | cons line lines ih =>
    have hcons : joinLines (line :: lines ++ [last]) =
        line ++ '\n' :: joinLines (lines ++ [last]) := by
      cases lines with
      | nil => rw [List.nil_append, joinLines_singleton, List.cons_append, List.nil_append,
          joinLines_cons, joinLines_singleton]
      | cons line' lines => exact joinLines_cons _ _ _
    rw [hcons, strLines, strLinesFrom_newline (hlines line List.mem_cons_self),
      ih fun l hl => hlines l (List.mem_cons_of_mem _ hl)]
    rfl

/-! ## Where lines occur -/

section Occurrence

variable {α : Type} [DecidableEq α]

/-- The first position at which the pattern occurs. -/
def firstOccurrence (pattern xs : List α) : Option ℕ :=
  (List.range (xs.length + 1)).find? fun i => decide (pattern <+: xs.drop i)

theorem firstOccurrence_eq_some {pattern xs : List α} {j : ℕ} :
    firstOccurrence pattern xs = some j ↔
      pattern <+: xs.drop j ∧ j ≤ xs.length ∧ ∀ k < j, ¬ pattern <+: xs.drop k := by
  rw [firstOccurrence, List.find?_range_eq_some]
  simp only [decide_eq_true_eq, List.mem_range, Nat.lt_succ_iff, Bool.not_eq_true',
    decide_eq_false_iff_not]

theorem firstOccurrence_eq_none {pattern xs : List α} :
    firstOccurrence pattern xs = none ↔ ∀ k ≤ xs.length, ¬ pattern <+: xs.drop k := by
  rw [firstOccurrence, List.find?_eq_none]
  simp

omit [DecidableEq α] in
/-- The text around an occurrence. -/
theorem eq_append_of_prefix_drop {pattern xs : List α} {j : ℕ} (h : pattern <+: xs.drop j) :
    xs = xs.take j ++ pattern ++ xs.drop (j + pattern.length) := by
  obtain ⟨rest, hrest⟩ := h
  have hdrop : xs.drop (j + pattern.length) = rest := by
    rw [← List.drop_drop, ← hrest, List.drop_left]
  rw [hdrop, List.append_assoc, hrest, List.take_append_drop]

end Occurrence

end Clinch
