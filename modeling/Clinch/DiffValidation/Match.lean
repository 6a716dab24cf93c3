import Clinch.Lines
import Clinch.Rust
import Clinch.Whitespace

/-!
# Matching a search block against a file

`score_matches` and `match_diff` in `crates/ai/src/diff_validation/mod.rs`. A score is a rational
number; `jaro_winkler` of the `strsim` crate is a parameter.

* `lines`, `Scorer`, `exactMatch`, `indentationAgnosticMatch`, `jaroWinklerScorer`;
* `Match`, `scoreMatches`, `LineRange`, `matchDiff`;
* **`matchDiff_exact`**: the exact scorer finds where the lines of the search text first occur.
-/

set_option autoImplicit false

namespace Clinch.DiffValidation

/-- `lines`: the empty string has one line. -/
def lines (s : List Char) : List (List Char) := if s = [] then strLines ['\n'] else strLines s

/-- `str::trim_start`. -/
def trimStartChars (s : List Char) : List Char := s.dropWhile isWhitespace

/-- `Scorer::score` of the scorer for a search text. -/
abbrev Scorer := List Char → List (List Char) → ℚ

/-- `ExactMatch`. -/
def exactMatch : Scorer := fun searchText targetLines =>
  if targetLines = lines searchText then 1 else 0

/-- `IndentationAgnosticMatch`; the window has as many lines as the search text. -/
def indentationAgnosticMatch : Scorer := fun searchText targetLines =>
  if (targetLines.map trimStartChars).zip ((lines searchText).map trimStartChars)
      |>.all fun (a, b) => a = b then 1 else 0

/-- `JaroWinklerScorer`. -/
def jaroWinklerScorer (jaroWinkler : List Char → List Char → ℚ) : Scorer :=
  fun searchText targetLines =>
    jaroWinkler (joinLines ((lines searchText).map trimStartChars))
      (joinLines (targetLines.map trimStartChars))

/-- `Match`, with lines counted from 1. -/
structure Match where
  startLine : ℕ
  endLine : ℕ
  similarity : ℚ

/-- `Range<usize>` of lines. -/
structure LineRange where
  start : ℕ
  stop : ℕ
deriving DecidableEq

/-- `usize::abs_diff`. -/
def absDiff (a b : ℕ) : ℕ := (a - b) + (b - a)

/-- Whether the sort of `score_matches` may leave `a` before `b`: the greater similarity is first,
and then the start that is closer to the expected one. -/
def Match.mayPrecede (expectedRange : Option LineRange) (a b : Match) : Bool :=
  if a.similarity = b.similarity then
    match expectedRange with
    | some range => decide (absDiff a.startLine range.start ≤ absDiff b.startLine range.start)
    | none => true
  else decide (b.similarity < a.similarity)

/-- `score_matches`. -/
def scoreMatches (targetLines : List (List Char)) (searchWindowLines : ℕ) (threshold : ℚ)
    (expectedRange : Option LineRange) (score : List (List Char) → ℚ) : List Match :=
  if searchWindowLines = 0 ∨ searchWindowLines > targetLines.length then []
  else
    let windows := (List.range (targetLines.length - searchWindowLines + 1)).map fun i =>
      Match.mk (i + 1) (i + searchWindowLines + 1)
        (score ((targetLines.drop i).take searchWindowLines))
    (windows.filter fun m => decide (threshold ≤ m.similarity)).mergeSort
      (Match.mayPrecede expectedRange)

/-- `match_diff`. -/
def matchDiff (search : List Char) (lineRange : Option LineRange) (fileContent : List (List Char))
    (threshold : ℚ) (scorer : Scorer) : Result (Option LineRange) := do
  let searchLength := (lines search).length
  let local? ← match lineRange with
    | none => pure none
    | some range =>
      let searchStart := range.start - 2
      let searchEnd := min (range.stop + 2) fileContent.length
      if searchStart ≤ searchEnd then do
        let localLines ← sliceRange fileContent searchStart searchEnd
        let localRange := LineRange.mk (← checkedSub range.start searchStart)
          (← checkedSub range.stop searchStart)
        pure <| (scoreMatches localLines searchLength threshold (some localRange)
          (scorer search)).head?.map fun m =>
            LineRange.mk (m.startLine + searchStart) (m.endLine + searchStart)
      else pure none
  match local? with
  | some range => return some range
  | none =>
    return (scoreMatches fileContent searchLength threshold lineRange (scorer search)).head?.map
      fun m => LineRange.mk m.startLine m.endLine

/-! ## The exact scorer -/

/-- Matches of one similarity stay in the order of the file. -/
theorem mergeSort_eq_self {v : ℚ} {ms : List Match} (h : ∀ m ∈ ms, m.similarity = v) :
    ms.mergeSort (Match.mayPrecede none) = ms := by
  refine List.mergeSort_of_pairwise ?_
  refine List.pairwise_of_forall_mem_list fun a ha b hb => ?_
  rw [Match.mayPrecede, if_pos ((h a ha).trans (h b hb).symm)]

/-- It is enough to look where the pattern fits. -/
theorem find?_range_eq_firstOccurrence {α : Type} [DecidableEq α] {pattern xs : List α}
    (hlen : pattern.length ≤ xs.length) :
    (List.range (xs.length - pattern.length + 1)).find? (fun i => decide (pattern <+: xs.drop i)) =
      firstOccurrence pattern xs := by
  have hfits : ∀ {k : ℕ}, pattern <+: xs.drop k → k ≤ xs.length →
      k < xs.length - pattern.length + 1 := by
    intro k hk hle
    have := hk.length_le
    rw [List.length_drop] at this
    omega
  cases h : firstOccurrence pattern xs with
  | none =>
    rw [firstOccurrence_eq_none] at h
    rw [List.find?_eq_none]
    intro k hk
    simpa using h k (by rw [List.mem_range] at hk; omega)
  | some j =>
    rw [firstOccurrence_eq_some] at h
    rw [List.find?_range_eq_some]
    refine ⟨by simpa using h.1, List.mem_range.mpr (hfits h.1 h.2.1), fun k hk => ?_⟩
    simpa using h.2.2 k hk

/-- **The best exact match is the first one.** -/
theorem head?_scoreMatches_exact {search : List Char} {fileContent : List (List Char)}
    (hne : lines search ≠ []) :
    (scoreMatches fileContent (lines search).length 1 none (exactMatch search)).head? =
      (firstOccurrence (lines search) fileContent).map fun i =>
        ⟨i + 1, i + (lines search).length + 1, 1⟩ := by
  have hpos : (lines search).length ≠ 0 := by simpa using hne
  rw [scoreMatches]
  by_cases hlen : (lines search).length > fileContent.length
  · rw [if_pos (Or.inr hlen)]
    have hnone : firstOccurrence (lines search) fileContent = none := by
      refine firstOccurrence_eq_none.mpr fun k _ hk => ?_
      have := hk.length_le
      rw [List.length_drop] at this
      omega
    rw [hnone]
    rfl
  · rw [if_neg (not_or.mpr ⟨hpos, hlen⟩)]
    have hscore : ∀ i, exactMatch search ((fileContent.drop i).take (lines search).length) =
        if lines search <+: fileContent.drop i then 1 else 0 := by
      intro i
      simp only [exactMatch, List.prefix_iff_eq_take, eq_comm]
    have hkept : ∀ i, (1 : ℚ) ≤ (if lines search <+: fileContent.drop i then 1 else 0) ↔
        lines search <+: fileContent.drop i := by
      intro i
      split <;> simp_all
    have hsame : ∀ m ∈ ((List.range (fileContent.length - (lines search).length + 1)).filter
        fun i => decide (lines search <+: fileContent.drop i)).map fun i => Match.mk (i + 1)
          (i + (lines search).length + 1) (if lines search <+: fileContent.drop i then 1 else 0),
        m.similarity = 1 := by
      intro m hm
      obtain ⟨i, hi, rfl⟩ := List.mem_map.mp hm
      exact if_pos (by simpa using (List.mem_filter.mp hi).2)
    simp only [List.filter_map, Function.comp_def, hscore, hkept]
    rw [mergeSort_eq_self hsame, List.head?_map, List.head?_filter,
      find?_range_eq_firstOccurrence (not_lt.mp hlen)]
    cases h : firstOccurrence (lines search) fileContent with
    | none => rfl
    | some j => simp [(firstOccurrence_eq_some.mp h).1]

/-- **The exact scorer finds the first occurrence of the lines of the search text.** -/
theorem matchDiff_exact {search : List Char} {fileContent : List (List Char)}
    (hne : lines search ≠ []) :
    matchDiff search none fileContent 1 exactMatch =
      .ok ((firstOccurrence (lines search) fileContent).map fun i =>
        ⟨i + 1, i + (lines search).length + 1⟩) := by
  rw [matchDiff]
  simp only [pure_bind, head?_scoreMatches_exact hne, Option.map_map]
  rfl

end Clinch.DiffValidation
