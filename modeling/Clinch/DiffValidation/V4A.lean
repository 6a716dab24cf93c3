import Clinch.DiffValidation.Match

/-!
# V4A hunks

`fuzzy_match_v4a_diffs` in `crates/ai/src/diff_validation/mod.rs`, for one hunk: how the place of an
edit is found from the lines around it.

* `V4AHunk`, `DiffDelta`, `findChangeContextStart`, `findV4aMatch`, `v4aDelta`;
* `V4AHunk.ReplacesFirst`: the delta replaces the old lines where the hunk first occurs;
* `V4AHunk.Resplits`: joining the lines of the hunk and splitting the text again does not move its
  first occurrence;
* **`replacesFirst_of_resplits`**, `blank_last_line_moves_delta`.
-/

set_option autoImplicit false

namespace Clinch.DiffValidation

/-- `V4AHunk`. -/
structure V4AHunk where
  changeContext : List (List Char)
  preContext : List Char
  old : List Char
  new : List Char
  postContext : List Char

/-- `DiffDelta`. -/
structure DiffDelta where
  replacementLineRange : LineRange
  insertion : List Char
deriving DecidableEq

/-- What a delta says: the lines of the range, which are counted from 1, make place for those of the
insertion. -/
def DiffDelta.apply (delta : DiffDelta) (fileLines : List (List Char)) : List (List Char) :=
  fileLines.take (delta.replacementLineRange.start - 1) ++ strLines delta.insertion ++
    fileLines.drop (delta.replacementLineRange.stop - 1)

/-- The loop of `find_change_context_start`; a slice from `currentPos` on never is out of bounds. -/
def findChangeContextFrom (fileLines : List (List Char)) (currentPos : ℕ) :
    List (List Char) → Option ℕ
  | [] => some currentPos
  | marker :: markers =>
    if marker = [] then findChangeContextFrom fileLines currentPos markers
    else
      match (fileLines.drop currentPos).findIdx? fun line =>
          (trimChars marker).isPrefixOf (trimStartChars line) with
      | none => none
      | some relativeMatch =>
        findChangeContextFrom fileLines (currentPos + relativeMatch + 1) markers

/-- `find_change_context_start`. -/
def findChangeContextStart (changeContext fileLines : List (List Char)) : Option ℕ :=
  findChangeContextFrom fileLines 0 changeContext

/-- `calculate_old_range`. -/
def calculateOldRange (searchStart : ℕ) (matchedRange : LineRange)
    (preContextLines oldLines : List (List Char)) : Result (Option LineRange) := do
  let oldStart := (← checkedSub (searchStart + matchedRange.start) 1) + preContextLines.length
  return some ⟨oldStart + 1, oldStart + oldLines.length + 1⟩

namespace V4AHunk

/-- The lines that a hunk expects in the file. -/
def pattern (edit : V4AHunk) : List (List Char) :=
  strLines edit.preContext ++ strLines edit.old ++ strLines edit.postContext

/-- The position selected by the markers. -/
def searchStart (edit : V4AHunk) (fileLines : List (List Char)) : Option ℕ :=
  if edit.changeContext.isEmpty then some 0
  else findChangeContextStart edit.changeContext fileLines

end V4AHunk

/-- `find_v4a_match`. -/
def findV4aMatch (jaroWinkler : List Char → List Char → ℚ) (sectionMatchThreshold : ℚ)
    (edit : V4AHunk) (fileLines : List (List Char)) : Result (Option LineRange) := do
  let preContextLines := strLines edit.preContext
  let oldLines := strLines edit.old
  let postContextLines := strLines edit.postContext
  match edit.searchStart fileLines with
  | none => return none
  | some searchStart =>
    let searchLines ← sliceRange fileLines searchStart fileLines.length
    let patternLength := preContextLines.length + oldLines.length + postContextLines.length
    if patternLength = 0 then return some ⟨searchStart + 1, searchStart + 1⟩
    else if patternLength > searchLines.length then return none
    else
      let combinedSearch := joinLines (preContextLines ++ oldLines ++ postContextLines)
      match ← matchDiff combinedSearch none searchLines 1 exactMatch with
      | some range => calculateOldRange searchStart range preContextLines oldLines
      | none =>
      match ← matchDiff combinedSearch none searchLines 1 indentationAgnosticMatch with
      | some range => calculateOldRange searchStart range preContextLines oldLines
      | none =>
      match ← matchDiff combinedSearch none searchLines sectionMatchThreshold
          (jaroWinklerScorer jaroWinkler) with
      | some range => calculateOldRange searchStart range preContextLines oldLines
      | none => return none

/-- The delta of one hunk in `fuzzy_match_v4a_diffs`; there is none for a hunk that changes
nothing. -/
def v4aDelta (jaroWinkler : List Char → List Char → ℚ) (sectionMatchThreshold : ℚ)
    (diff : V4AHunk) (fileLines : List (List Char)) : Result (Option DiffDelta) := do
  if diff.old = diff.new then return none
  else
    match ← findV4aMatch jaroWinkler sectionMatchThreshold diff fileLines with
    | none => return none
    | some range =>
      let matchedLines ←
        sliceRange fileLines (← checkedSub range.start 1) (← checkedSub range.stop 1)
      if diff.new = joinLines matchedLines then return none
      else return some ⟨range, diff.new⟩

/-! ## The position selected by the markers -/

theorem findChangeContextFrom_le {fileLines : List (List Char)} {markers : List (List Char)}
    {currentPos start : ℕ} (hpos : currentPos ≤ fileLines.length)
    (h : findChangeContextFrom fileLines currentPos markers = some start) :
    start ≤ fileLines.length := by
  induction markers generalizing currentPos with
  | nil =>
    rw [findChangeContextFrom] at h
    exact Option.some.inj h ▸ hpos
  | cons marker markers ih =>
    rw [findChangeContextFrom] at h
    split at h
    · exact ih hpos h
    · split at h
      · nomatch h
      · rename_i relativeMatch hfind
        obtain ⟨hlt, -⟩ := List.findIdx?_eq_some_iff_getElem.mp hfind
        rw [List.length_drop] at hlt
        exact ih (by omega) h

theorem V4AHunk.searchStart_le {edit : V4AHunk} {fileLines : List (List Char)} {start : ℕ}
    (h : edit.searchStart fileLines = some start) : start ≤ fileLines.length := by
  rw [V4AHunk.searchStart] at h
  split at h
  · exact Option.some.inj h ▸ Nat.zero_le _
  · exact findChangeContextFrom_le (Nat.zero_le _) h

/-! ## Joining the lines of the hunk and splitting the text again -/

theorem lines_joinLines {ls : List (List Char)} {last : List Char}
    (hls : ∀ line ∈ ls, '\n' ∉ line) (hlast : '\n' ∉ last) :
    lines (joinLines (ls ++ [last])) =
      if ls = [] then [last] else ls.map stripCr ++ if last = [] then [] else [last] := by
  unfold lines
  cases ls with
  | nil =>
    rw [List.nil_append, joinLines_singleton, if_pos rfl]
    split
    · rename_i h
      rw [h]
      rfl
    · rename_i h
      rw [strLines, strLinesFrom_last hlast, List.nil_append, if_neg h]
  | cons line ls =>
    rw [if_neg (List.cons_ne_nil _ _), strLines_joinLines hls hlast, if_neg]
    intro hnil
    have hlen := congrArg List.length hnil
    cases ls with
    | nil => simp [joinLines_cons] at hlen
    | cons line' ls => simp [joinLines_cons] at hlen

theorem V4AHunk.not_mem_pattern (edit : V4AHunk) : ∀ line ∈ edit.pattern, '\n' ∉ line := by
  intro line hline
  rw [V4AHunk.pattern, List.mem_append, List.mem_append] at hline
  rcases hline with (h | h) | h <;> exact not_mem_of_mem_strLines h

theorem V4AHunk.lines_pattern_ne_nil {edit : V4AHunk} (hne : edit.pattern ≠ []) :
    lines (joinLines edit.pattern) ≠ [] := by
  have hnot := edit.not_mem_pattern
  obtain ⟨ls, last, heq⟩ := (List.eq_nil_or_concat' edit.pattern).resolve_left hne
  rw [heq] at hnot ⊢
  rw [lines_joinLines (fun l hl => hnot l (List.mem_append_left _ hl)) (hnot last (by simp))]
  split
  · simp
  · simp [*]

/-- Without a carriage return at the end of a line, only a blank last line can be lost. -/
theorem V4AHunk.lines_pattern_prefix {edit : V4AHunk} (hne : edit.pattern ≠ [])
    (hcr : ∀ line ∈ edit.pattern.dropLast, line.getLast? ≠ some '\r') :
    lines (joinLines edit.pattern) <+: edit.pattern := by
  have hnot := edit.not_mem_pattern
  obtain ⟨ls, last, heq⟩ := (List.eq_nil_or_concat' edit.pattern).resolve_left hne
  rw [heq] at hnot hcr ⊢
  rw [List.dropLast_concat] at hcr
  rw [lines_joinLines (fun l hl => hnot l (List.mem_append_left _ hl)) (hnot last (by simp)),
    List.map_congr_left fun l hl => stripCr_eq (hcr l hl), List.map_id']
  split
  · rename_i hnil
    rw [hnil]
    exact List.prefix_refl _
  · split
    · rw [List.append_nil]
      exact List.prefix_append _ _
    · exact List.prefix_refl _

/-! ## Where the delta is -/

/-- The range of the old lines, if the lines of the hunk are found `before` lines into the file. -/
def V4AHunk.oldRange (edit : V4AHunk) (before : ℕ) : LineRange :=
  ⟨before + (strLines edit.preContext).length + 1,
    before + (strLines edit.preContext).length + (strLines edit.old).length + 1⟩

/-- Whether the hunk changes nothing where it is found. -/
def V4AHunk.Noop (edit : V4AHunk) : Prop :=
  edit.old = edit.new ∨ edit.new = joinLines (strLines edit.old)

instance (edit : V4AHunk) : Decidable edit.Noop := inferInstanceAs (Decidable (_ ∨ _))

section Find

variable (jaroWinkler : List Char → List Char → ℚ) (sectionMatchThreshold : ℚ)

/-- **The delta replaces exactly the old lines where the hunk first occurs, from `start` on.** -/
def V4AHunk.ReplacesFirst (edit : V4AHunk) (fileLines : List (List Char)) (start : ℕ) : Prop :=
  ∃ before after, fileLines = before ++ edit.pattern ++ after ∧ start ≤ before.length ∧
    (∀ k, start ≤ k → k < before.length → ¬ edit.pattern <+: fileLines.drop k) ∧
    findV4aMatch jaroWinkler sectionMatchThreshold edit fileLines =
      .ok (some (edit.oldRange before.length)) ∧
    v4aDelta jaroWinkler sectionMatchThreshold edit fileLines =
      .ok (if edit.Noop then none else some ⟨edit.oldRange before.length, edit.new⟩) ∧
    DiffDelta.apply ⟨edit.oldRange before.length, edit.new⟩ fileLines =
      before ++ strLines edit.preContext ++ strLines edit.new ++ strLines edit.postContext ++ after

/-- **Joining the lines of the hunk and splitting the text again does not move its first
occurrence.** -/
def V4AHunk.Resplits (edit : V4AHunk) (fileLines : List (List Char)) (start : ℕ) : Prop :=
  edit.pattern = [] ∨ firstOccurrence (lines (joinLines edit.pattern)) (fileLines.drop start) =
    firstOccurrence edit.pattern (fileLines.drop start)

variable {edit : V4AHunk} {fileLines : List (List Char)} {start j : ℕ}

theorem sliceRange_drop (hstart : start ≤ fileLines.length) :
    sliceRange fileLines start fileLines.length = .ok (fileLines.drop start) := by
  rw [sliceRange, if_pos ⟨hstart, le_rfl⟩, List.take_length]

/-- Where the lines of the joined hunk first occur. -/
theorem findV4aMatch_eq (hstart : edit.searchStart fileLines = some start)
    (hne : edit.pattern ≠ []) (hlen : edit.pattern.length ≤ (fileLines.drop start).length)
    (hj : firstOccurrence (lines (joinLines edit.pattern)) (fileLines.drop start) = some j) :
    findV4aMatch jaroWinkler sectionMatchThreshold edit fileLines =
      .ok (some (edit.oldRange (start + j))) := by
  have hpattern : (strLines edit.preContext).length + (strLines edit.old).length +
      (strLines edit.postContext).length = edit.pattern.length := by
    rw [V4AHunk.pattern, List.length_append, List.length_append]
  rw [findV4aMatch, hstart]
  simp only [hpattern]
  rw [sliceRange_drop (V4AHunk.searchStart_le hstart), ok_bind, if_neg (by simpa using hne),
    if_neg (not_lt.mpr hlen)]
  have hmatch := @matchDiff_exact _ (fileLines.drop start) (V4AHunk.lines_pattern_ne_nil hne)
  rw [hj] at hmatch
  change (matchDiff (joinLines edit.pattern) none (fileLines.drop start) 1 exactMatch >>= _) = _
  rw [hmatch, ok_bind]
  simp only [Option.map_some, calculateOldRange]
  rw [checkedSub_ok (by omega), ok_bind]
  simp only [V4AHunk.oldRange]
  have h1 : start + (j + 1) - 1 = start + j := by omega
  rw [h1]
  rfl

/-- An empty hunk inserts at the selected position. -/
theorem findV4aMatch_nil (hstart : edit.searchStart fileLines = some start)
    (hnil : edit.pattern = []) :
    findV4aMatch jaroWinkler sectionMatchThreshold edit fileLines =
      .ok (some (edit.oldRange start)) := by
  rw [V4AHunk.pattern, List.append_eq_nil_iff, List.append_eq_nil_iff] at hnil
  obtain ⟨⟨hpre, hold⟩, hpost⟩ := hnil
  rw [findV4aMatch, hstart]
  simp only [hpre, hold, hpost]
  rw [sliceRange_drop (V4AHunk.searchStart_le hstart), ok_bind, if_pos (by rfl), V4AHunk.oldRange,
    hpre, hold]
  rfl

/-- The slice of a file around which the other lines are known. -/
theorem sliceRange_middle (before middle after : List (List Char)) :
    sliceRange (before ++ middle ++ after) before.length (before.length + middle.length) =
      .ok middle := by
  rw [sliceRange, if_pos (by simp), ← List.length_append, List.take_left, List.drop_left]

/-- The delta for a place of the old lines. -/
theorem v4aDelta_eq {before after : List (List Char)}
    (hfile : fileLines = before ++ edit.pattern ++ after)
    (hfind : findV4aMatch jaroWinkler sectionMatchThreshold edit fileLines =
      .ok (some (edit.oldRange before.length))) :
    v4aDelta jaroWinkler sectionMatchThreshold edit fileLines =
      .ok (if edit.Noop then none else some ⟨edit.oldRange before.length, edit.new⟩) := by
  have hslice : sliceRange fileLines (before.length + (strLines edit.preContext).length)
      (before.length + (strLines edit.preContext).length + (strLines edit.old).length) =
        .ok (strLines edit.old) := by
    have := sliceRange_middle (before ++ strLines edit.preContext) (strLines edit.old)
      (strLines edit.postContext ++ after)
    rw [List.length_append] at this
    rw [hfile, V4AHunk.pattern]
    simpa only [List.append_assoc] using this
  rw [v4aDelta]
  by_cases hsame : edit.old = edit.new
  · have hnoop : edit.Noop := Or.inl hsame
    rw [if_pos hsame, if_pos hnoop]
    rfl
  · rw [if_neg hsame, hfind, ok_bind]
    simp only [V4AHunk.oldRange]
    rw [checkedSub_ok (by omega), ok_bind, checkedSub_ok (by omega), ok_bind,
      Nat.add_sub_cancel, Nat.add_sub_cancel, hslice, ok_bind]
    by_cases hnew : edit.new = joinLines (strLines edit.old)
    · have hnoop : edit.Noop := Or.inr hnew
      rw [if_pos hnew, if_pos hnoop]
      rfl
    · have hchanges : ¬ edit.Noop := not_or.mpr ⟨hsame, hnew⟩
      rw [if_neg hnew, if_neg hchanges]
      rfl

/-- What the delta makes of the file. -/
theorem apply_oldRange {before after : List (List Char)}
    (hfile : fileLines = before ++ edit.pattern ++ after) :
    DiffDelta.apply ⟨edit.oldRange before.length, edit.new⟩ fileLines =
      before ++ strLines edit.preContext ++ strLines edit.new ++ strLines edit.postContext ++
        after := by
  have hold : before.length + (strLines edit.preContext).length + (strLines edit.old).length =
      (before ++ strLines edit.preContext ++ strLines edit.old).length := by
    rw [List.length_append, List.length_append]
  have htake : fileLines.take (before.length + (strLines edit.preContext).length) =
      before ++ strLines edit.preContext := by
    rw [hfile, V4AHunk.pattern, ← List.length_append]
    simp only [← List.append_assoc]
    rw [List.append_assoc _ (strLines edit.old), List.append_assoc _ _ after, List.take_left]
  have hdrop : fileLines.drop (before.length + (strLines edit.preContext).length +
      (strLines edit.old).length) = strLines edit.postContext ++ after := by
    rw [hfile, V4AHunk.pattern, hold]
    simp only [← List.append_assoc]
    rw [List.append_assoc _ _ after, List.drop_left]
  rw [DiffDelta.apply]
  simp only [V4AHunk.oldRange, Nat.add_sub_cancel, htake, hdrop, List.append_assoc]

/-- What follows from the place of the match. -/
theorem replacesFirst_of_find (hj : firstOccurrence edit.pattern (fileLines.drop start) = some j)
    (hstart : start ≤ fileLines.length)
    (hfind : findV4aMatch jaroWinkler sectionMatchThreshold edit fileLines =
      .ok (some (edit.oldRange (start + j)))) :
    edit.ReplacesFirst jaroWinkler sectionMatchThreshold fileLines start := by
  obtain ⟨hoccurs, hle, hfirst⟩ := firstOccurrence_eq_some.mp hj
  rw [List.drop_drop] at hoccurs
  rw [List.length_drop] at hle
  have hfile := eq_append_of_prefix_drop hoccurs
  have hbefore : (fileLines.take (start + j)).length = start + j := by
    rw [List.length_take]
    omega
  generalize fileLines.take (start + j) = before at hfile hbefore
  generalize fileLines.drop (start + j + edit.pattern.length) = after at hfile
  rw [← hbefore] at hfind
  refine ⟨before, after, hfile, by omega, fun k hk hlt => ?_, hfind, ?_, ?_⟩
  · have := hfirst (k - start) (by omega)
    rwa [List.drop_drop, Nat.add_sub_cancel' hk] at this
  · exact v4aDelta_eq jaroWinkler sectionMatchThreshold hfile hfind
  · exact apply_oldRange hfile

/-- **Where joining and splitting the lines of the hunk does not move its first occurrence, the
delta is right; and, if no line but the last ends in a carriage return, nowhere else.** -/
theorem replacesFirst_of_resplits (hstart : edit.searchStart fileLines = some start)
    (hocc : firstOccurrence edit.pattern (fileLines.drop start) ≠ none) :
    (edit.Resplits fileLines start →
      edit.ReplacesFirst jaroWinkler sectionMatchThreshold fileLines start) ∧
    ((∀ line ∈ edit.pattern.dropLast, line.getLast? ≠ some '\r') →
      edit.ReplacesFirst jaroWinkler sectionMatchThreshold fileLines start →
      edit.Resplits fileLines start) := by
  have hstartLe := V4AHunk.searchStart_le hstart
  by_cases hnil : edit.pattern = []
  · refine ⟨fun _ => ?_, fun _ _ => Or.inl hnil⟩
    have hzero : firstOccurrence edit.pattern (fileLines.drop start) = some 0 := by
      rw [hnil, firstOccurrence_eq_some]
      exact ⟨List.nil_prefix, Nat.zero_le _, fun k hk => absurd hk (Nat.not_lt_zero _)⟩
    exact replacesFirst_of_find _ _ hzero hstartLe (findV4aMatch_nil _ _ hstart hnil)
  obtain ⟨j, hj⟩ := Option.ne_none_iff_exists'.mp hocc
  obtain ⟨hoccurs, hle, hfirst⟩ := firstOccurrence_eq_some.mp hj
  have hlen : edit.pattern.length ≤ (fileLines.drop start).length := by
    have := hoccurs.length_le
    rw [List.length_drop] at this
    omega
  constructor
  · rintro (h | hsplit)
    · exact absurd h hnil
    · exact replacesFirst_of_find _ _ hj hstartLe
        (findV4aMatch_eq _ _ hstart hnil hlen (hsplit.trans hj))
  · rintro hcr ⟨before, after, hfile, hbefore, hnone, hfind, -⟩
    refine Or.inr ?_
    -- The lines of the joined hunk occur, at the latest where the hunk does.
    have hshort : firstOccurrence (lines (joinLines edit.pattern)) (fileLines.drop start) ≠ none :=
      fun h => firstOccurrence_eq_none.mp h j hle
        ((V4AHunk.lines_pattern_prefix hnil hcr).trans hoccurs)
    obtain ⟨j', hj'⟩ := Option.ne_none_iff_exists'.mp hshort
    have hrange := hfind.symm.trans (findV4aMatch_eq _ _ hstart hnil hlen hj')
    simp only [Except.ok.injEq, Option.some.injEq, V4AHunk.oldRange, LineRange.mk.injEq] at hrange
    have hj'eq : before.length = start + j' := by omega
    have hjeq : before.length = start + j := by
      rcases lt_trichotomy before.length (start + j) with hlt | heq | hgt
      · refine absurd ?_ (hfirst (before.length - start) (by omega))
        rw [List.drop_drop, Nat.add_sub_cancel' hbefore, hfile, List.append_assoc,
          List.drop_left]
        exact List.prefix_append _ _
      · exact heq
      · refine absurd ?_ (hnone (start + j) (by omega) hgt)
        rwa [← List.drop_drop]
    rw [hj', hj]
    congr 1
    omega

end Find

/-- A hunk found between its context lines. -/
theorem replacesFirst_between_contexts :
    V4AHunk.ReplacesFirst (fun _ _ => 0) (9 / 10) ⟨[], ['a'], ['x'], ['y'], ['b']⟩
      [['c'], ['a'], ['x'], ['b']] 0 :=
  (replacesFirst_of_resplits (fun _ _ => 0) (9 / 10) rfl (by decide)).1 (Or.inr (by decide))

/-- **A blank last line of the context moves the delta.** The file is `a`, `b`, `a` and a blank line;
the hunk replaces the `a` before the blank line, and the delta replaces the first one. -/
theorem blank_last_line_moves_delta :
    let edit : V4AHunk := ⟨[], [], ['a'], ['c'], ['\n']⟩
    let fileLines := strLines ['a', '\n', 'b', '\n', 'a', '\n', '\n']
    edit.pattern = [['a'], []] ∧ firstOccurrence edit.pattern fileLines = some 2 ∧
      findV4aMatch (fun _ _ => 0) (9 / 10) edit fileLines = .ok (some ⟨1, 2⟩) ∧
      ¬ edit.ReplacesFirst (fun _ _ => 0) (9 / 10) fileLines 0 := by
  have hfind : findV4aMatch (fun _ _ => 0) (9 / 10) ⟨[], [], ['a'], ['c'], ['\n']⟩
      (strLines ['a', '\n', 'b', '\n', 'a', '\n', '\n']) = .ok (some ⟨1, 2⟩) :=
    @findV4aMatch_eq (fun _ _ => 0) (9 / 10) ⟨[], [], ['a'], ['c'], ['\n']⟩
      (strLines ['a', '\n', 'b', '\n', 'a', '\n', '\n']) 0 0 rfl (by decide) (by decide) (by decide)
  refine ⟨by decide, by decide, hfind, ?_⟩
  rintro ⟨before, after, hfile, -, -, hmatch, -⟩
  have hrange := hfind.symm.trans hmatch
  simp only [Except.ok.injEq, Option.some.injEq, V4AHunk.oldRange, LineRange.mk.injEq] at hrange
  have hnil : before = [] := List.length_eq_zero_iff.mp (by omega)
  rw [hnil] at hfile
  simp [V4AHunk.pattern, strLines, strLinesFrom, stripCr] at hfile

end Clinch.DiffValidation
