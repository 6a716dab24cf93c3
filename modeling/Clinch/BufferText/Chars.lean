import Clinch.BufferText.Text

/-!
# The characters of a text

What the queries of a text are, computed on its characters: the point after some of them, their
bytes, and the lengths of their lines. The sum over the runs of a text is the sum over runs of one
character each.

* `pointOf`, `byteLenOf`, `lineLens`;
* `charsSummary`, `charsSummary_append`: a monoid homomorphism, and its five values;
* `lineLens_append_newline`, `exists_take`: the lines, and the points inside them;
* `Run.Covers`, `Covers`, `runsFrom_covers`: the runs of a text cover its characters.
-/

set_option autoImplicit false

namespace Clinch.BufferText

/-- The point after one more character. -/
def Point.advance (p : Point) (ch : Char) : Point :=
  if ch = '\n' then ⟨p.row + 1, 0⟩ else ⟨p.row, p.column + 1⟩

/-- The point at the end of some characters. -/
def pointOf (cs : List Char) : Point := cs.foldl Point.advance 0

/-- The bytes of some characters. -/
def byteLenOf (cs : List Char) : ℕ := (cs.map Char.utf8Size).sum

/-- The lengths of the lines of some characters. -/
def lineLens (cs : List Char) : List ℕ := (cs.splitOn '\n').map List.length

/-! ## Lines -/

theorem lineLens_nil : lineLens [] = [0] := rfl

theorem lineLens_newline (cs : List Char) : lineLens ('\n' :: cs) = 0 :: lineLens cs := by
  unfold lineLens List.splitOn
  rw [List.splitOnP_cons_eq_if_modifyHead]
  simp

theorem lineLens_cons {ch : Char} (hch : ch ≠ '\n') (cs : List Char) :
    lineLens (ch :: cs) = (lineLens cs).modifyHead (· + 1) := by
  unfold lineLens List.splitOn
  rw [List.splitOnP_cons_eq_if_modifyHead, if_neg (by simpa using hch)]
  cases cs.splitOnP (· == '\n') <;> rfl

theorem lineLens_ne_nil (cs : List Char) : lineLens cs ≠ [] := by
  unfold lineLens List.splitOn
  simp

theorem lineLens_append_newline (xs zs : List Char) :
    lineLens (xs ++ '\n' :: zs) = lineLens xs ++ lineLens zs := by
  induction xs with
  | nil => exact lineLens_newline zs
  | cons ch xs ih =>
    rw [List.cons_append]
    by_cases hch : ch = '\n'
    · rw [hch, lineLens_newline, lineLens_newline, ih, List.cons_append]
    · rw [lineLens_cons hch, lineLens_cons hch, ih]
      obtain ⟨n, ns, hns⟩ := List.exists_cons_of_ne_nil (lineLens_ne_nil xs)
      rw [hns]
      rfl

theorem lineLens_of_notMem {cs : List Char} (hcs : '\n' ∉ cs) : lineLens cs = [cs.length] := by
  induction cs with
  | nil => rfl
  | cons ch cs ih =>
    rw [List.mem_cons, not_or] at hcs
    rw [lineLens_cons (Ne.symm hcs.1), ih hcs.2]
    rfl

/-- A newline ends the first line. -/
theorem exists_first_line {cs : List Char} (hcs : '\n' ∈ cs) :
    ∃ xs zs, cs = xs ++ '\n' :: zs ∧ '\n' ∉ xs := by
  obtain ⟨xs, zs, h, hxs⟩ := List.eq_append_cons_of_mem hcs
  exact ⟨xs, zs, h, hxs⟩

/-- The characters before the first newline. -/
def firstLine (cs : List Char) : List Char := cs.takeWhile (· ≠ '\n')

theorem firstLine_append {xs : List Char} (hxs : '\n' ∉ xs) (ys : List Char) :
    firstLine (xs ++ ys) = xs ++ firstLine ys := by
  unfold firstLine
  refine List.takeWhile_append_of_pos fun ch hch => ?_
  simp only [ne_eq, decide_not, Bool.not_eq_eq_eq_not, Bool.not_true, decide_eq_false_iff_not]
  rintro rfl
  exact hxs hch

theorem notMem_firstLine (cs : List Char) : '\n' ∉ firstLine cs := fun h => by
  simpa using List.mem_takeWhile_imp h

theorem exists_append_firstLine (cs : List Char) : ∃ rest, cs = firstLine cs ++ rest := by
  obtain ⟨rest, h⟩ := List.takeWhile_prefix (fun ch : Char => decide (ch ≠ '\n')) (l := cs)
  exact ⟨rest, h.symm⟩

theorem firstLine_newline (cs : List Char) : firstLine ('\n' :: cs) = [] := rfl

theorem firstLine_of_notMem {cs : List Char} (hcs : '\n' ∉ cs) : firstLine cs = cs := by
  simpa [show firstLine [] = [] from rfl] using firstLine_append hcs []

theorem lineLens_head (cs : List Char) : (lineLens cs).head? = some (firstLine cs).length := by
  by_cases hcs : '\n' ∈ cs
  · obtain ⟨xs, zs, rfl, hxs⟩ := exists_first_line hcs
    rw [lineLens_append_newline, lineLens_of_notMem hxs, firstLine_append hxs, firstLine_newline,
      List.append_nil]
    rfl
  · rw [lineLens_of_notMem hcs, firstLine_of_notMem hcs]
    rfl

/-! ## Sums over characters -/

/-- A run of one character. -/
def Run.ofChar (ch : Char) : Run := if ch = '\n' then .newline else .chars 1 ch.utf8Size

/-- The sum over runs of one character each. -/
def charsSummary (cs : List Char) : TextSummary := summaryOf (cs.map Run.ofChar)

theorem charsSummary_nil : charsSummary [] = 0 := rfl

theorem charsSummary_cons (ch : Char) (cs : List Char) :
    charsSummary (ch :: cs) = (Run.ofChar ch).textSummary + charsSummary cs := rfl

theorem charsSummary_append (xs ys : List Char) :
    charsSummary (xs ++ ys) = charsSummary xs + charsSummary ys := by
  unfold charsSummary
  rw [List.map_append, summaryOf_append]

theorem charsSummary_wellFormed (cs : List Char) : (charsSummary cs).WellFormed :=
  summaryOf_wellFormed _

theorem Run.ofChar_newline : Run.ofChar '\n' = .newline := rfl

theorem Run.ofChar_of_ne {ch : Char} (hch : ch ≠ '\n') :
    Run.ofChar ch = .chars 1 ch.utf8Size := if_neg hch

theorem charsSummary_chars (cs : List Char) : (charsSummary cs).chars = cs.length := by
  induction cs with
  | nil => rfl
  | cons ch cs ih =>
    rw [charsSummary_cons, TextSummary.add_chars, ih, List.length_cons]
    by_cases hch : ch = '\n'
    · rw [hch, Run.ofChar_newline]
      exact Nat.add_comm _ _
    · rw [Run.ofChar_of_ne hch]
      exact Nat.add_comm _ _

theorem charsSummary_bytes (cs : List Char) : (charsSummary cs).bytes = byteLenOf cs := by
  induction cs with
  | nil => rfl
  | cons ch cs ih =>
    rw [charsSummary_cons, TextSummary.add_bytes, ih]
    unfold byteLenOf
    rw [List.map_cons, List.sum_cons]
    by_cases hch : ch = '\n'
    · rw [hch, Run.ofChar_newline]
      rfl
    · rw [Run.ofChar_of_ne hch]
      exact congrArg (· + _) (Nat.one_mul _)

theorem charsSummary_lines (cs : List Char) : (charsSummary cs).lines = pointOf cs := by
  have key : ∀ (cs : List Char) (p : Point),
      cs.foldl Point.advance p = p + (charsSummary cs).lines := by
    intro cs
    induction cs with
    | nil => exact fun p => (add_zero p).symm
    | cons ch cs ih =>
      intro p
      rw [List.foldl_cons, ih, charsSummary_cons, TextSummary.add_lines, ← add_assoc]
      congr 1
      unfold Point.advance
      by_cases hch : ch = '\n'
      · rw [hch, Run.ofChar_newline]
        rfl
      · rw [Run.ofChar_of_ne hch, if_neg hch]
        rfl
  exact ((key cs 0).trans (zero_add _)).symm

theorem pointOf_append (xs ys : List Char) : pointOf (xs ++ ys) = pointOf xs + pointOf ys := by
  rw [← charsSummary_lines, ← charsSummary_lines, ← charsSummary_lines, charsSummary_append,
    TextSummary.add_lines]

theorem byteLenOf_append (xs ys : List Char) :
    byteLenOf (xs ++ ys) = byteLenOf xs + byteLenOf ys := by
  unfold byteLenOf
  rw [List.map_append, List.sum_append]

theorem charsSummary_firstLineLen (cs : List Char) :
    (lineLens cs).head? = some (charsSummary cs).firstLineLen := by
  induction cs with
  | nil => rfl
  | cons ch cs ih =>
    by_cases hch : ch = '\n'
    · rw [hch, lineLens_newline]
      rfl
    · obtain ⟨n, ns, hns⟩ := List.exists_cons_of_ne_nil (lineLens_ne_nil cs)
      rw [hns, List.head?_cons, Option.some_inj] at ih
      rw [lineLens_cons hch, hns, charsSummary_cons, Run.ofChar_of_ne hch, ih]
      exact congrArg some (Nat.add_comm _ _)

theorem firstLineLen_eq (cs : List Char) :
    (charsSummary cs).firstLineLen = (firstLine cs).length :=
  Option.some.inj ((charsSummary_firstLineLen cs).symm.trans (lineLens_head cs))

/-- The longest line. -/
def longestLine (cs : List Char) : ℕ := (lineLens cs).foldr max 0

theorem longestLine_append_newline (xs zs : List Char) :
    longestLine (xs ++ '\n' :: zs) = max (longestLine xs) (longestLine zs) := by
  unfold longestLine
  rw [lineLens_append_newline, List.foldr_append]
  induction lineLens xs with
  | nil => exact (Nat.zero_max _).symm
  | cons n ns ih => rw [List.foldr_cons, List.foldr_cons, ih, max_assoc]

theorem longestLine_of_notMem {cs : List Char} (hcs : '\n' ∉ cs) : longestLine cs = cs.length := by
  unfold longestLine
  rw [lineLens_of_notMem hcs]
  exact Nat.max_zero _

theorem charsSummary_rightmostPoint (cs : List Char) :
    (charsSummary cs).rightmostPoint.column = longestLine cs := by
  unfold longestLine
  induction cs with
  | nil => rfl
  | cons ch cs ih =>
    have hfirst := charsSummary_firstLineLen cs
    obtain ⟨n, ns, hns⟩ := List.exists_cons_of_ne_nil (lineLens_ne_nil cs)
    rw [hns, List.head?_cons, Option.some_inj] at hfirst
    rw [hns, List.foldr_cons] at ih
    rw [charsSummary_cons, TextSummary.add_rightmostPoint_column (charsSummary_wellFormed cs), ih,
      ← hfirst]
    by_cases hch : ch = '\n'
    · rw [hch, Run.ofChar_newline, lineLens_newline, hns]
      simp only [Run.textSummary, List.foldr_cons]
      omega
    · rw [Run.ofChar_of_ne hch, lineLens_cons hch, hns]
      simp only [Run.textSummary, List.modifyHead_cons, List.foldr_cons]
      omega

theorem charsSummary_of_forall {ds : List Char} {w : ℕ}
    (hds : ∀ ch ∈ ds, ch ≠ '\n' ∧ ch.utf8Size = w) :
    charsSummary ds = (Run.chars ds.length w).textSummary := by
  induction ds with
  | nil =>
    rw [charsSummary_nil]
    ext <;> simp [Run.textSummary] <;> rfl
  | cons ch ds ih =>
    obtain ⟨hch, rfl⟩ := hds ch List.mem_cons_self
    rw [charsSummary_cons, ih fun d hd => hds d (List.mem_cons_of_mem _ hd), Run.ofChar_of_ne hch,
      List.length_cons, Nat.add_comm ds.length 1]
    have hwf := (Run.chars ds.length ch.utf8Size).textSummary_wellFormed
    ext
    · rfl
    · exact (Nat.add_mul 1 ds.length _).symm
    · rfl
    · rfl
    · rfl
    · rw [TextSummary.add_rightmostPoint_row]
      rw [show (Run.chars 1 ch.utf8Size).textSummary.rightmostPoint.row = 0 from rfl,
        show (Run.chars ds.length ch.utf8Size).textSummary.rightmostPoint.row = 0 from rfl]
      split
      · rfl
      · split <;> rfl
    · rw [TextSummary.add_rightmostPoint_column hwf]
      simp only [Run.textSummary]
      omega

/-! ## Points along a text -/

@[simp] theorem pointOf_nil : pointOf [] = 0 := rfl

theorem pointOf_newline (cs : List Char) : pointOf ('\n' :: cs) = ⟨1, 0⟩ + pointOf cs :=
  pointOf_append ['\n'] cs

theorem pointOf_concat_newline (cs : List Char) :
    pointOf (cs ++ ['\n']) = ⟨(pointOf cs).row + 1, 0⟩ := by
  rw [pointOf_append]
  rfl

theorem pointOf_of_notMem {cs : List Char} (hcs : '\n' ∉ cs) : pointOf cs = ⟨0, cs.length⟩ := by
  induction cs with
  | nil => rfl
  | cons ch cs ih =>
    rw [List.mem_cons, not_or] at hcs
    rw [show ch :: cs = [ch] ++ cs from rfl, pointOf_append, ih hcs.2]
    have hch : pointOf [ch] = ⟨0, 1⟩ := if_neg (Ne.symm hcs.1)
    rw [hch, List.length_append, List.length_singleton]
    rfl

theorem pointOf_row (cs : List Char) : (pointOf cs).row = cs.count '\n' := by
  induction cs with
  | nil => rfl
  | cons ch cs ih =>
    rw [show ch :: cs = [ch] ++ cs from rfl, pointOf_append, Point.add_row, List.count_append, ih]
    by_cases hch : ch = '\n'
    · rw [hch]
      rfl
    · have hrow : pointOf [ch] = ⟨0, 1⟩ := if_neg hch
      rw [hrow, List.count_singleton, if_neg (by simpa using hch)]

theorem pointOf_ne_zero {cs : List Char} (hcs : cs ≠ []) : pointOf cs ≠ 0 := by
  intro h
  have hmem : '\n' ∉ cs := by
    rw [← List.count_eq_zero, ← pointOf_row, h]
    rfl
  rw [pointOf_of_notMem hmem] at h
  exact hcs (List.length_eq_zero_iff.mp (congrArg Point.column h))

theorem pointOf_lt_append (xs : List Char) {ys : List Char} (hys : ys ≠ []) :
    pointOf xs < pointOf (xs ++ ys) := by
  rw [pointOf_append]
  exact Point.lt_add (pointOf_ne_zero hys)

theorem byteLenOf_lt_append (xs : List Char) {ys : List Char} (hys : ys ≠ []) :
    byteLenOf xs < byteLenOf (xs ++ ys) := by
  obtain ⟨ch, ys, rfl⟩ := List.exists_cons_of_ne_nil hys
  rw [byteLenOf_append]
  have := ch.utf8Size_pos
  unfold byteLenOf
  rw [List.map_cons, List.sum_cons]
  omega

/-- The lines of a text, as far as its point says. -/
theorem length_lineLens (cs : List Char) : (lineLens cs).length = (pointOf cs).row + 1 := by
  induction cs with
  | nil => rfl
  | cons ch cs ih =>
    by_cases hch : ch = '\n'
    · rw [hch, lineLens_newline, List.length_cons, ih, pointOf_newline, Point.add_row]
      exact congrArg (· + 1) (Nat.add_comm _ _)
    · rw [lineLens_cons hch, List.length_modifyHead, ih, pointOf_row, pointOf_row,
        List.count_cons_of_ne (by simpa using hch)]

/-- A row starts after some characters, and its line is the first one of the others. -/
theorem exists_row {cs : List Char} {row len : ℕ} (hlen : (lineLens cs)[row]? = some len) :
    ∃ xs zs, cs = xs ++ zs ∧ pointOf xs = ⟨row, 0⟩ ∧ (row = 0 → xs = []) ∧
      (firstLine zs).length = len := by
  induction row generalizing cs with
  | zero =>
    refine ⟨[], cs, rfl, rfl, fun _ => rfl, ?_⟩
    rw [← List.head?_eq_getElem?, lineLens_head] at hlen
    exact Option.some.inj hlen
  | succ row ih =>
    by_cases hcs : '\n' ∈ cs
    · obtain ⟨line, zs, rfl, hline⟩ := exists_first_line hcs
      rw [lineLens_append_newline, lineLens_of_notMem hline] at hlen
      obtain ⟨xs, zs, rfl, hxs, -, hfirst⟩ := ih hlen
      refine ⟨line ++ '\n' :: xs, zs, by simp, ?_, fun h => (nomatch h), hfirst⟩
      rw [pointOf_append, pointOf_newline, hxs, pointOf_of_notMem hline]
      ext
      · simp only [Point.add_row]
        omega
      · rw [Point.add_column, Point.add_column, Point.add_row, if_neg (by simp only; omega)]
        exact ite_self _
    · rw [lineLens_of_notMem hcs] at hlen
      exact nomatch hlen

/-- The last row of some characters. -/
theorem exists_last_row (cs : List Char) :
    ∃ xs line, cs = xs ++ line ∧ pointOf xs = ⟨(pointOf cs).row, 0⟩ ∧ '\n' ∉ line := by
  have hrow : (pointOf cs).row < (lineLens cs).length := by
    rw [length_lineLens]
    exact Nat.lt_add_one _
  obtain ⟨xs, line, rfl, hxs, -, -⟩ := exists_row (List.getElem?_eq_getElem hrow)
  refine ⟨xs, line, rfl, hxs, ?_⟩
  have hline := congrArg Point.row hxs
  rw [pointOf_append, Point.add_row, pointOf_row line] at hline
  exact List.count_eq_zero.mp (by omega)

/-- Before the start of a later row is a newline. -/
theorem exists_concat_newline {cs : List Char} {r : ℕ} (hcs : pointOf cs = ⟨r + 1, 0⟩) :
    ∃ xs, cs = xs ++ ['\n'] := by
  rcases List.eq_nil_or_concat' cs with rfl | ⟨xs, ch, rfl⟩
  · exact nomatch congrArg Point.row hcs
  · refine ⟨xs, congrArg _ (congrArg (fun d => [d]) (not_not.mp fun hch => ?_))⟩
    have hpoint : pointOf [ch] = ⟨0, 1⟩ := if_neg hch
    rw [pointOf_append, hpoint] at hcs
    exact nomatch congrArg Point.column hcs

/-- **Every point in a line is the point after some characters.** -/
theorem exists_take {cs : List Char} {p : Point} {len : ℕ}
    (hlen : (lineLens cs)[p.row]? = some len) (hp : p.column ≤ len) :
    ∃ n ≤ cs.length, pointOf (cs.take n) = p := by
  obtain ⟨xs, zs, rfl, hxs, -, rfl⟩ := exists_row hlen
  obtain ⟨rest, hrest⟩ := exists_append_firstLine zs
  have hle := congrArg List.length hrest
  rw [List.length_append] at hle
  refine ⟨xs.length + p.column, by rw [List.length_append]; omega, ?_⟩
  have hline : '\n' ∉ zs.take p.column := by
    rw [hrest, List.take_append_of_le_length hp]
    exact fun h => notMem_firstLine zs (List.mem_of_mem_take h)
  rw [List.take_length_add_append, pointOf_append, hxs, pointOf_of_notMem hline,
    List.length_take_of_le (by omega)]
  ext
  · rfl
  · exact Nat.zero_add _

/-! ## Runs of characters -/

/-- The run stands for the characters. -/
inductive Run.Covers : Run → List Char → Prop
  | newline : Run.Covers .newline ['\n']
  | chars {ds : List Char} {w : ℕ} : ds ≠ [] → (∀ ch ∈ ds, ch ≠ '\n' ∧ ch.utf8Size = w) →
      Run.Covers (.chars ds.length w) ds

/-- So do the runs. -/
inductive Covers : List Run → List Char → Prop
  | nil : Covers [] []
  | cons {run : Run} {runs : List Run} {ds cs : List Char} : run.Covers ds → Covers runs cs →
      Covers (run :: runs) (ds ++ cs)

namespace Run.Covers

variable {run : Run} {ds : List Char}

theorem ne_nil (h : run.Covers ds) : ds ≠ [] := by
  cases h with
  | newline => exact List.cons_ne_nil _ _
  | chars hne _ => exact hne

theorem summary_eq (h : run.Covers ds) : charsSummary ds = run.textSummary := by
  cases h with
  | newline => exact TextSummary.add_empty (textSummary_wellFormed .newline)
  | chars _ hds => exact charsSummary_of_forall hds

/-- A character of a run takes the bytes that the run says. -/
theorem utf8Size_eq (h : run.Covers ds) : ∀ ch ∈ ds, ch.utf8Size = run.charSize := by
  cases h with
  | newline =>
    intro ch hch
    rw [List.mem_singleton.mp hch]
    rfl
  | chars _ hds => exact fun ch hch => (hds ch hch).2

theorem charSize_pos (h : run.Covers ds) : 0 < run.charSize := by
  obtain ⟨ch, hch⟩ := List.exists_mem_of_ne_nil ds h.ne_nil
  rw [← h.utf8Size_eq ch hch]
  exact ch.utf8Size_pos

/-- Before the end of a run there is no newline. -/
theorem notMem_of_lt (h : run.Covers ds) {n : ℕ} (hn : n < ds.length) : '\n' ∉ ds.take n := by
  cases h with
  | newline =>
    obtain rfl : n = 0 := Nat.lt_one_iff.mp hn
    exact List.not_mem_nil
  | chars _ hds => exact fun hmem => (hds _ (List.mem_of_mem_take hmem)).1 rfl

end Run.Covers

namespace Covers

variable {runs xs ys : List Run} {cs : List Char}

theorem summary_eq (h : Covers runs cs) : summaryOf runs = charsSummary cs := by
  induction h with
  | nil => rfl
  | cons hrun _ ih => rw [summaryOf_cons, ih, charsSummary_append, hrun.summary_eq]

theorem split (h : Covers (xs ++ ys) cs) : ∃ a b, cs = a ++ b ∧ Covers xs a ∧ Covers ys b := by
  induction xs generalizing cs with
  | nil => exact ⟨[], cs, rfl, .nil, h⟩
  | cons x xs ih =>
    rw [List.cons_append] at h
    cases h with
    | cons hrun hruns =>
      obtain ⟨a, b, rfl, ha, hb⟩ := ih hruns
      exact ⟨_, b, (List.append_assoc _ _ _).symm, .cons hrun ha, hb⟩

theorem append {ds : List Char} (h : Covers xs cs) (h' : Covers ys ds) :
    Covers (xs ++ ys) (cs ++ ds) := by
  induction h with
  | nil => exact h'
  | cons hrun _ ih =>
    rw [List.append_assoc]
    exact .cons hrun ih

theorem length_le (h : Covers runs cs) : runs.length ≤ cs.length := by
  induction h with
  | nil => exact le_rfl
  | cons hrun _ ih =>
    have := List.length_pos_of_ne_nil hrun.ne_nil
    rw [List.length_cons, List.length_append]
    omega

end Covers

/-- **The runs of a text cover its characters.** -/
theorem runsFrom_covers (cs : List Char) {ds : List Char} {w : ℕ}
    (hds : ∀ ch ∈ ds, ch ≠ '\n' ∧ ch.utf8Size = w) :
    Covers (runsFrom cs w ds.length) (ds ++ cs) := by
  induction cs generalizing ds w with
  | nil =>
    rw [runsFrom]
    split
    · rename_i hne
      exact .cons (.chars (List.ne_nil_of_length_pos (by omega)) hds) .nil
    · rename_i hnil
      rw [List.length_eq_zero_iff.mp (not_not.mp hnil)]
      exact .nil
  | cons ch cs ih =>
    rw [runsFrom]
    have hnil : ∀ w, ∀ d ∈ ([] : List Char), d ≠ '\n' ∧ d.utf8Size = w := fun _ _ h => nomatch h
    by_cases hch : ch = '\n'
    · subst hch
      have hrest : Covers (.newline :: runsFrom cs ('\n'.utf8Size) 0) ('\n' :: cs) :=
        .cons .newline (ih (hnil _))
      by_cases hds' : ds = []
      · subst hds'
        exact hrest
      · have hlen : ds.length ≠ 0 := fun h => hds' (List.length_eq_zero_iff.mp h)
        simp only [hlen, ne_eq, not_false_eq_true, true_or, and_self, if_true]
        exact .cons (.chars hds' hds) hrest
    · by_cases hfin : ds.length ≠ 0 ∧ (ch = '\n' ∨ w ≠ ch.utf8Size)
      · simp only [if_pos hfin, if_neg hch]
        have hds' : ds ≠ [] := fun h => hfin.1 (by rw [h]; rfl)
        have hone : ∀ d ∈ [ch], d ≠ '\n' ∧ d.utf8Size = ch.utf8Size := by
          intro d hd
          rw [List.mem_singleton.mp hd]
          exact ⟨hch, rfl⟩
        exact .cons (.chars hds' hds) (ih hone)
      · simp only [if_neg hfin, if_neg hch]
        have hwidth : ∀ d ∈ ds ++ [ch], d ≠ '\n' ∧ d.utf8Size = ch.utf8Size := by
          intro d hd
          rcases List.mem_append.mp hd with hd | hd
          · have hne : ds.length ≠ 0 := (List.length_pos_of_mem hd).ne'
            have hw : w = ch.utf8Size := not_not.mp fun h => hfin ⟨hne, Or.inr h⟩
            exact hw ▸ hds d hd
          · rw [List.mem_singleton.mp hd]
            exact ⟨hch, rfl⟩
        have h := ih hwidth
        rw [List.length_append, List.length_singleton, List.append_assoc] at h
        exact h

end Clinch.BufferText
