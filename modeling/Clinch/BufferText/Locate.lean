import Clinch.BufferText.Chars

/-!
# Seeking in a text

A seek to the value of a dimension after some of the characters stops at the run that the next
character is in. A row starts at the end of a run, and a summary up to the start of a later row stops
before the newline that ends the row before it.

* `CharDimension`: a dimension as a function of the characters;
* `Within`: characters of the next run;
* **`seek_located`**: where a seek stops;
* **`summaryTo_row`**: what a summary up to the start of a row is over.
-/

set_option autoImplicit false

namespace Clinch.BufferText

open SumTree

/-! ## Dimensions of the characters -/

/-- The dimension is the function `f` of the characters. -/
structure CharDimension (D : Type) [Dimension D RunSummary] (f : List Char → D) : Prop where
  exact : ExactDimension Run D
  measure_eq {runs : List Run} {cs : List Char} : Covers runs cs → measure D runs = f cs

theorem charDimension_textSummary : CharDimension TextSummary charsSummary where
  exact := exact_textSummary
  measure_eq h := by rw [measure_textSummary, h.summary_eq]

theorem charDimension_point : CharDimension Point pointOf where
  exact := exact_point
  measure_eq h := by rw [measure_point, h.summary_eq, charsSummary_lines]

theorem charDimension_charOffset : CharDimension CharOffset fun cs => ⟨cs.length⟩ where
  exact := exact_charOffset
  measure_eq h := by rw [measure_charOffset, h.summary_eq, charsSummary_chars]

theorem charDimension_byteOffset : CharDimension ByteOffset fun cs => ⟨byteLenOf cs⟩ where
  exact := exact_byteOffset
  measure_eq h := by rw [measure_byteOffset, h.summary_eq, charsSummary_bytes]

/-- Every character increases the value. -/
def Increasing {D : Type} [LT D] (f : List Char → D) : Prop :=
  ∀ xs ys, ys ≠ [] → f xs < f (xs ++ ys)

theorem increasing_point : Increasing pointOf := fun xs _ => pointOf_lt_append xs

theorem increasing_charOffset : Increasing fun cs => (⟨cs.length⟩ : CharOffset) := by
  intro xs ys hys
  have := List.length_pos_of_ne_nil hys
  show xs.length < (xs ++ ys).length
  rw [List.length_append]
  omega

theorem increasing_byteOffset : Increasing fun cs => (⟨byteLenOf cs⟩ : ByteOffset) :=
  fun xs _ => byteLenOf_lt_append xs

section Increasing

variable {D : Type} [LinearOrder D] {f : List Char → D}

theorem Increasing.le_append (hf : Increasing f) (xs ys : List Char) : f xs ≤ f (xs ++ ys) := by
  by_cases hys : ys = []
  · rw [hys, List.append_nil]
  · exact (hf xs ys hys).le

/-- Of two prefixes, the longer one has the larger value. -/
theorem Increasing.length_le (hf : Increasing f) {cs xs ys xs' ys' : List Char}
    (hxs : cs = xs ++ ys) (hxs' : cs = xs' ++ ys') (h : f xs ≤ f xs') : xs.length ≤ xs'.length := by
  by_contra hlt
  rw [hxs'] at hxs
  rcases List.append_eq_append_iff.mp hxs with ⟨zs, rfl, -⟩ | ⟨zs, rfl, -⟩
  · refine absurd h (not_le.mpr (hf xs' zs ?_))
    rintro rfl
    exact hlt (by simp)
  · exact hlt (by simp)

/-- A prefix is determined by its value. -/
theorem Increasing.prefix_inj (hf : Increasing f) {cs xs ys xs' ys' : List Char}
    (hxs : cs = xs ++ ys) (hxs' : cs = xs' ++ ys') (h : f xs = f xs') : xs = xs' ∧ ys = ys' := by
  have hlen : xs.length = xs'.length :=
    le_antisymm (hf.length_le hxs hxs' h.le) (hf.length_le hxs' hxs h.ge)
  exact List.append_inj (hxs.symm.trans hxs') hlen

end Increasing

/-! ## Inside a run -/

/-- The characters are the first ones of the run, and not all of it. -/
inductive Within : Option Run → List Char → Prop
  | atEnd : Within none []
  | run {run : Run} {ds : List Char} {n : ℕ} : run.Covers ds → n < ds.length →
      Within (some run) (ds.take n)

namespace Within

variable {run : Option Run} {b : List Char}

theorem notMem (h : Within run b) : '\n' ∉ b := by
  cases h with
  | atEnd => exact List.not_mem_nil
  | run hrun hn => exact hrun.notMem_of_lt hn

theorem pointOf_eq (h : Within run b) : pointOf b = ⟨0, b.length⟩ := pointOf_of_notMem h.notMem

theorem byteLenOf_eq (h : Within run b) : byteLenOf b = b.length * run.elim 0 Run.charSize := by
  cases h with
  | atEnd => rfl
  | @run run ds n hrun hn =>
    have hsize : ∀ k ∈ (ds.take n).map Char.utf8Size, k = run.charSize := by
      intro k hk
      obtain ⟨ch, hch, rfl⟩ := List.mem_map.mp hk
      exact hrun.utf8Size_eq ch (List.mem_of_mem_take hch)
    unfold byteLenOf
    rw [List.sum_eq_card_nsmul _ _ hsize, List.length_map]
    rfl

/-- The bytes of a run say how many of its characters they are. -/
theorem checkedDiv_eq (h : Within run b) :
    checkedDiv (byteLenOf b) (run.elim 1 Run.charSize) = .ok b.length := by
  rw [h.byteLenOf_eq]
  cases h with
  | atEnd => rfl
  | run hrun _ =>
    have hpos := hrun.charSize_pos
    unfold checkedDiv
    rw [Option.elim_some, Option.elim_some, if_neg hpos.ne', Nat.mul_div_cancel _ hpos]

end Within

/-! ## Seeks -/

variable {D U W : Type} [Dimension D RunSummary] [Dimension U RunSummary] [Dimension W RunSummary]
  [LinearOrder D] {f : List Char → D} {root : SumTree Run RunSummary} {H : ℕ} {cs : List Char}

theorem Covers.monotone (hcov : Covers root.toList cs) (hD : CharDimension D f)
    (hf : Increasing f) : MonotoneDimension D root.toList := by
  intro xs ys zs h
  rw [h] at hcov
  obtain ⟨ab, c, -, hab, -⟩ := hcov.split
  obtain ⟨a, b, rfl, ha, -⟩ := hab.split
  rw [hD.measure_eq ha, hD.measure_eq hab]
  exact hf.le_append a b

section Seek

variable (w : Wf H root) (hH : H < stackCapacity) (hcov : Covers root.toList cs)
  (hD : CharDimension D f) (hf : Increasing f)

include w hH hcov hD hf

omit [Dimension W RunSummary] in
/-- **A seek to the value after `n` characters stops at the run of the next character.** -/
theorem seek_located {n : ℕ} (hn : n ≤ cs.length) :
    Returns (fun r => ∃ ms ys a b, r.1.At root H ms ys ∧ root.toList = ms ++ ys ∧ Covers ms a ∧
      cs.take n = a ++ b ∧ Within ys.head? b)
      ((Cursor.new root : Cursor Run RunSummary D U).seek (f (cs.take n)) .right) := by
  have hdefault : (Dimension.default RunSummary : D) ≤ f (cs.take n) := by
    rw [show (Dimension.default RunSummary : D) = measure D ([] : List Run) from rfl,
      hD.measure_eq .nil]
    exact hf.le_append [] _
  refine (Cursor.Ready.seek w hH hD.exact (hcov.monotone hD hf) Cursor.ready_new hdefault
    .right).mono ?_
  rintro r ⟨⟨ms, ys, hroot, hat, hp, hstop⟩, -⟩
  rw [hroot] at hcov
  obtain ⟨a, b, rfl, ha, hb⟩ := hcov.split
  have hle : a.length ≤ n := by
    have hms : measure D ms ≤ f ((a ++ b).take n) :=
      @Cursor.Passed.measure_le _ _ _ _ _ _ _ _ [] _ _ rfl hdefault hp
    rw [hD.measure_eq ha] at hms
    have := hf.length_le rfl (List.take_append_drop n (a ++ b)).symm hms
    rwa [List.length_take_of_le hn] at this
  refine ⟨ms, ys, a, b.take (n - a.length), hat, hroot, ha, ?_, ?_⟩
  · rw [List.take_append, List.take_of_length_le hle]
  · cases hb with
    | nil =>
      rw [List.take_nil]
      exact .atEnd
    | @cons y ys ds b hy hb =>
      have hlt : n < (a ++ ds).length := by
        by_contra hge
        -- the next run would end before the target
        refine absurd ?_ (targetBeyond_iff.not.mp (Bool.eq_false_iff.mp (hstop rfl y rfl)))
        show measure D (ms ++ [y]) ≤ _
        rw [hD.measure_eq (ha.append (.cons hy .nil)), List.append_nil, ← List.append_assoc,
          List.take_append, List.take_of_length_le (not_lt.mp hge)]
        exact hf.le_append _ _
      rw [List.length_append] at hlt
      rw [List.take_append_of_le_length (by omega)]
      exact .run hy (by omega)

end Seek

section Rows

variable {u v : List Char} {r : ℕ} (w : Wf H root) (hH : H < stackCapacity)

include w hH

/-- A seek to the start of a row stops there. -/
theorem seek_row (hcov : Covers root.toList (u ++ v)) (hu : pointOf u = ⟨r, 0⟩) :
    Returns (fun q => ∃ ms ys, q.1.At root H ms ys ∧ Covers ms u ∧ Covers ys v)
      ((Cursor.new root : Cursor Run RunSummary Point U).seek ⟨r, 0⟩ .right) := by
  have hn : u.length ≤ (u ++ v).length := by simp
  have hseek := seek_located (U := U) w hH hcov charDimension_point increasing_point hn
  rw [List.take_left, hu] at hseek
  refine hseek.mono ?_
  rintro q ⟨ms, ys, a, b, hat, hroot, ha, rfl, hb⟩
  rw [pointOf_append, hb.pointOf_eq] at hu
  obtain rfl : b = [] := List.length_eq_zero_iff.mp <| by
    have hcolumn := congrArg Point.column hu
    rw [Point.add_column, if_pos rfl] at hcolumn
    exact (Nat.add_eq_zero_iff.mp hcolumn).2
  rw [List.append_nil] at hcov ⊢
  rw [hroot] at hcov
  obtain ⟨a', v', h, ha', hv⟩ := hcov.split
  obtain ⟨rfl, rfl⟩ := increasing_point.prefix_inj rfl h (by
    rw [← charDimension_point.measure_eq ha, ← charDimension_point.measure_eq ha'])
  exact ⟨ms, ys, hat, ha, hv⟩

/-- **A summary from the start of a row up to the start of a later row** stops before a newline that
ends the row before it, or at the end of the text. -/
theorem summaryTo_row {c : Cursor Run RunSummary Point U} {ms ys : List Run} {g : List Char → W}
    (hW : CharDimension W g) (hc : c.At root H ms ys) (hms : Covers ms u) (hys : Covers ys v)
    (hu : pointOf u = ⟨r, 0⟩) (k : ℕ) :
    Returns (fun q => ∃ ks zs body rest, v = body ++ rest ∧ q.1.At root H (ms ++ ks) zs ∧
        Covers (ms ++ ks) (u ++ body) ∧ q.2 = g body ∧ (pointOf (u ++ body)).row ≤ r + k ∧
        (rest = [] ∨ ∃ rest', rest = '\n' :: rest' ∧
          pointOf (u ++ body ++ ['\n']) = ⟨r + k + 1, 0⟩))
      (c.summaryTo W ⟨r + k + 1, 0⟩ .left) := by
  have hpos : c.seekDimension = ⟨r, 0⟩ := by
    rw [hc.sums.1, charDimension_point.measure_eq hms, hu]
  have hle : c.seekDimension ≤ ⟨r + k + 1, 0⟩ := by
    rw [hpos, Point.le_iff]
    exact Or.inl (by simp only; omega)
  refine (Cursor.Ready.summaryTo w hH exact_point hW.exact (Or.inl hc) hle .left).mono ?_
  rintro q ⟨ks, zs, rfl, hat, hsum, hp, hstop⟩
  obtain ⟨body, rest, rfl, hks, hzs⟩ := hys.split
  have hbody := hms.append hks
  have hrow : (pointOf (u ++ body)).row ≤ r + k := by
    rcases hp rfl with h | h
    · have hnil : ks = [] := by simpa [Cursor.Started.before] using h
      subst hnil
      cases hks
      rw [List.append_nil, hu]
      exact Nat.le_add_right _ _
    · have hlt : measure Point (ms ++ ks) < ⟨r + k + 1, 0⟩ := targetBeyond_iff.mp h
      rw [charDimension_point.measure_eq hbody, Point.lt_iff] at hlt
      simp only at hlt
      omega
  refine ⟨ks, zs, body, rest, rfl, hat, hbody, hsum.trans (hW.measure_eq hks), hrow, ?_⟩
  cases hzs with
  | nil => exact Or.inl rfl
  | @cons y zs ds rest hy hzs =>
    right
    have hend := targetBeyond_iff.not.mp (Bool.eq_false_iff.mp (hstop rfl y rfl))
    have hnext : ¬ measure Point (ms ++ ks ++ [y]) < ⟨r + k + 1, 0⟩ := hend
    rw [charDimension_point.measure_eq (hbody.append (.cons hy .nil)), List.append_nil] at hnext
    cases hy with
    | newline =>
      refine ⟨rest, rfl, ?_⟩
      rw [pointOf_concat_newline] at hnext ⊢
      rw [Point.lt_iff] at hnext
      simp only at hnext
      exact Point.ext (by simp only; omega) rfl
    | chars _ hds =>
      refine absurd ?_ hnext
      rw [pointOf_append _ ds, pointOf_of_notMem fun h => (hds _ h).1 rfl, Point.lt_iff,
        Point.add_row]
      simp only
      omega

end Rows

end Clinch.BufferText
