import Clinch.Grid.DisplayedOutput

/-!
# The row translation

A run of calls on a `DisplayedOutput`. The ranges and the height are right after every call, and so
is the row translation map, unless `truncate_to_row` cuts off displayed rows: it leaves the map as
it was, so the rows that were cut off still count as displayed.

* `Ascending`, `Exact`, `Agrees`, `Exact.agrees`;
* `Op`, `Allowed`, `CutsNothing`, **`step_exact`**;
* **`run_exact_iff`**: the run is exact throughout if and only if no truncation cuts anything off.
-/

set_option autoImplicit false

namespace Clinch

namespace DisplayedRows

/-- The ranges are not empty, in ascending order and disjoint. -/
def Ascending (lines : List DisplayedRows) : Prop :=
  (∀ rows ∈ lines, rows.range.start ≤ rows.range.stop) ∧
    lines.Pairwise fun a b => a.range.stop < b.range.start

instance (lines : List DisplayedRows) : Decidable (Ascending lines) :=
  inferInstanceAs (Decidable (_ ∧ _))

theorem allRows_append (a b : List DisplayedRows) : allRows (a ++ b) = allRows a ++ allRows b :=
  List.flatMap_append

theorem allRows_cons (rows : DisplayedRows) (lines : List DisplayedRows) :
    allRows (rows :: lines) = rows.range.rows ++ allRows lines := List.flatMap_cons

theorem mem_allRows {lines : List DisplayedRows} {row : ℕ} :
    row ∈ allRows lines ↔ ∃ rows ∈ lines, rows.range.contains row = true := by
  rw [allRows, List.mem_flatMap]
  exact exists_congr fun rows => and_congr_right fun _ => RangeInclusive.mem_rows

theorem height_ok {rows : DisplayedRows} (h : rows.range.start ≤ rows.range.stop) :
    rows.height = .ok rows.range.rows.length := by
  rw [height, checkedSub_ok h, ok_bind, RangeInclusive.length_rows, ← Nat.sub_add_comm h]
  rfl

theorem addHeights_ok {lines : List DisplayedRows}
    (h : ∀ rows ∈ lines, rows.range.start ≤ rows.range.stop) (height : ℕ) :
    addHeights height lines = .ok (height + (allRows lines).length) := by
  induction lines generalizing height with
  | nil => rfl
  | cons rows lines ih =>
    rw [addHeights, height_ok (h rows List.mem_cons_self), ok_bind,
      ih fun r hr => h r (List.mem_cons_of_mem _ hr), allRows_cons, List.length_append,
      Nat.add_assoc]

theorem subHeights_ok {lines : List DisplayedRows}
    (h : ∀ rows ∈ lines, rows.range.start ≤ rows.range.stop) (height : ℕ) :
    subHeights height lines = .ok (height - (allRows lines).length) := by
  induction lines generalizing height with
  | nil => rfl
  | cons rows lines ih =>
    rw [subHeights, height_ok (h rows List.mem_cons_self), ok_bind,
      ih fun r hr => h r (List.mem_cons_of_mem _ hr), allRows_cons, List.length_append,
      Nat.sub_sub]

theorem inAscendingOrder_of {lines : List DisplayedRows} (h : Ascending lines) :
    inAscendingOrder lines = true := by
  obtain ⟨-, h⟩ := h
  induction lines with
  | nil => rfl
  | cons a lines ih =>
    cases lines with
    | nil => rfl
    | cons b lines =>
      rw [List.pairwise_cons] at h
      rw [inAscendingOrder, decide_eq_true (h.1 b List.mem_cons_self), Bool.true_and]
      exact ih h.2

namespace Ascending

variable {a b lines : List DisplayedRows}

theorem nil : Ascending [] := ⟨by simp, List.Pairwise.nil⟩

theorem sublist (h : Ascending b) (hs : a.Sublist b) : Ascending a :=
  ⟨fun rows hr => h.1 rows (hs.subset hr), h.2.sublist hs⟩

theorem pairwise_lt (h : Ascending lines) : (allRows lines).Pairwise (· < ·) := by
  rw [allRows, List.pairwise_flatMap]
  refine ⟨fun rows _ => List.pairwise_lt_range', h.2.imp ?_⟩
  intro a b hab x hx y hy
  have h1 : x ≤ a.range.stop := by
    have := RangeInclusive.mem_rows.mp hx
    rw [RangeInclusive.contains, Bool.and_eq_true, decide_eq_true_eq, decide_eq_true_eq] at this
    exact this.2
  have h2 : b.range.start ≤ y := by
    have := RangeInclusive.mem_rows.mp hy
    rw [RangeInclusive.contains, Bool.and_eq_true, decide_eq_true_eq, decide_eq_true_eq] at this
    exact this.1
  omega

theorem nodup (h : Ascending lines) : (allRows lines).Nodup := h.pairwise_lt.imp Nat.ne_of_lt

/-- The last row of the last range is the last row. -/
theorem getLast_row {rows : DisplayedRows} (h : Ascending (a ++ [rows])) :
    (allRows (a ++ [rows]))[(allRows (a ++ [rows])).length - 1]? = some rows.range.stop := by
  have hle : rows.range.start ≤ rows.range.stop := h.1 rows (by simp)
  have hlen := RangeInclusive.length_rows rows.range
  rw [allRows_append, allRows_cons, show allRows [] = [] from rfl, List.append_nil,
    List.length_append, List.getElem?_append_right (by omega)]
  rw [RangeInclusive.rows] at hlen ⊢
  rw [List.getElem?_range' (by omega)]
  congr 1
  omega

end Ascending

end DisplayedRows

namespace DisplayedOutput

open DisplayedRows

variable {M : Type} [BiMap M ℕ ℕ]

/-- The three copies of the set of displayed rows agree. -/
structure Exact (o : DisplayedOutput M) : Prop where
  ascending : Ascending o.displayedRows
  height : o.height = (allRows o.displayedRows).length
  map : BiMap.Lists o.rowTranslationMap (allRows o.displayedRows)

/-- The lookups agree with the ranges. -/
structure Agrees (o : DisplayedOutput M) : Prop where
  isDisplayedRow : ∀ row, o.isDisplayedRow row = true ↔
    ∃ rows ∈ o.displayedRows, rows.range.contains row = true
  toDisplayed : ∀ point, o.maybeTranslatePointFromOriginalToDisplayed point =
    if point.row ∈ allRows o.displayedRows
    then ⟨(allRows o.displayedRows).idxOf point.row, point.col⟩ else point
  toOriginal : ∀ point, o.maybeTranslatePointFromDisplayedToOriginal point =
    ⟨((allRows o.displayedRows)[point.row]?).getD point.row, point.col⟩
  rowToOriginal : ∀ row, o.maybeTranslateRowFromDisplayedToOriginal row =
    ((allRows o.displayedRows)[row]?).getD row
  exactOrNext : ∀ row, o.getExactOrNextDisplayedRow row =
    (allRows o.displayedRows).findIdx? fun r => decide (row ≤ r)

/-! ## Lookups -/

/-- In an ascending list, the members below the target are those before the first other one. -/
theorem lt_iff_lt_findIdx {ls : List ℕ} (h : ls.Pairwise (· < ·)) (target : ℕ) {i x : ℕ}
    (hi : ls[i]? = some x) : x < target ↔ i < ls.findIdx fun r => decide (target ≤ r) := by
  induction ls generalizing i with
  | nil => exact nomatch hi
  | cons a ls ih =>
    rw [List.pairwise_cons] at h
    rw [List.findIdx_cons]
    cases i with
    | zero =>
      obtain rfl : a = x := by simpa using hi
      by_cases hx : target ≤ a
      · simp [hx]
      · simp [hx]
        omega
    | succ i =>
      rw [List.getElem?_cons_succ] at hi
      by_cases ha : target ≤ a
      · have := h.1 x (List.mem_of_getElem? hi)
        simp [ha]
        omega
      · simp only [ha, decide_false, cond_false, Nat.add_lt_add_iff_right]
        exact ih h.2 hi

theorem findIdx?_eq (ls : List ℕ) (p : ℕ → Bool) :
    ls.findIdx? p = if ls.findIdx p < ls.length then some (ls.findIdx p) else none := by
  split
  · rename_i h
    rw [List.findIdx?_eq_some_iff_findIdx_eq]
    exact ⟨h, rfl⟩
  · rename_i h
    rw [List.findIdx?_eq_none_iff_findIdx_eq]
    exact Nat.le_antisymm List.findIdx_le_length (Nat.le_of_not_lt h)

/-- The binary search keeps the first row from the target on between `low` and its candidate. -/
theorem searchDisplayedRow_eq {m : M} {ls : List ℕ} (hm : BiMap.Lists m ls)
    (hs : ls.Pairwise (· < ·)) {target : ℕ} (ht : target ∉ ls) {low high : ℕ}
    {candidate : Option ℕ} (hlow : low ≤ ls.findIdx fun r => decide (target ≤ r))
    (hc : candidate = none ∧ high + 1 = ls.length ∨
      candidate = some (high + 1) ∧ (ls.findIdx fun r => decide (target ≤ r)) ≤ high + 1 ∧
        high + 1 < ls.length) :
    searchDisplayedRow m target low high candidate =
      ls.findIdx? fun r => decide (target ≤ r) := by
  have hhigh : high < ls.length := by omega
  rw [searchDisplayedRow]
  split
  · rename_i hle
    have hd : (high + low) / 2 < ls.length := by omega
    obtain ⟨x, hx⟩ : ∃ x, ls[(high + low) / 2]? = some x := ⟨_, List.getElem?_eq_getElem hd⟩
    have hxt : x ≠ target := fun he => ht (he ▸ List.mem_of_getElem? hx)
    have hiff := lt_iff_lt_findIdx hs target hx
    simp only [hm.getByRight_eq, hx]
    split
    · rename_i hgt
      have hk : (ls.findIdx fun r => decide (target ≤ r)) ≤ (high + low) / 2 := by
        by_contra hlt
        have := hiff.mpr (by omega)
        omega
      split
      · rename_i h0
        rw [findIdx?_eq, if_pos (by omega), h0]
        congr 1
        omega
      · rename_i h0
        refine searchDisplayedRow_eq hm hs ht hlow (Or.inr ⟨?_, by omega, by omega⟩)
        congr 1
        omega
    · split
      · rename_i hlt
        have := hiff.mp hlt
        exact searchDisplayedRow_eq hm hs ht (by omega) hc
      · omega
  · rename_i hlt
    have hle : (ls.findIdx fun r => decide (target ≤ r)) ≤ ls.length := List.findIdx_le_length
    rw [findIdx?_eq]
    rcases hc with ⟨rfl, hlen⟩ | ⟨rfl, h1, h2⟩
    · rw [if_neg (by omega)]
    · rw [if_pos (by omega)]
      congr 1
      omega
termination_by high + 1 - low

/-- **The lookups of an exact output agree with its ranges.** -/
theorem Exact.agrees {o : DisplayedOutput M} (h : o.Exact) : o.Agrees := by
  have hs := h.ascending.pairwise_lt
  refine ⟨fun row => ?_, fun point => ?_, fun point => ?_, fun row => ?_, fun row => ?_⟩
  · rw [DisplayedOutput.isDisplayedRow, h.map.getByLeft_isSome, mem_allRows]
  · rw [maybeTranslatePointFromOriginalToDisplayed]
    by_cases hp : point.row ∈ allRows o.displayedRows
    · have hi : BiMap.getByLeft o.rowTranslationMap point.row =
          some ((allRows o.displayedRows).idxOf point.row) :=
        (h.map _ _).mpr (List.getElem?_idxOf hp)
      rw [if_pos hp, hi]
    · have hi : BiMap.getByLeft o.rowTranslationMap point.row = none := by
        rw [← Option.not_isSome_iff_eq_none, h.map.getByLeft_isSome]
        exact hp
      rw [if_neg hp, hi]
  · rw [maybeTranslatePointFromDisplayedToOriginal, h.map.getByRight_eq]
    cases (allRows o.displayedRows)[point.row]? with
    | none => rfl
    | some row => rfl
  · rw [maybeTranslateRowFromDisplayedToOriginal, h.map.getByRight_eq]
  · rw [getExactOrNextDisplayedRow, h.map.len_eq]
    split
    · rename_i h0
      rw [List.length_eq_zero_iff.mp h0]
      rfl
    · rename_i h0
      split
      · rename_i i hi
        have hi' := (h.map _ _).mp hi
        rw [eq_comm, List.findIdx?_eq_some_iff_findIdx_eq]
        refine ⟨(List.getElem?_eq_some_iff.mp hi').1, ?_⟩
        have hlt := lt_iff_lt_findIdx hs row hi'
        refine Nat.le_antisymm ?_ ?_
        · by_contra hgt
          exact absurd (hlt.mpr (by omega)) (lt_irrefl _)
        · by_contra hgt
          set k := (allRows o.displayedRows).findIdx fun r => decide (row ≤ r) with hk
          have hlen : k < (allRows o.displayedRows).length := by
            have := (List.getElem?_eq_some_iff.mp hi').1
            omega
          obtain ⟨x, hx⟩ : ∃ x, (allRows o.displayedRows)[k]? = some x :=
            ⟨_, List.getElem?_eq_getElem hlen⟩
          have h1 : ¬ x < row := fun hxr =>
            lt_irrefl k ((lt_iff_lt_findIdx hs row hx).mp hxr)
          have h2 : x < row := by
            have := List.pairwise_iff_getElem.mp hs k i hlen
              (List.getElem?_eq_some_iff.mp hi').1 (by omega)
            rw [(List.getElem?_eq_some_iff.mp hx).2, (List.getElem?_eq_some_iff.mp hi').2] at this
            exact this
          exact h1 h2
      · rename_i hn
        have hr : row ∉ allRows o.displayedRows := by
          rw [← h.map.getByLeft_isSome, hn]
          exact Bool.false_ne_true
        exact searchDisplayedRow_eq h.map hs hr (Nat.zero_le _) (Or.inl ⟨rfl, by omega⟩)

/-! ## Calls -/

/-- A call on a `DisplayedOutput`. -/
inductive Op
  | newFromDisplayedLines (displayedLines : List DisplayedRows)
  | extendDisplayedLines (displayedLines : List DisplayedRows)
  | prependDisplayedLines (displayedLines : List DisplayedRows)
  | spliceDisplayedLines (start stop : ℕ) (displayedLines : List DisplayedRows)
  | truncateToRow (row : ℕ)
  | reset
deriving DecidableEq

/-- The output after the call. -/
def step (o : DisplayedOutput M) : Op → Result (DisplayedOutput M)
  | .newFromDisplayedLines displayedLines => newFromDisplayedLines displayedLines
  | .extendDisplayedLines displayedLines => o.extendDisplayedLines displayedLines
  | .prependDisplayedLines displayedLines => o.prependDisplayedLines displayedLines
  | .spliceDisplayedLines start stop displayedLines => do
    return (← o.spliceDisplayedLines start stop displayedLines).1
  | .truncateToRow row => o.truncateToRow row
  | .reset => .ok o.reset

/-- What the callers must ensure. -/
def Allowed (o : DisplayedOutput M) : Op → Prop
  | .newFromDisplayedLines displayedLines => Ascending displayedLines
  | .extendDisplayedLines displayedLines => Ascending (o.displayedRows ++ displayedLines)
  | .prependDisplayedLines displayedLines => Ascending (displayedLines ++ o.displayedRows)
  | .spliceDisplayedLines start stop displayedLines =>
    start ≤ stop ∧ stop ≤ o.displayedRows.length ∧
      Ascending (o.displayedRows.take start ++ displayedLines ++ o.displayedRows.drop stop)
  | .truncateToRow _ => True
  | .reset => True

/-- A truncation leaves all the displayed rows. -/
def CutsNothing (o : DisplayedOutput M) : Op → Prop
  | .truncateToRow row => ∀ rows ∈ o.displayedRows, rows.range.stop ≤ row
  | _ => True

instance (o : DisplayedOutput M) (op : Op) : Decidable (o.Allowed op) := by
  cases op <;> (unfold Allowed; infer_instance)

theorem exact_default : (default : DisplayedOutput M).Exact :=
  ⟨Ascending.nil, rfl, BiMap.lists_empty⟩

theorem exact_build {lines : List DisplayedRows} (h : Ascending lines) {height : ℕ}
    (hh : height = (allRows lines).length) :
    (⟨lines, height, BiMap.insertAll BiMap.empty 0 (allRows lines)⟩ : DisplayedOutput M).Exact :=
  ⟨h, hh, (BiMap.lists_empty (M := M)).insertAll (allRows lines) h.nodup⟩

theorem newFromDisplayedLines_exact {lines : List DisplayedRows} (h : Ascending lines) :
    ∃ o : DisplayedOutput M, newFromDisplayedLines lines = .ok o ∧ o.Exact := by
  rw [newFromDisplayedLines, debugAssert_ok (inAscendingOrder_of h), ok_bind, addHeights_ok h.1,
    ok_bind]
  exact ⟨_, rfl, exact_build h (Nat.zero_add _)⟩

theorem prependDisplayedLines_exact {o : DisplayedOutput M} (ho : o.Exact)
    {lines : List DisplayedRows} (h : Ascending (lines ++ o.displayedRows)) :
    ∃ o', o.prependDisplayedLines lines = .ok o' ∧ o'.Exact := by
  rw [prependDisplayedLines, addHeights_ok (h.sublist (List.sublist_append_left _ _)).1, ok_bind]
  simp only [debugAssert_ok (inAscendingOrder_of h), ok_bind]
  refine ⟨_, rfl, exact_build h ?_⟩
  rw [ho.height, allRows_append, List.length_append, Nat.add_comm]

theorem appendToRowTranslation_lists {o : DisplayedOutput M} (ho : o.Exact)
    {lines : List DisplayedRows} (h : Ascending (o.displayedRows ++ lines)) :
    BiMap.Lists (o.appendToRowTranslation lines) (allRows (o.displayedRows ++ lines)) := by
  have hins := ho.map.insertAll (allRows lines) (by rw [← allRows_append]; exact h.nodup)
  rw [← allRows_append] at hins
  convert hins using 1
  rw [appendToRowTranslation]
  congr 1
  -- the offset is the number of displayed rows
  rcases List.eq_nil_or_concat o.displayedRows with hnil | ⟨init, last, hlast⟩
  · have hm := ho.map
    rw [hnil] at hm ⊢
    have h0 : BiMap.getByLeft o.rowTranslationMap 0 = none := by
      rw [← Option.not_isSome_iff_eq_none, hm.getByLeft_isSome]
      exact List.not_mem_nil
    simp only [List.getLast?_nil, Option.map_none, Option.getD_none, h0]
    rfl
  · rw [List.concat_eq_append] at hlast
    have hm := ho.map
    have hasc := ho.ascending
    rw [hlast] at hm hasc ⊢
    rw [List.getLast?_concat, Option.map_some, Option.getD_some,
      (hm _ _).mpr hasc.getLast_row]
    have hpos : 0 < (allRows (init ++ [last])).length :=
      List.length_pos_of_mem (List.mem_of_getElem? hasc.getLast_row)
    change (allRows (init ++ [last])).length - 1 + 1 = _
    omega

theorem extendDisplayedLines_exact {o : DisplayedOutput M} (ho : o.Exact)
    {lines : List DisplayedRows} (h : Ascending (o.displayedRows ++ lines)) :
    ∃ o', o.extendDisplayedLines lines = .ok o' ∧ o'.Exact := by
  rw [extendDisplayedLines, addHeights_ok (h.sublist (List.sublist_append_right _ _)).1, ok_bind]
  simp only [debugAssert_ok (inAscendingOrder_of h), ok_bind]
  refine ⟨_, rfl, h, ?_, appendToRowTranslation_lists ho h⟩
  rw [ho.height, allRows_append, List.length_append]

theorem replaceOffset_eq {m : M} {pre lines old : List DisplayedRows}
    (hm : BiMap.Lists m (allRows (pre ++ old))) (h : Ascending pre) :
    replaceOffset m (pre ++ lines) pre.length = (allRows pre).length := by
  rcases List.eq_nil_or_concat pre with rfl | ⟨init, last, rfl⟩
  · rfl
  · rw [List.concat_eq_append] at *
    have hpos : 0 < (allRows (init ++ [last])).length :=
      List.length_pos_of_mem (List.mem_of_getElem? h.getLast_row)
    have hget : BiMap.getByLeft m last.range.stop =
        some ((allRows (init ++ [last])).length - 1) := by
      rw [hm, allRows_append _ old, List.getElem?_append_left (by omega)]
      exact h.getLast_row
    rw [replaceOffset, if_neg (by simp), List.getElem?_append_left (by simp)]
    simp only [List.length_append, List.length_singleton, Nat.add_sub_cancel,
      List.getElem?_concat_length, Option.map_some, hget]
    omega

theorem replaceRowsFromRowTranslation_lists {m : M} {pre old : List DisplayedRows}
    (lines : List DisplayedRows) (hm : BiMap.Lists m (allRows (pre ++ old)))
    (h : Ascending (pre ++ lines)) :
    ∃ m', replaceRowsFromRowTranslation m (pre ++ lines) pre.length = .ok m' ∧
      BiMap.Lists m' (allRows (pre ++ lines)) := by
  rw [replaceRowsFromRowTranslation,
    replaceOffset_eq hm (h.sublist (List.sublist_append_left _ _))]
  rw [sliceRange, if_pos (by simp), ok_bind, List.take_length, List.drop_left]
  refine ⟨_, rfl, ?_⟩
  have hrem := hm.removeRange (k := (allRows pre).length)
    (n := BiMap.len m + 1 - (allRows pre).length) (by
      rw [hm.len_eq, allRows_append, List.length_append]
      omega)
  rw [allRows_append, List.take_left] at hrem
  have := hrem.insertAll (allRows lines) (by rw [← allRows_append]; exact h.nodup)
  rwa [← allRows_append] at this

theorem spliceDisplayedLines_exact {o : DisplayedOutput M} (ho : o.Exact) {start stop : ℕ}
    {lines : List DisplayedRows} (hle : start ≤ stop) (hlen : stop ≤ o.displayedRows.length)
    (h : Ascending (o.displayedRows.take start ++ lines ++ o.displayedRows.drop stop)) :
    ∃ o', o.spliceDisplayedLines start stop lines =
      .ok (o', (o.displayedRows.take stop).drop start) ∧ o'.Exact := by
  have hl : ∀ rows ∈ lines, rows.range.start ≤ rows.range.stop := fun rows hr =>
    h.1 rows (by simp [hr])
  have hrem : ∀ rows ∈ (o.displayedRows.take stop).drop start,
      rows.range.start ≤ rows.range.stop := fun rows hr =>
    ho.ascending.1 rows (List.mem_of_mem_take (List.mem_of_mem_drop hr))
  have hstart : (o.displayedRows.take start).length = start := by
    rw [List.length_take]
    omega
  have hmap := ho.map
  rw [← List.take_append_drop start o.displayedRows] at hmap
  obtain ⟨m', hm', hlists⟩ := replaceRowsFromRowTranslation_lists
    (lines ++ o.displayedRows.drop stop) hmap (by rwa [← List.append_assoc])
  rw [hstart, ← List.append_assoc] at hm'
  rw [← List.append_assoc] at hlists
  rw [spliceDisplayedLines, addHeights_ok hl, ok_bind, sliceRange, if_pos ⟨hle, hlen⟩, ok_bind]
  simp only [hm', ok_bind, subHeights_ok hrem, debugAssert_ok (inAscendingOrder_of h)]
  refine ⟨_, rfl, h, ?_, hlists⟩
  have hsplit : o.displayedRows = o.displayedRows.take start ++
      (o.displayedRows.take stop).drop start ++ o.displayedRows.drop stop := by
    conv_lhs => rw [← List.take_append_drop stop o.displayedRows,
      ← List.take_append_drop start (o.displayedRows.take stop), List.take_take,
      Nat.min_eq_left hle]
  have hcount := congrArg (fun l => (allRows l).length) hsplit
  simp only [allRows_append, List.length_append] at hcount
  simp only [allRows_append, List.length_append, ho.height]
  omega

/-! ## Truncation -/

omit [BiMap M ℕ ℕ] in
theorem truncateIdx_eq {lines : List DisplayedRows} (h : Ascending lines) (row : ℕ)
    (idx : Option ℕ) :
    truncateIdx row lines.zipIdx.reverse idx =
      (lines.findIdx? fun rows => decide (row ≤ rows.range.stop)).or idx := by
  induction lines using List.reverseRecOn generalizing idx with
  | nil => rfl
  | append_singleton init last ih =>
    rw [List.zipIdx_append, List.reverse_append, List.findIdx?_append]
    simp only [List.zipIdx_singleton, List.reverse_singleton, List.singleton_append, truncateIdx,
      Nat.zero_add]
    have hinit := h.sublist (List.sublist_append_left _ _)
    split
    · rename_i hgt
      have hnone : (init.findIdx? fun rows => decide (row ≤ rows.range.stop)) = none := by
        rw [List.findIdx?_eq_none_iff]
        intro rows hr
        have h1 := (List.pairwise_append.mp h.2).2.2 rows hr last (by simp)
        have h2 := h.1 last (by simp)
        exact decide_eq_false (by omega)
      rw [hnone]
      simp [List.findIdx?_cons, Nat.not_le.mpr hgt]
    · rename_i hle
      rw [ih hinit]
      simp only [List.findIdx?_cons, decide_eq_true (Nat.le_of_not_lt hle)]
      cases init.findIdx? fun rows => decide (row ≤ rows.range.stop) <;> simp

theorem mem_bounds {lines : List DisplayedRows} {x : ℕ} (hx : x ∈ allRows lines) :
    ∃ rows ∈ lines, rows.range.start ≤ x ∧ x ≤ rows.range.stop := by
  obtain ⟨rows, hr, hc⟩ := mem_allRows.mp hx
  rw [RangeInclusive.contains, Bool.and_eq_true, decide_eq_true_eq, decide_eq_true_eq] at hc
  exact ⟨rows, hr, hc⟩

theorem filter_allRows_eq_self {lines : List DisplayedRows} {row : ℕ}
    (h : ∀ rows ∈ lines, rows.range.stop ≤ row) :
    (allRows lines).filter (fun r => decide (r ≤ row)) = allRows lines := by
  rw [List.filter_eq_self]
  intro x hx
  obtain ⟨rows, hr, -, hle⟩ := mem_bounds hx
  exact decide_eq_true (hle.trans (h rows hr))

theorem filter_allRows_eq_nil {lines : List DisplayedRows} {row : ℕ}
    (h : ∀ rows ∈ lines, row < rows.range.start) :
    (allRows lines).filter (fun r => decide (r ≤ row)) = [] := by
  rw [List.filter_eq_nil_iff]
  intro x hx
  obtain ⟨rows, hr, hle, -⟩ := mem_bounds hx
  have := h rows hr
  simp only [decide_eq_true_eq]
  omega

theorem filter_rows {r : RangeInclusive} {row : ℕ} (h : r.contains row = true) :
    r.rows.filter (fun x => decide (x ≤ row)) = (⟨r.start, row⟩ : RangeInclusive).rows := by
  rw [RangeInclusive.contains, Bool.and_eq_true, decide_eq_true_eq, decide_eq_true_eq] at h
  rw [RangeInclusive.rows, RangeInclusive.rows,
    show r.stop + 1 - r.start = (row + 1 - r.start) + (r.stop - row) by omega,
    List.range'_append_1.symm,
    List.filter_append, List.filter_eq_self.mpr, List.filter_eq_nil_iff.mpr, List.append_nil]
  · intro x hx
    rw [List.mem_range'_1] at hx
    simp only [decide_eq_true_eq]
    omega
  · intro x hx
    rw [List.mem_range'_1] at hx
    exact decide_eq_true (by omega)

/-- What a truncation leaves: the rows up to `row`, and the map as it was. -/
structure Truncated (o : DisplayedOutput M) (row : ℕ) (o' : DisplayedOutput M) : Prop where
  ascending : Ascending o'.displayedRows
  rows : allRows o'.displayedRows =
    (allRows o.displayedRows).filter fun r => decide (r ≤ row)
  height : o'.height = (allRows o'.displayedRows).length
  map : o'.rowTranslationMap = o.rowTranslationMap

omit [BiMap M ℕ ℕ] in
theorem truncated_self {o : DisplayedOutput M} (ha : Ascending o.displayedRows)
    (hh : o.height = (allRows o.displayedRows).length) {row : ℕ}
    (h : ∀ rows ∈ o.displayedRows, rows.range.stop ≤ row) : o.Truncated row o :=
  ⟨ha, (filter_allRows_eq_self h).symm, hh, rfl⟩

theorem split_of_findIdx? {lines : List DisplayedRows} {row idx : ℕ}
    (h : lines.findIdx? (fun rows => decide (row ≤ rows.range.stop)) = some idx) :
    ∃ before first rest, lines = before ++ first :: rest ∧ lines.take idx = before ∧
      lines.drop idx = first :: rest ∧ row ≤ first.range.stop ∧
        ∀ rows ∈ before, rows.range.stop ≤ row := by
  obtain ⟨hlt, hge, hbefore⟩ := List.findIdx?_eq_some_iff_getElem.mp h
  have hdrop : lines.drop idx = lines[idx] :: lines.drop (idx + 1) :=
    (List.getElem_cons_drop hlt).symm
  refine ⟨lines.take idx, lines[idx], lines.drop (idx + 1), ?_, rfl, hdrop, by simpa using hge,
    fun rows hr => ?_⟩
  · rw [← hdrop, List.take_append_drop]
  · obtain ⟨j, hj, rfl⟩ := List.getElem_of_mem hr
    rw [List.length_take] at hj
    have := hbefore j (by omega)
    rw [List.getElem_take]
    simp only [decide_eq_true_eq] at this
    omega

omit [BiMap M ℕ ℕ] in
theorem truncateRanges_spec {o : DisplayedOutput M} (ha : Ascending o.displayedRows)
    (hh : o.height = (allRows o.displayedRows).length) (row : ℕ) :
    ∃ o', o.truncateRanges row = .ok o' ∧ o.Truncated row o' := by
  rw [truncateRanges, truncateIdx_eq ha, Option.or_none]
  split
  · rename_i hnone
    refine ⟨o, rfl, truncated_self ha hh fun rows hr => ?_⟩
    have := List.findIdx?_eq_none_iff.mp hnone rows hr
    simp only [decide_eq_false_iff_not] at this
    omega
  · rename_i idx hidx
    obtain ⟨before, first, rest, hsplit, htake', hdrop, hge, htake⟩ := split_of_findIdx? hidx
    rw [htake', hdrop]
    rw [hsplit] at ha hh
    have hfle : first.range.start ≤ first.range.stop := ha.1 first (by simp)
    have hrest : ∀ rows ∈ rest, row < rows.range.start := by
      intro rows hr
      have := (List.pairwise_cons.mp (List.pairwise_append.mp ha.2).2.1).1 rows hr
      omega
    have hrestle : ∀ rows ∈ rest, rows.range.start ≤ rows.range.stop := fun rows hr =>
      ha.1 rows (by simp [hr])
    rw [allRows_append, allRows_cons, List.length_append, List.length_append] at hh
    have hfilter : (allRows o.displayedRows).filter (fun r => decide (r ≤ row)) =
        allRows before ++ first.range.rows.filter fun r => decide (r ≤ row) := by
      rw [hsplit, allRows_append, allRows_cons, List.filter_append, List.filter_append,
        filter_allRows_eq_self htake, filter_allRows_eq_nil hrest, List.append_nil]
    simp only
    rw [height_ok hfle, ok_bind, subHeights_ok hrestle, ok_bind]
    split
    · rename_i hc
      have hcb := hc
      rw [RangeInclusive.contains, Bool.and_eq_true, decide_eq_true_eq, decide_eq_true_eq] at hcb
      have hr1 : first.range.start ≤ row := hcb.1
      have hh : (⟨⟨first.range.start, row⟩, first.source⟩ : DisplayedRows).height = .ok _ :=
        height_ok hr1
      rw [hh, ok_bind]
      refine ⟨_, rfl, ⟨?_, ?_⟩, ?_, ?_, rfl⟩
      · intro rows hr
        rcases List.mem_append.mp hr with hr | hr
        · exact ha.1 rows (by simp [hr])
        · rw [List.mem_singleton.mp hr]
          exact hr1
      · refine List.pairwise_append.mpr ⟨(List.pairwise_append.mp ha.2).1,
          List.pairwise_singleton _ _, ?_⟩
        intro a hmem b hb
        rw [List.mem_singleton.mp hb]
        exact (List.pairwise_append.mp ha.2).2.2 a hmem first List.mem_cons_self
      · rw [hfilter, filter_rows hc, allRows_append, allRows_cons,
          show allRows [] = [] from rfl, List.append_nil]
      · rw [allRows_append, allRows_cons, show allRows [] = [] from rfl, List.append_nil,
          List.length_append]
        simp only
        omega
    · rename_i hc
      have hnil : first.range.rows.filter (fun r => decide (r ≤ row)) = [] := by
        rw [RangeInclusive.contains, Bool.and_eq_true, decide_eq_true_eq,
          decide_eq_true_eq] at hc
        rw [List.filter_eq_nil_iff]
        intro x hx
        rw [RangeInclusive.rows, List.mem_range'_1] at hx
        simp only [decide_eq_true_eq]
        omega
      refine ⟨_, rfl, ha.sublist (List.sublist_append_left _ _), ?_, ?_, rfl⟩
      · rw [hfilter, hnil, List.append_nil]
      · simp only
        omega

omit [BiMap M ℕ ℕ] in
theorem truncateToRow_spec {o : DisplayedOutput M} (ha : Ascending o.displayedRows)
    (hh : o.height = (allRows o.displayedRows).length) (row : ℕ) :
    ∃ o', o.truncateToRow row = .ok o' ∧ o.Truncated row o' := by
  rw [truncateToRow]
  split
  · rename_i first hfirst
    split
    · rename_i hlt
      refine ⟨_, rfl, Ascending.nil, ?_, rfl, rfl⟩
      obtain ⟨rest, hrest⟩ := List.head?_eq_some_iff.mp hfirst
      rw [hrest] at ha ⊢
      refine (filter_allRows_eq_nil fun rows hr => ?_).symm
      rcases List.mem_cons.mp hr with rfl | hr
      · exact hlt
      · have h1 := (List.pairwise_cons.mp ha.2).1 rows hr
        have h2 := ha.1 first List.mem_cons_self
        omega
    · exact truncateRanges_spec ha hh row
  · rename_i hnone
    rw [List.head?_eq_none_iff] at hnone
    split
    · rename_i last hlast
      rw [hnone] at hlast
      exact nomatch hlast
    · exact truncateRanges_spec ha hh row

/-- **A truncation of an exact output leaves it exact if and only if it cuts nothing off.** -/
theorem truncateToRow_exact_iff {o : DisplayedOutput M} (ho : o.Exact) (row : ℕ) :
    ∃ o', o.truncateToRow row = .ok o' ∧
      (o'.Exact ∧ o'.Agrees ↔ ∀ rows ∈ o.displayedRows, rows.range.stop ≤ row) := by
  obtain ⟨o', he, ht⟩ := truncateToRow_spec ho.ascending ho.height row
  refine ⟨o', he, fun hex rows hr => ?_, fun hcut => ?_⟩
  · by_contra hgt
    -- the end of the range is still in the map
    have hle := ho.ascending.1 rows hr
    have hmem : rows.range.stop ∈ allRows o.displayedRows :=
      mem_allRows.mpr ⟨rows, hr, by simp [RangeInclusive.contains, hle]⟩
    have hmem' := hmem
    rw [← ho.map.getByLeft_isSome, ← ht.map, hex.1.map.getByLeft_isSome, ht.rows,
      List.mem_filter, decide_eq_true_eq] at hmem'
    exact hgt hmem'.2
  · have hex : o'.Exact := by
      refine ⟨ht.ascending, ht.height, ?_⟩
      rw [ht.map, ht.rows, filter_allRows_eq_self hcut]
      exact ho.map
    exact ⟨hex, hex.agrees⟩

/-! ## Runs -/

/-- **An allowed call on an exact output returns, and leaves it exact if and only if it is not a
truncation that cuts something off.** -/
theorem step_exact_iff {o : DisplayedOutput M} (ho : o.Exact) {op : Op} (h : o.Allowed op) :
    ∃ o', o.step op = .ok o' ∧ (o'.Exact ∧ o'.Agrees ↔ o.CutsNothing op) := by
  have key : ∀ {r : Result (DisplayedOutput M)}, (∃ o', r = .ok o' ∧ o'.Exact) →
      ∃ o', r = .ok o' ∧ (o'.Exact ∧ o'.Agrees ↔ True) := by
    rintro _ ⟨o', he, hex⟩
    exact ⟨o', he, iff_true_intro ⟨hex, hex.agrees⟩⟩
  cases op with
  | newFromDisplayedLines lines => exact key (newFromDisplayedLines_exact h)
  | extendDisplayedLines lines => exact key (extendDisplayedLines_exact ho h)
  | prependDisplayedLines lines => exact key (prependDisplayedLines_exact ho h)
  | spliceDisplayedLines start stop lines =>
    obtain ⟨o', he, hex⟩ := spliceDisplayedLines_exact ho h.1 h.2.1 h.2.2
    exact key ⟨o', by rw [step, he]; rfl, hex⟩
  | truncateToRow row => exact truncateToRow_exact_iff ho row
  | reset => exact key ⟨_, rfl, exact_default⟩

/-- The calls of a run, each with the output it is made on. -/
def calls (o : DisplayedOutput M) : List Op → List (DisplayedOutput M × Op)
  | [] => []
  | op :: ops =>
    (o, op) :: match o.step op with
      | .ok o' => calls o' ops
      | .error _ => []

/-- The outputs that a run goes through. -/
def visited (o : DisplayedOutput M) : List Op → List (DisplayedOutput M)
  | [] => [o]
  | op :: ops =>
    o :: match o.step op with
      | .ok o' => visited o' ops
      | .error _ => []

theorem run_exact_iff_of_exact {o : DisplayedOutput M} (ho : o.Exact) {ops : List Op}
    (h : ∀ call ∈ o.calls ops, call.1.Allowed call.2) :
    (∀ o' ∈ o.visited ops, o'.Exact ∧ o'.Agrees) ↔
      ∀ call ∈ o.calls ops, call.1.CutsNothing call.2 := by
  induction ops generalizing o with
  | nil =>
    rw [calls, visited, List.forall_mem_singleton]
    exact ⟨fun _ => by simp, fun _ => ⟨ho, ho.agrees⟩⟩
  | cons op ops ih =>
    rw [calls, visited] at *
    rw [List.forall_mem_cons] at h ⊢
    rw [List.forall_mem_cons]
    obtain ⟨o', he, hiff⟩ := step_exact_iff ho h.1
    rw [he] at h ⊢
    have hhead : ∀ ops, o' ∈ o'.visited ops := by
      intro ops
      cases ops <;> exact List.mem_cons_self
    constructor
    · rintro ⟨-, hrest⟩
      have hex := hrest o' (hhead ops)
      exact ⟨hiff.mp hex, (ih hex.1 h.2).mp hrest⟩
    · rintro ⟨hcut, hrest⟩
      exact ⟨⟨ho, ho.agrees⟩, (ih (hiff.mpr hcut).1 h.2).mpr hrest⟩

/-- **A run of allowed calls is exact throughout if and only if no truncation in it cuts displayed
rows off.** -/
theorem run_exact_iff (ops : List Op)
    (h : ∀ call ∈ (default : DisplayedOutput M).calls ops, call.1.Allowed call.2) :
    (∀ o ∈ (default : DisplayedOutput M).visited ops, o.Exact ∧ o.Agrees) ↔
      ∀ call ∈ (default : DisplayedOutput M).calls ops, call.1.CutsNothing call.2 :=
  run_exact_iff_of_exact exact_default h

/-- The ranges of the documentation of `truncate_to_row`. -/
def documentedRanges : List DisplayedRows :=
  [⟨⟨2, 4⟩, .filterMatch⟩, ⟨⟨6, 10⟩, .filterMatch⟩, ⟨⟨16, 17⟩, .filterMatch⟩]

theorem run_exact_iff_documented :
    (∀ o ∈ (default : DisplayedOutput (PairList ℕ ℕ)).visited
        [.newFromDisplayedLines documentedRanges, .truncateToRow 17], o.Exact ∧ o.Agrees) ↔
      ∀ call ∈ (default : DisplayedOutput (PairList ℕ ℕ)).calls
        [.newFromDisplayedLines documentedRanges, .truncateToRow 17],
        call.1.CutsNothing call.2 :=
  run_exact_iff _ (by decide)

/-- **After the truncation to row 8 of the documentation, row 9 still counts as displayed**, though
the ranges end at row 8, and so does row 17, at a displayed row past the end. -/
theorem truncateToRow_stale :
    (∀ call ∈ (default : DisplayedOutput (PairList ℕ ℕ)).calls
      [.newFromDisplayedLines documentedRanges, .truncateToRow 8], call.1.Allowed call.2) ∧
    ∃ o ∈ (default : DisplayedOutput (PairList ℕ ℕ)).visited
      [.newFromDisplayedLines documentedRanges, .truncateToRow 8],
      o.displayedRows = [⟨⟨2, 4⟩, .filterMatch⟩, ⟨⟨6, 8⟩, .filterMatch⟩] ∧ o.height = 6 ∧
        o.isDisplayedRow 9 = true ∧
        o.maybeTranslatePointFromOriginalToDisplayed ⟨17, 0⟩ = ⟨9, 0⟩ ∧ ¬ o.Agrees := by
  refine ⟨by decide, ⟨[⟨⟨2, 4⟩, .filterMatch⟩, ⟨⟨6, 8⟩, .filterMatch⟩], 6,
    BiMap.insertAll BiMap.empty 0 (allRows documentedRanges)⟩, ?_, rfl, rfl, by decide, by decide,
    fun h => ?_⟩
  · exact List.mem_cons_of_mem _ (List.mem_cons_of_mem _ List.mem_cons_self)
  · exact absurd ((h.isDisplayedRow 9).mp (by decide)) (by decide)

end DisplayedOutput

end Clinch
