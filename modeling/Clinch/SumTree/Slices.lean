import Clinch.SumTree.Exact

/-!
# Slices partition the sequence

One cursor cuts the sequence into slices at targets that never decrease, and a suffix.

* `EndsBefore`, `itemsBefore`: the items that a slice takes;
* `Ready.slices`: one slice after the other;
* `boundary_iff`: when a seek says that it has found its target;
* **`slices_partition`**: the slices and the suffix are the items from the cursor on;
* `doubled_slices_capacity`: over a tree that is too high, no slice at all.
-/

set_option autoImplicit false

namespace Clinch

open SumTree

variable {T S D U W : Type} [AddMonoid S] [Item T S] [Dimension D S] [Dimension U S]
  [Dimension W S] [LinearOrder D]

/-- An item with the end `d` is before the target. -/
def EndsBefore (target : D) : SeekBias → D → Prop
  | .left, d => d < target
  | .right, d => d ≤ target

instance (target : D) (bias : SeekBias) : DecidablePred (EndsBefore target bias) := fun d =>
  match bias with
  | .left => inferInstanceAs (Decidable (d < target))
  | .right => inferInstanceAs (Decidable (d ≤ target))

/-- The first items that end before the target, from the sum `d` on. -/
def itemsBefore (target : D) (bias : SeekBias) : D → List T → List T
  | _, [] => []
  | d, y :: ys =>
    if EndsBefore target bias (Dimension.addSummary d (Item.summary y)) then
      y :: itemsBefore target bias (Dimension.addSummary d (Item.summary y)) ys
    else []

variable {target : D} {bias : SeekBias} {xs ys ms : List T}

omit [Dimension D S] in
theorem targetBeyond_iff {d : D} :
    Cursor.targetBeyond .no false target bias d = true ↔ EndsBefore target bias d := by
  cases bias with
  | left => simp [Cursor.targetBeyond, EndsBefore]
  | right =>
    rw [EndsBefore, le_iff_lt_or_eq, @eq_comm D d]
    simp [Cursor.targetBeyond]

omit [Dimension D S] in
theorem EndsBefore.of_le {d d' : D} (h : EndsBefore target bias d) (hle : d' ≤ d) :
    EndsBefore target bias d' := by
  cases bias with
  | left => exact lt_of_le_of_lt hle h
  | right => exact le_trans hle h

omit [Dimension D S] in
theorem EndsBefore.le {d : D} (h : EndsBefore target bias d) : d ≤ target := by
  cases bias with
  | left => exact le_of_lt h
  | right => exact h

omit [AddMonoid S] in
/-- The items that a seek has passed, when the next one does not end before the target. -/
theorem itemsBefore_append (hms : ∀ a b, ms = a ++ b → a ≠ [] →
      EndsBefore target bias (measure D (xs ++ a)))
    (hys : ∀ y ∈ ys.head?, ¬ EndsBefore target bias (measure D (xs ++ ms ++ [y]))) :
    itemsBefore target bias (measure D xs) (ms ++ ys) = ms := by
  induction ms generalizing xs with
  | nil =>
    cases ys with
    | nil => rfl
    | cons y ys =>
      rw [List.nil_append, itemsBefore, if_neg]
      have hy := hys y rfl
      rwa [List.append_nil, measure_append] at hy
  | cons x ms ih =>
    have hx := hms [x] ms rfl (List.cons_ne_nil _ _)
    have hend : measure D (xs ++ [x]) = Dimension.addSummary (measure D xs) (Item.summary x) :=
      measure_append xs [x]
    rw [List.cons_append, itemsBefore, if_pos (hend ▸ hx), ← hend, ih]
    · intro a b hab hne
      have h := hms (x :: a) b (by rw [hab]; rfl) (List.cons_ne_nil _ _)
      rwa [List.append_cons] at h
    · intro y hy
      rw [List.append_assoc xs [x]]
      exact hys y hy

namespace Cursor

variable {root : SumTree T S} {H : ℕ} {c : Cursor T S D U} {start : Started T}

omit [AddMonoid S] in
/-- **A seek passes exactly the items that end before the target.** -/
theorem Passed.itemsBefore (hm : MonotoneDimension D (xs ++ (ms ++ ys)))
    (hstart : start.before = xs) (hp : Passed target bias .no start (xs ++ ms))
    (hstop : Stops target bias .no (xs ++ ms) ys) :
    itemsBefore target bias (measure D xs) (ms ++ ys) = ms := by
  refine itemsBefore_append ?_ fun y hy => ?_
  · rintro a b rfl hne
    have hlast : EndsBefore target bias (measure D (xs ++ (a ++ b))) := by
      refine targetBeyond_iff.mp ((hp rfl).resolve_left fun hxs => hne ?_)
      rw [hstart, List.append_right_eq_self] at hxs
      exact (List.append_eq_nil_iff.mp hxs).1
    refine hlast.of_le ?_
    rw [← List.append_assoc]
    exact hm (xs ++ a) b ys (by simp)
  · rw [← targetBeyond_iff, Bool.not_eq_true]
    exact hstop rfl y hy

omit [AddMonoid S] in
/-- The seek does not go past its target. -/
theorem Passed.measure_le (hstart : start.before = xs) (ht : measure D xs ≤ target)
    (hp : Passed target bias .no start ms) : measure D ms ≤ target := by
  rcases hp rfl with h | h
  · rwa [h, hstart]
  · exact (targetBeyond_iff.mp h).le

omit [AddMonoid S] in
/-- A seek over all items has found its target exactly when the target is the end of an item or, with
the bias to the right, the start of the first one. -/
theorem boundary_iff (hm : MonotoneDimension D (ms ++ ys)) (ht : Dimension.default S ≤ target)
    (hp : Passed target bias .no (.none []) ms) (hstop : Stops target bias .no ms ys) :
    target = boundary D bias ms ys ↔ ∃ p q, ms ++ ys = p ++ q ∧ target = measure D p ∧
      (bias = .left → p = [] → q = []) := by
  have hle : measure D ms ≤ target := @Passed.measure_le _ _ _ _ _ _ _ _ [] _ _ rfl ht hp
  have hnext : ∀ y ∈ ys.head?, ¬ EndsBefore target bias (measure D (ms ++ [y])) := fun y hy => by
    rw [← targetBeyond_iff, Bool.not_eq_true]
    exact hstop rfl y hy
  constructor
  · intro h
    cases bias with
    | left =>
      cases ys with
      | nil => exact ⟨ms, [], rfl, h, fun _ _ => rfl⟩
      | cons y ys => exact ⟨ms ++ [y], ys, by simp, h, fun _ hnil => absurd hnil (by simp)⟩
    | right => exact ⟨ms, ys, rfl, h, fun hbias => nomatch hbias⟩
  · rintro ⟨p, q, hpq, htarget, hnil⟩
    -- with the bias to the left, a seek that has passed an item is before the target
    have hlt : bias = .left → ms ≠ [] → measure D ms < target := by
      rintro rfl hne
      exact targetBeyond_iff.mp ((hp rfl).resolve_left hne)
    rcases List.append_eq_append_iff.mp hpq with ⟨r, rfl, rfl⟩ | ⟨r, rfl, rfl⟩
    · cases r with
      | nil =>
        rw [List.append_nil] at htarget hnil
        cases bias with
        | left =>
          by_cases hne : ms = []
          · rw [hnil rfl hne]
            exact htarget
          · exact absurd htarget (hlt rfl hne).ne'
        | right => exact htarget
      | cons y r =>
        have hstep : measure D (ms ++ [y]) ≤ target := by
          rw [htarget, show ms ++ y :: r = ms ++ [y] ++ r by simp]
          exact hm (ms ++ [y]) r q (by simp)
        cases bias with
        | left => exact le_antisymm (not_lt.mp (hnext y rfl)) hstep
        | right => exact absurd hstep (hnext y rfl)
    · have hstep : target ≤ measure D (p ++ r) := by
        rw [htarget]
        exact hm p r ys rfl
      cases bias with
      | left =>
        by_cases hne : p ++ r = []
        · obtain ⟨rfl, rfl⟩ := List.append_eq_nil_iff.mp hne
          rw [show ys = [] from hnil rfl rfl]
          exact htarget
        · exact absurd hstep (not_le.mpr (hlt rfl hne))
      | right => exact le_antisymm hstep hle

/-- `slice` for one target after the other. -/
def slices (c : Cursor T S D U) :
    List (D × SeekBias) → Result (Cursor T S D U × List (SumTree T S))
  | [] => .ok (c, [])
  | (endPos, bias) :: targets => do
    let (c, slice) ← c.slice endPos bias
    let (c, slices) ← c.slices targets
    return (c, slice :: slices)

section Calls

variable (w : Wf H root) (hH : H < stackCapacity) (hD : ExactDimension T D)

include w hH hD

omit [Dimension W S] in
/-- **Slices at targets that never decrease** are the items that the cursor moves over. -/
theorem Ready.slices {targets : List (D × SeekBias)} (hc : c.Ready root H xs ys)
    (ht : (c.seekDimension :: targets.map Prod.fst).Pairwise (· ≤ ·)) :
    Returns (fun r => ∃ ms ys', ys = ms ++ ys' ∧ r.1.Ready root H (xs ++ ms) ys' ∧
      (r.2.map toList).flatten = ms) (c.slices targets) := by
  induction targets generalizing c xs ys with
  | nil => exact Returns.ok ⟨[], ys, rfl, by simpa using hc, rfl⟩
  | cons target targets ih =>
    obtain ⟨endPos, bias⟩ := target
    rw [List.map_cons, List.pairwise_cons, List.pairwise_cons] at ht
    obtain ⟨hfirst, hrest, ht⟩ := ht
    have hpos : c.seekDimension ≤ endPos := hfirst _ List.mem_cons_self
    refine (hc.slice w hH hD hpos bias).bind ?_
    rintro ⟨c', u⟩ ⟨ms, ys', rfl, hat, hu, -, hp, -⟩
    have hle : c'.seekDimension ≤ endPos := by
      rw [hat.sums.1]
      exact hp.measure_le rfl (hc.sums.1 ▸ hpos)
    refine (ih (Or.inl hat) (List.pairwise_cons.mpr ⟨?_, ht⟩)).bind ?_
    · exact fun d hd => le_trans hle (hrest d hd)
    · rintro ⟨c'', us⟩ ⟨ks, ys'', rfl, hready, hus⟩
      refine Returns.ok ⟨ms ++ ks, ys'', (List.append_assoc _ _ _).symm, ?_, ?_⟩
      · rw [← List.append_assoc]
        exact hready
      · rw [List.map_cons, List.flatten_cons, hu, hus]

omit [Dimension W S] in
/-- **The suffix is all that is left.** -/
theorem Ready.suffix (hm : MonotoneDimension D root.toList) (hc : c.Ready root H xs ys) :
    Returns (fun r => r.2.toList = ys ∧ ∃ h, Wf h r.2) c.suffix := by
  have hext : extent c.tree D = measure D (xs ++ ys) := by
    rw [hc.tree_eq, hD.extent_eq w, hc.append_eq]
  have hle : c.seekDimension ≤ extent c.tree D := by
    rw [hext, hc.sums.1]
    exact hm xs ys [] (by rw [hc.append_eq, List.append_nil])
  refine Returns.mono (hc.slice w hH hD hle .right) ?_
  rintro ⟨c', u⟩ ⟨ms, ys', rfl, hat, hu, hwf, hp, hstop⟩
  refine ⟨hu.trans ?_, hwf⟩
  cases ys' with
  | nil => exact (List.append_nil ms).symm
  | cons y ys' =>
    -- the next item would end before the end of the sequence
    refine absurd ?_ ((targetBeyond_iff.not).mp (Bool.eq_false_iff.mp (hstop rfl y rfl)))
    change _ ≤ extent c.tree D
    rw [hext, show xs ++ (ms ++ y :: ys') = (xs ++ ms ++ [y]) ++ ys' by simp]
    refine hm _ ys' [] ?_
    rw [hc.append_eq]
    simp

/-- **A summary is the sum over the items that the cursor moves over.** -/
theorem Ready.summaryTo (hW : ExactDimension T W) (hc : c.Ready root H xs ys)
    (ht : c.seekDimension ≤ target) (bias : SeekBias) :
    Returns (fun r => ∃ ms ys', ys = ms ++ ys' ∧ r.1.At root H (xs ++ ms) ys' ∧
      r.2 = measure W ms ∧ Passed target bias .no (.summary xs) (xs ++ ms) ∧
      Stops target bias .no (xs ++ ms) ys') (c.summaryTo W target bias) := by
  have ha : Collects (.summary (Dimension.default S : W)) (.summary xs) xs := by
    have ha : Collects (.summary (Dimension.default S : W)) (.summary xs) (xs ++ []) :=
      .summary fun _ => rfl
    rwa [List.append_nil] at ha
  refine (seekInternal_at target bias .no w hH hD hc ht ha rfl).bind ?_
  rintro ⟨c', agg, found⟩ ⟨ms, ys', rfl, hat, ha, hp, hstop, -⟩
  generalize hzs : xs ++ ms = zs at ha hat hp hstop
  cases ha with
  | summary hsum =>
    obtain rfl := List.append_cancel_left hzs
    exact Returns.ok ⟨ms, ys', rfl, hat, hsum hW, hp, hstop⟩

omit [Dimension W S] in
/-- **A seek says whether it has found its target.** -/
theorem Ready.seek (hm : MonotoneDimension D root.toList) (hc : c.Ready root H xs ys)
    (ht : Dimension.default S ≤ target) (bias : SeekBias) :
    Returns (fun r => (∃ ms ys', root.toList = ms ++ ys' ∧ r.1.At root H ms ys' ∧
        Passed target bias .no (.none []) ms ∧ Stops target bias .no ms ys') ∧
      (r.2 = true ↔ ∃ p q, root.toList = p ++ q ∧ target = measure D p ∧
        (bias = .left → p = [] → q = []))) (c.seek target bias) := by
  have hreset : c.reset.Ready root H [] root.toList := Or.inr ⟨by rw [← hc.tree_eq]; rfl, rfl, rfl⟩
  refine (seekInternal_at target bias .no w hH hD hreset ht
    (.none : Collects (.none : SeekAggregate T S Unit) (.none []) []) rfl).bind ?_
  rintro ⟨c', agg, found⟩ ⟨ms, ys', hroot, hat, -, hp, hstop, hfound⟩
  refine Returns.ok ⟨⟨ms, ys', hroot, hat, hp, hstop⟩, hfound.trans ?_⟩
  rw [hroot] at hm ⊢
  exact boundary_iff hm ht hp hstop

end Calls

end Cursor

/-- **Slices partition the sequence**, on a tree of height at most 15. The slices of one cursor at
targets that never decrease and the suffix are the items from its position on; a slice takes the
items that end before its target, a summary is the sum over them, and a seek says whether its target
is the end of an item or, with the bias to the right or no items, the start. -/
theorem slices_partition {t : SumTree T S} (b : Built t) (hH : t.height < stackCapacity)
    (hD : ExactDimension T D) (hm : MonotoneDimension D t.toList)
    {c : Cursor T S D U} (r : Cursor.Run Cursor.PrevExact t c) :
    (∀ targets : List (D × SeekBias),
      (c.seekDimension :: targets.map Prod.fst).Pairwise (· ≤ ·) →
      ∃ c' slices c'' suffix, c.slices targets = .ok (c', slices) ∧
        c'.suffix = .ok (c'', suffix) ∧
        (slices.map toList).flatten ++ suffix.toList = t.toList.drop c.position) ∧
    (∀ target bias, c.seekDimension ≤ target →
      (∃ c' slice, c.slice target bias = .ok (c', slice) ∧ slice.toList =
        itemsBefore target bias (measure D (t.toList.take c.position)) (t.toList.drop c.position)) ∧
      ∀ (W : Type) [Dimension W S], ExactDimension T W → ∃ c' sum,
        c.summaryTo W target bias = .ok (c', sum) ∧ sum = measure W (itemsBefore target bias
          (measure D (t.toList.take c.position)) (t.toList.drop c.position))) ∧
    ∀ target bias, Dimension.default S ≤ target → ∃ c' found,
      c.seek target bias = .ok (c', found) ∧ (found = true ↔
        ∃ p q, t.toList = p ++ q ∧ target = measure D p ∧ (bias = .left → p = [] → q = [])) := by
  obtain ⟨h, w⟩ := b.wf
  rw [w.height_eq] at hH
  obtain ⟨xs, ys, hc⟩ := r.ready w hH hD hm
  have hpos : c.position = xs.length := hc.position
  have hdrop : t.toList.drop c.position = ys := by rw [hpos, hc.append_eq, List.drop_left]
  have htake : t.toList.take c.position = xs := by rw [hpos, hc.append_eq, List.take_left]
  rw [hdrop, htake]
  refine ⟨fun targets ht => ?_, fun target bias ht => ⟨?_, fun W _ hW => ?_⟩,
    fun target bias ht => ?_⟩
  · obtain ⟨⟨c', us⟩, hslices, ms, ys', rfl, hready, hus⟩ := hc.slices w hH hD ht
    obtain ⟨⟨c'', u⟩, hsuffix, hu, -⟩ := hready.suffix w hH hD hm
    exact ⟨c', us, c'', u, hslices, hsuffix, congrArg₂ _ hus hu⟩
  · obtain ⟨⟨c', u⟩, hslice, ms, ys', rfl, -, hu, -, hp, hstop⟩ := hc.slice w hH hD ht bias
    exact ⟨c', u, hslice, hu.trans (hp.itemsBefore (hc.append_eq ▸ hm) rfl hstop).symm⟩
  · obtain ⟨⟨c', sum⟩, hsum, ms, ys', rfl, -, e, hp, hstop⟩ := hc.summaryTo w hH hD hW ht bias
    exact ⟨c', sum, hsum, e.trans (congrArg _ (hp.itemsBefore (hc.append_eq ▸ hm) rfl hstop).symm)⟩
  · obtain ⟨⟨c', found⟩, hseek, -, hfound⟩ := hc.seek w hH hD hm ht bias
    exact ⟨c', found, hseek, hfound⟩

/-- Two slices of a tree with two leaves, and the rest of it. -/
theorem slices_partition_twoLeaves : ∃ c' slices c'' suffix,
    (Cursor.new twoLeaves : Cursor Unit ℕ ℕ ℕ).slices [(3, .left), (9, .right)] = .ok (c', slices) ∧
      c'.suffix = .ok (c'', suffix) ∧
      (slices.map toList).flatten ++ suffix.toList = twoLeaves.toList :=
  (slices_partition built_twoLeaves (by decide) exact_count (monotone_count _) .new).1
    [(3, .left), (9, .right)] (by decide)

/-- **Over a tree of more than 16 levels the first slice panics.** -/
theorem doubled_slices_capacity : ∃ t, doubled 58 = .ok t ∧ Built t ∧ ExactDimension Unit ℕ ∧
    MonotoneDimension ℕ t.toList ∧
    (Cursor.new t : Cursor Unit ℕ ℕ ℕ).slices [(0, .left)] = .error .capacity := by
  obtain ⟨t, h, e, b, w, hh, hne⟩ := doubled_high
  refine ⟨t, e, b, exact_count, monotone_count _, ?_⟩
  have hslice := Cursor.slice_capacity (D := ℕ) (U := ℕ) w hne hh Nat.not_lt_zero
  rw [Cursor.slices, show (0 : ℕ) = Dimension.default ℕ from rfl, hslice]
  rfl

end Clinch
