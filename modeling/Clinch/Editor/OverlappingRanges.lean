import Clinch.Intervals

/-!
# `Buffer::overlapping_ranges`

`crates/editor/src/content/buffer.rs`: the ranges are sorted by their start and swept from left to
right. The first result holds the places, in the sorted order, of the ranges that touch another
one, and the second the hulls of what touches.

* `overlappingRanges`, and `sweepStep`, one turn of its loop;
* `Swept`: what holds of the ranges swept so far;
* **`overlappingRanges_spec`**: the places reported, the hulls, and what they cover.
-/

set_option autoImplicit false

namespace Clinch.Editor

open Range

variable {α : Type} [LinearOrder α]

/-- `OverlapRange`: the ranges that touch what has just been swept. -/
structure OverlapRange (α : Type) where
  indices : List ℕ
  start : α
  stop : α

/-- The loop's state: `current_range`, `overlapping_indices` and `overlapping_ranges`. -/
structure Sweep (α : Type) where
  current : Option (OverlapRange α)
  indices : List ℕ
  ranges : List (Range α)

/-- A hull of more than one range is reported. -/
def Sweep.close (st : Sweep α) (overlap : OverlapRange α) : Sweep α :=
  if overlap.indices.length > 1 then
    { st with
      indices := st.indices ++ overlap.indices
      ranges := st.ranges ++ [⟨overlap.start, overlap.stop⟩] }
  else st

/-- One turn of the loop of `overlapping_ranges`. -/
def sweepStep (st : Sweep α) (e : Range α × ℕ) : Sweep α :=
  let (range, i) := e
  match st.current with
  | none => { st with current := some ⟨[i], range.start, range.stop⟩ }
  | some overlap =>
    if range.start ≤ overlap.stop then
      { st with
        current := some ⟨overlap.indices ++ [i], overlap.start, max range.stop overlap.stop⟩ }
    else { st.close overlap with current := some ⟨[i], range.start, range.stop⟩ }

/-- `ranges.sort_by_key(|f| f.start)`, which is stable. -/
def sortByStart (ranges : List (Range α)) : List (Range α) :=
  ranges.mergeSort fun r s => decide (r.start ≤ s.start)

/-- `Buffer::overlapping_ranges`. -/
def overlappingRanges (ranges : List (Range α)) : List ℕ × List (Range α) :=
  let st := (sortByStart ranges).zipIdx.foldl sweepStep ⟨none, [], []⟩
  let st := match st.current with
    | none => st
    | some overlap => st.close overlap
  (st.indices, st.ranges)

/-! ## The ranges swept so far -/

/-- The ranges of `group` are swept into one hull. -/
structure Group (group : List (Range α)) (start stop : α) : Prop where
  proper : start ≤ stop
  le_start : ∀ r ∈ group, start ≤ r.start
  le_stop : ∀ r ∈ group, r.stop ≤ stop
  cover : ∀ f : Range α → Set α, Additive f → f ⟨start, stop⟩ = cover f group
  touches : 1 < group.length → ∀ i < group.length, TouchesOther group i

/-- What is reported of the ranges of `done`, whose hulls all end before `bound` starts. -/
structure Reported (done : List (Range α)) (indices : List ℕ) (ranges : List (Range α)) : Prop where
  mem : ∀ i, i ∈ indices ↔ TouchesOther done i
  proper : ∀ r ∈ ranges, r.Proper
  within : ∀ r ∈ ranges, ∃ s ∈ done, r.stop ≤ s.stop
  pairwise : ranges.Pairwise fun r s => r.stop < s.start
  cover : ∀ f : Range α → Set α, Additive f →
    cover f ranges = {p | ∃ i ∈ indices, ∃ r ∈ done[i]?, p ∈ f r}

/-- What holds of the ranges swept so far: all but those of the current hull are reported. -/
def Swept (done : List (Range α)) (st : Sweep α) : Prop :=
  match st.current with
  | none => done = [] ∧ st.indices = [] ∧ st.ranges = []
  | some o => ∃ before group, done = before ++ group ∧ Reported before st.indices st.ranges ∧
      Group group o.start o.stop ∧ o.indices = List.range' before.length group.length ∧
      ∀ r ∈ before, r.stop < o.start

theorem Reported.nil : Reported ([] : List (Range α)) [] [] where
  mem := fun i => by simp [TouchesOther]
  proper := fun r hr => nomatch hr
  within := fun r hr => nomatch hr
  pairwise := List.Pairwise.nil
  cover := fun f hf => by ext p; simp [mem_cover]

theorem Group.singleton {r : Range α} (hr : r.Proper) : Group [r] r.start r.stop where
  proper := hr
  le_start := fun s hs => by rw [List.mem_singleton.mp hs]
  le_stop := fun s hs => by rw [List.mem_singleton.mp hs]
  cover := fun f hf => (cover_singleton r).symm
  touches := fun h => absurd h (by simp)

/-- Every place of the hull is in one of its ranges. -/
theorem Group.exists_mem {group : List (Range α)} {start stop p : α} (h : Group group start stop)
    (hp : p ∈ Set.Icc start stop) : ∃ s ∈ group, p ∈ Set.Icc s.start s.stop := by
  have hcover := h.cover _ additive_Icc
  simp only at hcover
  rw [hcover] at hp
  exact hp

/-- A range that starts within the hull joins it. -/
theorem Group.snoc {group : List (Range α)} {start stop : α} {r : Range α}
    (h : Group group start stop) (hr : r.Proper) (hsorted : ∀ s ∈ group, s.start ≤ r.start)
    (hstart : start ≤ r.start) (htouch : r.start ≤ stop) :
    Group (group ++ [r]) start (max r.stop stop) := by
  -- the range that ends last touches the new one
  obtain ⟨s, hs, -, hsstop⟩ := h.exists_mem ⟨h.proper, le_rfl⟩
  obtain ⟨k, hk⟩ := List.mem_iff_getElem?.mp hs
  have hklt := (List.getElem?_eq_some_iff.mp hk).1
  have hsr : s.Touches r := ⟨(hsorted s hs).trans hr, htouch.trans hsstop⟩
  have hk' : (group ++ [r])[k]? = some s := by rw [List.getElem?_append_left hklt, hk]
  have hlast : (group ++ [r])[group.length]? = some r := by simp
  refine ⟨h.proper.trans (le_max_right _ _), ?_, ?_, ?_, ?_⟩
  · intro t ht
    rcases List.mem_append.mp ht with ht | ht
    · exact h.le_start t ht
    · rw [List.mem_singleton.mp ht]
      exact hstart
  · intro t ht
    rcases List.mem_append.mp ht with ht | ht
    · exact (h.le_stop t ht).trans (le_max_right _ _)
    · rw [List.mem_singleton.mp ht]
      exact le_max_left _ _
  · intro f hf
    rw [cover_append, cover_singleton, ← h.cover f hf, max_comm]
    exact hf ⟨start, stop⟩ r h.proper hr hstart htouch
  · intro _ i hi
    rw [List.length_append, List.length_singleton] at hi
    rcases Nat.lt_succ_iff_lt_or_eq.mp hi with hi | rfl
    · by_cases hone : 1 < group.length
      · obtain ⟨t, ht, u, hu, htu⟩ := h.touches hone i hi
        refine ⟨t, ?_, u, ?_, htu⟩
        · rw [List.getElem?_append_left hi]
          exact ht
        · rw [List.eraseIdx_append_of_lt_length hi]
          exact List.mem_append_left _ hu
      · obtain rfl : i = k := by omega
        exact TouchesOther.of_ne hk' hlast (by omega) hsr
    · exact TouchesOther.of_ne hlast hk' (by omega) hsr.symm

/-- The hull of a group that ends before what follows starts is reported, if it has more than one
range. -/
theorem Reported.close {before group : List (Range α)} {st : Sweep α} {o : OverlapRange α}
    (h : Reported before st.indices st.ranges) (hg : Group group o.start o.stop)
    (hi : o.indices = List.range' before.length group.length)
    (hlt : ∀ r ∈ before, r.stop < o.start) :
    Reported (before ++ group) (st.close o).indices (st.close o).ranges := by
  have hapart : ∀ r ∈ before, ∀ s ∈ group, r.Apart s :=
    fun r hr s hs => Or.inl ((hlt r hr).trans_le (hg.le_start s hs))
  have hlen : o.indices.length = group.length := by rw [hi, List.length_range']
  unfold Sweep.close
  split
  · next hone =>
    rw [hlen] at hone
    refine ⟨?_, ?_, ?_, ?_, ?_⟩
    · intro i
      simp only [List.mem_append, touchesOther_append hapart, hi, List.mem_range'_1, h.mem]
      split
      · next hlt =>
        refine or_iff_left fun hc => ?_
        omega
      · next hge =>
        constructor
        · rintro (ht | ht)
          · exact absurd ht.lt hge
          · exact hg.touches hone _ (by omega)
        · intro ht
          have := ht.lt
          exact Or.inr ⟨by omega, by omega⟩
    · intro r hr
      rcases List.mem_append.mp hr with hr | hr
      · exact h.proper r hr
      · rw [List.mem_singleton.mp hr]
        exact hg.proper
    · intro r hr
      rcases List.mem_append.mp hr with hr | hr
      · obtain ⟨s, hs, hrs⟩ := h.within r hr
        exact ⟨s, List.mem_append_left _ hs, hrs⟩
      · rw [List.mem_singleton.mp hr]
        obtain ⟨s, hs, -, hstop⟩ := hg.exists_mem ⟨hg.proper, le_rfl⟩
        exact ⟨s, List.mem_append_right _ hs, hstop⟩
    · refine List.pairwise_append.mpr ⟨h.pairwise, List.pairwise_singleton _ _, ?_⟩
      intro r hr s hs
      rw [List.mem_singleton.mp hs]
      obtain ⟨t, ht, hrt⟩ := h.within r hr
      exact hrt.trans_lt (hlt t ht)
    · intro f hf
      rw [cover_append, cover_singleton, h.cover f hf, hg.cover f hf]
      ext p
      simp only [Set.mem_union, Set.mem_ofPred_eq, mem_cover, List.mem_append, or_and_right,
        exists_or]
      refine or_congr (exists_congr fun i => and_congr_right fun hmem => ?_) ?_
      · rw [List.getElem?_append_left ((h.mem i).mp hmem).lt]
      · rw [hi]
        constructor
        · rintro ⟨r, hr, hp⟩
          obtain ⟨k, hk⟩ := List.mem_iff_getElem?.mp hr
          have hklt := (List.getElem?_eq_some_iff.mp hk).1
          refine ⟨before.length + k, List.mem_range'_1.mpr ⟨by omega, by omega⟩, r, ?_, hp⟩
          rw [List.getElem?_append_right (by omega), Nat.add_sub_cancel_left]
          exact hk
        · rintro ⟨i, hmem, r, hr, hp⟩
          rw [List.mem_range'_1] at hmem
          rw [List.getElem?_append_right hmem.1] at hr
          exact ⟨r, List.mem_of_getElem? hr, hp⟩
  · next hone =>
    -- one range that touches none of those before it
    rw [hlen, not_lt] at hone
    have hnone : ∀ i, ¬ TouchesOther group i := by
      intro i ht
      obtain ⟨r, hr, s, hs, -⟩ := ht
      have := List.length_pos_of_mem hs
      rw [List.length_eraseIdx] at this
      have := (List.getElem?_eq_some_iff.mp hr).1
      split at * <;> omega
    refine ⟨?_, h.proper, ?_, h.pairwise, ?_⟩
    · intro i
      rw [h.mem, touchesOther_append hapart]
      split
      · rfl
      · next hge => exact iff_of_false (fun ht => hge ht.lt) (hnone _)
    · intro r hr
      obtain ⟨s, hs, hrs⟩ := h.within r hr
      exact ⟨s, List.mem_append_left _ hs, hrs⟩
    · intro f hf
      rw [h.cover f hf]
      ext p
      refine exists_congr fun i => and_congr_right fun hmem => ?_
      rw [List.getElem?_append_left ((h.mem i).mp hmem).lt]

/-- There are hulls exactly when there are places. -/
theorem Reported.ranges_eq_nil_iff {done ranges : List (Range α)} {indices : List ℕ}
    (h : Reported done indices ranges) (hproper : ∀ r ∈ done, r.Proper) :
    ranges = [] ↔ indices = [] := by
  have hcover := h.cover _ additive_Icc
  constructor
  · rintro rfl
    refine List.eq_nil_iff_forall_not_mem.mpr fun i hi => ?_
    obtain ⟨r, hr, -⟩ := (h.mem i).mp hi
    have hmem : r.start ∈ {p | ∃ i ∈ indices, ∃ r ∈ done[i]?, p ∈ Set.Icc r.start r.stop} :=
      ⟨i, hi, r, hr, le_rfl, hproper r (List.mem_of_getElem? hr)⟩
    rw [← hcover] at hmem
    obtain ⟨_, hmem, -⟩ := hmem
    exact nomatch hmem
  · rintro rfl
    refine List.eq_nil_iff_forall_not_mem.mpr fun r hr => ?_
    have hmem : r.start ∈ Clinch.cover (fun r : Range α => Set.Icc r.start r.stop) ranges :=
      ⟨r, hr, le_rfl, h.proper r hr⟩
    rw [hcover] at hmem
    obtain ⟨i, hi, -⟩ := hmem
    exact nomatch hi

/-- **One turn of the loop.** -/
theorem Swept.step {done : List (Range α)} {st : Sweep α} {r : Range α} (h : Swept done st)
    (hr : r.Proper) (hsorted : ∀ s ∈ done, s.start ≤ r.start) :
    Swept (done ++ [r]) (sweepStep st (r, done.length)) := by
  unfold Swept at h
  unfold sweepStep
  cases hcur : st.current with
  | none =>
    rw [hcur] at h
    obtain ⟨rfl, hi, hr'⟩ := h
    refine ⟨[], [r], rfl, ?_, Group.singleton hr, rfl, fun s hs => nomatch hs⟩
    show Reported [] st.indices st.ranges
    rw [hi, hr']
    exact Reported.nil
  | some o =>
    rw [hcur] at h
    obtain ⟨before, group, rfl, hrep, hg, hi, hlt⟩ := h
    have hgroup : ∀ s ∈ group, s.start ≤ r.start :=
      fun s hs => hsorted s (List.mem_append_right _ hs)
    simp only
    split
    · next htouch =>
      have hstart : o.start ≤ r.start := by
        obtain ⟨s, hs, -, -⟩ := hg.exists_mem ⟨le_rfl, hg.proper⟩
        exact (hg.le_start s hs).trans (hgroup s hs)
      refine ⟨before, group ++ [r], List.append_assoc _ _ _, hrep,
        hg.snoc hr hgroup hstart htouch, ?_, hlt⟩
      simp only [hi, List.length_append, List.length_singleton, List.range'_concat, Nat.one_mul]
    · next hafter =>
      rw [not_le] at hafter
      refine ⟨before ++ group, [r], rfl, hrep.close hg hi hlt, Group.singleton hr, rfl, ?_⟩
      intro s hs
      rcases List.mem_append.mp hs with hs | hs
      · exact ((hlt s hs).trans_le hg.proper).trans hafter
      · exact (hg.le_stop s hs).trans_lt hafter

theorem swept_foldl {done rest : List (Range α)} {st : Sweep α} (h : Swept done st)
    (hproper : ∀ r ∈ rest, r.Proper)
    (hsorted : (done ++ rest).Pairwise fun r s => r.start ≤ s.start) :
    Swept (done ++ rest) ((rest.zipIdx done.length).foldl sweepStep st) := by
  induction rest generalizing done st with
  | nil =>
    rw [List.append_nil]
    exact h
  | cons r rest ih =>
    have hr : ∀ s ∈ done, s.start ≤ r.start := fun s hs =>
      (List.pairwise_append.mp hsorted).2.2 s hs r List.mem_cons_self
    have hstep := h.step (hproper r List.mem_cons_self) hr
    rw [List.append_cons] at hsorted ⊢
    have := ih hstep (fun s hs => hproper s (List.mem_cons_of_mem _ hs)) hsorted
    rwa [List.length_append, List.length_singleton] at this

theorem pairwise_sortByStart (ranges : List (Range α)) :
    (sortByStart ranges).Pairwise fun r s => r.start ≤ s.start := by
  have h := @List.pairwise_mergeSort (Range α) (fun r s => decide (r.start ≤ s.start))
    (by simpa using fun a b c : Range α => le_trans)
    (by simpa using fun a b : Range α => le_total a.start b.start) ranges
  simp only [decide_eq_true_eq] at h
  exact h

theorem sortByStart_perm (ranges : List (Range α)) : (sortByStart ranges).Perm ranges :=
  List.mergeSort_perm _ _

/-- **What `overlapping_ranges` returns**, for ranges in any order: the places, in the order of
their starts, of those that touch another one, and their hulls. -/
theorem overlappingRanges_spec {ranges : List (Range α)} (h : ∀ r ∈ ranges, r.Proper) :
    Reported (sortByStart ranges) (overlappingRanges ranges).1 (overlappingRanges ranges).2 := by
  have hnone : Swept ([] : List (Range α)) ⟨none, [], []⟩ := ⟨rfl, rfl, rfl⟩
  have hswept := swept_foldl hnone
    (fun r hr => h r ((sortByStart_perm ranges).mem_iff.mp hr)) (pairwise_sortByStart ranges)
  rw [List.nil_append] at hswept
  unfold overlappingRanges
  simp only
  generalize (sortByStart ranges).zipIdx.foldl sweepStep ⟨none, [], []⟩ = st at hswept ⊢
  unfold Swept at hswept
  cases hcur : st.current with
  | none =>
    rw [hcur] at hswept
    obtain ⟨hdone, hi, hr⟩ := hswept
    simp only [hdone, hi, hr]
    exact Reported.nil
  | some o =>
    rw [hcur] at hswept
    obtain ⟨before, group, hdone, hrep, hg, hi, hlt⟩ := hswept
    rw [hdone]
    exact hrep.close hg hi hlt

end Clinch.Editor
