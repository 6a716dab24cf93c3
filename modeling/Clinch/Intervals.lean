import Mathlib

/-!
# Ranges that touch

A range over a linear order goes from `start` to `stop`. What it covers is its positions, with
`stop` (`Set.Icc`) or without it (`Set.Ico`): a way to cover is `Additive` when two ranges that
touch cover what their hull does.

* `Range.Touches`, `Range.Apart`: two ranges share a position, or one ends before the other starts;
* `TouchesOther`: the range in a place of a list touches the one in another place;
* `cover`: what the ranges of a list cover;
* **`TouchesOther.perm`**: whether a range touches another one does not depend on the order.
-/

set_option autoImplicit false

namespace Clinch

/-- A range. -/
structure Range (α : Type) where
  start : α
  stop : α
deriving DecidableEq

variable {α : Type} [LinearOrder α]

namespace Range

variable {r s : Range α}

/-- The range does not end before it starts. -/
def Proper (r : Range α) : Prop := r.start ≤ r.stop

/-- The two ranges share a position, their ends included. -/
def Touches (r s : Range α) : Prop := r.start ≤ s.stop ∧ s.start ≤ r.stop

instance (r s : Range α) : Decidable (r.Touches s) := by unfold Touches; infer_instance

/-- One of the ranges ends before the other starts. -/
def Apart (r s : Range α) : Prop := r.stop < s.start ∨ s.stop < r.start

instance (r s : Range α) : Decidable (r.Apart s) := by unfold Apart; infer_instance

theorem not_touches : ¬ r.Touches s ↔ r.Apart s := by
  unfold Touches Apart
  rw [not_and_or, not_le, not_le]
  exact or_comm

theorem Touches.symm (h : r.Touches s) : s.Touches r := ⟨h.2, h.1⟩

theorem Apart.symm (h : r.Apart s) : s.Apart r := Or.symm h

theorem touches_of_mem {p : α} (hr : p ∈ Set.Icc r.start r.stop) (hs : p ∈ Set.Icc s.start s.stop) :
    r.Touches s := ⟨hr.1.trans hs.2, hs.1.trans hr.2⟩

/-- Two ranges that touch share the later one of their starts. -/
theorem Touches.exists_mem (hr : r.Proper) (hs : s.Proper) (h : r.Touches s) :
    ∃ p, p ∈ Set.Icc r.start r.stop ∧ p ∈ Set.Icc s.start s.stop :=
  ⟨max r.start s.start, ⟨le_max_left _ _, max_le hr h.2⟩, ⟨le_max_right _ _, max_le h.1 hs⟩⟩

end Range

open Range

/-! ## What a list of ranges covers -/

/-- What the ranges of a list cover. -/
def cover (f : Range α → Set α) (rs : List (Range α)) : Set α := {p | ∃ r ∈ rs, p ∈ f r}

/-- Two ranges that touch cover what their hull does. -/
def Additive (f : Range α → Set α) : Prop :=
  ∀ r s : Range α, r.Proper → s.Proper → r.start ≤ s.start → s.start ≤ r.stop →
    f ⟨r.start, max r.stop s.stop⟩ = f r ∪ f s

theorem additive_Icc : Additive fun r : Range α => Set.Icc r.start r.stop := by
  intro r s hr hs hrs htouch
  show Set.Icc _ _ = _
  rw [Set.Icc_union_Icc' htouch (hrs.trans hs), min_eq_left hrs]

theorem additive_Ico : Additive fun r : Range α => Set.Ico r.start r.stop := by
  intro r s hr hs hrs htouch
  show Set.Ico _ _ = _
  rw [Set.Ico_union_Ico' htouch (hrs.trans hs), min_eq_left hrs]

variable {f : Range α → Set α} {rs rs' : List (Range α)}

omit [LinearOrder α] in
theorem mem_cover {p : α} : p ∈ cover f rs ↔ ∃ r ∈ rs, p ∈ f r := Iff.rfl

omit [LinearOrder α] in
theorem cover_append : cover f (rs ++ rs') = cover f rs ∪ cover f rs' := by
  ext p
  simp only [mem_cover, Set.mem_union, List.mem_append, or_and_right, exists_or]

omit [LinearOrder α] in
theorem cover_singleton (r : Range α) : cover f [r] = f r := by
  ext p
  simp [mem_cover]

/-! ## The ranges that touch another one -/

/-- The range in place `i` touches the one in another place. -/
def TouchesOther (rs : List (Range α)) (i : ℕ) : Prop :=
  ∃ r ∈ rs[i]?, ∃ s ∈ rs.eraseIdx i, r.Touches s

instance (rs : List (Range α)) (i : ℕ) : Decidable (TouchesOther rs i) := by
  unfold TouchesOther
  infer_instance

theorem touchesOther_iff {i : ℕ} {r : Range α} (h : rs[i]? = some r) :
    TouchesOther rs i ↔ ∃ s ∈ rs.eraseIdx i, r.Touches s := by
  unfold TouchesOther
  rw [h]
  simp

theorem TouchesOther.lt {i : ℕ} (h : TouchesOther rs i) : i < rs.length := by
  obtain ⟨r, hr, -⟩ := h
  exact (List.getElem?_eq_some_iff.mp hr).1

/-- **Whether a range touches another one does not depend on the order.** -/
theorem TouchesOther.perm (hperm : rs.Perm rs') {i j : ℕ} (h : rs[i]? = rs'[j]?)
    (ht : TouchesOther rs i) : TouchesOther rs' j := by
  obtain ⟨r, hr, s, hs, hrs⟩ := ht
  have herase := (List.perm_eraseIdx_of_getElem?_eq h).mpr hperm
  exact ⟨r, h ▸ hr, s, herase.mem_iff.mp hs, hrs⟩

theorem TouchesOther.of_ne {i j : ℕ} {r s : Range α} (hr : rs[i]? = some r) (hs : rs[j]? = some s)
    (hij : i ≠ j) (h : r.Touches s) : TouchesOther rs i := by
  refine ⟨r, hr, s, ?_, h⟩
  rw [List.mem_eraseIdx_iff_getElem?]
  exact ⟨j, hij.symm, hs⟩

/-- The ranges of two lists that are apart touch only others of their own list. -/
theorem touchesOther_append (h : ∀ r ∈ rs, ∀ s ∈ rs', r.Apart s) (i : ℕ) :
    TouchesOther (rs ++ rs') i ↔
      if i < rs.length then TouchesOther rs i else TouchesOther rs' (i - rs.length) := by
  split
  · next hi =>
    unfold TouchesOther
    rw [List.getElem?_append_left hi, List.eraseIdx_append_of_lt_length hi]
    refine exists_congr fun r => and_congr_right fun hr => ?_
    have hmem := List.mem_of_getElem? hr
    refine ⟨?_, fun ⟨s, hs, hrs⟩ => ⟨s, List.mem_append_left _ hs, hrs⟩⟩
    rintro ⟨s, hs, hrs⟩
    rcases List.mem_append.mp hs with hs | hs
    · exact ⟨s, hs, hrs⟩
    · exact absurd hrs (not_touches.mpr (h r hmem s hs))
  · next hi =>
    unfold TouchesOther
    rw [List.getElem?_append_right (by omega), List.eraseIdx_append_of_length_le (by omega)]
    refine exists_congr fun r => and_congr_right fun hr => ?_
    have hmem := List.mem_of_getElem? hr
    refine ⟨?_, fun ⟨s, hs, hrs⟩ => ⟨s, List.mem_append_right _ hs, hrs⟩⟩
    rintro ⟨s, hs, hrs⟩
    rcases List.mem_append.mp hs with hs | hs
    · exact absurd hrs.symm (not_touches.mpr (h s hs r hmem))
    · exact ⟨s, hs, hrs⟩

end Clinch
