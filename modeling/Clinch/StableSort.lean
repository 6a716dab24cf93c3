import Mathlib

/-!
# Stable sorting

Sorting by a rank is stable with `List.mergeSort`: elements of one rank keep their order.

* `filter_mergeSort`: the elements of one rank, before and after sorting;
* `eq_of_filter_eq`: a sorted list is determined by the elements of each rank;
* **`mergeSort_mergeSort_flip`**: sorting a sorted list the other way and back changes nothing.
-/

set_option autoImplicit false

namespace Clinch

variable {α β : Type} [LinearOrder β] (f : α → β)

omit [LinearOrder β] in
/-- **Elements of one rank keep their order.** -/
theorem filter_mergeSort {le : α → α → Bool} {p : α → Bool}
    (htrans : ∀ a b c, le a b → le b c → le a c) (htotal : ∀ a b, le a b || le b a)
    (hp : ∀ a b, p a → p b → le a b) (l : List α) : (l.mergeSort le).filter p = l.filter p := by
  have hpairwise : (l.filter p).Pairwise fun a b => le a b :=
    List.pairwise_of_forall_mem_list fun a ha b hb =>
      hp a b (List.of_mem_filter ha) (List.of_mem_filter hb)
  have hsub : (l.filter p).Sublist (l.mergeSort le) :=
    List.sublist_mergeSort htrans htotal hpairwise List.filter_sublist
  have hsub' := hsub.filter p
  rw [List.filter_filter] at hsub'
  simp only [Bool.and_self] at hsub'
  refine (hsub'.eq_of_length ?_).symm
  exact ((List.mergeSort_perm l le).filter p).length_eq.symm

/-- **A sorted list is determined by the elements of each rank.** -/
theorem eq_of_filter_eq {l l' : List α} (hl : l.Pairwise fun a b => f a ≤ f b)
    (hl' : l'.Pairwise fun a b => f a ≤ f b)
    (h : ∀ v, l.filter (fun a => decide (f a = v)) = l'.filter fun a => decide (f a = v)) :
    l = l' := by
  have hmem : ∀ a, a ∈ l ↔ a ∈ l' := by
    intro a
    have := congrArg (a ∈ ·) (h (f a))
    simpa using this
  induction l generalizing l' with
  | nil =>
    cases l' with
    | nil => rfl
    | cons b l' => exact absurd ((hmem b).mpr List.mem_cons_self) List.not_mem_nil
  | cons a l ih =>
    cases l' with
    | nil => exact absurd ((hmem a).mp List.mem_cons_self) List.not_mem_nil
    | cons b l' =>
      rw [List.pairwise_cons] at hl hl'
      -- the heads have the smallest rank, and are the first elements of it
      have hba : f b ≤ f a := by
        rcases List.mem_cons.mp ((hmem a).mp List.mem_cons_self) with rfl | ha
        · exact le_rfl
        · exact hl'.1 a ha
      have hab : f a ≤ f b := by
        rcases List.mem_cons.mp ((hmem b).mpr List.mem_cons_self) with rfl | hb
        · exact le_rfl
        · exact hl.1 b hb
      have heq : f b = f a := le_antisymm hba hab
      obtain ⟨rfl, -⟩ : a = b ∧ _ := by
        have := h (f a)
        rw [List.filter_cons_of_pos (by simp), List.filter_cons_of_pos (by simpa using heq)] at this
        exact List.cons.inj this
      have htail : ∀ v, l.filter (fun a => decide (f a = v)) =
          l'.filter fun a => decide (f a = v) := by
        intro v
        have := h v
        rw [List.filter_cons, List.filter_cons] at this
        split at this
        · exact (List.cons.inj this).2
        · exact this
      refine congrArg (a :: ·) (ih hl.2 hl'.2 htail fun x => ?_)
      have := congrArg (x ∈ ·) (htail (f x))
      simpa using this

theorem pairwise_mergeSort_key (l : List α) :
    (l.mergeSort fun a b => decide (f a ≤ f b)).Pairwise fun a b => f a ≤ f b := by
  have h := @List.pairwise_mergeSort α (fun a b => decide (f a ≤ f b))
    (by simpa using fun a b c => le_trans) (by simpa using fun a b => le_total (f a) (f b)) l
  simpa using h

theorem pairwise_mergeSort_flip (l : List α) :
    (l.mergeSort fun a b => decide (f b ≤ f a)).Pairwise fun a b => f b ≤ f a :=
  pairwise_mergeSort_key (β := βᵒᵈ) f l

/-- **Sorting a sorted list the other way and back changes nothing.** -/
theorem mergeSort_mergeSort_flip {l : List α} (hl : l.Pairwise fun a b => f a ≤ f b) :
    (l.mergeSort fun a b => decide (f b ≤ f a)).mergeSort (fun a b => decide (f a ≤ f b)) = l := by
  refine eq_of_filter_eq f (pairwise_mergeSort_key f _) hl fun v => ?_
  rw [filter_mergeSort, filter_mergeSort]
  all_goals
    intros
    simp only [decide_eq_true_eq, Bool.or_eq_true] at *
  · order
  · exact le_total _ _
  · order
  · order
  · exact le_total _ _
  · order

end Clinch
