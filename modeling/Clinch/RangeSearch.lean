import Mathlib.Data.List.Basic

/-!
# Searching ranges in order

A list of ranges, each of which ends before the next one starts, is searched for the first range that
ends behind a place.

* `InOrder`;
* `InOrder.find?_eq`: the range that has a place is found;
* `find?_eq_or`: a later place is found in the same range or in a later one;
* `takeWhile_spec`: the elements before a partition point, and the one at it.
-/

set_option autoImplicit false

namespace Clinch.RangeSearch

variable {α : Type} {start stop : α → ℕ} {ranges : List α} {a b : α} {i j : ℕ}

/-- Each range ends before the next one starts. -/
def InOrder (start stop : α → ℕ) (ranges : List α) : Prop :=
  ranges.Pairwise fun a b => stop a ≤ start b

theorem InOrder.find?_eq (h : InOrder start stop ranges) (ha : a ∈ ranges) (hstart : start a ≤ i)
    (hstop : i < stop a) : ranges.find? (fun r => i < stop r) = some a := by
  induction ranges with
  | nil => exact absurd ha List.not_mem_nil
  | cons r ranges ih =>
    obtain ⟨hr, hranges⟩ := List.pairwise_cons.1 h
    obtain rfl | ha := List.mem_cons.1 ha
    · exact List.find?_cons_of_pos (by simpa using hstop)
    · have hle := hr a ha
      rw [List.find?_cons_of_neg (by rw [decide_eq_true_eq]; omega)]
      exact ih hranges ha

theorem find?_eq_or {R : α → α → Prop} (h : ranges.Pairwise R) (hij : i ≤ j)
    (ha : ranges.find? (fun r => i < stop r) = some a)
    (hb : ranges.find? (fun r => j < stop r) = some b) : a = b ∨ R a b := by
  induction ranges with
  | nil => cases ha
  | cons r ranges ih =>
    obtain ⟨hr, hranges⟩ := List.pairwise_cons.1 h
    by_cases hi : i < stop r
    · rw [List.find?_cons_of_pos (by simpa using hi)] at ha
      obtain rfl := Option.some.inj ha
      by_cases hj : j < stop r
      · rw [List.find?_cons_of_pos (by simpa using hj)] at hb
        exact .inl (Option.some.inj hb)
      · rw [List.find?_cons_of_neg (by simpa using hj)] at hb
        exact .inr (hr b (List.mem_of_find?_eq_some hb))
    · rw [List.find?_cons_of_neg (by simpa using hi)] at ha
      rw [List.find?_cons_of_neg (by rw [decide_eq_true_eq]; omega)] at hb
      exact ih hranges ha hb

/-! ## Partition points -/

/-- `takeWhile` ends at the first element without the property. -/
theorem takeWhile_spec {α : Type} (p : α → Bool) (l : List α) :
    (l.takeWhile p).length ≤ l.length ∧
      (∀ i < (l.takeWhile p).length, ∀ a, l[i]? = some a → p a = true) ∧
      ∀ a, l[(l.takeWhile p).length]? = some a → p a = false := by
  induction l with
  | nil => simp
  | cons b l ih =>
    rw [List.takeWhile_cons]
    split
    · rename_i hb
      obtain ⟨hlen, hbefore, hafter⟩ := ih
      refine ⟨Nat.succ_le_succ hlen, fun i hi a ha => ?_, fun a ha => hafter a ha⟩
      cases i with
      | zero => exact Option.some.inj ha ▸ hb
      | succ i => exact hbefore i (Nat.lt_of_succ_lt_succ hi) a ha
    · rename_i hb
      refine ⟨Nat.zero_le _, fun i hi => absurd hi (Nat.not_lt_zero i), fun a ha => ?_⟩
      have hba : b = a := Option.some.inj ha
      rw [← hba]
      exact Bool.eq_false_iff.mpr hb

end Clinch.RangeSearch
