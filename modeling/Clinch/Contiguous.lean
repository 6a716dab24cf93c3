import Mathlib.Data.List.Infix
import Mathlib.Tactic.Basic

/-!
# Runs in a list

The elements with a property stand side by side, or at the front. Both survive when elements are
taken out, and when others are put in at a place that does not split the run.

* `Contiguous`, `Splits`, `Contiguous.insert`;
* `Leading`, `Leading.insert`, `Leading.insert_not`.
-/

set_option autoImplicit false

namespace Clinch

variable {α β : Type} {p : α → Prop} {l l' L B R : List α} {x : α}

/-- The elements with the property are one run of the list. -/
def Contiguous (p : α → Prop) (l : List α) : Prop :=
  ∃ a b c, l = a ++ b ++ c ∧ (∀ x ∈ a, ¬ p x) ∧ (∀ x ∈ b, p x) ∧ ∀ x ∈ c, ¬ p x

/-- The place between `L` and `R` is not inside the run of the elements with the property. -/
def Splits (p : α → Prop) (L R : List α) : Prop := (∀ x ∈ L, ¬ p x) ∨ ∀ x ∈ R, ¬ p x

/-- The elements with the property are the first ones of the list. -/
def Leading (p : α → Prop) (l : List α) : Prop :=
  ∃ a b, l = a ++ b ∧ (∀ x ∈ a, p x) ∧ ∀ x ∈ b, ¬ p x

namespace Contiguous

theorem of_forall_not (h : ∀ x ∈ l, ¬ p x) : Contiguous p l :=
  ⟨l, [], [], by simp, h, by simp, by simp⟩

theorem congr {q : α → Prop} (h : Contiguous p l) (hpq : ∀ x ∈ l, p x ↔ q x) : Contiguous q l := by
  obtain ⟨a, b, c, rfl, ha, hb, hc⟩ := h
  refine ⟨a, b, c, rfl, fun x hx => ?_, fun x hx => ?_, fun x hx => ?_⟩
  · rw [← hpq x (by simp [hx])]
    exact ha x hx
  · rw [← hpq x (by simp [hx])]
    exact hb x hx
  · rw [← hpq x (by simp [hx])]
    exact hc x hx

theorem map {f : β → α} {l : List β} (h : Contiguous (fun x => p (f x)) l) :
    Contiguous p (l.map f) := by
  obtain ⟨a, b, c, rfl, ha, hb, hc⟩ := h
  refine ⟨a.map f, b.map f, c.map f, by simp, ?_, ?_, ?_⟩
  all_goals
    intro x hx
    obtain ⟨y, hy, rfl⟩ := List.mem_map.mp hx
  · exact ha y hy
  · exact hb y hy
  · exact hc y hy

/-- A run stays one when elements are taken out. -/
theorem sublist (h : Contiguous p l) (hs : l'.Sublist l) : Contiguous p l' := by
  obtain ⟨a, b, c, rfl, ha, hb, hc⟩ := h
  obtain ⟨d, c', rfl, hd, hc'⟩ := List.sublist_append_iff.mp hs
  obtain ⟨a', b', rfl, ha', hb'⟩ := List.sublist_append_iff.mp hd
  exact ⟨a', b', c', rfl, fun x hx => ha x (ha'.subset hx), fun x hx => hb x (hb'.subset hx),
    fun x hx => hc x (hc'.subset hx)⟩

/-- An element without the property is not inside the run. -/
theorem splits (h : Contiguous p (L ++ x :: R)) (hx : ¬ p x) : Splits p L R := by
  obtain ⟨a, b, c, he, ha, hb, hc⟩ := h
  rw [List.append_assoc] at he
  rcases List.append_eq_append_iff.mp he with ⟨a', rfl, -⟩ | ⟨c', rfl, hbc⟩
  · exact Or.inl fun y hy => ha y (List.mem_append_left _ hy)
  · rcases List.append_eq_append_iff.mp hbc with ⟨b', rfl, hR⟩ | ⟨b', rfl, hR⟩
    · refine Or.inr fun y hy => hc y ?_
      rw [hR]
      exact List.mem_append_right _ (List.mem_cons_of_mem _ hy)
    · cases b' with
      | nil =>
        obtain rfl : x :: R = c := hR
        exact Or.inr fun y hy => hc y (List.mem_cons_of_mem _ hy)
      | cons y b' =>
        obtain ⟨rfl, -⟩ := List.cons.inj hR
        exact absurd (hb x (by simp)) hx

/-- Elements without the property go in anywhere but inside the run. -/
theorem insert (h : Contiguous p (L ++ R)) (hs : Splits p L R) (hB : ∀ x ∈ B, ¬ p x) :
    Contiguous p (L ++ B ++ R) := by
  rcases hs with hL | hR
  · obtain ⟨a, b, c, rfl, ha, hb, hc⟩ := h.sublist (List.sublist_append_right L R)
    refine ⟨L ++ B ++ a, b, c, by simp, fun x hx => ?_, hb, hc⟩
    simp only [List.mem_append] at hx
    rcases hx with (hx | hx) | hx
    · exact hL x hx
    · exact hB x hx
    · exact ha x hx
  · obtain ⟨a, b, c, rfl, ha, hb, hc⟩ := h.sublist (List.sublist_append_left L R)
    refine ⟨a, b, c ++ B ++ R, by simp, ha, hb, fun x hx => ?_⟩
    simp only [List.mem_append] at hx
    rcases hx with (hx | hx) | hx
    · exact hc x hx
    · exact hB x hx
    · exact hR x hx

end Contiguous

namespace Splits

theorem sublist {L' R' : List α} (h : Splits p L R) (hL : L'.Sublist L) (hR : R'.Sublist R) :
    Splits p L' R' :=
  h.imp (fun h x hx => h x (hL.subset hx)) fun h x hx => h x (hR.subset hx)

end Splits

namespace Leading

theorem sublist (h : Leading p l) (hs : l'.Sublist l) : Leading p l' := by
  obtain ⟨a, b, rfl, ha, hb⟩ := h
  obtain ⟨a', b', rfl, ha', hb'⟩ := List.sublist_append_iff.mp hs
  exact ⟨a', b', rfl, fun x hx => ha x (ha'.subset hx), fun x hx => hb x (hb'.subset hx)⟩

theorem congr {q : α → Prop} (h : Leading p l) (hpq : ∀ x ∈ l, p x ↔ q x) : Leading q l := by
  obtain ⟨a, b, rfl, ha, hb⟩ := h
  refine ⟨a, b, rfl, fun x hx => ?_, fun x hx => ?_⟩
  · rw [← hpq x (by simp [hx])]
    exact ha x hx
  · rw [← hpq x (by simp [hx])]
    exact hb x hx

theorem of_forall_not (h : ∀ x ∈ l, ¬ p x) : Leading p l := ⟨[], l, rfl, by simp, h⟩

/-- From a place past the first ones on, no element has the property. -/
theorem drop [DecidablePred p] (h : Leading p l) {n : ℕ}
    (hn : (l.takeWhile fun x => decide (p x)).length ≤ n) : ∀ x ∈ l.drop n, ¬ p x := by
  obtain ⟨a, b, rfl, ha, hb⟩ := h
  have htake : ((a ++ b).takeWhile fun x => decide (p x)) = a := by
    rw [List.takeWhile_append_of_pos (by simpa using ha)]
    cases b with
    | nil => simp
    | cons y b => simp [hb y List.mem_cons_self]
  rw [htake] at hn
  intro x hx
  rw [List.drop_append, List.drop_eq_nil_of_le hn, List.nil_append] at hx
  exact hb x (List.drop_subset _ _ hx)

/-- The elements before the one with the property have it too. -/
theorem before (h : Leading p (L ++ x :: R)) (hx : p x) : ∀ y ∈ L, p y := by
  obtain ⟨a, b, he, ha, hb⟩ := h
  rcases List.append_eq_append_iff.mp he with ⟨a', rfl, -⟩ | ⟨c', rfl, rfl⟩
  · exact fun y hy => ha y (List.mem_append_left _ hy)
  · exact absurd hx (hb x (by simp))

/-- So do the elements after one without it. -/
theorem after (h : Leading p (L ++ x :: R)) (hx : ¬ p x) : ∀ y ∈ R, ¬ p y := by
  obtain ⟨a, b, he, ha, hb⟩ := h
  rcases List.append_eq_append_iff.mp he with ⟨a', rfl, hR⟩ | ⟨c', rfl, rfl⟩
  · cases a' with
    | nil =>
      obtain rfl : x :: R = b := hR
      exact fun y hy => hb y (List.mem_cons_of_mem _ hy)
    | cons y a' =>
      obtain ⟨rfl, -⟩ := List.cons.inj hR
      exact absurd (ha x (by simp)) hx
  · exact fun y hy => hb y (by simp [hy])

/-- Elements with the property go in among the first ones. -/
theorem insert (h : Leading p (L ++ R)) (hL : ∀ x ∈ L, p x) (hB : ∀ x ∈ B, p x) :
    Leading p (L ++ B ++ R) := by
  obtain ⟨a, b, rfl, ha, hb⟩ := h.sublist (List.sublist_append_right L R)
  refine ⟨L ++ B ++ a, b, by simp, fun x hx => ?_, hb⟩
  simp only [List.mem_append] at hx
  rcases hx with (hx | hx) | hx
  · exact hL x hx
  · exact hB x hx
  · exact ha x hx

/-- Elements without it go in after them. -/
theorem insert_not (h : Leading p (L ++ R)) (hR : ∀ x ∈ R, ¬ p x) (hB : ∀ x ∈ B, ¬ p x) :
    Leading p (L ++ B ++ R) := by
  obtain ⟨a, b, rfl, ha, hb⟩ := h.sublist (List.sublist_append_left L R)
  refine ⟨a, b ++ B ++ R, by simp, ha, fun x hx => ?_⟩
  simp only [List.mem_append] at hx
  rcases hx with (hx | hx) | hx
  · exact hb x hx
  · exact hB x hx
  · exact hR x hx

end Leading

end Clinch
