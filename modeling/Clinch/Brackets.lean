import Mathlib

/-!
# Brackets that match

Some elements of a list open and some close. The height of a place is the number of elements before
it that open, less the number of those that close. Two places are partners when the first opens, the
second closes, and the height between them never falls below what it is after the first, to which it
returns at the second.

* `height`, `height_drop`, `height_reverse`;
* `Partners`: `Partners.right_unique`, `Partners.left_unique`;
* **`Partners.nested`**: two pairs of partners do not cross.
-/

set_option autoImplicit false

namespace Clinch

variable {α : Type} {opens closes : α → Bool} {l : List α}

/-- What is open before place `k`. -/
def height (opens closes : α → Bool) (l : List α) (k : ℕ) : ℤ :=
  ((l.take k).countP opens : ℤ) - (l.take k).countP closes

@[simp] theorem height_zero : height opens closes l 0 = 0 := by
  unfold height
  simp

theorem height_swap (k : ℕ) : height closes opens l k = -height opens closes l k := by
  unfold height
  omega

theorem height_cons_succ (a : α) (k : ℕ) : height opens closes (a :: l) (k + 1) =
    (if opens a then 1 else 0) - (if closes a then 1 else 0) + height opens closes l k := by
  unfold height
  rw [List.take_succ_cons, List.countP_cons, List.countP_cons]
  split <;> split <;> push_cast <;> ring

theorem height_drop (p q : ℕ) : height opens closes (l.drop p) q =
    height opens closes l (p + q) - height opens closes l p := by
  unfold height
  rw [List.take_add, List.countP_append, List.countP_append]
  push_cast
  ring

theorem height_reverse {p : ℕ} (hp : p ≤ l.length) (q : ℕ) :
    height opens closes (l.take p).reverse q =
      height opens closes l p - height opens closes l (p - q) := by
  have hlen : (l.take p).length = p := List.length_take_of_le hp
  have hsplit : l.take p = l.take (p - q) ++ (l.take p).drop (p - q) := by
    conv_lhs => rw [← List.take_append_drop (p - q) (l.take p), List.take_take,
      min_eq_left (Nat.sub_le p q)]
  unfold height
  rw [List.take_reverse, hlen, List.countP_reverse, List.countP_reverse]
  conv_rhs => rw [hsplit]
  rw [List.countP_append, List.countP_append]
  push_cast
  ring

theorem height_succ {a : α} {k : ℕ} (h : l[k]? = some a) : height opens closes l (k + 1) =
    height opens closes l k + ((if opens a then 1 else 0) - (if closes a then 1 else 0)) := by
  have hdrop : height opens closes (l.drop k) 1 =
      height opens closes l (k + 1) - height opens closes l k := height_drop k 1
  rw [List.drop_eq_getElem?_toList_append, h, Option.toList_some, List.singleton_append,
    height_cons_succ, height_zero] at hdrop
  omega

/-- The element in place `i` opens, and the one in place `j` closes it. -/
structure Partners (opens closes : α → Bool) (l : List α) (i j : ℕ) : Prop where
  lt : i < j
  opener : ∃ a, l[i]? = some a ∧ opens a
  closer : ∃ a, l[j]? = some a ∧ closes a
  balanced : height opens closes l (i + 1) = height opens closes l j
  above : ∀ k, i < k → k ≤ j → height opens closes l (i + 1) ≤ height opens closes l k

theorem Partners.lt_length {i j : ℕ} (h : Partners opens closes l i j) : j < l.length := by
  obtain ⟨a, hget, -⟩ := h.closer
  exact (List.getElem?_eq_some_iff.mp hget).1

section Disjoint

variable (hdisj : ∀ a, opens a → closes a = false)
include hdisj

theorem height_of_opens {i : ℕ} (h : ∃ a, l[i]? = some a ∧ opens a) :
    height opens closes l (i + 1) = height opens closes l i + 1 := by
  obtain ⟨a, hget, ha⟩ := h
  rw [height_succ hget, if_pos ha, hdisj a ha]
  simp

theorem height_of_closes {i : ℕ} (h : ∃ a, l[i]? = some a ∧ closes a) :
    height opens closes l (i + 1) = height opens closes l i - 1 := by
  obtain ⟨a, hget, ha⟩ := h
  have hopens : opens a = false := by
    by_contra hc
    rw [hdisj a (by simpa using hc)] at ha
    exact nomatch ha
  rw [height_succ hget, if_pos ha, hopens]
  simp
  omega

/-- What opens does not close. -/
theorem not_closes_of_opens {i : ℕ} (h : ∃ a, l[i]? = some a ∧ opens a) :
    ¬ ∃ a, l[i]? = some a ∧ closes a := by
  rintro ⟨a', hget', ha'⟩
  obtain ⟨a, hget, ha⟩ := h
  rw [hget] at hget'
  have hclose := hdisj a ha
  rw [Option.some.inj hget', ha'] at hclose
  exact nomatch hclose

namespace Partners

variable {i j i' j' : ℕ}

theorem right_unique (h : Partners opens closes l i j) (h' : Partners opens closes l i j') :
    j = j' := by
  have key : ∀ {j j'}, Partners opens closes l i j → Partners opens closes l i j' → ¬ j < j' := by
    intro j j' h h' hlt
    have habove := h'.above (j + 1) (by have := h.lt; omega) hlt
    rw [height_of_closes hdisj h.closer, ← h.balanced] at habove
    omega
  exact le_antisymm (not_lt.mp (key h' h)) (not_lt.mp (key h h'))

theorem left_unique (h : Partners opens closes l i j) (h' : Partners opens closes l i' j) :
    i = i' := by
  have key : ∀ {i i'}, Partners opens closes l i j → Partners opens closes l i' j → ¬ i < i' := by
    intro i i' h h' hlt
    have habove := h.above i' hlt h'.lt.le
    have hopens := height_of_opens hdisj h'.opener
    rw [h'.balanced, ← h.balanced] at hopens
    omega
  exact le_antisymm (not_lt.mp (key h' h)) (not_lt.mp (key h h'))

/-- **Two pairs do not cross**: what opens inside a pair is closed inside it. -/
theorem nested (h : Partners opens closes l i j) (h' : Partners opens closes l i' j') (hi : i' < i)
    (hj : i < j') : j < j' := by
  by_contra hle
  have houter := h'.above i hi hj.le
  have hopens := height_of_opens hdisj h.opener
  have hcloses := height_of_closes hdisj h'.closer
  rcases (not_lt.mp hle).eq_or_lt with rfl | hlt
  · exact absurd (left_unique hdisj h h') hi.ne'
  · have hinner := h.above (j' + 1) (by omega) hlt
    rw [hcloses, ← h'.balanced] at hinner
    omega

end Partners

end Disjoint

end Clinch
