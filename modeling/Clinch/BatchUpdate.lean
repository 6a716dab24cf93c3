import Mathlib

/-!
# Batch updates of a sorted list

The updates, each at a key, are sorted and merged into the list in one pass.

* `batchUpdate`: one update after the other, each on what is left of the list;
* `mem_batchUpdate`: what the list holds afterwards;
* **`sorted_batchUpdate`**: it stays strictly sorted.
-/

set_option autoImplicit false

namespace Clinch

variable {T K E : Type} [LinearOrder K] (key : T → K) (at' : E → K) (new : E → Option T)

/-- The updates `es`, in the order of their keys `at'`, each of which replaces the element with its key
by `new`. -/
def batchUpdate : List T → List E → List T
  | ys, [] => ys
  | ys, e :: es =>
    (ys.filter fun y => key y < at' e) ++ (new e).toList ++
      batchUpdate (ys.filter fun y => at' e < key y) es

variable {key at' new} {ys : List T} {es : List E}

/-- **After the updates** the list holds the elements that no update is about and the new ones. -/
theorem mem_batchUpdate (hes : (es.map at').Pairwise (· < ·)) {x : T} :
    x ∈ batchUpdate key at' new ys es ↔
      (x ∈ ys ∧ ∀ e ∈ es, at' e ≠ key x) ∨ ∃ e ∈ es, new e = some x := by
  induction es generalizing ys with
  | nil => simp [batchUpdate]
  | cons e es ih =>
    obtain ⟨hlt, hes⟩ := List.pairwise_cons.mp hes
    have hbefore : key x < at' e → ∀ e' ∈ es, at' e' ≠ key x := fun hx e' he' =>
      (hx.trans (hlt _ (List.mem_map_of_mem he'))).ne'
    rw [batchUpdate, List.mem_append, List.mem_append, ih hes, List.mem_filter, List.mem_filter,
      Option.mem_toList, decide_eq_true_iff, decide_eq_true_iff]
    simp only [List.mem_cons, forall_eq_or_imp, exists_eq_or_imp]
    constructor
    · rintro ((⟨hy, hx⟩ | hnew) | ⟨⟨hy, hx⟩, hne⟩ | hnew)
      · exact Or.inl ⟨hy, hx.ne', hbefore hx⟩
      · exact Or.inr (Or.inl hnew)
      · exact Or.inl ⟨hy, hx.ne, hne⟩
      · exact Or.inr (Or.inr hnew)
    · rintro (⟨hy, hne, hrest⟩ | hnew | hnew)
      · rcases lt_or_gt_of_ne hne with hx | hx
        · exact Or.inr (Or.inl ⟨⟨hy, hx⟩, hrest⟩)
        · exact Or.inl (Or.inl ⟨hy, hx⟩)
      · exact Or.inl (Or.inr hnew)
      · exact Or.inr (Or.inr hnew)

/-- **The list stays strictly sorted.** -/
theorem sorted_batchUpdate (hes : (es.map at').Pairwise (· < ·))
    (hnew : ∀ e ∈ es, ∀ x, new e = some x → key x = at' e) (hys : (ys.map key).Pairwise (· < ·)) :
    ((batchUpdate key at' new ys es).map key).Pairwise (· < ·) := by
  induction es generalizing ys with
  | nil => exact hys
  | cons e es ih =>
    obtain ⟨hlt, hes'⟩ := List.pairwise_cons.mp hes
    rw [batchUpdate, List.map_append, List.map_append, List.pairwise_append, List.pairwise_append]
    have hsub : ∀ p : T → Bool, ((ys.filter p).map key).Pairwise (· < ·) := fun p =>
      hys.sublist (List.filter_sublist.map key)
    have hitem : ∀ x, new e = some x → key x = at' e := hnew e List.mem_cons_self
    -- what follows is all after the key of the first update
    have hafter : ∀ k ∈ (batchUpdate key at' new (ys.filter fun y => at' e < key y) es).map key,
        at' e < k := by
      intro k hk
      obtain ⟨x, hx, rfl⟩ := List.mem_map.mp hk
      rcases (mem_batchUpdate hes').mp hx with ⟨hx, -⟩ | ⟨e', he', hx⟩
      · exact of_decide_eq_true (List.mem_filter.mp hx).2
      · rw [hnew e' (List.mem_cons_of_mem _ he') x hx]
        exact hlt _ (List.mem_map_of_mem he')
    have hbefore : ∀ k ∈ (ys.filter fun y => key y < at' e).map key, k < at' e := by
      intro k hk
      obtain ⟨x, hx, rfl⟩ := List.mem_map.mp hk
      exact of_decide_eq_true (List.mem_filter.mp hx).2
    have hmiddle : ∀ k ∈ (new e).toList.map key, k = at' e := by
      intro k hk
      obtain ⟨x, hx, rfl⟩ := List.mem_map.mp hk
      exact hitem x (Option.mem_toList.mp hx)
    refine ⟨⟨hsub _, ?_, fun k hk k' hk' => ?_⟩,
      ih hes' (fun e' he' => hnew e' (List.mem_cons_of_mem _ he')) (hsub _), fun k hk k' hk' => ?_⟩
    · cases new e with
      | none => exact List.Pairwise.nil
      | some x => exact List.pairwise_singleton _ _
    · rw [hmiddle k' hk']
      exact hbefore k hk
    · rcases List.mem_append.mp hk with hk | hk
      · exact (hbefore k hk).trans (hafter k' hk')
      · rw [hmiddle k hk]
        exact hafter k' hk'

theorem length_batchUpdate_le (ys : List T) (es : List E) :
    (batchUpdate key at' new ys es).length ≤ ys.length + es.length := by
  induction es generalizing ys with
  | nil => exact le_rfl
  | cons e es ih =>
    have hparts : (ys.filter fun y => key y < at' e).length +
        (ys.filter fun y => at' e < key y).length ≤ ys.length := by
      rw [List.length_eq_length_filter_add (l := ys) fun y => decide (key y < at' e)]
      refine Nat.add_le_add_left (List.Sublist.length_le ?_) _
      refine List.monotone_filter_right _ fun y hy => ?_
      simp only [decide_eq_true_iff, Bool.not_eq_true', decide_eq_false_iff_not, not_lt] at hy ⊢
      exact hy.le
    have hone : (new e).toList.length ≤ 1 := by
      cases new e <;> simp
    have hrest := ih (ys.filter fun y => at' e < key y)
    rw [batchUpdate, List.length_append, List.length_append, List.length_cons]
    omega

end Clinch
