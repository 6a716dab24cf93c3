import Clinch.SumTree.Model

/-!
# The shape of a sum tree

`Wf h t`: every leaf of `t` is `h` levels below its root, every node stores its own height, caches
the summary of each of its children and their sum, and has between one and `2 * TREE_BASE` children.
Every node but the root is moreover non-empty and, above the leaves, not underflowing.

* `Wf.summary_eq`: the cached summary is the sum over the items in order;
* `Wf.length_le`, `Wf.le_length`: the number of items bounds the height, and conversely;
* **`pushTreeRecursive_spec`**: `push_tree_recursive` returns, keeps the shape, and appends;
* `Yields`, `pushTree_spec`, `push_spec`, `extend_spec`, `updateLast_spec`: so does everything built
  on it, unless the `u8` height overflows.
-/

set_option autoImplicit false

namespace Clinch.SumTree

variable {T S : Type}

/-! ## Items in order -/

@[simp] theorem toListAll_nil : toListAll ([] : List (SumTree T S)) = [] := rfl

@[simp] theorem toListAll_cons (t : SumTree T S) (ts : List (SumTree T S)) :
    toListAll (t :: ts) = t.toList ++ toListAll ts := rfl

@[simp] theorem toListAll_append (ts us : List (SumTree T S)) :
    toListAll (ts ++ us) = toListAll ts ++ toListAll us := by
  induction ts with
  | nil => rfl
  | cons t ts ih => rw [List.cons_append, toListAll_cons, ih, toListAll_cons, List.append_assoc]

@[simp] theorem toList_internal (h : ℕ) (s : S) (css : List S) (cts : List (SumTree T S)) :
    (internal h s css cts).toList = toListAll cts := rfl

@[simp] theorem toList_leaf (s : S) (is : List T) (iss : List S) :
    (leaf s is iss).toList = is := rfl

theorem toListAll_ne_nil {ts : List (SumTree T S)} (hts : ts ≠ [])
    (h : ∀ t ∈ ts, t.toList ≠ []) : toListAll ts ≠ [] := by
  cases ts with
  | nil => exact absurd rfl hts
  | cons t ts =>
    intro e
    exact h t List.mem_cons_self (List.append_eq_nil_iff.mp e).1

/-- What a node must be, besides well formed, to be a child. -/
def Filled (h : ℕ) (t : SumTree T S) : Prop :=
  t.toList ≠ [] ∧ (h ≠ 0 → t.isUnderflowing = false)

variable [AddMonoid S] [Item T S]

/-- **The shape of a tree of height `h`.** -/
inductive Wf : ℕ → SumTree T S → Prop
  | leaf {is : List T} : is.length ≤ nodeCapacity →
      Wf 0 (.leaf (is.map Item.summary).sum is (is.map Item.summary))
  | internal {h : ℕ} {cts : List (SumTree T S)} : h + 1 ≤ u8Max → cts ≠ [] →
      cts.length ≤ nodeCapacity → (∀ t ∈ cts, Wf h t) → (∀ t ∈ cts, Filled h t) →
      Wf (h + 1) (.internal (h + 1) (cts.map summary).sum (cts.map summary) cts)

namespace Wf

variable {h : ℕ} {t : SumTree T S}

theorem height_eq (w : Wf h t) : t.height = h := by cases w <;> rfl

theorem eq_leaf (w : Wf 0 t) :
    ∃ is : List T, is.length ≤ nodeCapacity ∧
      t = .leaf (is.map Item.summary).sum is (is.map Item.summary) := by
  cases w with
  | leaf hl => exact ⟨_, hl, rfl⟩

theorem eq_internal (w : Wf (h + 1) t) :
    h + 1 ≤ u8Max ∧ ∃ cts : List (SumTree T S), cts ≠ [] ∧ cts.length ≤ nodeCapacity ∧
      (∀ t ∈ cts, Wf h t) ∧ (∀ t ∈ cts, Filled h t) ∧
      t = .internal (h + 1) (cts.map summary).sum (cts.map summary) cts := by
  cases w with
  | internal hu hne hl hw hf => exact ⟨hu, _, hne, hl, hw, hf, rfl⟩

theorem summaries_eq {cts : List (SumTree T S)}
    (ih : ∀ t ∈ cts, t.summary = (t.toList.map Item.summary).sum) :
    (cts.map summary).sum = ((toListAll cts).map Item.summary).sum := by
  induction cts with
  | nil => rfl
  | cons t ts iht =>
    rw [List.map_cons, List.sum_cons, ih t List.mem_cons_self,
      iht fun u hu => ih u (List.mem_cons_of_mem _ hu), toListAll_cons, List.map_append,
      List.sum_append]

/-- **The cached summary of a node is the sum over its items in order.** -/
theorem summary_eq (w : Wf h t) : t.summary = (t.toList.map Item.summary).sum := by
  induction w with
  | leaf _ => rfl
  | internal _ _ _ _ _ ih => exact summaries_eq ih

theorem leaf' {is : List T} (hl : is.length ≤ nodeCapacity) {s : S} {iss : List S}
    (hs : s = iss.sum) (hi : iss = is.map Item.summary) : Wf 0 (.leaf s is iss) := by
  subst hs hi
  exact .leaf hl

theorem height_le (w : Wf h t) : h ≤ u8Max := by
  cases w with
  | leaf _ => exact Nat.zero_le _
  | internal hu => exact hu

theorem internal' {cts : List (SumTree T S)} (hu : h + 1 ≤ u8Max) (hne : cts ≠ [])
    (hl : cts.length ≤ nodeCapacity)
    (hw : ∀ t ∈ cts, Wf h t) (hf : ∀ t ∈ cts, Filled h t) {s : S} {css : List S}
    (hs : s = css.sum) (hc : css = cts.map summary) : Wf (h + 1) (.internal (h + 1) s css cts) := by
  subst hs hc
  exact .internal hu hne hl hw hf

end Wf

theorem wf_new : Wf 0 (new : SumTree T S) := @Wf.leaf T S _ _ [] (Nat.zero_le _)

/-! ## Appending the children of one node to another -/

/-- What growing `a` by `b` leaves: `a'`, and a right half if `a` was split. -/
structure Grown (h : ℕ) (a b a' : SumTree T S) (split : Option (SumTree T S)) : Prop where
  wf : Wf h a'
  ne : a'.toList ≠ []
  full : h ≠ 0 → split ≠ none ∨ a.isUnderflowing = false → a'.isUnderflowing = false
  half : ∀ t, split = some t → Wf h t ∧ Filled h t
  list : a'.toList ++ (split.map toList).getD [] = a.toList ++ b.toList

omit [AddMonoid S] [Item T S] in
theorem filled_internal {h k : ℕ} {cts : List (SumTree T S)} (s : S) (css : List S)
    (hf : ∀ t ∈ cts, Filled h t) (hl : treeBase ≤ cts.length) :
    Filled k (.internal (h + 1) s css cts) := by
  have hpos := treeBase_pos
  refine ⟨toListAll_ne_nil (fun e => ?_) fun t ht => (hf t ht).1, fun _ => ?_⟩
  · rw [e, List.length_nil] at hl; omega
  · simp only [isUnderflowing, decide_eq_false_iff_not]; omega

theorem appendChildren_spec {h : ℕ} {cts app : List (SumTree T S)} {s : S}
    (hu : h + 1 ≤ u8Max) (hne : cts ≠ [])
    (hc : cts.length ≤ nodeCapacity) (ha : app.length ≤ nodeCapacity)
    (hw : ∀ t ∈ cts ++ app, Wf h t) (hf : ∀ t ∈ cts ++ app, Filled h t)
    (hs : s = ((cts ++ app).map summary).sum) :
    ∃ a' split, appendChildren (h + 1) s (cts.map summary) (app.map summary) cts app
        = .ok (a', split) ∧ Wf (h + 1) a' ∧
      (split ≠ none ∨ treeBase ≤ cts.length → Filled (h + 1) a') ∧ a'.toList ≠ [] ∧
      (∀ t, split = some t → Wf (h + 1) t ∧ Filled (h + 1) t) ∧
      a'.toList ++ (split.map toList).getD [] = toListAll (cts ++ app) := by
  have hpos := treeBase_pos
  have hcap : nodeCapacity = 2 * treeBase := rfl
  have hlen : 0 < cts.length := List.length_pos_of_ne_nil hne
  simp only [appendChildren]
  by_cases hcount : cts.length + app.length > nodeCapacity
  · -- the node overflows: both halves have at least `TREE_BASE` children
    rw [if_pos hcount]
    generalize hm : (cts.length + app.length + (cts.length + app.length) % 2) / 2 = m
    have hm1 : m ≤ nodeCapacity := by omega
    have hm2 : (cts ++ app).length - m ≤ nodeCapacity := by rw [List.length_append]; omega
    have hl : ((cts ++ app).take m).length = m := by
      rw [List.length_take, List.length_append]
      omega
    have hr : ((cts ++ app).drop m).length = cts.length + app.length - m := by
      rw [List.length_drop, List.length_append]
    have e1 := @arrayCollect_ok S nodeCapacity ((cts.map summary ++ app.map summary).take m)
      (by rw [← List.map_append, ← List.map_take, List.length_map, hl]; exact hm1)
    have e2 := @arrayCollect_ok S nodeCapacity ((cts.map summary ++ app.map summary).drop m)
      (by rw [← List.map_append, ← List.map_drop, List.length_map, hr]; omega)
    have e3 := @arrayCollect_ok _ nodeCapacity ((cts ++ app).take m) (by rw [hl]; exact hm1)
    have e4 := @arrayCollect_ok _ nodeCapacity ((cts ++ app).drop m) (by rw [hr]; omega)
    rw [e1, ok_bind, e2, ok_bind, e3, ok_bind, e4, ok_bind]
    have hwl : ∀ t ∈ (cts ++ app).take m, Wf h t := fun t ht => hw t (List.mem_of_mem_take ht)
    have hwr : ∀ t ∈ (cts ++ app).drop m, Wf h t := fun t ht => hw t (List.mem_of_mem_drop ht)
    have hfl : ∀ t ∈ (cts ++ app).take m, Filled h t := fun t ht => hf t (List.mem_of_mem_take ht)
    have hfr : ∀ t ∈ (cts ++ app).drop m, Filled h t := fun t ht => hf t (List.mem_of_mem_drop ht)
    have hFl := filled_internal (k := h + 1) ((cts.map summary ++ app.map summary).take m).sum
      ((cts.map summary ++ app.map summary).take m) hfl (by omega)
    refine ⟨_, _, rfl, Wf.internal' hu ?_ (by omega) hwl hfl rfl ?_, fun _ => hFl, hFl.1, ?_, ?_⟩
    · exact List.ne_nil_of_length_pos (by omega)
    · rw [← List.map_append, List.map_take]
    · rintro t ⟨⟩
      refine ⟨Wf.internal' hu (List.ne_nil_of_length_pos (by omega)) (by omega) hwr hfr rfl ?_,
        filled_internal _ _ hfr (by omega)⟩
      rw [← List.map_append, List.map_drop]
    · simp only [Option.map_some, Option.getD_some, toList_internal]
      rw [← toListAll_append, List.take_append_drop]
  · rw [if_neg hcount]
    have e1 := @arrayExtend_ok S nodeCapacity (cts.map summary) (app.map summary)
      (by rw [List.length_map, List.length_map]; omega)
    have e2 := @arrayExtend_ok _ nodeCapacity cts app (by omega)
    rw [e1, ok_bind, e2, ok_bind]
    refine ⟨_, _, rfl, Wf.internal' hu (List.append_ne_nil_of_left_ne_nil hne _)
      (by rw [List.length_append]; omega) hw hf (by rw [hs, List.map_append]) (by
        rw [List.map_append]), ?_, ?_, fun t ht => (nomatch ht), ?_⟩
    · rintro (hn | hb)
      · exact absurd rfl hn
      · exact filled_internal _ _ hf (by rw [List.length_append]; omega)
    · exact toListAll_ne_nil (List.append_ne_nil_of_left_ne_nil hne _) fun t ht => (hf t ht).1
    · simp

theorem appendItems_spec {is : List T} {k : ℕ} {b : SumTree T S} (hl : is.length ≤ nodeCapacity)
    (wb : Wf k b) (hk : k = 0) (hb : b.toList ≠ []) :
    ∃ a' split, appendItems (is.map Item.summary).sum is (is.map Item.summary) b = .ok (a', split) ∧
      Grown 0 (.leaf (is.map Item.summary).sum is (is.map Item.summary)) b a' split := by
  subst hk
  obtain ⟨js, hj, rfl⟩ := wb.eq_leaf
  have hpos := treeBase_pos
  have hcap : nodeCapacity = 2 * treeBase := rfl
  have hjpos : 0 < js.length := List.length_pos_of_ne_nil hb
  simp only [appendItems, items, ok_bind, childSummaries]
  by_cases hcount : is.length + js.length > nodeCapacity
  · rw [if_pos hcount]
    generalize hm : (is.length + js.length + (is.length + js.length) % 2) / 2 = m
    have hl' : ((is ++ js).take m).length = m := by rw [List.length_take, List.length_append]; omega
    have hr : ((is ++ js).drop m).length = is.length + js.length - m := by
      rw [List.length_drop, List.length_append]
    have e1 := @arrayCollect_ok _ nodeCapacity ((is ++ js).take m) (by omega)
    have e2 := @arrayCollect_ok _ nodeCapacity ((is ++ js).drop m) (by omega)
    have e3 := @arrayCollect_ok S nodeCapacity
      ((is.map Item.summary ++ js.map Item.summary).take m)
      (by rw [← List.map_append, ← List.map_take, List.length_map]; omega)
    have e4 := @arrayCollect_ok S nodeCapacity
      ((is.map Item.summary ++ js.map Item.summary).drop m)
      (by rw [← List.map_append, ← List.map_drop, List.length_map]; omega)
    rw [e1, ok_bind, e2, ok_bind, e3, ok_bind, e4, ok_bind]
    refine ⟨_, _, rfl, ?_, ?_, fun h => absurd rfl h, ?_, ?_⟩
    · exact Wf.leaf' (by omega) rfl (by rw [← List.map_append, List.map_take])
    · exact List.ne_nil_of_length_pos (by rw [toList_leaf]; omega)
    · rintro t ⟨⟩
      refine ⟨Wf.leaf' (by omega) rfl (by rw [← List.map_append, List.map_drop]), ?_,
        fun h => absurd rfl h⟩
      exact List.ne_nil_of_length_pos (by rw [toList_leaf]; omega)
    · simp only [Option.map_some, Option.getD_some, toList_leaf, List.take_append_drop]
  · rw [if_neg hcount]
    have e1 := @arrayExtend_ok _ nodeCapacity is js (by omega)
    have e2 := @arrayExtend_ok S nodeCapacity (is.map Item.summary) (js.map Item.summary)
      (by rw [List.length_map, List.length_map]; omega)
    rw [e1, ok_bind, e2, ok_bind]
    refine ⟨_, _, rfl, ?_, ?_, fun h => absurd rfl h, fun t ht => (nomatch ht), by simp⟩
    · exact Wf.leaf' (by rw [List.length_append]; omega)
        (by rw [List.sum_append]; rfl) (by rw [List.map_append])
    · exact List.append_ne_nil_of_right_ne_nil _ hb

/-! ## `push_tree_recursive` -/

omit [Item T S] in
theorem pushTreeLast_append (pre : List (SumTree T S)) (c other : SumTree T S) :
    pushTreeLast (pre ++ [c]) other =
      (do let (c, split) ← pushTreeRecursive c other; return (pre ++ [c], split)) := by
  induction pre with
  | nil => rfl
  | cons t pre ih =>
    obtain ⟨u, us, hu⟩ : ∃ u us, pre ++ [c] = u :: us := by
      cases pre with
      | nil => exact ⟨c, [], rfl⟩
      | cons p pre => exact ⟨p, pre ++ [c], rfl⟩
    rw [List.cons_append, hu, pushTreeLast, ← hu, ih]
    cases pushTreeRecursive c other <;> rfl

omit [AddMonoid S] [Item T S] in
theorem refreshLastSummary_append (pre : List (SumTree T S)) (c c' : SumTree T S) :
    refreshLastSummary ((pre ++ [c]).map summary) (pre ++ [c']) =
      .ok ((pre ++ [c']).map summary) := by
  simp [refreshLastSummary, ok_bind]

/-- **`push_tree_recursive` of a tree that is not taller returns, keeps the shape and appends.** -/
theorem pushTreeRecursive_spec {h k : ℕ} {a b : SumTree T S} (wa : Wf h a) (wb : Wf k b)
    (hk : k ≤ h) (hb : b.toList ≠ []) :
    ∃ a' split, pushTreeRecursive a b = .ok (a', split) ∧ Grown h a b a' split := by
  induction wa generalizing k b with
  | leaf hl =>
    rw [pushTreeRecursive]
    exact appendItems_spec hl wb (by omega) hb
  | @internal h cts hu hne hl hw hf ih =>
    have hpos := treeBase_pos
    have hcap : nodeCapacity = 2 * treeBase := rfl
    -- from the children that are appended to the children that result
    have finish : ∀ {c p : List (SumTree T S)} {s : S}, c ≠ [] → c.length = cts.length →
        p.length ≤ nodeCapacity → (∀ t ∈ c ++ p, Wf h t) → (∀ t ∈ c ++ p, Filled h t) →
        toListAll (c ++ p) = toListAll cts ++ b.toList → s = (cts.map summary).sum + b.summary →
        ∃ a' split, appendChildren (h + 1) s (c.map summary) (p.map summary) c p
          = .ok (a', split) ∧ Grown (h + 1)
            (.internal (h + 1) (cts.map summary).sum (cts.map summary) cts) b a' split := by
      intro c p s hcs hlen happ hw' hf' hlist hs
      obtain ⟨a', split, e, w', full, ne, hsplit, list⟩ := appendChildren_spec (s := s) hu hcs
        (by omega) happ hw' hf' (by
          rw [hs, Wf.summaries_eq fun t ht => (hw' t ht).summary_eq, hlist, List.map_append,
            List.sum_append, ← Wf.summaries_eq fun t ht => (hw t ht).summary_eq, wb.summary_eq])
      refine ⟨a', split, e, w', ne, fun _ hor => ?_, hsplit, by rw [list, hlist, toList_internal]⟩
      refine (full (hor.imp id fun hu => ?_)).2 (Nat.succ_ne_zero _)
      simp only [isUnderflowing, decide_eq_false_iff_not] at hu
      omega
    rw [pushTreeRecursive, wb.height_eq, checkedSub_ok (by omega), ok_bind]
    by_cases h0 : h + 1 - k = 0
    · -- equal heights: append the children of `other`
      obtain rfl : k = h + 1 := by omega
      obtain ⟨-, bts, hbne, hbl, hbw, hbf, rfl⟩ := wb.eq_internal
      rw [if_pos h0]
      simp only [childSummaries, childTrees, ok_bind]
      rw [arrayExtend_ok (by simpa using hbl), ok_bind, arrayExtend_ok (by simpa using hbl),
        ok_bind]
      refine finish hne rfl hbl ?_ ?_ ?_ rfl
      · exact fun t ht => (List.mem_append.mp ht).elim (hw t) (hbw t)
      · exact fun t ht => (List.mem_append.mp ht).elim (hf t) (hbf t)
      · rw [toListAll_append, toList_internal]
    · rw [if_neg h0]
      by_cases h1 : h + 1 - k = 1 ∧ ¬ b.isUnderflowing = true
      · -- `other` becomes a child
        obtain rfl : k = h := by omega
        rw [if_pos h1]
        refine finish (p := [b]) hne rfl (by rw [List.length_singleton]; omega) ?_ ?_ ?_ rfl
        · exact fun t ht => (List.mem_append.mp ht).elim (hw t) (fun e => by
            rw [List.mem_singleton.mp e]; exact wb)
        · exact fun t ht => (List.mem_append.mp ht).elim (hf t) (fun e => by
            rw [List.mem_singleton.mp e]; exact ⟨hb, fun _ => by simpa using h1.2⟩)
        · rw [toListAll_append, toListAll_cons, toListAll_nil, List.append_nil]
      · -- `other` goes into the last child
        rw [if_neg h1]
        obtain ⟨pre, c, rfl⟩ := (List.eq_nil_or_concat' cts).resolve_left hne
        have hc : c ∈ pre ++ [c] := by simp
        obtain ⟨c', split, e, g⟩ := ih c hc wb (by omega) hb
        have hc' : Filled h c' := ⟨g.ne, fun hh => g.full hh (Or.inr ((hf c hc).2 hh))⟩
        have hw1 : ∀ t ∈ pre ++ [c'], Wf h t := by
          simp only [List.mem_append, List.mem_singleton]
          rintro t (ht | rfl)
          · exact hw t (by simp [ht])
          · exact g.wf
        have hf1 : ∀ t ∈ pre ++ [c'], Filled h t := by
          simp only [List.mem_append, List.mem_singleton]
          rintro t (ht | rfl)
          · exact hf t (by simp [ht])
          · exact hc'
        rw [pushTreeLast_append, e]
        simp only [ok_bind, pure, Except.pure]
        rw [refreshLastSummary_append, ok_bind]
        have list := g.list
        cases split with
        | none =>
          simp only [Option.map_none, Option.getD_none, List.append_nil] at list
          refine finish (c := pre ++ [c']) (p := []) (by simp) (by simp) (Nat.zero_le _) ?_ ?_ ?_
            rfl
          · simpa using hw1
          · simpa using hf1
          · simp [list]
        | some t =>
          simp only [Option.map_some, Option.getD_some] at list
          refine finish (c := pre ++ [c']) (p := [t]) (by simp) (by simp)
            (by rw [List.length_singleton]; omega) ?_ ?_ ?_ rfl
          · exact fun u hu => (List.mem_append.mp hu).elim (hw1 u) (fun e => by
              rw [List.mem_singleton.mp e]; exact (g.half t rfl).1)
          · exact fun u hu => (List.mem_append.mp hu).elim (hf1 u) (fun e => by
              rw [List.mem_singleton.mp e]; exact (g.half t rfl).2)
          · simp [list]

/-! ## The number of items and the height -/

omit [AddMonoid S] [Item T S] in
theorem length_toListAll_le {c : ℕ} {ts : List (SumTree T S)}
    (h : ∀ t ∈ ts, t.toList.length ≤ c) : (toListAll ts).length ≤ ts.length * c := by
  induction ts with
  | nil => simp
  | cons t ts ih =>
    have h1 := h t List.mem_cons_self
    have h2 := ih fun u hu => h u (List.mem_cons_of_mem _ hu)
    rw [toListAll_cons, List.length_append, List.length_cons, Nat.succ_mul]
    omega

omit [AddMonoid S] [Item T S] in
theorem le_length_toListAll {c : ℕ} {ts : List (SumTree T S)}
    (h : ∀ t ∈ ts, c ≤ t.toList.length) : ts.length * c ≤ (toListAll ts).length := by
  induction ts with
  | nil => simp
  | cons t ts ih =>
    have h1 := h t List.mem_cons_self
    have h2 := ih fun u hu => h u (List.mem_cons_of_mem _ hu)
    rw [toListAll_cons, List.length_append, List.length_cons, Nat.succ_mul]
    omega

/-- A tree of height `h` has at most `(2 * TREE_BASE) ^ (h + 1)` items. -/
theorem Wf.length_le {h : ℕ} {t : SumTree T S} (w : Wf h t) :
    t.toList.length ≤ nodeCapacity ^ (h + 1) := by
  induction w with
  | leaf hl => simpa using hl
  | @internal h cts _ _ hl _ _ ih =>
    calc (toListAll cts).length ≤ cts.length * nodeCapacity ^ (h + 1) := length_toListAll_le ih
      _ ≤ nodeCapacity * nodeCapacity ^ (h + 1) := Nat.mul_le_mul_right _ hl
      _ = nodeCapacity ^ (h + 1 + 1) := (pow_succ' _ _).symm

/-- A child of height `h` has at least `TREE_BASE ^ h` items. -/
theorem Wf.le_length_of_filled {h : ℕ} {t : SumTree T S} (w : Wf h t) (f : Filled h t) :
    treeBase ^ h ≤ t.toList.length := by
  induction w with
  | leaf _ => exact List.length_pos_of_ne_nil f.1
  | @internal h cts _ _ _ _ hf ih =>
    have hb : treeBase ≤ cts.length := by
      have := f.2 (Nat.succ_ne_zero h)
      simpa only [isUnderflowing, decide_eq_false_iff_not, not_lt] using this
    calc treeBase ^ (h + 1) = treeBase * treeBase ^ h := pow_succ' _ _
      _ ≤ cts.length * treeBase ^ h := Nat.mul_le_mul_right _ hb
      _ ≤ (toListAll cts).length := le_length_toListAll fun t ht => ih t ht (hf t ht)

/-- **A tree of height `h + 1` has at least `TREE_BASE ^ h` items.** -/
theorem Wf.le_length {h : ℕ} {t : SumTree T S} (w : Wf (h + 1) t) :
    treeBase ^ h ≤ t.toList.length := by
  obtain ⟨-, cts, hne, -, hw, hf, rfl⟩ := w.eq_internal
  calc treeBase ^ h = 1 * treeBase ^ h := (one_mul _).symm
    _ ≤ cts.length * treeBase ^ h := Nat.mul_le_mul_right _ (List.length_pos_of_ne_nil hne)
    _ ≤ (toListAll cts).length :=
      le_length_toListAll fun t ht => (hw t ht).le_length_of_filled (hf t ht)

/-! ## `push_tree` -/

/-- A call returns a well-formed tree with items `l`, or the `u8` height overflows, which takes at
least `TREE_BASE ^ 254` items. -/
def Yields (l : List T) (r : Result (SumTree T S)) : Prop :=
  (∃ h t, r = .ok t ∧ Wf h t ∧ t.toList = l) ∨ (r = .error .overflow ∧ treeBase ^ 254 ≤ l.length)

theorem Yields.ok {h : ℕ} {t : SumTree T S} (w : Wf h t) : Yields t.toList (.ok t) :=
  Or.inl ⟨h, t, rfl, w, rfl⟩

theorem Yields.bind {l l' : List T} {r : Result (SumTree T S)}
    {f : SumTree T S → Result (SumTree T S)} (hr : Yields l r) (hl : l.length ≤ l'.length)
    (hf : ∀ h t, Wf h t → t.toList = l → Yields l' (f t)) : Yields l' (r >>= f) := by
  rcases hr with ⟨h, t, rfl, w, e⟩ | ⟨rfl, hlen⟩
  · exact hf h t w e
  · exact Or.inr ⟨rfl, hlen.trans hl⟩

theorem Wf.toList_eq_nil {h : ℕ} {t : SumTree T S} (w : Wf h t) (e : t.toList = []) : h = 0 := by
  cases w with
  | leaf _ => rfl
  | internal _ hne _ _ hf => exact absurd e (toListAll_ne_nil hne fun t ht => (hf t ht).1)

theorem fromChildTrees_spec {h : ℕ} {cts : List (SumTree T S)} (hne : cts ≠ [])
    (hl : cts.length ≤ nodeCapacity) (hw : ∀ t ∈ cts, Wf h t) (hf : ∀ t ∈ cts, Filled h t) :
    (h + 1 ≤ u8Max ∧
        fromChildTrees cts = .ok (.internal (h + 1) (cts.map summary).sum (cts.map summary) cts)) ∨
      (fromChildTrees cts = .error .overflow ∧ u8Max ≤ h) := by
  obtain ⟨c, cs, rfl⟩ := List.exists_cons_of_ne_nil hne
  have e : index (c :: cs) 0 = .ok c := rfl
  rw [fromChildTrees, e, ok_bind, (hw c List.mem_cons_self).height_eq]
  by_cases hh : h + 1 ≤ u8Max
  · left
    refine ⟨hh, ?_⟩
    rw [checkedAdd_ok hh, ok_bind, arrayCollect_ok (by simpa using hl), ok_bind,
      arrayCollect_ok hl, ok_bind]
    rfl
  · right
    rw [checkedAdd, if_neg hh]
    exact ⟨rfl, by omega⟩

theorem pushTreeRoot_spec {h k : ℕ} {a b : SumTree T S} (wa : Wf h a) (wb : Wf k b) (hk : k ≤ h)
    (hb : b.toList ≠ []) : Yields (a.toList ++ b.toList) (pushTreeRoot a b) := by
  obtain ⟨a', split, e, g⟩ := pushTreeRecursive_spec wa wb hk hb
  have list := g.list
  rw [pushTreeRoot, e, ok_bind]
  cases split with
  | none =>
    simp only [Option.map_none, Option.getD_none, List.append_nil] at list
    rw [← list]
    exact .ok g.wf
  | some t =>
    simp only [Option.map_some, Option.getD_some] at list
    have hpos := treeBase_pos
    have hcap : nodeCapacity = 2 * treeBase := rfl
    have hw : ∀ u ∈ [a', t], Wf h u := by
      simp only [List.mem_cons, List.not_mem_nil, or_false]
      rintro u (rfl | rfl)
      exacts [g.wf, (g.half _ rfl).1]
    have hf : ∀ u ∈ [a', t], Filled h u := by
      simp only [List.mem_cons, List.not_mem_nil, or_false]
      rintro u (rfl | rfl)
      exacts [⟨g.ne, fun hh => g.full hh (Or.inl (by simp))⟩, (g.half _ rfl).2]
    have hlen : [a', t].length ≤ nodeCapacity := by
      rw [List.length_cons, List.length_singleton]; omega
    rcases fromChildTrees_spec (by simp) hlen hw hf with ⟨hu, e⟩ | ⟨e, hh⟩
    · refine Or.inl ⟨h + 1, _, e, .internal hu (by simp) hlen hw hf, ?_⟩
      simp [list]
    · refine Or.inr ⟨e, ?_⟩
      calc treeBase ^ 254 ≤ treeBase ^ h := Nat.pow_le_pow_right hpos (by unfold u8Max at hh; omega)
        _ ≤ a'.toList.length := g.wf.le_length_of_filled (hf a' (by simp))
        _ ≤ (a.toList ++ b.toList).length := by rw [← list, List.length_append]; omega

theorem pushTrees_spec {cts : List (SumTree T S)} {h : ℕ} {a : SumTree T S} (wa : Wf h a)
    (ih : ∀ t ∈ cts, ∀ {h : ℕ} {a : SumTree T S}, Wf h a →
      Yields (a.toList ++ t.toList) (pushTree a t)) :
    Yields (a.toList ++ toListAll cts) (pushTrees a cts) := by
  induction cts generalizing h a with
  | nil =>
    rw [pushTrees, toListAll_nil, List.append_nil]
    exact .ok wa
  | cons t ts iht =>
    rw [pushTrees]
    refine (ih t List.mem_cons_self wa).bind (by simp) fun h' a' wa' e => ?_
    have := iht wa' fun u hu => ih u (List.mem_cons_of_mem _ hu)
    rwa [e, List.append_assoc] at this

/-- **`push_tree` appends.** -/
theorem pushTree_spec {h k : ℕ} {a b : SumTree T S} (wa : Wf h a) (wb : Wf k b) :
    Yields (a.toList ++ b.toList) (pushTree a b) := by
  induction wb generalizing h a with
  | @leaf is hl =>
    rw [pushTree]
    by_cases hi : is = []
    · subst hi
      simpa using Yields.ok wa
    · rw [if_neg (by simpa using hi)]
      exact pushTreeRoot_spec wa (.leaf hl) (Nat.zero_le _) hi
  | @internal k cts hu hne hl hw hf ih =>
    rw [pushTree]
    by_cases hlt : a.height < k + 1
    · rw [if_pos hlt]
      exact pushTrees_spec wa fun t ht _ _ wa => ih t ht wa
    · rw [if_neg hlt]
      refine pushTreeRoot_spec wa (.internal hu hne hl hw hf) ?_ ?_
      · rw [wa.height_eq] at hlt
        omega
      · exact toListAll_ne_nil hne fun t ht => (hf t ht).1

/-! ## `push`, `extend` and `update_last` -/

theorem length_singleton_le {α : Type} (a : α) : [a].length ≤ nodeCapacity := by
  show 1 ≤ nodeCapacity
  decide

theorem push_spec {h : ℕ} {a : SumTree T S} (wa : Wf h a) (x : T) :
    Yields (a.toList ++ [x]) (push a x) := by
  have wl : Wf 0 (.leaf (Item.summary x) [x] [Item.summary x]) :=
    Wf.leaf' (length_singleton_le _) (by simp) rfl
  have fl : Filled 0 (.leaf (Item.summary x) [x] [Item.summary x]) :=
    ⟨by simp, fun h => absurd rfl h⟩
  have hw : ∀ t ∈ [leaf (Item.summary x) [x] [Item.summary x]], Wf 0 t := by
    simpa using wl
  have hf : ∀ t ∈ [leaf (Item.summary x) [x] [Item.summary x]], Filled 0 t := by
    simpa using fl
  rcases fromChildTrees_spec (by simp) (length_singleton_le _) hw hf with ⟨hu, e⟩ | ⟨-, hh⟩
  · simp only [push, e, ok_bind]
    simpa using pushTree_spec wa (.internal hu (by simp) (length_singleton_le _) hw hf)
  · exact absurd hh (by decide)

theorem fromItem_spec (x : T) : Yields [x] (fromItem x : Result (SumTree T S)) := by
  have := push_spec (wf_new (T := T) (S := S)) x
  rwa [show (new : SumTree T S).toList = [] from rfl, List.nil_append] at this

/-- The items of the leaf that `extend` is filling. -/
def pendingItems : Option (PendingLeaf T S) → List T
  | none => []
  | some (_, items, _) => items

/-- The leaf that `extend` is filling is well formed. -/
def PendingOk (pending : Option (PendingLeaf T S)) : Prop :=
  ∀ s is iss, pending = some (s, is, iss) → Wf 0 (.leaf s is iss)

theorem flushFullLeaf_spec {h : ℕ} {a : SumTree T S} (wa : Wf h a)
    {pending : Option (PendingLeaf T S)} (hp : PendingOk pending) :
    (flushFullLeaf a pending = .error .overflow ∧
      treeBase ^ 254 ≤ (a.toList ++ pendingItems pending).length) ∨
    ∃ h' a' pending', flushFullLeaf a pending = .ok (a', pending') ∧ Wf h' a' ∧
      PendingOk pending' ∧ (pendingItems pending').length < nodeCapacity ∧
      a'.toList ++ pendingItems pending' = a.toList ++ pendingItems pending := by
  cases pending with
  | none =>
    exact Or.inr ⟨h, a, none, rfl, wa, fun _ _ _ e => (nomatch e), by simp [pendingItems]; decide,
      rfl⟩
  | some p =>
    obtain ⟨s, is, iss⟩ := p
    have wl := hp s is iss rfl
    have hle : is.length ≤ nodeCapacity := by
      obtain ⟨is', hl, e⟩ := wl.eq_leaf
      injection e with _ e _
      rwa [e]
    by_cases hfull : is.length = nodeCapacity
    · simp only [flushFullLeaf, if_pos hfull]
      rcases pushTree_spec wa wl with ⟨h', t, e, w, l⟩ | ⟨e, hlen⟩
      · refine Or.inr ⟨h', t, none, by rw [e]; rfl, w, fun _ _ _ e => (nomatch e),
          by simp [pendingItems]; decide, by simpa [pendingItems] using l⟩
      · exact Or.inl ⟨by rw [e]; rfl, by simpa [pendingItems] using hlen⟩
    · refine Or.inr ⟨h, a, some (s, is, iss), by simp only [flushFullLeaf, if_neg hfull], wa, hp,
        ?_, rfl⟩
      simp only [pendingItems]
      omega

theorem extendLoop_spec (iter : List T) {h : ℕ} {a : SumTree T S} (wa : Wf h a)
    {pending : Option (PendingLeaf T S)} (hp : PendingOk pending) :
    Yields (a.toList ++ pendingItems pending ++ iter) (extendLoop a pending iter) := by
  induction iter generalizing h a pending with
  | nil =>
    cases pending with
    | none => simpa [pendingItems, extendLoop] using Yields.ok wa
    | some p =>
      obtain ⟨s, is, iss⟩ := p
      simpa [pendingItems, extendLoop] using pushTree_spec wa (hp s is iss rfl)
  | cons x iter ih =>
    rw [extendLoop]
    rcases flushFullLeaf_spec wa hp with ⟨e, hlen⟩ | ⟨h', a', pending', e, wa', hp', hlen, list⟩
    · refine Or.inr ⟨by rw [e]; rfl, hlen.trans ?_⟩
      simp
    · rw [e, ok_bind, ← list]
      -- the leaf that receives the item
      obtain ⟨s, is, iss, hd, wl, hi⟩ : ∃ s is iss, pending'.getD (0, [], []) = (s, is, iss) ∧
          Wf 0 (.leaf s is iss) ∧ is = pendingItems pending' := by
        cases pending' with
        | none => exact ⟨0, [], [], rfl, wf_new, rfl⟩
        | some p => exact ⟨p.1, p.2.1, p.2.2, rfl, hp' _ _ _ rfl, rfl⟩
      obtain ⟨js, hjl, hj⟩ := wl.eq_leaf
      injection hj with hs hi' hiss
      subst hs hi' hiss
      rw [← hi] at hlen
      simp only [hd]
      rw [arrayPush_ok hlen, ok_bind, arrayPush_ok (by simpa using hlen), ok_bind]
      have wl' : Wf 0 (.leaf ((is.map Item.summary).sum + Item.summary x) (is ++ [x])
          (is.map Item.summary ++ [Item.summary x])) :=
        Wf.leaf' (by simpa using hlen) (by simp) (by simp)
      have hp'' : PendingOk (some ((is.map Item.summary).sum + Item.summary x, is ++ [x],
          is.map Item.summary ++ [Item.summary x])) := by
        rintro s is iss ⟨⟩
        exact wl'
      rw [← hi]
      simpa [pendingItems] using ih wa' hp''

/-- **`extend` appends the items of the iterator.** -/
theorem extend_spec {h : ℕ} {a : SumTree T S} (wa : Wf h a) (iter : List T) :
    Yields (a.toList ++ iter) (extend a iter) := by
  have hp : PendingOk (none : Option (PendingLeaf T S)) := fun _ _ _ e => nomatch e
  simpa [pendingItems, extend] using extendLoop_spec iter wa hp

omit [AddMonoid S] in
theorem updateLastChild_append (f : T → T) [AddMonoid S] (pre : List (SumTree T S))
    (c : SumTree T S) : updateLastChild f (pre ++ [c]) =
      (do let c ← updateLastLeafRecursive f c; return (pre ++ [c])) := by
  induction pre with
  | nil => rfl
  | cons t pre ih =>
    obtain ⟨u, us, hu⟩ : ∃ u us, pre ++ [c] = u :: us := by
      cases pre with
      | nil => exact ⟨c, [], rfl⟩
      | cons p pre => exact ⟨p, pre ++ [c], rfl⟩
    rw [List.cons_append, hu, updateLastChild, ← hu, ih]
    cases updateLastLeafRecursive f c <;> rfl

theorem updateLastLeafRecursive_spec {h : ℕ} {t : SumTree T S} (w : Wf h t) (f : T → T)
    {xs : List T} {x : T} (hx : t.toList = xs ++ [x]) :
    ∃ t', updateLastLeafRecursive f t = .ok t' ∧ Wf h t' ∧ t'.toList = xs ++ [f x] ∧
      t'.isUnderflowing = t.isUnderflowing := by
  induction w generalizing xs x with
  | @leaf is hl =>
    obtain rfl : is = xs ++ [x] := hx
    refine ⟨.leaf ((xs ++ [f x]).map Item.summary).sum (xs ++ [f x])
      ((xs ++ [f x]).map Item.summary), ?_, .leaf (by simpa using hl), rfl, by
        simp [isUnderflowing]⟩
    simp [updateLastLeafRecursive, updateLastItem, ok_bind, pure, Except.pure]
  | @internal h cts hu hne hl hw hf ih =>
    obtain ⟨pre, c, rfl⟩ := (List.eq_nil_or_concat' cts).resolve_left hne
    have hc : c ∈ pre ++ [c] := by simp
    -- the last item is in the last child
    obtain ⟨ys, y, hy⟩ := (List.eq_nil_or_concat' c.toList).resolve_left (hf c hc).1
    have hcat : toListAll pre ++ ys ++ [y] = xs ++ [x] := by
      rw [← hx]; simp [hy]
    obtain ⟨rfl, rfl⟩ : toListAll pre ++ ys = xs ∧ y = x := by
      simpa using List.append_inj' hcat rfl
    obtain ⟨c', e, wc', lc', uc'⟩ := ih c hc hy
    refine ⟨.internal (h + 1) ((pre ++ [c']).map summary).sum ((pre ++ [c']).map summary)
      (pre ++ [c']), ?_, .internal hu (by simp) (by simpa using hl) ?_ ?_, ?_, by
        simp [isUnderflowing]⟩
    · rw [updateLastLeafRecursive, updateLastChild_append, e]
      simp only [ok_bind, pure, Except.pure]
      rw [refreshLastSummary_append]
      rfl
    · simp only [List.mem_append, List.mem_singleton]
      rintro t (ht | rfl)
      · exact hw t (by simp [ht])
      · exact wc'
    · simp only [List.mem_append, List.mem_singleton]
      rintro t (ht | rfl)
      · exact hf t (by simp [ht])
      · exact ⟨by rw [lc']; simp, fun hh => by rw [uc']; exact (hf c hc).2 hh⟩
    · simp [lc']

/-- **`update_last` changes the last item and nothing else.** -/
theorem updateLast_spec {h : ℕ} {t : SumTree T S} (w : Wf h t) (f : T → T) {xs : List T} {x : T}
    (hx : t.toList = xs ++ [x]) :
    ∃ t', updateLast t f = .ok t' ∧ Wf h t' ∧ t'.toList = xs ++ [f x] := by
  have he : t.isEmpty = false := by
    cases w with
    | leaf _ =>
      obtain rfl := hx
      simp [isEmpty]
    | internal => rfl
  obtain ⟨t', e, w', l, -⟩ := updateLastLeafRecursive_spec w f hx
  exact ⟨t', by rw [updateLast, he, if_neg Bool.false_ne_true, e], w', l⟩

theorem updateLast_empty {h : ℕ} {t : SumTree T S} (w : Wf h t) (f : T → T)
    (hx : t.toList = []) : updateLast t f = .ok t := by
  obtain rfl := w.toList_eq_nil hx
  obtain ⟨is, -, rfl⟩ := w.eq_leaf
  obtain rfl : is = [] := hx
  rfl

end Clinch.SumTree
