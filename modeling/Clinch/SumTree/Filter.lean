import Clinch.SumTree.Move
import Clinch.SumTree.Exact

/-!
# The filter cursor

`FilterCursor` in `crates/sum_tree/src/cursor.rs`, which `SumTree::filter` returns.

* `FilterCursor`, `start`, `item`, `next`, `iterNext`;
* `letThrough`: the items that satisfy a predicate, each with the sum of all items before it;
* `FilterCursor.Ready`: what a filter cursor still has to yield;
* **`filter_faithful`**: the calls of `Iterator::next` yield `letThrough`;
* `doubled_filter_capacity`: over a tree that is too high, there is no filter cursor at all.
-/

set_option autoImplicit false

namespace Clinch

open SumTree

variable {T S U : Type} [AddMonoid S] [Item T S] [Dimension U S]

/-- `FilterCursor`. -/
structure FilterCursor (T S U : Type) where
  cursor : Cursor T S Unit U
  filterNode : S → Bool

namespace FilterCursor

section Methods

omit [AddMonoid S] [Item T S]

/-- `FilterCursor::new`. -/
def new (tree : SumTree T S) (filterNode : S → Bool) : Result (FilterCursor T S U) := do
  let cursor : Cursor T S Unit U := .new tree
  let cursor ← (if filterNode tree.summary then cursor.descendToFirstItem filterNode tree
    else .ok { cursor with didSeek := true, atEnd := true } : Result _)
  return ⟨cursor, filterNode⟩

omit [Dimension U S] in
/-- `FilterCursor::start`. -/
def start (c : FilterCursor T S U) : U := c.cursor.start

omit [Dimension U S] in
/-- `FilterCursor::item`. -/
def item (c : FilterCursor T S U) : Result (Option T) := c.cursor.item

/-- `FilterCursor::next`. -/
def next (c : FilterCursor T S U) : Result (FilterCursor T S U) := do
  return { c with cursor := ← c.cursor.nextInternal c.filterNode }

/-- `Iterator::next`. -/
def iterNext (c : FilterCursor T S U) : Result (FilterCursor T S U × Option T) := do
  match ← c.item with
  | some item => return (← c.next, some item)
  | none => return (c, none)

/-- What `n` calls of `Iterator::next` yield, each item with the `start` before its call. -/
def iterate : ℕ → FilterCursor T S U → Result (FilterCursor T S U × List (U × T))
  | 0, c => .ok (c, [])
  | n + 1, c => do
    let start := c.start
    let (c, item) ← c.iterNext
    let (c, items) ← iterate n c
    return (c, (item.map fun x => (start, x)).toList ++ items)

end Methods

end FilterCursor

/-- `SumTree::filter`. -/
def SumTree.filter (tree : SumTree T S) (filterNode : S → Bool) : Result (FilterCursor T S U) :=
  FilterCursor.new tree filterNode

/-! ## What there is to yield -/

/-- The items `ys` that satisfy the predicate, each with the sum of `xs` and of the items of `ys`
before it. -/
def remaining (U : Type) [Dimension U S] (f : S → Bool) (xs ys : List T) : List (U × T) :=
  ((ys.zipIdx xs.length).filter fun y => f (Item.summary y.1)).map fun y =>
    (measure U ((xs ++ ys).take y.2), y.1)

/-- **The items whose summary satisfies the predicate, each with the sum of the summaries of all the
items before it.** -/
def letThrough (U : Type) [Dimension U S] (f : S → Bool) (xs : List T) : List (U × T) :=
  (xs.zipIdx.filter fun x => f (Item.summary x.1)).map fun x => (measure U (xs.take x.2), x.1)

section Remaining

omit [AddMonoid S]

variable {f : S → Bool}

theorem remaining_nil_left (xs : List T) : remaining U f [] xs = letThrough U f xs := rfl

theorem remaining_cons (xs ys : List T) {y : T} (hy : f (Item.summary y) = true) :
    remaining U f xs (y :: ys) = (measure U xs, y) :: remaining U f (xs ++ [y]) ys := by
  rw [remaining, List.zipIdx_cons, List.filter_cons_of_pos (by exact hy), List.map_cons, remaining]
  simp

theorem remaining_skip (xs ys : List T) {skipped : List T}
    (hs : ∀ x ∈ skipped, f (Item.summary x) = false) :
    remaining U f xs (skipped ++ ys) = remaining U f (xs ++ skipped) ys := by
  have hnone : ((skipped.zipIdx xs.length).filter fun y => f (Item.summary y.1)) = [] := by
    refine List.filter_eq_nil_iff.mpr fun y hy => ?_
    simp [hs y.1 (List.fst_mem_of_mem_zipIdx hy)]
  rw [remaining, List.zipIdx_append, List.filter_append, hnone, List.nil_append, remaining]
  simp

theorem remaining_eq_nil (xs : List T) {ys : List T}
    (hs : ∀ y ∈ ys, f (Item.summary y) = false) : remaining U f xs ys = [] := by
  rw [← List.append_nil ys, remaining_skip xs [] hs]
  rfl

end Remaining

namespace FilterCursor

variable {root : SumTree T S} {H : ℕ} {f : S → Bool} {c : FilterCursor T S U} {xs ys : List T}

/-! ## The calls -/

/-- The cursor stands before the next item to yield, or there is none among those that are left. -/
inductive Ready (root : SumTree T S) (H : ℕ) (f : S → Bool) :
    FilterCursor T S U → List T → List T → Prop
  | standing {c : Cursor T S Unit U} {xs ys : List T} {y : T} :
      c.At root H xs (y :: ys) → f (Item.summary y) = true → Ready root H f ⟨c, f⟩ xs (y :: ys)
  | done {c : Cursor T S Unit U} {xs ys : List T} :
      c.stack = [] → c.didSeek = true → (∀ y ∈ ys, f (Item.summary y) = false) →
      Ready root H f ⟨c, f⟩ xs ys

/-- `()` is measured exactly. -/
theorem exact_unit : ExactDimension T (S := S) Unit := ⟨fun _ _ _ => rfl, rfl⟩

theorem Ready.of_at {cursor : Cursor T S Unit U} (hc : cursor.At root H xs ys)
    (hys : ∀ y ∈ ys.head?, f (Item.summary y) = true) : Ready root H f ⟨cursor, f⟩ xs ys := by
  cases ys with
  | cons y ys => exact .standing hc (hys y rfl)
  | nil =>
    refine .done ?_ hc.didSeek (by simp)
    have hp := hc.place
    cases hst : cursor.stack with
    | nil => rfl
    | cons entry st =>
      rw [hst] at hp
      nomatch hp

/-- **One call yields the first of the remaining items.** -/
theorem Ready.iterNext (w : Wf H root) (hH : H < stackCapacity) (hf : ExactPredicate T f)
    (hU : ExactDimension T U) (hc : Ready root H f c xs ys) :
    Returns (fun r => ∃ xs' ys', Ready root H f r.1 xs' ys' ∧
      remaining U f xs ys = (r.2.map fun x => (c.start, x)).toList ++ remaining U f xs' ys' ∧
      (r.2 = none → remaining U f xs ys = [])) c.iterNext := by
  cases hc with
  | @standing cursor _ ys y hat hy =>
    rw [FilterCursor.iterNext, FilterCursor.item, Cursor.Stands.item hat]
    simp only [List.head?_cons, ok_bind]
    have hnext := hat.nextInternal_filter w hH hf fun _ => exact_unit
    rw [FilterCursor.next, bind_assoc]
    refine hnext.bind fun cursor' hcursor' => ?_
    obtain ⟨skipped, zs, hskips, hat'⟩ := hcursor'
    refine Returns.ok ⟨xs ++ [y] ++ skipped, zs, .of_at hat' hskips.head, ?_, fun h => by cases h⟩
    have hstart : cursor.start = measure U xs := hat.sums.2 hU
    rw [remaining_cons xs ys hy, hskips.append_eq, remaining_skip _ _ hskips.skipped]
    simp [FilterCursor.start, hstart]
  | @done cursor _ _ hst hd hnone =>
    have hitem : cursor.item = .ok none := by
      rw [Cursor.item, debugAssert_ok hd, ok_bind, hst]
      rfl
    rw [FilterCursor.iterNext, FilterCursor.item, hitem]
    exact Returns.ok ⟨xs, ys, .done hst hd hnone, rfl, fun _ => remaining_eq_nil xs hnone⟩

theorem Ready.iterate (w : Wf H root) (hH : H < stackCapacity) (hf : ExactPredicate T f)
    (hU : ExactDimension T U) (hc : Ready root H f c xs ys) (n : ℕ) :
    ∃ c', c.iterate n = .ok (c', (remaining U f xs ys).take n) := by
  induction n generalizing c xs ys with
  | zero => exact ⟨c, rfl⟩
  | succ n ih =>
    obtain ⟨⟨c', item⟩, hnext, xs', ys', hc', hrem, hnone⟩ := hc.iterNext w hH hf hU
    obtain ⟨c'', hiter⟩ := ih hc'
    refine ⟨c'', ?_⟩
    rw [FilterCursor.iterate, hnext, ok_bind]
    simp only [hiter, ok_bind]
    cases item with
    | some x =>
      rw [hrem]
      rfl
    | none =>
      have hnil := hnone rfl
      rw [hnil] at hrem
      have hnil' : remaining U f xs' ys' = [] := by simpa using hrem.symm
      rw [hnil, hnil', List.take_nil, List.take_nil]
      rfl

theorem new_ready (w : Wf H root) (hH : H < stackCapacity) (hf : ExactPredicate T f) :
    Returns (fun c : FilterCursor T S U => ∃ xs ys, Ready root H f c xs ys ∧
      remaining U f xs ys = letThrough U f root.toList) (root.filter f) := by
  rw [SumTree.filter, FilterCursor.new]
  by_cases hroot : f root.summary = true
  · rw [if_pos hroot]
    by_cases hne : root.toList = []
    · obtain rfl := w.toList_eq_nil hne
      obtain ⟨is, -, rfl⟩ := w.eq_leaf
      rw [toList_leaf] at hne
      subst hne
      simp only [Cursor.descendToFirstItem]
      refine ⟨_, rfl, [], [], ?_, rfl⟩
      exact .done (c := { Cursor.new _ with didSeek := true }) rfl rfl (by simp)
    · have henter : Cursor.Enters root H false
          ({ Cursor.new root with didSeek := true } : Cursor T S Unit U) H root [] [] :=
        ⟨rfl, .nil, ⟨rfl, fun _ => rfl⟩, rfl, rfl⟩
      have hdesc := henter.descendToFirstItem_filter w hH hf (fun _ => exact_unit)
        ((hf.summary_eq w hne).symm.trans hroot)
      have hseek : Cursor.descendToFirstItem f root (Cursor.new root : Cursor T S Unit U) =
          Cursor.descendToFirstItem f root { Cursor.new root with didSeek := true } := by
        cases w <;> simp only [Cursor.descendToFirstItem]
      simp only [hseek]
      refine hdesc.bind fun cursor hcursor => ?_
      obtain ⟨skipped, y, ys, hskips, hstands⟩ := hcursor
      refine Returns.ok ⟨skipped, y :: ys, .standing ?_ (hskips.head y rfl), ?_⟩
      · have hp := hstands.place
        refine ⟨hstands.tree, by simpa using hp, by simpa using hstands.sums, hstands.didSeek,
          hstands.atEnd.trans ?_⟩
        cases hst : cursor.stack with
        | nil =>
          rw [hst] at hp
          cases hp
        | cons entry st => rfl
      · rw [← remaining_nil_left, hskips.append_eq, remaining_skip _ _ hskips.skipped]
        rfl
  · rw [if_neg hroot]
    refine Returns.ok ⟨[], root.toList, .done rfl rfl fun y hy => ?_, rfl⟩
    have hany := (hf.summary_eq w (List.ne_nil_of_mem hy)).symm.trans (Bool.eq_false_iff.mpr hroot)
    simpa using List.any_eq_false.mp hany y hy

end FilterCursor

/-- **A filter cursor yields exactly the items that satisfy its predicate.** -/
theorem filter_faithful {t : SumTree T S} (b : Built t) (hH : t.height < stackCapacity)
    {f : S → Bool} (hf : ExactPredicate T f) (hU : ExactDimension T U) :
    ∃ c : FilterCursor T S U, t.filter f = .ok c ∧
      ∀ n, ∃ c', c.iterate n = .ok (c', (letThrough U f t.toList).take n) := by
  obtain ⟨H, w⟩ := b.wf
  rw [w.height_eq] at hH
  obtain ⟨c, hnew, xs, ys, hc, hrem⟩ := FilterCursor.new_ready (U := U) w hH hf
  refine ⟨c, hnew, fun n => ?_⟩
  rw [← hrem]
  exact hc.iterate w hH hf hU n

/-! ## A tree to filter, and one that is too high -/

/-- Of the items of a document, those that are visible: counted all together, and on their own. -/
instance : Item Bool (ℕ × ℕ) := ⟨fun visible => (1, if visible then 1 else 0)⟩

/-- The number of items, visible or not. -/
instance : Dimension ℕ (ℕ × ℕ) := ⟨0, fun d s => d + s.1⟩

/-- The third and the sixth item are visible. -/
theorem filter_faithful_visible : ∃ t : SumTree Bool (ℕ × ℕ), ∃ c : FilterCursor Bool (ℕ × ℕ) ℕ,
    SumTree.new.extend [false, false, true, false, false, true, false] = .ok t ∧
      t.filter (fun s => decide (s.2 ≠ 0)) = .ok c ∧
      ∃ c', c.iterate 3 = .ok (c', [(2, true), (5, true)]) := by
  have hf : ExactPredicate Bool fun s : ℕ × ℕ => decide (s.2 ≠ 0) := by
    intro xs hne
    clear hne
    induction xs with
    | nil => rfl
    | cons x xs ih => cases x <;> simp_all [Item.summary]
  have hU : ExactDimension Bool (S := ℕ × ℕ) ℕ :=
    .of_add (fun d a b => Nat.add_assoc d a.1 b.1) rfl
  obtain ⟨t, ht⟩ : ∃ t : SumTree Bool (ℕ × ℕ),
      SumTree.new.extend [false, false, true, false, false, true, false] = .ok t := ⟨_, rfl⟩
  obtain ⟨c, hc, hiter⟩ := filter_faithful (.extend .new ht) (by cases ht; decide) hf hU
  obtain ⟨c', hc'⟩ := hiter 3
  exact ⟨t, c, ht, hc, c', by cases ht; exact hc'⟩

/-- Over a tree that is too high, the way down to the first item overflows the stack. -/
theorem Cursor.descendToFirstItem_capacity {f : S → Bool} (hf : ExactPredicate T f)
    (hall : ∀ x : T, f (Item.summary x) = true) {h : ℕ} {t : SumTree T S} (w : Wf h t)
    (hne : t.toList ≠ []) (c : Cursor T S Unit U) (hle : c.stack.length ≤ stackCapacity)
    (hH : stackCapacity ≤ c.stack.length + h) :
    c.descendToFirstItem f t = .error .capacity := by
  induction w generalizing c with
  | @leaf is hl =>
    obtain ⟨x, is, rfl⟩ := List.exists_cons_of_ne_nil hne
    rw [Cursor.descendToFirstItem]
    simp only [List.map_cons, List.takeWhile, hall, Bool.not_true, List.length_nil,
      List.length_cons, Nat.zero_lt_succ, if_true]
    exact if_neg (not_lt.mpr hH)
  | @internal h cts _ hne' _ hw hfill ih =>
    obtain ⟨u, us, rfl⟩ := List.exists_cons_of_ne_nil hne'
    have hnu := (hfill u List.mem_cons_self).1
    have hu : f u.summary = true := by
      obtain ⟨x, xs, hx⟩ := List.exists_cons_of_ne_nil hnu
      rw [hf.summary_eq (hw u List.mem_cons_self) hnu, hx, List.any_cons, hall, Bool.true_or]
    rw [Cursor.descendToFirstItem]
    simp only [List.map_cons, descendToFirstChild, hu, if_true]
    rcases Nat.lt_or_ge c.stack.length stackCapacity with hlt | hge
    · rw [Cursor.pushEntry_ok (by exact hlt), ok_bind]
      refine ih u List.mem_cons_self hnu _ (by simpa using hlt) ?_
      simp only [List.length_cons]
      omega
    · rw [Cursor.pushEntry, if_neg (by simpa using hge), error_bind]

/-- **Over a tree of more than 16 levels `SumTree::filter` panics.** -/
theorem doubled_filter_capacity : ∃ t, doubled 58 = .ok t ∧ Built t ∧
    (∀ ss : List ℕ, decide (ss.sum ≠ 0) = ss.any fun s => decide (s ≠ 0)) ∧
    (t.filter fun s => decide (s ≠ 0) : Result (FilterCursor Unit ℕ ℕ)) = .error .capacity := by
  have hsum : ∀ ss : List ℕ, decide (ss.sum ≠ 0) = ss.any fun s => decide (s ≠ 0) := by
    intro ss
    induction ss with
    | nil => rfl
    | cons s ss ih => by_cases hs : s = 0 <;> simp_all
  have hf : ExactPredicate Unit fun s : ℕ => decide (s ≠ 0) := by
    intro xs _
    simp only [hsum, List.any_map]
    rfl
  obtain ⟨t, h, e, b, w, hh, hne⟩ := doubled_high
  refine ⟨t, e, b, hsum, ?_⟩
  have hroot : decide (t.summary ≠ 0) = true := by
    obtain ⟨x, xs, hx⟩ := List.exists_cons_of_ne_nil hne
    rw [hf.summary_eq w hne, hx]
    rfl
  change FilterCursor.new t _ = _
  rw [FilterCursor.new, if_pos hroot,
    Cursor.descendToFirstItem_capacity hf (fun _ => rfl) w hne _ (Nat.zero_le _)
      (hh.trans (Nat.le_add_left _ _)), error_bind]

end Clinch
