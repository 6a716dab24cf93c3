import Clinch.SumTree.Capacity

/-!
# The position of a cursor

A cursor stands between the items `xs` before it and the items `ys` from it on. Its stack records
this: every entry points at the child that the entry above it is about.

* `measure`, `ExactDimension`, `MonotoneDimension`: the sums of summaries along a dimension, when
  they are exact and never decrease;
* `StackEntry.passed`, `Cursor.position`: the items before a cursor, computed from its stack;
* `Spine`, `Place`: the stack leads from the root to a node, to a place between two items;
* **`At`**: the cursor stands between `xs` and `ys`;
* `At.item`, `At.prevItem`: what is read there.
-/

set_option autoImplicit false

namespace Clinch

open SumTree

variable {T S D U : Type} [AddMonoid S] [Item T S] [Dimension D S] [Dimension U S]

/-! ## Sums along a dimension -/

/-- Add the summaries of the items to `d`, one after the other. -/
def measureFrom (d : D) (xs : List T) : D := (xs.map Item.summary).foldl Dimension.addSummary d

/-- The sum of the summaries of the items. -/
def measure (D : Type) [Dimension D S] (xs : List T) : D :=
  measureFrom (Dimension.default S) xs

omit [AddMonoid S] in
theorem measureFrom_append (d : D) (xs ys : List T) :
    measureFrom d (xs ++ ys) = measureFrom (measureFrom d xs) ys := by
  rw [measureFrom, List.map_append, List.foldl_append]
  rfl

omit [AddMonoid S] in
theorem measure_append (xs ys : List T) :
    measure D (xs ++ ys) = measureFrom (measure D xs) ys := measureFrom_append _ _ _

/-- Adding the sum of the summaries of some items is adding them one after the other. -/
structure ExactDimension (T : Type) {S : Type} (D : Type) [AddMonoid S] [Item T S]
    [Dimension D S] : Prop where
  addSummary_sum : ∀ (d : D) (xs : List T), xs ≠ [] →
    Dimension.addSummary d (xs.map Item.summary).sum = measureFrom d xs
  addSummary_zero : Dimension.addSummary (Dimension.default S : D) (0 : S) = Dimension.default S

/-- The sums of the summaries of the first items never decrease. -/
def MonotoneDimension (D : Type) [Dimension D S] [LE D] (items : List T) : Prop :=
  ∀ xs ys zs, items = xs ++ ys ++ zs → measure D xs ≤ measure D (xs ++ ys)

namespace ExactDimension

/-- A dimension that adds up is exact. -/
theorem of_add (hadd : ∀ (d : D) (a b : S),
      Dimension.addSummary (Dimension.addSummary d a) b = Dimension.addSummary d (a + b))
    (hzero : Dimension.addSummary (Dimension.default S : D) (0 : S) = Dimension.default S) :
    ExactDimension T D where
  addSummary_sum d xs hne := by
    obtain ⟨x, xs, rfl⟩ := List.exists_cons_of_ne_nil hne
    clear hne
    induction xs generalizing d x with
    | nil =>
      rw [List.map_singleton, List.sum_singleton]
      rfl
    | cons y xs ih =>
      rw [List.map_cons, List.sum_cons, ← hadd, ih]
      rfl
  addSummary_zero := hzero

variable (hD : ExactDimension T D)

include hD

theorem measure_eq (xs : List T) :
    measure D xs = Dimension.addSummary (Dimension.default S) (xs.map Item.summary).sum := by
  by_cases hne : xs = []
  · rw [hne]
    exact hD.addSummary_zero.symm
  · exact (hD.addSummary_sum _ xs hne).symm

theorem addSummary_summary {h : ℕ} {t : SumTree T S} (w : Wf h t) (hne : t.toList ≠ []) (d : D) :
    Dimension.addSummary d t.summary = measureFrom d t.toList := by
  rw [w.summary_eq, hD.addSummary_sum d _ hne]

theorem foldl_summaries {h : ℕ} {ts : List (SumTree T S)} (hw : ∀ t ∈ ts, Wf h t)
    (hf : ∀ t ∈ ts, t.toList ≠ []) (d : D) :
    (ts.map summary).foldl Dimension.addSummary d = measureFrom d (toListAll ts) := by
  induction ts generalizing d with
  | nil => rfl
  | cons t ts ih =>
    rw [List.map_cons, List.foldl_cons, hD.addSummary_summary (hw t List.mem_cons_self)
      (hf t List.mem_cons_self), ih (fun u hu => hw u (List.mem_cons_of_mem _ hu))
      (fun u hu => hf u (List.mem_cons_of_mem _ hu)), toListAll_cons, measureFrom_append]

theorem extent_eq {h : ℕ} {t : SumTree T S} (w : Wf h t) :
    Cursor.extent t D = measure D t.toList := by
  rw [Cursor.extent, w.summary_eq, hD.measure_eq]

end ExactDimension

/-! ## The items before a cursor -/

/-- The items of the entry's node before the child it points at. -/
def StackEntry.passed (entry : StackEntry T S D U) : List T :=
  match entry.tree with
  | .internal _ _ _ childTrees => toListAll (childTrees.take entry.index)
  | .leaf _ items _ => items.take entry.index

omit [AddMonoid S] [Item T S] [Dimension D S] [Dimension U S] in
theorem StackEntry.passed_internal {e : StackEntry T S D U} {h : ℕ} {s : S} {css : List S}
    {pre cts : List (SumTree T S)} (ht : e.tree = .internal h s css (pre ++ cts))
    (hi : e.index = pre.length) : e.passed = toListAll pre := by
  rw [passed, ht, hi]
  exact congrArg toListAll List.take_left

omit [AddMonoid S] [Item T S] [Dimension D S] [Dimension U S] in
theorem StackEntry.passed_leaf {e : StackEntry T S D U} {s : S} {is js : List T} {iss : List S}
    (ht : e.tree = .leaf s (is ++ js) iss) (hi : e.index = is.length) : e.passed = is := by
  rw [passed, ht, hi]
  exact List.take_left

/-- The items before the child that the top of the stack points at. -/
def passedAll : List (StackEntry T S D U) → List T
  | [] => []
  | entry :: stack => passedAll stack ++ entry.passed

/-- **The number of items before the cursor.** -/
def Cursor.position (c : Cursor T S D U) : ℕ :=
  if c.atEnd then c.tree.toList.length else (passedAll c.stack).length

/-- The stack leads from the root, of height `H`, to a node of height `h` with the items `before`
and `after` on its two sides. -/
inductive Spine (root : SumTree T S) (H : ℕ) :
    List (StackEntry T S D U) → ℕ → SumTree T S → List T → List T → Prop
  | nil : Spine root H [] H root [] []
  | cons {st : List (StackEntry T S D U)} {h : ℕ} {s : S} {css : List S} {before after : List T}
      {e : StackEntry T S D U} {pre post : List (SumTree T S)} {child : SumTree T S} :
      Spine root H st (h + 1) (.internal (h + 1) s css (pre ++ child :: post)) before after →
      e.tree = .internal (h + 1) s css (pre ++ child :: post) → e.index = pre.length →
      Spine root H (e :: st) h child (before ++ toListAll pre) (toListAll post ++ after)

/-- The stack leads from the root to the place between `xs` and `ys`. -/
inductive Place (root : SumTree T S) (H : ℕ) :
    List (StackEntry T S D U) → List T → List T → Prop
  | atEnd : Place root H [] root.toList []
  | item {st : List (StackEntry T S D U)} {s : S} {iss : List S} {before after is js : List T}
      {y : T} {e : StackEntry T S D U} :
      Spine root H st 0 (.leaf s (is ++ y :: js) iss) before after →
      e.tree = .leaf s (is ++ y :: js) iss → e.index = is.length →
      Place root H (e :: st) (before ++ is) (y :: (js ++ after))

namespace Spine

variable {root : SumTree T S} {H h : ℕ} {st : List (StackEntry T S D U)} {t : SumTree T S}
  {before after : List T}

omit [AddMonoid S] [Item T S] [Dimension D S] [Dimension U S]

theorem length_add (hs : Spine root H st h t before after) : st.length + h = H := by
  induction hs with
  | nil => exact Nat.zero_add _
  | cons _ _ _ ih => rw [List.length_cons]; omega

theorem toList_eq (hs : Spine root H st h t before after) :
    root.toList = before ++ t.toList ++ after := by
  induction hs with
  | nil => simp
  | cons _ _ _ ih => simpa using ih

theorem passedAll_eq (hs : Spine root H st h t before after) : passedAll st = before := by
  induction hs with
  | nil => rfl
  | cons _ ht hi ih => rw [passedAll, ih, StackEntry.passed_internal ht hi]

theorem wf [AddMonoid S] [Item T S] (hs : Spine root H st h t before after) (w : Wf H root) :
    Wf h t := by
  induction hs with
  | nil => exact w
  | cons _ _ _ ih =>
    cases ih with
    | internal _ _ _ hw _ => exact hw _ (by simp)

/-- Only the root of an empty tree has no items. -/
theorem toList_ne_nil [AddMonoid S] [Item T S] (hs : Spine root H st h t before after)
    (w : Wf H root) (hst : st ≠ []) : t.toList ≠ [] := by
  cases hs with
  | nil => exact absurd rfl hst
  | cons hs _ _ =>
    cases hs.wf w with
    | internal _ _ _ _ hf => exact (hf _ (by simp)).1

end Spine

omit [AddMonoid S] [Item T S] [Dimension D S] [Dimension U S] in
theorem Place.append_eq {root : SumTree T S} {H : ℕ} {st : List (StackEntry T S D U)}
    {xs ys : List T} (hp : Place root H st xs ys) : root.toList = xs ++ ys := by
  cases hp with
  | atEnd => exact (List.append_nil _).symm
  | item hs _ _ => simpa using hs.toList_eq

omit [AddMonoid S] [Item T S] [Dimension D S] [Dimension U S] in
theorem Place.passedAll_eq {root : SumTree T S} {H : ℕ} {st : List (StackEntry T S D U)}
    {xs ys : List T} (hp : Place root H st xs ys) (hst : st ≠ []) : passedAll st = xs := by
  cases hp with
  | atEnd => exact absurd rfl hst
  | item hs ht hi => rw [passedAll, hs.passedAll_eq, StackEntry.passed_leaf ht hi]

namespace Cursor

/-- The two running sums are those of the items `xs`. -/
def Sums (seekDimension : D) (sumDimension : U) (xs : List T) : Prop :=
  seekDimension = measure D xs ∧ sumDimension = measure U xs

/-- So is the first running sum, and the second one along an exact dimension. -/
def Counts (seekDimension : D) (sumDimension : U) (xs : List T) : Prop :=
  seekDimension = measure D xs ∧ (ExactDimension T U → sumDimension = measure U xs)

/-- The cursor has come to the node `t`, and stands before its first item; `e` is its `at_end`. -/
structure Enters (root : SumTree T S) (H : ℕ) (e : Bool) (c : Cursor T S D U) (h : ℕ)
    (t : SumTree T S) (before after : List T) : Prop where
  tree : c.tree = root
  spine : Spine root H c.stack h t before after
  sums : Counts c.seekDimension c.sumDimension before
  didSeek : c.didSeek = true
  atEnd : c.atEnd = e

/-- The stack and the sums are those of the place between `xs` and `ys`. -/
structure Stands (root : SumTree T S) (H : ℕ) (e : Bool) (c : Cursor T S D U) (xs ys : List T) :
    Prop where
  tree : c.tree = root
  place : Place root H c.stack xs ys
  sums : Counts c.seekDimension c.sumDimension xs
  didSeek : c.didSeek = true
  atEnd : c.atEnd = e

/-- **The cursor stands between `xs` and `ys`.** -/
def At (root : SumTree T S) (H : ℕ) (c : Cursor T S D U) (xs ys : List T) : Prop :=
  Stands root H c.stack.isEmpty c xs ys

variable {root : SumTree T S} {H : ℕ} {e : Bool} {c : Cursor T S D U} {xs ys : List T}

theorem Counts.addSummaries (ss : List S) (hs : Counts c.seekDimension c.sumDimension xs)
    (hD : ∀ d : D, ss.foldl Dimension.addSummary d = measureFrom d ys)
    (hU : ExactDimension T U → ∀ u : U, ss.foldl Dimension.addSummary u = measureFrom u ys) :
    Counts (c.addSummaries ss).seekDimension (c.addSummaries ss).sumDimension (xs ++ ys) := by
  have key : ∀ (ss : List S) (c : Cursor T S D U),
      (c.addSummaries ss).seekDimension = ss.foldl Dimension.addSummary c.seekDimension ∧
        (c.addSummaries ss).sumDimension = ss.foldl Dimension.addSummary c.sumDimension := by
    intro ss
    induction ss with
    | nil => exact fun c => ⟨rfl, rfl⟩
    | cons s ss ih => exact fun c => ih (c.addSummary s)
  obtain ⟨h1, h2⟩ := key ss c
  refine ⟨by rw [h1, hs.1, hD, measure_append], fun exact => ?_⟩
  rw [h2, hs.2 exact, hU exact, measure_append]

theorem Counts.addItem (hs : Counts c.seekDimension c.sumDimension xs) (x : T) :
    Counts (c.addSummary (Item.summary x)).seekDimension (c.addSummary (Item.summary x)).sumDimension
      (xs ++ [x]) := hs.addSummaries [Item.summary x] (fun _ => rfl) fun _ _ => rfl

/-! ## Reading -/

theorem rightmostLeaf_spec {h : ℕ} {t : SumTree T S} (w : Wf h t) (hne : t.toList ≠ []) :
    ∃ leaf is, t.rightmostLeaf = .ok leaf ∧ leaf.items = .ok is ∧
      is.getLast? = some (t.toList.getLast hne) := by
  induction w with
  | @leaf is hl => exact ⟨_, is, rfl, rfl, List.getLast?_eq_some_getLast hne⟩
  | @internal h cts _ hne' _ _ hf ih =>
    obtain ⟨pre, u, rfl⟩ := (List.eq_nil_or_concat' cts).resolve_left hne'
    obtain ⟨leaf, is, e1, e2, e3⟩ := ih u (by simp) (hf u (by simp)).1
    have key : ∀ pre : List (SumTree T S), rightmostLeafLast (pre ++ [u]) = .ok leaf := by
      intro pre
      induction pre with
      | nil => exact e1
      | cons v pre ih =>
        cases pre with
        | nil => exact ih
        | cons v' pre => exact ih
    refine ⟨leaf, is, key pre, e2, e3.trans ?_⟩
    simp [List.getLast_append_of_ne_nil, (hf u (by simp)).1]

omit [Dimension D S] [Dimension U S] in
/-- Below the leaf of the cursor, the item before it. -/
theorem prevLeaf_spec {root : SumTree T S} (w : Wf H root) {st : List (StackEntry T S D U)}
    {h : ℕ} {t : SumTree T S} {before after : List T} (hs : Spine root H st h t before after) :
    (before = [] ∧ prevLeaf st = .ok none) ∨ ∃ hne leaf is, prevLeaf st = .ok (some leaf) ∧
      leaf.items = .ok is ∧ is.getLast? = some (before.getLast hne) := by
  induction hs with
  | nil => exact Or.inl ⟨rfl, rfl⟩
  | @cons st h s css before after e pre post child hs ht hi ih =>
    rcases List.eq_nil_or_concat' pre with rfl | ⟨pre, p, rfl⟩
    · rw [prevLeaf, if_neg (by simp [hi])]
      simpa using ih
    · right
      cases hs.wf w with
      | internal _ _ _ hw hf =>
        have hp := (hf p (by simp)).1
        obtain ⟨leaf, is, e1, e2, e3⟩ := rightmostLeaf_spec (hw p (by simp)) hp
        refine ⟨by simp [hp], leaf, is, ?_, e2, e3.trans ?_⟩
        · rw [prevLeaf, if_pos (by simp [hi]), ht]
          simp only [hi, List.length_append, List.length_singleton, Nat.add_sub_cancel]
          rw [index_ok (a := p) (by simp), ok_bind, e1]
          rfl
        · simp [List.getLast_append_of_ne_nil, hp]

theorem Stands.item (hc : c.Stands root H e xs ys) : c.item = .ok ys.head? := by
  have hp := hc.place
  rw [Cursor.item, debugAssert_ok hc.didSeek, ok_bind]
  cases hst : c.stack with
  | nil =>
    rw [hst] at hp
    cases hp
    rfl
  | cons entry st =>
    rw [hst] at hp
    cases hp with
    | @item _ s iss before after is js y _ hs ht hi =>
      simp only [ht]
      rw [if_neg (by simp [hi]), hi, index_ok (a := y) (by simp)]
      rfl

theorem At.prevItem (w : Wf H root) (hc : c.At root H xs ys) : c.prevItem = .ok xs.getLast? := by
  have hp := hc.place
  rw [Cursor.prevItem, debugAssert_ok hc.didSeek, ok_bind]
  cases hst : c.stack with
  | nil =>
    rw [hst] at hp
    cases hp
    have he : c.atEnd = true := by rw [hc.atEnd, hst]; rfl
    simp only [he, if_true]
    rw [SumTree.last, hc.tree]
    by_cases hne : root.toList = []
    · obtain rfl := w.toList_eq_nil hne
      obtain ⟨is, -, rfl⟩ := w.eq_leaf
      rw [toList_leaf] at hne
      rw [hne]
      rfl
    · obtain ⟨leaf, is, e1, e2, e3⟩ := rightmostLeaf_spec w hne
      rw [e1, ok_bind, e2, ok_bind, e3, List.getLast?_eq_some_getLast hne]
      rfl
  | cons entry st =>
    rw [hst] at hp
    cases hp with
    | @item _ s iss before after is js y _ hs ht hi =>
      simp only [ht]
      rcases List.eq_nil_or_concat' is with rfl | ⟨is, x, rfl⟩
      · rw [if_pos (by simpa using hi)]
        rcases prevLeaf_spec w hs with ⟨rfl, e⟩ | ⟨hne, leaf, ls, e1, e2, e3⟩
        · rw [e]
          rfl
        · rw [e1, ok_bind]
          change (leaf.items >>= _) = _
          rw [e2, ok_bind, e3, unwrap_some, ok_bind, List.append_nil,
            List.getLast?_eq_some_getLast hne]
          rfl
      · rw [if_neg (by simp [hi]), hi, index_ok (a := x) (by simp)]
        simp

theorem At.position (hc : c.At root H xs ys) : c.position = xs.length := by
  have hp := hc.place
  rw [Cursor.position, hc.atEnd, hc.tree]
  cases hst : c.stack with
  | nil =>
    rw [hst] at hp
    cases hp
    rfl
  | cons entry st =>
    rw [hst] at hp
    rw [← hp.passedAll_eq (List.cons_ne_nil _ _)]
    rfl

end Cursor

end Clinch
