import Clinch.SumTree.Move

/-!
# Seeking a cursor

A seek walks from the cursor's place to the right, up the stack and down into the child that
contains the target. The sums stay those of the items before it, and a slice under construction
holds the items that have been passed.

* `Collects`, `Fills`: the slice under construction, and its last leaf;
* `reseekLoop_spine`: up the stack of a cursor that has seeked;
* `Enters.seekDescend`: down to the target; with exact sums it is never past the last item;
* **`seekInternal_at`**: a seek leaves the cursor between two items, to the right of its old place;
* `At.seek`, `At.slice`, ..: the calls.
-/

set_option autoImplicit false

namespace Clinch

open SumTree

variable {T S D U W : Type} [AddMonoid S] [Item T S] [Dimension D S] [Dimension U S]
  [Dimension W S]

/-- Too few items for the height of a slice to overflow. -/
theorem SumTree.Wf.length_lt {H : ℕ} {root : SumTree T S} (w : Wf H root) (hH : H < stackCapacity) :
    root.toList.length < treeBase ^ 254 :=
  calc root.toList.length ≤ nodeCapacity ^ (H + 1) := w.length_le
    _ ≤ nodeCapacity ^ 16 := Nat.pow_le_pow_right (by decide) hH
    _ ≤ treeBase ^ 32 := by decide
    _ < treeBase ^ 254 := Nat.pow_lt_pow_right (by decide) (by decide)

namespace Cursor

/-- What a seek accumulates, and the items before the place it started from. -/
inductive Started (T : Type)
  | none (before : List T)
  | slice (before : List T)
  | summary (before : List T)

def Started.before : Started T → List T
  | .none before | .slice before | .summary before => before

variable {root : SumTree T S} {H : ℕ} {e : Bool} {c : Cursor T S D U} {xs ys : List T}
  {start : Started T}

/-! ## The slice under construction -/

/-- The seek has reached the end of `xs`; a slice under construction holds what it has passed. -/
inductive Collects : SeekAggregate T S W → Started T → List T → Prop
  | none {before xs : List T} : Collects .none (.none before) xs
  | slice {before : List T} {h : ℕ} {t : SumTree T S} : Wf h t →
      Collects (.slice t) (.slice before) (before ++ t.toList)
  | summary {before ms : List T} {sum : W} : (ExactDimension T W → sum = measure W ms) →
      Collects (.summary sum) (.summary before) (before ++ ms)

/-- So do the slice under construction and its last leaf, which may still take `n` items. -/
inductive Fills : SeekAggregate T S W → SliceLeaf T S → Started T → List T → ℕ → Prop
  | none {leaf : SliceLeaf T S} {before xs : List T} {n : ℕ} :
      Fills .none leaf (.none before) xs n
  | slice {leaf : SliceLeaf T S} {before : List T} {h n : ℕ} {t : SumTree T S} : Wf h t →
      LeafOk leaf n → Fills (.slice t) leaf (.slice before) (before ++ t.toList ++ leaf.2.1) n
  | summary {leaf : SliceLeaf T S} {before ms : List T} {n : ℕ} {sum : W} :
      (ExactDimension T W → sum = measure W ms) →
      Fills (.summary sum) leaf (.summary before) (before ++ ms) n

theorem Collects.fills {agg : SeekAggregate T S W} (ha : Collects agg start xs) {n : ℕ}
    (hn : n ≤ nodeCapacity) : Fills agg (0, [], []) start xs n := by
  cases ha with
  | none => exact .none
  | slice w => simpa using Fills.slice w (leafOk_empty hn)
  | summary hsum => exact .summary hsum

theorem pushTree_returns {h k : ℕ} {a b : SumTree T S} (wa : Wf h a) (wb : Wf k b)
    (hl : a.toList.length + b.toList.length < treeBase ^ 254) :
    Returns (fun t => (∃ h, Wf h t) ∧ t.toList = a.toList ++ b.toList) (pushTree a b) := by
  rcases pushTree_spec wa wb with ⟨h, t, e, w, l⟩ | ⟨-, hlen⟩
  · exact ⟨t, e, ⟨h, w⟩, l⟩
  · rw [List.length_append] at hlen
    omega

theorem Collects.addChild {agg : SeekAggregate T S W} (ha : Collects agg start xs) {h : ℕ}
    {u : SumTree T S} (w : Wf h u) (hne : u.toList ≠ [])
    (hl : (xs ++ u.toList).length < treeBase ^ 254) :
    Returns (fun agg => Collects agg start (xs ++ u.toList)) (agg.addChild u u.summary) := by
  cases ha with
  | none => exact Returns.ok .none
  | summary hsum =>
    rw [List.append_assoc]
    refine Returns.ok (.summary fun hW => ?_)
    rw [hsum hW, hW.addSummary_summary w hne, measure_append]
  | slice wt =>
    rw [List.length_append, List.length_append] at hl
    refine (pushTree_returns wt w (by omega)).bind fun t ⟨⟨k, wt⟩, ht⟩ => Returns.ok ?_
    rw [List.append_assoc, ← ht]
    exact .slice wt

theorem Fills.addItem {agg : SeekAggregate T S W} {leaf : SliceLeaf T S} {n : ℕ}
    (ha : Fills agg leaf start xs (n + 1)) (x : T) :
    Returns (fun r => Fills r.1 r.2 start (xs ++ [x]) n) (agg.addItem leaf x (Item.summary x)) := by
  cases ha with
  | none => exact Returns.ok .none
  | summary hsum =>
    rw [List.append_assoc]
    refine Returns.ok (.summary fun hW => ?_)
    rw [hsum hW, measure_append]
    rfl
  | @slice _ _ h _ t wt hl =>
    have hagg : AggOk (.slice t : SeekAggregate T S W) := fun _ ht => by
      cases ht
      exact ⟨h, wt⟩
    have hsafe := hagg.addItem (C := False) hl x
    have h1 : leaf.2.1.length < nodeCapacity := by have := hl.1; omega
    have h2 : leaf.2.2.length < nodeCapacity := by rw [hl.2.1, List.length_map]; exact h1
    simp only [SeekAggregate.addItem] at hsafe ⊢
    rw [arrayPush_ok h1, ok_bind, arrayPush_ok h2, ok_bind] at hsafe ⊢
    rw [List.append_assoc]
    exact Returns.ok (.slice wt hsafe.2)

theorem Fills.pushLeaf {agg : SeekAggregate T S W} {leaf : SliceLeaf T S} {n : ℕ}
    (ha : Fills agg leaf start xs n) (hl : xs.length < treeBase ^ 254) :
    Returns (fun agg => Collects agg start xs) (agg.pushLeaf leaf) := by
  cases ha with
  | none => exact Returns.ok .none
  | summary hsum => exact Returns.ok (.summary hsum)
  | slice wt hleaf =>
    rw [List.length_append, List.length_append] at hl
    refine (pushTree_returns wt hleaf.wf (by rw [toList_leaf]; omega)).bind
      fun t ⟨⟨k, wt⟩, ht⟩ => Returns.ok ?_
    rw [List.append_assoc, ← toList_leaf leaf.1 leaf.2.1 leaf.2.2, ← ht]
    exact .slice wt

theorem Fills.pushFilledLeaf {agg : SeekAggregate T S W} {leaf : SliceLeaf T S} {n : ℕ}
    (ha : Fills agg leaf start xs n) (hl : xs.length < treeBase ^ 254) :
    Returns (fun agg => Collects agg start xs) (agg.pushFilledLeaf leaf) := by
  rw [SeekAggregate.pushFilledLeaf]
  split
  · rename_i hempty
    refine Returns.ok ?_
    cases ha with
    | none => exact .none
    | summary hsum => exact .summary hsum
    | slice wt _ =>
      rw [List.isEmpty_iff.mp hempty, List.append_nil]
      exact .slice wt
  · exact ha.pushLeaf hl

/-! ## Up the stack -/

variable [LinearOrder D] (target : D) (bias : SeekBias) (clampMax : ClampMax)

omit [Dimension D S] in
/-- Clamping only brings the target nearer. -/
theorem targetBeyond_last {atLast : Bool} {d : D}
    (h : targetBeyond clampMax atLast target bias d = false) :
    targetBeyond clampMax true target bias d = false := by
  cases atLast with
  | true => exact h
  | false =>
    simp only [targetBeyond, Bool.false_and, Bool.false_eq_true, if_false, Bool.or_eq_false_iff,
      decide_eq_false_iff_not, not_lt, Bool.and_eq_false_iff] at h
    obtain ⟨hle, h⟩ := h
    rw [targetBeyond]
    simp only [min_eq_left hle, ite_self, Bool.or_eq_false_iff, decide_eq_false_iff_not, not_lt,
      Bool.and_eq_false_iff]
    exact ⟨hle, h⟩

/-- The seek, if it does not clamp, has moved only over items that end before the target. -/
def Passed (start : Started T) (xs : List T) : Prop :=
  clampMax = .no → xs = start.before ∨ targetBeyond .no false target bias (measure D xs) = true

/-- The seek, if it does not clamp, has stopped at an item that does not end before the target. -/
def Stops (xs ys : List T) : Prop :=
  clampMax = .no → ∀ y ∈ ys.head?, targetBeyond .no false target bias (measure D (xs ++ [y])) = false

omit [Dimension D S] in
variable {target bias} in
theorem targetBeyond_no {atLast : Bool} {d : D} : targetBeyond .no atLast target bias d =
    targetBeyond .no false target bias d := by
  simp only [targetBeyond, reduceCtorEq, decide_false, Bool.and_false]

omit [AddMonoid S] in
variable {target bias clampMax} in
theorem Passed.of_beyond {atLast : Bool} {d : D}
    (hb : targetBeyond clampMax atLast target bias d = true) (hd : d = measure D xs) :
    Passed target bias clampMax start xs := by
  rintro rfl
  rw [targetBeyond_no, hd] at hb
  exact Or.inr hb

omit [AddMonoid S] in
variable {target bias clampMax} in
theorem Stops.nil : Stops target bias clampMax xs [] := fun _ _ h => nomatch h

variable {target bias clampMax} in
theorem Stops.of_not_beyond {atLast : Bool} {y : T}
    (hs : Counts c.seekDimension c.sumDimension xs)
    (hb : targetBeyond clampMax atLast target bias
      (Dimension.addSummary c.seekDimension (Item.summary y)) = false) :
    Stops target bias clampMax xs (y :: ys) := by
  rintro rfl z hz
  obtain rfl := Option.some.inj hz
  rw [targetBeyond_no, hs.1] at hb
  rwa [measure_append]

/-- The children after the entry's: the cursor steps over `ks`. -/
theorem reseekChildren_spec (hD : ExactDimension T D) {h : ℕ}
    (us : List (SumTree T S)) (hw : ∀ u ∈ us, Wf h u) (hf : ∀ u ∈ us, u.toList ≠ []) (len i : ℕ)
    {agg : SeekAggregate T S W} (ha : Collects agg start xs)
    (hp : Passed target bias clampMax start xs) (hs : Counts c.seekDimension c.sumDimension xs)
    (hl : (xs ++ toListAll us).length < treeBase ^ 254) :
    Returns (fun r => ∃ ks ls, us = ks ++ ls ∧ r.1 = i + ks.length ∧
        Counts r.2.1.seekDimension r.2.1.sumDimension (xs ++ toListAll ks) ∧
        (r.2.1.tree = c.tree ∧ r.2.1.atEnd = c.atEnd ∧ r.2.1.didSeek = c.didSeek) ∧
        Collects r.2.2.1 start (xs ++ toListAll ks) ∧
        Passed target bias clampMax start (xs ++ toListAll ks) ∧ r.2.2.2 = ls.head? ∧
        ∀ u, r.2.2.2 = some u → targetBeyond clampMax true target bias
          (Dimension.addSummary r.2.1.seekDimension u.summary) = false)
      (reseekChildren target bias clampMax len us (us.map summary) i c agg) := by
  induction us generalizing i c agg xs with
  | nil =>
    refine Returns.ok ⟨[], [], rfl, rfl, by simpa using hs, ⟨rfl, rfl, rfl⟩, by simpa using ha,
      by simpa using hp, rfl, fun _ h => nomatch h⟩
  | cons u us ih =>
    have hu := hf u List.mem_cons_self
    have wu := hw u List.mem_cons_self
    rw [List.map_cons, reseekChildren]
    split
    · rename_i hb
      rw [toListAll_cons, ← List.append_assoc] at hl
      refine (ha.addChild wu hu (by rw [List.length_append] at hl; omega)).bind fun agg ha => ?_
      have hs' : Counts (c.addSummary u.summary).seekDimension (c.addSummary u.summary).sumDimension
          (xs ++ u.toList) := hs.addSummaries [u.summary]
        (hD.addSummary_summary wu hu) fun hU => hU.addSummary_summary wu hu
      refine (ih (fun v hv => hw v (List.mem_cons_of_mem _ hv))
        (fun v hv => hf v (List.mem_cons_of_mem _ hv)) _ ha (.of_beyond hb hs'.1) hs' hl).mono ?_
      rintro r ⟨ks, ls, rfl, hi, hs, hframe, ha, hp, hsub, hb⟩
      exact ⟨u :: ks, ls, rfl, by rw [hi, List.length_cons]; omega, by simpa using hs, hframe,
        by simpa using ha, by simpa using hp, hsub, hb⟩
    · rename_i hb
      refine Returns.ok ⟨[], u :: us, rfl, rfl, by simpa using hs, ⟨rfl, rfl, rfl⟩,
        by simpa using ha, by simpa using hp, rfl, ?_⟩
      rintro v ⟨⟩
      exact targetBeyond_last target bias clampMax (Bool.not_eq_true _ ▸ hb)

/-- The items from the entry's on: the cursor steps over `ks`. -/
theorem reseekItems_spec (is : List T) (len i : ℕ) {agg : SeekAggregate T S W}
    {leaf : SliceLeaf T S} (ha : Fills agg leaf start xs is.length)
    (hp : Passed target bias clampMax start xs) (hs : Counts c.seekDimension c.sumDimension xs)
    (hl : (xs ++ is).length < treeBase ^ 254) :
    Returns (fun r => ∃ ks ls, is = ks ++ ls ∧ r.1 = i + ks.length ∧
        Counts r.2.1.seekDimension r.2.1.sumDimension (xs ++ ks) ∧
        (r.2.1.tree = c.tree ∧ r.2.1.atEnd = c.atEnd ∧ r.2.1.didSeek = c.didSeek) ∧
        Collects r.2.2.1 start (xs ++ ks) ∧ Passed target bias clampMax start (xs ++ ks) ∧
        Stops target bias clampMax (xs ++ ks) ls ∧ r.2.2.2 = !ls.isEmpty)
      (reseekItems target bias clampMax len is (is.map Item.summary) i c agg leaf) := by
  induction is generalizing i c agg leaf xs with
  | nil =>
    rw [List.map_nil, reseekItems]
    · refine (ha.pushFilledLeaf (by simpa using hl)).bind fun agg ha => Returns.ok ?_
      exact ⟨[], [], rfl, rfl, by simpa using hs, ⟨rfl, rfl, rfl⟩, by simpa using ha,
        by simpa using hp, .nil, rfl⟩
    · exact fun _ _ _ _ h => by cases h
  | cons x is ih =>
    rw [List.map_cons, reseekItems]
    split
    · rename_i hb
      refine (ha.addItem x).bind ?_
      rintro ⟨agg, leaf⟩ ha
      have hs' := Counts.addItem hs x
      refine (ih _ ha (.of_beyond hb hs'.1) hs' (by simpa using hl)).mono ?_
      rintro r ⟨ks, ls, rfl, hi, hs, hframe, ha, hp, hstop, hsub⟩
      exact ⟨x :: ks, ls, rfl, by rw [hi, List.length_cons]; omega, by simpa using hs, hframe,
        by simpa using ha, by simpa using hp, by simpa using hstop, hsub⟩
    · rename_i hb
      refine (ha.pushLeaf ?_).bind fun agg ha => Returns.ok ?_
      · rw [List.length_append] at hl
        omega
      · refine ⟨[], x :: is, rfl, rfl, by simpa using hs, ⟨rfl, rfl, rfl⟩, by simpa using ha,
          by simpa using hp, ?_, rfl⟩
        rw [List.append_nil]
        exact .of_not_beyond hs (Bool.not_eq_true _ ▸ hb)

/-- What the loop up the stack leaves, of a cursor that had the items `xs` before it: the cursor has
come to the subtree that contains the target, or it stands at its new place. -/
def Climbs (root : SumTree T S) (H : ℕ) (e : Bool) (start : Started T)
    (xs : List T) (r : Cursor T S D U × SeekAggregate T S W × Option (SumTree T S)) : Prop :=
  ∃ ms, Collects r.2.1 start (xs ++ ms) ∧ Passed target bias clampMax start (xs ++ ms) ∧
    ((∃ u h after, r.2.2 = some u ∧ Enters root H e r.1 h u (xs ++ ms) after ∧
      (r.1.stack.isEmpty = true ∨ targetBeyond clampMax true target bias
        (Dimension.addSummary r.1.seekDimension u.summary) = false)) ∨
    ∃ ys, r.2.2 = none ∧ Stands root H e r.1 (xs ++ ms) ys ∧
      Stops target bias clampMax (xs ++ ms) ys)

variable {target bias clampMax} in
theorem Climbs.of_append {ks : List T}
    {r : Cursor T S D U × SeekAggregate T S W × Option (SumTree T S)}
    (hr : Climbs target bias clampMax root H e start (xs ++ ks) r) :
    Climbs target bias clampMax root H e start xs r := by
  obtain ⟨ms, hr⟩ := hr
  rw [List.append_assoc] at hr
  exact ⟨ks ++ ms, hr⟩

/-- The cursor has stepped over the node `t` that its stack leads to. -/
theorem reseekLoop_spine (w : Wf H root) (hH : H < stackCapacity) (hD : ExactDimension T D)
    {st : List (StackEntry T S D U)} {h : ℕ} {t : SumTree T S}
    {before after : List T} (hs : Spine root H st h t before after) (htree : c.tree = root)
    (hd : c.didSeek = true) (hsums : Counts c.seekDimension c.sumDimension (before ++ t.toList))
    {agg : SeekAggregate T S W} (ha : Collects agg start (before ++ t.toList))
    (hp : Passed target bias clampMax start (before ++ t.toList)) :
    Returns (Climbs target bias clampMax root H c.atEnd start (before ++ t.toList))
      (reseekLoop target bias clampMax c agg st) := by
  induction hs generalizing c agg with
  | nil =>
    refine Returns.ok ⟨[], by simpa using ha, by simpa using hp,
      Or.inr ⟨[], rfl, ⟨htree, ?_, ?_, hd, rfl⟩, .nil⟩⟩
    · simpa using Place.atEnd
    · simpa using hsums
  | @cons st h s css before after entry pre post child hs ht hi ih =>
    have hlen := w.length_lt hH
    rw [hs.toList_eq] at hlen
    cases hs.wf w with
    | internal _ _ _ hw hf =>
      rw [reseekLoop, ht]
      have happ : pre ++ child :: post = (pre ++ [child]) ++ post := by simp
      have hidx : entry.index + 1 = (pre ++ [child]).length := by simp [hi]
      have h1 : sliceRange (pre ++ child :: post) (entry.index + 1) (pre ++ child :: post).length =
          .ok post := by
        rw [happ, hidx, sliceRange_right]
      have h2 : sliceRange ((pre ++ child :: post).map (summary (S := S))) (entry.index + 1)
          ((pre ++ child :: post).map (summary (S := S))).length = .ok (post.map summary) := by
        rw [happ, hidx, List.map_append, ← List.length_map (summary (S := S)), sliceRange_right]
      simp only [h1, h2, ok_bind]
      refine (reseekChildren_spec target bias clampMax hD post (fun u hu => hw u (by simp [hu]))
        (fun u hu => (hf u (by simp [hu])).1) _ _ ha hp hsums ?_).bind ?_
      · simp only [toList_internal, toListAll_append, toListAll_cons, List.length_append] at hlen ⊢
        omega
      rintro ⟨i, c', agg', sub⟩ ⟨ks, ls, rfl, hi', hs', ⟨f1, f2, f3⟩, ha', hp', hsub, hb⟩
      simp only at hi' hs' f1 f2 f3 ha' hp' hsub hb ⊢
      cases ls with
      | nil =>
        subst hsub
        simp only [List.head?_nil]
        have hall : before ++ toListAll pre ++ child.toList ++ toListAll ks =
            before ++ (SumTree.internal (h + 1) ((pre ++ child :: (ks ++ [])).map summary).sum
              ((pre ++ child :: (ks ++ [])).map summary) (pre ++ child :: (ks ++ []))).toList := by
          simp
        rw [hall] at hs' ha' hp'
        refine (ih (f1.trans htree) (f3.trans hd) hs' ha' hp').mono fun r hr => ?_
        rw [← hall, f2] at hr
        simpa using hr.of_append
      | cons u ls =>
        subst hsub
        simp only [List.head?_cons]
        refine Returns.ok ⟨toListAll ks, ha', hp', Or.inl ⟨u, h, toListAll ls ++ after, rfl,
          ⟨f1.trans htree, ?_, hs', f3.trans hd, f2⟩, Or.inr (hb u rfl)⟩⟩
        have happ : pre ++ child :: (ks ++ u :: ls) = (pre ++ child :: ks) ++ u :: ls := by simp
        have hpassed : before ++ toListAll pre ++ child.toList ++ toListAll ks =
            before ++ toListAll (pre ++ child :: ks) := by simp
        rw [happ] at hs ⊢
        rw [hpassed]
        refine .cons hs rfl (hi'.trans ?_)
        rw [hidx, List.length_append, List.length_append, List.length_singleton, List.length_cons]
        omega

/-- Up the stack from the place of the cursor. -/
theorem Stands.reseekLoop (w : Wf H root) (hH : H < stackCapacity) (hD : ExactDimension T D)
    (hc : c.Stands root H e xs ys) {agg : SeekAggregate T S W}
    (ha : Collects agg start xs) (hpassed : Passed target bias clampMax start xs) :
    Returns (Climbs target bias clampMax root H e start xs)
      (Cursor.reseekLoop target bias clampMax c agg c.stack) := by
  have hp := hc.place
  have hatEnd := hc.atEnd
  cases hst : c.stack with
  | nil =>
    rw [hst] at hp
    cases hp
    refine Returns.ok ⟨[], by simpa using ha, by simpa using hpassed,
      Or.inr ⟨[], rfl, ⟨hc.tree, ?_, ?_, hc.didSeek, hatEnd⟩, .nil⟩⟩
    · simpa using Place.atEnd
    · simpa using hc.sums
  | cons entry st =>
    rw [hst] at hp
    cases hp with
    | @item _ s iss before after is js y _ hs ht hi =>
      have hlen := w.length_lt hH
      rw [hs.toList_eq, toList_leaf] at hlen
      cases hs.wf w with
      | leaf hl =>
        rw [Cursor.reseekLoop, ht]
        have h1 : sliceRange (is ++ y :: js) entry.index (is ++ y :: js).length =
            .ok (y :: js) := by
          rw [hi, sliceRange_right]
        have h2 : sliceRange ((is ++ y :: js).map (Item.summary (S := S))) entry.index
            ((is ++ y :: js).map (Item.summary (S := S))).length =
              .ok ((y :: js).map Item.summary) := by
          rw [hi, List.map_append, ← List.length_map (Item.summary (S := S)), sliceRange_right]
        simp only [h1, h2, ok_bind]
        refine (reseekItems_spec target bias clampMax (y :: js) _ _ (ha.fills ?_) hpassed
          hc.sums ?_).bind ?_
        · rw [List.length_append] at hl
          omega
        · simp only [List.length_append] at hlen ⊢
          omega
        rintro ⟨i, c', agg', stopped⟩ ⟨ks, ls, hks, hi', hs', ⟨f1, f2, f3⟩, ha', hp', hstop,
          hsub⟩
        simp only at hi' hs' f1 f2 f3 ha' hp' hstop hsub ⊢
        cases ls with
        | nil =>
          subst hsub
          rw [List.append_nil] at hks
          subst hks
          simp only [List.isEmpty_nil, Bool.not_true]
          have hall : before ++ is ++ y :: js = before ++ (SumTree.leaf
              ((is ++ y :: js).map Item.summary).sum (is ++ y :: js)
                ((is ++ y :: js).map Item.summary)).toList := by simp
          rw [hall] at hs' ha' hp'
          refine (reseekLoop_spine target bias clampMax w hH hD hs (f1.trans hc.tree)
            (f3.trans hc.didSeek) hs' ha' hp').mono fun r hr => ?_
          rw [← hall, f2, hatEnd] at hr
          exact hr.of_append
        | cons z ls =>
          subst hsub
          simp only [List.isEmpty_cons, Bool.not_false]
          refine Returns.ok ⟨ks, ha', hp', Or.inr ⟨z :: (ls ++ after), rfl, ⟨f1.trans hc.tree, ?_,
            hs', f3.trans hc.didSeek, f2.trans hatEnd⟩, hstop⟩⟩
          have happ : is ++ y :: js = (is ++ ks) ++ z :: ls := by rw [hks, List.append_assoc]
          rw [happ] at hs ⊢
          rw [List.append_assoc before]
          exact .item hs rfl (by rw [hi', hi, List.length_append])

/-! ## Down to the target -/

omit [Dimension D S] in
/-- The largest end of a node is that of its last child. -/
theorem roundedEnd_eq {atLast : Bool} {childEnd maxEnd : D}
    (h : atLast = true → maxEnd = childEnd) : roundedEnd atLast childEnd maxEnd = childEnd := by
  rw [roundedEnd]
  split
  · rw [h (by assumption), max_self]
  · rfl

/-- In a node that contains the target, the target is not past the last child. -/
theorem beyond_cases {nodeEnd childEnd : D} {stackEmpty atLast : Bool}
    (hnode : stackEmpty = true ∨ targetBeyond clampMax true target bias nodeEnd = false)
    (hlast : atLast = true → nodeEnd = childEnd)
    (h : ¬ ((stackEmpty || !atLast) && targetBeyond clampMax atLast target bias childEnd) = true) :
    targetBeyond clampMax atLast target bias childEnd = false := by
  cases hb : targetBeyond clampMax atLast target bias childEnd with
  | false => rfl
  | true =>
    cases atLast with
    | false => exact absurd hb (by simpa using h)
    | true =>
      rcases hnode with rfl | hnode
      · exact absurd hb (by simpa using h)
      · rw [hlast rfl, hb] at hnode
        exact hnode

theorem seekItems_spec (hH : H < stackCapacity) (is : List T) (maxEnd : D) {s : S}
    {iss : List S} {before after js : List T}
    (hs : Spine root H c.stack 0 (.leaf s (is ++ js) iss) before after) (htree : c.tree = root)
    (hd : c.didSeek = true) (hsums : Counts c.seekDimension c.sumDimension (before ++ is))
    {agg : SeekAggregate T S W} {leaf : SliceLeaf T S}
    (ha : Fills agg leaf start (before ++ is) js.length)
    (hp : Passed target bias clampMax start (before ++ is))
    (hmax : js ≠ [] → maxEnd = measure D (before ++ (is ++ js)))
    (hnode : c.stack.isEmpty = true ∨ targetBeyond clampMax true target bias maxEnd = false)
    (hjs : js ≠ [] ∨ c.stack = []) :
    Returns (fun r => r.2.2.2 = false ∧ ∃ zs ys n, Stands root H c.atEnd r.1 zs ys ∧
        Fills r.2.1 r.2.2.1 start zs n ∧ Passed target bias clampMax start zs ∧
        Stops target bias clampMax zs ys ∧ ∃ ms, zs = before ++ is ++ ms)
      (seekItems target bias clampMax (.leaf s (is ++ js) iss) maxEnd is.length js
        (js.map Item.summary) c agg leaf) := by
  induction js generalizing is c agg leaf with
  | nil =>
    have hst := hjs.resolve_left fun h => h rfl
    rw [hst] at hs
    rw [List.map_nil, seekItems]
    · refine Returns.ok ⟨rfl, before ++ is, [], 0, ⟨htree, ?_, hsums, hd, rfl⟩, ha, hp, .nil, [],
        by simp⟩
      rw [hst]
      generalize ht : SumTree.leaf s (is ++ []) iss = t at hs
      cases hs
      rw [show [] ++ is = root.toList by rw [← ht]; simp]
      exact .atEnd
    · exact fun _ _ _ _ h => by cases h
  | cons y js ih =>
    have happ : is ++ y :: js = (is ++ [y]) ++ js := by simp
    have hend : js.isEmpty = true → maxEnd =
        Dimension.addSummary c.seekDimension (Item.summary y) := by
      intro hj
      rw [hmax (List.cons_ne_nil _ _), List.isEmpty_iff.mp hj, ← List.append_assoc, measure_append,
        hsums.1]
      rfl
    rw [List.map_cons, seekItems]
    simp only [roundedEnd_eq hend]
    split
    · rename_i hb
      refine (ha.addItem y).bind ?_
      rintro ⟨agg, leaf⟩ ha
      have hjs' : js ≠ [] ∨ c.stack = [] := by
        rcases Bool.or_eq_true_iff.mp (Bool.and_eq_true_iff.mp hb).1 with h | h
        · exact Or.inr (List.isEmpty_iff.mp h)
        · exact Or.inl (by simpa using h)
      rw [happ] at hs ⊢
      rw [show is.length + 1 = (is ++ [y]).length by simp]
      have hsums' := Counts.addItem hsums y
      have hp' : Passed target bias clampMax start (before ++ is ++ [y]) :=
        .of_beyond (Bool.and_eq_true_iff.mp hb).2 hsums'.1
      rw [List.append_assoc] at hsums' ha hp'
      refine (ih (is ++ [y]) (c := c.addSummary (Item.summary y)) hs htree hd hsums' ha hp'
        (fun _ => by rw [← happ]; exact hmax (List.cons_ne_nil _ _)) hnode hjs').mono ?_
      rintro r ⟨h0, zs, ys, n, hst, hfill, hp, hstop, ms, hzs⟩
      exact ⟨h0, zs, ys, n, hst, hfill, hp, hstop, y :: ms, by simpa using hzs⟩
    · rename_i hb
      have hfalse := beyond_cases target bias clampMax hnode hend hb
      simp only [hfalse, Bool.false_eq_true, if_false]
      have hlen := hs.length_add
      rw [pushEntry_ok (by omega), ok_bind]
      refine Returns.ok ⟨rfl, before ++ is, y :: (js ++ after), _, ⟨htree, ?_, hsums, hd, rfl⟩, ha,
        hp, .of_not_beyond hsums hfalse, [], by simp⟩
      exact .item hs rfl rfl

/-- What a descent leaves: the cursor stands in the node, and the target is not past it. -/
def Lands (root : SumTree T S) (H : ℕ) (e : Bool) (start : Started T) (xs : List T)
    (r : Cursor T S D U × SeekAggregate T S W × Bool) : Prop :=
  r.2.2 = false ∧ ∃ ms ys, Stands root H e r.1 (xs ++ ms) ys ∧ Collects r.2.1 start (xs ++ ms) ∧
    Passed target bias clampMax start (xs ++ ms) ∧ Stops target bias clampMax (xs ++ ms) ys

variable {target bias clampMax} in
theorem Lands.of_append {ks : List T} {r : Cursor T S D U × SeekAggregate T S W × Bool}
    (hr : Lands target bias clampMax root H e start (xs ++ ks) r) :
    Lands target bias clampMax root H e start xs r := by
  obtain ⟨h, ms, hr⟩ := hr
  rw [List.append_assoc] at hr
  exact ⟨h, ks ++ ms, hr⟩

/-- The descent lands in the node `t`, wherever it is entered. -/
def Descends (W : Type) [Dimension W S] (root : SumTree T S) (H : ℕ) (e : Bool) (start : Started T)
    (U : Type) [Dimension U S] (h : ℕ) (t : SumTree T S) : Prop :=
  ∀ {c : Cursor T S D U} {before after : List T} {agg : SeekAggregate T S W},
    c.Enters root H e h t before after → Collects agg start before →
    Passed target bias clampMax start before →
    (c.stack.isEmpty = true ∨ targetBeyond clampMax true target bias
      (Dimension.addSummary c.seekDimension t.summary) = false) →
    Returns (Lands target bias clampMax root H e start before) (Cursor.seekDescend target bias clampMax t c agg)

/-- Along the children of a node that contains the target. -/
theorem seekChildren_spec (w : Wf H root) (hH : H < stackCapacity) (hD : ExactDimension T D)
    {h : ℕ} {s : S} {css : List S} (pre : List (SumTree T S))
    {us : List (SumTree T S)} {before after : List T} (hw : ∀ u ∈ us, Wf h u)
    (hf : ∀ u ∈ us, u.toList ≠ [])
    (ih : ∀ u ∈ us, Descends target bias clampMax W root H e start U h u) (maxEnd : D)
    (hs : Spine root H c.stack (h + 1) (.internal (h + 1) s css (pre ++ us)) before after)
    (htree : c.tree = root) (hd : c.didSeek = true) (he : c.atEnd = e)
    (hsums : Counts c.seekDimension c.sumDimension (before ++ toListAll pre))
    {agg : SeekAggregate T S W} (ha : Collects agg start (before ++ toListAll pre))
    (hp : Passed target bias clampMax start (before ++ toListAll pre))
    (hmax : maxEnd = measure D (before ++ toListAll (pre ++ us)))
    (hnode : c.stack.isEmpty = true ∨ targetBeyond clampMax true target bias maxEnd = false)
    (hus : us ≠ [] ∨ c.stack = []) :
    Returns (Lands target bias clampMax root H e start (before ++ toListAll pre))
      (seekChildren target bias clampMax (.internal (h + 1) s css (pre ++ us)) maxEnd pre.length
        (us.map summary) us c agg) := by
  induction us generalizing pre c agg with
  | nil =>
    have hst := hus.resolve_left fun h => h rfl
    rw [hst] at hs
    rw [List.map_nil, seekChildren]
    · refine Returns.ok ⟨rfl, [], [], ⟨htree, ?_, by simpa using hsums, hd, he⟩, by simpa using ha,
        by simpa using hp, .nil⟩
      rw [hst]
      generalize ht : SumTree.internal (h + 1) s css (pre ++ []) = t at hs
      cases hs
      rw [show [] ++ toListAll pre ++ [] = root.toList by rw [← ht]; simp]
      exact .atEnd
    · exact fun _ _ _ _ h => by cases h
  | cons u us ihus =>
    have hu := hf u List.mem_cons_self
    have wu := hw u List.mem_cons_self
    have happ : pre ++ u :: us = (pre ++ [u]) ++ us := by simp
    have hend : us.isEmpty = true → maxEnd =
        Dimension.addSummary c.seekDimension u.summary := by
      intro hj
      rw [hD.addSummary_summary wu hu, hsums.1, hmax, List.isEmpty_iff.mp hj, toListAll_append,
        ← List.append_assoc, measure_append, toListAll_cons, toListAll_nil, List.append_nil]
    rw [List.map_cons, seekChildren]
    simp only [roundedEnd_eq hend]
    split
    · rename_i hb
      have hlen := w.length_lt hH
      rw [hs.toList_eq] at hlen
      refine (ha.addChild wu hu ?_).bind fun agg ha => ?_
      · simp only [toList_internal, toListAll_append, toListAll_cons, List.length_append] at hlen ⊢
        omega
      have hus' : us ≠ [] ∨ c.stack = [] := by
        rcases Bool.or_eq_true_iff.mp (Bool.and_eq_true_iff.mp hb).1 with h | h
        · exact Or.inr (List.isEmpty_iff.mp h)
        · exact Or.inl (by simpa using h)
      have hsums' := hsums.addSummaries [u.summary]
        (hD.addSummary_summary wu hu) fun hU => hU.addSummary_summary wu hu
      have hp' : Passed target bias clampMax start (before ++ toListAll pre ++ u.toList) :=
        .of_beyond (Bool.and_eq_true_iff.mp hb).2 hsums'.1
      have hpassed : before ++ toListAll pre ++ u.toList = before ++ toListAll (pre ++ [u]) := by
        simp
      rw [hpassed] at hsums' ha hp'
      rw [happ] at hs hmax ⊢
      rw [show pre.length + 1 = (pre ++ [u]).length by simp]
      refine (ihus (pre ++ [u]) (c := c.addSummary u.summary)
        (fun v hv => hw v (List.mem_cons_of_mem _ hv))
        (fun v hv => hf v (List.mem_cons_of_mem _ hv))
        (fun v hv => ih v (List.mem_cons_of_mem _ hv)) hs htree hd he hsums' ha hp' hmax
          hnode hus').mono fun r hr => ?_
      rw [← hpassed] at hr
      exact hr.of_append
    · rename_i hb
      have hfalse := beyond_cases target bias clampMax hnode hend hb
      have hlen := hs.length_add
      rw [pushEntry_ok (by omega), ok_bind]
      refine (ih u List.mem_cons_self (enters_child _ _ htree hs hsums hd he) ha hp
        (Or.inr (targetBeyond_last target bias clampMax hfalse))).bind ?_
      rintro ⟨c', agg', after'⟩ ⟨h0, hr⟩
      simp only at h0 hr ⊢
      exact Returns.ok ⟨by rw [hfalse, h0]; rfl, hr⟩

/-- **A descent lands in the node that contains the target.** -/
theorem descends (w : Wf H root) (hH : H < stackCapacity) (hD : ExactDimension T D)
    {h : ℕ} {t : SumTree T S} (wt : Wf h t) :
    Descends target bias clampMax W root H e start U h t := by
  induction wt with
  | @leaf is hl =>
    intro c before after agg hc ha hp hnode
    have hlen := w.length_lt hH
    rw [hc.spine.toList_eq] at hlen
    have hjs : is ≠ [] ∨ c.stack = [] := by
      by_cases hst : c.stack = []
      · exact Or.inr hst
      · exact Or.inl (hc.spine.toList_ne_nil w hst)
    have hmax : is ≠ [] → Dimension.addSummary c.seekDimension (is.map Item.summary).sum =
        measure D (before ++ ([] ++ is)) := by
      intro hne
      rw [hD.addSummary_sum _ _ hne, hc.sums.1, List.nil_append, measure_append]
    rw [Cursor.seekDescend]
    refine (seekItems_spec target bias clampMax hH [] _ hc.spine hc.tree hc.didSeek
      (by simpa using hc.sums) ((by simpa using ha : Collects agg start (before ++ [])).fills hl)
      (by simpa using hp) hmax hnode hjs).bind ?_
    rintro ⟨c', agg', leaf', after'⟩ ⟨h0, zs, ys, n, hst, hfill, hp', hstop, ms, rfl⟩
    simp only at h0 hst hfill ⊢
    rw [List.append_nil, hc.atEnd] at hst
    rw [List.append_nil] at hfill hp' hstop
    refine (hfill.pushFilledLeaf ?_).bind fun agg ha => Returns.ok ⟨h0, ms, ys, hst, ha, hp', hstop⟩
    have := hst.place.append_eq
    rw [← hc.spine.toList_eq, this, List.length_append] at hlen
    omega
  | @internal h cts hu hne hl hw hf ih =>
    intro c before after agg hc ha hp hnode
    rw [Cursor.seekDescend]
    have hmax : Dimension.addSummary c.seekDimension (cts.map summary).sum =
        measure D (before ++ toListAll ([] ++ cts)) := by
      rw [measure_append, ← hc.sums.1]
      exact hD.addSummary_summary (.internal hu hne hl hw hf)
        (toListAll_ne_nil hne fun u hu => (hf u hu).1) c.seekDimension
    have hpassed : before ++ toListAll ([] : List (SumTree T S)) = before := List.append_nil _
    rw [← hpassed] at ha hp ⊢
    exact seekChildren_spec target bias clampMax w hH hD [] hw (fun u hu => (hf u hu).1) ih _
      hc.spine hc.tree hc.didSeek hc.atEnd (by simpa using hc.sums) ha hp hmax hnode (Or.inl hne)

/-! ## The calls -/

omit [LinearOrder D] [Dimension W S] in
theorem Stands.itemSummary (w : Wf H root) (hc : c.Stands root H e xs ys) :
    c.itemSummary = .ok (ys.head?.map Item.summary) := by
  have hp := hc.place
  rw [Cursor.itemSummary, debugAssert_ok hc.didSeek, ok_bind]
  cases hst : c.stack with
  | nil =>
    rw [hst] at hp
    cases hp
    rfl
  | cons entry st =>
    rw [hst] at hp
    cases hp with
    | @item _ s iss before after is js y _ hs ht hi =>
      cases hs.wf w with
      | leaf hl =>
        simp only [ht]
        rw [if_neg (by simp [hi]), hi, index_ok (a := Item.summary y) (by simp)]
        rfl

/-- What a seek that has stopped between `xs` and `ys` compares with its target. -/
def boundary (D : Type) [Dimension D S] (bias : SeekBias) (xs ys : List T) : D :=
  match bias, ys with
  | .left, y :: _ => measure D (xs ++ [y])
  | _, _ => measure D xs

omit [Dimension W S] in
theorem Stands.seekFinish (w : Wf H root) (hc : c.Stands root H e xs ys)
    (agg : SeekAggregate T S W) :
    Returns (fun r => r.1.At root H xs ys ∧ r.2.1 = agg ∧
        (r.2.2 = true ↔ target = boundary D bias xs ys))
      (Cursor.seekFinish target bias c agg) := by
  unfold Cursor.seekFinish
  have hc := hc.at_isEmpty
  simp only [Stands.itemSummary w hc]
  have hdim : measure D xs = c.seekDimension := hc.sums.1.symm
  cases bias with
  | left =>
    cases ys with
    | nil =>
      refine Returns.ok ⟨hc, rfl, ?_⟩
      rw [show boundary D .left xs [] = measure D xs from rfl, hdim]
      exact decide_eq_true_iff
    | cons y ys =>
      refine Returns.ok ⟨hc, rfl, ?_⟩
      rw [boundary, measure_append, hdim]
      exact decide_eq_true_iff
  | right =>
    refine Returns.ok ⟨hc, rfl, ?_⟩
    rw [show boundary D .right xs ys = measure D xs from rfl, hdim]
    exact decide_eq_true_iff

/-- The cursor stands between `xs` and `ys`, or is new. -/
def Ready (root : SumTree T S) (H : ℕ) (c : Cursor T S D U) (xs ys : List T) : Prop :=
  c.At root H xs ys ∨ c = .new root ∧ xs = [] ∧ ys = root.toList

omit [LinearOrder D] in
theorem ready_new : (new root : Cursor T S D U).Ready root H [] root.toList :=
  Or.inr ⟨rfl, rfl, rfl⟩

omit [LinearOrder D] in
theorem Ready.append_eq (hc : c.Ready root H xs ys) : root.toList = xs ++ ys := by
  rcases hc with hc | ⟨-, rfl, rfl⟩
  · exact hc.place.append_eq
  · rfl

/-- **A seek leaves the cursor between two items, to the right of its old place.** -/
theorem seekInternal_at (w : Wf H root) (hH : H < stackCapacity) (hD : ExactDimension T D)
    (hc : c.Ready root H xs ys) (ht : c.seekDimension ≤ target)
    {agg : SeekAggregate T S W} (ha : Collects agg start xs) (hstart : start.before = xs) :
    Returns (fun r => ∃ ms ys', ys = ms ++ ys' ∧ r.1.At root H (xs ++ ms) ys' ∧
        Collects r.2.1 start (xs ++ ms) ∧ Passed target bias clampMax start (xs ++ ms) ∧
        Stops target bias clampMax (xs ++ ms) ys' ∧
        (r.2.2 = true ↔ target = boundary D bias (xs ++ ms) ys'))
      (seekInternal target bias clampMax c agg) := by
  rw [seekInternal, debugAssert_ok (by simpa using ht), ok_bind]
  have hp : Passed target bias clampMax start xs := fun _ => Or.inl hstart.symm
  have hfirst : ∃ e, Returns (Climbs target bias clampMax root H e start xs)
      (if c.didSeek then Cursor.reseekLoop target bias clampMax c agg c.stack
        else .ok ({ c with didSeek := true }, agg, some c.tree)) := by
    rcases hc with hc | ⟨rfl, rfl, -⟩
    · rw [if_pos hc.didSeek]
      exact ⟨_, hc.reseekLoop target bias clampMax w hH hD ha hp⟩
    · refine ⟨false, Returns.ok ⟨[], ha, hp, Or.inl ⟨root, H, [], rfl, ?_, Or.inl rfl⟩⟩⟩
      exact ⟨rfl, .nil, ⟨rfl, fun _ => rfl⟩, rfl, rfl⟩
  -- the items passed so far determine those that are left
  have hsplit : ∀ {ms ys' : List T}, root.toList = xs ++ ms ++ ys' → ys = ms ++ ys' := by
    intro ms ys' h
    rw [hc.append_eq, List.append_assoc] at h
    exact List.append_cancel_left h
  obtain ⟨e, hfirst⟩ := hfirst
  refine hfirst.bind ?_
  rintro ⟨c', agg', sub⟩
    ⟨ms, ha', hp', ⟨u, h, after, hsub, hc', hnode⟩ | ⟨ys', hsub, hc', hstop⟩⟩
  · simp only at hsub ha' hc' hnode
    subst hsub
    have wu := hc'.spine.wf w
    refine (descends target bias clampMax w hH hD wu hc' ha' hp' hnode).bind ?_
    rintro ⟨c'', agg'', after'⟩ ⟨h0, ks, ys', hc'', ha'', hp'', hstop⟩
    simp only at h0 hc'' ha'' ⊢
    rw [h0, if_neg Bool.false_ne_true]
    rw [List.append_assoc] at hc'' ha'' hp'' hstop
    refine (hc''.seekFinish target bias w agg'').mono ?_
    rintro r ⟨hat, hagg, hfound⟩
    exact ⟨ms ++ ks, ys', hsplit hc''.place.append_eq, hat, hagg ▸ ha'', hp'', hstop, hfound⟩
  · simp only at hsub ha' hc'
    subst hsub
    refine (hc'.seekFinish target bias w agg').mono ?_
    rintro r ⟨hat, hagg, hfound⟩
    exact ⟨ms, ys', hsplit hc'.place.append_eq, hat, hagg ▸ ha', hp', hstop, hfound⟩

end Cursor

end Clinch
