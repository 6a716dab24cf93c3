import Clinch.SumTree.Skip

/-!
# Moving a cursor by one

* `Enters.descendToLastItem`;
* **`At.next`**: `next` moves past one item, and stays at the end;
* `Cursor.Restarts`: the sums that `prev` restarts from are those of its position;
* **`At.prev`**: then `prev` moves back by one item.
-/

set_option autoImplicit false

namespace Clinch

open SumTree

variable {T S D U : Type} [AddMonoid S] [Item T S] [Dimension D S] [Dimension U S]

namespace Cursor

variable {root : SumTree T S} {H : ℕ} {e : Bool} {c : Cursor T S D U} {xs ys : List T}

omit [AddMonoid S] [Item T S] in
theorem descendToLastChild_append (pre : List (SumTree T S)) (u : SumTree T S)
    (c : Cursor T S D U) : descendToLastChild (pre ++ [u]) c = Cursor.descendToLastItem u c := by
  induction pre with
  | nil => rfl
  | cons v pre ih =>
    cases pre with
    | nil => exact ih
    | cons v' pre => exact ih

theorem Enters.descendToLastItem (w : Wf H root) (hH : H < stackCapacity)
    (hD : ExactDimension T D) {h : ℕ} {t : SumTree T S}
    {before after : List T} (hc : c.Enters root H e h t before after) {x : T}
    (hx : t.toList = xs ++ [x]) :
    Returns (fun c => c.Stands root H e (before ++ xs) (x :: after))
      (Cursor.descendToLastItem t c) := by
  have wt := hc.spine.wf w
  induction wt generalizing c before after xs with
  | @leaf is hl =>
    obtain rfl : is = xs ++ [x] := hx
    rw [Cursor.descendToLastItem, setDidSeek_eq hc.didSeek]
    have hlen : ((xs ++ [x]).map (Item.summary (S := S))).length - 1 = xs.length := by simp
    have hslice : sliceRange ((xs ++ [x]).map (Item.summary (S := S))) 0 xs.length =
        .ok (xs.map Item.summary) := by
      rw [List.map_append, ← List.length_map (Item.summary (S := S)), sliceRange_left]
    simp only [hlen, hslice, ok_bind]
    obtain ⟨h1, h2, h3, h4⟩ := addSummaries_frame c (xs.map Item.summary)
    rw [pushEntry_ok (by rw [h2]; exact hc.length_lt hH)]
    refine Returns.ok ⟨h1.trans hc.tree, ?_, Counts.addItems hc.sums xs, h4.trans hc.didSeek,
      h3.trans hc.atEnd⟩
    rw [h2]
    exact Place.item hc.spine rfl rfl
  | @internal h cts _ hne _ hw hf ih =>
    obtain ⟨pre, u, rfl⟩ := (List.eq_nil_or_concat' cts).resolve_left hne
    obtain ⟨us, y, hu⟩ := (List.eq_nil_or_concat' u.toList).resolve_left (hf u (by simp)).1
    obtain ⟨rfl, rfl⟩ : toListAll pre ++ us = xs ∧ y = x := by
      rw [toList_internal, toListAll_append, toListAll_cons, hu, toListAll_nil, List.append_nil,
        ← List.append_assoc] at hx
      exact List.append_singleton_inj.mp hx
    rw [Cursor.descendToLastItem, setDidSeek_eq hc.didSeek]
    have h1 : checkedSub ((pre ++ [u]).map (summary (S := S))).length 1 =
        .ok (pre.map (summary (S := S))).length := by
      rw [checkedSub_ok (by simp)]
      simp
    have h2 : checkedSub (pre ++ [u]).length 1 = .ok pre.length := by
      rw [checkedSub_ok (by simp)]
      simp
    have h3 : sliceRange ((pre ++ [u]).map (summary (S := S))) 0
        (pre.map (summary (S := S))).length = .ok (pre.map summary) := by
      rw [List.map_append, sliceRange_left]
    simp only [h1, h2, h3, ok_bind]
    obtain ⟨f1, f2, f3, f4⟩ := addSummaries_frame c (pre.map summary)
    rw [pushEntry_ok (by rw [f2]; exact hc.length_lt hH), ok_bind, descendToLastChild_append,
      ← List.append_assoc]
    refine ih u (by simp) (enters_child pre [] (f1.trans hc.tree) (by rw [f2]; exact hc.spine)
      (Counts.addChildren pre hD hc.sums (fun t ht => hw t (by simp [ht]))
        fun t ht => (hf t (by simp [ht])).1) (f4.trans hc.didSeek) (f3.trans hc.atEnd)) hu

/-! ## `next` -/

/-- **`next` moves past the item.** -/
theorem At.next (w : Wf H root) (hH : H < stackCapacity) {y : T} (hc : c.At root H xs (y :: ys)) :
    Returns (fun c => c.At root H (xs ++ [y]) ys) c.next := by
  have hfilter := hc.nextInternal_filter w hH ExactPredicate.of_true fun ⟨_, h⟩ => Bool.noConfusion h
  refine hfilter.mono fun c' ⟨skipped, zs, hskips, hat⟩ => ?_
  obtain ⟨rfl, rfl⟩ := hskips.of_true
  simpa using hat

/-- **At the end, `next` stays there.** -/
theorem At.next_end (hc : c.At root H xs []) : c.next = .ok c := by
  obtain ⟨hst, he⟩ : c.stack = [] ∧ c.atEnd = true := by
    have hp := hc.place
    have he := hc.atEnd
    cases hst : c.stack with
    | nil => exact ⟨rfl, by rw [he, hst]; rfl⟩
    | cons entry st =>
      rw [hst] at hp
      nomatch hp
  rw [Cursor.next, nextInternal, debugAssert_ok hc.didSeek, ok_bind, hst]
  simp only [he, if_true, ok_bind]
  change Except.ok { c with atEnd := c.stack.isEmpty } = _
  rw [← hc.atEnd]

/-! ## `prev` -/

/-- What is on the stack below the first entry that does not point at the first child. -/
def restartStack : List (StackEntry T S D U) → List (StackEntry T S D U)
  | [] => []
  | entry :: stack => if entry.index ≠ 0 then stack else restartStack stack

/-- The entry whose sums `prev` restarts from, if there is one, records the sums of the items before
the child that it points at. -/
def Restarts (c : Cursor T S D U) : Prop :=
  ∀ parent stack, restartStack c.stack = parent :: stack →
    Sums parent.seekDimension parent.sumDimension (passedAll (parent :: stack))

theorem Enters.restoreSums {st : List (StackEntry T S D U)} {h : ℕ} {t : SumTree T S}
    {before after : List T} (hs : Spine root H st h t before after) (htree : c.tree = root)
    (hd : c.didSeek = true) (hr : ∀ parent stack, st = parent :: stack →
      Sums parent.seekDimension parent.sumDimension (passedAll st)) :
    Enters root H c.atEnd (c.restoreSums st) h t before after := by
  cases st with
  | nil =>
    cases hs
    exact ⟨htree, .nil, ⟨rfl, fun _ => rfl⟩, hd, rfl⟩
  | cons parent stack =>
    have hsums := hr parent stack rfl
    rw [hs.passedAll_eq] at hsums
    exact ⟨htree, hs, ⟨hsums.1, fun _ => hsums.2⟩, hd, rfl⟩

/-- The cursor is at the first item of the node `t`. -/
theorem prevLoop_spine (w : Wf H root) (hH : H < stackCapacity) (hD : ExactDimension T D)
    {st : List (StackEntry T S D U)} {h : ℕ} {t : SumTree T S}
    {before after : List T} (hs : Spine root H st h t before after) (htree : c.tree = root)
    (hd : c.didSeek = true) {x : T} (hx : before = xs ++ [x])
    (hr : ∀ parent stack, restartStack st = parent :: stack →
      Sums parent.seekDimension parent.sumDimension (passedAll (parent :: stack))) :
    Returns (fun c' => c'.Stands root H c.atEnd xs (x :: (t.toList ++ after)))
      (prevLoop c st) := by
  induction hs generalizing xs with
  | nil => exact absurd hx (by simp)
  | @cons st h s css before after entry pre post child hs ht hi ih =>
    rcases List.eq_nil_or_concat' pre with rfl | ⟨pre, p, rfl⟩
    · rw [restartStack, if_neg (by simp [hi])] at hr
      rw [prevLoop, if_neg (by simp [hi])]
      simpa using ih (by simpa using hx) hr
    · rw [restartStack, if_pos (by simp [hi])] at hr
      have hrest := Enters.restoreSums hs htree hd fun parent stack hst => hst ▸ hr parent stack hst
      rw [prevLoop, if_pos (by simp [hi]), ht]
      cases hs.wf w with
      | internal _ _ _ hw hf =>
        have happ : (pre ++ [p]) ++ child :: post = pre ++ p :: (child :: post) := by simp
        have hidx : entry.index - 1 = pre.length := by simp [hi]
        have hslice : sliceRange (((pre ++ [p]) ++ child :: post).map (summary (S := S))) 0
            pre.length = .ok (pre.map summary) := by
          rw [happ, List.map_append, ← List.length_map (summary (S := S)), sliceRange_left]
        have hget : ((pre ++ [p]) ++ child :: post)[pre.length]? = some p := by simp
        simp only [hidx, hslice, index_ok hget, ok_bind]
        obtain ⟨us, y, hu⟩ := (List.eq_nil_or_concat' p.toList).resolve_left (hf p (by simp)).1
        obtain ⟨rfl, rfl⟩ : before ++ toListAll pre ++ us = xs ∧ y = x := by
          rw [toListAll_append, toListAll_cons, hu, toListAll_nil, List.append_nil,
            ← List.append_assoc, ← List.append_assoc] at hx
          exact List.append_singleton_inj.mp hx
        obtain ⟨f1, f2, f3, f4⟩ := addSummaries_frame (c.restoreSums st) (pre.map summary)
        rw [pushEntry_ok (by rw [f2]; exact hrest.length_lt hH), ok_bind]
        have hsums := Counts.addChildren pre hD hrest.sums (fun t ht => hw t (by simp [ht]))
          fun t ht => (hf t (by simp [ht])).1
        have hafter : child.toList ++ (toListAll post ++ after) =
            toListAll (child :: post) ++ after := by simp
        rw [hafter]
        have hspine := hrest.spine
        rw [happ] at hspine ⊢
        exact Enters.descendToLastItem w hH hD (enters_child _ _ (f1.trans hrest.tree)
          (by rw [f2]; exact hspine) hsums (f4.trans hrest.didSeek) (f3.trans hrest.atEnd)) hu

/-- **`prev` moves back by one item.** -/
theorem At.prev (w : Wf H root) (hH : H < stackCapacity) (hD : ExactDimension T D)
    {x : T} (hc : c.At root H (xs ++ [x]) ys) (hr : c.Restarts) :
    Returns (fun c => c.At root H xs (x :: ys)) c.prev := by
  have key : ∀ {c : Cursor T S D U}, c.Stands root H false xs (x :: ys) →
      c.At root H xs (x :: ys) := by
    intro c hc
    have hp := hc.place
    refine ⟨hc.tree, hp, hc.sums, hc.didSeek, hc.atEnd.trans ?_⟩
    cases hst : c.stack with
    | nil =>
      rw [hst] at hp
      nomatch hp
    | cons entry st => rfl
  have hp := hc.place
  have he := hc.atEnd
  rw [Cursor.prev, debugAssert_ok hc.didSeek, ok_bind]
  cases hst : c.stack with
  | nil =>
    rw [hst] at hp he
    generalize hzs : xs ++ [x] = zs at hp
    cases hp
    rw [if_pos (show c.atEnd = true from he)]
    have hroot : Enters root H c.atEnd ({ c with
        stack := []
        seekDimension := Dimension.default S
        sumDimension := Dimension.default S } : Cursor T S D U) H root [] [] :=
      ⟨hc.tree, .nil, ⟨rfl, fun _ => rfl⟩, hc.didSeek, rfl⟩
    simp only [hc.tree] at hroot ⊢
    refine (hroot.descendToLastItem w hH hD hzs.symm).bind fun c hc => Returns.ok (key ?_)
    exact ⟨hc.tree, hc.place, hc.sums, hc.didSeek, rfl⟩
  | cons entry st =>
    rw [hst] at hp he
    have he : c.atEnd = false := he
    rw [if_neg (by simp [he])]
    rw [Restarts, hst] at hr
    generalize hzs : xs ++ [x] = zs at hp
    cases hp with
    | @item _ s iss before after is js y _ hs ht hi =>
      cases hs.wf w with
      | leaf hl =>
        rw [← he] at key
        rcases List.eq_nil_or_concat' is with rfl | ⟨is, x', rfl⟩
        · rw [restartStack, if_neg (by simp [hi])] at hr
          rw [prevLoop, if_neg (by simp [hi])]
          refine (prevLoop_spine w hH hD hs hc.tree hc.didSeek (by simpa using hzs.symm)
            hr).mono fun c' hc' => key ?_
          simpa using hc'
        · rw [restartStack, if_pos (by simp [hi])] at hr
          have hrest := Enters.restoreSums hs hc.tree hc.didSeek
            fun parent stack hst => hst ▸ hr parent stack hst
          rw [prevLoop, if_pos (by simp [hi]), ht]
          have happ : is ++ [x'] ++ y :: js = is ++ x' :: y :: js := by simp
          have hidx : entry.index - 1 = is.length := by simp [hi]
          have hslice : sliceRange ((is ++ [x'] ++ y :: js).map (Item.summary (S := S))) 0
              is.length = .ok (is.map Item.summary) := by
            rw [happ, List.map_append, ← List.length_map (Item.summary (S := S)), sliceRange_left]
          simp only [hidx, hslice, ok_bind]
          obtain ⟨f1, f2, f3, f4⟩ := addSummaries_frame (c.restoreSums st) (is.map Item.summary)
          rw [pushEntry_ok (by rw [f2]; exact hrest.length_lt hH)]
          rw [← List.append_assoc] at hzs
          obtain ⟨rfl, rfl⟩ := List.append_singleton_inj.mp hzs
          rw [happ] at hs ⊢
          have hspine := hrest.spine
          rw [happ] at hspine
          refine Returns.ok (key ⟨f1.trans hrest.tree, ?_, Counts.addItems hrest.sums is,
            f4.trans hrest.didSeek, f3.trans hrest.atEnd⟩)
          rw [f2]
          exact Place.item hspine rfl rfl

end Cursor

end Clinch
