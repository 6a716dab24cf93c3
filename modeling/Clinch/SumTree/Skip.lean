import Clinch.SumTree.Position

/-!
# Skipping the items that a filter does not let through

`next_internal` and `descend_to_first_item` take a predicate on summaries, and pass over what it
does not let through: whole children of a node, and items of a leaf.

* `ExactPredicate`: a node is let through if one of its items is;
* `Skips`: the items that are passed over, and those that come next;
* **`Enters.descendToFirstItem_filter`**, **`At.nextInternal_filter`**.
-/

set_option autoImplicit false

namespace Clinch

open SumTree

variable {T S D U : Type} [AddMonoid S] [Item T S] [Dimension D S] [Dimension U S]

/-- The predicate holds of the sum of the summaries of some items if it holds of one of these. -/
def ExactPredicate (T : Type) {S : Type} [AddMonoid S] [Item T S] (f : S → Bool) : Prop :=
  ∀ xs : List T, xs ≠ [] → f (xs.map Item.summary).sum = xs.any fun x => f (Item.summary x)

/-- Of the items `xs`, the first ones are passed over up to one that is let through. -/
structure Skips (f : S → Bool) (xs skipped ys : List T) : Prop where
  append_eq : xs = skipped ++ ys
  skipped : ∀ x ∈ skipped, f (Item.summary x) = false
  head : ∀ y ∈ ys.head?, f (Item.summary y) = true

/-- Split a list before the first element of which `q` holds. -/
theorem exists_first_through {α : Type} (q : α → Bool) (xs : List α) :
    ∃ skipped ys, xs = skipped ++ ys ∧ (∀ x ∈ skipped, q x = false) ∧
      ∀ y ∈ ys.head?, q y = true := by
  induction xs with
  | nil => exact ⟨[], [], rfl, by simp, by simp⟩
  | cons x xs ih =>
    by_cases hx : q x = true
    · exact ⟨[], x :: xs, rfl, by simp, by simpa using hx⟩
    · obtain ⟨skipped, ys, rfl, h1, h2⟩ := ih
      exact ⟨x :: skipped, ys, rfl, List.forall_mem_cons.mpr ⟨by simpa using hx, h1⟩, h2⟩

namespace Skips

omit [AddMonoid S]

variable {f : S → Bool} {xs skipped ys : List T} {y : T}

theorem append_right (h : Skips f xs skipped (y :: ys)) (zs : List T) :
    Skips f (xs ++ zs) skipped (y :: (ys ++ zs)) where
  append_eq := by rw [h.append_eq, List.append_assoc, List.cons_append]
  skipped := h.skipped
  head := h.head

theorem append_left {pre : List T} (hpre : ∀ x ∈ pre, f (Item.summary x) = false)
    (h : Skips f xs skipped ys) : Skips f (pre ++ xs) (pre ++ skipped) ys where
  append_eq := by rw [h.append_eq, List.append_assoc]
  skipped x hx := (List.mem_append.mp hx).elim (hpre x) (h.skipped x)
  head := h.head

theorem nil : Skips f ([] : List T) [] [] := ⟨rfl, by simp, by simp⟩

/-- The filter that lets everything through skips nothing. -/
theorem of_true (h : Skips (fun _ => true) xs skipped ys) : skipped = [] ∧ ys = xs := by
  obtain rfl : skipped = [] :=
    List.eq_nil_iff_forall_not_mem.mpr fun x hx => Bool.noConfusion (h.skipped x hx)
  exact ⟨rfl, h.append_eq.symm⟩

end Skips

namespace ExactPredicate

theorem of_true : ExactPredicate T (fun _ : S => true) := by
  intro xs hne
  obtain ⟨x, xs, rfl⟩ := List.exists_cons_of_ne_nil hne
  rfl

variable {f : S → Bool} {h : ℕ} {ts : List (SumTree T S)}

theorem summary_eq (hf : ExactPredicate T f) {t : SumTree T S} (w : Wf h t) (hne : t.toList ≠ []) :
    f t.summary = t.toList.any fun x => f (Item.summary x) := by
  rw [w.summary_eq, hf _ hne]

/-- No item of a node is let through whose summary is not. -/
theorem toListAll_skipped (hf : ExactPredicate T f) (hw : ∀ t ∈ ts, Wf h t)
    (hne : ∀ t ∈ ts, t.toList ≠ []) (hts : ∀ t ∈ ts, f t.summary = false) :
    ∀ x ∈ toListAll ts, f (Item.summary x) = false := by
  induction ts with
  | nil => simp
  | cons t ts ih =>
    have ht := (hf.summary_eq (hw t List.mem_cons_self) (hne t List.mem_cons_self)).symm.trans
      (hts t List.mem_cons_self)
    have hrest := ih (fun u hu => hw u (List.mem_cons_of_mem _ hu))
      (fun u hu => hne u (List.mem_cons_of_mem _ hu)) fun u hu => hts u (List.mem_cons_of_mem _ hu)
    intro x hx
    rw [toListAll_cons, List.mem_append] at hx
    rcases hx with hx | hx
    · simpa using List.any_eq_false.mp ht x hx
    · exact hrest x hx

end ExactPredicate

omit [AddMonoid S] [Item T S] in
/-- Stepping over some children moves the index of the entry, nothing else. -/
theorem StackEntry.foldl_advance (ss : List S) (e : StackEntry T S D U) :
    (ss.foldl StackEntry.advance e).tree = e.tree ∧
      (ss.foldl StackEntry.advance e).index = e.index + ss.length := by
  induction ss generalizing e with
  | nil => exact ⟨rfl, rfl⟩
  | cons s ss ih =>
    obtain ⟨h1, h2⟩ := ih (e.advance s)
    refine ⟨h1, h2.trans ?_⟩
    change e.index + 1 + ss.length = e.index + (ss.length + 1)
    omega

namespace Cursor

variable {root : SumTree T S} {H : ℕ} {e : Bool} {c : Cursor T S D U} {xs ys : List T}

omit [AddMonoid S] [Item T S] [Dimension D S] [Dimension U S] in
theorem pushEntry_ok (h : c.stack.length < stackCapacity) (t : SumTree T S) (i : ℕ) :
    c.pushEntry t i =
      .ok { c with stack := ⟨t, i, c.seekDimension, c.sumDimension⟩ :: c.stack } := if_pos h

theorem Enters.length_lt {h : ℕ} {t : SumTree T S} {before after : List T}
    (hc : c.Enters root H e h t before after) (hH : H < stackCapacity) :
    c.stack.length < stackCapacity := by
  have := hc.spine.length_add
  omega

omit [AddMonoid S] [Item T S] [Dimension D S] [Dimension U S] in
theorem setDidSeek_eq (h : c.didSeek = true) : { c with didSeek := true } = c := by
  rw [← h]

/-- Having stepped over the first children of a node, the cursor goes into the next one. -/
theorem enters_child (pre post : List (SumTree T S)) {h : ℕ} {s : S} {css : List S}
    {child : SumTree T S} {before after : List T} (htree : c.tree = root)
    (hs : Spine root H c.stack (h + 1) (.internal (h + 1) s css (pre ++ child :: post)) before
      after)
    (hsums : Counts c.seekDimension c.sumDimension (before ++ toListAll pre))
    (hd : c.didSeek = true) (he : c.atEnd = e) :
    Enters root H e { c with stack := ⟨.internal (h + 1) s css (pre ++ child :: post), pre.length,
      c.seekDimension, c.sumDimension⟩ :: c.stack } h child (before ++ toListAll pre)
      (toListAll post ++ after) := ⟨htree, .cons hs rfl rfl, hsums, hd, he⟩

/-- The cursor steps over some children of the node it has come to. -/
theorem Counts.addChildren (ts : List (SumTree T S)) (hD : ExactDimension T D)
    {h : ℕ} (hs : Counts c.seekDimension c.sumDimension xs)
    (hw : ∀ t ∈ ts, Wf h t) (hf : ∀ t ∈ ts, t.toList ≠ []) :
    Counts (c.addSummaries (ts.map summary)).seekDimension
      (c.addSummaries (ts.map summary)).sumDimension (xs ++ toListAll ts) :=
  hs.addSummaries _ (hD.foldl_summaries hw hf) fun hU => hU.foldl_summaries hw hf

/-- The cursor steps over some items of a leaf. -/
theorem Counts.addItems (hs : Counts c.seekDimension c.sumDimension xs) (is : List T) :
    Counts (c.addSummaries (is.map Item.summary)).seekDimension
      (c.addSummaries (is.map Item.summary)).sumDimension (xs ++ is) :=
  hs.addSummaries _ (fun _ => rfl) fun _ _ => rfl

/-- Where a cursor stands that is at the end exactly if its stack is empty. -/
theorem Stands.at_isEmpty (hc : c.Stands root H e xs ys) :
    At root H { c with atEnd := c.stack.isEmpty } xs ys :=
  ⟨hc.tree, hc.place, hc.sums, hc.didSeek, rfl⟩

/-- A cursor at the end has an empty stack. -/
theorem At.stack_ne_nil {y : T} (hc : c.At root H xs (y :: ys)) : c.stack ≠ [] := by
  intro hst
  have hp := hc.place
  rw [hst] at hp
  nomatch hp

section Filter

variable {f : S → Bool}

/-- The cursor steps over the children that are not let through. -/
theorem Counts.addSkipped (ts : List (SumTree T S)) (hD : (∃ s, f s = false) → ExactDimension T D)
    {h : ℕ} (hs : Counts c.seekDimension c.sumDimension xs) (hw : ∀ t ∈ ts, Wf h t)
    (hne : ∀ t ∈ ts, t.toList ≠ []) (hts : ∀ t ∈ ts, f t.summary = false) :
    Counts (c.addSummaries (ts.map summary)).seekDimension
      (c.addSummaries (ts.map summary)).sumDimension (xs ++ toListAll ts) := by
  cases ts with
  | nil =>
    rw [toListAll_nil, List.append_nil]
    exact hs
  | cons t ts => exact Counts.addChildren _ (hD ⟨_, hts t List.mem_cons_self⟩) hs hw hne

/-! ## Down to the first item that is let through -/

omit [AddMonoid S] [Item T S] in
theorem descendToFirstChild_skip (subtree u : SumTree T S) (us skipped : List (SumTree T S))
    (hs : ∀ t ∈ skipped, f t.summary = false) (hu : f u.summary = true) (i : ℕ)
    (c : Cursor T S D U) :
    descendToFirstChild f subtree i ((skipped ++ u :: us).map summary) (skipped ++ u :: us) c =
      (c.addSummaries (skipped.map summary)).pushEntry subtree (i + skipped.length) >>=
        Cursor.descendToFirstItem f u := by
  induction skipped generalizing i c with
  | nil =>
    rw [List.nil_append, List.map_cons, descendToFirstChild, if_pos hu]
    rfl
  | cons t skipped ih =>
    rw [List.cons_append, List.map_cons, descendToFirstChild,
      if_neg (by simp [hs t List.mem_cons_self])]
    rw [ih (fun v hv => hs v (List.mem_cons_of_mem _ hv)), List.length_cons, List.map_cons,
      Nat.add_assoc, Nat.add_comm 1]
    rfl

/-- **The cursor goes down to the first item that is let through.** A cursor that steps over a whole
child has to measure along an exact dimension. -/
theorem Enters.descendToFirstItem_filter (w : Wf H root) (hH : H < stackCapacity)
    (hf : ExactPredicate T f) (hD : (∃ s, f s = false) → ExactDimension T D) {h : ℕ}
    {t : SumTree T S} {before after : List T} (hc : c.Enters root H e h t before after)
    (hany : (t.toList.any fun x => f (Item.summary x)) = true) :
    Returns (fun c => ∃ skipped y ys, Skips f t.toList skipped (y :: ys) ∧
        c.Stands root H e (before ++ skipped) (y :: (ys ++ after)))
      (Cursor.descendToFirstItem f t c) := by
  have wt := hc.spine.wf w
  induction wt generalizing c before after with
  | @leaf is hl =>
    obtain ⟨skipped, zs, rfl, hskip, hhead⟩ := exists_first_through (fun x => f (Item.summary x)) is
    rw [toList_leaf] at hany
    cases zs with
    | nil =>
      obtain ⟨x, hx, hfx⟩ := List.any_eq_true.mp hany
      rw [hskip x (by simpa using hx)] at hfx
      nomatch hfx
    | cons y ys =>
      have hy : f (Item.summary y) = true := hhead y rfl
      have htake : ((skipped ++ y :: ys).map (Item.summary (S := S))).takeWhile (fun s => !f s) =
          skipped.map Item.summary := by
        rw [List.map_append, List.takeWhile_append_of_pos (by simpa using hskip), List.map_cons,
          List.takeWhile_cons_of_neg (by simp [hy]), List.append_nil]
      rw [Cursor.descendToFirstItem, setDidSeek_eq hc.didSeek]
      simp only [htake]
      rw [if_pos (by simp)]
      obtain ⟨h1, h2, h3, h4⟩ := addSummaries_frame c (skipped.map Item.summary)
      rw [pushEntry_ok (by rw [h2]; exact hc.length_lt hH)]
      refine Returns.ok ⟨skipped, y, ys, ⟨rfl, hskip, hhead⟩, h1.trans hc.tree, ?_,
        Counts.addItems hc.sums skipped, h4.trans hc.didSeek, h3.trans hc.atEnd⟩
      rw [h2]
      exact Place.item hc.spine rfl (List.length_map _)
  | @internal h cts _ hne' _ hw hne ih =>
    rw [toList_internal] at hany
    obtain ⟨pre, zs, rfl, hpre, hhead⟩ := exists_first_through (fun u : SumTree T S => f u.summary) cts
    have hwpre : ∀ t ∈ pre, Wf h t := fun t ht => hw t (by simp [ht])
    have hnpre : ∀ t ∈ pre, t.toList ≠ [] := fun t ht => (hne t (by simp [ht])).1
    have hskip := hf.toListAll_skipped hwpre hnpre hpre
    cases zs with
    | nil =>
      obtain ⟨x, hx, hfx⟩ := List.any_eq_true.mp hany
      rw [hskip x (by simpa using hx)] at hfx
      nomatch hfx
    | cons u post =>
      have hu : f u.summary = true := hhead u rfl
      rw [Cursor.descendToFirstItem, setDidSeek_eq hc.didSeek,
        descendToFirstChild_skip _ u post pre hpre hu, Nat.zero_add]
      obtain ⟨f1, f2, f3, f4⟩ := addSummaries_frame c (pre.map summary)
      rw [pushEntry_ok (by rw [f2]; exact hc.length_lt hH), ok_bind]
      have henter := enters_child pre post (f1.trans hc.tree) (by rw [f2]; exact hc.spine)
        (Counts.addSkipped pre hD hc.sums hwpre hnpre hpre) (f4.trans hc.didSeek)
        (f3.trans hc.atEnd)
      have hyu := (hf.summary_eq (hw u (by simp)) (hne u (by simp)).1).symm.trans hu
      refine (ih u (by simp) henter hyu).mono fun c' hc' => ?_
      obtain ⟨skipped, y, ys, hs, hstands⟩ := hc'
      refine ⟨toListAll pre ++ skipped, y, ys ++ toListAll post, ?_, ?_⟩
      · simpa using (hs.append_right (toListAll post)).append_left hskip
      · simpa using hstands

/-! ## On to the next item that is let through -/

omit [AddMonoid S] [Item T S] in
theorem advanceChild_skip (skipped rest : List S) (hs : ∀ s ∈ skipped, f s = false)
    (hr : ∀ s ∈ rest.head?, f s = true) (s : S) (entry : StackEntry T S D U)
    (c : Cursor T S D U) :
    advanceChild f (s :: (skipped ++ rest)) entry c =
      ((s :: skipped).foldl StackEntry.advance entry, c.addSummaries skipped) := by
  induction skipped generalizing s entry c with
  | nil =>
    cases rest with
    | nil => rfl
    | cons r rest =>
      rw [List.nil_append, advanceChild, if_pos (hr r rfl)]
      rfl
  | cons a skipped ih =>
    rw [List.cons_append, advanceChild, if_neg (by simp [hs a List.mem_cons_self]),
      ih fun b hb => hs b (List.mem_cons_of_mem _ hb)]
    rfl

omit [AddMonoid S] [Item T S] in
theorem advanceItem_skip (skipped rest : List S) (hs : ∀ s ∈ skipped, f s = false)
    (hr : ∀ s ∈ rest.head?, f s = true) (s : S) (entry : StackEntry T S D U)
    (c : Cursor T S D U) :
    advanceItem f (s :: (skipped ++ rest)) entry c =
      .ok ((s :: skipped).foldl StackEntry.advance entry, c.addSummaries (s :: skipped),
        !rest.isEmpty) := by
  induction skipped generalizing s entry c with
  | nil =>
    cases rest with
    | nil => rfl
    | cons r rest =>
      rw [List.nil_append, advanceItem, if_pos (hr r rfl)]
      rfl
  | cons a skipped ih =>
    rw [List.cons_append, advanceItem, if_neg (by simp [hs a List.mem_cons_self]),
      ih fun b hb => hs b (List.mem_cons_of_mem _ hb)]
    rfl

/-- The cursor has stepped over the node `t` that its stack leads to. -/
theorem nextLoop_filter (w : Wf H root) (hH : H < stackCapacity) (hf : ExactPredicate T f)
    (hD : (∃ s, f s = false) → ExactDimension T D) {st : List (StackEntry T S D U)} {h : ℕ}
    {t : SumTree T S} {before after : List T} (hs : Spine root H st h t before after)
    (htree : c.tree = root) (hd : c.didSeek = true)
    (hsums : Counts c.seekDimension c.sumDimension (before ++ t.toList)) :
    Returns (fun c => ∃ skipped ys, Skips f after skipped ys ∧
        c.At root H (before ++ t.toList ++ skipped) ys) (nextLoop f c st) := by
  induction hs generalizing c with
  | nil =>
    refine Returns.ok ⟨[], [], .nil, htree, ?_, by simpa using hsums, hd, rfl⟩
    simpa using Place.atEnd
  | @cons st h s css before after entry pre post child hs ht hi ih =>
    cases hs.wf w with
    | internal _ _ _ hw hne =>
      obtain ⟨sk, rest, rfl, hsk, hrest⟩ := exists_first_through (fun u : SumTree T S => f u.summary) post
      have hwsk : ∀ t ∈ sk, Wf h t := fun t ht => hw t (by simp [ht])
      have hnsk : ∀ t ∈ sk, t.toList ≠ [] := fun t ht => (hne t (by simp [ht])).1
      have hskip := hf.toListAll_skipped hwsk hnsk hsk
      have hdrop : ((pre ++ child :: (sk ++ rest)).map (summary (S := S))).drop entry.index =
          child.summary :: (sk.map summary ++ rest.map summary) := by
        rw [hi, List.map_append, ← List.length_map (summary (S := S)), List.drop_left,
          List.map_cons, List.map_append]
      rw [nextLoop, ht]
      simp only [hdrop]
      rw [advanceChild_skip _ _ (by simpa using hsk) (by simpa using hrest)]
      obtain ⟨htree', hidx⟩ := StackEntry.foldl_advance (child.summary :: sk.map summary) entry
      rw [List.length_cons, List.length_map, hi] at hidx
      obtain ⟨f1, f2, f3, f4⟩ := addSummaries_frame c (sk.map summary)
      have hsums' := Counts.addSkipped sk hD hsums hwsk hnsk hsk
      simp only [hidx]
      cases rest with
      | nil =>
        rw [List.getElem?_eq_none (by simp)]
        refine (ih (f1.trans htree) (f4.trans hd) (by simpa using hsums')).mono fun c' hc' => ?_
        obtain ⟨skipped, ys, hskips, hat⟩ := hc'
        refine ⟨toListAll sk ++ skipped, ys, ?_, by simpa using hat⟩
        simpa using hskips.append_left hskip
      | cons p post =>
        have hget :
            (pre ++ child :: (sk ++ p :: post))[pre.length + (sk.length + 1)]? = some p := by simp
        have hp : f p.summary = true := hrest p rfl
        rw [hget]
        have happ : pre ++ child :: (sk ++ p :: post) = (pre ++ child :: sk) ++ p :: post := by simp
        rw [happ] at hs ht
        have hc : Enters root H c.atEnd ({ c.addSummaries (sk.map summary) with
            stack := (child.summary :: sk.map summary).foldl StackEntry.advance entry :: st } :
              Cursor T S D U) h p (before ++ toListAll (pre ++ child :: sk))
            (toListAll post ++ after) :=
          ⟨f1.trans htree, .cons hs (htree'.trans ht) (by simpa using hidx), by simpa using hsums',
            f4.trans hd, f3⟩
        have hany := (hf.summary_eq (hw p (by simp)) (hne p (by simp)).1).symm.trans hp
        refine (hc.descendToFirstItem_filter w hH hf hD hany).bind fun c' hc' => Returns.ok ?_
        obtain ⟨skipped, y, ys, hskips, hstands⟩ := hc'
        refine ⟨toListAll sk ++ skipped, y :: (ys ++ (toListAll post ++ after)), ?_, ?_⟩
        · simpa using (hskips.append_right (toListAll post ++ after)).append_left hskip
        · simpa using hstands.at_isEmpty

/-- **`next_internal` moves past the item and those that are not let through.** -/
theorem At.nextInternal_filter (w : Wf H root) (hH : H < stackCapacity) (hf : ExactPredicate T f)
    (hD : (∃ s, f s = false) → ExactDimension T D) {y : T} (hc : c.At root H xs (y :: ys)) :
    Returns (fun c => ∃ skipped zs, Skips f ys skipped zs ∧
        c.At root H (xs ++ [y] ++ skipped) zs) (nextInternal f c) := by
  have hp := hc.place
  have hne := hc.stack_ne_nil
  have he : c.atEnd = false := by rw [hc.atEnd, List.isEmpty_eq_false_iff.mpr hne]
  obtain ⟨entry, st, hst⟩ := List.exists_cons_of_ne_nil hne
  rw [nextInternal, debugAssert_ok hc.didSeek, ok_bind, hst]
  rw [hst] at hp
  simp only
  generalize hys : y :: ys = zs at hp
  cases hp with
  | @item _ s iss before after is js y' _ hs ht hi =>
    obtain ⟨rfl, rfl⟩ := List.cons.inj hys
    cases hs.wf w with
    | leaf hl =>
      obtain ⟨sk, rest, rfl, hsk, hrest⟩ := exists_first_through (fun x => f (Item.summary x)) js
      have hdrop : ((is ++ y :: (sk ++ rest)).map (Item.summary (S := S))).drop entry.index =
          Item.summary y :: (sk.map Item.summary ++ rest.map Item.summary) := by
        rw [hi, List.map_append, ← List.length_map (Item.summary (S := S)), List.drop_left,
          List.map_cons, List.map_append]
      rw [nextLoop, ht]
      simp only [hdrop]
      rw [advanceItem_skip _ _ (by simpa using hsk) (by simpa using hrest), ok_bind]
      obtain ⟨htree', hidx⟩ :=
        StackEntry.foldl_advance (Item.summary y :: sk.map Item.summary) entry
      rw [List.length_cons, List.length_map, hi] at hidx
      obtain ⟨f1, f2, f3, f4⟩ := addSummaries_frame c ((y :: sk).map Item.summary)
      have hsums := Counts.addItems hc.sums (y :: sk)
      cases rest with
      | nil =>
        refine (nextLoop_filter (c := c.addSummaries ((y :: sk).map Item.summary)) w hH hf hD hs
          (f1.trans hc.tree) (f4.trans hc.didSeek) (by simpa using hsums)).mono fun c' hc' => ?_
        obtain ⟨skipped, ys, hskips, hat⟩ := hc'
        refine ⟨sk ++ skipped, ys, ?_, by simpa using hat⟩
        simpa using hskips.append_left hsk
      | cons z js =>
        refine Returns.ok ⟨sk, z :: (js ++ after), ⟨by simp, hsk, hrest⟩, f1.trans hc.tree, ?_,
          by simpa using hsums, f4.trans hc.didSeek, f3.trans he⟩
        have happ : is ++ y :: (sk ++ z :: js) = (is ++ y :: sk) ++ z :: js := by simp
        rw [happ] at hs ht
        simpa using Place.item hs (htree'.trans ht) (by simpa using hidx)

end Filter

end Cursor

end Clinch
