import Clinch.SumTree.Cursor
import Clinch.SumTree.Shape

/-!
# Cursors and capacities

The trees on a cursor's stack get lower by one from entry to entry, so the stack of a cursor over a
tree of height at most 15 fits its 16 entries, whatever the dimensions are and whatever the calls
were. A slice is built by `push_tree` from well-formed subtrees, so it is well formed.

* `StackOk`, `Cursor.Idle`: the entries are well-formed trees of decreasing height;
* `Idle.nextInternal`, `Idle.prev`, `Idle.seekInternal`: no call exceeds a capacity, and every call
  keeps the invariant;
* **`seekDescend_capacity`**: over a higher tree the first seek panics.
-/

set_option autoImplicit false

namespace Clinch

open SumTree

variable {T S D U W : Type} [AddMonoid S] [Item T S] [Dimension D S] [Dimension U S]
  [Dimension W S]

/-- The stack of a cursor over a tree of height `H`, onto which a tree of height less than `m` may
still be pushed. -/
inductive StackOk (H : ℕ) : List (StackEntry T S D U) → ℕ → Prop
  | nil : StackOk H [] (H + 1)
  | cons {m : ℕ} {e : StackEntry T S D U} {st : List (StackEntry T S D U)} :
      StackOk H st (m + 1) → Wf m e.tree → StackOk H (e :: st) m

omit [Dimension D S] [Dimension U S] in
theorem StackOk.length_add {H m : ℕ} {st : List (StackEntry T S D U)} (h : StackOk H st m) :
    st.length + m = H + 1 := by
  induction h with
  | nil => simp
  | cons _ _ ih => rw [List.length_cons]; omega

namespace Cursor

/-- The invariant inside a call on a cursor over a tree of height `H`; `e` is its `at_end`. -/
structure Ok (H : ℕ) (e : Bool) (c : Cursor T S D U) (m : ℕ) : Prop where
  wf : Wf H c.tree
  stack : StackOk H c.stack m
  atEnd : c.atEnd = e
  didSeek : c.didSeek = true

/-- What a part of a call leaves. -/
def Keeps (H : ℕ) (e : Bool) (r : Result (Cursor T S D U)) : Prop :=
  Safe (stackCapacity ≤ H) (fun c => ∃ m, Ok H e c m) r

variable {H : ℕ} {e : Bool} {C : Prop}

omit [AddMonoid S] [Item T S] in
theorem addSummaries_frame (c : Cursor T S D U) (ss : List S) :
    (c.addSummaries ss).tree = c.tree ∧ (c.addSummaries ss).stack = c.stack ∧
      (c.addSummaries ss).atEnd = c.atEnd ∧ (c.addSummaries ss).didSeek = c.didSeek := by
  induction ss generalizing c with
  | nil => exact ⟨rfl, rfl, rfl, rfl⟩
  | cons s ss ih => exact ih _

theorem Ok.addSummary {c : Cursor T S D U} {m : ℕ} (h : Ok H e c m) (s : S) :
    Ok H e (c.addSummary s) m := ⟨h.wf, h.stack, h.atEnd, h.didSeek⟩

theorem Ok.addSummaries {c : Cursor T S D U} {m : ℕ} (h : Ok H e c m) (ss : List S) :
    Ok H e (c.addSummaries ss) m := by
  obtain ⟨h1, h2, h3, h4⟩ := addSummaries_frame c ss
  exact ⟨by rw [h1]; exact h.wf, by rw [h2]; exact h.stack, by rw [h3]; exact h.atEnd,
    by rw [h4]; exact h.didSeek⟩

omit [Dimension D S] [Dimension U S] in
theorem Ok.setDidSeek {c : Cursor T S D U} {m : ℕ} (h : Ok H e c m) :
    Ok H e { c with didSeek := true } m := ⟨h.wf, h.stack, h.atEnd, rfl⟩

omit [Dimension D S] [Dimension U S] in
theorem Ok.pushEntry {c : Cursor T S D U} {m : ℕ} (h : Ok H e c (m + 1))
    {t : SumTree T S} (w : Wf m t) (i : ℕ) :
    Safe (stackCapacity ≤ H) (fun c => Ok H e c m) (c.pushEntry t i) := by
  have hlen := h.stack.length_add
  rw [Cursor.pushEntry]
  split
  · exact ⟨h.wf, .cons h.stack w, h.atEnd, h.didSeek⟩
  · exact fun _ => by omega

/-- The children of a well-formed internal node. -/
theorem wf_child {m h : ℕ} {s : S} {css : List S} {cts : List (SumTree T S)}
    (w : Wf m (.internal h s css cts)) :
    ∃ k, m = k + 1 ∧ css = cts.map summary ∧ ∀ t ∈ cts, Wf k t := by
  cases w with
  | internal _ _ _ hw _ => exact ⟨_, rfl, rfl, hw⟩

/-! ## Descending -/

theorem Ok.descendToFirstItem (f : S → Bool) {h : ℕ} {t : SumTree T S}
    (w : Wf h t) {c : Cursor T S D U} (hc : Ok H e c (h + 1)) :
    Keeps H e (descendToFirstItem f t c) := by
  induction w generalizing c with
  | leaf hl =>
    rw [Cursor.descendToFirstItem]
    split
    · exact (Ok.pushEntry (hc.setDidSeek.addSummaries _) (.leaf hl) _).mono fun c hc => ⟨0, hc⟩
    · exact Safe.ok ⟨1, hc.setDidSeek.addSummaries _⟩
  | @internal h cts hu hne hl hw hf ih =>
    rw [Cursor.descendToFirstItem]
    have hnode := Wf.internal hu hne hl hw hf
    -- over the children from `i` on
    suffices hs : ∀ (us : List (SumTree T S)), (∀ u ∈ us, u ∈ cts) → ∀ (i : ℕ)
        (c : Cursor T S D U), Ok H e c (h + 2) → Keeps H e (descendToFirstChild f
          (.internal (h + 1) (cts.map summary).sum (cts.map summary) cts) i (us.map summary) us
          c) from
      hs cts (fun _ hu => hu) 0 _ hc.setDidSeek
    intro us
    induction us with
    | nil =>
      intro _ i c hc
      rw [List.map_nil, descendToFirstChild]
      exact Safe.ok ⟨_, hc⟩
    | cons u us ihu =>
      intro hu i c hc
      rw [List.map_cons, descendToFirstChild]
      split
      · exact (hc.pushEntry hnode i).bind fun c hc => ih u (hu u List.mem_cons_self) hc
      · exact ihu (fun v hv => hu v (List.mem_cons_of_mem _ hv)) _ _ (hc.addSummary _)

theorem Ok.descendToLastChild (us : List (SumTree T S)) {h : ℕ}
    (ih : ∀ u ∈ us, ∀ {c : Cursor T S D U}, Ok H e c (h + 1) → Keeps H e (descendToLastItem u c))
    {c : Cursor T S D U} (hc : Ok H e c (h + 1)) : Keeps H e (descendToLastChild us c) := by
  induction us with
  | nil => exact fun h => nomatch h
  | cons u us ihu =>
    cases us with
    | nil => exact ih u List.mem_cons_self hc
    | cons v us => exact ihu fun w hw _ hc => ih w (List.mem_cons_of_mem _ hw) hc

theorem Ok.descendToLastItem {h : ℕ} {t : SumTree T S} (w : Wf h t)
    {c : Cursor T S D U} (hc : Ok H e c (h + 1)) : Keeps H e (descendToLastItem t c) := by
  induction w generalizing c with
  | leaf hl =>
    rw [Cursor.descendToLastItem]
    refine (safe_sliceRange _ _ _).bind fun ss _ => ?_
    exact (Ok.pushEntry (hc.setDidSeek.addSummaries _) (.leaf hl) _).mono fun c hc => ⟨0, hc⟩
  | @internal h cts hu hne hl hw hf ih =>
    rw [Cursor.descendToLastItem]
    refine (safe_checkedSub _ _).bind fun len _ => (safe_sliceRange _ _ _).bind fun ss _ =>
      (safe_checkedSub _ _).bind fun i _ => ?_
    refine (Ok.pushEntry (hc.setDidSeek.addSummaries _) (.internal hu hne hl hw hf) _).bind
      fun c hc => ?_
    exact Ok.descendToLastChild cts (fun u hu _ hc => ih u hu hc) hc

/-! ## `next` and `prev` -/

theorem Ok.prevLoop {c : Cursor T S D U} (w : Wf H c.tree)
    (hb : c.atEnd = e) (hd : c.didSeek = true) {st : List (StackEntry T S D U)} {m : ℕ}
    (hst : StackOk H st m) : Keeps H e (Cursor.prevLoop c st) := by
  induction hst with
  | nil => exact Safe.ok ⟨H + 1, w, .nil, hb, hd⟩
  | @cons m entry st hst he ih =>
    rw [Cursor.prevLoop]
    have ok' : Ok H e (c.restoreSums st) (m + 1) := by
      cases st <;> exact ⟨w, hst, hb, hd⟩
    split
    · split
      · rename_i htree
        refine (safe_sliceRange _ _ _).bind fun ss _ => ?_
        refine (Ok.pushEntry (ok'.addSummaries ss) he _).bind fun c' hc' => ?_
        refine (safe_index _ _).bind fun t ht => ?_
        rw [htree] at he
        obtain ⟨k, rfl, -, hw⟩ := wf_child he
        exact Ok.descendToLastItem (hw t (List.mem_of_getElem? ht)) hc'
      · refine (safe_sliceRange _ _ _).bind fun ss _ => ?_
        exact (Ok.pushEntry (ok'.addSummaries ss) he _).mono fun c hc => ⟨m, hc⟩
    · exact ih

omit [AddMonoid S] [Item T S] in
theorem advanceChild_frame (f : S → Bool) (ss : List S) (entry : StackEntry T S D U)
    (c : Cursor T S D U) : (advanceChild f ss entry c).1.tree = entry.tree ∧
      (advanceChild f ss entry c).2.tree = c.tree ∧
      (advanceChild f ss entry c).2.atEnd = c.atEnd ∧
      (advanceChild f ss entry c).2.didSeek = c.didSeek := by
  induction ss generalizing entry c with
  | nil => exact ⟨rfl, rfl, rfl, rfl⟩
  | cons s ss ih =>
    cases ss with
    | nil => exact ⟨rfl, rfl, rfl, rfl⟩
    | cons s' ss =>
      rw [advanceChild]
      split
      · exact ⟨rfl, rfl, rfl, rfl⟩
      · exact ih _ _

omit [AddMonoid S] [Item T S] in
theorem safe_advanceItem (f : S → Bool) (ss : List S) (entry : StackEntry T S D U)
    (c : Cursor T S D U) :
    Safe C (fun r => r.1.tree = entry.tree ∧ r.2.1.tree = c.tree ∧ r.2.1.atEnd = c.atEnd ∧
      r.2.1.didSeek = c.didSeek) (advanceItem f ss entry c) := by
  induction ss generalizing entry c with
  | nil => exact fun h => nomatch h
  | cons s ss ih =>
    cases ss with
    | nil => exact ⟨rfl, rfl, rfl, rfl⟩
    | cons s' ss =>
      rw [advanceItem]
      split
      · exact ⟨rfl, rfl, rfl, rfl⟩
      · exact ih _ _

/-- The invariant between calls: a cursor that has not seeked is fresh, and one at the end has an
empty stack. -/
structure Idle (H : ℕ) (c : Cursor T S D U) : Prop where
  wf : Wf H c.tree
  stack : ∃ m, StackOk H c.stack m
  atEnd : c.atEnd = true → c.stack = []
  fresh : c.didSeek = false → c.stack = [] ∧ c.atEnd = false

/-- What a call leaves. -/
def Leaves (H : ℕ) (r : Result (Cursor T S D U)) : Prop := Safe (stackCapacity ≤ H) (Idle H) r

omit [Dimension D S] [Dimension U S] in
theorem Ok.idle {c : Cursor T S D U} {m : ℕ} (h : Ok H false c m) : Idle H c :=
  ⟨h.wf, ⟨m, h.stack⟩, fun he => absurd (h.atEnd.symm.trans he) Bool.false_ne_true,
    fun hd => absurd (h.didSeek.symm.trans hd) (by simp)⟩

omit [Dimension D S] [Dimension U S] in
theorem Ok.idle_isEmpty {c : Cursor T S D U} {m : ℕ} (h : Ok H e c m) :
    Idle H { c with atEnd := c.stack.isEmpty } :=
  ⟨h.wf, ⟨m, h.stack⟩, fun he => by simpa using he,
    fun hd => absurd (h.didSeek.symm.trans hd) (by simp)⟩

theorem idle_new {t : SumTree T S} (w : Wf H t) : Idle H (new t : Cursor T S D U) :=
  ⟨w, ⟨_, .nil⟩, fun h => (nomatch h), fun _ => ⟨rfl, rfl⟩⟩

theorem Ok.nextLoop (f : S → Bool) {st : List (StackEntry T S D U)} {m : ℕ}
    (hst : StackOk H st m) {c : Cursor T S D U} (w : Wf H c.tree) (hb : c.atEnd = false)
    (hd : c.didSeek = true) : Leaves H (Cursor.nextLoop f c st) := by
  induction hst generalizing c with
  | nil =>
    exact Safe.ok ⟨w, ⟨_, .nil⟩, fun _ => rfl, fun h => absurd (hd.symm.trans h) (by simp)⟩
  | @cons m entry st hst he ih =>
    rw [Cursor.nextLoop]
    split
    · rename_i css cts htree
      obtain ⟨h1, h2, h3, h4⟩ := advanceChild_frame f (css.drop entry.index) entry c
      generalize advanceChild f (css.drop entry.index) entry c = r at *
      obtain ⟨entry', c'⟩ := r
      simp only at h1 h2 h3 h4 ⊢
      split
      · rename_i t ht
        have he' : Wf m entry'.tree := by rw [h1]; exact he
        rw [htree] at he
        obtain ⟨k, rfl, -, hw⟩ := wf_child he
        have hc' : Ok H false { c' with stack := entry' :: st } (k + 1) :=
          ⟨by rw [h2]; exact w, .cons hst he', by rw [h3]; exact hb, by rw [h4]; exact hd⟩
        refine (Ok.descendToFirstItem f (hw t (List.mem_of_getElem? ht)) hc').bind ?_
        rintro c ⟨m, hc⟩
        exact Safe.ok hc.idle_isEmpty
      · exact ih (by rw [h2]; exact w) (by rw [h3]; exact hb) (by rw [h4]; exact hd)
    · rename_i iss htree
      refine (safe_advanceItem f (iss.drop entry.index) entry c).bind ?_
      rintro ⟨entry', c', b⟩ ⟨h1, h2, h3, h4⟩
      cases b with
      | false => exact ih (by rw [h2]; exact w) (by rw [h3]; exact hb) (by rw [h4]; exact hd)
      | true =>
        exact Safe.ok (Ok.idle (m := m) ⟨by rw [h2]; exact w, .cons hst (by rw [h1]; exact he),
          by rw [h3]; exact hb, by rw [h4]; exact hd⟩)

theorem Idle.nextInternal (f : S → Bool) {c : Cursor T S D U}
    (hc : Idle H c) : Leaves H (c.nextInternal f) := by
  rw [Cursor.nextInternal]
  refine (safe_debugAssert c.didSeek).bind fun _ hd => ?_
  obtain ⟨m, hst⟩ := hc.stack
  split
  · rename_i hnil
    have h0 : Ok H c.atEnd c (H + 1) := ⟨hc.wf, by rw [hnil]; exact .nil, rfl, hd⟩
    have hk : Keeps H c.atEnd
        (if c.atEnd then .ok c else Cursor.descendToFirstItem f c.tree c) := by
      split
      · exact Safe.ok ⟨_, h0⟩
      · exact Ok.descendToFirstItem f hc.wf h0
    refine hk.bind ?_
    rintro c ⟨m, hc⟩
    exact Safe.ok hc.idle_isEmpty
  · rename_i hne
    refine Ok.nextLoop f hst hc.wf ?_ hd
    cases he : c.atEnd with
    | false => rfl
    | true => exact absurd (hc.atEnd he) hne

theorem Idle.prev {c : Cursor T S D U} (hc : Idle H c) :
    Leaves H c.prev := by
  rw [Cursor.prev]
  refine (safe_debugAssert c.didSeek).bind fun _ hd => ?_
  obtain ⟨m, hst⟩ := hc.stack
  split
  · rename_i he
    have h0 : Ok H true { c with
        seekDimension := Dimension.default S, sumDimension := Dimension.default S } (H + 1) :=
      ⟨hc.wf, by rw [show c.stack = [] from hc.atEnd he]; exact .nil, he, hd⟩
    refine (Ok.descendToLastItem hc.wf h0).bind ?_
    rintro c ⟨m, hc⟩
    exact Safe.ok (Ok.idle ⟨hc.wf, hc.stack, rfl, hc.didSeek⟩)
  · rename_i he
    refine (Ok.prevLoop hc.wf rfl hd hst).mono ?_
    rintro c' ⟨m, hc'⟩
    exact Ok.idle (m := m) (by rwa [show c.atEnd = false by simpa using he] at hc')

/-! ## Seeking -/

/-- A slice under construction is well formed. -/
def AggOk (aggregate : SeekAggregate T S W) : Prop :=
  ∀ t, aggregate = .slice t → ∃ h, Wf h t

/-- A leaf under construction that may still take `n` items. -/
def LeafOk (leaf : SliceLeaf T S) (n : ℕ) : Prop :=
  leaf.2.1.length + n ≤ nodeCapacity ∧ leaf.2.2 = leaf.2.1.map Item.summary ∧
    leaf.1 = leaf.2.2.sum

theorem leafOk_empty {n : ℕ} (h : n ≤ nodeCapacity) : LeafOk ((0, [], []) : SliceLeaf T S) n :=
  ⟨by simpa using h, rfl, rfl⟩

omit [Dimension W S] in
theorem LeafOk.wf {leaf : SliceLeaf T S} {n : ℕ} (h : LeafOk leaf n) :
    Wf 0 (.leaf leaf.1 leaf.2.1 leaf.2.2) :=
  Wf.leaf' (by have := h.1; omega) h.2.2 h.2.1

theorem safe_pushTree {h k : ℕ} {a b : SumTree T S} (wa : Wf h a) (wb : Wf k b) :
    Safe C (fun t => ∃ h, Wf h t) (pushTree a b) := by
  rcases pushTree_spec wa wb with ⟨h, t, e, w, -⟩ | ⟨e, -⟩
  · rw [e]
    exact Safe.ok ⟨h, w⟩
  · rw [e]
    exact fun h => nomatch h

theorem AggOk.addChild {agg : SeekAggregate T S W} (ha : AggOk agg) {h : ℕ} {t : SumTree T S}
    (w : Wf h t) (s : S) : Safe C AggOk (agg.addChild t s) := by
  cases agg with
  | none => exact Safe.ok fun _ h => nomatch h
  | slice tree =>
    obtain ⟨k, wt⟩ := ha tree rfl
    refine (safe_pushTree wt w).bind fun t ht => Safe.ok ?_
    rintro t' ⟨⟩
    exact ht
  | summary sum => exact Safe.ok fun _ h => nomatch h

theorem AggOk.addItem {agg : SeekAggregate T S W} (ha : AggOk agg) {leaf : SliceLeaf T S} {n : ℕ}
    (hl : LeafOk leaf (n + 1)) (x : T) :
    Safe C (fun r => AggOk r.1 ∧ LeafOk r.2 n) (agg.addItem leaf x (Item.summary x)) := by
  have hmono : LeafOk leaf n := ⟨by have := hl.1; omega, hl.2⟩
  cases agg with
  | none => exact Safe.ok ⟨ha, hmono⟩
  | slice tree =>
    have h1 : leaf.2.1.length < nodeCapacity := by have := hl.1; omega
    have h2 : leaf.2.2.length < nodeCapacity := by rw [hl.2.1, List.length_map]; exact h1
    simp only [SeekAggregate.addItem]
    rw [arrayPush_ok h1, ok_bind, arrayPush_ok h2, ok_bind]
    refine Safe.ok ⟨ha, ?_, ?_, ?_⟩
    · have := hl.1
      simp only [List.length_append, List.length_singleton]
      omega
    · simp [hl.2.1]
    · simp [hl.2.2]
  | summary sum => exact Safe.ok ⟨fun _ h => (nomatch h), hmono⟩

omit [Dimension W S] in
theorem AggOk.pushLeaf {agg : SeekAggregate T S W} (ha : AggOk agg) {leaf : SliceLeaf T S} {n : ℕ}
    (hl : LeafOk leaf n) : Safe C AggOk (agg.pushLeaf leaf) := by
  cases agg with
  | none => exact Safe.ok fun _ h => nomatch h
  | slice tree =>
    obtain ⟨k, wt⟩ := ha tree rfl
    refine (safe_pushTree wt hl.wf).bind fun t ht => Safe.ok ?_
    rintro t' ⟨⟩
    exact ht
  | summary sum => exact Safe.ok fun _ h => nomatch h

omit [Dimension W S] in
theorem AggOk.pushFilledLeaf {agg : SeekAggregate T S W} (ha : AggOk agg) {leaf : SliceLeaf T S}
    {n : ℕ} (hl : LeafOk leaf n) : Safe C AggOk (agg.pushFilledLeaf leaf) := by
  rw [SeekAggregate.pushFilledLeaf]
  split
  · exact Safe.ok ha
  · exact ha.pushLeaf hl

variable [LinearOrder D] (target : D) (bias : SeekBias) (clampMax : ClampMax)

/-- Inside a call on a cursor that was not at its end. -/
theorem safe_reseekChildren (len : ℕ) {h : ℕ} (us : List (SumTree T S)) (hu : ∀ u ∈ us, Wf h u)
    (i : ℕ) (c : Cursor T S D U) {agg : SeekAggregate T S W} (ha : AggOk agg) :
    Safe C (fun r => (r.2.1.tree = c.tree ∧ r.2.1.atEnd = c.atEnd ∧ r.2.1.didSeek = c.didSeek) ∧
        AggOk r.2.2.1 ∧ ∀ t, r.2.2.2 = some t → Wf h t)
      (reseekChildren target bias clampMax len us (us.map summary) i c agg) := by
  induction us generalizing i c agg with
  | nil => exact Safe.ok ⟨⟨rfl, rfl, rfl⟩, ha, fun _ h => nomatch h⟩
  | cons u us ih =>
    rw [List.map_cons, reseekChildren]
    split
    · refine (ha.addChild (hu u List.mem_cons_self) _).bind fun agg ha => ?_
      exact ih (fun v hv => hu v (List.mem_cons_of_mem _ hv)) _ _ ha
    · refine Safe.ok ⟨⟨rfl, rfl, rfl⟩, ha, ?_⟩
      rintro t ⟨⟩
      exact hu u List.mem_cons_self

theorem safe_reseekItems (len : ℕ) (is : List T) (i : ℕ) (c : Cursor T S D U)
    {agg : SeekAggregate T S W} (ha : AggOk agg) {leaf : SliceLeaf T S}
    (hl : LeafOk leaf is.length) :
    Safe C (fun r => (r.2.1.tree = c.tree ∧ r.2.1.atEnd = c.atEnd ∧ r.2.1.didSeek = c.didSeek) ∧
        AggOk r.2.2.1)
      (reseekItems target bias clampMax len is (is.map Item.summary) i c agg leaf) := by
  induction is generalizing i c agg leaf with
  | nil =>
    rw [List.map_nil, reseekItems]
    · exact (ha.pushFilledLeaf hl).bind fun agg ha => Safe.ok ⟨⟨rfl, rfl, rfl⟩, ha⟩
    · exact fun _ _ _ _ h => nomatch h
  | cons x is ih =>
    rw [List.map_cons, reseekItems]
    split
    · refine (ha.addItem hl x).bind ?_
      rintro ⟨agg, leaf⟩ ⟨ha, hl⟩
      exact ih _ _ ha hl
    · exact (ha.pushLeaf hl).bind fun agg ha => Safe.ok ⟨⟨rfl, rfl, rfl⟩, ha⟩

/-- What the climb up the stack leaves: the subtree to descend into fits onto the stack. -/
def Reseeked (H : ℕ) (e : Bool) (r : Cursor T S D U × SeekAggregate T S W × Option (SumTree T S)) :
    Prop :=
  AggOk r.2.1 ∧ ∃ m, Ok H e r.1 m ∧ ∀ t, r.2.2 = some t → ∃ k, m = k + 1 ∧ Wf k t

theorem safe_reseekLoop {st : List (StackEntry T S D U)} {m : ℕ} (hst : StackOk H st m)
    {c : Cursor T S D U} (w : Wf H c.tree) (hb : c.atEnd = e) (hd : c.didSeek = true)
    {agg : SeekAggregate T S W} (ha : AggOk agg) :
    Safe (stackCapacity ≤ H) (Reseeked H e) (reseekLoop target bias clampMax c agg st) := by
  induction hst generalizing c agg with
  | nil => exact Safe.ok ⟨ha, _, ⟨w, .nil, hb, hd⟩, fun _ h => nomatch h⟩
  | @cons m entry st hst he ih =>
    rw [reseekLoop]
    split
    · rename_i css cts htree
      have he' := he
      rw [htree] at he
      obtain ⟨k, rfl, rfl, hw⟩ := wf_child he
      refine (safe_sliceRange _ _ _).bind ?_
      rintro us ⟨rfl, hle, -⟩
      refine (safe_sliceRange _ _ _).bind ?_
      rintro ss ⟨rfl, -, -⟩
      rw [List.take_length, List.take_length, ← List.map_drop]
      refine (safe_reseekChildren target bias clampMax cts.length (cts.drop (entry.index + 1))
        (fun u hu => hw u (List.mem_of_mem_drop hu)) _ c ha).bind ?_
      rintro ⟨i, c', agg', t⟩ ⟨⟨h1, h2, h3⟩, ha', ht⟩
      simp only at h1 h2 h3 ha' ht
      cases t with
      | none => exact ih (by rw [h1]; exact w) (by rw [h2]; exact hb) (by rw [h3]; exact hd) ha'
      | some t =>
        refine Safe.ok ⟨ha', k + 1, ⟨by rw [h1]; exact w, .cons hst he', by rw [h2]; exact hb,
          by rw [h3]; exact hd⟩, ?_⟩
        rintro t' ⟨⟩
        exact ⟨k, rfl, ht t rfl⟩
    · rename_i is iss htree
      have he' := he
      rw [htree] at he
      cases he with
      | leaf hl =>
        refine (safe_sliceRange _ _ _).bind ?_
        rintro us ⟨rfl, hle, -⟩
        refine (safe_sliceRange _ _ _).bind ?_
        rintro ss ⟨rfl, -, -⟩
        rw [List.take_length, List.take_length, ← List.map_drop]
        have hl' : LeafOk ((0, [], []) : SliceLeaf T S) (is.drop entry.index).length :=
          leafOk_empty (by rw [List.length_drop]; omega)
        refine (safe_reseekItems target bias clampMax is.length _ entry.index c ha hl').bind ?_
        rintro ⟨i, c', agg', stopped⟩ ⟨⟨h1, h2, h3⟩, ha'⟩
        simp only at h1 h2 h3 ha'
        cases stopped with
        | false =>
          exact ih (by rw [h1]; exact w) (by rw [h2]; exact hb) (by rw [h3]; exact hd) ha'
        | true =>
          exact Safe.ok ⟨ha', 0, ⟨by rw [h1]; exact w, .cons hst he', by rw [h2]; exact hb,
            by rw [h3]; exact hd⟩, fun _ h => nomatch h⟩

theorem safe_seekItems {t : SumTree T S} (w : Wf 0 t) (maxEnd : D)
    (i : ℕ) (is : List T) {c : Cursor T S D U} (hc : Ok H e c 1) {agg : SeekAggregate T S W}
    (ha : AggOk agg) {leaf : SliceLeaf T S} (hl : LeafOk leaf is.length) :
    Safe (stackCapacity ≤ H) (fun r => (∃ m, Ok H e r.1 m) ∧ AggOk r.2.1 ∧ ∃ n, LeafOk r.2.2.1 n)
      (seekItems target bias clampMax t maxEnd i is (is.map Item.summary) c agg leaf) := by
  induction is generalizing i c agg leaf with
  | nil =>
    rw [List.map_nil, seekItems]
    · exact Safe.ok ⟨⟨1, hc⟩, ha, _, hl⟩
    · exact fun _ _ _ _ h => nomatch h
  | cons x is ih =>
    rw [List.map_cons, seekItems]
    split
    · refine (ha.addItem hl x).bind ?_
      rintro ⟨agg, leaf⟩ ⟨ha, hl⟩
      exact ih _ (hc.addSummary _) ha hl
    · refine Safe.bind (Ok.pushEntry (m := 0) (e := e) ?_ w i) fun c hc =>
        Safe.ok ⟨⟨0, hc⟩, ha, _, hl⟩
      split
      exacts [hc.addSummary _, hc]

/-- What a descent leaves. -/
def Descended (H : ℕ) (e : Bool) (r : Cursor T S D U × SeekAggregate T S W × Bool) : Prop :=
  (∃ m, Ok H e r.1 m) ∧ AggOk r.2.1

theorem safe_seekDescend {h : ℕ} {t : SumTree T S} (w : Wf h t)
    {c : Cursor T S D U} (hc : Ok H e c (h + 1)) {agg : SeekAggregate T S W} (ha : AggOk agg) :
    Safe (stackCapacity ≤ H) (Descended H e) (seekDescend target bias clampMax t c agg) := by
  induction w generalizing c agg with
  | @leaf is hl =>
    rw [seekDescend]
    refine (safe_seekItems target bias clampMax (.leaf hl) _ 0 is hc ha
      (leafOk_empty hl)).bind ?_
    rintro ⟨c', agg', leaf', after⟩ ⟨hc', ha', n, hl'⟩
    exact (ha'.pushFilledLeaf hl').bind fun agg ha => Safe.ok ⟨hc', ha⟩
  | @internal h cts hu hne hl hw hf ih =>
    have hnode := Wf.internal hu hne hl hw hf
    rw [seekDescend]
    generalize (internal (h + 1) (cts.map summary).sum (cts.map summary) cts) = node at *
    generalize Dimension.addSummary c.seekDimension (cts.map summary).sum = maxEnd
    clear hne hl hf hu
    suffices hs : ∀ (i : ℕ), Safe (stackCapacity ≤ H) (Descended H e)
        (seekChildren target bias clampMax node maxEnd i (cts.map summary) cts c agg) from hs 0
    induction cts generalizing c agg with
    | nil =>
      intro i
      rw [List.map_nil, seekChildren]
      · exact Safe.ok ⟨⟨_, hc⟩, ha⟩
      · exact fun _ _ _ _ h => nomatch h
    | cons u us ihu =>
      intro i
      rw [List.map_cons, seekChildren]
      split
      · exact (ha.addChild (hw u List.mem_cons_self) _).bind fun agg ha =>
          ihu (fun v hv => hw v (List.mem_cons_of_mem _ hv))
            (fun v hv _ hc _ ha => ih v (List.mem_cons_of_mem _ hv) hc ha) (hc.addSummary _) ha _
      · refine (hc.pushEntry hnode i).bind fun c hc => ?_
        refine (ih u List.mem_cons_self hc ha).bind ?_
        rintro ⟨c', agg', after⟩ h
        exact Safe.ok h

/-- What a seeking call leaves. -/
def Seeked (H : ℕ) (r : Cursor T S D U × SeekAggregate T S W × Bool) : Prop :=
  Idle H r.1 ∧ AggOk r.2.1

omit [AddMonoid S] [Item T S] [Dimension D S] [Dimension U S] [LinearOrder D] in
theorem safe_itemSummary (c : Cursor T S D U) : Safe C (fun _ => True) c.itemSummary := by
  rw [itemSummary]
  refine (safe_debugAssert _).bind fun _ _ => ?_
  split
  · exact Safe.ok trivial
  · split
    · exact Safe.ok trivial
    · split
      · exact Safe.ok trivial
      · exact (safe_index _ _).bind fun _ _ => Safe.ok trivial

omit [Dimension U S] [Dimension W S] in
theorem safe_seekFinish {c : Cursor T S D U} {m : ℕ} (hc : Ok H e c m) {agg : SeekAggregate T S W}
    (ha : AggOk agg) : Safe (stackCapacity ≤ H) (Seeked H) (seekFinish target bias c agg) := by
  unfold seekFinish
  split
  · refine (safe_itemSummary _).bind fun s _ => ?_
    cases s with
    | none => exact Safe.ok ⟨hc.idle_isEmpty, ha⟩
    | some s => exact Safe.ok ⟨hc.idle_isEmpty, ha⟩
  · exact Safe.ok ⟨hc.idle_isEmpty, ha⟩

/-- **No seek over a tree of height at most 15 exceeds a capacity.** -/
theorem Idle.seekInternal {c : Cursor T S D U} (hc : Idle H c)
    {agg : SeekAggregate T S W} (ha : AggOk agg) :
    Safe (stackCapacity ≤ H) (Seeked H) (Cursor.seekInternal target bias clampMax c agg) := by
  rw [Cursor.seekInternal]
  refine (safe_debugAssert _).bind fun _ _ => ?_
  obtain ⟨m, hst⟩ := hc.stack
  have hfirst : Safe (stackCapacity ≤ H)
      (fun r => Reseeked H c.atEnd r ∧ (c.atEnd = true → r.2.2 = none))
      (if c.didSeek then reseekLoop target bias clampMax c agg c.stack
        else .ok ({ c with didSeek := true }, agg, some c.tree)) := by
    split
    · rename_i hd
      cases he : c.atEnd with
      | false =>
        exact (safe_reseekLoop target bias clampMax hst hc.wf he hd ha).mono
          fun r hr => ⟨hr, fun h => nomatch h⟩
      | true =>
        rw [hc.atEnd he]
        exact Safe.ok ⟨⟨ha, _, ⟨hc.wf, .nil, he, hd⟩, fun _ h => nomatch h⟩, fun _ => rfl⟩
    · rename_i hd
      obtain ⟨hs, he⟩ := hc.fresh (by simpa using hd)
      refine Safe.ok ⟨⟨ha, H + 1, ⟨hc.wf, by rw [show c.stack = [] from hs]; exact .nil, rfl, rfl⟩,
        ?_⟩, fun h => absurd (he.symm.trans h) (by simp)⟩
      rintro t ⟨⟩
      exact ⟨H, rfl, hc.wf⟩
  refine hfirst.bind ?_
  rintro ⟨c', agg', t⟩ ⟨⟨ha', m', hc', ht⟩, hnone⟩
  simp only at ha' hc' ht hnone
  cases t with
  | none => exact safe_seekFinish target bias hc' ha'
  | some t =>
    obtain ⟨k, rfl, wt⟩ := ht t rfl
    have he : c.atEnd = false := by
      cases h : c.atEnd with
      | false => rfl
      | true => exact nomatch hnone h
    rw [he] at hc'
    refine (safe_seekDescend target bias clampMax wt hc' ha').bind ?_
    rintro ⟨c'', agg'', after⟩ ⟨⟨m'', hc''⟩, ha''⟩
    simp only at hc'' ha'' ⊢
    split
    · exact Safe.bind (hc''.idle.nextInternal _) fun c hc => Safe.ok ⟨hc, ha''⟩
    · exact safe_seekFinish target bias hc'' ha''

omit [LinearOrder D] in
theorem Idle.reset {c : Cursor T S D U} (hc : Idle H c) : Idle H c.reset :=
  ⟨hc.wf, ⟨_, .nil⟩, fun h => (nomatch h), fun _ => ⟨rfl, rfl⟩⟩

omit [Dimension W S] in
theorem aggOk_none : AggOk (.none : SeekAggregate T S W) := fun _ h => nomatch h

omit [Dimension W S] in
theorem aggOk_slice : AggOk (.slice .new : SeekAggregate T S W) := by
  rintro t ⟨⟩
  exact ⟨0, wf_new⟩

theorem Idle.seek {c : Cursor T S D U} (hc : Idle H c) :
    Safe (stackCapacity ≤ H) (fun r => Idle H r.1) (c.seek target bias) :=
  (hc.reset.seekInternal target bias .no aggOk_none).bind fun _ h => Safe.ok h.1

theorem Idle.seekClamped {c : Cursor T S D U} (hc : Idle H c) :
    Leaves H (c.seekClamped target bias) :=
  (hc.reset.seekInternal target bias .yes aggOk_none).bind fun _ h => Safe.ok h.1

theorem Idle.slice {c : Cursor T S D U} (hc : Idle H c) :
    Safe (stackCapacity ≤ H) (fun r => Idle H r.1 ∧ ∃ h, Wf h r.2) (c.slice target bias) := by
  refine (hc.seekInternal target bias .no aggOk_slice).bind ?_
  rintro ⟨c, agg, found⟩ ⟨hc, ha⟩
  cases agg with
  | slice t => exact Safe.ok ⟨hc, ha t rfl⟩
  | none => exact fun h => nomatch h
  | summary sum => exact fun h => nomatch h

theorem Idle.suffix {c : Cursor T S D U} (hc : Idle H c) :
    Safe (stackCapacity ≤ H) (fun r => Idle H r.1 ∧ ∃ h, Wf h r.2) c.suffix := by
  refine (hc.seekInternal _ .right .no aggOk_slice).bind ?_
  rintro ⟨c, agg, found⟩ ⟨hc, ha⟩
  cases agg with
  | slice t => exact Safe.ok ⟨hc, ha t rfl⟩
  | none => exact fun h => nomatch h
  | summary sum => exact fun h => nomatch h

theorem Idle.summaryTo {c : Cursor T S D U} (hc : Idle H c) :
    Safe (stackCapacity ≤ H) (fun r => Idle H r.1) (c.summaryTo W target bias) := by
  have hsum : AggOk (.summary (Dimension.default S) : SeekAggregate T S W) := fun _ h => nomatch h
  refine (hc.seekInternal target bias .no hsum).bind ?_
  rintro ⟨c, agg, found⟩ ⟨hc, ha⟩
  cases agg with
  | slice t => exact fun h => nomatch h
  | none => exact fun h => nomatch h
  | summary sum => exact Safe.ok hc

/-! ## A tree that is too high -/

/-- Wherever a seek starts from, it does not go past any of the items. -/
def StopsFirst (clampMax : ClampMax) (target : D) (bias : SeekBias) (items : List T) : Prop :=
  ∀ (b : Bool) (d e : D) (xs : List T), xs ≠ [] → xs <:+: items → targetBeyond clampMax b target
    bias (roundedEnd b (Dimension.addSummary d (xs.map Item.summary).sum) e) = false

theorem stopsFirst_left {target : D} (ht : ∀ x : D, ¬ x < target) (items : List T) :
    StopsFirst clampMax target .left items := by
  intro b d e xs _ _
  rw [targetBeyond]
  split <;> simp [ht]

theorem stopsFirst_right {target : D} {items : List T}
    (ht : ∀ (d : D) (xs : List T), xs ≠ [] → xs <:+: items →
      target < Dimension.addSummary d (xs.map Item.summary).sum) :
    StopsFirst .no target .right items := by
  intro b d e xs hne hin
  have hlt : target < roundedEnd b (Dimension.addSummary d (xs.map Item.summary).sum) e := by
    cases b with
    | false => exact ht d xs hne hin
    | true => exact lt_max_of_lt_left (ht d xs hne hin)
  rw [targetBeyond]
  simp [hlt.not_gt, hlt.ne]

/-- **The first seek over a tree of height 16 or more panics**: the path to its first leaf does not
fit the stack. -/
theorem seekDescend_capacity {target : D} {bias : SeekBias} {h : ℕ} {t : SumTree T S}
    (w : Wf h t) (hne : t.toList ≠ []) (hb : StopsFirst clampMax target bias t.toList)
    (c : Cursor T S D U) (agg : SeekAggregate T S W) (hs : c.stack.length ≤ stackCapacity)
    (hh : stackCapacity ≤ c.stack.length + h) :
    seekDescend target bias clampMax t c agg = .error .capacity := by
  induction w generalizing c agg with
  | @leaf is hl =>
    obtain ⟨x, xs, rfl⟩ := List.exists_cons_of_ne_nil (show is ≠ [] from hne)
    have hx := fun b d e => hb b d e [x] (List.cons_ne_nil _ _) ⟨[], xs, rfl⟩
    simp only [List.map_singleton, List.sum_singleton] at hx
    rw [seekDescend, List.map_cons, seekItems]
    simp only [hx, Bool.and_false, Bool.false_eq_true, if_false]
    rw [Cursor.pushEntry, if_neg (by omega)]
    rfl
  | @internal h cts _ hcn hl hw hf ih =>
    obtain ⟨u, us, rfl⟩ := List.exists_cons_of_ne_nil hcn
    have hu := (hf u List.mem_cons_self).1
    have hin : u.toList <:+: toListAll (u :: us) := ⟨[], toListAll us, by simp⟩
    have hchild := fun b d e => hb b d e u.toList hu hin
    simp only [← (hw u List.mem_cons_self).summary_eq] at hchild
    rw [seekDescend, List.map_cons, seekChildren]
    simp only [hchild, Bool.and_false, Bool.false_eq_true, if_false]
    rw [Cursor.pushEntry]
    split
    · rename_i hlt
      rw [ok_bind, ih u List.mem_cons_self hu]
      · rfl
      · exact fun b d e xs hne hxs => hb b d e xs hne (hxs.trans hin)
      · exact hlt
      · simp only [List.length_cons]
        omega
    · rfl

end Cursor

end Clinch
