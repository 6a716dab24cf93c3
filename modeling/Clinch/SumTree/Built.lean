import Clinch.SumTree.Capacity

/-!
# Trees that the crate can build

* `insert`, `edit`: the operations on trees of keyed items;
* `CursorReach`, `Built`: the cursors over a tree and the trees that any sequence of calls can
  build, slices and suffixes included;
* **`built_faithful`**: every tree that can be built is well formed, and the building operations
  are list operations that exceed no capacity, as long as cursors stay on trees of height at most
  15;
* **`doubled_slice_capacity`**: a tree that appending to itself makes higher overflows the stack of
  its cursor.
-/

set_option autoImplicit false

namespace Clinch

open SumTree

/-- `KeyedItem`. -/
class KeyedItem (T K : Type) where
  key : T → K

/-- `Edit`. -/
inductive Edit (T : Type)
  | insert (item : T)
  | remove (item : T)

namespace Edit

variable {T : Type}

/-- `Edit::key`. -/
def key (K : Type) [KeyedItem T K] : Edit T → K
  | .insert item => KeyedItem.key item
  | .remove item => KeyedItem.key item

end Edit

namespace SumTree

variable {T S : Type} [AddMonoid S] [Item T S]
variable (K : Type) [KeyedItem T K] [Dimension K S] [LinearOrder K]

/-- `SumTree::insert`. -/
def insert (self : SumTree T S) (item : T) : Result (SumTree T S) := do
  let cursor : Cursor T S K Unit := .new self
  let (cursor, newTree) ← cursor.slice (KeyedItem.key item) .left
  let newTree ← newTree.push item
  let (_, suffix) ← cursor.suffix
  newTree.pushTree suffix

/-- The state of the loop of `edit`: the cursor, `new_tree` and `buffered_items`. -/
abbrev EditState (T S K : Type) := Cursor T S K Unit × SumTree T S × List T

/-- The keys at which `edit` looks: `old_item.is_some_and(|old_item| p(old_item.key()))`. -/
def keyIs (p : K → Bool) (oldItem : Option T) : Bool :=
  oldItem.any fun item => p (KeyedItem.key item)

/-- One round of the loop of `edit`. -/
def editStep : EditState T S K → Edit T → Result (EditState T S K)
  | (cursor, newTree, bufferedItems), edit => do
    let newKey := edit.key K
    let oldItem ← cursor.item
    let ((cursor, newTree, bufferedItems), oldItem) ←
      (if keyIs K (fun k => k < newKey) oldItem then do
        let newTree ← newTree.extend bufferedItems
        let (cursor, slice) ← cursor.slice newKey .left
        let newTree ← newTree.pushTree slice
        let oldItem ← cursor.item
        return ((cursor, newTree, []), oldItem)
      else return ((cursor, newTree, bufferedItems), oldItem) :
        Result (EditState T S K × Option T))
    let cursor ←
      (if keyIs K (fun k => k = newKey) oldItem then cursor.next else .ok cursor :
        Result (Cursor T S K Unit))
    match edit with
    | .insert item => return (cursor, newTree, bufferedItems ++ [item])
    | .remove _ => return (cursor, newTree, bufferedItems)

/-- `SumTree::edit`; the sort leaves edits of equal key in their order. -/
def edit (self : SumTree T S) (edits : List (Edit T)) : Result (SumTree T S) :=
  if edits.isEmpty then .ok self
  else do
    let edits := edits.mergeSort fun a b => a.key K ≤ b.key K
    let cursor : Cursor T S K Unit := .new self
    let (cursor, _) ← cursor.seek (Dimension.default S) .left
    let (cursor, newTree, bufferedItems) ← edits.foldlM (editStep K) (cursor, new, [])
    let newTree ← newTree.extend bufferedItems
    let (_, suffix) ← cursor.suffix
    newTree.pushTree suffix

end SumTree

variable {T S : Type} [AddMonoid S] [Item T S]

/-- The cursors over `t` that any sequence of calls can reach. -/
inductive CursorReach {D U : Type} [Dimension D S] [Dimension U S] [LinearOrder D]
    (t : SumTree T S) : Cursor T S D U → Prop
  | new : CursorReach t (.new t)
  | seek {c c' : Cursor T S D U} {pos : D} {bias : SeekBias} {found : Bool} :
      CursorReach t c → c.seek pos bias = .ok (c', found) → CursorReach t c'
  | seekClamped {c c' : Cursor T S D U} {pos : D} {bias : SeekBias} :
      CursorReach t c → c.seekClamped pos bias = .ok c' → CursorReach t c'
  | slice {c c' : Cursor T S D U} {pos : D} {bias : SeekBias} {u : SumTree T S} :
      CursorReach t c → c.slice pos bias = .ok (c', u) → CursorReach t c'
  | suffix {c c' : Cursor T S D U} {u : SumTree T S} :
      CursorReach t c → c.suffix = .ok (c', u) → CursorReach t c'
  | summaryTo {c c' : Cursor T S D U} {W : Type} [Dimension W S] {pos : D} {bias : SeekBias}
      {w : W} : CursorReach t c → c.summaryTo W pos bias = .ok (c', w) → CursorReach t c'
  | next {c c' : Cursor T S D U} : CursorReach t c → c.next = .ok c' → CursorReach t c'
  | prev {c c' : Cursor T S D U} : CursorReach t c → c.prev = .ok c' → CursorReach t c'

/-- **The trees that any sequence of calls can build.** -/
inductive Built : SumTree T S → Prop
  | new : Built new
  | fromItem {t : SumTree T S} {x : T} : fromItem x = .ok t → Built t
  | push {t t' : SumTree T S} {x : T} : Built t → t.push x = .ok t' → Built t'
  | extend {t t' : SumTree T S} {xs : List T} : Built t → t.extend xs = .ok t' → Built t'
  | pushTree {t u t' : SumTree T S} : Built t → Built u → t.pushTree u = .ok t' → Built t'
  | updateLast {t t' : SumTree T S} {f : T → T} : Built t → t.updateLast f = .ok t' → Built t'
  | insert {t t' : SumTree T S} {K : Type} [KeyedItem T K] [Dimension K S] [LinearOrder K] {x : T} :
      Built t → t.insert K x = .ok t' → Built t'
  | edit {t t' : SumTree T S} {K : Type} [KeyedItem T K] [Dimension K S] [LinearOrder K]
      {edits : List (Edit T)} : Built t → t.edit K edits = .ok t' → Built t'
  | slice {t t' : SumTree T S} {D U : Type} [Dimension D S] [Dimension U S] [LinearOrder D]
      {c c' : Cursor T S D U} {pos : D} {bias : SeekBias} :
      Built t → CursorReach t c → c.slice pos bias = .ok (c', t') → Built t'
  | suffix {t t' : SumTree T S} {D U : Type} [Dimension D S] [Dimension U S] [LinearOrder D]
      {c c' : Cursor T S D U} :
      Built t → CursorReach t c → c.suffix = .ok (c', t') → Built t'

namespace SumTree

variable {C : Prop} {H : ℕ}

theorem Yields.safe {l : List T} {r : Result (SumTree T S)} (h : Yields l r) :
    Safe C (fun t => ∃ h, Wf h t) r := by
  rcases h with ⟨h, t, rfl, w, -⟩ | ⟨rfl, -⟩
  · exact ⟨h, w⟩
  · exact fun h => nomatch h

section Keyed

variable {K : Type} [KeyedItem T K] [Dimension K S] [LinearOrder K]

theorem safe_insert {t : SumTree T S} (w : Wf H t) (x : T) :
    Safe (stackCapacity ≤ H) (fun t => ∃ h, Wf h t) (t.insert K x) := by
  refine ((Cursor.idle_new w).slice _ _).bind ?_
  rintro ⟨c, u⟩ ⟨hc, h, wu⟩
  refine (push_spec wu x).safe.bind ?_
  rintro u ⟨h, wu⟩
  refine hc.suffix.bind ?_
  rintro ⟨c, v⟩ ⟨-, k, wv⟩
  exact (pushTree_spec wu wv).safe

/-- The invariant of the loop of `edit`. -/
def EditOk (H : ℕ) (st : EditState T S K) : Prop := st.1.Idle H ∧ ∃ h, Wf h st.2.1

omit [AddMonoid S] [Item T S] in
theorem safe_item {D U : Type} (c : Cursor T S D U) : Safe C (fun _ => True) c.item := by
  rw [Cursor.item]
  refine (safe_debugAssert _).bind fun _ _ => ?_
  split
  · exact Safe.ok trivial
  · split
    · exact Safe.ok trivial
    · split
      · exact Safe.ok trivial
      · exact (safe_index _ _).bind fun _ _ => Safe.ok trivial

theorem safe_editStep {st : EditState T S K} (hst : EditOk H st) (e : Edit T) :
    Safe (stackCapacity ≤ H) (EditOk H) (editStep K st e) := by
  obtain ⟨c, t, buf⟩ := st
  obtain ⟨hc, h, wt⟩ := hst
  rw [editStep]
  refine (safe_item c).bind fun old _ => ?_
  refine Safe.bind (Q := fun r => EditOk H r.1) ?_ ?_
  · split
    · refine (extend_spec wt buf).safe.bind ?_
      rintro t ⟨h, wt⟩
      refine (Cursor.Idle.slice _ _ hc).bind ?_
      rintro ⟨c, u⟩ ⟨hc, k, wu⟩
      refine (pushTree_spec wt wu).safe.bind fun t ht => ?_
      exact (safe_item c).bind fun old _ => Safe.ok ⟨hc, ht⟩
    · exact Safe.ok ⟨hc, h, wt⟩
  · rintro ⟨⟨c, t, buf⟩, old⟩ ⟨hc, ht⟩
    refine Safe.bind (Q := Cursor.Idle H) ?_ fun c hc => ?_
    · split
      · exact hc.nextInternal _
      · exact Safe.ok hc
    · cases e with
      | insert x => exact Safe.ok ⟨hc, ht⟩
      | remove x => exact Safe.ok ⟨hc, ht⟩

theorem safe_edit {t : SumTree T S} (w : Wf H t) (edits : List (Edit T)) :
    Safe (stackCapacity ≤ H) (fun t => ∃ h, Wf h t) (t.edit K edits) := by
  rw [edit]
  split
  · exact Safe.ok ⟨H, w⟩
  · refine ((Cursor.idle_new w).seek _ _).bind ?_
    rintro ⟨c, found⟩ hc
    generalize edits.mergeSort _ = es
    have hloop : ∀ st : EditState T S K, EditOk H st →
        Safe (stackCapacity ≤ H) (EditOk H) (es.foldlM (editStep K) st) :=
      fun st h => Safe.foldlM (fun st e h => safe_editStep h e) es h
    refine (hloop _ ⟨hc, 0, wf_new⟩).bind ?_
    rintro ⟨c, t, buf⟩ ⟨hc, h, wt⟩
    refine (extend_spec wt buf).safe.bind ?_
    rintro t ⟨h, wt⟩
    refine (Cursor.Idle.suffix hc).bind ?_
    rintro ⟨c, v⟩ ⟨-, k, wv⟩
    exact (pushTree_spec wt wv).safe

end Keyed

end SumTree

/-! ## Every tree that can be built -/

theorem CursorReach.idle {D U : Type} [Dimension D S] [Dimension U S] [LinearOrder D]
    {t : SumTree T S} {c : Cursor T S D U} {H : ℕ} (w : Wf H t) (r : CursorReach t c) :
    c.Idle H := by
  induction r with
  | new => exact Cursor.idle_new w
  | seek _ e ih => exact (ih.seek _ _).of_eq_ok e
  | seekClamped _ e ih => exact (ih.seekClamped _ _).of_eq_ok e
  | slice _ e ih => exact ((ih.slice _ _).of_eq_ok e).1
  | suffix _ e ih => exact (ih.suffix.of_eq_ok e).1
  | summaryTo _ e ih => exact (ih.summaryTo _ _).of_eq_ok e
  | next _ e ih => exact (ih.nextInternal _).of_eq_ok e
  | prev _ e ih => exact ih.prev.of_eq_ok e

/-- **Every tree that can be built is well formed.** -/
theorem Built.wf {t : SumTree T S} (b : Built t) : ∃ h, Wf h t := by
  have key : ∀ {l : List T} {t : SumTree T S} {r : Result (SumTree T S)}, Yields l r → r = .ok t →
      ∃ h, Wf h t := fun h e => (h.safe (C := True)).of_eq_ok e
  induction b with
  | new => exact ⟨0, wf_new⟩
  | fromItem e => exact key (fromItem_spec _) e
  | push _ e ih => exact key (push_spec ih.choose_spec _) e
  | extend _ e ih => exact key (extend_spec ih.choose_spec _) e
  | pushTree _ _ e ih ih' => exact key (pushTree_spec ih.choose_spec ih'.choose_spec) e
  | @updateLast t t' f _ e ih =>
    obtain ⟨h, w⟩ := ih
    rcases List.eq_nil_or_concat' t.toList with hx | ⟨xs, x, hx⟩
    · rw [updateLast_empty w f hx] at e
      exact ⟨h, Except.ok.inj e ▸ w⟩
    · obtain ⟨t'', e', w', -⟩ := updateLast_spec w f hx
      rw [e'] at e
      exact ⟨h, Except.ok.inj e ▸ w'⟩
  | insert _ e ih => exact (safe_insert ih.choose_spec _).of_eq_ok e
  | edit _ e ih => exact (safe_edit ih.choose_spec _).of_eq_ok e
  | slice _ r e ih => exact (((r.idle ih.choose_spec).slice _ _).of_eq_ok e).2
  | suffix _ r e ih => exact ((r.idle ih.choose_spec).suffix.of_eq_ok e).2

/-- **A tree that can be built caches the sum over its items, the building operations on it are
list operations that never exceed the capacity of a node, and as long as it is at most 15 high no
cursor over it exceeds the capacity of its stack.** -/
theorem built_faithful {t : SumTree T S} (b : Built t) :
    (∃ h, Wf h t) ∧ t.summary = (t.toList.map Item.summary).sum ∧
    (∀ u, Built u → Yields (t.toList ++ u.toList) (t.pushTree u)) ∧
    (∀ x, Yields (t.toList ++ [x]) (t.push x)) ∧
    (∀ xs, Yields (t.toList ++ xs) (t.extend xs)) ∧
    (∀ f xs x, t.toList = xs ++ [x] → ∃ t', t.updateLast f = .ok t' ∧ t'.toList = xs ++ [f x]) ∧
    (∀ f, t.toList = [] → t.updateLast f = .ok t) ∧
    (t.height < stackCapacity →
      (∀ {D U : Type} [Dimension D S] [Dimension U S] [LinearOrder D] (c : Cursor T S D U),
        CursorReach t c → ∀ pos bias, c.seek pos bias ≠ .error .capacity ∧
          c.seekClamped pos bias ≠ .error .capacity ∧ c.slice pos bias ≠ .error .capacity ∧
          c.suffix ≠ .error .capacity ∧ c.next ≠ .error .capacity ∧ c.prev ≠ .error .capacity ∧
          ∀ {W : Type} [Dimension W S], c.summaryTo W pos bias ≠ .error .capacity) ∧
      (∀ {K : Type} [KeyedItem T K] [Dimension K S] [LinearOrder K] x edits,
        t.insert K x ≠ .error .capacity ∧ t.edit K edits ≠ .error .capacity)) := by
  obtain ⟨h, w⟩ := b.wf
  refine ⟨⟨h, w⟩, w.summary_eq, fun u hu => pushTree_spec w hu.wf.choose_spec, push_spec w,
    extend_spec w, fun f xs x hx => ?_, fun f hx => updateLast_empty w f hx, fun hh => ⟨?_, ?_⟩⟩
  · obtain ⟨t', e, -, l⟩ := updateLast_spec w f hx
    exact ⟨t', e, l⟩
  · rw [w.height_eq] at hh
    intro D U _ _ _ c r pos bias
    have hc := r.idle w
    have hC : ¬ stackCapacity ≤ h := by omega
    exact ⟨(hc.seek _ _).ne_capacity hC, (hc.seekClamped _ _).ne_capacity hC,
      (hc.slice _ _).ne_capacity hC, hc.suffix.ne_capacity hC, (hc.nextInternal _).ne_capacity hC,
      hc.prev.ne_capacity hC, fun {W} _ => (hc.summaryTo _ _).ne_capacity hC⟩
  · rw [w.height_eq] at hh
    intro K _ _ _ x edits
    have hC : ¬ stackCapacity ≤ h := by omega
    exact ⟨(safe_insert w x).ne_capacity hC, (safe_edit w edits).ne_capacity hC⟩

/-- Items that are only counted. -/
instance : Item Unit ℕ := ⟨fun _ => 1⟩

theorem built_faithful_singleton : Yields [(), ()] ((.leaf 1 [()] [1] : SumTree Unit ℕ).push ()) :=
  (built_faithful (.fromItem (x := ()) rfl)).2.2.2.1 ()

/-! ## A tree that is too high for its cursors -/

/-- One item, appended to itself `n` times: the subtrees are shared, so this takes `n` calls. -/
def doubled : ℕ → Result (SumTree Unit ℕ)
  | 0 => fromItem ()
  | n + 1 => do
    let t ← doubled n
    t.pushTree t

theorem doubled_spec (n : ℕ) :
    (∃ t, doubled n = .ok t ∧ Built t ∧ t.toList.length = 2 ^ n) ∨
      (doubled n = .error .overflow ∧ treeBase ^ 254 ≤ 2 ^ n) := by
  induction n with
  | zero =>
    rcases fromItem_spec (T := Unit) (S := ℕ) () with ⟨h, t, e, -, l⟩ | ⟨-, hlen⟩
    · exact Or.inl ⟨t, e, .fromItem e, by rw [l]; rfl⟩
    · exact absurd hlen (by decide)
  | succ n ih =>
    rcases ih with ⟨t, e, b, l⟩ | ⟨e, hlen⟩
    · obtain ⟨h, w⟩ := b.wf
      rcases pushTree_spec w w with ⟨k, t', e', -, l'⟩ | ⟨e', hlen⟩
      · refine Or.inl ⟨t', by rw [doubled, e, ok_bind, e'], b.pushTree b e', ?_⟩
        rw [l', List.length_append, l, pow_succ]
        omega
      · refine Or.inr ⟨by rw [doubled, e, ok_bind, e'], ?_⟩
        rwa [List.length_append, l, ← two_mul, ← pow_succ'] at hlen
    · refine Or.inr ⟨by rw [doubled, e, error_bind], hlen.trans ?_⟩
      exact Nat.pow_le_pow_right (by omega) (by omega)

/-- Appending to itself 1100 times takes more levels than a `u8` height can count. -/
theorem doubled_overflow : doubled 1100 = .error .overflow := by
  rcases doubled_spec 1100 with ⟨t, -, b, l⟩ | ⟨e, -⟩
  · obtain ⟨h, w⟩ := b.wf
    refine absurd ?_ (lt_irrefl (2 ^ 1100))
    calc 2 ^ 1100 = t.toList.length := l.symm
      _ ≤ nodeCapacity ^ (h + 1) := w.length_le
      _ ≤ nodeCapacity ^ 256 :=
        Nat.pow_le_pow_right (by decide) (by have := w.height_le; unfold u8Max at this; omega)
      _ ≤ (2 ^ 4) ^ 256 := Nat.pow_le_pow_left (by decide) _
      _ = 2 ^ (4 * 256) := (pow_mul 2 4 256).symm
      _ < 2 ^ 1100 := Nat.pow_lt_pow_right (by decide) (by decide)
  · exact e

section TooHigh

variable {D U W : Type} [Dimension D S] [Dimension U S] [Dimension W S] [LinearOrder D]
  {t : SumTree T S} {H : ℕ}

/-- Over a tree that is too high, the first seek of a cursor overflows its stack. -/
theorem Cursor.seekInternal_capacity {bias : SeekBias} (w : Wf H t) (hne : t.toList ≠ [])
    (hH : stackCapacity ≤ H)
    (hb : Cursor.StopsFirst .no (Dimension.default S : D) bias t.toList)
    (agg : SeekAggregate T S W) :
    Cursor.seekInternal (Dimension.default S) bias .no (Cursor.new t : Cursor T S D U) agg =
      .error .capacity := by
  have hseek : Cursor.seekDescend (Dimension.default S) bias .no t
      (⟨t, [], Dimension.default S, Dimension.default S, true, false⟩ : Cursor T S D U) agg =
        .error .capacity :=
    Cursor.seekDescend_capacity .no w hne hb _ _ (Nat.zero_le _) (by simpa using hH)
  have hnew : (Cursor.new t : Cursor T S D U) =
    ⟨t, [], Dimension.default S, Dimension.default S, false, false⟩ := rfl
  rw [Cursor.seekInternal, debugAssert_ok (by simp [hnew]), ok_bind, hnew]
  simp only [Bool.false_eq_true, if_false, ok_bind]
  rw [hseek, error_bind]

theorem Cursor.slice_capacity (w : Wf H t) (hne : t.toList ≠ []) (hH : stackCapacity ≤ H)
    (ht : ∀ x : D, ¬ x < Dimension.default S) :
    (Cursor.new t : Cursor T S D U).slice (Dimension.default S) .left = .error .capacity := by
  rw [Cursor.slice, Cursor.seekInternal_capacity w hne hH (Cursor.stopsFirst_left _ ht _),
    error_bind]

theorem Cursor.seek_capacity {bias : SeekBias} (w : Wf H t) (hne : t.toList ≠ [])
    (hH : stackCapacity ≤ H)
    (hb : Cursor.StopsFirst .no (Dimension.default S : D) bias t.toList) :
    (Cursor.new t : Cursor T S D U).seek (Dimension.default S) bias = .error .capacity := by
  rw [Cursor.seek, show (Cursor.new t : Cursor T S D U).reset = .new t from rfl,
    Cursor.seekInternal_capacity w hne hH hb, error_bind]

end TooHigh

/-- A tree of height at most 15 has few items. -/
theorem SumTree.Wf.le_height {h : ℕ} {t : SumTree T S} (w : Wf h t)
    (hlen : nodeCapacity ^ stackCapacity < t.toList.length) : stackCapacity ≤ h := by
  by_contra hlt
  have hle : nodeCapacity ^ (h + 1) ≤ nodeCapacity ^ stackCapacity :=
    Nat.pow_le_pow_right (by decide) (by omega)
  exact absurd (w.length_le.trans hle) (not_le.mpr hlen)

/-- 58 calls make a tree that is too high. -/
theorem doubled_high : ∃ t h, doubled 58 = .ok t ∧ Built t ∧ Wf h t ∧ stackCapacity ≤ h ∧
    t.toList ≠ [] := by
  obtain ⟨t, e, b, l⟩ := (doubled_spec 58).resolve_right fun h =>
    absurd (h.2.trans_lt (calc 2 ^ 58 < treeBase ^ 58 := Nat.pow_lt_pow_left (by decide) (by decide)
      _ ≤ treeBase ^ 254 := Nat.pow_le_pow_right treeBase_pos (by decide))) (lt_irrefl _)
  obtain ⟨h, w⟩ := b.wf
  refine ⟨t, h, e, b, w, w.le_height ?_, List.ne_nil_of_length_pos (by rw [l]; decide)⟩
  rw [l]
  decide

/-- **A tree built from one item by 58 calls of `push_tree` is too high for the first seek of its
cursor**: the path to its first item overflows the stack of 16 entries. After 1100 calls the height
overflows its `u8`. -/
theorem doubled_slice_capacity : (∃ t, doubled 58 = .ok t ∧ Built t ∧
    (Cursor.new t : Cursor Unit ℕ Unit Unit).slice () .left = .error .capacity) ∧
    doubled 1100 = .error .overflow := by
  refine ⟨?_, doubled_overflow⟩
  obtain ⟨t, h, e, b, w, hh, hne⟩ := doubled_high
  exact ⟨t, e, b, Cursor.slice_capacity w hne hh lt_irrefl⟩

end Clinch
