import Clinch.BatchUpdate
import Clinch.SumTree.Slices

/-!
# Editing a tree of keyed items

`edit` merges the sorted edits into the tree with one cursor.

* `KeyDimension`: the sum over sorted items is the last key;
* `Edit.inserted`; `Fits`: a call that returns unless there are too many items;
* `editStep_spec`, `foldlM_editStep`: what one edit does, and all of them;
* **`edit_batch`**: `edit` is a batch update of the sorted items;
* `edit_capacity`: a sorted tree that is too high.
-/

set_option autoImplicit false

namespace Clinch

open SumTree

variable {T S K : Type} [AddMonoid S] [Item T S] [KeyedItem T K] [Dimension K S] [LinearOrder K]

/-- The key dimension of sorted items: their sum is the last key, and no key is before the start. -/
structure KeyDimension (T : Type) {S : Type} (K : Type) [AddMonoid S] [Item T S] [KeyedItem T K]
    [Dimension K S] [LinearOrder K] : Prop extends ExactDimension T K where
  addSummary_item : ∀ (d : K) (x : T), d ≤ KeyedItem.key x →
    Dimension.addSummary d (Item.summary x : S) = KeyedItem.key x
  default_le : ∀ x : T, Dimension.default S ≤ (KeyedItem.key x : K)

/-- The items are strictly sorted by key. -/
def SortedByKey (K : Type) [KeyedItem T K] [LinearOrder K] (xs : List T) : Prop :=
  (xs.map (KeyedItem.key (K := K))).Pairwise (· < ·)

/-- The item that an edit leaves under its key. -/
def Edit.inserted : Edit T → Option T
  | .insert item => some item
  | .remove _ => none

variable {xs ys zs : List T} {x : T} {k : K}

namespace SortedByKey

omit [AddMonoid S] [Item T S] [Dimension K S]

theorem append (h : SortedByKey K (xs ++ ys)) : SortedByKey K xs ∧ SortedByKey K ys ∧
    ∀ x ∈ xs, ∀ y ∈ ys, (KeyedItem.key x : K) < KeyedItem.key y := by
  rw [SortedByKey, List.map_append, List.pairwise_append] at h
  exact ⟨h.1, h.2.1, fun x hx y hy => h.2.2 _ (List.mem_map_of_mem hx) _ (List.mem_map_of_mem hy)⟩

/-- If the first item is not before `k`, then none is. -/
theorem le_of_head (h : SortedByKey K ys) (hhead : ∀ y ∈ ys.head?, k ≤ KeyedItem.key y) :
    ∀ y ∈ ys, k ≤ KeyedItem.key y := by
  cases ys with
  | nil => exact fun y hy => by cases hy
  | cons z ys =>
    intro y hy
    rcases List.mem_cons.mp hy with rfl | hy
    · exact hhead y rfl
    · exact (hhead z rfl).trans ((List.pairwise_cons.mp h).1 _ (List.mem_map_of_mem hy)).le

/-- The items after `k`, once those before it are passed. -/
theorem filter_after (h : SortedByKey K ys) (hle : ∀ y ∈ ys, k ≤ KeyedItem.key y) :
    (ys.filter fun y => k < KeyedItem.key y) =
      if keyIs K (fun k' => k' = k) ys.head? then ys.tail else ys := by
  cases ys with
  | nil => rfl
  | cons y ys =>
    have hrest : (ys.filter fun y => k < KeyedItem.key y) = ys := by
      refine List.filter_eq_self.mpr fun z hz => decide_eq_true ?_
      exact lt_of_le_of_lt (hle y List.mem_cons_self)
        ((List.pairwise_cons.mp h).1 _ (List.mem_map_of_mem hz))
    simp only [List.head?_cons, keyIs, Option.any_some, decide_eq_true_iff, List.tail_cons]
    split
    · rename_i hk
      rw [List.filter_cons_of_neg (by simp [hk]), hrest]
    · rename_i hk
      rw [List.filter_cons_of_pos, hrest]
      exact decide_eq_true (lt_of_le_of_ne (hle y List.mem_cons_self) (Ne.symm hk))

end SortedByKey

namespace KeyDimension

variable (hK : KeyDimension T K (S := S))

include hK

theorem measure_concat (h : SortedByKey K (xs ++ [x])) :
    measure K (xs ++ [x]) = KeyedItem.key x := by
  induction xs using List.reverseRecOn generalizing x with
  | nil => exact hK.addSummary_item _ x (hK.default_le x)
  | append_singleton xs z ih =>
    obtain ⟨hxs, -, hlt⟩ := h.append
    rw [measure_append, ih hxs]
    exact hK.addSummary_item _ x (hlt z (by simp) x (by simp)).le

theorem monotone (h : SortedByKey K xs) : MonotoneDimension K xs (S := S) := by
  rintro as bs cs rfl
  obtain ⟨habs, -, -⟩ := h.append
  obtain ⟨has, -, hlt⟩ := habs.append
  rcases List.eq_nil_or_concat' bs with rfl | ⟨bs, b, rfl⟩
  · rw [List.append_nil]
  · rw [← List.append_assoc] at habs ⊢
    rw [hK.measure_concat habs]
    rcases List.eq_nil_or_concat' as with rfl | ⟨as, a, rfl⟩
    · exact hK.default_le b
    · rw [hK.measure_concat has]
      exact (hlt a (by simp) b (by simp)).le

end KeyDimension

/-! ## One edit after the other -/

/-- The call returns, or the `u8` height overflows on the way to `n` items. -/
def Fits {α : Type} (n : ℕ) (Q : α → Prop) (r : Result α) : Prop :=
  Returns Q r ∨ r = .error .overflow ∧ treeBase ^ 254 ≤ n

namespace Fits

variable {α β : Type} {n : ℕ} {Q : α → Prop} {R : β → Prop} {r : Result α}

theorem bind {f : α → Result β} (hr : Fits n Q r) (hf : ∀ a, Q a → Fits n R (f a)) :
    Fits n R (r >>= f) := by
  rcases hr with ⟨a, rfl, ha⟩ | ⟨rfl, hn⟩
  · exact hf a ha
  · exact Or.inr ⟨rfl, hn⟩

theorem mono {Q' : α → Prop} (hr : Fits n Q r) (h : ∀ a, Q a → Q' a) : Fits n Q' r :=
  hr.imp_left fun hr => hr.mono h

omit [KeyedItem T K] [Dimension K S] [LinearOrder K] in
theorem of_yields {r : Result (SumTree T S)} (hr : Yields xs r) (hn : xs.length ≤ n) :
    Fits n (fun t => (∃ h, Wf h t) ∧ t.toList = xs) r := by
  rcases hr with ⟨h, t, rfl, w, ht⟩ | ⟨rfl, hlen⟩
  · exact Or.inl (Returns.ok ⟨⟨h, w⟩, ht⟩)
  · exact Or.inr ⟨rfl, hlen.trans hn⟩

end Fits

/-- The loop of `edit` has made the items `out`, and the items `ys` are still to come. -/
structure Edits (root : SumTree T S) (H : ℕ) (st : EditState T S K) (out ys : List T) : Prop where
  cursor : ∃ xs, st.1.At root H xs ys
  wf : ∃ h, Wf h st.2.1
  made : st.2.1.toList ++ st.2.2 = out

variable {root : SumTree T S} {H n : ℕ}

/-- The keys of the items that a slice to `k` has passed. -/
theorem keys_passed (hK : KeyDimension T K (S := S)) (hs : SortedByKey K (xs ++ (ys ++ zs)))
    (hp : Cursor.Passed k .left .no (.slice xs) (xs ++ ys)) : ∀ y ∈ ys, KeyedItem.key y < k := by
  rw [← List.append_assoc] at hs
  obtain ⟨hs, -, -⟩ := hs.append
  rcases List.eq_nil_or_concat' ys with rfl | ⟨ys, y, rfl⟩
  · exact fun y hy => by cases hy
  · have hlast : (KeyedItem.key y : K) < k := by
      rw [← List.append_assoc] at hs hp
      rw [← hK.measure_concat hs]
      refine targetBeyond_iff.mp ((hp rfl).resolve_left fun hnil => ?_)
      exact absurd (congrArg List.length hnil) (by simp [Cursor.Started.before])
    intro z hz
    rcases List.mem_append.mp hz with hz | hz
    · obtain ⟨-, hs, -⟩ := hs.append
      exact (hs.append.2.2 z hz y (by simp)).trans hlast
    · rwa [List.mem_singleton.mp hz]

/-- The keys of the items that it has stopped before. -/
theorem keys_stopped (hK : KeyDimension T K (S := S)) (hs : SortedByKey K (xs ++ (ys ++ zs)))
    (hstop : Cursor.Stops k .left .no (xs ++ ys) zs) : ∀ z ∈ zs, k ≤ KeyedItem.key z := by
  rw [← List.append_assoc] at hs
  refine hs.append.2.1.le_of_head fun z hz => ?_
  obtain ⟨zs, rfl⟩ : ∃ zs', zs = z :: zs' := List.head?_eq_some_iff.mp hz
  rw [List.append_cons] at hs
  rw [← hK.measure_concat hs.append.1]
  exact not_lt.mp ((targetBeyond_iff.not).mp (Bool.eq_false_iff.mp (hstop rfl z rfl)))

/-- The first part of a round: the items before the edit are taken over. -/
theorem takeOver_spec (w : Wf H root) (hH : H < stackCapacity) (hK : KeyDimension T K (S := S))
    (hs : SortedByKey K root.toList) {c : Cursor T S K Unit} {t : SumTree T S} {buf out : List T}
    (hc : c.At root H xs ys) (wt : ∃ h, Wf h t) (hout : t.toList ++ buf = out)
    (hn : (out ++ ys).length ≤ n) (newKey : K) :
    Fits n (fun r => ∃ ms ys', ys = ms ++ ys' ∧ (∀ y ∈ ms, KeyedItem.key y < newKey) ∧
        (∀ y ∈ ys', newKey ≤ KeyedItem.key y) ∧ Edits root H r.1 (out ++ ms) ys' ∧
        r.2 = ys'.head?)
      (if keyIs K (fun k => k < newKey) ys.head? then do
        let newTree ← t.extend buf
        let (cursor, slice) ← c.slice newKey .left
        let newTree ← newTree.pushTree slice
        let oldItem ← cursor.item
        return ((cursor, newTree, []), oldItem)
      else return ((c, t, buf), ys.head?) : Result (EditState T S K × Option T)) := by
  have hroot := hc.place.append_eq
  have hsorted : SortedByKey K (xs ++ ys) := hroot ▸ hs
  split
  · rename_i hlt
    obtain ⟨h, wt⟩ := wt
    have hpos : c.seekDimension ≤ newKey := by
      cases ys with
      | nil => cases hlt
      | cons y ys =>
        have hy : SortedByKey K (xs ++ [y]) := by
          rw [List.append_cons] at hsorted
          exact hsorted.append.1
        refine le_trans ?_ (of_decide_eq_true hlt).le
        rw [hc.sums.1, ← hK.measure_concat hy]
        exact hK.monotone hy xs [y] [] (by simp)
    refine (Fits.of_yields (extend_spec wt buf) ?_).bind ?_
    · rw [hout]
      exact (List.length_append ▸ Nat.le_add_right _ _).trans hn
    rintro t' ⟨⟨h', wt'⟩, ht'⟩
    obtain ⟨⟨c', u⟩, e, ms, ys', rfl, hat, hu, ⟨k, wu⟩, hp, hstop⟩ :=
      Cursor.Ready.slice w hH hK.toExactDimension (Or.inl hc) hpos .left
    simp only at hat hu wu
    rw [e, ok_bind]
    refine (Fits.of_yields (pushTree_spec wt' wu) ?_).bind ?_
    · rw [← List.append_assoc, List.length_append] at hn
      rw [ht', hout, hu]
      omega
    rintro t'' ⟨wt'', ht''⟩
    rw [Cursor.Stands.item hat, ok_bind]
    refine Or.inl (Returns.ok ⟨ms, ys', rfl, ?_, ?_, ⟨⟨_, hat⟩, wt'', ?_⟩, rfl⟩)
    · exact keys_passed hK hsorted hp
    · exact keys_stopped hK hsorted hstop
    · rw [ht'', ht', hout, hu, List.append_nil]
  · rename_i hlt
    refine Or.inl (Returns.ok ⟨[], ys, rfl, fun y hy => (by cases hy), ?_, ?_, rfl⟩)
    · refine hsorted.append.2.1.le_of_head fun y hy => not_lt.mp fun hk => hlt ?_
      rw [keyIs, show ys.head? = some y from hy]
      exact decide_eq_true hk
    · rw [List.append_nil]
      exact ⟨⟨xs, hc⟩, wt, hout⟩

/-- **One edit** takes over the items before its key, drops the one with its key and leaves its own. -/
theorem editStep_spec (w : Wf H root) (hH : H < stackCapacity) (hK : KeyDimension T K (S := S))
    (hs : SortedByKey K root.toList) {st : EditState T S K} {out : List T}
    (hst : Edits root H st out ys) (hn : (out ++ ys).length ≤ n) (e : Edit T) :
    Fits n (fun st' => Edits root H st'
        (out ++ (ys.filter fun y => KeyedItem.key y < e.key K) ++ e.inserted.toList)
        (ys.filter fun y => e.key K < KeyedItem.key y)) (editStep K st e) := by
  obtain ⟨c, t, buf⟩ := st
  obtain ⟨⟨xs, hc⟩, wt, hout⟩ := hst
  rw [editStep, Cursor.Stands.item hc, ok_bind]
  refine (takeOver_spec w hH hK hs hc wt hout hn (e.key K)).bind ?_
  rintro ⟨⟨c', t', buf'⟩, old⟩ ⟨ms, ys', rfl, hbefore, hafter, ⟨⟨xs', hc'⟩, wt', hout'⟩, hold⟩
  simp only at hc' wt' hout' hold
  subst hold
  have hsorted : SortedByKey K ys' := by
    have hroot := hs
    rw [hc'.place.append_eq] at hroot
    exact hroot.append.2.1
  have hfilter : ((ms ++ ys').filter fun y => KeyedItem.key y < e.key K) = ms := by
    rw [List.filter_append, List.filter_eq_self.mpr fun y hy => decide_eq_true (hbefore y hy),
      List.filter_eq_nil_iff.mpr fun y hy => by simpa using hafter y hy, List.append_nil]
  have hrest : ((ms ++ ys').filter fun y => e.key K < KeyedItem.key y) =
      if keyIs K (fun k => k = e.key K) ys'.head? then ys'.tail else ys' := by
    rw [List.filter_append, List.filter_eq_nil_iff.mpr fun y hy => by simpa using (hbefore y hy).le,
      List.nil_append, hsorted.filter_after hafter]
  rw [hfilter, hrest]
  refine Fits.bind (Q := fun c => ∃ xs, Cursor.At root H c xs
    (if keyIs K (fun k => k = e.key K) ys'.head? then ys'.tail else ys')) ?_ ?_
  · split
    · cases ys' with
      | nil => exact Or.inl ⟨c', hc'.next_end, xs', hc'⟩
      | cons y ys' =>
        refine Or.inl (Returns.mono (hc'.next w hH) ?_)
        exact fun c hc => ⟨_, hc⟩
    · exact Or.inl (Returns.ok ⟨xs', hc'⟩)
  · intro c'' hc''
    cases e with
    | insert item =>
      refine Or.inl (Returns.ok ⟨hc'', wt', ?_⟩)
      rw [← hout', ← List.append_assoc]
      rfl
    | remove item =>
      refine Or.inl (Returns.ok ⟨hc'', wt', ?_⟩)
      rw [hout']
      exact (List.append_nil _).symm

/-- **All edits**, in the order of their keys. -/
theorem foldlM_editStep (w : Wf H root) (hH : H < stackCapacity) (hK : KeyDimension T K (S := S))
    (hs : SortedByKey K root.toList) {st : EditState T S K} {out : List T}
    (hst : Edits root H st out ys) {es : List (Edit T)}
    (hn : (out ++ ys).length + es.length ≤ n) :
    Fits n (fun st' => ∃ out' ys', Edits root H st' out' ys' ∧
        out' ++ ys' = out ++ batchUpdate (KeyedItem.key (K := K)) (Edit.key K) Edit.inserted ys es)
      (es.foldlM (editStep K) st) := by
  induction es generalizing st out ys with
  | nil => exact Or.inl (Returns.ok ⟨out, ys, hst, rfl⟩)
  | cons e es ih =>
    rw [List.foldlM_cons]
    refine (editStep_spec w hH hK hs hst (by omega) e).bind fun st' hst' => ?_
    refine (ih hst' ?_).mono ?_
    · have hone := @length_batchUpdate_le _ _ _ _ (KeyedItem.key (K := K)) (Edit.key K)
        Edit.inserted ys [e]
      simp only [batchUpdate, List.length_append, List.length_cons, List.length_nil] at hone hn ⊢
      omega
    · rintro st'' ⟨out', ys', hst'', he⟩
      refine ⟨out', ys', hst'', he.trans ?_⟩
      rw [batchUpdate, List.append_assoc, List.append_assoc, List.append_assoc]

omit [AddMonoid S] [Item T S] [Dimension K S] in
/-- The edits in the order of their keys. -/
theorem sorted_edits {edits : List (Edit T)} (hd : (edits.map (Edit.key K)).Nodup) :
    ((edits.mergeSort fun a b => a.key K ≤ b.key K).map (Edit.key K)).Pairwise (· < ·) := by
  have hle : ((edits.mergeSort fun a b => a.key K ≤ b.key K).map (Edit.key K)).Pairwise (· ≤ ·) := by
    rw [List.pairwise_map]
    refine (List.pairwise_mergeSort (fun a b c hab hbc => ?_) (fun a b => ?_) edits).imp
      fun h => of_decide_eq_true h
    · exact decide_eq_true ((of_decide_eq_true hab).trans (of_decide_eq_true hbc))
    · simpa using le_total _ _
  have hnodup := (((List.mergeSort_perm edits fun a b => a.key K ≤ b.key K).map
    (Edit.key K)).nodup_iff).mpr hd
  exact (hle.and hnodup).imp fun h => lt_of_le_of_ne h.1 h.2

/-- **`edit` merges the sorted edits into the sorted items.** -/
theorem edit_spec {t : SumTree T S} (w : Wf H t) (hH : H < stackCapacity)
    (hK : KeyDimension T K (S := S)) (hs : SortedByKey K t.toList) (edits : List (Edit T)) :
    Fits (t.toList.length + edits.length) (fun t' => t'.toList =
      batchUpdate (KeyedItem.key (K := K)) (Edit.key K) Edit.inserted t.toList
        (edits.mergeSort fun a b => a.key K ≤ b.key K)) (t.edit K edits) := by
  rw [edit]
  split
  · rename_i hempty
    rw [List.isEmpty_iff.mp hempty, List.mergeSort_nil]
    exact Or.inl (Returns.ok rfl)
  have hm := hK.monotone hs
  generalize hes : (edits.mergeSort fun a b => a.key K ≤ b.key K) = es
  have hlen : es.length = edits.length := by rw [← hes, List.length_mergeSort]
  refine Fits.bind (Or.inl (Cursor.Ready.seek w hH hK.toExactDimension hm Cursor.ready_new le_rfl
    .left)) ?_
  rintro ⟨c, found⟩ ⟨⟨ms, ys, hroot, hat, hp, -⟩, -⟩
  simp only at hat
  -- the first seek stays before the first item
  have hms : ms = [] := by
    refine (hp rfl).resolve_right fun hb => ?_
    have hlt := targetBeyond_iff.mp hb
    exact absurd (hm [] ms ys hroot) (not_le.mpr hlt)
  subst hms
  rw [List.nil_append] at hroot
  have hst : Edits t H ((c, .new, []) : EditState T S K) [] ys := ⟨⟨[], hat⟩, ⟨0, wf_new⟩, rfl⟩
  refine (foldlM_editStep w hH hK hs hst (by rw [← hroot, hlen]; exact le_rfl)).bind ?_
  rintro ⟨c', t', buf⟩ ⟨out, ys', ⟨⟨xs, hat'⟩, ⟨h', wt'⟩, hmade⟩, hall⟩
  simp only at hat' wt' hmade
  have hfinal : (out ++ ys').length ≤ t.toList.length + edits.length := by
    rw [hall, List.nil_append, ← hroot, ← hlen]
    exact length_batchUpdate_le _ _
  rw [List.length_append] at hfinal
  refine (Fits.of_yields (extend_spec wt' buf) (by rw [hmade]; omega)).bind ?_
  rintro t'' ⟨⟨h'', wt''⟩, ht''⟩
  obtain ⟨⟨c'', u⟩, e, hu, k, wu⟩ :=
    Cursor.Ready.suffix w hH hK.toExactDimension hm (Or.inl hat')
  simp only at hu wu
  rw [e, ok_bind]
  refine (Fits.of_yields (pushTree_spec wt'' wu) ?_).mono ?_
  · rw [ht'', hmade, hu, List.length_append]
    omega
  · rintro r ⟨-, hr⟩
    rw [hr, ht'', hmade, hu, hall, hroot]
    rfl

/-- The largest key. -/
structure MaxKey where
  key : ℕ
deriving DecidableEq

instance : Zero MaxKey := ⟨⟨0⟩⟩

instance : Add MaxKey := ⟨fun a b => ⟨max a.key b.key⟩⟩

instance : AddMonoid MaxKey where
  add_assoc a b c := congrArg MaxKey.mk (max_assoc _ _ _)
  zero_add a := congrArg MaxKey.mk (Nat.zero_max _)
  add_zero a := congrArg MaxKey.mk (Nat.max_zero _)
  nsmul := nsmulRec

instance : Item ℕ MaxKey := ⟨MaxKey.mk⟩

instance : KeyedItem ℕ ℕ := ⟨id⟩

instance : Dimension ℕ MaxKey := ⟨0, fun d s => max d s.key⟩

theorem keyDimension_max : KeyDimension ℕ ℕ (S := MaxKey) where
  addSummary_sum d xs hne := by
    clear hne
    induction xs generalizing d with
    | nil => exact Nat.max_zero d
    | cons x xs ih =>
      refine Eq.trans ?_ (ih (max d x))
      exact (max_assoc d x _).symm
  addSummary_zero := rfl
  addSummary_item _ _ h := max_eq_right h
  default_le := Nat.zero_le

/-- The odd numbers up to 7. -/
def oddNumbers : SumTree ℕ MaxKey := .leaf ⟨7⟩ [1, 3, 5, 7] [⟨1⟩, ⟨3⟩, ⟨5⟩, ⟨7⟩]

theorem built_oddNumbers : Built oddNumbers :=
  have h : SumTree.new.extend [1, 3, 5, 7] = .ok oddNumbers := rfl
  .extend .new h

theorem sorted_oddNumbers : SortedByKey ℕ oddNumbers.toList := by
  rw [SortedByKey]
  decide

/-- A sorted tree that `extend` builds too high. -/
theorem exists_sorted_high {n : ℕ} (hn : nodeCapacity ^ stackCapacity < n)
    (hsmall : n < treeBase ^ 254) : ∃ (t : SumTree ℕ MaxKey) (h : ℕ),
      SumTree.new.extend (List.range n) = .ok t ∧ Built t ∧ Wf h t ∧ stackCapacity ≤ h ∧
        t.toList ≠ [] ∧ SortedByKey ℕ t.toList := by
  obtain ⟨h, t, e, w, ht⟩ :=
    (extend_spec (wf_new (T := ℕ) (S := MaxKey)) (List.range n)).resolve_right fun hlen =>
      absurd hlen.2 (not_le.mpr (by simpa [SumTree.new] using hsmall))
  have hitems : t.toList = List.range n := ht
  have hlen : t.toList.length = n := by rw [hitems, List.length_range]
  refine ⟨t, h, e, .extend .new e, w, w.le_height (by rwa [hlen]), ?_, ?_⟩
  · exact List.ne_nil_of_length_pos (by omega)
  · rw [SortedByKey, hitems]
    simpa [KeyedItem.key] using List.pairwise_lt_range

end Clinch
