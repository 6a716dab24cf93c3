import Clinch.Editor.OverlappingRanges
import Clinch.HashMap
import Clinch.Rust

/-!
# Merging the selections of a buffer

`crates/editor/src/content/selection_model.rs`, with `anchor.rs` and `selection.rs` next to it. A
selection is two anchors, and the buffer's anchors say where each one is. A merge takes the places
that `overlapping_ranges` reports, which are places in the order of the starts, for places in the
list of the selections, which is in the order they were made.

* `Anchors`, `Selection`, `BufferSelectionModel`;
* `mergeOverlappingSelections`, and its spec `mergeOverlappingSelections_spec`;
* **`merge_iff`**: what a merge is for, and when it does so.
-/

set_option autoImplicit false

namespace Clinch.Editor

open Range

inductive AnchorSide
  | left
  | right
deriving DecidableEq

/-- `AnchorState`, without the reference that says whether the anchor is still in use. -/
structure AnchorState where
  offset : ℕ
  side : AnchorSide
deriving DecidableEq

/-- `Anchor`, by its `AnchorId`. -/
structure Anchor where
  id : ℕ
deriving DecidableEq

/-- `Anchors`. No run makes so many anchors that `next_id` wraps. -/
structure Anchors where
  nextId : ℕ
  anchors : HashMap ℕ AnchorState
  fresh : ∀ id state, anchors.get id = some state → id < nextId

namespace Anchors

/-- `Anchors::new`. -/
def new : Anchors := ⟨0, .empty, fun _ _ h => nomatch h⟩

theorem fresh_insert (a : Anchors) (state : AnchorState) (id : ℕ) (state' : AnchorState)
    (h : (a.anchors.insert a.nextId state).get id = some state') : id < a.nextId + 1 := by
  rw [HashMap.get_insert] at h
  split at h
  · omega
  · exact (a.fresh id state' h).trans (Nat.lt_succ_self _)

/-- `Anchors::create_anchor`. -/
def createAnchor (a : Anchors) (offset : ℕ) (side : AnchorSide) : Anchors × Anchor :=
  (⟨a.nextId + 1, a.anchors.insert a.nextId ⟨offset, side⟩, a.fresh_insert ⟨offset, side⟩⟩,
    ⟨a.nextId⟩)

/-- `Anchors::resolve`. -/
def resolve (a : Anchors) (anchor : Anchor) : Option ℕ := (a.anchors.get anchor.id).map (·.offset)

end Anchors

inductive TextStyleBias
  | inStyle
  | outOfStyle
deriving DecidableEq

structure Selection where
  head : Anchor
  tail : Anchor
  bias : TextStyleBias
deriving DecidableEq

/-- `Selection::new`. -/
def Selection.new (head tail : Anchor) : Selection := ⟨head, tail, .outOfStyle⟩

/-- `SelectionSet`: there is always a selection. -/
structure SelectionSet where
  selections : List Selection
  nonempty : selections ≠ []

/-- `BufferSelectionModel`, without its handle of the buffer. -/
structure BufferSelectionModel where
  selections : SelectionSet
  anchors : Anchors

/-- The elements that are not in one of the places. -/
def keep {β : Type} (indices : List ℕ) (l : List β) : List β :=
  l.zipIdx.filterMap fun e => if e.2 ∈ indices then none else some e.1

namespace BufferSelectionModel

/-- `create_anchor`. -/
def createAnchor (m : BufferSelectionModel) (offset : ℕ) (side : AnchorSide) :
    BufferSelectionModel × Anchor :=
  let (anchors, anchor) := m.anchors.createAnchor offset side
  ({ m with anchors }, anchor)

/-- `resolve_anchor`. -/
def resolveAnchor (m : BufferSelectionModel) (anchor : Anchor) : Option ℕ :=
  m.anchors.resolve anchor

/-- `selection_to_offset_range`. -/
def selectionToOffsetRange (m : BufferSelectionModel) (selection : Selection) :
    Result (Range ℕ) := do
  let head ← unwrap (m.resolveAnchor selection.head)
  let tail ← unwrap (m.resolveAnchor selection.tail)
  return if head ≥ tail then ⟨tail, head⟩ else ⟨head, tail⟩

/-- `selections_to_offset_ranges`. -/
def selectionsToOffsetRanges (m : BufferSelectionModel) : Result (List (Range ℕ)) :=
  m.selections.selections.mapM m.selectionToOffsetRange

/-- `selection_head`. -/
def selectionHead (m : BufferSelectionModel) (selection : Selection) : Result ℕ :=
  unwrap (m.resolveAnchor selection.head)

/-- `selection_tail`. -/
def selectionTail (m : BufferSelectionModel) (selection : Selection) : Result ℕ :=
  unwrap (m.resolveAnchor selection.tail)

/-- `create_selection`. -/
def createSelection (m : BufferSelectionModel) (head tail : ℕ) : BufferSelectionModel × Selection :=
  let (m, head) := m.createAnchor head .right
  let (m, tail) := m.createAnchor tail .right
  (m, .new head tail)

/-- One turn of the loop over the new ranges. -/
def pushRange (forwardsSelection : Bool) (st : BufferSelectionModel × List Selection)
    (range : Range ℕ) : BufferSelectionModel × List Selection :=
  let (m, newSelection) :=
    if forwardsSelection then st.1.createSelection range.stop range.start
    else st.1.createSelection range.start range.stop
  (m, st.2 ++ [newSelection])

/-- Whether a selection, in one of the places, has its head after its tail. -/
def isForwards (m : BufferSelectionModel) (overlapIndices : List ℕ) (e : Selection × ℕ) :
    Result Bool := do
  if e.2 ∈ overlapIndices then
    return decide ((← m.selectionHead e.1) > (← m.selectionTail e.1))
  else return false

/-- `merge_overlapping_selections`. -/
def mergeOverlappingSelections (m : BufferSelectionModel) : Result BufferSelectionModel := do
  let (overlapIndices, newRanges) := overlappingRanges (← m.selectionsToOffsetRanges)
  if overlapIndices.isEmpty then
    return m
  let forwardsSelection ← m.selections.selections.zipIdx.anyM (m.isForwards overlapIndices)
  let (m', newSelections) :=
    newRanges.foldl (pushRange forwardsSelection) (m, keep overlapIndices m.selections.selections)
  if h : newSelections ≠ [] then
    return { m' with selections := ⟨newSelections, h⟩ }
  else return m'

end BufferSelectionModel

/-! ## What is kept of a list -/

section Keep

variable {β γ : Type} {indices : List ℕ} {l : List β}

theorem mem_keep {b : β} : b ∈ keep indices l ↔ ∃ i, l[i]? = some b ∧ i ∉ indices := by
  unfold keep
  rw [List.mem_filterMap]
  constructor
  · rintro ⟨⟨a, i⟩, hmem, h⟩
    rw [List.mk_mem_zipIdx_iff_getElem?] at hmem
    simp only at h
    split at h
    · cases h
    · next hi => exact ⟨i, Option.some.inj h ▸ hmem, hi⟩
  · rintro ⟨i, hb, hi⟩
    exact ⟨(b, i), List.mk_mem_zipIdx_iff_getElem?.mpr hb, if_neg hi⟩

theorem keep_nil : keep [] l = l := by
  unfold keep
  simp only [List.not_mem_nil, if_false]
  show List.filterMap (some ∘ Prod.fst) l.zipIdx = l
  rw [List.filterMap_eq_map, List.zipIdx_map_fst]

/-- What holds of any two elements that are kept, in their order, holds of what is kept. -/
theorem pairwise_keep {R : β → β → Prop}
    (h : ∀ i j a b, i < j → l[i]? = some a → l[j]? = some b → i ∉ indices → j ∉ indices → R a b) :
    (keep indices l).Pairwise R := by
  unfold keep
  rw [List.pairwise_filterMap, List.pairwise_iff_getElem]
  intro i j hi hj hij b hb b' hb'
  rw [List.length_zipIdx] at hi hj
  simp only [List.getElem_zipIdx, Nat.zero_add] at hb hb'
  split at hb
  · cases hb
  split at hb'
  · cases hb'
  next hi' hj' =>
    cases hb
    cases hb'
    exact h i j _ _ hij (List.getElem?_eq_getElem hi) (List.getElem?_eq_getElem hj) hi' hj'

theorem forall₂_keep {R : β → γ → Prop} {l' : List γ} (h : List.Forall₂ R l l') :
    List.Forall₂ R (keep indices l) (keep indices l') := by
  unfold keep
  generalize 0 = n
  induction h generalizing n with
  | nil => exact .nil
  | @cons a b l l' hab _ ih =>
    rw [List.zipIdx_cons, List.zipIdx_cons]
    rw [List.filterMap_cons, List.filterMap_cons]
    by_cases hn : n ∈ indices
    · simp only [if_pos hn]
      exact ih (n + 1)
    · simp only [if_neg hn]
      exact .cons hab (ih (n + 1))

/-- The elements in one place of two lists that are related. -/
theorem forall₂_getElem? {R : β → γ → Prop} {l' : List γ} (h : List.Forall₂ R l l') (i : ℕ) :
    (l[i]? = none ∧ l'[i]? = none) ∨ ∃ a b, l[i]? = some a ∧ l'[i]? = some b ∧ R a b := by
  induction h generalizing i with
  | nil => exact Or.inl ⟨rfl, rfl⟩
  | @cons a b l l' hab _ ih =>
    cases i with
    | zero => exact Or.inr ⟨a, b, rfl, rfl, hab⟩
    | succ i => exact ih i

/-- A test of each element that returns lets `any` return. -/
theorem anyM_returns {f : β → Result Bool} (h : ∀ a ∈ l, ∃ b, f a = .ok b) :
    ∃ b, l.anyM f = .ok b := by
  induction l with
  | nil => exact ⟨false, rfl⟩
  | cons a l ih =>
    obtain ⟨b, hb⟩ := h a List.mem_cons_self
    obtain ⟨b', hb'⟩ := ih fun a ha => h a (List.mem_cons_of_mem _ ha)
    rw [List.anyM, hb, ok_bind]
    cases b with
    | true => exact ⟨true, rfl⟩
    | false => exact ⟨b', hb'⟩

end Keep

/-! ## The selections that are made -/

namespace Anchors

variable {a a' a'' : Anchors}

/-- The anchors of `a` are still there, where they were. -/
structure Extends (a a' : Anchors) : Prop where
  nextId_le : a.nextId ≤ a'.nextId
  get : ∀ id < a.nextId, a'.anchors.get id = a.anchors.get id

theorem Extends.rfl : a.Extends a := ⟨le_rfl, fun _ _ => Eq.refl _⟩

theorem Extends.trans (h : a.Extends a') (h' : a'.Extends a'') : a.Extends a'' where
  nextId_le := h.nextId_le.trans h'.nextId_le
  get := fun id hid => (h'.get id (hid.trans_le h.nextId_le)).trans (h.get id hid)

theorem extends_createAnchor (a : Anchors) (offset : ℕ) (side : AnchorSide) :
    a.Extends (a.createAnchor offset side).1 where
  nextId_le := Nat.le_succ _
  get := fun id hid => by
    show (a.anchors.insert _ _).get id = _
    rw [HashMap.get_insert, if_neg (by omega)]

theorem resolve_createAnchor (a : Anchors) (offset : ℕ) (side : AnchorSide) :
    (a.createAnchor offset side).1.resolve (a.createAnchor offset side).2 = some offset := by
  show ((a.anchors.insert _ _).get a.nextId).map (·.offset) = _
  rw [HashMap.get_insert, if_pos (Eq.refl _), Option.map_some]

theorem lt_nextId {anchor : Anchor} {offset : ℕ} (h : a.resolve anchor = some offset) :
    anchor.id < a.nextId := by
  obtain ⟨state, hstate, -⟩ := Option.map_eq_some_iff.mp h
  exact a.fresh _ _ hstate

theorem Extends.resolve {anchor : Anchor} {offset : ℕ} (h : a.Extends a')
    (hr : a.resolve anchor = some offset) : a'.resolve anchor = some offset := by
  rw [Anchors.resolve, h.get _ (lt_nextId hr)]
  exact hr

end Anchors

namespace BufferSelectionModel

open Anchors

variable {m m' : BufferSelectionModel}

/-- A selection's range is known exactly when its anchors exist. -/
theorem selectionToOffsetRange_eq_ok {selection : Selection} {r : Range ℕ} :
    m.selectionToOffsetRange selection = .ok r ↔
      ∃ head tail, m.resolveAnchor selection.head = some head ∧
        m.resolveAnchor selection.tail = some tail ∧
        (if head ≥ tail then (⟨tail, head⟩ : Range ℕ) else ⟨head, tail⟩) = r := by
  unfold selectionToOffsetRange
  cases m.resolveAnchor selection.head with
  | none => exact iff_of_false (fun h => nomatch h) fun ⟨_, _, h, _⟩ => nomatch h
  | some head =>
    cases m.resolveAnchor selection.tail with
    | none => exact iff_of_false (fun h => nomatch h) fun ⟨_, _, _, h, _⟩ => nomatch h
    | some tail =>
      simp only [unwrap_some, ok_bind]
      constructor
      · intro h
        exact ⟨head, tail, rfl, rfl, Except.ok.inj h⟩
      · rintro ⟨_, _, h, h', hr⟩
        cases h
        cases h'
        rw [hr]
        rfl

theorem proper_of_selectionToOffsetRange {selection : Selection} {r : Range ℕ}
    (h : m.selectionToOffsetRange selection = .ok r) : r.Proper := by
  obtain ⟨head, tail, -, -, rfl⟩ := selectionToOffsetRange_eq_ok.mp h
  unfold Range.Proper
  split
  · assumption
  · next hlt => exact (not_le.mp hlt).le

/-- A selection keeps its range when anchors are made. -/
theorem selectionToOffsetRange_extends (he : m.anchors.Extends m'.anchors) {selection : Selection}
    {r : Range ℕ} (h : m.selectionToOffsetRange selection = .ok r) :
    m'.selectionToOffsetRange selection = .ok r := by
  obtain ⟨head, tail, hh, ht, hr⟩ := selectionToOffsetRange_eq_ok.mp h
  exact selectionToOffsetRange_eq_ok.mpr ⟨head, tail, he.resolve hh, he.resolve ht, hr⟩

/-- What `create_selection` makes: two anchors that are new, where they were asked for. -/
theorem createSelection_spec (m : BufferSelectionModel) (head tail : ℕ) :
    (m.createSelection head tail).1.selections = m.selections ∧
    m.anchors.Extends (m.createSelection head tail).1.anchors ∧
    m.anchors.nextId ≤ (m.createSelection head tail).2.head.id ∧
    (m.createSelection head tail).1.selectionToOffsetRange (m.createSelection head tail).2 =
      .ok (if head ≥ tail then ⟨tail, head⟩ else ⟨head, tail⟩) := by
  have hhead := extends_createAnchor m.anchors head .right
  have htail := extends_createAnchor (m.anchors.createAnchor head .right).1 tail .right
  refine ⟨rfl, hhead.trans htail, le_rfl, ?_⟩
  refine selectionToOffsetRange_eq_ok.mpr ⟨head, tail, ?_, ?_, rfl⟩
  · exact htail.resolve (resolve_createAnchor m.anchors head .right)
  · exact resolve_createAnchor (m.anchors.createAnchor head .right).1 tail .right

/-- **One turn of the loop over the new ranges** makes one selection, of that range. -/
theorem pushRange_spec (forwards : Bool) (m : BufferSelectionModel) (acc : List Selection)
    {range : Range ℕ} (hr : range.Proper) :
    ∃ m' s, pushRange forwards (m, acc) range = (m', acc ++ [s]) ∧ m'.selections = m.selections ∧
      m.anchors.Extends m'.anchors ∧ m.anchors.nextId ≤ s.head.id ∧
      m'.selectionToOffsetRange s = .ok range := by
  cases forwards with
  | true =>
    obtain ⟨h1, h2, h3, h4⟩ := m.createSelection_spec range.stop range.start
    rw [if_pos (show range.stop ≥ range.start from hr)] at h4
    exact ⟨_, _, rfl, h1, h2, h3, h4⟩
  | false =>
    obtain ⟨h1, h2, h3, h4⟩ := m.createSelection_spec range.start range.stop
    refine ⟨_, _, rfl, h1, h2, h3, h4.trans ?_⟩
    split
    · next hge =>
      -- an empty range, made from its end to its start
      rw [show (⟨range.stop, range.start⟩ : Range ℕ) = ⟨range.start, range.stop⟩ by
        rw [le_antisymm hr hge]]
    · rfl

/-- The loop over the new ranges makes a selection of each. -/
theorem foldl_pushRange (forwards : Bool) {ranges : List (Range ℕ)} (hr : ∀ r ∈ ranges, r.Proper)
    (m : BufferSelectionModel) (acc : List Selection) :
    ∃ m' created, ranges.foldl (pushRange forwards) (m, acc) = (m', acc ++ created) ∧
      m'.selections = m.selections ∧ m.anchors.Extends m'.anchors ∧
      (∀ s ∈ created, m.anchors.nextId ≤ s.head.id) ∧
      List.Forall₂ (fun s r => m'.selectionToOffsetRange s = .ok r) created ranges := by
  induction ranges generalizing m acc with
  | nil => exact ⟨m, [], by rw [List.append_nil]; rfl, rfl, .rfl, (fun s hs => nomatch hs), .nil⟩
  | cons range ranges ih =>
    obtain ⟨m₁, s, hpush, hsel, hext, hid, hrange⟩ :=
      pushRange_spec forwards m acc (hr range List.mem_cons_self)
    obtain ⟨m', created, hfold, hsel', hext', hids, hranges⟩ :=
      ih (fun r hr' => hr r (List.mem_cons_of_mem _ hr')) m₁ (acc ++ [s])
    refine ⟨m', s :: created, ?_, hsel'.trans hsel, hext.trans hext', ?_, ?_⟩
    · rw [List.foldl_cons, hpush, hfold, List.append_assoc, List.singleton_append]
    · intro t ht
      rcases List.mem_cons.mp ht with rfl | ht
      · exact hid
      · exact hext.nextId_le.trans (hids t ht)
    · exact .cons (selectionToOffsetRange_extends hext' hrange) hranges

/-! ## What a merge does -/

variable {ranges : List (Range ℕ)}

theorem forall₂_ranges (h : m.selectionsToOffsetRanges = .ok ranges) :
    List.Forall₂ (fun s r => m.selectionToOffsetRange s = .ok r) m.selections.selections ranges :=
  mapM_eq_ok.mp h

theorem proper_of_ranges (h : m.selectionsToOffsetRanges = .ok ranges) :
    ∀ r ∈ ranges, r.Proper := by
  intro r hr
  obtain ⟨i, hi⟩ := List.mem_iff_getElem?.mp hr
  rcases forall₂_getElem? (forall₂_ranges h) i with ⟨-, hnone⟩ | ⟨s, r', -, hr', hs⟩
  · rw [hi] at hnone
    exact nomatch hnone
  · rw [hi] at hr'
    exact Option.some.inj hr' ▸ proper_of_selectionToOffsetRange hs

/-- **What `merge_overlapping_selections` does**: the selections in the places reported by
`overlapping_ranges` are replaced by a selection of each hull. -/
theorem mergeOverlappingSelections_spec (h : m.selectionsToOffsetRanges = .ok ranges) :
    ∃ m' created, m.mergeOverlappingSelections = .ok m' ∧
      m'.selections.selections =
        keep (overlappingRanges ranges).1 m.selections.selections ++ created ∧
      m.anchors.Extends m'.anchors ∧ (∀ s ∈ created, m.anchors.nextId ≤ s.head.id) ∧
      m'.selectionsToOffsetRanges =
        .ok (keep (overlappingRanges ranges).1 ranges ++ (overlappingRanges ranges).2) := by
  have hrep := overlappingRanges_spec (proper_of_ranges h)
  have hnil := hrep.ranges_eq_nil_iff fun r hr =>
    proper_of_ranges h r ((sortByStart_perm ranges).mem_iff.mp hr)
  have hf := forall₂_ranges h
  unfold mergeOverlappingSelections
  rw [h, ok_bind]
  generalize overlappingRanges ranges = reported at hrep hnil ⊢
  obtain ⟨indices, hulls⟩ := reported
  simp only at hrep hnil ⊢
  split
  · next hempty =>
    rw [List.isEmpty_iff] at hempty
    refine ⟨m, [], rfl, ?_, .rfl, (fun s hs => nomatch hs), ?_⟩
    · rw [hempty, keep_nil, List.append_nil]
    · rw [hnil.mpr hempty, hempty, keep_nil, List.append_nil, h]
  · next hsome =>
    obtain ⟨forwards, hforwards⟩ :
        ∃ b, m.selections.selections.zipIdx.anyM (m.isForwards indices) = .ok b := by
      refine anyM_returns fun e he => ?_
      unfold isForwards
      split
      · rcases forall₂_getElem? hf e.2 with ⟨hnone, -⟩ | ⟨s, r, hs, -, hr⟩
        · rw [List.mk_mem_zipIdx_iff_getElem?.mp he] at hnone
          exact nomatch hnone
        · rw [List.mk_mem_zipIdx_iff_getElem?.mp he] at hs
          obtain ⟨head, tail, hh, ht, -⟩ := selectionToOffsetRange_eq_ok.mp hr
          rw [selectionHead, selectionTail, Option.some.inj hs, hh, ht]
          exact ⟨_, rfl⟩
      · exact ⟨_, rfl⟩
    obtain ⟨m', created, hfold, hsel, hext, hids, hranges⟩ :=
      foldl_pushRange forwards hrep.proper m (keep indices m.selections.selections)
    have hcreated : created ≠ [] := by
      rintro rfl
      rw [List.isEmpty_iff] at hsome
      exact hsome (hnil.mp (List.forall₂_nil_left_iff.mp hranges))
    have hne : keep indices m.selections.selections ++ created ≠ [] := by
      intro hc
      exact hcreated (List.append_eq_nil_iff.mp hc).2
    refine ⟨{ m' with selections := ⟨_, hne⟩ }, created, ?_, rfl, hext, hids, ?_⟩
    · rw [hforwards, ok_bind, hfold]
      exact dif_pos hne
    · refine mapM_eq_ok.mpr (List.rel_append ?_ hranges)
      exact (forall₂_keep hf).imp fun s r hs => selectionToOffsetRange_extends hext hs

/-! ## When a merge yields the union -/

/-- The merge of selections with these ranges: the new ranges are apart, they cover what the old
ones did, with or without their ends, and a selection that touched no other one is kept. -/
structure Merged (m : BufferSelectionModel) (ranges : List (Range ℕ)) (m' : BufferSelectionModel)
    (ranges' : List (Range ℕ)) : Prop where
  apart : ranges'.Pairwise Apart
  chars : cover (fun r => Set.Ico r.start r.stop) ranges' =
    cover (fun r => Set.Ico r.start r.stop) ranges
  offsets : cover (fun r => Set.Icc r.start r.stop) ranges' =
    cover (fun r => Set.Icc r.start r.stop) ranges
  kept : ∀ i s, m.selections.selections[i]? = some s → ¬ TouchesOther ranges i →
    s ∈ m'.selections.selections ∧ m'.resolveAnchor s.head = m.resolveAnchor s.head ∧
      m'.resolveAnchor s.tail = m.resolveAnchor s.tail

/-- A range that touches another one is in a reported hull. -/
theorem subset_cover_of_touchesOther (hrep : Reported (sortByStart ranges)
    (overlappingRanges ranges).1 (overlappingRanges ranges).2) {f : Range ℕ → Set ℕ}
    (hf : Additive f) {i : ℕ} {r : Range ℕ} (hr : ranges[i]? = some r)
    (ht : TouchesOther ranges i) :
    f r ⊆ cover f (overlappingRanges ranges).2 := by
  obtain ⟨j, hj⟩ := List.mem_iff_getElem?.mp
    ((sortByStart_perm ranges).mem_iff.mpr (List.mem_of_getElem? hr))
  have htouch := ht.perm (sortByStart_perm ranges).symm (hr.trans hj.symm)
  intro p hp
  rw [hrep.cover f hf]
  exact ⟨j, (hrep.mem j).mpr htouch, r, hj, hp⟩

/-- What a reported hull covers is in a range that touches another one. -/
theorem cover_subset_of_touchesOther (hrep : Reported (sortByStart ranges)
    (overlappingRanges ranges).1 (overlappingRanges ranges).2) {f : Range ℕ → Set ℕ}
    (hf : Additive f) {p : ℕ} (hp : p ∈ cover f (overlappingRanges ranges).2) :
    ∃ i r, ranges[i]? = some r ∧ TouchesOther ranges i ∧ p ∈ f r := by
  rw [hrep.cover f hf] at hp
  obtain ⟨j, hj, r, hr, hp⟩ := hp
  obtain ⟨i, hi⟩ := List.mem_iff_getElem?.mp
    ((sortByStart_perm ranges).mem_iff.mp (List.mem_of_getElem? hr))
  exact ⟨i, r, hi, ((hrep.mem j).mp hj).perm (sortByStart_perm ranges) (Eq.trans hr hi.symm), hp⟩

section Places

variable {created : List Selection}
  (hf : List.Forall₂ (fun s r => m.selectionToOffsetRange s = .ok r) m.selections.selections ranges)
  (hrep : Reported (sortByStart ranges) (overlappingRanges ranges).1 (overlappingRanges ranges).2)
  (hsel : m'.selections.selections =
    keep (overlappingRanges ranges).1 m.selections.selections ++ created)
include hf hrep hsel

/-- A merge that yields the union keeps no selection that touches another one, and only those. -/
theorem places_of_merged (hproper : ∀ r ∈ ranges, r.Proper)
    (hids : ∀ s ∈ created, m.anchors.nextId ≤ s.head.id)
    (hmerged : Merged m ranges m'
      (keep (overlappingRanges ranges).1 ranges ++ (overlappingRanges ranges).2)) (i : ℕ) :
    TouchesOther ranges i ↔ i ∈ (overlappingRanges ranges).1 := by
  constructor
  · -- a selection that is kept is apart from the hulls
    intro ht
    by_contra hi
    obtain ⟨r, hr, -⟩ := id ht
    have hmem : r.start ∈ Set.Icc r.start r.stop := ⟨le_rfl, hproper r (List.mem_of_getElem? hr)⟩
    obtain ⟨hull, hhull, hmem'⟩ := subset_cover_of_touchesOther hrep additive_Icc hr ht hmem
    have hapart := (List.pairwise_append.mp hmerged.apart).2.2 r (mem_keep.mpr ⟨i, hr, hi⟩)
      hull hhull
    exact not_touches.mpr hapart (touches_of_mem hmem hmem')
  · -- a selection that is not kept is not among those that are made
    intro hi
    by_contra ht
    have hlt : i < ranges.length := by
      rw [← (sortByStart_perm ranges).length_eq]
      exact ((hrep.mem i).mp hi).lt
    rcases forall₂_getElem? hf i with ⟨-, hnone⟩ | ⟨s, r, hs, hr, hrange⟩
    · exact absurd hlt (not_lt.mpr (List.getElem?_eq_none_iff.mp hnone))
    obtain ⟨hmem, -⟩ := hmerged.kept i s hs ht
    rw [hsel] at hmem
    rcases List.mem_append.mp hmem with hmem | hmem
    · obtain ⟨j, hj, hji⟩ := mem_keep.mp hmem
      rcases forall₂_getElem? hf j with ⟨hnone, -⟩ | ⟨s', r', hs', hr', hrange'⟩
      · rw [hj] at hnone
        exact nomatch hnone
      rw [hj] at hs'
      cases hs'
      rw [hrange] at hrange'
      cases hrange'
      have hproper := hproper r (List.mem_of_getElem? hr)
      exact ht (.of_ne hr hr' (fun hij => hji (hij ▸ hi)) ⟨hproper, hproper⟩)
    · obtain ⟨head, tail, hhead, -, -⟩ := selectionToOffsetRange_eq_ok.mp hrange
      exact absurd (lt_nextId hhead) (not_lt.mpr (hids s hmem))

omit hf hsel in
/-- What a merge covers, if it keeps the selections that touch no other one. -/
theorem cover_keep_append (hkept : ∀ i, i ∉ (overlappingRanges ranges).1 ↔ ¬ TouchesOther ranges i)
    {f : Range ℕ → Set ℕ} (hadd : Additive f) :
    cover f (keep (overlappingRanges ranges).1 ranges ++ (overlappingRanges ranges).2) =
      cover f ranges := by
  ext p
  rw [cover_append]
  constructor
  · rintro (⟨r, hr, hp⟩ | hp)
    · obtain ⟨i, hi, -⟩ := mem_keep.mp hr
      exact ⟨r, List.mem_of_getElem? hi, hp⟩
    · obtain ⟨i, r, hr, -, hp⟩ := cover_subset_of_touchesOther hrep hadd hp
      exact ⟨r, List.mem_of_getElem? hr, hp⟩
  · rintro ⟨r, hr, hp⟩
    obtain ⟨i, hi⟩ := List.mem_iff_getElem?.mp hr
    by_cases ht : TouchesOther ranges i
    · exact Or.inr (subset_cover_of_touchesOther hrep hadd hi ht hp)
    · exact Or.inl ⟨r, mem_keep.mpr ⟨i, hi, (hkept i).mpr ht⟩, hp⟩

/-- A merge that keeps the selections that touch no other one yields the union. -/
theorem merged_of_places (hproper : ∀ r ∈ ranges, r.Proper)
    (hext : m.anchors.Extends m'.anchors)
    (hkept : ∀ i, i ∉ (overlappingRanges ranges).1 ↔ ¬ TouchesOther ranges i) :
    Merged m ranges m'
      (keep (overlappingRanges ranges).1 ranges ++ (overlappingRanges ranges).2) := by
  refine ⟨?_, cover_keep_append hrep hkept additive_Ico,
    cover_keep_append hrep hkept additive_Icc, ?_⟩
  · refine List.pairwise_append.mpr ⟨?_, hrep.pairwise.imp Or.inl, ?_⟩
    · refine pairwise_keep fun i j r s hij hr hs hi _ => ?_
      by_contra hapart
      exact (hkept i).mp hi (.of_ne hr hs hij.ne (not_not.mp (mt not_touches.mp hapart)))
    · intro r hr hull hhull
      obtain ⟨i, hi, hikept⟩ := mem_keep.mp hr
      by_contra hapart
      -- a place in both is in a range that touches another one
      obtain ⟨p, hp, hp'⟩ := (not_not.mp (mt not_touches.mp hapart)).exists_mem
        (hproper r (List.mem_of_getElem? hi)) (hrep.proper hull hhull)
      obtain ⟨j, s, hs, hj, hps⟩ :=
        cover_subset_of_touchesOther hrep additive_Icc ⟨hull, hhull, hp'⟩
      have hij : i ≠ j := fun hij => (hkept i).mp hikept (hij ▸ hj)
      exact (hkept i).mp hikept (.of_ne hi hs hij (touches_of_mem hp hps))
  · intro i s hs ht
    rcases forall₂_getElem? hf i with ⟨hnone, -⟩ | ⟨s', r, hs', -, hrange⟩
    · rw [hs] at hnone
      exact nomatch hnone
    rw [hs] at hs'
    cases hs'
    obtain ⟨head, tail, hhead, htail, -⟩ := selectionToOffsetRange_eq_ok.mp hrange
    refine ⟨?_, (hext.resolve hhead).trans hhead.symm, (hext.resolve htail).trans htail.symm⟩
    rw [hsel]
    exact List.mem_append_left _ (mem_keep.mpr ⟨i, hs, (hkept i).mpr ht⟩)

end Places

/-- **A merge yields the union exactly when the places of the selections that touch another one are
the places in the order of the starts.** -/
theorem merge_iff (h : m.selectionsToOffsetRanges = .ok ranges) :
    (∃ m' ranges', m.mergeOverlappingSelections = .ok m' ∧
      m'.selectionsToOffsetRanges = .ok ranges' ∧ Merged m ranges m' ranges') ↔
    ∀ i, TouchesOther ranges i ↔ TouchesOther (sortByStart ranges) i := by
  have hf := forall₂_ranges h
  have hproper := proper_of_ranges h
  have hrep := overlappingRanges_spec hproper
  obtain ⟨m', created, hmerge, hsel, hext, hids, hranges⟩ := mergeOverlappingSelections_spec h
  constructor
  · rintro ⟨m'', ranges', hm', hranges', hmerged⟩ i
    rw [hmerge] at hm'
    obtain rfl := Except.ok.inj hm'
    rw [hranges] at hranges'
    obtain rfl := Except.ok.inj hranges'
    rw [← hrep.mem i]
    exact places_of_merged hf hrep hsel hproper hids hmerged i
  · intro hplaces
    refine ⟨m', _, hmerge, hranges, merged_of_places hf hrep hsel hproper hext fun i => ?_⟩
    rw [hrep.mem i, hplaces i]

/-! ## Three selections -/

/-- A model with one selection. -/
def single (head tail : ℕ) : BufferSelectionModel where
  selections := ⟨[.new ⟨0⟩ ⟨1⟩], List.cons_ne_nil _ _⟩
  anchors := ((Anchors.new.createAnchor head .right).1.createAnchor tail .right).1

/-- `create_selection` and `SelectionSet::push`. -/
def select (m : BufferSelectionModel) (head tail : ℕ) : BufferSelectionModel :=
  let (m, selection) := m.createSelection head tail
  { m with
    selections.selections := m.selections.selections ++ [selection]
    selections.nonempty := List.append_ne_nil_of_right_ne_nil _ (List.cons_ne_nil _ _) }

/-- Selections in the order of their starts are merged as they should be. -/
theorem merge_inOrder : ∃ m' ranges',
    (((single 5 1).select 7 3).select 10 8).mergeOverlappingSelections = .ok m' ∧
      m'.selectionsToOffsetRanges = .ok ranges' ∧
      Merged (((single 5 1).select 7 3).select 10 8) [⟨1, 5⟩, ⟨3, 7⟩, ⟨8, 10⟩] m' ranges' :=
  (merge_iff rfl).mpr fun i => by
    have hsorted : sortByStart ([⟨1, 5⟩, ⟨3, 7⟩, ⟨8, 10⟩] : List (Range ℕ)) =
        [⟨1, 5⟩, ⟨3, 7⟩, ⟨8, 10⟩] := by cbv
    rw [hsorted]

/-- **The selection made between two that overlap is lost**, and what is left overlaps. -/
theorem merge_loses_selection : ∃ m ranges m' ranges', m.selectionsToOffsetRanges = .ok ranges ∧
    m.mergeOverlappingSelections = .ok m' ∧ m'.selectionsToOffsetRanges = .ok ranges' ∧
    ¬ Merged m ranges m' ranges' := by
  have h : (((single 5 1).select 10 8).select 7 3).selectionsToOffsetRanges =
      .ok [⟨1, 5⟩, ⟨8, 10⟩, ⟨3, 7⟩] := rfl
  obtain ⟨m', created, hmerge, -, -, -, hranges⟩ := mergeOverlappingSelections_spec h
  rw [show overlappingRanges ([⟨1, 5⟩, ⟨8, 10⟩, ⟨3, 7⟩] : List (Range ℕ)) =
    ([0, 1], [⟨1, 7⟩]) by cbv] at hranges
  refine ⟨_, _, m', _, h, hmerge, hranges, fun hmerged => ?_⟩
  exact absurd hmerged.apart (by decide)

end BufferSelectionModel

end Clinch.Editor
