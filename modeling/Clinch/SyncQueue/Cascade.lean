import Clinch.SyncQueue.Queue
import Mathlib.Tactic.Common

/-!
# What fails with an item

When an item fails, `handle_dependency_failure` takes the items out of the queue that depend on it,
announces their failure, and goes on with what depends on them.

* `WellFormed`: the ids of the queue are fresh, in order, and not in flight;
* `Dependent`: the transitive dependents;
* `withdraw`: queued items leave the queue, each with an event;
* `handleDependencyFailure_spec`: exactly the transitive dependents leave, each with one event.
-/

set_option autoImplicit false

namespace Clinch

def SyncQueueEvent.isFailure : SyncQueueEvent → Bool
  | objectCreationFailure _ => true
  | objectUpdateFailure _ => true
  | reportObjectActionFailed .. => true
  | _ => false

/-- An item that is inferred no dependencies. -/
def QueueItem.isPlain (item : QueueItem) : Bool := item.updated = none ∧ item.model = none

namespace SyncQueue

/-- The ids of the queued items. -/
def queued (s : SyncQueue) : List QueueItemId := s.queue.map Prod.fst

/-- The ids of the requests in flight. -/
def inFlight (s : SyncQueue) : List QueueItemId := s.spawned.map Prod.fst

theorem mem_queued {s : SyncQueue} {id : QueueItemId} :
    id ∈ s.queued ↔ ∃ item, (id, item) ∈ s.queue := by
  simp [queued]

structure WellFormed (s : SyncQueue) : Prop where
  sorted : s.queued.Pairwise (· < ·)
  queued_lt : ∀ id ∈ s.queued, id < s.nextId
  inFlight_lt : ∀ id ∈ s.inFlight, id < s.nextId
  inFlight_nodup : s.inFlight.Nodup
  waiting_lt : ∀ uid, ∀ id ∈ s.waitingResponse uid, id < s.nextId
  bulk_lt : ∀ id, s.inFlightBulkCreateObjects id ≠ none → id < s.nextId
  dependency_lt : ∀ id dependencies, s.queueDependencies id = some dependencies →
    ∀ d ∈ dependencies, d.item < s.nextId
  queued_of_dependencies : ∀ id, s.queueDependencies id ≠ none → id ∈ s.queued
  plain : ∀ id item dependencies, (id, item) ∈ s.queue → item.isPlain = true →
    s.queueDependencies id = some dependencies → dependencies = ∅
  /-- A queued item was not sent. -/
  idle : ∀ id ∈ s.queued, (∀ uid, id ∉ s.waitingResponse uid) ∧
    s.inFlightBulkCreateObjects id = none ∧ id ∉ s.inFlight

/-! ## Leaving the queue -/

/-- Items leave the queue, each with an event. -/
def withdraw (l : List (QueueItemId × SyncQueueEvent)) (s : SyncQueue) : SyncQueue :=
  { s with
    queue := s.queue.filter fun e => e.1 ∉ l.map Prod.fst
    queueDependencies := fun id => if id ∈ l.map Prod.fst then none else s.queueDependencies id
    log := s.log ++ l.map fun e => .event e.1 e.2 }

/-- A queued item leaves the queue. -/
def drop (id : QueueItemId) (s : SyncQueue) : SyncQueue :=
  { s.removeIdFromQueue id with
    queueDependencies := Function.update s.queueDependencies id none }

variable {s : SyncQueue} {d : QueueDependency} {id : QueueItemId}

theorem withdraw_nil (s : SyncQueue) : s.withdraw [] = s := by
  ext1 <;> simp [withdraw]

theorem removeIdFromQueue_withdraw {l : List (QueueItemId × SyncQueueEvent)}
    (h : id ∈ l.map Prod.fst) : (s.withdraw l).removeIdFromQueue id = s.withdraw l := by
  ext1
  · rw [removeIdFromQueue, withdraw]
    simp only
    rw [List.filter_filter]
    refine List.filter_congr fun e _ => ?_
    by_cases he : e.1 = id
    · simp [he, h]
    · simp [he]
  all_goals rfl

theorem withdraw_drop (l l' : List (QueueItemId × SyncQueueEvent)) (id : QueueItemId)
    (event : SyncQueueEvent) (s : SyncQueue) :
    (((s.withdraw l).drop id).withdraw l').emit id event = s.withdraw (l ++ l' ++ [(id, event)]) := by
  ext1
  · rw [emit, write, withdraw, drop, removeIdFromQueue, withdraw, withdraw]
    simp only [List.filter_filter]
    refine List.filter_congr fun e _ => ?_
    simp only [List.map_append, List.mem_append, List.map_cons, List.map_nil, List.mem_singleton]
    by_cases he : e.1 = id
    · simp [he]
    · simp [he, Bool.and_comm]
  any_goals rfl
  · funext id'
    rw [emit, write, withdraw, drop, withdraw, withdraw]
    simp only [List.map_append, List.mem_append, List.map_cons, List.map_nil, List.mem_singleton,
      Function.update_apply]
    by_cases he : id' = id
    · simp [he]
    · simp only [he, or_false, if_false]
      split <;> split <;> simp_all
  · rw [emit, write, withdraw, drop, removeIdFromQueue, withdraw, withdraw]
    simp

theorem mem_drop_queued {id' : QueueItemId} :
    id' ∈ (s.drop id).queued ↔ id' ∈ s.queued ∧ id' ≠ id := by
  simp only [mem_queued, drop, removeIdFromQueue, List.mem_filter, decide_eq_true_eq]
  exact exists_and_right

theorem mem_withdraw_queued {l : List (QueueItemId × SyncQueueEvent)} {id' : QueueItemId} :
    id' ∈ (s.withdraw l).queued ↔ id' ∈ s.queued ∧ id' ∉ l.map Prod.fst := by
  simp only [mem_queued, withdraw, List.mem_filter, decide_eq_true_eq]
  exact exists_and_right

theorem queueDependencies_drop (id id' : QueueItemId) (s : SyncQueue) :
    (s.drop id).queueDependencies id' = if id' = id then none else s.queueDependencies id' := by
  rw [drop]
  exact Function.update_apply _ _ _ _

/-- A queue that lost items stays well formed. -/
theorem WellFormed.sub {s' : SyncQueue} (h : s.WellFormed) (hq : s'.queue.Sublist s.queue)
    (hd : ∀ id, s'.queueDependencies id = s.queueDependencies id ∧ (id ∈ s.queued → id ∈ s'.queued) ∨
      s'.queueDependencies id = none)
    (hw : s'.waitingResponse = s.waitingResponse)
    (hb : s'.inFlightBulkCreateObjects = s.inFlightBulkCreateObjects)
    (hs : s'.spawned = s.spawned) (hn : s'.nextId = s.nextId) : s'.WellFormed := by
  have hsub : s'.queued.Sublist s.queued := hq.map Prod.fst
  have hi : s'.inFlight = s.inFlight := congrArg (List.map Prod.fst) hs
  have hdep : ∀ id dependencies, s'.queueDependencies id = some dependencies →
      s.queueDependencies id = some dependencies := by
    intro id dependencies hid
    rcases hd id with hd | hd
    · rw [← hd.1, hid]
    · rw [hd] at hid
      exact nomatch hid
  constructor
  · exact h.sorted.sublist hsub
  · rw [hn]
    exact fun id hid => h.queued_lt id (hsub.subset hid)
  · rw [hn, hi]
    exact h.inFlight_lt
  · rw [hi]
    exact h.inFlight_nodup
  · rw [hn, hw]
    exact h.waiting_lt
  · rw [hn, hb]
    exact h.bulk_lt
  · rw [hn]
    exact fun id dependencies hid => h.dependency_lt id dependencies (hdep id dependencies hid)
  · intro id hid
    rcases hd id with hd | hd
    · rw [hd.1] at hid
      exact hd.2 (h.queued_of_dependencies id hid)
    · exact absurd hd hid
  · exact fun id item dependencies hmem hp hid =>
      h.plain id item dependencies (hq.subset hmem) hp (hdep id dependencies hid)
  · rw [hw, hb, hi]
    exact fun id hid => h.idle id (hsub.subset hid)

theorem WellFormed.drop (h : s.WellFormed) (id : QueueItemId) : (s.drop id).WellFormed := by
  refine h.sub List.filter_sublist (fun id' => ?_) rfl rfl rfl rfl
  rw [queueDependencies_drop]
  by_cases he : id' = id
  · exact Or.inr (if_pos he)
  · exact Or.inl ⟨if_neg he, fun hid => mem_drop_queued.mpr ⟨hid, he⟩⟩

theorem WellFormed.withdraw (h : s.WellFormed) (l : List (QueueItemId × SyncQueueEvent)) :
    (s.withdraw l).WellFormed := by
  refine h.sub List.filter_sublist (fun id' => ?_) rfl rfl rfl rfl
  by_cases he : id' ∈ l.map Prod.fst
  · exact Or.inr (if_pos he)
  · exact Or.inl ⟨if_neg he, fun hid => mem_withdraw_queued.mpr ⟨hid, he⟩⟩

/-! ## The transitive dependents -/

inductive Dependent (s : SyncQueue) (d : QueueDependency) : QueueItemId → Prop
  | direct {id : QueueItemId} {dependencies : Finset QueueDependency} :
    s.queueDependencies id = some dependencies → d ∈ dependencies → Dependent s d id
  | through {id id' : QueueItemId} {dependencies : Finset QueueDependency} : Dependent s d id' →
    s.queueDependencies id = some dependencies → .queueItem id' ∈ dependencies → Dependent s d id

theorem Dependent.queueDependencies (h : s.Dependent d id) :
    ∃ dependencies, s.queueDependencies id = some dependencies := by
  cases h with
  | direct hd _ => exact ⟨_, hd⟩
  | through _ hd _ => exact ⟨_, hd⟩

/-- What the cascade withdraws. -/
structure Withdrawn (s : SyncQueue) (d : QueueDependency)
    (l : List (QueueItemId × SyncQueueEvent)) : Prop where
  nodup : (l.map Prod.fst).Nodup
  mem : ∀ id, id ∈ l.map Prod.fst ↔ s.Dependent d id
  failure : ∀ e ∈ l, e.2.isFailure = true

theorem stopWaiting_eq_self {uid : SyncId} (h : id ∉ s.waitingResponse uid) :
    s.stopWaiting uid id = s := by
  rw [stopWaiting, Finset.erase_eq_of_notMem h, Function.update_eq_self]

/-- The failure of a queued item is announced once, behind what `fail` does with its dependents. -/
theorem failItem_eq (fail : QueueDependency → SyncQueue → SyncQueue) {item : QueueItem}
    (hp : item.isPlain = false) (hw : ∀ uid, id ∉ s.waitingResponse uid)
    (hb : s.inFlightBulkCreateObjects id = none) :
    ∃ event : SyncQueueEvent, event.isFailure = true ∧
      s.failItem fail id item = (fail (.queueItem id) s).emit id event := by
  have hstop : ∀ uid, s.stopWaiting uid id = s := fun uid => stopWaiting_eq_self (hw uid)
  have hupdate : ∀ syncId, ∃ event : SyncQueueEvent, event.isFailure = true ∧
      s.handleUpdateFailureResponse fail syncId id = (fail (.queueItem id) s).emit id event := by
    intro syncId
    refine ⟨.objectUpdateFailure (s.updatedSyncId syncId), rfl, ?_⟩
    rw [handleUpdateFailureResponse, hstop]
  cases item with
  | createObject => exact nomatch hp
  | bulkCreateGenericStringObjects => exact nomatch hp
  | recordObjectAction => exact nomatch hp
  | createWorkflow objectType clientId model content initialFolderId initiatedBy =>
    refine ⟨.objectCreationFailure (.other (.client clientId) initiatedBy), rfl, ?_⟩
    rw [failItem, handleCreationFailureResponse, handleCreationFailure, hstop,
      creationDependencyForId, creationDependencyForClientId, hb]
  | updateWorkflow model syncId revision => exact hupdate syncId
  | updateFolder syncId content => exact hupdate syncId
  | update kind syncId content revision => exact hupdate syncId

/-- What was withdrawn so far is closed under dependence. -/
structure Partial (s : SyncQueue) (d : QueueDependency) (l : List (QueueItemId × SyncQueueEvent)) :
    Prop where
  nodup : (l.map Prod.fst).Nodup
  dependent : ∀ id ∈ l.map Prod.fst, s.Dependent d id
  closed : ∀ id' ∈ l.map Prod.fst, ∀ id dependencies, s.queueDependencies id = some dependencies →
    .queueItem id' ∈ dependencies → id ∈ l.map Prod.fst
  failure : ∀ e ∈ l, e.2.isFailure = true

theorem Partial.nil : s.Partial d [] :=
  ⟨List.nodup_nil, List.forall_mem_nil _, List.forall_mem_nil _, List.forall_mem_nil _⟩

/-- The dependents of what is withdrawn next were dependents before. -/
theorem dependent_of_drop {l : List (QueueItemId × SyncQueueEvent)} {id' : QueueItemId}
    (hid : s.Dependent d id) (h : ((s.withdraw l).drop id).Dependent (.queueItem id) id') :
    s.Dependent d id' ∧ id' ≠ id ∧ id' ∉ l.map Prod.fst := by
  have hdep : ∀ id' dependencies, ((s.withdraw l).drop id).queueDependencies id' = some dependencies →
      s.queueDependencies id' = some dependencies ∧ id' ≠ id ∧ id' ∉ l.map Prod.fst := by
    intro id' dependencies hid'
    rw [queueDependencies_drop, withdraw] at hid'
    simp only at hid'
    split at hid'
    · exact nomatch hid'
    split at hid'
    · exact nomatch hid'
    exact ⟨hid', ‹_›, ‹_›⟩
  induction h with
  | direct hd hmem =>
    obtain ⟨hd, hne, hl⟩ := hdep _ _ hd
    exact ⟨.through hid hd hmem, hne, hl⟩
  | through _ hd hmem ih =>
    obtain ⟨hd, hne, hl⟩ := hdep _ _ hd
    exact ⟨.through ih.1 hd hmem, hne, hl⟩

theorem Partial.step {l l' : List (QueueItemId × SyncQueueEvent)} (h : s.Partial d l)
    (hid : s.Dependent d id) (hnew : id ∉ l.map Prod.fst)
    (h' : ((s.withdraw l).drop id).Withdrawn (.queueItem id) l') {event : SyncQueueEvent}
    (hevent : event.isFailure = true) : s.Partial d (l ++ l' ++ [(id, event)]) := by
  have hids : (l ++ l' ++ [(id, event)]).map Prod.fst =
      l.map Prod.fst ++ l'.map Prod.fst ++ [id] := by simp
  have hl' : ∀ id' ∈ l'.map Prod.fst, s.Dependent d id' ∧ id' ≠ id ∧ id' ∉ l.map Prod.fst :=
    fun id' hmem => dependent_of_drop hid ((h'.mem id').mp hmem)
  -- what is left in the queue behind `id` still has its dependencies
  have hleft : ∀ id₁ dependencies, s.queueDependencies id₁ = some dependencies →
      id₁ ∉ l.map Prod.fst → id₁ ≠ id →
      ((s.withdraw l).drop id).queueDependencies id₁ = some dependencies := by
    intro id₁ dependencies hd hmem hne
    rw [queueDependencies_drop, if_neg hne]
    exact (if_neg hmem).trans hd
  constructor
  · rw [hids, List.nodup_append', List.nodup_append']
    refine ⟨⟨h.nodup, h'.nodup, ?_⟩, List.nodup_singleton id, ?_⟩
    · exact fun id' hmem hmem' => (hl' id' hmem').2.2 hmem
    · intro id' hmem hmem'
      obtain rfl := List.mem_singleton.mp hmem'
      rcases List.mem_append.mp hmem with hmem | hmem
      · exact hnew hmem
      · exact (hl' id' hmem).2.1 rfl
  · intro id' hmem
    rw [hids, List.mem_append, List.mem_append, List.mem_singleton] at hmem
    rcases hmem with (hmem | hmem) | rfl
    · exact h.dependent id' hmem
    · exact (hl' id' hmem).1
    · exact hid
  · intro id' hmem id₁ dependencies hd hdep
    rw [hids, List.mem_append, List.mem_append, List.mem_singleton] at hmem ⊢
    by_cases hl : id₁ ∈ l.map Prod.fst
    · exact Or.inl (Or.inl hl)
    by_cases he : id₁ = id
    · exact Or.inr he
    refine Or.inl (Or.inr ((h'.mem id₁).mpr ?_))
    have hd' := hleft id₁ dependencies hd hl he
    rcases hmem with (hmem | hmem) | rfl
    · exact absurd (h.closed id' hmem id₁ dependencies hd hdep) hl
    · exact .through ((h'.mem id').mp hmem) hd' hdep
    · exact .direct hd' hdep
  · intro e hmem
    rw [List.mem_append, List.mem_append, List.mem_singleton] at hmem
    rcases hmem with (hmem | hmem) | rfl
    · exact h.failure e hmem
    · exact h'.failure e hmem
    · exact hevent

theorem mem_dependentObjects {e : QueueItemId × QueueItem} (h : e ∈ s.dependentObjects d) :
    e ∈ s.queue ∧ ∃ dependencies, s.queueDependencies e.1 = some dependencies ∧ d ∈ dependencies := by
  rw [dependentObjects, List.mem_filter, Option.any_eq_true] at h
  obtain ⟨hq, dependencies, hd, hmem⟩ := h
  exact ⟨hq, dependencies, hd, of_decide_eq_true hmem⟩

/-- The loop over the direct dependents. -/
theorem cascade_fold {fail : QueueDependency → SyncQueue → SyncQueue} (h : s.WellFormed)
    (hfail : ∀ t : SyncQueue, t.WellFormed → t.queue.length < s.queue.length → ∀ d,
      ∃ l, fail d t = t.withdraw l ∧ t.Withdrawn d l)
    (es : List (QueueItemId × QueueItem)) (hes : ∀ e ∈ es, e ∈ s.dependentObjects d) :
    ∃ l, es.foldl (fun s e =>
      let s := s.removeIdFromQueue e.1
      if s.queueDependencies e.1 = none then s
      else ({ s with queueDependencies := Function.update s.queueDependencies e.1 none }).failItem
        fail e.1 e.2) s = s.withdraw l ∧ s.Partial d l ∧ ∀ e ∈ es, e.1 ∈ l.map Prod.fst := by
  induction es using List.reverseRecOn with
  | nil => exact ⟨[], (withdraw_nil s).symm, .nil, List.forall_mem_nil _⟩
  | append_singleton es e ih =>
    obtain ⟨l, hl, hpart, hall⟩ := ih fun e' he' => hes e' (List.mem_append_left _ he')
    obtain ⟨hq, dependencies, hd, hmem⟩ :=
      mem_dependentObjects (hes e (List.mem_append_right _ (List.mem_singleton_self e)))
    rw [List.foldl_append, hl]
    simp only [List.foldl_cons, List.foldl_nil]
    have hdeps : ((s.withdraw l).removeIdFromQueue e.1).queueDependencies e.1 =
        if e.1 ∈ l.map Prod.fst then none else s.queueDependencies e.1 := rfl
    by_cases hold : e.1 ∈ l.map Prod.fst
    · rw [hdeps, if_pos hold, if_pos rfl, removeIdFromQueue_withdraw hold]
      refine ⟨l, rfl, hpart, fun e' he' => ?_⟩
      rcases List.mem_append.mp he' with he' | he'
      · exact hall e' he'
      · obtain rfl := List.mem_singleton.mp he'
        exact hold
    rw [hdeps, if_neg hold, hd, if_neg (Option.some_ne_none _)]
    change ∃ l', ((s.withdraw l).drop e.1).failItem fail e.1 e.2 = s.withdraw l' ∧ _
    have hwf : ((s.withdraw l).drop e.1).WellFormed := (h.withdraw l).drop e.1
    have hlen : ((s.withdraw l).drop e.1).queue.length < s.queue.length := by
      have hsub : ((s.withdraw l).drop e.1).queue.Sublist s.queue :=
        List.filter_sublist.trans List.filter_sublist
      refine lt_of_le_of_ne hsub.length_le fun heq => ?_
      have hnot := (mem_drop_queued (s := s.withdraw l)).mp
        (mem_queued.mpr ⟨e.2, (hsub.eq_of_length heq).symm ▸ hq⟩)
      exact hnot.2 rfl
    have hplain : e.2.isPlain = false := by
      rw [← Bool.not_eq_true]
      intro hp
      rw [h.plain e.1 e.2 dependencies hq hp hd] at hmem
      exact absurd hmem (Finset.notMem_empty d)
    obtain ⟨hw, hb, -⟩ := h.idle e.1 (mem_queued.mpr ⟨e.2, hq⟩)
    obtain ⟨event, hevent, heq⟩ := failItem_eq (s := (s.withdraw l).drop e.1) fail hplain hw hb
    obtain ⟨l', hl', hspec⟩ := hfail _ hwf hlen (.queueItem e.1)
    refine ⟨l ++ l' ++ [(e.1, event)], ?_, hpart.step (.direct hd hmem) hold hspec hevent, ?_⟩
    · rw [heq, hl', withdraw_drop]
    · intro e' he'
      rcases List.mem_append.mp he' with he' | he'
      · simp [hall e' he']
      · simp [List.mem_singleton.mp he']

theorem handleDependencyFailureN_spec (n : ℕ) (h : s.WellFormed) (hn : s.queue.length ≤ n)
    (d : QueueDependency) : ∃ l, s.handleDependencyFailureN n d = s.withdraw l ∧ s.Withdrawn d l := by
  induction n generalizing s d with
  | zero =>
    have hq : s.queued = [] := by
      rw [queued, List.eq_nil_of_length_eq_zero (Nat.le_zero.mp hn), List.map_nil]
    refine ⟨[], (withdraw_nil s).symm, List.nodup_nil,
      fun id => ⟨fun h => absurd h List.not_mem_nil, fun hd => ?_⟩, List.forall_mem_nil _⟩
    obtain ⟨dependencies, hd⟩ := hd.queueDependencies
    have hmem := h.queued_of_dependencies id (by rw [hd]; exact Option.some_ne_none _)
    rw [hq] at hmem
    exact nomatch hmem
  | succ n ih =>
    obtain ⟨l, hl, hpart, hall⟩ := cascade_fold h
      (fun t ht hlt d => ih ht (Nat.lt_succ_iff.mp (hlt.trans_le hn)) d) (s.dependentObjects d)
      fun _ he => he
    refine ⟨l, hl, hpart.nodup, fun id => ⟨hpart.dependent id, fun hd => ?_⟩, hpart.failure⟩
    induction hd with
    | direct hd hmem =>
      obtain ⟨item, hq⟩ := mem_queued.mp
        (h.queued_of_dependencies _ (by rw [hd]; exact Option.some_ne_none _))
      refine hall (_, item) (List.mem_filter.mpr ⟨hq, ?_⟩)
      rw [hd]
      exact decide_eq_true hmem
    | through _ hd hmem ih => exact hpart.closed _ ih _ _ hd hmem

/-- **The failure of an item withdraws exactly its transitive dependents, each with one failure.** -/
theorem handleDependencyFailure_spec (h : s.WellFormed) (d : QueueDependency) :
    ∃ l, s.handleDependencyFailure d = s.withdraw l ∧ s.Withdrawn d l :=
  handleDependencyFailureN_spec _ h le_rfl d

end SyncQueue

end Clinch
