import Clinch.SyncQueue.Enqueue
import Mathlib.Algebra.Group.Pi.Basic
import Mathlib.Algebra.Ring.Int.Defs
import Mathlib.Tactic.Ring

/-!
# The answers of the server

What the queue does between sending one item and the next: an answer settles a request, the failure of
an item withdraws its dependents, and each item that is finished is announced.

* `WellFormed.weaken`: the steps of an answer keep the queue well formed;
* `tally`, `ledger`: the announcements of an item, and one more while it is queued or in flight;
* `Quiet`: nothing is sent, what is not awaited any more was answered, and the ledger changes by a mark;
* `Quiet.settleSuccess`, `Quiet.handleCreationFailureResponse`: the answers are quiet.
-/

set_option autoImplicit false

namespace Clinch

namespace SyncQueue

variable {s : SyncQueue} {id : QueueItemId}

/-- The object has its server id. -/
def link (clientId : ClientId) (serverId : ServerId) (s : SyncQueue) : SyncQueue :=
  { s with
    clientIdToServer := Function.update s.clientIdToServer clientId (some serverId)
    serverIdToClientHash := Function.update s.serverIdToClientHash serverId (some clientId) }

/-! ## Well-formedness -/

/-- Nothing that the queue has gets more. -/
theorem WellFormed.weaken {s' : SyncQueue} (h : s.WellFormed) (hq : s'.queued = s.queued)
    (hp : ∀ id item', (id, item') ∈ s'.queue →
      ∃ item, (id, item) ∈ s.queue ∧ item.isPlain = item'.isPlain)
    (hd : ∀ id dependencies', s'.queueDependencies id = some dependencies' →
      ∃ dependencies, s.queueDependencies id = some dependencies ∧ dependencies' ⊆ dependencies)
    (hw : ∀ uid, s'.waitingResponse uid ⊆ s.waitingResponse uid)
    (hb : ∀ id, s'.inFlightBulkCreateObjects id ≠ none → s.inFlightBulkCreateObjects id ≠ none)
    (hs : s'.spawned.Sublist s.spawned) (hn : s'.nextId = s.nextId) : s'.WellFormed := by
  have hi : s'.inFlight.Sublist s.inFlight := hs.map Prod.fst
  constructor
  · rw [hq]
    exact h.sorted
  · rw [hq, hn]
    exact h.queued_lt
  · rw [hn]
    exact fun id hid => h.inFlight_lt id (hi.subset hid)
  · exact h.inFlight_nodup.sublist hi
  · rw [hn]
    exact fun uid id hid => h.waiting_lt uid id (hw uid hid)
  · rw [hn]
    exact fun id hid => h.bulk_lt id (hb id hid)
  · rw [hn]
    intro id dependencies' hid d hmem
    obtain ⟨dependencies, hid, hsub⟩ := hd id dependencies' hid
    exact h.dependency_lt id dependencies hid d (hsub hmem)
  · intro id hid
    obtain ⟨dependencies', hid⟩ := Option.ne_none_iff_exists'.mp hid
    obtain ⟨dependencies, hid, -⟩ := hd id dependencies' hid
    rw [hq]
    exact h.queued_of_dependencies id (by rw [hid]; exact Option.some_ne_none _)
  · intro id item' dependencies' hmem hplain hid
    obtain ⟨item, hmem, hsame⟩ := hp id item' hmem
    obtain ⟨dependencies, hid, hsub⟩ := hd id dependencies' hid
    rw [h.plain id item dependencies hmem (hsame ▸ hplain) hid] at hsub
    exact Finset.subset_empty.mp hsub
  · intro id hid
    rw [hq] at hid
    obtain ⟨hw', hb', hs'⟩ := h.idle id hid
    exact ⟨fun uid hmem => hw' uid (hw uid hmem), by_contra fun hne => hb id hne hb',
      fun hmem => hs' (hi.subset hmem)⟩

theorem mem_waiting_stopWaiting {uid uid' : SyncId} {id' : QueueItemId} :
    id' ∈ (s.stopWaiting uid id).waitingResponse uid' ↔
      id' ∈ s.waitingResponse uid' ∧ (uid' = uid → id' ≠ id) := by
  simp only [stopWaiting, Function.update_apply]
  by_cases h : uid' = uid
  · subst h
    rw [if_pos rfl, Finset.mem_erase]
    simp [and_comm]
  · simp [h]

theorem queueDependencies_success {d : QueueDependency} {id' : QueueItemId}
    {dependencies' : Finset QueueDependency} :
    (s.handleDependencySuccess d).queueDependencies id' = some dependencies' ↔
      ∃ dependencies, s.queueDependencies id' = some dependencies ∧
        dependencies.erase d = dependencies' := Option.map_eq_some_iff

theorem WellFormed.success (h : s.WellFormed) (d : QueueDependency) :
    (s.handleDependencySuccess d).WellFormed := by
  refine h.weaken rfl (fun id item hmem => ⟨item, hmem, rfl⟩) (fun id dependencies' hid => ?_)
    (fun _ => Finset.Subset.refl _) (fun _ hb => hb) (List.Sublist.refl _) rfl
  obtain ⟨dependencies, hsome, rfl⟩ := queueDependencies_success.mp hid
  exact ⟨dependencies, hsome, Finset.erase_subset _ _⟩

theorem WellFormed.stopWaiting (h : s.WellFormed) (uid : SyncId) (id : QueueItemId) :
    (s.stopWaiting uid id).WellFormed :=
  h.weaken rfl (fun _ item hmem => ⟨item, hmem, rfl⟩)
    (fun _ dependencies hid => ⟨dependencies, hid, Finset.Subset.refl _⟩)
    (fun _ _ hmem => (mem_waiting_stopWaiting.mp hmem).1) (fun _ hb => hb) (List.Sublist.refl _) rfl

theorem WellFormed.finish (h : s.WellFormed) (id : QueueItemId) : (s.finish id).WellFormed :=
  h.weaken rfl (fun _ item hmem => ⟨item, hmem, rfl⟩)
    (fun _ dependencies hid => ⟨dependencies, hid, Finset.Subset.refl _⟩)
    (fun _ => Finset.Subset.refl _) (fun _ hb => hb) List.filter_sublist rfl

theorem WellFormed.link (h : s.WellFormed) (clientId : ClientId) (serverId : ServerId) :
    (s.link clientId serverId).WellFormed := { h with }

/-- The items change, and stay the items that they are. -/
theorem WellFormed.mapQueue (h : s.WellFormed) (f : QueueItemId × QueueItem → QueueItem)
    (hf : ∀ e, (f e).isPlain = e.2.isPlain) :
    ({ s with queue := s.queue.map fun e => (e.1, f e) } : SyncQueue).WellFormed := by
  refine h.weaken ?_ (fun id item' hmem => ?_)
    (fun id dependencies hid => ⟨dependencies, hid, Finset.Subset.refl _⟩)
    (fun _ => Finset.Subset.refl _) (fun _ hb => hb) (List.Sublist.refl _) rfl
  · rw [queued, queued, List.map_map]
    rfl
  · obtain ⟨e, he, heq⟩ := List.mem_map.mp hmem
    obtain ⟨rfl, rfl⟩ := Prod.mk.inj heq
    exact ⟨e.2, he, (hf e).symm⟩

theorem isPlain_withRevision (item : QueueItem) (revision : Revision) :
    (item.withRevision revision).isPlain = item.isPlain := by cases item <;> rfl

theorem WellFormed.revise (h : s.WellFormed) (serverId : ServerId) (revision : Revision) :
    (s.updateItemsWithNewRevision serverId revision).WellFormed := by
  refine h.mapQueue (fun e => s.reviseItem serverId revision e.2) fun e => ?_
  rw [reviseItem]
  split
  · exact isPlain_withRevision _ _
  · rfl

/-- The workflows that depend on the object refer to it by its server id. -/
theorem updateDependenciesOnCreation_eq (d : QueueDependency) (clientId : ClientId)
    (serverId : ServerId) (objectType : ObjectType) (s : SyncQueue) :
    s.updateDependenciesOnCreation d clientId serverId objectType =
      { s with
        queue := s.queue.map fun e => (e.1,
          if objectType.isReferenced = true ∧ (s.queueDependencies e.1).any (d ∈ ·) = true then
            e.2.mapModel (·.replaceObjectId (.client clientId) (.server serverId))
          else e.2) } := by
  rw [updateDependenciesOnCreation]
  split
  · rename_i h
    congr 1
    refine List.map_congr_left fun e _ => ?_
    by_cases hd : (s.queueDependencies e.1).any (d ∈ ·) = true
    · rw [if_pos hd, if_pos ⟨h, hd⟩]
    · rw [if_neg hd, if_neg fun hand => hd hand.2]
  · rename_i h
    ext1
    case queue =>
      refine (List.map_id' s.queue).symm.trans (List.map_congr_left fun e _ => ?_)
      rw [if_neg fun hand => h hand.1]
    all_goals rfl

theorem WellFormed.replace (h : s.WellFormed) (d : QueueDependency) (clientId : ClientId)
    (serverId : ServerId) (objectType : ObjectType) :
    (s.updateDependenciesOnCreation d clientId serverId objectType).WellFormed := by
  rw [updateDependenciesOnCreation_eq]
  refine h.mapQueue _ fun e => ?_
  split
  · exact QueueItem.isPlain_mapModel _ _
  · rfl

theorem WellFormed.creationDependencyForClientId (h : s.WellFormed) (id : QueueItemId)
    (clientId : ClientId) : (s.creationDependencyForClientId id clientId).2.WellFormed := by
  rw [SyncQueue.creationDependencyForClientId]
  split
  · exact h
  · rename_i clientIds hsome
    split
    · exact h
    · refine h.weaken rfl (fun id item hmem => ⟨item, hmem, rfl⟩)
        (fun id dependencies hid => ⟨dependencies, hid, Finset.Subset.refl _⟩)
        (fun _ => Finset.Subset.refl _) (fun id' hb => ?_) (List.Sublist.refl _) rfl
      simp only [Function.update_apply] at hb
      split at hb
      · rename_i he
        subst he
        rw [hsome]
        exact Option.some_ne_none _
      · exact hb

/-! ## Announcements -/

end SyncQueue

/-- The entry says what became of the item. -/
def LogEntry.finishes (id : QueueItemId) : LogEntry → Bool
  | event id' _ => id' = id
  | skipped id' => id' = id
  | _ => false

def LogEntry.isSent : LogEntry → Bool
  | sent .. => true
  | _ => false

/-- The event of an answer behind which the items that wait are sent. -/
def SyncQueueEvent.isAnswer : SyncQueueEvent → Bool
  | objectCreationSuccessful .. => true
  | objectUpdateSuccessful .. => true
  | objectUpdateRejected _ => true
  | objectCreationFailure (.denied ..) => true
  | reportObjectActionSucceeded .. => true
  | _ => false

def Request.isBulk : Request → Bool
  | createBulk _ => true
  | _ => false

namespace SyncQueue

/-- How often it was said what became of the item. -/
def tally (id : QueueItemId) (s : SyncQueue) : ℕ := s.log.countP (LogEntry.finishes id)

def Active (s : SyncQueue) (id : QueueItemId) : Prop := id ∈ s.queued ∨ id ∈ s.inFlight

instance (s : SyncQueue) (id : QueueItemId) : Decidable (s.Active id) :=
  inferInstanceAs (Decidable (_ ∨ _))

/-- The announcements of the item, and the one that is due. -/
def ledger (id : QueueItemId) (s : SyncQueue) : ℤ := s.tally id + if s.Active id then 1 else 0

/-- The item is not sent with a request for many objects. -/
def Single (s : SyncQueue) (id : QueueItemId) : Prop := ∀ r, (id, r) ∈ s.spawned → r.isBulk = false

/-- The item waits for the dependency. -/
def Awaits (s : SyncQueue) (id : QueueItemId) (d : QueueDependency) : Prop :=
  ∃ dependencies, s.queueDependencies id = some dependencies ∧ d ∈ dependencies

/-- **Nothing is enqueued or sent**, what is not awaited any more has its answer in the log, and the
ledger changes by `δ`. -/
structure Quiet (δ : QueueItemId → ℤ) (s s' : SyncQueue) : Prop where
  wellFormed : s'.WellFormed
  queue : ∀ id item', (id, item') ∈ s'.queue → ∃ item, (id, item) ∈ s.queue ∧
    item.isBulk = item'.isBulk
  spawned : s'.spawned.Sublist s.spawned
  nextId : s'.nextId = s.nextId
  dependencies : ∀ id ∈ s'.queued, ∀ dependencies, s.queueDependencies id = some dependencies →
    ∃ dependencies', s'.queueDependencies id = some dependencies' ∧ dependencies' ⊆ dependencies
  log : ∃ entries, s'.log = s.log ++ entries ∧ (∀ entry ∈ entries, entry.isSent = false) ∧
    ∀ id d, s.Awaits id d → id ∈ s'.queued → s'.Awaits id d ∨
      ∃ event, .event d.item event ∈ entries ∧ event.isAnswer = true
  ledger : ∀ id, s.Single id → s'.ledger id = s.ledger id + δ id

/-- One announcement of the item. -/
def mark (id : QueueItemId) : QueueItemId → ℤ := fun id' => if id' = id then 1 else 0

variable {s s' s'' : SyncQueue} {id : QueueItemId} {δ δ' : QueueItemId → ℤ}

theorem Quiet.queued (h : Quiet δ s s') {id : QueueItemId} (hid : id ∈ s'.queued) :
    id ∈ s.queued := by
  obtain ⟨item', hmem⟩ := mem_queued.mp hid
  obtain ⟨item, hmem, -⟩ := h.queue id item' hmem
  exact mem_queued.mpr ⟨item, hmem⟩

theorem Quiet.single (h : Quiet δ s s') {id : QueueItemId} (hid : s.Single id) : s'.Single id :=
  fun r hr => hid r (h.spawned.subset hr)

theorem Quiet.trans (h : Quiet δ s s') (h' : Quiet δ' s' s'') : Quiet (δ + δ') s s'' := by
  refine ⟨h'.wellFormed, fun id item' hmem => ?_, h'.spawned.trans h.spawned,
    h'.nextId.trans h.nextId, fun id hid dependencies hsome => ?_, ?_, fun id hid => ?_⟩
  · obtain ⟨item, hmem, hbulk⟩ := h'.queue id item' hmem
    obtain ⟨item₀, hmem, hbulk₀⟩ := h.queue id item hmem
    exact ⟨item₀, hmem, hbulk₀.trans hbulk⟩
  · obtain ⟨dependencies', hsome', hsub⟩ := h.dependencies id (h'.queued hid) dependencies hsome
    obtain ⟨dependencies'', hsome'', hsub'⟩ := h'.dependencies id hid dependencies' hsome'
    exact ⟨dependencies'', hsome'', Finset.Subset.trans hsub' hsub⟩
  · obtain ⟨entries, hlog, hsent, hawaits⟩ := h.log
    obtain ⟨entries', hlog', hsent', hawaits'⟩ := h'.log
    refine ⟨entries ++ entries', by rw [hlog', hlog, List.append_assoc], fun entry hmem => ?_, ?_⟩
    · exact (List.mem_append.mp hmem).elim (hsent entry) (hsent' entry)
    · intro id d hid hq
      rcases hawaits id d hid (h'.queued hq) with hid | ⟨event, hmem, ha⟩
      · rcases hawaits' id d hid hq with hid | ⟨event, hmem, ha⟩
        · exact Or.inl hid
        · exact Or.inr ⟨event, List.mem_append_right _ hmem, ha⟩
      · exact Or.inr ⟨event, List.mem_append_left _ hmem, ha⟩
  · rw [h'.ledger id (h.single hid), h.ledger id hid, Pi.add_apply, add_assoc]

theorem Quiet.congr (h : Quiet δ s s') (hδ : ∀ id, s.Single id → δ id = δ' id) : Quiet δ' s s' :=
  { h with ledger := fun id hid => by rw [h.ledger id hid, hδ id hid] }

/-- The queue, the dependencies and the log stay. -/
theorem quiet_of_log_eq (hwf : s'.WellFormed) (hq : s'.queued = s.queued)
    (hb : ∀ id item', (id, item') ∈ s'.queue → ∃ item, (id, item) ∈ s.queue ∧
      item.isBulk = item'.isBulk) (hs : s'.spawned = s.spawned) (hn : s'.nextId = s.nextId)
    (hd : s'.queueDependencies = s.queueDependencies) (hl : s'.log = s.log) : Quiet 0 s s' := by
  refine ⟨hwf, hb, hs ▸ List.Sublist.refl _, hn, fun id _ dependencies hsome =>
    ⟨dependencies, (congrFun hd id).trans hsome, Finset.Subset.refl _⟩, ⟨[], by rw [hl, List.append_nil],
    List.forall_mem_nil _, fun id d hid _ => Or.inl ?_⟩, fun id _ => ?_⟩
  · rwa [Awaits, hd]
  · have hactive : s'.Active id ↔ s.Active id := by rw [Active, Active, hq, inFlight, inFlight, hs]
    rw [SyncQueue.ledger, SyncQueue.ledger, tally, tally, hl, Pi.zero_apply, add_zero]
    simp only [hactive]

theorem tally_append {entries : List LogEntry} (hl : s'.log = s.log ++ entries) (id : QueueItemId) :
    s'.tally id = s.tally id + entries.countP (LogEntry.finishes id) := by
  rw [tally, tally, hl, List.countP_append]

theorem quiet_write (h : s.WellFormed) (entry : LogEntry) (hsent : entry.isSent = false) :
    Quiet (fun id => if entry.finishes id = true then 1 else 0) s (s.write entry) := by
  refine ⟨h.write entry, fun id item hmem => ⟨item, hmem, rfl⟩, List.Sublist.refl _, rfl,
    fun _ _ dependencies hsome => ⟨dependencies, hsome, Finset.Subset.refl _⟩,
    ⟨[entry], rfl, ?_, fun id d hid _ => Or.inl hid⟩, fun id _ => ?_⟩
  · exact fun e he => List.mem_singleton.mp he ▸ hsent
  · have hactive : (s.write entry).Active id ↔ s.Active id := Iff.rfl
    rw [SyncQueue.ledger, SyncQueue.ledger, tally_append (s := s) rfl, List.countP_singleton]
    simp only [hactive]
    split <;> push_cast <;> ring

theorem quiet_emit (h : s.WellFormed) (id : QueueItemId) (event : SyncQueueEvent) :
    Quiet (mark id) s (s.emit id event) := by
  refine (quiet_write h (.event id event) rfl).congr fun id' _ => ?_
  simp only [LogEntry.finishes, decide_eq_true_eq, mark, @eq_comm _ id' id]

/-- What waits for the item may go on, since its answer is announced. -/
theorem quiet_answer (h : s.WellFormed) {d : QueueDependency} (hd : d.item = id)
    (event : SyncQueueEvent) (ha : event.isAnswer = true) :
    Quiet (mark id) s ((s.emit id event).handleDependencySuccess d) := by
  have hemit := quiet_emit h id event
  refine { hemit with wellFormed := hemit.wellFormed.success d, dependencies := ?_, log := ?_ }
  · exact fun id' _ dependencies hsome => ⟨dependencies.erase d,
      queueDependencies_success.mpr ⟨dependencies, hsome, rfl⟩, Finset.erase_subset _ _⟩
  refine ⟨[.event id event], rfl, fun e he => List.mem_singleton.mp he ▸ rfl, fun id' d' hid _ => ?_⟩
  by_cases hdd : d' = d
  · exact Or.inr ⟨event, by rw [hdd, hd]; exact List.mem_singleton_self _, ha⟩
  · obtain ⟨dependencies, hsome, hmem⟩ := hid
    refine Or.inl ⟨dependencies.erase d, ?_, Finset.mem_erase.mpr ⟨hdd, hmem⟩⟩
    exact queueDependencies_success.mpr ⟨dependencies, hsome, rfl⟩

/-- Items leave the queue, each with an announcement. -/
theorem quiet_withdraw (h : s.WellFormed) {l : List (QueueItemId × SyncQueueEvent)}
    (hnodup : (l.map Prod.fst).Nodup) (hl : ∀ id ∈ l.map Prod.fst, id ∈ s.queued) :
    Quiet 0 s (s.withdraw l) := by
  refine ⟨h.withdraw l, fun id item hmem => ⟨item, List.mem_of_mem_filter hmem, rfl⟩,
    List.Sublist.refl _, rfl, fun id hq dependencies hsome => ⟨dependencies,
      (if_neg (mem_withdraw_queued.mp hq).2).trans hsome, Finset.Subset.refl _⟩,
    ⟨l.map fun e => .event e.1 e.2, rfl, ?_, fun id d hid hq => ?_⟩, fun id _ => ?_⟩
  · intro entry hmem
    obtain ⟨e, -, rfl⟩ := List.mem_map.mp hmem
    rfl
  · obtain ⟨dependencies, hsome, hmem⟩ := hid
    exact Or.inl ⟨dependencies, (if_neg (mem_withdraw_queued.mp hq).2).trans hsome, hmem⟩
  · have hcount : (l.map fun e => LogEntry.event e.1 e.2).countP (LogEntry.finishes id) =
        (l.map Prod.fst).count id := by
      rw [List.countP_map, List.count, List.countP_map]
      exact List.countP_congr fun e _ => by simp [LogEntry.finishes]
    have hactive : (s.withdraw l).Active id ↔ s.Active id ∧ id ∉ l.map Prod.fst := by
      rw [Active, Active, mem_withdraw_queued]
      have hin : (s.withdraw l).inFlight = s.inFlight := rfl
      rw [hin]
      refine ⟨fun hid => ?_, fun hid => hid.1.imp_left fun hq => ⟨hq, hid.2⟩⟩
      rcases hid with hid | hid
      · exact ⟨Or.inl hid.1, hid.2⟩
      · exact ⟨Or.inr hid, fun hmem => (h.idle id (hl id hmem)).2.2 hid⟩
    rw [SyncQueue.ledger, SyncQueue.ledger, tally_append (s := s) rfl, hcount]
    by_cases hmem : id ∈ l.map Prod.fst
    · have hs : s.Active id := Or.inl (hl id hmem)
      rw [List.count_eq_one_of_mem hnodup hmem, if_neg fun ha => (hactive.mp ha).2 hmem, if_pos hs]
      simp
    · rw [List.count_eq_zero_of_not_mem hmem]
      simp [hactive, hmem]

theorem quiet_drop (h : s.WellFormed) (hid : id ∈ s.queued) : Quiet (-mark id) s (s.drop id) := by
  refine ⟨h.drop id, fun id' item hmem => ⟨item, List.mem_of_mem_filter hmem, rfl⟩,
    List.Sublist.refl _, rfl, fun id' hq dependencies hsome => ⟨dependencies, ?_,
      Finset.Subset.refl _⟩, ⟨[], (List.append_nil _).symm, List.forall_mem_nil _,
    fun id' d hid' hq => ?_⟩, fun id' _ => ?_⟩
  · rw [queueDependencies_drop, if_neg (mem_drop_queued.mp hq).2, hsome]
  · obtain ⟨dependencies, hsome, hmem⟩ := hid'
    refine Or.inl ⟨dependencies, ?_, hmem⟩
    rw [queueDependencies_drop, if_neg (mem_drop_queued.mp hq).2, hsome]
  · have hactive : (s.drop id).Active id' ↔ s.Active id' ∧ id' ≠ id := by
      rw [Active, Active, mem_drop_queued]
      have hin : (s.drop id).inFlight = s.inFlight := rfl
      rw [hin]
      refine ⟨fun ha => ?_, fun ha => ha.1.imp_left fun hq => ⟨hq, ha.2⟩⟩
      rcases ha with ha | ha
      · exact ⟨Or.inl ha.1, ha.2⟩
      · exact ⟨Or.inr ha, fun he => (h.idle id hid).2.2 (he ▸ ha)⟩
    have htally : (s.drop id).tally id' = s.tally id' := rfl
    rw [SyncQueue.ledger, SyncQueue.ledger, htally, Pi.neg_apply, mark]
    by_cases he : id' = id
    · rw [if_neg fun ha => (hactive.mp ha).2 he, if_pos (he ▸ Or.inl hid), if_pos he]
      ring
    · simp [hactive, he]

theorem mem_inFlight_finish {id' : QueueItemId} :
    id' ∈ (s.finish id).inFlight ↔ id' ∈ s.inFlight ∧ id' ≠ id := by
  simp only [inFlight, finish, List.mem_map, List.mem_filter, decide_eq_true_eq]
  constructor
  · rintro ⟨e, ⟨he, hne⟩, rfl⟩
    exact ⟨⟨e, he, rfl⟩, hne⟩
  · rintro ⟨⟨e, he, rfl⟩, hne⟩
    exact ⟨e, ⟨he, hne⟩, rfl⟩

theorem quiet_finish (h : s.WellFormed) (hid : id ∈ s.inFlight) :
    Quiet (-mark id) s (s.finish id) := by
  refine ⟨h.finish id, fun id' item hmem => ⟨item, hmem, rfl⟩, List.filter_sublist, rfl,
    fun _ _ dependencies hsome => ⟨dependencies, hsome, Finset.Subset.refl _⟩,
    ⟨[], (List.append_nil _).symm, List.forall_mem_nil _, fun id' d hid' _ => Or.inl hid'⟩,
    fun id' _ => ?_⟩
  have hactive : (s.finish id).Active id' ↔ s.Active id' ∧ id' ≠ id := by
    rw [Active, Active, mem_inFlight_finish]
    have hq : (s.finish id).queued = s.queued := rfl
    rw [hq]
    refine ⟨fun ha => ?_, fun ha => ha.1.imp_right fun hin => ⟨hin, ha.2⟩⟩
    rcases ha with ha | ha
    · exact ⟨Or.inl ha, fun he => (h.idle id' ha).2.2 (he ▸ hid)⟩
    · exact ⟨Or.inr ha.1, ha.2⟩
  have htally : (s.finish id).tally id' = s.tally id' := rfl
  rw [SyncQueue.ledger, SyncQueue.ledger, htally, Pi.neg_apply, mark]
  by_cases he : id' = id
  · rw [if_neg fun ha => (hactive.mp ha).2 he, if_pos (he ▸ Or.inr hid), if_pos he]
    ring
  · simp [hactive, he]

/-! ## Answers -/

theorem quiet_stopWaiting (h : s.WellFormed) (uid : SyncId) (id : QueueItemId) :
    Quiet 0 s (s.stopWaiting uid id) :=
  quiet_of_log_eq (h.stopWaiting uid id) rfl (fun _ item hmem => ⟨item, hmem, rfl⟩) rfl rfl rfl rfl

theorem quiet_creationDependencyForClientId (h : s.WellFormed) (id : QueueItemId)
    (clientId : ClientId) : Quiet 0 s (s.creationDependencyForClientId id clientId).2 ∧
      (s.creationDependencyForClientId id clientId).1.item = id := by
  have hwf := h.creationDependencyForClientId id clientId
  rw [creationDependencyForClientId] at hwf ⊢
  split at hwf
  · exact ⟨quiet_of_log_eq hwf rfl (fun _ item hmem => ⟨item, hmem, rfl⟩) rfl rfl rfl rfl, rfl⟩
  · split at hwf
    · rename_i hnot
      rw [if_pos hnot]
      exact ⟨quiet_of_log_eq hwf rfl (fun _ item hmem => ⟨item, hmem, rfl⟩) rfl rfl rfl rfl, rfl⟩
    · rename_i hnot
      rw [if_neg hnot]
      exact ⟨quiet_of_log_eq hwf rfl (fun _ item hmem => ⟨item, hmem, rfl⟩) rfl rfl rfl rfl, rfl⟩

theorem quiet_creationDependencyForId (h : s.WellFormed) (id : QueueItemId) (uid : SyncId) :
    Quiet 0 s (s.creationDependencyForId id uid).2 ∧
      (s.creationDependencyForId id uid).1.item = id := by
  cases uid with
  | client clientId => exact quiet_creationDependencyForClientId h id clientId
  | server serverId =>
    exact ⟨quiet_of_log_eq h rfl (fun _ item hmem => ⟨item, hmem, rfl⟩) rfl rfl rfl rfl, rfl⟩

theorem quiet_handleDependencyFailure (h : s.WellFormed) (d : QueueDependency) :
    Quiet 0 s (s.handleDependencyFailure d) := by
  obtain ⟨l, hl, hspec⟩ := handleDependencyFailure_spec h d
  rw [hl]
  refine quiet_withdraw h hspec.nodup fun id hid => ?_
  obtain ⟨dependencies, hsome⟩ := ((hspec.mem id).mp hid).queueDependencies
  exact h.queued_of_dependencies id (by rw [hsome]; exact Option.some_ne_none _)

theorem quiet_handleCreationFailure (h : s.WellFormed) (uid : SyncId) (id : QueueItemId) :
    Quiet 0 s (s.handleCreationFailure handleDependencyFailure uid id) := by
  have hstop := quiet_stopWaiting h uid id
  have hdep := (quiet_creationDependencyForId hstop.wellFormed id uid).1
  exact (hstop.trans hdep).trans (quiet_handleDependencyFailure hdep.wellFormed _)

theorem quiet_handleCreationFailureResponse (h : s.WellFormed) (uid : SyncId) (id : QueueItemId)
    (initiatedBy : InitiatedBy) : Quiet (mark id) s
      (s.handleCreationFailureResponse handleDependencyFailure uid id initiatedBy) := by
  have hfail := quiet_handleCreationFailure h uid id
  exact (hfail.trans (quiet_emit hfail.wellFormed id _)).congr fun _ _ => zero_add _

theorem quiet_handleUniqueKeyCreationFailureResponse (h : s.WellFormed) (uid : SyncId)
    (id : QueueItemId) (initiatedBy : InitiatedBy) : Quiet (mark id) s
      (s.handleUniqueKeyCreationFailureResponse handleDependencyFailure uid id initiatedBy) := by
  have hfail := quiet_handleCreationFailure h uid id
  exact (hfail.trans (quiet_emit hfail.wellFormed id _)).congr fun _ _ => zero_add _

/-- The failure of a request that is not a creation. -/
theorem quiet_failure (h : s.WellFormed) (uid : SyncId) (id : QueueItemId) (event : SyncQueueEvent) :
    Quiet (mark id) s
      ((handleDependencyFailure (.queueItem id) (s.stopWaiting uid id)).emit id event) := by
  have hstop := quiet_stopWaiting h uid id
  have hfail := hstop.trans (quiet_handleDependencyFailure hstop.wellFormed (.queueItem id))
  exact (hfail.trans (quiet_emit hfail.wellFormed id _)).congr fun _ _ => zero_add _

theorem isBulk_withRevision (item : QueueItem) (revision : Revision) :
    (item.withRevision revision).isBulk = item.isBulk := by cases item <;> rfl

theorem quiet_updateItemsWithNewRevision (h : s.WellFormed) (serverId : ServerId)
    (revision : Revision) : Quiet 0 s (s.updateItemsWithNewRevision serverId revision) := by
  refine quiet_of_log_eq (h.revise serverId revision) ?_ (fun id item' hmem => ?_) rfl rfl rfl rfl
  · rw [queued, queued, updateItemsWithNewRevision, List.map_map]
    rfl
  · obtain ⟨e, he, heq⟩ := List.mem_map.mp hmem
    obtain ⟨rfl, rfl⟩ := Prod.mk.inj heq
    refine ⟨e.2, he, ?_⟩
    rw [reviseItem]
    split
    · exact (isBulk_withRevision _ _).symm
    · rfl

theorem quiet_updateDependenciesOnCreation (h : s.WellFormed) (d : QueueDependency)
    (clientId : ClientId) (serverId : ServerId) (objectType : ObjectType) :
    Quiet 0 s (s.updateDependenciesOnCreation d clientId serverId objectType) := by
  have hwf := h.replace d clientId serverId objectType
  rw [updateDependenciesOnCreation_eq] at hwf ⊢
  refine quiet_of_log_eq hwf ?_ (fun id item' hmem => ?_) rfl rfl rfl rfl
  · rw [queued, queued, List.map_map]
    rfl
  · obtain ⟨e, he, heq⟩ := List.mem_map.mp hmem
    obtain ⟨rfl, rfl⟩ := Prod.mk.inj heq
    refine ⟨e.2, he, ?_⟩
    split
    · exact (QueueItem.isBulk_mapModel _ _).symm
    · rfl

/-- **An answer announces its item once**, and what waits for it may go on. -/
theorem quiet_settleSuccess (h : s.WellFormed) (uid : SyncId) (id : QueueItemId)
    (initiatedBy : InitiatedBy) (response : ResponseType) :
    Quiet (mark id) s (s.settleSuccess uid id initiatedBy response) := by
  cases response with
  | updateSuccess serverId revision =>
    have hstop := quiet_stopWaiting h uid id
    have hanswer := quiet_answer (d := .queueItem id) hstop.wellFormed rfl
      (.objectUpdateSuccessful serverId revision) rfl
    have hrevise := quiet_updateItemsWithNewRevision hanswer.wellFormed serverId revision
    exact ((hstop.trans hanswer).trans hrevise).congr fun _ _ => by simp [QueueDependency.item]
  | updateRejected object =>
    have hstop := quiet_stopWaiting h (.server object) id
    have hanswer := quiet_answer (d := .queueItem id) hstop.wellFormed rfl
      (.objectUpdateRejected object) rfl
    exact (hstop.trans hanswer).congr fun _ _ => zero_add _
  | creationSuccess clientId serverId revision =>
    have hlink : Quiet 0 s (s.link clientId serverId) :=
      quiet_of_log_eq (h.link clientId serverId) rfl (fun _ item hmem => ⟨item, hmem, rfl⟩) rfl rfl
        rfl rfl
    have hstop := hlink.trans (quiet_stopWaiting hlink.wellFormed (.client clientId) id)
    have hdep := quiet_creationDependencyForClientId hstop.wellFormed id clientId
    have hanswer := quiet_answer hdep.1.wellFormed hdep.2
      (.objectCreationSuccessful serverId clientId revision initiatedBy) rfl
    have hrevise := quiet_updateItemsWithNewRevision hanswer.wellFormed serverId revision
    exact (((hstop.trans hdep.1).trans hanswer).trans hrevise).congr fun _ _ => by simp
  | creationUserFacingError message clientId =>
    have hstop := quiet_stopWaiting h uid id
    have hdep := quiet_creationDependencyForId hstop.wellFormed id uid
    have hanswer := quiet_answer hdep.1.wellFormed hdep.2
      (.objectCreationFailure (.denied message clientId initiatedBy)) rfl
    exact ((hstop.trans hdep.1).trans hanswer).congr fun _ _ => by simp
  | objectAction timestamp =>
    have hstop := quiet_stopWaiting h uid id
    have hanswer := quiet_answer (d := .queueItem id) hstop.wellFormed rfl
      (.reportObjectActionSucceeded uid timestamp) rfl
    exact (hstop.trans hanswer).congr fun _ _ => zero_add _

end SyncQueue

end Clinch
