import Clinch.SyncQueue.Loading
import Clinch.SyncQueue.Run

/-!
# What an item waits for

A dependency is on an item that is queued or in flight, and who is in `waiting_response` is in flight.
Both hold up to what an answer is about to settle.

* `Live`: who offers a dependency is queued, in flight or skipped;
* `Sourced`: what is awaited is live, and who is awaited is in flight;
* `Sourced.success`, `Sourced.failure`: a dependency that is settled is not awaited any more;
* `Ongoing`: a bulk request, whose objects are settled one by one.
-/

set_option autoImplicit false

namespace Clinch

/-- The client ids of the objects of a bulk request. -/
def Request.bulkIds : Request → List ClientId
  | createBulk objects => objects.map fun object => object.1.id
  | _ => []

/-- The id under which a request for one object is awaited. -/
def Request.object : Request → Option SyncId
  | create _ id .. => some (.client id)
  | update id .. => some (.server id)
  | _ => none

/-- The server answers what it was asked: a rejected update with its object, and a bulk request with each
of its objects. -/
def ServerResponse.Fits (request : Request) : ServerResponse → Prop
  | rejected object => request.object = some (.server object)
  | bulkCreated objects => request.bulkIds ⊆ objects.map CreatedCloudObject.clientId
  | _ => True

/-- The answer fits the request that is in flight. -/
def QueueAction.Fits (s : SyncQueue) : QueueAction → Prop
  | respond id response => ∀ request, (id, request) ∈ s.spawned → response.Fits request
  | _ => True

namespace SyncQueue

/-- The id under which the item is taken out of `waiting_response`. -/
def ResponseType.object (uid : SyncId) : ResponseType → SyncId
  | .updateRejected object => .server object
  | .creationSuccess clientId _ _ => .client clientId
  | _ => uid

variable {s s' : SyncQueue} {id : QueueItemId} {item : QueueItem} {request : Request}
  {live : List (QueueItemId × Request)} {hole hole' : QueueDependency → Prop}
  {left : SyncId → QueueItemId → Prop} {d : QueueDependency}

/-- The object of the bulk request is not created yet. -/
def Open (s : SyncQueue) (id : QueueItemId) (clientId : ClientId) : Prop :=
  ∃ clientIds, s.inFlightBulkCreateObjects id = some clientIds ∧ clientId ∈ clientIds

/-- Who waits for the dependency waits for the answer to the request. -/
def Offers (s : SyncQueue) (request : Request) : QueueDependency → Prop
  | .queueItem _ => request.isBulk = false
  | .bulkCreateGenericStringObject id clientId => request.isBulk = true ∧ s.Open id clientId

def Live (live : List (QueueItemId × Request)) (s : SyncQueue) (d : QueueDependency) : Prop :=
  (∃ item, (d.item, item) ∈ s.queue ∧ item.Offers d) ∨
    (∃ request, (d.item, request) ∈ live ∧ s.Offers request d) ∨ .skipped d.item ∈ s.log

/-- The request is awaited under the id. -/
def AwaitedAs (s : SyncQueue) (id : QueueItemId) (request : Request) (uid : SyncId) : Prop :=
  request.object = some uid ∨
    request.isBulk = true ∧ ∃ clientId, uid = .client clientId ∧ s.Open id clientId

/-- What is awaited is live, up to `hole`; who is in `waiting_response` is in flight or was skipped, up to
`left`. -/
structure Sourced (live : List (QueueItemId × Request)) (hole : QueueDependency → Prop)
    (left : SyncId → QueueItemId → Prop) (s : SyncQueue) : Prop where
  dependency : ∀ id d, s.Awaits id d → hole d ∨ s.Live live d
  waiting : ∀ uid id, id ∈ s.waitingResponse uid → left uid id ∨
    (∃ request, (id, request) ∈ live ∧ s.AwaitedAs id request uid) ∨ .skipped id ∈ s.log
  bulk : ∀ id request clientId, (id, request) ∈ live → s.Open id clientId →
    request.isBulk = true ∧ clientId ∈ request.bulkIds

def Sound (s : SyncQueue) : Prop := s.Sourced s.spawned (fun _ => False) fun _ _ => False

/-! ## Steps of an answer -/

theorem open_congr (hb : s'.inFlightBulkCreateObjects = s.inFlightBulkCreateObjects)
    {clientId : ClientId} : s'.Open id clientId ↔ s.Open id clientId := by rw [Open, Open, hb]

theorem offers_congr (hb : s'.inFlightBulkCreateObjects = s.inFlightBulkCreateObjects) :
    s'.Offers request d ↔ s.Offers request d := by
  cases d with
  | queueItem id => exact Iff.rfl
  | bulkCreateGenericStringObject id clientId => rw [Offers, Offers, open_congr hb]

theorem awaitedAs_congr (hb : s'.inFlightBulkCreateObjects = s.inFlightBulkCreateObjects)
    {uid : SyncId} : s'.AwaitedAs id request uid ↔ s.AwaitedAs id request uid := by
  rw [AwaitedAs, AwaitedAs]
  simp only [open_congr hb]

/-- Nothing is awaited that was not awaited before, and the items stay. -/
theorem Sourced.weaken (h : s.Sourced live hole left)
    (hd : ∀ id d, s'.Awaits id d → s.Awaits id d ∧ (hole d → hole' d))
    (hq : ∀ id item, (id, item) ∈ s.queue → ∃ item', (id, item') ∈ s'.queue ∧
      item'.isBulk = item.isBulk ∧ item'.objects = item.objects)
    (hw : ∀ uid, s'.waitingResponse uid ⊆ s.waitingResponse uid)
    (hb : s'.inFlightBulkCreateObjects = s.inFlightBulkCreateObjects) (hl : s.log ⊆ s'.log) :
    s'.Sourced live hole' left where
  dependency id d hid := by
    obtain ⟨hid, hhole⟩ := hd id d hid
    refine (h.dependency id d hid).imp hhole (Or.imp ?_ (Or.imp ?_ fun hmem => hl hmem))
    · rintro ⟨item, hmem, hoffers⟩
      obtain ⟨item', hmem', hbulk, hobjects⟩ := hq _ item hmem
      exact ⟨item', hmem', (QueueItem.offers_congr hbulk hobjects).mpr hoffers⟩
    · rintro ⟨request, hmem, hoffers⟩
      exact ⟨request, hmem, (offers_congr hb).mpr hoffers⟩
  waiting uid id hid := by
    refine (h.waiting uid id (hw uid hid)).imp_right (Or.imp ?_ fun hmem => hl hmem)
    rintro ⟨request, hmem, hawaited⟩
    exact ⟨request, hmem, (awaitedAs_congr hb).mpr hawaited⟩
  bulk id request clientId hmem hopen := h.bulk id request clientId hmem ((open_congr hb).mp hopen)

theorem exists_same_item {id : QueueItemId} {item : QueueItem} (hmem : (id, item) ∈ s.queue) :
    ∃ item', (id, item') ∈ s.queue ∧ item'.isBulk = item.isBulk ∧ item'.objects = item.objects :=
  ⟨item, hmem, rfl, rfl⟩

theorem Sourced.write (h : s.Sourced live hole left) (entry : LogEntry) :
    (s.write entry).Sourced live hole left :=
  h.weaken (fun _ _ hid => ⟨hid, fun hhole => hhole⟩) (fun _ _ hmem => exists_same_item hmem)
    (fun _ => Finset.Subset.refl _) rfl (List.subset_append_left _ _)

theorem Sourced.emit (h : s.Sourced live hole left) (id : QueueItemId) (event : SyncQueueEvent) :
    (s.emit id event).Sourced live hole left := h.write _

theorem Sourced.link (h : s.Sourced live hole left) (clientId : ClientId) (serverId : ServerId) :
    (s.link clientId serverId).Sourced live hole left :=
  h.weaken (fun _ _ hid => ⟨hid, fun hhole => hhole⟩) (fun _ _ hmem => exists_same_item hmem)
    (fun _ => Finset.Subset.refl _) rfl (List.Subset.refl _)

/-- The items change, and stay the items that they are. -/
theorem Sourced.mapQueue (h : s.Sourced live hole left) (f : QueueItemId × QueueItem → QueueItem)
    (hf : ∀ e, (f e).isBulk = e.2.isBulk ∧ (f e).objects = e.2.objects) :
    ({ s with queue := s.queue.map fun e => (e.1, f e) } : SyncQueue).Sourced live hole left :=
  h.weaken (fun _ _ hid => ⟨hid, fun hhole => hhole⟩)
    (fun id item hmem => ⟨f (id, item), List.mem_map_of_mem hmem, hf (id, item)⟩)
    (fun _ => Finset.Subset.refl _) rfl (List.Subset.refl _)

theorem objects_withRevision (item : QueueItem) (revision : Revision) :
    (item.withRevision revision).objects = item.objects := by cases item <;> rfl

theorem Sourced.revise (h : s.Sourced live hole left) (serverId : ServerId) (revision : Revision) :
    (s.updateItemsWithNewRevision serverId revision).Sourced live hole left := by
  refine h.mapQueue (fun e => s.reviseItem serverId revision e.2) fun e => ?_
  rw [reviseItem]
  split
  · exact ⟨isBulk_withRevision _ _, objects_withRevision _ _⟩
  · exact ⟨rfl, rfl⟩

theorem Sourced.replace (h : s.Sourced live hole left) (d : QueueDependency) (clientId : ClientId)
    (serverId : ServerId) (objectType : ObjectType) :
    (s.updateDependenciesOnCreation d clientId serverId objectType).Sourced live hole left := by
  rw [updateDependenciesOnCreation_eq]
  refine h.mapQueue _ fun e => ?_
  split
  · exact ⟨QueueItem.isBulk_mapModel _ _, QueueItem.objects_mapModel _ _⟩
  · exact ⟨rfl, rfl⟩

/-- The dependency is not awaited any more. -/
theorem Sourced.success (h : s.Sourced live (· = d) left) :
    (s.handleDependencySuccess d).Sourced live (fun _ => False) left := by
  refine h.weaken (fun id d' hid => ?_) (fun _ _ hmem => exists_same_item hmem)
    (fun _ => Finset.Subset.refl _) rfl (List.Subset.refl _)
  obtain ⟨dependencies', hsome, hmem⟩ := hid
  obtain ⟨dependencies, hbefore, rfl⟩ := queueDependencies_success.mp hsome
  exact ⟨⟨dependencies, hbefore, Finset.mem_of_mem_erase hmem⟩, Finset.ne_of_mem_erase hmem⟩

theorem isPlain_of_isBulk (h : item.isBulk = true) : item.isPlain = true := by
  cases item with
  | bulkCreateGenericStringObjects objects => rfl
  | _ => cases h

/-- What depends on another item is no bulk item. -/
theorem Dependent.isBulk (h : s.Dependent d id) (hwf : s.WellFormed) (hmem : (id, item) ∈ s.queue) :
    item.isBulk = false := by
  rw [← Bool.not_eq_true]
  intro hb
  have hplain := hwf.plain id item
  cases h with
  | direct hd hdep =>
    rw [hplain _ hmem (isPlain_of_isBulk hb) hd] at hdep
    exact absurd hdep (Finset.notMem_empty d)
  | through _ hd hdep =>
    rw [hplain _ hmem (isPlain_of_isBulk hb) hd] at hdep
    exact absurd hdep (Finset.notMem_empty _)

/-- What waits for an item that is withdrawn is withdrawn with it. -/
theorem Sourced.withdraw (h : s.Sourced live (· = d) left) (hwf : s.WellFormed)
    {l : List (QueueItemId × SyncQueueEvent)} (hspec : s.Withdrawn d l) :
    (s.withdraw l).Sourced live (fun _ => False) left := by
  have hawaits : ∀ id d', (s.withdraw l).Awaits id d' → id ∉ l.map Prod.fst ∧ s.Awaits id d' := by
    rintro id d' ⟨dependencies, hsome, hmem⟩
    rw [SyncQueue.withdraw] at hsome
    simp only at hsome
    split at hsome
    · cases hsome
    · exact ⟨‹_›, dependencies, hsome, hmem⟩
  refine ⟨fun id d' hid => Or.inr ?_, fun uid id hid => ?_, h.bulk⟩
  · obtain ⟨hnot, dependencies, hsome, hmem⟩ := hawaits id d' hid
    rcases h.dependency id d' ⟨dependencies, hsome, hmem⟩ with rfl | ⟨item, hq, hoffers⟩ | hlive
    · exact absurd ((hspec.mem id).mpr (.direct hsome hmem)) hnot
    · by_cases hgone : d'.item ∈ l.map Prod.fst
      · have hdep := (hspec.mem d'.item).mp hgone
        have hbulk := hdep.isBulk hwf hq
        cases d' with
        | queueItem id' => exact absurd ((hspec.mem id).mpr (.through hdep hsome hmem)) hnot
        | bulkCreateGenericStringObject id' clientId =>
          rw [hoffers.1] at hbulk
          cases hbulk
      · exact Or.inl ⟨item, List.mem_filter.mpr ⟨hq, decide_eq_true hgone⟩, hoffers⟩
    · exact Or.inr (hlive.imp_right (List.mem_append_left _))
  · exact (h.waiting uid id hid).imp_right (Or.imp_right (List.mem_append_left _))

theorem Sourced.failure (h : s.Sourced live (· = d) left) (hwf : s.WellFormed) :
    (s.handleDependencyFailure d).Sourced live (fun _ => False) left := by
  obtain ⟨l, hl, hspec⟩ := handleDependencyFailure_spec hwf d
  rw [hl]
  exact h.withdraw hwf hspec

/-! ## Requests for one object -/

/-- The request is over, and who waits for it does not wait for anything any more. -/
theorem Sourced.finish (h : s.Sound) (hwf : s.WellFormed) (hmem : (id, request) ∈ s.spawned)
    (hb : request.isBulk = false) : (s.finish id).Sourced (s.finish id).spawned
      (· = .queueItem id) fun uid id' => id' = id ∧ request.object = some uid := by
  have hkey : ∀ r, (id, r) ∈ s.spawned → r = request := fun r hr =>
    (Prod.mk.inj (List.inj_on_of_nodup_map hwf.inFlight_nodup hr hmem rfl)).2
  have hstays : ∀ id' r, (id', r) ∈ s.spawned → id' ≠ id → (id', r) ∈ (s.finish id).spawned :=
    fun id' r hr hne => List.mem_filter.mpr ⟨hr, decide_eq_true hne⟩
  refine ⟨fun id' d hid => ?_, fun uid id' hid => ?_, fun id' r c hr hopen =>
    h.bulk id' r c (List.mem_of_mem_filter hr) hopen⟩
  · rcases (h.dependency id' d hid).resolve_left not_false with hq | ⟨r, hr, hoffers⟩ | hskipped
    · exact Or.inr (Or.inl hq)
    · by_cases he : d.item = id
      · left
        rw [he] at hr
        obtain rfl := hkey r hr
        cases d with
        | queueItem id'' => exact congrArg _ he
        | bulkCreateGenericStringObject id'' clientId =>
          rw [hoffers.1] at hb
          cases hb
      · exact Or.inr (Or.inr (Or.inl ⟨r, hstays _ r hr he, hoffers⟩))
    · exact Or.inr (Or.inr (Or.inr hskipped))
  · rcases (h.waiting uid id' hid).resolve_left not_false with ⟨r, hr, hawaited⟩ | hskipped
    · by_cases he : id' = id
      · left
        rw [he] at hr
        obtain rfl := hkey r hr
        rcases hawaited with hobject | ⟨hbulk, -⟩
        · exact ⟨he, hobject⟩
        · rw [hbulk] at hb
          cases hb
      · exact Or.inr (Or.inl ⟨r, hstays id' r hr he, hawaited⟩)
    · exact Or.inr (Or.inr hskipped)

/-- The item leaves `waiting_response`. -/
theorem Sourced.stopWaiting {object : Option SyncId}
    (h : s.Sourced live hole fun uid id' => id' = id ∧ object = some uid) {uid : SyncId}
    (hobject : ∀ uid', object = some uid' → uid' = uid) :
    (s.stopWaiting uid id).Sourced live hole fun _ _ => False := by
  refine ⟨h.dependency, fun uid' id' hid => Or.inr ?_, h.bulk⟩
  obtain ⟨hid, hne⟩ := mem_waiting_stopWaiting.mp hid
  refine (h.waiting uid' id' hid).resolve_left fun hleft => ?_
  exact hne (hobject uid' hleft.2) hleft.1

theorem Sourced.drops (h : s.Sourced live hole fun _ _ => False) (uid : SyncId) (id : QueueItemId) :
    (s.stopWaiting uid id).Sourced live hole fun _ _ => False :=
  h.weaken (fun _ _ hid => ⟨hid, fun hhole => hhole⟩) (fun _ _ hmem => exists_same_item hmem)
    (fun _ _ hmem => (mem_waiting_stopWaiting.mp hmem).1) rfl (List.Subset.refl _)

/-- What `creation_dependency_for_client_id` does for a request for one object. -/
theorem creationDependencyForId_of_not_open (hb : ∀ clientId, ¬ s.Open id clientId) (uid : SyncId) :
    s.creationDependencyForId id uid = (.queueItem id, s) := by
  cases uid with
  | client clientId =>
    rw [creationDependencyForId, creationDependencyForClientId]
    split
    · rfl
    · rename_i clientIds hsome
      exact if_pos fun hmem => hb clientId ⟨clientIds, hsome, hmem⟩
  | server serverId => rfl

/-- The answer that an object was created, by its steps. -/
theorem settleSuccess_created (uid : SyncId) (id : QueueItemId) (initiatedBy : InitiatedBy)
    (clientId : ClientId) (serverId : ServerId) (revision : Revision) (s : SyncQueue) :
    s.settleSuccess uid id initiatedBy (.creationSuccess clientId serverId revision) =
      ((handleDependencySuccess (((s.link clientId serverId).stopWaiting (.client clientId) id
        ).creationDependencyForClientId id clientId).1
        (((s.link clientId serverId).stopWaiting (.client clientId) id
        ).creationDependencyForClientId id clientId).2).updateItemsWithNewRevision serverId revision
        ).emit id (.objectCreationSuccessful serverId clientId revision initiatedBy) := rfl

theorem Sourced.settleSuccess (h : s.Sourced live (· = .queueItem id)
      fun uid id' => id' = id ∧ request.object = some uid)
    (hb : ∀ clientId, ¬ s.Open id clientId) {uid : SyncId} (initiatedBy : InitiatedBy)
    {response : ResponseType}
    (hobject : ∀ uid', request.object = some uid' → uid' = response.object uid) :
    (s.settleSuccess uid id initiatedBy response).Sourced live (fun _ => False)
      fun _ _ => False := by
  cases response with
  | updateSuccess serverId revision =>
    exact ((h.stopWaiting hobject).success.revise serverId revision).emit id _
  | updateRejected object => exact ((h.emit id _).stopWaiting hobject).success
  | creationSuccess clientId serverId revision =>
    have hstop := (h.link clientId serverId).stopWaiting hobject
    have hd : ((s.link clientId serverId).stopWaiting (.client clientId) id
        ).creationDependencyForClientId id clientId =
          (.queueItem id, (s.link clientId serverId).stopWaiting (.client clientId) id) :=
      @creationDependencyForId_of_not_open ((s.link clientId serverId).stopWaiting (.client clientId) id) id
        hb (.client clientId)
    rw [settleSuccess_created, hd]
    exact (hstop.success.revise serverId revision).emit id _
  | creationUserFacingError message clientId =>
    have hstop := h.stopWaiting hobject
    have hd := @creationDependencyForId_of_not_open (s.stopWaiting uid id) id hb uid
    rw [SyncQueue.settleSuccess, hd]
    exact hstop.success.emit id _
  | objectAction timestamp => exact (h.stopWaiting hobject).success.emit id _

theorem Sourced.creationFailure (h : s.Sourced live (· = .queueItem id)
      fun uid id' => id' = id ∧ request.object = some uid)
    (hwf : s.WellFormed) (hb : ∀ clientId, ¬ s.Open id clientId) {uid : SyncId}
    (hobject : ∀ uid', request.object = some uid' → uid' = uid) :
    (s.handleCreationFailure handleDependencyFailure uid id).Sourced live (fun _ => False)
      fun _ _ => False := by
  have hd := @creationDependencyForId_of_not_open (s.stopWaiting uid id) id hb uid
  rw [handleCreationFailure, hd]
  exact (h.stopWaiting hobject).failure (hwf.stopWaiting uid id)

/-! ## Requests for many objects -/

/-- The end of a bulk request, behind which no object is open. -/
theorem Sourced.finish_bulk (h : s.Sound) (hwf : s.WellFormed) (hmem : (id, request) ∈ s.spawned)
    (hb : request.isBulk = true) (hopen : ∀ clientId, ¬ s.Open id clientId) : (s.finish id).Sound := by
  have hkey : ∀ r, (id, r) ∈ s.spawned → r = request := fun r hr =>
    (Prod.mk.inj (List.inj_on_of_nodup_map hwf.inFlight_nodup hr hmem rfl)).2
  have hstays : ∀ id' r, (id', r) ∈ s.spawned → id' ≠ id → (id', r) ∈ (s.finish id).spawned :=
    fun id' r hr hne => List.mem_filter.mpr ⟨hr, decide_eq_true hne⟩
  refine ⟨fun id' d hid => Or.inr ?_, fun uid id' hid => Or.inr ?_, fun id' r c hr hopen =>
    h.bulk id' r c (List.mem_of_mem_filter hr) hopen⟩
  · refine ((h.dependency id' d hid).resolve_left not_false).imp_right (Or.imp_left ?_)
    rintro ⟨r, hr, hoffers⟩
    refine ⟨r, hstays _ r hr fun he => ?_, hoffers⟩
    rw [he] at hr
    obtain rfl := hkey r hr
    cases d with
    | queueItem id'' =>
      rw [show r.isBulk = false from hoffers] at hb
      cases hb
    | bulkCreateGenericStringObject id'' clientId =>
      exact hopen clientId ((show id'' = id from he) ▸ hoffers.2)
  · refine ((h.waiting uid id' hid).resolve_left not_false).imp_left ?_
    rintro ⟨r, hr, hawaited⟩
    refine ⟨r, hstays id' r hr fun he => ?_, hawaited⟩
    rw [he] at hr
    obtain rfl := hkey r hr
    rcases hawaited with hobject | ⟨-, clientId, -, hopened⟩
    · cases r with
      | createBulk objects => cases hobject
      | _ => cases hb
    · exact hopen clientId (he ▸ hopened)

/-- The object of a bulk request has its answer. -/
def close (id : QueueItemId) (clientId : ClientId) (clientIds : Finset ClientId) (s : SyncQueue) :
    SyncQueue :=
  { s with
    inFlightBulkCreateObjects := Function.update s.inFlightBulkCreateObjects id
      (if clientIds.erase clientId = ∅ then none else some (clientIds.erase clientId)) }

theorem open_close {clientIds : Finset ClientId} {clientId c : ClientId} {id' : QueueItemId}
    (h : s.inFlightBulkCreateObjects id = some clientIds) :
    (s.close id clientId clientIds).Open id' c ↔ s.Open id' c ∧ ¬ (id' = id ∧ c = clientId) := by
  rw [Open, Open, close]
  simp only [Function.update_apply]
  by_cases he : id' = id
  · subst he
    simp only [if_true, h, Option.some.injEq, exists_eq_left', true_and]
    rw [← Finset.mem_erase.trans and_comm]
    constructor
    · rintro ⟨clientIds', hsome, hmem⟩
      split at hsome
      · cases hsome
      · exact Option.some.inj hsome ▸ hmem
    · intro hmem
      exact ⟨_, if_neg (Finset.ne_empty_of_mem hmem), hmem⟩
  · simp [he]

theorem Sourced.close (h : s.Sourced live (fun _ => False) fun _ _ => False)
    {clientIds : Finset ClientId} {clientId : ClientId}
    (hsome : s.inFlightBulkCreateObjects id = some clientIds)
    (hw : id ∉ s.waitingResponse (.client clientId)) :
    (s.close id clientId clientIds).Sourced live (· = .bulkCreateGenericStringObject id clientId)
      fun _ _ => False := by
  refine ⟨fun id' d hid => ?_, fun uid id' hid => Or.inr ?_, fun id' r c hr hopen =>
    h.bulk id' r c hr ((open_close hsome).mp hopen).1⟩
  · rcases (h.dependency id' d hid).resolve_left not_false with hq | ⟨r, hr, hoffers⟩ | hskipped
    · exact Or.inr (Or.inl hq)
    · cases d with
      | queueItem id'' => exact Or.inr (Or.inr (Or.inl ⟨r, hr, hoffers⟩))
      | bulkCreateGenericStringObject id'' c =>
        by_cases he : id'' = id ∧ c = clientId
        · obtain ⟨rfl, rfl⟩ := he
          exact Or.inl rfl
        · refine Or.inr (Or.inr (Or.inl ⟨r, hr, hoffers.1, ?_⟩))
          exact (open_close hsome).mpr ⟨hoffers.2, he⟩
    · exact Or.inr (Or.inr (Or.inr hskipped))
  · refine ((h.waiting uid id' hid).resolve_left not_false).imp_left ?_
    rintro ⟨r, hr, hobject | ⟨hbulk, c, rfl, hopen⟩⟩
    · exact ⟨r, hr, Or.inl hobject⟩
    · refine ⟨r, hr, Or.inr ⟨hbulk, c, rfl, (open_close hsome).mpr ⟨hopen, ?_⟩⟩⟩
      rintro ⟨rfl, rfl⟩
      exact hw hid

/-- The object of a bulk request that has its answer is not open any more. -/
theorem Sourced.creationDependency {clientId : ClientId}
    (h : s.Sourced live (fun _ => False) fun _ _ => False)
    (hw : id ∉ s.waitingResponse (.client clientId)) :
    (s.creationDependencyForClientId id clientId).2.Sourced live
        (· = (s.creationDependencyForClientId id clientId).1) (fun _ _ => False) ∧
      ∀ c, (s.creationDependencyForClientId id clientId).2.Open id c → s.Open id c ∧ c ≠ clientId := by
  have hsame : ∀ d, s.Sourced live (· = d) fun _ _ => False := fun d =>
    h.weaken (fun _ _ hid => ⟨hid, False.elim⟩) (fun _ _ hmem => exists_same_item hmem)
      (fun _ => Finset.Subset.refl _) rfl (List.Subset.refl _)
  rw [creationDependencyForClientId]
  split
  · rename_i hnone
    refine ⟨hsame _, ?_⟩
    rintro c ⟨clientIds, hsome, -⟩
    rw [hnone] at hsome
    cases hsome
  · rename_i clientIds hsome
    split
    · rename_i hnot
      refine ⟨hsame _, fun c hopen => ⟨hopen, ?_⟩⟩
      rintro rfl
      obtain ⟨clientIds', hsome', hmem⟩ := hopen
      exact hnot (Option.some.inj (hsome'.symm.trans hsome) ▸ hmem)
    · refine ⟨h.close hsome hw, fun c hopen => ?_⟩
      obtain ⟨hopen, hne⟩ := (open_close hsome).mp hopen
      exact ⟨hopen, fun he => hne ⟨rfl, he⟩⟩

theorem not_mem_stopWaiting (uid : SyncId) (id : QueueItemId) (s : SyncQueue) :
    id ∉ (s.stopWaiting uid id).waitingResponse uid :=
  fun hid => (mem_waiting_stopWaiting.mp hid).2 rfl rfl

/-- The bulk request is in flight. -/
structure Ongoing (id : QueueItemId) (request : Request) (s : SyncQueue) : Prop where
  wellFormed : s.WellFormed
  sound : s.Sound
  mem : (id, request) ∈ s.spawned

theorem Ongoing.settleSuccess (h : s.Ongoing id request) (uid : SyncId) (initiatedBy : InitiatedBy)
    (clientId : ClientId) (serverId : ServerId) (revision : Revision) :
    let t := s.settleSuccess uid id initiatedBy (.creationSuccess clientId serverId revision)
    t.Ongoing id request ∧ ∀ c, t.Open id c → s.Open id c ∧ c ≠ clientId := by
  have hspawned := spawned_settleSuccess uid id initiatedBy
    (.creationSuccess clientId serverId revision) s
  have hdep := ((h.sound.link clientId serverId).drops (.client clientId) id).creationDependency
    (not_mem_stopWaiting (.client clientId) id _)
  refine ⟨⟨(quiet_settleSuccess h.wellFormed uid id initiatedBy _).wellFormed, ?_, hspawned ▸ h.mem⟩,
    fun c hc => hdep.2 c hc⟩
  rw [Sound, hspawned, settleSuccess_created]
  exact (hdep.1.success.revise serverId revision).emit id _

theorem Ongoing.creationFailure (h : s.Ongoing id request) (clientId : ClientId)
    (event : SyncQueueEvent) :
    let t := (s.handleCreationFailure handleDependencyFailure (.client clientId) id).emit id event
    t.Ongoing id request ∧ ∀ c, t.Open id c → s.Open id c ∧ c ≠ clientId := by
  have hspawned := spawned_handleCreationFailure h.wellFormed clientId id
  have hdep := (h.sound.drops (.client clientId) id).creationDependency
    (not_mem_stopWaiting (.client clientId) id _)
  have hwf := (h.wellFormed.stopWaiting (.client clientId) id).creationDependencyForClientId id clientId
  obtain ⟨l, hl, -⟩ := handleDependencyFailure_spec hwf
    ((s.stopWaiting (.client clientId) id).creationDependencyForClientId id clientId).1
  refine ⟨⟨((quiet_handleCreationFailure h.wellFormed (.client clientId) id).wellFormed).emit id event,
    ?_, hspawned ▸ h.mem⟩, fun c hc => hdep.2 c ?_⟩
  · have hsound := (hdep.1.failure hwf).emit id event
    rwa [← hspawned] at hsound
  · have hc' : ((s.handleCreationFailure handleDependencyFailure (.client clientId) id)).Open id c := hc
    have heq : s.handleCreationFailure handleDependencyFailure (.client clientId) id = _ := hl
    rw [heq] at hc'
    exact hc'

/-- The objects of a bulk request, one after the other. -/
theorem Ongoing.foldl {α : Type} {f : SyncQueue → α → SyncQueue} (clientId : α → ClientId)
    (hf : ∀ (t : SyncQueue) a, t.Ongoing id request → (f t a).Ongoing id request ∧
      ∀ c, (f t a).Open id c → t.Open id c ∧ c ≠ clientId a)
    (objects : List α) (h : s.Ongoing id request) : (objects.foldl f s).Ongoing id request ∧
      ∀ c, (objects.foldl f s).Open id c → s.Open id c ∧ c ∉ objects.map clientId := by
  induction objects generalizing s with
  | nil => exact ⟨h, fun c hc => ⟨hc, List.not_mem_nil⟩⟩
  | cons a objects ih =>
    obtain ⟨hongoing, hopen⟩ := hf s a h
    obtain ⟨hongoing', hopen'⟩ := ih hongoing
    refine ⟨hongoing', fun c hc => ?_⟩
    obtain ⟨hc, hnot⟩ := hopen' c hc
    obtain ⟨hc, hne⟩ := hopen c hc
    refine ⟨hc, ?_⟩
    rw [List.map_cons, List.mem_cons, not_or]
    exact ⟨hne, hnot⟩

/-- The end of a bulk request of which all objects have their answers. -/
theorem Ongoing.finish (h : s.Ongoing id request) (hb : request.isBulk = true)
    {clientIds : List ClientId} (hopen : ∀ c, s.Open id c → c ∉ clientIds)
    (hall : request.bulkIds ⊆ clientIds) : (s.finish id).Sound := by
  refine Sourced.finish_bulk h.sound h.wellFormed h.mem hb fun c hc => hopen c hc (hall ?_)
  exact (h.sound.bulk id request c h.mem hc).2

end SyncQueue

end Clinch
