import Clinch.SyncQueue.Cascade

/-!
# Sending the next item

`dequeue` takes the first item without dependencies from the queue. It is sent if its ids have server
ids; else an update fails, and other items are skipped, and the next item is taken.

* `request`: what is sent for an item, if it can be sent;
* `register`: the item's objects wait for its answer;
* `Takes`, `dequeueN_induction`: what the queue does with the items it takes;
* `Dequeues`: no item that is taken is skipped, other than the ones that may be.
-/

set_option autoImplicit false

namespace Clinch

namespace SyncQueue

variable {s : SyncQueue} {id : QueueItemId} {item : QueueItem}

/-! ## The request of an item -/

/-- What is sent for the item. -/
def request (s : SyncQueue) : QueueItem → Option Request
  | .createObject objectType clientId content initialFolderId initiatedBy =>
    (s.folderId initialFolderId).map fun folderId =>
      .create objectType clientId none content folderId initiatedBy
  | .createWorkflow objectType clientId model content initialFolderId initiatedBy =>
    (s.folderId initialFolderId).map fun folderId =>
      .create objectType clientId (some model) content folderId initiatedBy
  | .bulkCreateGenericStringObjects objects =>
    (objects.mapM fun object => s.folderId object.initialFolderId).map fun folderIds =>
      .createBulk (objects.zip folderIds)
  | .updateWorkflow model syncId revision =>
    (s.tryServerId syncId).map fun serverId => .update serverId (some model) "" revision
  | .updateFolder syncId content =>
    (s.tryServerId syncId).map fun serverId => .update serverId none content none
  | .update _ syncId content revision =>
    (s.tryServerId syncId).map fun serverId => .update serverId none content revision
  | .recordObjectAction syncId content timestamp =>
    (s.tryServerId syncId).map fun serverId => .action serverId content timestamp

/-- Where the item is put into `waiting_response`. -/
def waitsFor (s : SyncQueue) (item : QueueItem) : List SyncId :=
  match item.updated with
  | some syncId => ((s.tryServerId syncId).map SyncId.server).toList
  | none => item.objects

def bulkObjects : QueueItem → Option (Finset ClientId)
  | .bulkCreateGenericStringObjects objects =>
    some (objects.map GenericStringObjectToCreate.id).toFinset
  | _ => none

/-- The item waits for the answer. -/
def register (id : QueueItemId) (item : QueueItem) (s : SyncQueue) : SyncQueue :=
  { s with
    waitingResponse := fun uid =>
      if uid ∈ s.waitsFor item then insert id (s.waitingResponse uid) else s.waitingResponse uid
    inFlightBulkCreateObjects := fun id' =>
      if id' = id ∧ item.isBulk = true then bulkObjects item else s.inFlightBulkCreateObjects id' }

theorem startWaiting_eq (uid : SyncId) (id : QueueItemId) (s : SyncQueue) :
    s.startWaiting uid id = { s with
      waitingResponse := fun uid' =>
        if uid' ∈ [uid] then insert id (s.waitingResponse uid') else s.waitingResponse uid' } := by
  ext1
  case waitingResponse =>
    funext uid'
    by_cases h : uid' = uid
    · simp [startWaiting, h]
    · simp [startWaiting, h]
  all_goals rfl

theorem foldl_startWaiting (id : QueueItemId) (objects : List GenericStringObjectToCreate)
    (s : SyncQueue) : objects.foldl (fun s data => s.startWaiting (.client data.id) id) s =
      { s with
        waitingResponse := fun uid =>
          if uid ∈ objects.map fun data => SyncId.client data.id then insert id (s.waitingResponse uid)
          else s.waitingResponse uid } := by
  induction objects generalizing s with
  | nil => ext1 <;> simp
  | cons data objects ih =>
    rw [List.foldl_cons, ih, startWaiting_eq]
    ext1
    case waitingResponse =>
      funext uid
      simp only [List.map_cons, List.mem_cons, List.not_mem_nil, or_false]
      by_cases h : uid = .client data.id
      · simp [h]
      · simp [h]
    all_goals rfl

theorem register_eq_startWaiting {uid : SyncId} (hb : item.isBulk = false)
    (hw : s.waitsFor item = [uid]) : s.register id item = s.startWaiting uid id := by
  rw [startWaiting_eq, register, hw, hb]
  simp

theorem updateObject_eq (next : SyncQueue → SyncQueue) (model : Option Workflow) (content : String)
    (syncId : SyncId) (revision : Option Revision) (hi : item.isBulk = false)
    (hu : item.updated = some syncId) : s.updateObject next model content syncId revision id =
      match (s.tryServerId syncId).map fun serverId => Request.update serverId model content revision with
      | some r => (s.register id item).spawn id r
      | none => next (s.handleUpdateFailureResponse handleDependencyFailure syncId id) := by
  rw [updateObject]
  cases hs : s.tryServerId syncId with
  | none => rfl
  | some serverId =>
    have hw : s.waitsFor item = [.server serverId] := by
      rw [waitsFor, hu]
      simp only
      rw [hs]
      rfl
    rw [register_eq_startWaiting hi hw]
    rfl

theorem createObject_eq (next : SyncQueue → SyncQueue) (objectType : ObjectType)
    (model : Option Workflow) (content : String) (clientId : ClientId)
    (initialFolderId : Option SyncId) (initiatedBy : InitiatedBy) (hi : item.isBulk = false)
    (hu : item.updated = none) (ho : item.objects = [.client clientId]) :
    s.createObject next objectType model content clientId initialFolderId initiatedBy id =
      match (s.folderId initialFolderId).map fun folderId =>
        Request.create objectType clientId model content folderId initiatedBy with
      | some r => (s.register id item).spawn id r
      | none => next ((s.register id item).write (.skipped id)) := by
  have hw : s.waitsFor item = [.client clientId] := by rw [waitsFor, hu, ho]
  have hf : (s.startWaiting (.client clientId) id).folderId initialFolderId =
      s.folderId initialFolderId := rfl
  rw [createObject, register_eq_startWaiting hi hw, hf]
  cases s.folderId initialFolderId <;> rfl

/-- **An item is sent, or its update fails, or it is skipped.** -/
theorem send_eq (next : SyncQueue → SyncQueue) (id : QueueItemId) (item : QueueItem) (s : SyncQueue) :
    s.send next id item = match s.request item with
      | some r => (s.register id item).spawn id r
      | none => match item.updated with
        | some syncId => next (s.handleUpdateFailureResponse handleDependencyFailure syncId id)
        | none => next ((s.register id item).write (.skipped id)) := by
  cases item with
  | createObject objectType clientId content initialFolderId initiatedBy =>
    exact createObject_eq next objectType none content clientId initialFolderId initiatedBy rfl rfl rfl
  | createWorkflow objectType clientId model content initialFolderId initiatedBy =>
    exact createObject_eq next objectType (some model) content clientId initialFolderId initiatedBy
      rfl rfl rfl
  | updateWorkflow model syncId revision =>
    exact updateObject_eq next (some model) "" syncId revision rfl rfl
  | updateFolder syncId content => exact updateObject_eq next none content syncId none rfl rfl
  | update kind syncId content revision =>
    exact updateObject_eq next none content syncId revision rfl rfl
  | recordObjectAction syncId content timestamp =>
    have hreg : s.register id (.recordObjectAction syncId content timestamp) = s := by
      ext1 <;> simp [register, waitsFor, QueueItem.updated, QueueItem.objects, QueueItem.isBulk]
    rw [hreg, send, recordObjectAction, request]
    cases s.tryServerId syncId <;> rfl
  | bulkCreateGenericStringObjects objects =>
    have hreg : objects.foldl (fun s data => s.startWaiting (.client data.id) id) { s with
        inFlightBulkCreateObjects := Function.update s.inFlightBulkCreateObjects id
          (some (objects.map GenericStringObjectToCreate.id).toFinset) } =
        s.register id (.bulkCreateGenericStringObjects objects) := by
      rw [foldl_startWaiting]
      ext1
      case inFlightBulkCreateObjects =>
        funext id'
        simp only [register, Function.update_apply, QueueItem.isBulk, and_true, bulkObjects]
      all_goals rfl
    rw [send, bulkCreate, hreg, request]
    have hf : (fun object : GenericStringObjectToCreate =>
        (s.register id (.bulkCreateGenericStringObjects objects)).folderId object.initialFolderId) =
        fun object => s.folderId object.initialFolderId := rfl
    rw [hf]
    cases objects.mapM fun object => s.folderId object.initialFolderId <;> rfl

/-! ## The item that is taken -/

/-- The queue takes the item next. -/
structure Takes (s : SyncQueue) (id : QueueItemId) (item : QueueItem) : Prop where
  shouldDequeue : s.shouldDequeue = true
  find : s.queue.find? s.isReady = some (id, item)

theorem Takes.mem (h : s.Takes id item) : (id, item) ∈ s.queue := List.mem_of_find?_eq_some h.find

theorem Takes.ready (h : s.Takes id item) : s.queueDependencies id = some ∅ := by
  have hr : s.isReady (id, item) = true := List.find?_some h.find
  exact of_decide_eq_true hr

theorem Takes.queued (h : s.Takes id item) : id ∈ s.queued := mem_queued.mpr ⟨item, h.mem⟩

theorem WellFormed.nodup (h : s.WellFormed) : s.queued.Nodup := h.sorted.imp Nat.ne_of_lt

/-- Only the item itself leaves the queue. -/
theorem take_eq_drop (h : s.WellFormed) (ht : s.Takes id item) : s.take id = s.drop id := by
  obtain ⟨hready, before, behind, hq, hbefore⟩ := List.find?_eq_some_iff_append.mp ht.find
  have hids : s.queued = before.map Prod.fst ++ id :: behind.map Prod.fst := by
    rw [queued, hq, List.map_append, List.map_cons]
  have hnodup := h.nodup
  rw [hids, List.nodup_middle, List.nodup_cons, List.mem_append, not_or] at hnodup
  have hne : ∀ l : List (QueueItemId × QueueItem), id ∉ l.map Prod.fst →
      l.filter (fun e => e.1 ≠ id) = l := by
    intro l hl
    refine List.filter_eq_self.mpr fun e he => decide_eq_true fun heq => hl ?_
    exact List.mem_map.mpr ⟨e, he, heq⟩
  rw [take, drop, removeIdFromQueue]
  congr 1
  rw [hq, List.eraseP_append_right _ (fun e he => by simpa using hbefore e he),
    List.eraseP_cons_of_pos hready, List.filter_append, hne before hnodup.1.1,
    List.filter_cons_of_neg (by simp), hne behind hnodup.1.2]

theorem length_drop_lt (h : id ∈ s.queued) : (s.drop id).queue.length < s.queue.length := by
  have hsub : (s.drop id).queue.Sublist s.queue := List.filter_sublist
  refine lt_of_le_of_ne hsub.length_le fun heq => ?_
  have hq := hsub.eq_of_length heq
  rw [queued, ← hq] at h
  exact (mem_drop_queued.mp h).2 rfl

/-- What the queue does with an item that is taken and cannot be sent. -/
inductive Unsent (s : SyncQueue) (id : QueueItemId) (item : QueueItem) : SyncQueue → Prop
  | failed {syncId : SyncId} {l : List (QueueItemId × SyncQueueEvent)} :
    item.updated = some syncId → s.tryServerId syncId = none →
    (s.drop id).Withdrawn (.queueItem id) l →
    Unsent s id item (((s.drop id).withdraw l).emit id (.objectUpdateFailure syncId))
  | skipped : item.updated = none →
    Unsent s id item (((s.drop id).register id item).write (.skipped id))

theorem tryServerId_of_request {syncId : SyncId} (hu : item.updated = some syncId)
    (hr : s.request item = none) : s.tryServerId syncId = none := by
  cases item with
  | updateWorkflow | updateFolder | update =>
    obtain rfl := Option.some.inj hu
    exact Option.map_eq_none_iff.mp hr
  | _ => exact nomatch hu

/-- The failure of an update that is taken. -/
theorem updateFailure_drop (h : s.WellFormed) (hid : id ∈ s.queued) {syncId : SyncId}
    (hs : s.tryServerId syncId = none) : ∃ l, (s.drop id).Withdrawn (.queueItem id) l ∧
      (s.drop id).handleUpdateFailureResponse handleDependencyFailure syncId id =
        ((s.drop id).withdraw l).emit id (.objectUpdateFailure syncId) := by
  obtain ⟨l, hl, hspec⟩ := handleDependencyFailure_spec (h.drop id) (.queueItem id)
  have hstop : ∀ uid, (s.drop id).stopWaiting uid id = s.drop id :=
    fun uid => stopWaiting_eq_self ((h.idle id hid).1 uid)
  have hsync : (s.drop id).updatedSyncId syncId = syncId := by
    have hs' : (s.drop id).tryServerId syncId = none := hs
    rw [updatedSyncId, hs']
  refine ⟨l, hspec, ?_⟩
  rw [handleUpdateFailureResponse, hsync, hstop, hl]

/-- **A call of `dequeue` sends an item, or goes on behind one that cannot be sent.** -/
theorem dequeueN_succ (h : s.WellFormed) (ht : s.Takes id item) (n : ℕ) :
    (∃ r, s.request item = some r ∧ s.dequeueN (n + 1) = ((s.drop id).register id item).spawn id r) ∨
    s.request item = none ∧ ∃ t, s.Unsent id item t ∧ s.dequeueN (n + 1) = t.dequeueN n := by
  have hr : (s.take id).request item = s.request item := rfl
  have hstep : s.dequeueN (n + 1) = (s.drop id).send (dequeueN n) id item := by
    rw [dequeueN, ht.shouldDequeue, ht.find, Bool.not_true, if_neg Bool.false_ne_true]
    simp only
    rw [take_eq_drop h ht]
  rw [hstep, send_eq]
  rw [take_eq_drop h ht] at hr
  rw [hr]
  cases hreq : s.request item with
  | some r => exact Or.inl ⟨r, rfl, rfl⟩
  | none =>
    refine Or.inr ⟨rfl, ?_⟩
    cases hu : item.updated with
    | none => exact ⟨_, .skipped hu, rfl⟩
    | some syncId =>
      have hs := tryServerId_of_request hu hreq
      obtain ⟨l, hspec, heq⟩ := updateFailure_drop h ht.queued hs
      exact ⟨_, .failed hu hs hspec, congrArg (dequeueN n) heq⟩

theorem dequeueN_of_not_takes (h : ∀ id item, ¬ s.Takes id item) (n : ℕ) : s.dequeueN n = s := by
  cases n with
  | zero => rfl
  | succ n =>
    rw [dequeueN]
    split
    · rfl
    · rename_i hon
      split
      · rfl
      · rename_i id item hfind
        exact absurd ⟨by simpa using hon, hfind⟩ (h id item)

/-- What holds before `dequeue` and is kept by what it does holds behind it. -/
theorem dequeueN_induction {I : SyncQueue → Prop} (hwf : ∀ t, I t → t.WellFormed)
    (hsent : ∀ t id item r, I t → t.Takes id item → t.request item = some r →
      I (((t.drop id).register id item).spawn id r))
    (hunsent : ∀ t id item t', I t → t.Takes id item → t.request item = none → t.Unsent id item t' →
      I t') (n : ℕ) (h : I s) : I (s.dequeueN n) := by
  induction n generalizing s with
  | zero => exact h
  | succ n ih =>
    by_cases ht : ∃ id item, s.Takes id item
    · obtain ⟨id, item, ht⟩ := ht
      rcases dequeueN_succ (hwf s h) ht n with ⟨r, hr, heq⟩ | ⟨hr, t, hu, heq⟩
      · rw [heq]
        exact hsent s id item r h ht hr
      · rw [heq]
        exact ih (hunsent s id item t h ht hr hu)
    · rw [dequeueN_of_not_takes (fun id item h' => ht ⟨id, item, h'⟩)]
      exact h

/-! ## Well-formedness -/

theorem WellFormed.emit (h : s.WellFormed) (id : QueueItemId) (event : SyncQueueEvent) :
    (s.emit id event).WellFormed :=
  h.sub (List.Sublist.refl _) (fun _ => Or.inl ⟨rfl, fun hid => hid⟩) rfl rfl rfl rfl

theorem WellFormed.write (h : s.WellFormed) (entry : LogEntry) : (s.write entry).WellFormed :=
  h.sub (List.Sublist.refl _) (fun _ => Or.inl ⟨rfl, fun hid => hid⟩) rfl rfl rfl rfl

theorem WellFormed.register (h : (s.drop id).WellFormed) (hid : id < s.nextId) (item : QueueItem) :
    ((s.drop id).register id item).WellFormed := by
  refine { h with waiting_lt := fun uid id' hmem => ?_, bulk_lt := fun id' hb => ?_, idle := ?_ }
  · simp only [SyncQueue.register] at hmem
    split at hmem
    · rcases Finset.mem_insert.mp hmem with rfl | hmem
      · exact hid
      · exact h.waiting_lt uid id' hmem
    · exact h.waiting_lt uid id' hmem
  · simp only [SyncQueue.register] at hb
    split at hb
    · rename_i he
      exact he.1 ▸ hid
    · exact h.bulk_lt id' hb
  · intro id' hid'
    have hne : id' ≠ id := (mem_drop_queued.mp hid').2
    obtain ⟨hw, hb, hs⟩ := h.idle id' hid'
    refine ⟨fun uid hmem => ?_, ?_, hs⟩
    · simp only [SyncQueue.register] at hmem
      split at hmem
      · exact (Finset.mem_insert.mp hmem).elim hne (hw uid)
      · exact hw uid hmem
    · simp only [SyncQueue.register]
      rw [if_neg fun he => hne he.1]
      exact hb

theorem WellFormed.spawn (h : s.WellFormed) (hid : id < s.nextId) (hq : id ∉ s.queued)
    (hs : id ∉ s.inFlight) (r : Request) : (s.spawn id r).WellFormed := by
  have hin : (s.spawn id r).inFlight = s.inFlight ++ [id] := by
    simp [inFlight, SyncQueue.spawn, SyncQueue.write]
  refine { h with inFlight_lt := fun id' hmem => ?_, inFlight_nodup := ?_, idle := ?_ }
  · rw [hin, List.mem_append, List.mem_singleton] at hmem
    rcases hmem with hmem | rfl
    · exact h.inFlight_lt id' hmem
    · exact hid
  · rw [hin, List.nodup_append']
    refine ⟨h.inFlight_nodup, List.nodup_singleton id, fun id' hmem hmem' => hs ?_⟩
    exact List.mem_singleton.mp hmem' ▸ hmem
  · intro id' hid'
    obtain ⟨hw, hb, hs'⟩ := h.idle id' hid'
    refine ⟨hw, hb, ?_⟩
    rw [hin, List.mem_append, List.mem_singleton]
    rintro (hmem | rfl)
    · exact hs' hmem
    · exact hq hid'

theorem WellFormed.sent (h : s.WellFormed) (ht : s.Takes id item) (r : Request) :
    (((s.drop id).register id item).spawn id r).WellFormed := by
  have hid := h.queued_lt id ht.queued
  refine ((h.drop id).register hid item).spawn hid ?_ (h.idle id ht.queued).2.2 r
  exact fun hmem => (mem_drop_queued.mp hmem).2 rfl

theorem WellFormed.unsent (h : s.WellFormed) (ht : s.Takes id item) {t : SyncQueue}
    (hu : s.Unsent id item t) : t.WellFormed := by
  cases hu with
  | failed _ _ _ => exact ((h.drop id).withdraw _).emit id _
  | skipped _ => exact ((h.drop id).register (h.queued_lt id ht.queued) item).write _

theorem WellFormed.dequeueN (h : s.WellFormed) (n : ℕ) : (s.dequeueN n).WellFormed :=
  dequeueN_induction (fun _ h => h) (fun _ _ _ r h ht _ => h.sent ht r)
    (fun _ _ _ _ h ht _ hu => h.unsent ht hu) n h

end SyncQueue

end Clinch
