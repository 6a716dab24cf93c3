import Clinch.Along
import Clinch.SyncQueue.Progress
import Clinch.SyncQueue.Waiting

/-!
# What the queue gets stuck behind

No item waits for an item that is gone: what it waits for is queued, is in flight, or was skipped, when
the server answers what it was asked. So the queue gets stuck behind items that were skipped, and behind
nothing else.

* `Sound.pushed`, `Sound.sent`, `Sound.unsent`: enqueueing and dequeueing;
* `Sound.answer`: the answers that fit;
* `Stranded`, `Ordered`: behind a skipped item; no cycles;
* **`dependency_alive`**, **`stuck_behind_skipped`**.
-/

set_option autoImplicit false

namespace Clinch

namespace SyncQueue

variable {s s' : SyncQueue} {id : QueueItemId} {item : QueueItem} {request : Request}
  {live : List (QueueItemId × Request)} {d : QueueDependency}

/-! ## Enqueueing and dequeueing -/

/-- What is inferred is live. -/
theorem Sourced.source (h : s.Sourced live (fun _ => False) fun _ _ => False) {uid : SyncId}
    (hd : d ∈ s.getItemsWithObjectId uid) : s.Live live d := by
  rw [getItemsWithObjectId, Finset.mem_union, List.mem_toFinset, Finset.mem_image] at hd
  rcases hd with hd | ⟨id, hid, rfl⟩
  · obtain ⟨e, he, hd⟩ := List.mem_filterMap.mp hd
    refine Or.inl ⟨e.2, ?_, QueueItem.offers_of_dependencyOn hd⟩
    rw [e.2.dependencyOn_item hd]
    exact he
  · have hitem : (s.dependencyForQueueItemId id uid).item = id := by
      rw [dependencyForQueueItemId.eq_def]
      split
      · split <;> rfl
      · rfl
    rcases (h.waiting uid id hid).resolve_left not_false with ⟨r, hr, hawaited⟩ | hskipped
    · refine Or.inr (Or.inl ⟨r, hitem.symm ▸ hr, ?_⟩)
      rcases hawaited with hobject | ⟨hbulk, clientId, rfl, clientIds, hsome, hmem⟩
      · have hb : r.isBulk = false := by
          cases r with
          | createBulk objects => cases hobject
          | _ => rfl
        cases uid with
        | server serverId => exact hb
        | client clientId =>
          rw [dependencyForQueueItemId]
          split
          · rename_i hany
            obtain ⟨clientIds, hsome, hmem⟩ := (Option.any_eq_true _ _).mp hany
            rw [(h.bulk id r clientId hr ⟨clientIds, hsome, of_decide_eq_true hmem⟩).1] at hb
            cases hb
          · exact hb
      · have hany : (s.inFlightBulkCreateObjects id).any (clientId ∈ ·) = true := by
          rw [hsome]
          exact decide_eq_true hmem
        rw [dependencyForQueueItemId, if_pos hany]
        exact ⟨hbulk, clientIds, hsome, hmem⟩
    · exact Or.inr (Or.inr (hitem.symm ▸ hskipped))

theorem Sound.pushed (h : s.Sound) (item : QueueItem) : (s.pushed item).Sound := by
  have hlive : ∀ d, s.Live s.spawned d → (s.pushed item).Live (s.pushed item).spawned d := by
    rintro d (⟨item', hmem, hoffers⟩ | hlive)
    · exact Or.inl ⟨item', List.mem_append_left _ hmem, hoffers⟩
    · exact Or.inr (hlive.imp_right (List.mem_append_left _))
  refine ⟨fun id d hid => Or.inr ?_, fun uid id hid => ?_, h.bulk⟩
  · obtain ⟨dependencies, hsome, hmem⟩ := hid
    have hsome' : (if id = s.nextId then some (s.infer item).dependencies else s.queueDependencies id) =
        some dependencies := (Function.update_apply _ _ _ _).symm.trans hsome
    split at hsome'
    · obtain rfl := Option.some.inj hsome'
      obtain ⟨uid, hd⟩ := (infer_spec s item).source d hmem
      exact hlive d (Sourced.source h hd)
    · exact hlive d ((h.dependency id d ⟨dependencies, hsome', hmem⟩).resolve_left not_false)
  · exact (h.waiting uid id hid).imp_right (Or.imp_right (List.mem_append_left _))

/-- An item that is taken and cannot be sent. -/
theorem Sound.unsent (h : s.Sound) (hwf : s.WellFormed) (ht : s.Takes id item)
    (hu : s.Unsent id item s') : s'.Sound := by
  have hawaits : ∀ id' d, (s.drop id).Awaits id' d → s.Awaits id' d := by
    rintro id' d ⟨dependencies, hsome, hmem⟩
    rw [queueDependencies_drop] at hsome
    split at hsome
    · cases hsome
    · exact ⟨dependencies, hsome, hmem⟩
  have hkey : ∀ item', (id, item') ∈ s.queue → item' = item := fun item' hmem =>
    (Prod.mk.inj (List.inj_on_of_nodup_map hwf.nodup hmem ht.mem rfl)).2
  have hstays : ∀ id' item', (id', item') ∈ s.queue → id' ≠ id → (id', item') ∈ (s.drop id).queue :=
    fun id' item' hmem hne => List.mem_filter.mpr ⟨hmem, decide_eq_true hne⟩
  cases hu with
  | failed hupdated hsync hspec =>
    have hb : item.isBulk = false := by
      cases item with
      | bulkCreateGenericStringObjects objects => cases hupdated
      | _ => rfl
    have hdrop : (s.drop id).Sourced s.spawned (· = .queueItem id) fun _ _ => False := by
      refine ⟨fun id' d hid => ?_, h.waiting, h.bulk⟩
      rcases (h.dependency id' d (hawaits id' d hid)).resolve_left not_false with
        ⟨item', hmem, hoffers⟩ | hlive
      · by_cases he : d.item = id
        · rw [he] at hmem
          obtain rfl := hkey item' hmem
          cases d with
          | queueItem id'' => exact Or.inl (congrArg _ he)
          | bulkCreateGenericStringObject id'' clientId =>
            rw [hoffers.1] at hb
            cases hb
        · exact Or.inr (Or.inl ⟨item', hstays _ item' hmem he, hoffers⟩)
      · exact Or.inr (Or.inr hlive)
    exact (hdrop.withdraw (hwf.drop id) hspec).emit id _
  | skipped hupdated =>
    have hopen : ∀ id' clientId, id' ≠ id → (((s.drop id).register id item).Open id' clientId ↔
        s.Open id' clientId) := by
      intro id' clientId hne
      rw [Open, Open, register]
      simp only [hne, false_and, if_false]
      exact Iff.rfl
    have hne : ∀ id' r, (id', r) ∈ s.spawned → id' ≠ id := fun id' r hr he =>
      (hwf.idle id ht.queued).2.2 (he ▸ mem_inFlight hr)
    have hlog : ∀ id', .skipped id' ∈ s.log →
        .skipped id' ∈ (((s.drop id).register id item).write (.skipped id)).log :=
      fun _ => List.mem_append_left _
    have hself : .skipped id ∈ (((s.drop id).register id item).write (.skipped id)).log :=
      List.mem_append_right _ (List.mem_singleton_self _)
    refine ⟨fun id' d hid => Or.inr ?_, fun uid id' hid => Or.inr ?_, fun id' r clientId hr hopen' =>
      h.bulk id' r clientId hr ((hopen id' clientId (hne id' r hr)).mp hopen')⟩
    · rcases (h.dependency id' d (hawaits id' d hid)).resolve_left not_false with
        ⟨item', hmem, hoffers⟩ | ⟨r, hr, hoffers⟩ | hskipped
      · by_cases he : d.item = id
        · exact Or.inr (Or.inr (he ▸ hself))
        · exact Or.inl ⟨item', hstays _ item' hmem he, hoffers⟩
      · refine Or.inr (Or.inl ⟨r, hr, ?_⟩)
        cases d with
        | queueItem id'' => exact hoffers
        | bulkCreateGenericStringObject id'' clientId =>
          exact ⟨hoffers.1, (hopen id'' clientId (hne id'' r hr)).mpr hoffers.2⟩
      · exact Or.inr (Or.inr (hlog _ hskipped))
    · by_cases he : id' = id
      · exact Or.inr (he ▸ hself)
      have hid' : id' ∈ s.waitingResponse uid := by
        have hmem : id' ∈ if uid ∈ s.waitsFor item then insert id (s.waitingResponse uid)
          else s.waitingResponse uid := hid
        split at hmem
        · exact (Finset.mem_insert.mp hmem).resolve_left he
        · exact hmem
      rcases (h.waiting uid id' hid').resolve_left not_false with ⟨r, hr, hawaited⟩ | hskipped
      · refine Or.inl ⟨r, hr, hawaited.imp_right (And.imp_right ?_)⟩
        rintro ⟨clientId, rfl, hopen'⟩
        exact ⟨clientId, rfl, (hopen id' clientId (hne id' r hr)).mpr hopen'⟩
      · exact Or.inr (hlog _ hskipped)

/-- What a request that is sent is awaited as. -/
theorem awaitedAs_of_waitsFor {t : SyncQueue} (hr : s.request item = some request) {uid : SyncId}
    (huid : uid ∈ s.waitsFor item)
    (hopen : item.isBulk = true → ∀ clientId, .client clientId ∈ item.objects → t.Open id clientId) :
    t.AwaitedAs id request uid := by
  cases item with
  | bulkCreateGenericStringObjects objects =>
    obtain ⟨data, hdata, rfl⟩ := List.mem_map.mp huid
    refine Or.inr ⟨isBulk_of_request hr, data.id, rfl, hopen rfl data.id ?_⟩
    exact List.mem_map_of_mem hdata
  | createObject | createWorkflow =>
    obtain ⟨folderId, -, rfl⟩ := Option.map_eq_some_iff.mp hr
    exact Or.inl (congrArg some (List.mem_singleton.mp huid).symm)
  | updateWorkflow | updateFolder | update =>
    obtain ⟨serverId, hserver, rfl⟩ := Option.map_eq_some_iff.mp hr
    rw [waitsFor, QueueItem.updated] at huid
    simp only [hserver, Option.map_some, Option.toList_some, List.mem_singleton] at huid
    exact Or.inl (congrArg some huid.symm)
  | recordObjectAction => exact absurd huid List.not_mem_nil

theorem length_of_mapM {α β : Type} {f : α → Option β} {l : List α} {l' : List β}
    (h : l.mapM f = some l') : l'.length = l.length := by
  induction l generalizing l' with
  | nil =>
    obtain rfl := Option.some.inj h
    rfl
  | cons a l ih =>
    rw [List.mapM_cons] at h
    obtain ⟨b, -, h⟩ := Option.bind_eq_some_iff.mp h
    obtain ⟨l'', hl, h⟩ := Option.bind_eq_some_iff.mp h
    obtain rfl := Option.some.inj h
    rw [List.length_cons, List.length_cons, ih hl]

theorem bulkIds_of_request (hr : s.request item = some request) (hb : item.isBulk = true)
    (clientId : ClientId) : clientId ∈ request.bulkIds ↔ .client clientId ∈ item.objects := by
  cases item with
  | bulkCreateGenericStringObjects objects =>
    obtain ⟨folderIds, hfolders, rfl⟩ := Option.map_eq_some_iff.mp hr
    have hfst : (objects.zip folderIds).map Prod.fst = objects :=
      List.map_fst_zip (length_of_mapM hfolders).ge
    have hids : (Request.createBulk (objects.zip folderIds)).bulkIds =
        ((objects.zip folderIds).map Prod.fst).map GenericStringObjectToCreate.id := List.map_map.symm
    rw [hids, hfst, QueueItem.objects, List.mem_map, List.mem_map]
    simp only [SyncId.client.injEq]
  | _ => cases hb

/-- An item that is sent. -/
theorem Sound.sent (h : s.Sound) (hwf : s.WellFormed) (ht : s.Takes id item)
    (hr : s.request item = some request) :
    (((s.drop id).register id item).spawn id request).Sound := by
  set t := ((s.drop id).register id item).spawn id request with ht'
  have hspawned : t.spawned = s.spawned ++ [(id, request)] := rfl
  have hsame : ∀ id' clientId, id' ≠ id → (t.Open id' clientId ↔ s.Open id' clientId) := by
    intro id' clientId hne
    rw [ht', Open, Open, SyncQueue.spawn, write, register]
    simp only [hne, false_and, if_false]
    exact Iff.rfl
  have hself : ∀ clientId, t.Open id clientId ↔
      item.isBulk = true ∧ .client clientId ∈ item.objects := by
    intro clientId
    rw [ht', Open, SyncQueue.spawn, write, register]
    simp only [true_and]
    cases item with
    | bulkCreateGenericStringObjects objects =>
      simp [bulkObjects, QueueItem.isBulk, QueueItem.objects]
    | _ =>
      simp only [QueueItem.isBulk, Bool.false_eq_true, if_false, false_and, iff_false, drop,
        removeIdFromQueue, (hwf.idle id ht.queued).2.1]
      rintro ⟨clientIds, hsome, -⟩
      cases hsome
  have hne : ∀ id' r, (id', r) ∈ s.spawned → id' ≠ id := fun id' r hr he =>
    (hwf.idle id ht.queued).2.2 (he ▸ mem_inFlight hr)
  have hnew : (id, request) ∈ t.spawned := List.mem_append_right _ (List.mem_singleton_self _)
  have hold : ∀ e, e ∈ s.spawned → e ∈ t.spawned := fun _ => List.mem_append_left _
  refine ⟨fun id' d hid => Or.inr ?_, fun uid id' hid => Or.inr ?_, fun id' r clientId hr' hopen => ?_⟩
  · have hid' : s.Awaits id' d := by
      obtain ⟨dependencies, hsome, hmem⟩ := hid
      have hsome' := (queueDependencies_drop id id' s).symm.trans hsome
      split at hsome'
      · cases hsome'
      · exact ⟨dependencies, hsome', hmem⟩
    rcases (h.dependency id' d hid').resolve_left not_false with
      ⟨item', hmem, hoffers⟩ | ⟨r, hr', hoffers⟩ | hskipped
    · by_cases he : d.item = id
      · refine Or.inr (Or.inl ⟨request, he.symm ▸ hnew, ?_⟩)
        rw [he] at hmem
        obtain rfl := (Prod.mk.inj (List.inj_on_of_nodup_map hwf.nodup hmem ht.mem rfl)).2
        cases d with
        | queueItem id'' => exact (isBulk_of_request hr).trans hoffers
        | bulkCreateGenericStringObject id'' clientId =>
          refine ⟨(isBulk_of_request hr).trans hoffers.1, ?_⟩
          obtain rfl : id'' = id := he
          exact (hself clientId).mpr hoffers
      · exact Or.inl ⟨item', List.mem_filter.mpr ⟨hmem, decide_eq_true he⟩, hoffers⟩
    · refine Or.inr (Or.inl ⟨r, hold _ hr', ?_⟩)
      cases d with
      | queueItem id'' => exact hoffers
      | bulkCreateGenericStringObject id'' clientId =>
        exact ⟨hoffers.1, (hsame id'' clientId (hne id'' r hr')).mpr hoffers.2⟩
    · exact Or.inr (Or.inr (List.mem_append_left _ hskipped))
  · have hmem : id' ∈ if uid ∈ s.waitsFor item then insert id (s.waitingResponse uid)
        else s.waitingResponse uid := hid
    have hcases : id' = id ∧ uid ∈ s.waitsFor item ∨ id' ∈ s.waitingResponse uid := by
      split at hmem
      · rename_i huid
        exact (Finset.mem_insert.mp hmem).imp_left fun he => ⟨he, huid⟩
      · exact Or.inr hmem
    rcases hcases with ⟨rfl, huid⟩ | hid'
    · refine Or.inl ⟨request, hnew, awaitedAs_of_waitsFor hr huid fun hb clientId hc => ?_⟩
      exact (hself clientId).mpr ⟨hb, hc⟩
    · rcases (h.waiting uid id' hid').resolve_left not_false with ⟨r, hr', hawaited⟩ | hskipped
      · refine Or.inl ⟨r, hold _ hr', hawaited.imp_right (And.imp_right ?_)⟩
        rintro ⟨clientId, rfl, hopen⟩
        exact ⟨clientId, rfl, (hsame id' clientId (hne id' r hr')).mpr hopen⟩
      · exact Or.inr (List.mem_append_left _ hskipped)
  · rcases List.mem_append.mp hr' with hr' | hr'
    · exact h.bulk id' r clientId hr' ((hsame id' clientId (hne id' r hr')).mp hopen)
    · obtain ⟨rfl, rfl⟩ := Prod.mk.inj (List.mem_singleton.mp hr')
      obtain ⟨hb, hc⟩ := (hself clientId).mp hopen
      exact ⟨(isBulk_of_request hr).trans hb, (bulkIds_of_request hr hb clientId).mpr hc⟩

theorem Sound.dequeue (h : s.Sound) (hwf : s.WellFormed) : s.dequeue.Sound :=
  (dequeueN_induction (I := fun t => t.WellFormed ∧ t.Sound) (fun _ ht => ht.1)
    (fun _ _ _ r ht htakes hr => ⟨ht.1.sent htakes r, ht.2.sent ht.1 htakes hr⟩)
    (fun _ _ _ _ ht htakes _ hu => ⟨ht.1.unsent htakes hu, ht.2.unsent ht.1 htakes hu⟩)
    s.queue.length ⟨hwf, h⟩).2

/-- The objects of a request in flight stay as they are while items are sent. -/
theorem open_dequeue (hwf : s.WellFormed) (hid : id ∉ s.queued) {clientId : ClientId}
    (hopen : s.dequeue.Open id clientId) : s.Open id clientId := by
  have hbulk : ∀ t : SyncQueue, ∀ id' item', id ∉ t.queued → t.Takes id' item' →
      (((t.drop id').register id' item').inFlightBulkCreateObjects id) =
        t.inFlightBulkCreateObjects id := by
    intro t id' item' hid ht
    refine if_neg fun hand => hid ?_
    exact hand.1 ▸ ht.queued
  have hinv := dequeueN_induction (I := fun t => t.WellFormed ∧ id ∉ t.queued ∧
      t.inFlightBulkCreateObjects id = s.inFlightBulkCreateObjects id) (fun _ ht => ht.1)
    (fun t id' item' r ht htakes _ => ⟨ht.1.sent htakes r,
      fun hmem => ht.2.1 (mem_drop_queued.mp hmem).1, (hbulk t id' item' ht.2.1 htakes).trans ht.2.2⟩)
    (fun t id' item' t' ht htakes _ hu => by
      refine ⟨ht.1.unsent htakes hu, fun hmem => ht.2.1 ((quiet_unsent ht.1 htakes hu).queued hmem), ?_⟩
      cases hu with
      | failed _ _ _ => exact ht.2.2
      | skipped _ => exact (hbulk t id' item' ht.2.1 htakes).trans ht.2.2)
    s.queue.length ⟨hwf, hid, rfl⟩
  obtain ⟨clientIds, hsome, hmem⟩ := hopen
  exact ⟨clientIds, hinv.2.2.symm.trans hsome, hmem⟩

theorem Ongoing.dequeue (h : s.Ongoing id request) : s.dequeue.Ongoing id request ∧
    ∀ c, s.dequeue.Open id c → s.Open id c := by
  have hid : id ∉ s.queued := fun hid => (h.wellFormed.idle id hid).2.2 (mem_inFlight h.mem)
  exact ⟨⟨(moves_dequeue h.wellFormed).wellFormed h.wellFormed, h.sound.dequeue h.wellFormed,
    spawned_dequeueN h.wellFormed _ h.mem⟩, fun c => open_dequeue h.wellFormed hid⟩

/-! ## Answers that fit -/

/-- What is left of a request for one object when it is over. -/
theorem Sourced.single (h : s.Sound) (hwf : s.WellFormed) (hmem : (id, request) ∈ s.spawned)
    (hb : request.isBulk = false) : (s.finish id).WellFormed ∧
      ((s.finish id).Sourced (s.finish id).spawned (· = .queueItem id)
        fun uid id' => id' = id ∧ request.object = some uid) ∧
      ∀ clientId, ¬ (s.finish id).Open id clientId := by
  refine ⟨hwf.finish id, Sourced.finish h hwf hmem hb, fun clientId hopen => ?_⟩
  rw [(h.bulk id request clientId hmem hopen).1] at hb
  cases hb

theorem Sound.settled (h : s.Sound) (hwf : s.WellFormed) (hmem : (id, request) ∈ s.spawned)
    (hb : request.isBulk = false) {uid : SyncId} (initiatedBy : InitiatedBy)
    {response : ResponseType}
    (hobject : ∀ uid', request.object = some uid' → uid' = response.object uid) :
    ((s.finish id).settleSuccess uid id initiatedBy response).Sound := by
  obtain ⟨-, hsourced, hopen⟩ := Sourced.single h hwf hmem hb
  have hsettled := hsourced.settleSuccess hopen initiatedBy hobject
  rwa [← spawned_settleSuccess uid id initiatedBy response (s.finish id)] at hsettled

theorem Sound.success (h : s.Sound) (hwf : s.WellFormed) (hmem : (id, request) ∈ s.spawned)
    (hb : request.isBulk = false) {uid : SyncId} (initiatedBy : InitiatedBy)
    {response : ResponseType}
    (hobject : ∀ uid', request.object = some uid' → uid' = response.object uid) :
    ((s.finish id).handleSuccessResponse uid id initiatedBy response).Sound :=
  (h.settled hwf hmem hb initiatedBy hobject).dequeue
    (quiet_settleSuccess (hwf.finish id) uid id initiatedBy response).wellFormed

theorem spawned_failure (hwf : s.WellFormed) (d : QueueDependency) :
    (s.handleDependencyFailure d).spawned = s.spawned := by
  obtain ⟨l, hl, -⟩ := handleDependencyFailure_spec hwf d
  rw [hl]
  rfl

/-- The failure of an update or of an action. -/
theorem Sound.failed (h : s.Sound) (hwf : s.WellFormed) (hmem : (id, request) ∈ s.spawned)
    (hb : request.isBulk = false) {uid : SyncId}
    (hobject : ∀ uid', request.object = some uid' → uid' = uid) (event : SyncQueueEvent) :
    ((((s.finish id).stopWaiting uid id).handleDependencyFailure (.queueItem id)).emit id event
      ).Sound := by
  obtain ⟨hwf', hsourced, -⟩ := Sourced.single h hwf hmem hb
  have hstop := hsourced.stopWaiting hobject
  have hspawned : ((((s.finish id).stopWaiting uid id).handleDependencyFailure (.queueItem id)).emit id
      event).spawned = (s.finish id).spawned := spawned_failure (hwf'.stopWaiting uid id) (.queueItem id)
  rw [Sound, hspawned]
  exact (hstop.failure (hwf'.stopWaiting uid id)).emit id event

/-- The failure of a creation. -/
theorem Sound.creationFailed (h : s.Sound) (hwf : s.WellFormed) (hmem : (id, request) ∈ s.spawned)
    (hb : request.isBulk = false) {clientId : ClientId}
    (hobject : ∀ uid', request.object = some uid' → uid' = .client clientId) (event : SyncQueueEvent) :
    (((s.finish id).handleCreationFailure handleDependencyFailure (.client clientId) id).emit id event
      ).Sound := by
  obtain ⟨hwf', hsourced, hopen⟩ := Sourced.single h hwf hmem hb
  have hfail := (hsourced.creationFailure hwf' hopen hobject).emit id event
  rwa [← spawned_handleCreationFailure hwf' clientId id] at hfail

/-- The failure of a bulk request. -/
theorem Ongoing.failed {objects : List (GenericStringObjectToCreate × Option ServerId)}
    (h : s.Ongoing id (.createBulk objects)) (event : ClientId → SyncQueueEvent) :
    ((objects.foldl (fun s object => (s.handleCreationFailure handleDependencyFailure
      (.client object.1.id) id).emit id (event object.1.id)) s).finish id).Sound ∧
    (objects.foldl (fun s object => (s.handleCreationFailure handleDependencyFailure
      (.client object.1.id) id).emit id (event object.1.id)) s).WellFormed := by
  obtain ⟨hongoing, hopen⟩ := Ongoing.foldl (fun object => object.1.id)
    (fun t object ht => ht.creationFailure object.1.id (event object.1.id)) objects h
  exact ⟨hongoing.finish rfl (fun c hc => (hopen c hc).2) (List.Subset.refl _), hongoing.wellFormed⟩

theorem Ongoing.created {objects : List (GenericStringObjectToCreate × Option ServerId)}
    (h : s.Ongoing id (.createBulk objects)) {created : List CreatedCloudObject}
    (hfits : (ServerResponse.bulkCreated created).Fits (.createBulk objects)) :
    ((s.createdOneByOne id created).finish id).Sound := by
  obtain ⟨hongoing, hopen⟩ := Ongoing.foldl CreatedCloudObject.clientId
    (fun t object ht => by
      obtain ⟨hsettled, hopen⟩ := ht.settleSuccess (.server object.serverId) .user object.clientId
        object.serverId object.revision
      exact ⟨hsettled.dequeue.1, fun c hc => hopen c (hsettled.dequeue.2 c hc)⟩) created h
  exact hongoing.finish rfl (fun c hc => (hopen c hc).2) hfits

/-- An object is created: the workflows that wait for it get its server id. -/
theorem Sourced.created (h : s.Sourced s.spawned (· = .queueItem id)
      fun uid id' => id' = id ∧ request.object = some uid)
    (hwf : s.WellFormed) (hopen : ∀ clientId, ¬ s.Open id clientId) {clientId : ClientId}
    (objectType : ObjectType) (serverId : ServerId) (revision : Revision) (initiatedBy : InitiatedBy)
    (hobject : ∀ uid', request.object = some uid' → uid' = .client clientId) :
    ((s.updateDependenciesOnCreation (.queueItem id) clientId serverId objectType
      ).handleSuccessResponse (.server serverId) id initiatedBy
        (.creationSuccess clientId serverId revision)).Sound := by
  have hwf' := hwf.replace (.queueItem id) clientId serverId objectType
  have hreplaced := h.replace (.queueItem id) clientId serverId objectType
  have hopen' : ∀ c, ¬ (s.updateDependenciesOnCreation (.queueItem id) clientId serverId objectType
      ).Open id c := by
    rw [updateDependenciesOnCreation_eq]
    exact hopen
  have hspawned : (s.updateDependenciesOnCreation (.queueItem id) clientId serverId objectType
      ).spawned = s.spawned := by rw [updateDependenciesOnCreation_eq]
  generalize s.updateDependenciesOnCreation (.queueItem id) clientId serverId objectType = t at *
  have hsettled := @Sourced.settleSuccess t id request _ hreplaced hopen' (.server serverId) initiatedBy
    (.creationSuccess clientId serverId revision) hobject
  rw [← hspawned, ← spawned_settleSuccess (.server serverId) id initiatedBy
    (.creationSuccess clientId serverId revision) t] at hsettled
  exact Sound.dequeue hsettled (quiet_settleSuccess hwf' (.server serverId) id initiatedBy _).wellFormed

theorem Sound.write (h : s.Sound) (entry : LogEntry) : (s.write entry).Sound := Sourced.write h entry

theorem Sound.settleFailure (h : s.Sound) (hwf : s.WellFormed) (hmem : (id, request) ∈ s.spawned) :
    (s.settleFailure id request).Sound := by
  cases request with
  | create objectType clientId model content initialFolderId initiatedBy =>
    exact h.creationFailed hwf hmem rfl (fun uid' heq => (Option.some.inj heq).symm) _
  | createBulk objects =>
    have hfailed := Ongoing.failed ⟨hwf, h, hmem⟩ fun clientId =>
      .objectCreationFailure (.other (.client clientId) .user)
    exact hfailed.1
  | update serverId model content revision =>
    exact h.failed hwf hmem rfl (fun uid' heq => (Option.some.inj heq).symm) _
  | action serverId content timestamp =>
    exact h.failed hwf hmem rfl (fun uid' heq => by cases heq) _

theorem Sound.failure (h : s.Sound) (hwf : s.WellFormed) (hmem : (id, request) ∈ s.spawned)
    (error : List ErrorCause) :
    (((s.write (.failed id (error.any ErrorCause.isPersistent))).settleFailure id request
      ).maybeDequeueOnError error).Sound := by
  have hsound := (h.write (.failed id (error.any ErrorCause.isPersistent))).settleFailure
    (hwf.write _) hmem
  have hwf' := (quiet_settleFailure (hwf.write (.failed id (error.any ErrorCause.isPersistent)))
    hmem).wellFormed
  rw [maybeDequeueOnError]
  by_cases hpersistent : error.any ErrorCause.isPersistent = true
  · rw [if_pos hpersistent]
    exact hsound
  · rw [if_neg hpersistent]
    exact hsound.dequeue hwf'

/-- **An answer that fits settles what waits for it.** -/
theorem Sound.answer (h : s.Sound) (hwf : s.WellFormed) (hmem : (id, request) ∈ s.spawned)
    {response : ServerResponse} (hfits : response.Fits request) :
    (s.answer id request response).Sound := by
  cases request with
  | create objectType clientId model content initialFolderId initiatedBy =>
    cases response with
    | created serverId revision =>
      obtain ⟨hwf', hsourced, hopen⟩ := Sourced.single h hwf hmem rfl
      exact hsourced.created hwf' hopen objectType serverId revision initiatedBy
        fun uid' heq => (Option.some.inj heq).symm
    | userFacingError message =>
      exact h.success hwf hmem rfl initiatedBy fun uid' heq => (Option.some.inj heq).symm
    | uniqueKeyConflict =>
      have hsound := h.creationFailed hwf hmem rfl (fun uid' heq => (Option.some.inj heq).symm)
        (.objectCreationFailure (.uniqueKeyConflict (.client clientId) initiatedBy))
      exact hsound.dequeue
        (quiet_handleUniqueKeyCreationFailureResponse (hwf.finish id) _ id initiatedBy).wellFormed
    | failed error => exact h.failure hwf hmem error
    | _ => exact h
  | createBulk objects =>
    cases response with
    | bulkCreated created => exact Ongoing.created ⟨hwf, h, hmem⟩ hfits
    | uniqueKeyConflict =>
      have hfailed := Ongoing.failed ⟨hwf, h, hmem⟩ fun clientId =>
        .objectCreationFailure (.uniqueKeyConflict (.client clientId) .user)
      exact hfailed.1.dequeue (hfailed.2.finish id)
    | failed error => exact h.failure hwf hmem error
    | _ => exact h
  | update serverId model content revision =>
    cases response with
    | updated newRevision =>
      exact h.success hwf hmem rfl .user fun uid' heq => (Option.some.inj heq).symm
    | rejected object =>
      refine h.success hwf hmem rfl .user fun uid' heq => ?_
      exact Option.some.inj (heq.symm.trans hfits)
    | failed error => exact h.failure hwf hmem error
    | _ => exact h
  | action serverId content timestamp =>
    cases response with
    | recorded => exact h.success hwf hmem rfl .user fun uid' heq => by cases heq
    | failed error => exact h.failure hwf hmem error
    | _ => exact h

/-! ## Runs -/

theorem Sound.step (h : s.Sound) (hwf : s.WellFormed) {a : QueueAction} (hfits : a.Fits s) :
    (s.step a).Sound := by
  cases a with
  | enqueue item =>
    rw [SyncQueue.step, enqueue, push_eq hwf]
    exact (h.pushed item).dequeue (hwf.pushed item)
  | startDequeueing =>
    have hon : Sound { s with shouldDequeue := true } := ⟨h.dependency, h.waiting, h.bulk⟩
    exact hon.dequeue { hwf with }
  | stopDequeueing => exact ⟨h.dependency, h.waiting, h.bulk⟩
  | respond id response =>
    rw [SyncQueue.step, respond]
    split
    · rename_i id' request hfind
      have he : id' = id := of_decide_eq_true (List.find?_some hfind :)
      have hmem : (id, request) ∈ s.spawned := he ▸ List.mem_of_find?_eq_some hfind
      exact h.answer hwf hmem (hfits request hmem)
    · exact h

/-- What is awaited when the items are loaded is in the queue. -/
theorem sound_new (queueItems : List QueueItem) : (new queueItems).Sound := by
  obtain ⟨items, queue, t, h, hids, hqueue, heq, hsame⟩ := exists_loading_new queueItems
  have hnodup : (items.map Prod.fst).Nodup := hids ▸ List.nodup_range
  rw [heq]
  refine ⟨fun id d hid => Or.inr (Or.inl ?_), fun uid id hid => ?_, fun id r clientId hr => ?_⟩
  · obtain ⟨dependencies, hsome, hmem⟩ := hid
    obtain ⟨item, hitem, hoffers⟩ := h.dependency id dependencies hsome d hmem
    have hd : d.item ∈ queue.map Prod.fst := hqueue ▸ List.mem_map_of_mem (f := Prod.fst) hitem
    obtain ⟨e, he, hed⟩ := List.mem_map.mp hd
    obtain ⟨item₀, f, hitem₀, hf⟩ := hsame d.item e.2 (hed ▸ he)
    obtain rfl := (Prod.mk.inj (List.inj_on_of_nodup_map hnodup hitem₀ hitem rfl)).2
    refine ⟨e.2, hed ▸ he, ?_⟩
    rw [hf]
    exact (QueueItem.offers_congr (QueueItem.isBulk_mapModel _ _) (QueueItem.objects_mapModel _ _)).mpr
      hoffers
  · have hid' : id ∈ t.waitingResponse uid := hid
    rw [h.waiting] at hid'
    exact absurd hid' (Finset.notMem_empty id)
  · have hr' : (id, r) ∈ t.spawned := hr
    rw [h.spawned] at hr'
    exact absurd hr' List.not_mem_nil

theorem sound_run {queueItems : List QueueItem} {es : List QueueAction}
    (hfits : Along (new queueItems).run (fun s a => a.Fits s) es) :
    ((new queueItems).run es).WellFormed ∧ ((new queueItems).run es).Sound := by
  refine prefix_induction (Q := fun done => ((new queueItems).run done).WellFormed ∧
    ((new queueItems).run done).Sound) ⟨wellFormed_new queueItems, sound_new queueItems⟩
    (fun done a hdone h => ?_) (List.prefix_refl es)
  have hrun : (new queueItems).run (done ++ [a]) = ((new queueItems).run done).step a :=
    List.foldl_append
  rw [hrun]
  exact ⟨(moves_step h.1 a).wellFormed h.1, h.2.step h.1 (hfits done a hdone)⟩

theorem Sound.alive (h : s.Sound) (hd : s.Awaits id d) :
    d.item ∈ s.queued ∨ d.item ∈ s.inFlight ∨ .skipped d.item ∈ s.log := by
  rcases (h.dependency id d hd).resolve_left not_false with ⟨item, hmem, -⟩ | ⟨r, hr, -⟩ | hskipped
  · exact Or.inl (mem_queued.mpr ⟨item, hmem⟩)
  · exact Or.inr (Or.inl (mem_inFlight hr))
  · exact Or.inr (Or.inr hskipped)

/-- **No item waits for an item that is gone**: when the answers fit, what it waits for is queued, is in
flight, or was skipped. -/
theorem dependency_alive (queueItems : List QueueItem) (es : List QueueAction)
    (hfits : Along (new queueItems).run (fun s a => a.Fits s) es) {d : QueueDependency}
    (hd : ((new queueItems).run es).Awaits id d) : d.item ∈ ((new queueItems).run es).queued ∨
      d.item ∈ ((new queueItems).run es).inFlight ∨ .skipped d.item ∈ ((new queueItems).run es).log :=
  (sound_run hfits).2.alive hd

theorem dependency_alive_started :
    let items : List QueueItem :=
      [.createObject .notebook ⟨0⟩ "" none .user, .update .notebook (.client ⟨0⟩) "" none]
    0 ∈ ((new items).run [.startDequeueing]).queued ∨ 0 ∈ ((new items).run [.startDequeueing]).inFlight ∨
      .skipped 0 ∈ ((new items).run [.startDequeueing]).log := by
  intro items
  exact @dependency_alive 1 items [.startDequeueing] (along_nil.concat trivial) (.queueItem 0)
    ⟨{.queueItem 0}, by decide, by decide⟩

/-! ## Behind a skipped item -/

/-- The item waits, through other items, for one that was skipped. -/
inductive Stranded (s : SyncQueue) : QueueItemId → Prop
  | skipped {id : QueueItemId} {d : QueueDependency} : s.Awaits id d → .skipped d.item ∈ s.log →
    Stranded s id
  | behind {id : QueueItemId} {d : QueueDependency} : s.Awaits id d → Stranded s d.item →
    Stranded s id

/-- Each queued item waits for items before it. -/
def Ordered (s : SyncQueue) : Prop :=
  ∀ id ∈ s.queued, ∃ dependencies, s.queueDependencies id = some dependencies ∧
    ∀ d ∈ dependencies, d.item < id

theorem Ordered.move (h : s.Ordered) (hwf : s.WellFormed) (m : s.Move s') : s'.Ordered := by
  cases m with
  | push item =>
    intro id hid
    rw [queued_pushed, List.mem_append, List.mem_singleton] at hid
    rcases hid with hid | rfl
    · obtain ⟨dependencies, hsome, hlt⟩ := h id hid
      refine ⟨dependencies, ?_, hlt⟩
      exact (Function.update_of_ne (hwf.queued_lt id hid).ne _ _).trans hsome
    · refine ⟨(s.infer item).dependencies, Function.update_self _ _ _, fun d hd => ?_⟩
      obtain ⟨uid, hd⟩ := (infer_spec s item).source d hd
      exact item_lt_of_mem hwf hd
  | @send id' item r ht hr =>
    intro id hid
    obtain ⟨hid, hne⟩ := mem_drop_queued.mp hid
    obtain ⟨dependencies, hsome, hlt⟩ := h id hid
    exact ⟨dependencies, (queueDependencies_drop id' id s).trans ((if_neg hne).trans hsome), hlt⟩
  | quiet hq =>
    intro id hid
    obtain ⟨dependencies, hsome, hlt⟩ := h id (hq.queued hid)
    obtain ⟨dependencies', hsome', hsub⟩ := hq.dependencies id hid dependencies hsome
    exact ⟨dependencies', hsome', fun d hd => hlt d (hsub hd)⟩

/-- **The queue gets stuck behind items that were skipped, and behind nothing else.** From an
`enqueue` or `start_dequeueing` on, when the answers fit and no error concerns all requests: while
dequeueing is on and no request is in flight, each queued item waits for one that was skipped, if the
items that were loaded wait for items before them. -/
theorem stuck_behind_skipped (queueItems : List QueueItem) (es es' : List QueueAction) (a : QueueAction)
    (hordered : (new queueItems).Ordered)
    (hfits : Along (new queueItems).run (fun s a => a.Fits s) (es ++ a :: es'))
    (ha : a.dequeues = true) (hgo : ∀ a ∈ es', a.goesOn = true)
    (hon : ((new queueItems).run (es ++ a :: es')).shouldDequeue = true)
    (hidle : ((new queueItems).run (es ++ a :: es')).inFlight = []) :
    ∀ id ∈ ((new queueItems).run (es ++ a :: es')).queued,
      ((new queueItems).run (es ++ a :: es')).Stranded id := by
  have hwf := wellFormed_new queueItems
  have hrested : ((new queueItems).run (es ++ a :: es')).Rested := by
    have hrun : (new queueItems).run (es ++ a :: es') =
        (((new queueItems).run es).step a).run es' := List.foldl_append
    rw [hrun]
    exact .of_dequeues ((moves_run hwf es).wellFormed hwf) ha hgo
  have hready := hrested hon hidle
  have horder := ((moves_run hwf (es ++ a :: es')).induction hwf
    (fun _ _ hwf m h => h.move hwf m) hordered).2
  have hsound := (sound_run hfits).2
  generalize (new queueItems).run (es ++ a :: es') = s at hready horder hsound hidle ⊢
  intro id
  induction id using Nat.strong_induction_on with
  | _ id ih =>
    intro hid
    obtain ⟨dependencies, hsome, hlt⟩ := horder id hid
    obtain ⟨item, hmem⟩ := mem_queued.mp hid
    have hne : dependencies ≠ ∅ := by
      rintro rfl
      have hnot : decide (s.queueDependencies id = some ∅) = false := hready (id, item) hmem
      exact of_decide_eq_false hnot hsome
    obtain ⟨d, hd⟩ := Finset.nonempty_iff_ne_empty.mpr hne
    have hawaits : s.Awaits id d := ⟨dependencies, hsome, hd⟩
    rcases hsound.alive hawaits with hq | hin | hskipped
    · exact .behind hawaits (ih d.item (hlt d hd) hq)
    · rw [hidle] at hin
      exact absurd hin List.not_mem_nil
    · exact .skipped hawaits hskipped

/-- A notebook of a folder that is not known is skipped, and its update waits for it. -/
theorem stuck_behind_skipped_folder :
    let items : List QueueItem := [.createObject .notebook ⟨0⟩ "" (some (.client ⟨1⟩)) .user,
      .update .notebook (.client ⟨0⟩) "" none]
    ∀ id ∈ ((new items).run ([] ++ .startDequeueing :: [])).queued,
      ((new items).run ([] ++ .startDequeueing :: [])).Stranded id := by
  intro items
  have hordered : (new items).Ordered := by
    intro id hid
    have hcases : id = 0 ∨ id = 1 := by simpa using (show id ∈ [0, 1] from hid)
    rcases hcases with rfl | rfl
    · exact ⟨∅, by decide, by decide⟩
    · exact ⟨{.queueItem 0}, by decide, by decide⟩
  exact stuck_behind_skipped items [] [] .startDequeueing hordered (along_nil.concat trivial) rfl
    (List.forall_mem_nil _) (by decide) (by decide)

end SyncQueue

end Clinch
