import Clinch.SyncQueue.Answer
import Mathlib.Data.List.Nodup

/-!
# Loading the queue

The queue is built from the items that are loaded. While their dependencies are inferred, an item whose
workflow refers to an unknown object fails, and what depends on it leaves the queue; the loaded items are
put back behind the loop.

* `Loading`: what holds inside the loop of `initialize_queue_dependencies`;
* `Loading.handleDependencyFailureN`, `Loading.addInferredDependencies`: the loop keeps it;
* `wellFormed_new`, `unsent_new`: the queue when its items are loaded.
-/

set_option autoImplicit false

namespace Clinch

/-- Who waits for the dependency waits for the item, or for one of its objects. -/
def QueueItem.Offers (item : QueueItem) : QueueDependency → Prop
  | .queueItem _ => item.isBulk = false
  | .bulkCreateGenericStringObject _ clientId => item.isBulk = true ∧ .client clientId ∈ item.objects

theorem QueueItem.offers_congr {item item' : QueueItem} (hb : item'.isBulk = item.isBulk)
    (ho : item'.objects = item.objects) {d : QueueDependency} : item'.Offers d ↔ item.Offers d := by
  cases d with
  | queueItem id => rw [Offers, Offers, hb]
  | bulkCreateGenericStringObject id clientId => rw [Offers, Offers, hb, ho]

theorem QueueItem.offers_of_dependencyOn {item : QueueItem} {id : QueueItemId} {uid : SyncId}
    {d : QueueDependency} (h : item.dependencyOn id uid = some d) : item.Offers d := by
  cases item with
  | bulkCreateGenericStringObjects objects =>
    obtain ⟨data, hfind, rfl⟩ := Option.map_eq_some_iff.mp h
    exact ⟨rfl, List.mem_map_of_mem (List.mem_of_find?_eq_some hfind)⟩
  | recordObjectAction => cases h
  | _ =>
    rw [dependencyOn] at h
    split at h
    · obtain rfl := Option.some.inj h
      rfl
    · cases h

namespace SyncQueue

variable {items : List (QueueItemId × QueueItem)} {s : SyncQueue} {id : QueueItemId}

structure Loading (items : List (QueueItemId × QueueItem)) (s : SyncQueue) : Prop where
  queue : s.queue ⊆ items
  waiting : ∀ uid, s.waitingResponse uid = ∅
  bulk : ∀ id, s.inFlightBulkCreateObjects id = none
  spawned : s.spawned = []
  nextId : s.nextId = items.length
  loaded : ∀ id, s.queueDependencies id ≠ none → id ∈ items.map Prod.fst
  dependency : ∀ id dependencies, s.queueDependencies id = some dependencies →
    ∀ d ∈ dependencies, ∃ item, (d.item, item) ∈ items ∧ item.Offers d
  plain : ∀ id item dependencies, (id, item) ∈ items → item.isPlain = true →
    s.queueDependencies id = some dependencies → dependencies = ∅
  unsent : ∀ entry ∈ s.log, entry.isSent = false

/-- Items leave the queue, and lose their dependencies. -/
theorem Loading.sub {s' : SyncQueue} (h : s.Loading items) (hq : s'.queue ⊆ s.queue)
    (hw : s'.waitingResponse = s.waitingResponse)
    (hb : s'.inFlightBulkCreateObjects = s.inFlightBulkCreateObjects)
    (hs : s'.spawned = s.spawned) (hn : s'.nextId = s.nextId)
    (hd : ∀ id dependencies, s'.queueDependencies id = some dependencies →
      s.queueDependencies id = some dependencies)
    (hl : ∀ entry ∈ s'.log, entry ∈ s.log ∨ entry.isSent = false) : s'.Loading items where
  queue := List.Subset.trans hq h.queue
  waiting uid := by rw [hw, h.waiting]
  bulk id := by rw [hb, h.bulk]
  spawned := by rw [hs, h.spawned]
  nextId := by rw [hn, h.nextId]
  loaded id hid := by
    obtain ⟨dependencies, hid⟩ := Option.ne_none_iff_exists'.mp hid
    exact h.loaded id (by rw [hd id dependencies hid]; exact Option.some_ne_none _)
  dependency id dependencies hid := h.dependency id dependencies (hd id dependencies hid)
  plain id item dependencies hmem hp hid := h.plain id item dependencies hmem hp
    (hd id dependencies hid)
  unsent entry hmem := (hl entry hmem).elim (h.unsent entry) id

theorem Loading.emit (h : s.Loading items) (id : QueueItemId) (event : SyncQueueEvent) :
    (s.emit id event).Loading items := by
  refine h.sub (List.Subset.refl _) rfl rfl rfl rfl (fun _ _ hid => hid) fun entry hmem => ?_
  rcases List.mem_append.mp hmem with hmem | hmem
  · exact Or.inl hmem
  · exact Or.inr (List.mem_singleton.mp hmem ▸ rfl)

theorem Loading.drop (h : s.Loading items) (id : QueueItemId) : (s.drop id).Loading items := by
  refine h.sub List.filter_sublist.subset rfl rfl rfl rfl (fun id' dependencies hid => ?_)
    fun _ hmem => Or.inl hmem
  rw [queueDependencies_drop] at hid
  split at hid
  · cases hid
  · exact hid

section Failures

variable {fail : QueueDependency → SyncQueue → SyncQueue}
  (hfail : ∀ (d : QueueDependency) (t : SyncQueue), t.Loading items → (fail d t).Loading items)

include hfail

theorem Loading.creationFailure (h : s.Loading items) (uid : SyncId) (id : QueueItemId)
    (initiatedBy : InitiatedBy) :
    (s.handleCreationFailureResponse fail uid id initiatedBy).Loading items := by
  have hcreate : (s.stopWaiting uid id).creationDependencyForId id uid = (.queueItem id, s) := by
    rw [stopWaiting_eq_self (by rw [h.waiting]; exact Finset.notMem_empty id)]
    cases uid with
    | client clientId => rw [creationDependencyForId, creationDependencyForClientId, h.bulk]
    | server serverId => rfl
  rw [handleCreationFailureResponse, handleCreationFailure, hcreate]
  exact (hfail _ _ h).emit id _

theorem Loading.updateFailure (h : s.Loading items) (syncId : SyncId) (id : QueueItemId) :
    (s.handleUpdateFailureResponse fail syncId id).Loading items := by
  rw [handleUpdateFailureResponse,
    stopWaiting_eq_self (by rw [h.waiting]; exact Finset.notMem_empty id)]
  exact (hfail _ _ h).emit id _

theorem Loading.failItem (h : s.Loading items) (id : QueueItemId) (item : QueueItem) :
    (s.failItem fail id item).Loading items := by
  cases item with
  | createObject | createWorkflow => exact h.creationFailure hfail _ id _
  | bulkCreateGenericStringObjects objects =>
    refine objects.foldlRecOn _ (motive := fun t => Loading items t) h fun t ht object _ => ?_
    exact ht.creationFailure hfail _ id _
  | updateWorkflow | updateFolder | update => exact h.updateFailure hfail _ id
  | recordObjectAction uid content timestamp =>
    rw [SyncQueue.failItem, handleObjectActionFailureResponse,
      stopWaiting_eq_self (by rw [h.waiting]; exact Finset.notMem_empty id)]
    exact (hfail _ _ h).emit id _

end Failures

theorem Loading.handleDependencyFailureN (n : ℕ) (h : s.Loading items) (d : QueueDependency) :
    (s.handleDependencyFailureN n d).Loading items := by
  induction n generalizing s d with
  | zero => exact h
  | succ n ih =>
    refine (s.dependentObjects d).foldlRecOn _ (motive := fun t => Loading items t) h
      fun t ht e _ => ?_
    have hremove : (t.removeIdFromQueue e.1).Loading items :=
      ht.sub List.filter_sublist.subset rfl rfl rfl rfl (fun _ _ hid => hid) fun _ hmem => Or.inl hmem
    simp only
    split
    · exact hremove
    · exact (ht.drop e.1).failItem (fun d t ht => ih ht d) e.1 e.2

theorem Loading.handleDependencyFailure (h : s.Loading items) (d : QueueDependency) :
    (s.handleDependencyFailure d).Loading items := h.handleDependencyFailureN _ d

/-- The items that others wait for were loaded. -/
theorem Loading.source (h : s.Loading items) {uid : SyncId} {d : QueueDependency}
    (hd : d ∈ s.getItemsWithObjectId uid) : ∃ item, (d.item, item) ∈ items ∧ item.Offers d := by
  rw [getItemsWithObjectId, h.waiting, Finset.image_empty, Finset.union_empty,
    List.mem_toFinset] at hd
  obtain ⟨e, he, hd⟩ := List.mem_filterMap.mp hd
  rw [e.2.dependencyOn_item hd]
  exact ⟨e.2, h.queue he, QueueItem.offers_of_dependencyOn hd⟩

theorem queueDependencies_depend (id id' : QueueItemId) (dependencies : Finset QueueDependency)
    (s : SyncQueue) : (s.depend id dependencies).queueDependencies id' =
      if id' = id then some (dependencies.erase (.queueItem id)) else s.queueDependencies id' :=
  Function.update_apply _ _ _ _

theorem Loading.depend (h : s.Loading items) (hnodup : (items.map Prod.fst).Nodup)
    {item : QueueItem} (hmem : (id, item) ∈ items) {dependencies : Finset QueueDependency}
    (hd : ∀ d ∈ dependencies, ∃ item, (d.item, item) ∈ items ∧ item.Offers d)
    (hp : item.isPlain = true → dependencies = ∅) : (s.depend id dependencies).Loading items := by
  refine ⟨h.queue, h.waiting, h.bulk, h.spawned, h.nextId, fun id' hid => ?_, ?_, ?_, h.unsent⟩
  · rw [queueDependencies_depend] at hid
    split at hid
    · rename_i he
      exact he ▸ List.mem_map_of_mem hmem
    · exact h.loaded id' hid
  · intro id' dependencies' hid d hd'
    rw [queueDependencies_depend] at hid
    split at hid
    · obtain rfl := Option.some.inj hid
      exact hd d (Finset.mem_of_mem_erase hd')
    · exact h.dependency id' dependencies' hid d hd'
  · intro id' item' dependencies' hmem' hp' hid
    rw [queueDependencies_depend] at hid
    split at hid
    · rename_i he
      have hitem := List.inj_on_of_nodup_map hnodup hmem' hmem he
      rw [← Option.some.inj hid, hp ((Prod.mk.inj hitem).2 ▸ hp'),
        Finset.erase_eq_of_notMem (Finset.notMem_empty _)]
    · exact h.plain id' item' dependencies' hmem' hp' hid

/-- The inference for an item: failures, if its workflow refers to an unknown object, and then its
dependencies. -/
theorem addInferredDependencies_eq (item : QueueItem) (id : QueueItemId) (s : SyncQueue) :
    ∃ t : SyncQueue, s.addInferredDependencies item id =
        ((s.infer item).item, t.depend id (s.infer item).dependencies) ∧
      (s.Loading items → t.Loading items) := by
  have hfail : ∀ (d : QueueDependency) (t : SyncQueue), t.Loading items →
      (t.handleDependencyFailure d).Loading items := fun d t ht => ht.handleDependencyFailure d
  cases item with
  | updateWorkflow model syncId revision =>
    rw [infer, addInferredDependencies]
    generalize s.collectDependencies model.objectIds model ∅ = r
    obtain ⟨model', others⟩ := r
    cases others with
    | none => exact ⟨_, rfl, fun h => (h.creationFailure hfail _ id _).updateFailure hfail _ id⟩
    | some others => exact ⟨s, rfl, fun h => h⟩
  | createWorkflow objectType clientId model content initialFolderId initiatedBy =>
    rw [infer, addInferredDependencies]
    generalize s.collectDependencies model.objectIds model ∅ = r
    obtain ⟨model', others⟩ := r
    cases others with
    | none => exact ⟨_, rfl, fun h => (h.creationFailure hfail _ id _).creationFailure hfail _ id _⟩
    | some others => exact ⟨s, rfl, fun h => h⟩
  | _ => exact ⟨s, rfl, fun h => h⟩

theorem Loading.addInferredDependencies (h : s.Loading items)
    (hnodup : (items.map Prod.fst).Nodup) {item : QueueItem} (hmem : (id, item) ∈ items) :
    (∃ f, (s.addInferredDependencies item id).1 = item.mapModel f) ∧
      (s.addInferredDependencies item id).2.Loading items := by
  obtain ⟨t, heq, ht⟩ := @addInferredDependencies_eq items item id s
  have hspec := infer_spec s item
  rw [heq]
  refine ⟨hspec.same, (ht h).depend hnodup hmem (fun d hd => ?_) hspec.plain⟩
  obtain ⟨uid, hd⟩ := hspec.source d hd
  exact h.source hd

/-- The loop over the loaded items. -/
theorem Loading.initialize (h : s.Loading items) (hnodup : (items.map Prod.fst).Nodup)
    (es : List (QueueItemId × QueueItem)) (hes : es ⊆ items) :
    let r := es.foldl (fun (acc : List (QueueItemId × QueueItem) × SyncQueue) e =>
      (acc.1 ++ [(e.1, (acc.2.addInferredDependencies e.2 e.1).1)],
        (acc.2.addInferredDependencies e.2 e.1).2)) ([], s)
    r.1.map Prod.fst = es.map Prod.fst ∧ r.2.Loading items ∧
      ∀ id item', (id, item') ∈ r.1 → ∃ item f, (id, item) ∈ es ∧ item' = item.mapModel f := by
  induction es using List.reverseRecOn with
  | nil => exact ⟨rfl, h, fun _ _ hmem => absurd hmem List.not_mem_nil⟩
  | append_singleton es e ih =>
    obtain ⟨hids, hloading, hsame⟩ := ih fun e' he' => hes (List.mem_append_left _ he')
    have hmem : (e.1, e.2) ∈ items := hes (List.mem_append_right _ (List.mem_singleton_self e))
    have hadd := hloading.addInferredDependencies hnodup hmem
    rw [List.foldl_append]
    refine ⟨?_, hadd.2, fun id item' hmem' => ?_⟩
    · rw [List.map_append, ← hids]
      exact List.map_append
    · rcases List.mem_append.mp hmem' with hmem' | hmem'
      · obtain ⟨item, f, hitem, hf⟩ := hsame id item' hmem'
        exact ⟨item, f, List.mem_append_left _ hitem, hf⟩
      · obtain ⟨rfl, rfl⟩ := Prod.mk.inj (List.mem_singleton.mp hmem')
        obtain ⟨f, hf⟩ := hadd.1
        exact ⟨e.2, f, List.mem_append_right _ (List.mem_singleton_self e), hf⟩

/-- The loaded items are back in the queue. -/
theorem Loading.wellFormed (h : s.Loading items)
    (hids : items.map Prod.fst = List.range items.length) {queue : List (QueueItemId × QueueItem)}
    (hqueue : queue.map Prod.fst = items.map Prod.fst)
    (hsame : ∀ id item', (id, item') ∈ queue → ∃ item f, (id, item) ∈ items ∧
      item' = item.mapModel f) : ({ s with queue := queue } : SyncQueue).WellFormed := by
  have hq : ({ s with queue := queue } : SyncQueue).queued = List.range items.length :=
    hqueue.trans hids
  have hi : ({ s with queue := queue } : SyncQueue).inFlight = [] :=
    congrArg (List.map Prod.fst) h.spawned
  have hlt : ∀ id ∈ List.range items.length, id < s.nextId :=
    fun id hid => h.nextId ▸ List.mem_range.mp hid
  constructor
  · rw [hq]
    exact List.pairwise_lt_range
  · rw [hq]
    exact hlt
  · rw [hi]
    exact List.forall_mem_nil _
  · rw [hi]
    exact List.nodup_nil
  · intro uid id hid
    rw [h.waiting] at hid
    exact absurd hid (Finset.notMem_empty id)
  · exact fun id hid => absurd (h.bulk id) hid
  · intro id dependencies hid d hd
    obtain ⟨item, hmem, -⟩ := h.dependency id dependencies hid d hd
    exact hlt _ (hids ▸ List.mem_map_of_mem (f := Prod.fst) hmem)
  · intro id hid
    rw [hq, ← hids]
    exact h.loaded id hid
  · intro id item' dependencies hmem hp hid
    obtain ⟨item, f, hitem, rfl⟩ := hsame id item' hmem
    exact h.plain id item dependencies hitem (item.isPlain_mapModel f ▸ hp) hid
  · intro id _
    rw [hi]
    refine ⟨fun uid hid => ?_, h.bulk id, List.not_mem_nil⟩
    rw [h.waiting] at hid
    exact absurd hid (Finset.notMem_empty id)

/-- What the queue is when its items are loaded, whatever they are. -/
theorem exists_loading_new (queueItems : List QueueItem) :
    ∃ items queue t, Loading items t ∧ items.map Prod.fst = List.range items.length ∧
      queue.map Prod.fst = items.map Prod.fst ∧ new queueItems = { t with queue := queue } ∧
      ∀ id item', (id, item') ∈ queue → ∃ item f, (id, item) ∈ items ∧ item' = item.mapModel f := by
  have hids : (queueItems.zipIdx.map fun e => (e.2, e.1)).map Prod.fst =
      List.range queueItems.length := by
    rw [List.map_map, List.range_eq_range']
    exact List.zipIdx_map_snd 0 queueItems
  have hlen : (queueItems.zipIdx.map fun e => (e.2, e.1)).length = queueItems.length := by simp
  rw [new, initializeQueueDependencies]
  generalize (queueItems.zipIdx.map fun e => (e.2, e.1)) = items at hids hlen ⊢
  have hnodup : (items.map Prod.fst).Nodup := hids ▸ List.nodup_range
  have hstart : Loading items ⟨items, fun _ => ∅, fun _ => none, fun _ => none, fun _ => none, false,
      fun _ => none, [], queueItems.length, items.map fun e => .enqueued e.1 e.2⟩ := by
    refine ⟨List.Subset.refl _, fun _ => rfl, fun _ => rfl, rfl, hlen.symm, ?_, ?_, ?_, ?_⟩
    · exact fun id hid => absurd rfl hid
    · exact fun id dependencies hid => by cases hid
    · exact fun id item dependencies _ _ hid => by cases hid
    · intro entry hmem
      obtain ⟨e, -, rfl⟩ := List.mem_map.mp hmem
      rfl
  obtain ⟨hkeys, h, hsame⟩ := hstart.initialize hnodup items (List.Subset.refl _)
  exact ⟨items, _, _, h, hlen ▸ hids, hkeys, rfl, hsame⟩

theorem wellFormed_new (queueItems : List QueueItem) : (new queueItems).WellFormed := by
  obtain ⟨items, queue, t, h, hids, hqueue, heq, hsame⟩ := exists_loading_new queueItems
  rw [heq]
  exact h.wellFormed hids hqueue hsame

/-- Nothing was sent when the items are loaded, and dequeueing has not begun. -/
theorem unsent_new (queueItems : List QueueItem) :
    (∀ entry ∈ (new queueItems).log, entry.isSent = false) ∧ (new queueItems).inFlight = [] := by
  obtain ⟨items, queue, t, h, -, -, heq, -⟩ := exists_loading_new queueItems
  rw [heq]
  exact ⟨h.unsent, congrArg (List.map Prod.fst) h.spawned⟩

end SyncQueue

end Clinch
