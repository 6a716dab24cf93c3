import Clinch.SyncQueue.Dequeue

/-!
# Inferring dependencies

What `add_inferred_dependencies` finds for an item: the items that are about the object it updates, and
the items about the objects that its workflow refers to. A workflow that refers to an object that no item
is about is announced as failed, and queued all the same.

* `collectDependencies_spec`: the loop over the ids of a workflow;
* `Inferred`, `infer`, `infer_spec`;
* `push_eq`: what `enqueue` does before it dequeues.
-/

set_option autoImplicit false

namespace Clinch

/-! ## Items up to their workflow -/

namespace QueueItem

variable (f : Workflow → Workflow) (item : QueueItem)

@[simp] theorem objects_mapModel : (item.mapModel f).objects = item.objects := by cases item <;> rfl

@[simp] theorem updated_mapModel : (item.mapModel f).updated = item.updated := by cases item <;> rfl

@[simp] theorem isBulk_mapModel : (item.mapModel f).isBulk = item.isBulk := by cases item <;> rfl

@[simp] theorem model_mapModel : (item.mapModel f).model = item.model.map f := by cases item <;> rfl

@[simp] theorem isPlain_mapModel : (item.mapModel f).isPlain = item.isPlain := by cases item <;> rfl

@[simp] theorem dependencyOn_mapModel (id : QueueItemId) (uid : SyncId) :
    (item.mapModel f).dependencyOn id uid = item.dependencyOn id uid := by cases item <;> rfl

@[simp] theorem revision_mapModel : (item.mapModel f).revision = item.revision := by
  cases item <;> rfl

@[simp] theorem carriesRevision_mapModel :
    (item.mapModel f).carriesRevision = item.carriesRevision := by cases item <;> rfl

theorem mapModel_id : item.mapModel id = item := by cases item <;> rfl

/-- An item is about the objects that others wait for. -/
theorem dependencyOn_isSome (id : QueueItemId) (uid : SyncId) :
    (item.dependencyOn id uid).isSome = true ↔ uid ∈ item.objects := by
  cases item with
  | bulkCreateGenericStringObjects objects =>
    simp [dependencyOn, QueueItem.objects]
  | recordObjectAction => simp [dependencyOn, QueueItem.objects]
  | _ =>
    simp only [dependencyOn, QueueItem.objects, List.mem_singleton]
    split
    · rename_i h
      simp [h]
    · rename_i h
      simp [Ne.symm h]

theorem dependencyOn_item {id : QueueItemId} {uid : SyncId} {d : QueueDependency}
    (h : item.dependencyOn id uid = some d) : d.item = id := by
  cases item with
  | bulkCreateGenericStringObjects objects =>
    obtain ⟨data, -, rfl⟩ := Option.map_eq_some_iff.mp h
    rfl
  | recordObjectAction => exact nomatch h
  | _ =>
    rw [dependencyOn] at h
    split at h
    · obtain rfl := Option.some.inj h
      rfl
    · exact nomatch h

end QueueItem

/-! ## The ids of a workflow -/

/-- The id in the place of the id. -/
def SyncId.replace (oldId newId id : SyncId) : SyncId := if id = oldId then newId else id

theorem Workflow.objectIds_replaceObjectId (oldId newId : SyncId) (w : Workflow) :
    (w.replaceObjectId oldId newId).objectIds = w.objectIds.map (SyncId.replace oldId newId) := by
  have henum : ∀ args : List Argument,
      (args.map (Argument.replaceObjectId oldId newId)).filterMap (fun arg => arg.argType.enumId) =
        (args.filterMap fun arg => arg.argType.enumId).map (SyncId.replace oldId newId) := by
    intro args
    rw [List.filterMap_map, List.map_filterMap]
    refine List.filterMap_congr fun arg _ => ?_
    obtain ⟨name, argType⟩ := arg
    cases argType <;> rfl
  cases w with
  | agentMode name query args =>
    simp only [objectIds, getEnumIds, defaultEnvVars, replaceObjectId, arguments, henum,
      List.map_append]
    rfl
  | command name text args environmentVariables =>
    simp only [objectIds, getEnumIds, defaultEnvVars, replaceObjectId, arguments, henum,
      List.map_append]
    cases environmentVariables <;> rfl

namespace SyncQueue

variable {s : SyncQueue} {id : QueueItemId} {item : QueueItem}

/-- What the loop over the ids leaves in the workflow: ids that have no server id, and server ids. -/
theorem collectDependencies_model (ids : List SyncId) (model : Workflow)
    (dependencies : Finset QueueDependency) {others : Finset QueueDependency}
    (h : (s.collectDependencies ids model dependencies).2 = some others) :
    ∀ uid ∈ (s.collectDependencies ids model dependencies).1.objectIds,
      uid ∈ model.objectIds ∧ (uid ∈ ids → s.tryServerId uid = none) ∨
        ∃ serverId, uid = .server serverId := by
  induction ids generalizing model dependencies with
  | nil => exact fun uid hmem => Or.inl ⟨hmem, fun h => absurd h List.not_mem_nil⟩
  | cons id ids ih =>
    rw [collectDependencies] at h ⊢
    cases hs : s.tryServerId id with
    | some serverId =>
      rw [hs] at h
      intro uid hmem
      rcases ih _ _ h uid hmem with ⟨hmodel, hids⟩ | hserver
      · rw [Workflow.objectIds_replaceObjectId] at hmodel
        obtain ⟨uid', hmem', rfl⟩ := List.mem_map.mp hmodel
        rw [SyncId.replace] at hids ⊢
        split
        · exact Or.inr ⟨serverId, rfl⟩
        · rename_i hne
          rw [if_neg hne] at hids
          exact Or.inl ⟨hmem', fun hcons => hids ((List.mem_cons.mp hcons).resolve_left hne)⟩
      · exact Or.inr hserver
    | none =>
      rw [hs] at h
      simp only at h ⊢
      split at h
      · exact nomatch h
      · rename_i hne
        rw [if_neg hne]
        intro uid hmem
        rcases ih _ _ h uid hmem with ⟨hmodel, hids⟩ | hserver
        · refine Or.inl ⟨hmodel, fun hcons => ?_⟩
          rcases List.mem_cons.mp hcons with rfl | hcons
          · exact hs
          · exact hids hcons
        · exact Or.inr hserver

/-- What the loop finds. -/
theorem collectDependencies_spec (ids : List SyncId) (model : Workflow)
    (dependencies : Finset QueueDependency) {others : Finset QueueDependency}
    (h : (s.collectDependencies ids model dependencies).2 = some others) :
    dependencies ⊆ others ∧
    (∀ uid ∈ ids, s.tryServerId uid = none →
      s.getItemsWithObjectId uid ≠ ∅ ∧ s.getItemsWithObjectId uid ⊆ others) ∧
    ∀ d ∈ others, d ∈ dependencies ∨ ∃ uid ∈ ids, d ∈ s.getItemsWithObjectId uid := by
  induction ids generalizing model dependencies with
  | nil =>
    obtain rfl := Option.some.inj h
    exact ⟨Finset.Subset.refl _, List.forall_mem_nil _, fun d hd => Or.inl hd⟩
  | cons id ids ih =>
    rw [collectDependencies] at h
    cases hs : s.tryServerId id with
    | some serverId =>
      rw [hs] at h
      obtain ⟨hsub, hids, hsource⟩ := ih _ _ h
      refine ⟨hsub, fun uid hmem hnone => ?_, fun d hd => ?_⟩
      · rcases List.mem_cons.mp hmem with rfl | hmem
        · exact nomatch hs.symm.trans hnone
        · exact hids uid hmem hnone
      · exact (hsource d hd).imp_right fun ⟨uid, hmem, hd⟩ => ⟨uid, List.mem_cons_of_mem _ hmem, hd⟩
    | none =>
      rw [hs] at h
      simp only at h
      split at h
      · exact nomatch h
      · rename_i hne
        obtain ⟨hsub, hids, hsource⟩ := ih _ _ h
        refine ⟨Finset.union_subset_left hsub, fun uid hmem hnone => ?_, fun d hd => ?_⟩
        · rcases List.mem_cons.mp hmem with rfl | hmem
          · exact ⟨hne, Finset.union_subset_right hsub⟩
          · exact hids uid hmem hnone
        · rcases hsource d hd with hd | ⟨uid, hmem, hd⟩
          · refine (Finset.mem_union.mp hd).imp_right fun hd => ?_
            exact ⟨id, List.mem_cons_self, hd⟩
          · exact Or.inr ⟨uid, List.mem_cons_of_mem _ hmem, hd⟩

/-- The loop goes through when every id is known or waited for. -/
theorem collectDependencies_isSome (ids : List SyncId) (model : Workflow)
    (dependencies : Finset QueueDependency)
    (h : ∀ uid ∈ ids, s.tryServerId uid = none → s.getItemsWithObjectId uid ≠ ∅) :
    ∃ others, (s.collectDependencies ids model dependencies).2 = some others := by
  induction ids generalizing model dependencies with
  | nil => exact ⟨_, rfl⟩
  | cons id ids ih =>
    have htail : ∀ uid ∈ ids, s.tryServerId uid = none → s.getItemsWithObjectId uid ≠ ∅ :=
      fun uid hmem => h uid (List.mem_cons_of_mem _ hmem)
    rw [collectDependencies]
    cases hs : s.tryServerId id with
    | some serverId => exact ih _ _ htail
    | none =>
      simp only
      rw [if_neg (h id List.mem_cons_self hs)]
      exact ih _ _ htail

/-- The ids of the items that others wait for were given out. -/
theorem item_lt_of_mem (h : s.WellFormed) {uid : SyncId} {d : QueueDependency}
    (hd : d ∈ s.getItemsWithObjectId uid) : d.item < s.nextId := by
  rw [getItemsWithObjectId, Finset.mem_union, List.mem_toFinset, Finset.mem_image] at hd
  rcases hd with hd | ⟨id, hid, rfl⟩
  · obtain ⟨e, he, hd⟩ := List.mem_filterMap.mp hd
    rw [e.2.dependencyOn_item hd]
    exact h.queued_lt e.1 (mem_queued.mpr ⟨e.2, he⟩)
  · have hitem : (s.dependencyForQueueItemId id uid).item = id := by
      unfold dependencyForQueueItemId
      split
      · split <;> rfl
      · rfl
    rw [hitem]
    exact h.waiting_lt uid id hid

/-! ## What is inferred -/

/-- The item with the server ids that are known, its dependencies, and the failures of a workflow that
refers to an object that no item is about. -/
structure Inference where
  item : QueueItem
  dependencies : Finset QueueDependency
  errors : List SyncQueueEvent

def infer (s : SyncQueue) : QueueItem → Inference
  | .updateFolder syncId content =>
    ⟨.updateFolder syncId content, s.getUpdateDependencies syncId, []⟩
  | .update kind syncId content revision =>
    ⟨.update kind syncId content revision, s.getUpdateDependencies syncId, []⟩
  | .updateWorkflow model syncId revision =>
    match s.collectDependencies model.objectIds model ∅ with
    | (model, some others) =>
      ⟨.updateWorkflow model syncId revision, s.getUpdateDependencies syncId ∪ others, []⟩
    | (model, none) => ⟨.updateWorkflow model syncId revision, s.getUpdateDependencies syncId,
        [.objectCreationFailure (.other syncId .user), .objectUpdateFailure (s.updatedSyncId syncId)]⟩
  | .createWorkflow objectType clientId model content initialFolderId initiatedBy =>
    match s.collectDependencies model.objectIds model ∅ with
    | (model, some others) =>
      ⟨.createWorkflow objectType clientId model content initialFolderId initiatedBy, others, []⟩
    | (model, none) =>
      ⟨.createWorkflow objectType clientId model content initialFolderId initiatedBy, ∅,
        [.objectCreationFailure (.other (.client clientId) .user),
          .objectCreationFailure (.other (.client clientId) initiatedBy)]⟩
  | item => ⟨item, ∅, []⟩

structure Inferred (s : SyncQueue) (item : QueueItem) (r : Inference) : Prop where
  same : ∃ f, r.item = item.mapModel f
  update : ∀ syncId, item.updated = some syncId → s.getUpdateDependencies syncId ⊆ r.dependencies
  source : ∀ d ∈ r.dependencies, ∃ uid, d ∈ s.getItemsWithObjectId uid
  plain : item.isPlain = true → r.dependencies = ∅
  /-- The references that have no server id are waited for. -/
  references : r.errors = [] → ∀ clientId, .client clientId ∈ r.item.references →
    s.clientIdToServer clientId = none ∧ s.getItemsWithObjectId (.client clientId) ≠ ∅ ∧
      s.getItemsWithObjectId (.client clientId) ⊆ r.dependencies
  failure : ∀ event ∈ r.errors, event.isFailure = true
  errors : (∀ uid ∈ item.references, s.tryServerId uid = none → s.getItemsWithObjectId uid ≠ ∅) →
    r.errors = []

theorem source_getUpdateDependencies {syncId : SyncId} {d : QueueDependency}
    (hd : d ∈ s.getUpdateDependencies syncId) : ∃ uid, d ∈ s.getItemsWithObjectId uid := by
  rw [getUpdateDependencies] at hd
  split at hd
  · rcases Finset.mem_union.mp hd with hd | hd
    · exact ⟨_, hd⟩
    · exact ⟨_, hd⟩
  · exact ⟨_, hd⟩

/-- The references of the workflow that the loop leaves. -/
theorem references_collect {model : Workflow} {others : Finset QueueDependency}
    (h : (s.collectDependencies model.objectIds model ∅).2 = some others) {clientId : ClientId}
    (hmem : .client clientId ∈ (s.collectDependencies model.objectIds model ∅).1.objectIds) :
    s.clientIdToServer clientId = none ∧ s.getItemsWithObjectId (.client clientId) ≠ ∅ ∧
      s.getItemsWithObjectId (.client clientId) ⊆ others := by
  rcases collectDependencies_model _ _ _ h _ hmem with ⟨hmodel, hids⟩ | ⟨serverId, hserver⟩
  · have hnone := hids hmodel
    exact ⟨hnone, (collectDependencies_spec _ _ _ h).2.1 _ hmodel hnone⟩
  · exact nomatch hserver

theorem source_collect {model : Workflow} {others : Finset QueueDependency}
    (h : (s.collectDependencies model.objectIds model ∅).2 = some others) {d : QueueDependency}
    (hd : d ∈ others) : ∃ uid, d ∈ s.getItemsWithObjectId uid := by
  rcases (collectDependencies_spec _ _ _ h).2.2 d hd with hd | ⟨uid, -, hd⟩
  · exact absurd hd (Finset.notMem_empty d)
  · exact ⟨uid, hd⟩

/-- **What is inferred for an item.** -/
theorem infer_spec (s : SyncQueue) (item : QueueItem) : s.Inferred item (s.infer item) := by
  cases item with
  | updateFolder syncId content =>
    refine ⟨⟨id, rfl⟩, fun u hu => ?_, fun d hd => source_getUpdateDependencies hd, nofun, ?_,
      List.forall_mem_nil _, fun _ => rfl⟩
    · obtain rfl := Option.some.inj hu
      exact Finset.Subset.refl _
    · exact fun _ clientId hmem => (nomatch hmem)
  | update kind syncId content revision =>
    refine ⟨⟨id, rfl⟩, fun u hu => ?_, fun d hd => source_getUpdateDependencies hd, nofun, ?_,
      List.forall_mem_nil _, fun _ => rfl⟩
    · obtain rfl := Option.some.inj hu
      exact Finset.Subset.refl _
    · exact fun _ clientId hmem => (nomatch hmem)
  | updateWorkflow model syncId revision =>
    have hsome := collectDependencies_isSome (s := s) model.objectIds model ∅
    have hmodel := @references_collect s model
    have hsource := @source_collect s model
    rw [infer]
    generalize s.collectDependencies model.objectIds model ∅ = r at hsome hmodel hsource ⊢
    obtain ⟨model', others⟩ := r
    cases others with
    | some others =>
      refine ⟨⟨fun _ => model', rfl⟩, fun u hu => ?_, fun d hd => ?_, nofun, ?_,
        List.forall_mem_nil _, fun _ => rfl⟩
      · obtain rfl := Option.some.inj hu
        exact Finset.subset_union_left
      · rcases Finset.mem_union.mp hd with hd | hd
        · exact source_getUpdateDependencies hd
        · exact hsource rfl hd
      · intro _ clientId hmem
        obtain ⟨hnone, hne, hsub⟩ := hmodel rfl hmem
        exact ⟨hnone, hne, hsub.trans Finset.subset_union_right⟩
    | none =>
      refine ⟨⟨fun _ => model', rfl⟩, fun u hu => ?_, fun d hd => source_getUpdateDependencies hd, nofun,
        nofun, ?_, fun href => ?_⟩
      · obtain rfl := Option.some.inj hu
        exact Finset.Subset.refl _
      · simp [SyncQueueEvent.isFailure]
      · obtain ⟨others, hothers⟩ := hsome href
        exact nomatch hothers
  | createWorkflow objectType clientId model content initialFolderId initiatedBy =>
    have hsome := collectDependencies_isSome (s := s) model.objectIds model ∅
    have hmodel := @references_collect s model
    have hsource := @source_collect s model
    rw [infer]
    generalize s.collectDependencies model.objectIds model ∅ = r at hsome hmodel hsource ⊢
    obtain ⟨model', others⟩ := r
    cases others with
    | some others =>
      exact ⟨⟨fun _ => model', rfl⟩, fun _ hu => (nomatch hu), fun d hd => hsource rfl hd, nofun,
        fun _ clientId hmem => hmodel rfl hmem, List.forall_mem_nil _, fun _ => rfl⟩
    | none =>
      refine ⟨⟨fun _ => model', rfl⟩, fun _ hu => (nomatch hu),
        fun d hd => absurd hd (Finset.notMem_empty d), nofun, fun he => (nomatch he), ?_,
        fun href => ?_⟩
      · simp [SyncQueueEvent.isFailure]
      · obtain ⟨others, hothers⟩ := hsome href
        exact nomatch hothers
  | createObject | bulkCreateGenericStringObjects | recordObjectAction =>
    exact ⟨⟨id, rfl⟩, fun _ hu => (nomatch hu), fun d hd => absurd hd (Finset.notMem_empty d),
      fun _ => rfl, fun _ clientId hmem => (nomatch hmem), List.forall_mem_nil _, fun _ => rfl⟩

/-! ## Enqueueing -/

/-- The events are announced. -/
def announce (id : QueueItemId) (events : List SyncQueueEvent) (s : SyncQueue) : SyncQueue :=
  { s with log := s.log ++ events.map (.event id) }

/-- The dependencies of the item are recorded. -/
def depend (id : QueueItemId) (dependencies : Finset QueueDependency) (s : SyncQueue) : SyncQueue :=
  { s with queueDependencies :=
      Function.update s.queueDependencies id (some (dependencies.erase (.queueItem id))) }

theorem addInferredDependencies_of_errors (h : (s.infer item).errors = []) :
    s.addInferredDependencies item id =
      ((s.infer item).item, s.depend id (s.infer item).dependencies) := by
  cases item with
  | updateWorkflow model syncId revision =>
    rw [infer] at h ⊢
    rw [addInferredDependencies]
    generalize s.collectDependencies model.objectIds model ∅ = r at h ⊢
    obtain ⟨model', _ | others⟩ := r
    · cases h
    · rfl
  | createWorkflow objectType clientId model content initialFolderId initiatedBy =>
    rw [infer] at h ⊢
    rw [addInferredDependencies]
    generalize s.collectDependencies model.objectIds model ∅ = r at h ⊢
    obtain ⟨model', _ | others⟩ := r
    · cases h
    · rfl
  | _ => rfl

/-- The id was not used so far. -/
structure Fresh (s : SyncQueue) (id : QueueItemId) : Prop where
  wellFormed : s.WellFormed
  waiting : ∀ uid, id ∉ s.waitingResponse uid
  bulk : s.inFlightBulkCreateObjects id = none
  dependency : ∀ id' dependencies, s.queueDependencies id' = some dependencies →
    .queueItem id ∉ dependencies

theorem Fresh.emit (h : s.Fresh id) (event : SyncQueueEvent) : (s.emit id event).Fresh id :=
  ⟨h.wellFormed.emit id event, h.waiting, h.bulk, h.dependency⟩

/-- Nothing depends on a new item. -/
theorem Fresh.handleDependencyFailure (h : s.Fresh id) :
    s.handleDependencyFailure (.queueItem id) = s := by
  obtain ⟨l, hl, hspec⟩ := handleDependencyFailure_spec h.wellFormed (.queueItem id)
  have hnone : ∀ id', ¬ s.Dependent (.queueItem id) id' := by
    intro id' hd
    induction hd with
    | direct hd hmem => exact h.dependency _ _ hd hmem
    | through _ _ _ ih => exact ih
  have hnil : l = [] := by
    cases l with
    | nil => rfl
    | cons e l => exact absurd ((hspec.mem e.1).mp List.mem_cons_self) (hnone e.1)
  rw [hl, hnil, withdraw_nil]

theorem Fresh.handleCreationFailureResponse (h : s.Fresh id) (uid : SyncId)
    (initiatedBy : InitiatedBy) :
    s.handleCreationFailureResponse SyncQueue.handleDependencyFailure uid id initiatedBy =
      s.emit id (.objectCreationFailure (.other uid initiatedBy)) := by
  have hcreate : s.creationDependencyForId id uid = (.queueItem id, s) := by
    cases uid with
    | client clientId => rw [creationDependencyForId, creationDependencyForClientId, h.bulk]
    | server serverId => rfl
  rw [SyncQueue.handleCreationFailureResponse, handleCreationFailure,
    stopWaiting_eq_self (h.waiting uid), hcreate]
  exact congrArg (SyncQueue.emit id _) h.handleDependencyFailure

theorem Fresh.handleUpdateFailureResponse (h : s.Fresh id) (syncId : SyncId) :
    s.handleUpdateFailureResponse SyncQueue.handleDependencyFailure syncId id =
      s.emit id (.objectUpdateFailure (s.updatedSyncId syncId)) := by
  rw [SyncQueue.handleUpdateFailureResponse, stopWaiting_eq_self (h.waiting _),
    h.handleDependencyFailure]

theorem Fresh.addInferredDependencies (h : s.Fresh id) (item : QueueItem) :
    s.addInferredDependencies item id = ((s.infer item).item,
      (s.announce id (s.infer item).errors).depend id (s.infer item).dependencies) := by
  cases item with
  | updateWorkflow model syncId revision =>
    rw [infer, SyncQueue.addInferredDependencies]
    generalize s.collectDependencies model.objectIds model ∅ = r
    obtain ⟨model', _ | others⟩ := r
    · simp only
      rw [h.handleCreationFailureResponse, (h.emit _).handleUpdateFailureResponse]
      simp [announce, depend, SyncQueue.emit, SyncQueue.write, updatedSyncId, tryServerId]
    · simp [announce, depend]
  | createWorkflow objectType clientId model content initialFolderId initiatedBy =>
    rw [infer, SyncQueue.addInferredDependencies]
    generalize s.collectDependencies model.objectIds model ∅ = r
    obtain ⟨model', _ | others⟩ := r
    · simp only
      rw [h.handleCreationFailureResponse, (h.emit _).handleCreationFailureResponse]
      simp [announce, depend, SyncQueue.emit, SyncQueue.write]
    · simp [announce, depend]
  | _ => simp [SyncQueue.addInferredDependencies, infer, announce, depend]

/-- The item is in the queue. -/
def pushed (item : QueueItem) (s : SyncQueue) : SyncQueue :=
  { s with
    queue := s.queue ++ [(s.nextId, (s.infer item).item)]
    queueDependencies :=
      Function.update s.queueDependencies s.nextId (some (s.infer item).dependencies)
    nextId := s.nextId + 1
    log := s.log ++ .enqueued s.nextId item :: (s.infer item).errors.map (.event s.nextId) }

theorem collectDependencies_congr {s' : SyncQueue} (ht : s'.tryServerId = s.tryServerId)
    (hg : s'.getItemsWithObjectId = s.getItemsWithObjectId) (ids : List SyncId) (model : Workflow)
    (dependencies : Finset QueueDependency) :
    s'.collectDependencies ids model dependencies = s.collectDependencies ids model dependencies := by
  induction ids generalizing model dependencies with
  | nil => rfl
  | cons id ids ih =>
    rw [collectDependencies, collectDependencies, ht, hg]
    simp only [ih]

theorem infer_write (item : QueueItem) (entry : LogEntry) (n : ℕ) :
    ({ s with nextId := n }.write entry).infer item = s.infer item := by
  have hcollect : ∀ ids model dependencies, ({ s with nextId := n }.write entry).collectDependencies
      ids model dependencies = s.collectDependencies ids model dependencies :=
    collectDependencies_congr rfl rfl
  cases item with
  | createWorkflow => rw [infer, infer, hcollect]
  | updateWorkflow =>
    rw [infer, infer, hcollect]
    rfl
  | _ => rfl

/-- **What `enqueue` does before it dequeues.** -/
theorem push_eq (h : s.WellFormed) (item : QueueItem) : s.push item = s.pushed item := by
  have hlt : ∀ uid, ∀ d ∈ s.getItemsWithObjectId uid, d.item < s.nextId :=
    fun uid d hd => item_lt_of_mem h hd
  have hfresh : ({ s with nextId := s.nextId + 1 }.write (.enqueued s.nextId item)).Fresh
      s.nextId := by
    refine ⟨?_, fun uid hmem => (h.waiting_lt uid _ hmem).false, ?_, fun id' dependencies hd hmem => ?_⟩
    · exact { h with
        queued_lt := fun id hid => (h.queued_lt id hid).trans_le (Nat.le_succ _)
        inFlight_lt := fun id hid => (h.inFlight_lt id hid).trans_le (Nat.le_succ _)
        waiting_lt := fun uid id hid => (h.waiting_lt uid id hid).trans_le (Nat.le_succ _)
        bulk_lt := fun id hid => (h.bulk_lt id hid).trans_le (Nat.le_succ _)
        dependency_lt := fun id dependencies hid d hd =>
          (h.dependency_lt id dependencies hid d hd).trans_le (Nat.le_succ _) }
    · by_contra hb
      exact (h.bulk_lt _ hb).false
    · exact (h.dependency_lt id' dependencies hd _ hmem).false
  have herase : (s.infer item).dependencies.erase (.queueItem s.nextId) =
      (s.infer item).dependencies := by
    refine Finset.erase_eq_of_notMem fun hmem => ?_
    obtain ⟨uid, hd⟩ := (infer_spec s item).source _ hmem
    exact (hlt uid _ hd).false
  rw [push]
  simp only
  rw [hfresh.addInferredDependencies, infer_write]
  ext1
  case queueDependencies => exact congrArg (Function.update s.queueDependencies s.nextId <| some ·) herase
  case log => simp [pushed, announce, depend, write]
  all_goals rfl

theorem queued_pushed (item : QueueItem) : (s.pushed item).queued = s.queued ++ [s.nextId] := by
  simp [queued, pushed]

theorem WellFormed.pushed (h : s.WellFormed) (item : QueueItem) : (s.pushed item).WellFormed := by
  have hspec := infer_spec s item
  constructor
  · rw [queued_pushed, List.pairwise_append]
    exact ⟨h.sorted, List.pairwise_singleton _ _, fun id hid id' hid' =>
      List.mem_singleton.mp hid' ▸ h.queued_lt id hid⟩
  · intro id hid
    rw [queued_pushed, List.mem_append, List.mem_singleton] at hid
    rcases hid with hid | rfl
    · exact (h.queued_lt id hid).trans_le (Nat.le_succ _)
    · exact Nat.lt_succ_self _
  · exact fun id hid => (h.inFlight_lt id hid).trans_le (Nat.le_succ _)
  · exact h.inFlight_nodup
  · exact fun uid id hid => (h.waiting_lt uid id hid).trans_le (Nat.le_succ _)
  · exact fun id hid => (h.bulk_lt id hid).trans_le (Nat.le_succ _)
  · intro id dependencies hid d hd
    simp only [SyncQueue.pushed, Function.update_apply] at hid
    refine Nat.lt_succ_of_lt ?_
    split at hid
    · obtain rfl := Option.some.inj hid
      obtain ⟨uid, hd⟩ := hspec.source d hd
      exact item_lt_of_mem h hd
    · exact h.dependency_lt id dependencies hid d hd
  · intro id hid
    simp only [SyncQueue.pushed, Function.update_apply] at hid
    rw [queued_pushed, List.mem_append, List.mem_singleton]
    split at hid
    · exact Or.inr ‹_›
    · exact Or.inl (h.queued_of_dependencies id hid)
  · intro id item' dependencies hmem hp hid
    simp only [SyncQueue.pushed, Function.update_apply, List.mem_append, List.mem_singleton] at hmem hid
    rcases hmem with hmem | hmem
    · have hlt := h.queued_lt id (mem_queued.mpr ⟨item', hmem⟩)
      rw [if_neg hlt.ne] at hid
      exact h.plain id item' dependencies hmem hp hid
    · obtain ⟨rfl, rfl⟩ := Prod.mk.inj hmem
      rw [if_pos rfl] at hid
      obtain rfl := Option.some.inj hid
      obtain ⟨f, hf⟩ := hspec.same
      rw [hf, QueueItem.isPlain_mapModel] at hp
      exact hspec.plain hp
  · intro id hid
    rw [queued_pushed, List.mem_append, List.mem_singleton] at hid
    rcases hid with hid | rfl
    · exact h.idle id hid
    · refine ⟨fun uid hmem => (h.waiting_lt uid _ hmem).false, ?_, fun hmem =>
        (h.inFlight_lt _ hmem).false⟩
      by_contra hb
      exact (h.bulk_lt _ hb).false

end SyncQueue

end Clinch
