import Clinch.SyncQueue.Item
import Mathlib.Logic.Function.Basic

/-!
# The sync queue

`SyncQueue` of `app/src/server/sync_queue.rs`, with its methods under their names. A map is the function
of its `get`; a set that is missing from `waiting_response` is empty there. The requests that the server
has not answered are `spawned`; the log and the next id are not part of the source's state.

* `SyncQueue`, `getItemsWithObjectId`, `getUpdateDependencies`, `addInferredDependencies`;
* `handleDependencyFailure` with its fuel, the failure responses;
* `dequeue`, `updateObject`, `createObject`, `recordObjectAction`, `bulkCreate`;
* `handleSuccessResponse`, `respond`, `QueueAction`, `SyncQueue.step`, `SyncQueue.run`.
-/

set_option autoImplicit false

namespace Clinch

@[ext]
structure SyncQueue where
  queue : List (QueueItemId × QueueItem)
  waitingResponse : SyncId → Finset QueueItemId
  inFlightBulkCreateObjects : QueueItemId → Option (Finset ClientId)
  clientIdToServer : ClientId → Option ServerId
  serverIdToClientHash : ServerId → Option ClientId
  shouldDequeue : Bool
  queueDependencies : QueueItemId → Option (Finset QueueDependency)
  /-- The requests without an answer. -/
  spawned : List (QueueItemId × Request)
  /-- The number that `QueueItemId::new` yields. -/
  nextId : QueueItemId
  log : List LogEntry

namespace SyncQueue

def write (entry : LogEntry) (s : SyncQueue) : SyncQueue := { s with log := s.log ++ [entry] }

/-- `ctx.emit`; the item that the event is about is not part of it. -/
def emit (id : QueueItemId) (event : SyncQueueEvent) (s : SyncQueue) : SyncQueue :=
  s.write (.event id event)

def tryServerId (s : SyncQueue) : SyncId → Option ServerId
  | .client clientId => s.clientIdToServer clientId
  | .server serverId => some serverId

def removeIdFromQueue (removeId : QueueItemId) (s : SyncQueue) : SyncQueue :=
  { s with queue := s.queue.filter fun e => e.1 ≠ removeId }

/-- `waiting_response.entry(..).or_default().insert(..)`. -/
def startWaiting (uid : SyncId) (id : QueueItemId) (s : SyncQueue) : SyncQueue :=
  { s with waitingResponse :=
      Function.update s.waitingResponse uid (insert id (s.waitingResponse uid)) }

/-- `if let Some(dependencies) = waiting_response.get_mut(..) { dependencies.remove(..) }`. -/
def stopWaiting (uid : SyncId) (id : QueueItemId) (s : SyncQueue) : SyncQueue :=
  { s with waitingResponse :=
      Function.update s.waitingResponse uid ((s.waitingResponse uid).erase id) }

/-! ## Dependencies -/

def dependencyForQueueItemId (s : SyncQueue) (id : QueueItemId) : SyncId → QueueDependency
  | .client clientId =>
    if (s.inFlightBulkCreateObjects id).any (clientId ∈ ·) then
      .bulkCreateGenericStringObject id clientId
    else .queueItem id
  | .server _ => .queueItem id

def getItemsWithObjectId (s : SyncQueue) (uid : SyncId) : Finset QueueDependency :=
  (s.queue.filterMap fun e => e.2.dependencyOn e.1 uid).toFinset ∪
    (s.waitingResponse uid).image fun id => s.dependencyForQueueItemId id uid

/-- The other id of the object, if it is known. -/
def convertedId (s : SyncQueue) : SyncId → Option SyncId
  | .client clientId => (s.clientIdToServer clientId).map .server
  | .server serverId => (s.serverIdToClientHash serverId).map .client

def getUpdateDependencies (s : SyncQueue) (id : SyncId) : Finset QueueDependency :=
  match s.convertedId id with
  | some associatedId => s.getItemsWithObjectId id ∪ s.getItemsWithObjectId associatedId
  | none => s.getItemsWithObjectId id

/-- The loop of `get_workflow_object_dependencies`: the workflow with the server ids that are known, and
no dependencies when there is an id that nothing in the queue is about. -/
def collectDependencies (s : SyncQueue) :
    List SyncId → Workflow → Finset QueueDependency → Workflow × Option (Finset QueueDependency)
  | [], model, dependencies => (model, some dependencies)
  | id :: ids, model, dependencies =>
    match s.tryServerId id with
    | some serverId =>
      s.collectDependencies ids (model.replaceObjectId id (.server serverId)) dependencies
    | none =>
      if s.getItemsWithObjectId id = ∅ then (model, none)
      else s.collectDependencies ids model (dependencies ∪ s.getItemsWithObjectId id)

/-! ## Failures -/

def creationDependencyForClientId (id : QueueItemId) (clientId : ClientId) (s : SyncQueue) :
    QueueDependency × SyncQueue :=
  match s.inFlightBulkCreateObjects id with
  | none => (.queueItem id, s)
  | some clientIds =>
    if clientId ∉ clientIds then (.queueItem id, s)
    else (.bulkCreateGenericStringObject id clientId, { s with
      inFlightBulkCreateObjects := Function.update s.inFlightBulkCreateObjects id
        (if clientIds.erase clientId = ∅ then none else some (clientIds.erase clientId)) })

def creationDependencyForId (id : QueueItemId) (uid : SyncId) (s : SyncQueue) :
    QueueDependency × SyncQueue :=
  match uid with
  | .client clientId => s.creationDependencyForClientId id clientId
  | .server _ => (.queueItem id, s)

def handleDependencySuccess (dependency : QueueDependency) (s : SyncQueue) : SyncQueue :=
  { s with queueDependencies := fun id => (s.queueDependencies id).map (·.erase dependency) }

section

-- what `handle_dependency_failure` does
variable (fail : QueueDependency → SyncQueue → SyncQueue)

def handleCreationFailure (uid : SyncId) (id : QueueItemId) (s : SyncQueue) : SyncQueue :=
  let (dependency, s) := (s.stopWaiting uid id).creationDependencyForId id uid
  fail dependency s

def handleCreationFailureResponse (uid : SyncId) (id : QueueItemId) (initiatedBy : InitiatedBy)
    (s : SyncQueue) : SyncQueue :=
  (s.handleCreationFailure fail uid id).emit id (.objectCreationFailure (.other uid initiatedBy))

def handleUniqueKeyCreationFailureResponse (uid : SyncId) (id : QueueItemId)
    (initiatedBy : InitiatedBy) (s : SyncQueue) : SyncQueue :=
  (s.handleCreationFailure fail uid id).emit id
    (.objectCreationFailure (.uniqueKeyConflict uid initiatedBy))

/-- The id under which the failure of an update is announced. -/
def updatedSyncId (s : SyncQueue) (syncId : SyncId) : SyncId :=
  match s.tryServerId syncId with
  | some serverId => .server serverId
  | none => syncId

def handleUpdateFailureResponse (syncId : SyncId) (id : QueueItemId) (s : SyncQueue) : SyncQueue :=
  let updatedSyncId := s.updatedSyncId syncId
  (fail (.queueItem id) (s.stopWaiting updatedSyncId id)).emit id (.objectUpdateFailure updatedSyncId)

def handleObjectActionFailureResponse (uid : SyncId) (timestamp : ℤ) (id : QueueItemId)
    (s : SyncQueue) : SyncQueue :=
  (fail (.queueItem id) (s.stopWaiting uid id)).emit id (.reportObjectActionFailed uid timestamp)

/-- The failure response to a queued item. -/
def failItem (id : QueueItemId) (s : SyncQueue) : QueueItem → SyncQueue
  | .createObject _ clientId _ _ initiatedBy =>
    s.handleCreationFailureResponse fail (.client clientId) id initiatedBy
  | .createWorkflow _ clientId _ _ _ initiatedBy =>
    s.handleCreationFailureResponse fail (.client clientId) id initiatedBy
  | .bulkCreateGenericStringObjects objects =>
    objects.foldl (fun s object =>
      s.handleCreationFailureResponse fail (.client object.id) id object.initiatedBy) s
  | .updateWorkflow _ syncId _ => s.handleUpdateFailureResponse fail syncId id
  | .updateFolder syncId _ => s.handleUpdateFailureResponse fail syncId id
  | .update _ syncId .. => s.handleUpdateFailureResponse fail syncId id
  | .recordObjectAction uid _ timestamp =>
    s.handleObjectActionFailureResponse fail uid timestamp id

end

/-- The queued items that depend on the dependency. -/
def dependentObjects (dependency : QueueDependency) (s : SyncQueue) :
    List (QueueItemId × QueueItem) :=
  s.queue.filter fun e => (s.queueDependencies e.1).any (dependency ∈ ·)

/-- `handle_dependency_failure`, as deep as the fuel allows. -/
def handleDependencyFailureN : ℕ → QueueDependency → SyncQueue → SyncQueue
  | 0, _, s => s
  | n + 1, dependency, s =>
    (s.dependentObjects dependency).foldl (fun s e =>
      let s := s.removeIdFromQueue e.1
      if s.queueDependencies e.1 = none then s
      else ({ s with queueDependencies := Function.update s.queueDependencies e.1 none }).failItem
        (handleDependencyFailureN n) e.1 e.2) s

/-- Every level takes an item from the queue. -/
def handleDependencyFailure (dependency : QueueDependency) (s : SyncQueue) : SyncQueue :=
  s.handleDependencyFailureN s.queue.length dependency

/-! ## Dequeueing -/

def spawn (id : QueueItemId) (request : Request) (s : SyncQueue) : SyncQueue :=
  { s with spawned := s.spawned ++ [(id, request)] }.write (.sent id request)

/-- A folder that is not known has no id to send. -/
def folderId (s : SyncQueue) : Option SyncId → Option (Option ServerId)
  | none => some none
  | some syncId => (s.tryServerId syncId).map some

def isReady (s : SyncQueue) (e : QueueItemId × QueueItem) : Bool :=
  s.queueDependencies e.1 = some ∅

section

-- dequeues the next item
variable (next : SyncQueue → SyncQueue)

def updateObject (model : Option Workflow) (content : String) (syncId : SyncId)
    (revision : Option Revision) (id : QueueItemId) (s : SyncQueue) : SyncQueue :=
  match s.tryServerId syncId with
  | none => next (s.handleUpdateFailureResponse handleDependencyFailure syncId id)
  | some objectId =>
    (s.startWaiting (.server objectId) id).spawn id (.update objectId model content revision)

def createObject (objectType : ObjectType) (model : Option Workflow) (content : String)
    (clientId : ClientId) (initialFolderId : Option SyncId) (initiatedBy : InitiatedBy)
    (id : QueueItemId) (s : SyncQueue) : SyncQueue :=
  let s := s.startWaiting (.client clientId) id
  match s.folderId initialFolderId with
  | none => next (s.write (.skipped id))
  | some folderId =>
    s.spawn id (.create objectType clientId model content folderId initiatedBy)

def recordObjectAction (syncId : SyncId) (content : String) (timestamp : ℤ) (id : QueueItemId)
    (s : SyncQueue) : SyncQueue :=
  match s.tryServerId syncId with
  | none => next (s.write (.skipped id))
  | some serverId => s.spawn id (.action serverId content timestamp)

def bulkCreate (objects : List GenericStringObjectToCreate) (id : QueueItemId) (s : SyncQueue) :
    SyncQueue :=
  let clientIds := (objects.map GenericStringObjectToCreate.id).toFinset
  let s := { s with
    inFlightBulkCreateObjects := Function.update s.inFlightBulkCreateObjects id (some clientIds) }
  let s := objects.foldl (fun s data => s.startWaiting (.client data.id) id) s
  match objects.mapM fun object => s.folderId object.initialFolderId with
  | none => next (s.write (.skipped id))
  | some folderIds => s.spawn id (.createBulk (objects.zip folderIds))

/-- What is done with the item that was taken from the queue. -/
def send (id : QueueItemId) (s : SyncQueue) : QueueItem → SyncQueue
  | .updateWorkflow model syncId revision =>
    s.updateObject next (some model) "" syncId revision id
  | .updateFolder syncId content => s.updateObject next none content syncId none id
  | .update _ syncId content revision => s.updateObject next none content syncId revision id
  | .createWorkflow objectType clientId model content initialFolderId initiatedBy =>
    s.createObject next objectType (some model) content clientId initialFolderId initiatedBy id
  | .createObject objectType clientId content initialFolderId initiatedBy =>
    s.createObject next objectType none content clientId initialFolderId initiatedBy id
  | .bulkCreateGenericStringObjects objects => s.bulkCreate next objects id
  | .recordObjectAction syncId content timestamp =>
    s.recordObjectAction next syncId content timestamp id

end

/-- The first item without dependencies leaves the queue. -/
def take (id : QueueItemId) (s : SyncQueue) : SyncQueue :=
  { s with
    queue := s.queue.eraseP s.isReady
    queueDependencies := Function.update s.queueDependencies id none }

/-- `dequeue`, which calls itself behind an item that was not sent. -/
def dequeueN : ℕ → SyncQueue → SyncQueue
  | 0, s => s
  | n + 1, s =>
    if !s.shouldDequeue then s
    else match s.queue.find? s.isReady with
    | none => s
    | some (id, item) => (s.take id).send (dequeueN n) id item

/-- Every call takes an item from the queue. -/
def dequeue (s : SyncQueue) : SyncQueue := s.dequeueN s.queue.length

/-! ## Enqueueing -/

def addInferredDependencies (item : QueueItem) (id : QueueItemId) (s : SyncQueue) :
    QueueItem × SyncQueue :=
  let (item, dependencies, s) : QueueItem × Finset QueueDependency × SyncQueue :=
    match item with
    | .updateFolder syncId _ => (item, s.getUpdateDependencies syncId, s)
    | .update _ syncId .. => (item, s.getUpdateDependencies syncId, s)
    | .updateWorkflow model syncId revision =>
      let dependencies := s.getUpdateDependencies syncId
      match s.collectDependencies model.objectIds model ∅ with
      | (model, some others) =>
        (.updateWorkflow model syncId revision, dependencies ∪ others, s)
      | (model, none) => (.updateWorkflow model syncId revision, dependencies,
          (s.handleCreationFailureResponse handleDependencyFailure syncId id .user
            ).handleUpdateFailureResponse handleDependencyFailure syncId id)
    | .createWorkflow objectType clientId model content initialFolderId initiatedBy =>
      match s.collectDependencies model.objectIds model ∅ with
      | (model, some others) =>
        (.createWorkflow objectType clientId model content initialFolderId initiatedBy, others, s)
      | (model, none) =>
        (.createWorkflow objectType clientId model content initialFolderId initiatedBy, ∅,
          (s.handleCreationFailureResponse handleDependencyFailure (.client clientId) id .user
            ).handleCreationFailureResponse handleDependencyFailure (.client clientId) id initiatedBy)
    | item => (item, ∅, s)
  let dependencies := dependencies.erase (.queueItem id)
  (item, { s with
    queueDependencies := Function.update s.queueDependencies id (some dependencies) })

/-- `enqueue`, up to its call of `dequeue`. -/
def push (item : QueueItem) (s : SyncQueue) : SyncQueue :=
  let id := s.nextId
  let s := { s with nextId := id + 1 }.write (.enqueued id item)
  let (item, s) := s.addInferredDependencies item id
  { s with queue := s.queue ++ [(id, item)] }

def enqueue (item : QueueItem) (s : SyncQueue) : SyncQueue := (s.push item).dequeue

/-- `initialize_queue_dependencies`. -/
def initializeQueueDependencies (s : SyncQueue) : SyncQueue :=
  let (queue, s) := s.queue.foldl (fun (acc : List (QueueItemId × QueueItem) × SyncQueue) e =>
    let (item, s) := acc.2.addInferredDependencies e.2 e.1
    (acc.1 ++ [(e.1, item)], s)) ([], s)
  { s with queue := queue }

def new (queueItems : List QueueItem) : SyncQueue :=
  let queue := queueItems.zipIdx.map fun e => (e.2, e.1)
  initializeQueueDependencies {
    queue := queue
    waitingResponse := fun _ => ∅
    inFlightBulkCreateObjects := fun _ => none
    clientIdToServer := fun _ => none
    serverIdToClientHash := fun _ => none
    shouldDequeue := false
    queueDependencies := fun _ => none
    spawned := []
    nextId := queueItems.length
    log := queue.map fun e => .enqueued e.1 e.2 }

/-! ## Answers -/

inductive ResponseType
  | creationSuccess (clientId : ClientId) (serverId : ServerId) (revision : Revision)
  | creationUserFacingError (message : String) (clientId : ClientId)
  | updateSuccess (serverId : ServerId) (revision : Revision)
  | updateRejected (object : ServerId)
  | objectAction (timestamp : ℤ)

/-- The revision goes to the updates of the object. -/
def reviseItem (serverId : ServerId) (revision : Revision) (s : SyncQueue) (item : QueueItem) :
    QueueItem :=
  if item.updated.bind s.tryServerId = some serverId then item.withRevision revision else item

def updateItemsWithNewRevision (serverId : ServerId) (revision : Revision) (s : SyncQueue) :
    SyncQueue :=
  { s with queue := s.queue.map fun e => (e.1, s.reviseItem serverId revision e.2) }

def updateDependenciesOnCreation (dependency : QueueDependency) (clientId : ClientId)
    (serverId : ServerId) (objectType : ObjectType) (s : SyncQueue) : SyncQueue :=
  if objectType.isReferenced then
    { s with queue := s.queue.map fun e =>
        if (s.queueDependencies e.1).any (dependency ∈ ·) then
          (e.1, e.2.mapModel (·.replaceObjectId (.client clientId) (.server serverId)))
        else e }
  else s

/-- `handle_success_response`, up to its call of `dequeue`. -/
def settleSuccess (uid : SyncId) (id : QueueItemId) (initiatedBy : InitiatedBy) (s : SyncQueue) :
    ResponseType → SyncQueue
  | .updateSuccess serverId revision =>
    (((s.stopWaiting uid id).handleDependencySuccess (.queueItem id)).updateItemsWithNewRevision
      serverId revision).emit id (.objectUpdateSuccessful serverId revision)
  | .updateRejected object =>
    ((s.emit id (.objectUpdateRejected object)).stopWaiting (.server object) id
      ).handleDependencySuccess (.queueItem id)
  | .creationSuccess clientId serverId revision =>
    let s := { s with
      clientIdToServer := Function.update s.clientIdToServer clientId (some serverId)
      serverIdToClientHash := Function.update s.serverIdToClientHash serverId (some clientId) }
    let (dependency, s) :=
      (s.stopWaiting (.client clientId) id).creationDependencyForClientId id clientId
    ((s.handleDependencySuccess dependency).updateItemsWithNewRevision serverId revision).emit id
      (.objectCreationSuccessful serverId clientId revision initiatedBy)
  | .creationUserFacingError message clientId =>
    let (dependency, s) := (s.stopWaiting uid id).creationDependencyForId id uid
    (s.handleDependencySuccess dependency).emit id
      (.objectCreationFailure (.denied message clientId initiatedBy))
  | .objectAction timestamp =>
    ((s.stopWaiting uid id).handleDependencySuccess (.queueItem id)).emit id
      (.reportObjectActionSucceeded uid timestamp)

def handleSuccessResponse (uid : SyncId) (id : QueueItemId) (initiatedBy : InitiatedBy)
    (response : ResponseType) (s : SyncQueue) : SyncQueue :=
  (s.settleSuccess uid id initiatedBy response).dequeue

def maybeDequeueOnError (error : List ErrorCause) (s : SyncQueue) : SyncQueue :=
  if error.any ErrorCause.isPersistent then s else s.dequeue

/-- The request has its last answer. -/
def finish (id : QueueItemId) (s : SyncQueue) : SyncQueue :=
  { s with spawned := s.spawned.filter fun e => e.1 ≠ id }

/-- The failure response to a request. -/
def settleFailure (id : QueueItemId) (s : SyncQueue) : Request → SyncQueue
  | .create _ clientId _ _ _ initiatedBy =>
    (s.finish id).handleCreationFailureResponse handleDependencyFailure (.client clientId) id
      initiatedBy
  | .createBulk objects =>
    (objects.foldl (fun s object => s.handleCreationFailureResponse handleDependencyFailure
      (.client object.1.id) id .user) s).finish id
  | .update serverId .. =>
    (s.finish id).handleUpdateFailureResponse handleDependencyFailure (.server serverId) id
  | .action serverId _ timestamp =>
    (s.finish id).handleObjectActionFailureResponse handleDependencyFailure (.server serverId)
      timestamp id

/-- The answer to a request that is spawned. -/
def answer (id : QueueItemId) (s : SyncQueue) : Request → ServerResponse → SyncQueue
  | .create objectType clientId _ _ _ initiatedBy, .created serverId revision =>
    ((s.finish id).updateDependenciesOnCreation (.queueItem id) clientId serverId objectType
      ).handleSuccessResponse (.server serverId) id initiatedBy
        (.creationSuccess clientId serverId revision)
  | .create _ clientId _ _ _ initiatedBy, .userFacingError message =>
    (s.finish id).handleSuccessResponse (.client clientId) id initiatedBy
      (.creationUserFacingError message clientId)
  | .create _ clientId _ _ _ initiatedBy, .uniqueKeyConflict =>
    ((s.finish id).handleUniqueKeyCreationFailureResponse handleDependencyFailure (.client clientId)
      id initiatedBy).dequeue
  | .createBulk _, .bulkCreated created =>
    (created.foldl (fun s object => s.handleSuccessResponse (.server object.serverId) id .user
      (.creationSuccess object.clientId object.serverId object.revision)) s).finish id
  | .createBulk objects, .uniqueKeyConflict =>
    ((objects.foldl (fun s object => s.handleUniqueKeyCreationFailureResponse handleDependencyFailure
      (.client object.1.id) id .user) s).finish id).dequeue
  | .update serverId .., .updated revision =>
    (s.finish id).handleSuccessResponse (.server serverId) id .user (.updateSuccess serverId revision)
  | .update serverId .., .rejected object =>
    (s.finish id).handleSuccessResponse (.server serverId) id .user (.updateRejected object)
  | .action serverId _ timestamp, .recorded =>
    (s.finish id).handleSuccessResponse (.server serverId) id .user (.objectAction timestamp)
  | request, .failed error =>
    ((s.write (.failed id (error.any ErrorCause.isPersistent))).settleFailure id request
      ).maybeDequeueOnError error
  -- the server does not answer a request like that
  | _, _ => s

def respond (id : QueueItemId) (response : ServerResponse) (s : SyncQueue) : SyncQueue :=
  match s.spawned.find? fun e => e.1 = id with
  | some (_, request) => s.answer id request response
  | none => s

def startDequeueing (s : SyncQueue) : SyncQueue := { s with shouldDequeue := true }.dequeue

def stopDequeueing (s : SyncQueue) : SyncQueue := { s with shouldDequeue := false }

end SyncQueue

inductive QueueAction
  | enqueue (item : QueueItem)
  | startDequeueing
  | stopDequeueing
  | respond (id : QueueItemId) (response : ServerResponse)

namespace SyncQueue

def step (s : SyncQueue) : QueueAction → SyncQueue
  | .enqueue item => s.enqueue item
  | .startDequeueing => s.startDequeueing
  | .stopDequeueing => s.stopDequeueing
  | .respond id response => s.respond id response

def run (s : SyncQueue) (es : List QueueAction) : SyncQueue := es.foldl step s

end SyncQueue

end Clinch
