import Mathlib.Data.Finset.Image
import Mathlib.Data.List.Basic

/-!
# The items of the sync queue

The ids, the requests and the events of `app/src/server/sync_queue.rs`, and the part of a workflow of
`cloud_object_models/src/workflow.rs` that refers to other objects. The text of an id, which keys the
maps of the source, determines the id, so that the maps here have the ids themselves.

* `SyncId`, `Workflow`, `Workflow.objectIds`, `Workflow.replaceObjectId`;
* `QueueItem`, `QueueDependency`, `QueueItem.objects`, `QueueItem.dependencyOn`;
* `Request`, `ServerResponse`, `SyncQueueEvent`, `LogEntry`.
-/

set_option autoImplicit false

namespace Clinch

/-! ## Ids -/

structure ClientId where
  uuid : ℕ
deriving DecidableEq

structure ServerId where
  text : String
deriving DecidableEq

inductive SyncId
  | client (id : ClientId)
  | server (id : ServerId)
deriving DecidableEq

/-- `QueueItemId::new` yields a number that was not used before. -/
abbrev QueueItemId := ℕ

inductive QueueDependency
  | queueItem (id : QueueItemId)
  | bulkCreateGenericStringObject (id : QueueItemId) (clientId : ClientId)
deriving DecidableEq

/-- The item that the dependency is on. -/
def QueueDependency.item : QueueDependency → QueueItemId
  | queueItem id => id
  | bulkCreateGenericStringObject id _ => id

/-- In microseconds. -/
abbrev Revision := ℕ

inductive JsonObjectType
  | preference | envVarCollection | workflowEnum | aiFact | mcpServer | aiExecutionProfile
  | templatableMcpServer | cloudEnvironment | scheduledAmbientAgent | cloudAgentConfig
deriving DecidableEq

inductive ObjectType
  | notebook | workflow | folder
  | genericStringObject (format : JsonObjectType)
deriving DecidableEq

/-- The objects that a workflow can refer to. -/
def ObjectType.isReferenced : ObjectType → Bool
  | genericStringObject .workflowEnum => true
  | genericStringObject .envVarCollection => true
  | _ => false

inductive InitiatedBy
  | user | system
deriving DecidableEq

/-! ## Workflows -/

inductive ArgumentType
  | text
  | enum (enumId : SyncId)
deriving DecidableEq

def ArgumentType.enumId : ArgumentType → Option SyncId
  | enum enumId => some enumId
  | text => none

structure Argument where
  name : String
  argType : ArgumentType
deriving DecidableEq

inductive Workflow
  | agentMode (name query : String) (arguments : List Argument)
  | command (name text : String) (arguments : List Argument)
    (environmentVariables : Option SyncId)
deriving DecidableEq

namespace Workflow

def arguments : Workflow → List Argument
  | agentMode _ _ args => args
  | command _ _ args _ => args

def getEnumIds (w : Workflow) : List SyncId := w.arguments.filterMap fun arg => arg.argType.enumId

def defaultEnvVars : Workflow → Option SyncId
  | command _ _ _ environmentVariables => environmentVariables
  | agentMode .. => none

/-- The ids that `get_workflow_object_dependencies` goes through. -/
def objectIds (w : Workflow) : List SyncId := w.getEnumIds ++ w.defaultEnvVars.toList

end Workflow

def ArgumentType.replaceObjectId (oldId newId : SyncId) : ArgumentType → ArgumentType
  | enum enumId => enum (if enumId = oldId then newId else enumId)
  | text => text

def Argument.replaceObjectId (oldId newId : SyncId) (arg : Argument) : Argument :=
  { arg with argType := arg.argType.replaceObjectId oldId newId }

def Workflow.replaceObjectId (oldId newId : SyncId) : Workflow → Workflow
  | agentMode name query arguments =>
    agentMode name query (arguments.map (Argument.replaceObjectId oldId newId))
  | command name text arguments environmentVariables =>
    command name text (arguments.map (Argument.replaceObjectId oldId newId))
      (environmentVariables.map fun id => if id = oldId then newId else id)

/-! ## Items -/

structure GenericStringObjectToCreate where
  id : ClientId
  format : JsonObjectType
  /-- The serialized model, the unique key and the entry point, which are sent as they are. -/
  content : String
  initialFolderId : Option SyncId
  initiatedBy : InitiatedBy
deriving DecidableEq

/-- The other models that can be updated, which the queue treats alike. -/
inductive UpdateKind
  | notebook | cloudPreferences | envVarCollection | workflowEnum | aiFact | mcpServer
  | aiExecutionProfile | templatableMcpServer | cloudEnvironment | scheduledAmbientAgent
  | cloudAgentConfig
deriving DecidableEq

/-- `content` is what is sent as it is: titles, owners, serialized models, entry points. -/
inductive QueueItem
  | createObject (objectType : ObjectType) (id : ClientId) (content : String)
    (initialFolderId : Option SyncId) (initiatedBy : InitiatedBy)
  | createWorkflow (objectType : ObjectType) (id : ClientId) (model : Workflow) (content : String)
    (initialFolderId : Option SyncId) (initiatedBy : InitiatedBy)
  | bulkCreateGenericStringObjects (objects : List GenericStringObjectToCreate)
  | updateWorkflow (model : Workflow) (id : SyncId) (revision : Option Revision)
  | updateFolder (id : SyncId) (content : String)
  | update (kind : UpdateKind) (id : SyncId) (content : String) (revision : Option Revision)
  | recordObjectAction (id : SyncId) (content : String) (timestamp : ℤ)
deriving DecidableEq

namespace QueueItem

/-- The objects that a create or update request of the item is about. -/
def objects : QueueItem → List SyncId
  | createObject _ id .. => [.client id]
  | createWorkflow _ id .. => [.client id]
  | bulkCreateGenericStringObjects objects => objects.map fun data => .client data.id
  | updateWorkflow _ id _ => [id]
  | updateFolder id _ => [id]
  | update _ id .. => [id]
  | recordObjectAction .. => []

/-- The object that the item updates. -/
def updated : QueueItem → Option SyncId
  | updateWorkflow _ id _ => some id
  | updateFolder id _ => some id
  | update _ id .. => some id
  | _ => none

def isBulk : QueueItem → Bool
  | bulkCreateGenericStringObjects _ => true
  | _ => false

def model : QueueItem → Option Workflow
  | createWorkflow _ _ model .. => some model
  | updateWorkflow model .. => some model
  | _ => none

/-- The ids that the item's workflow refers to. -/
def references (item : QueueItem) : List SyncId := (item.model.map Workflow.objectIds).getD []

def mapModel (f : Workflow → Workflow) : QueueItem → QueueItem
  | createWorkflow objectType id model content initialFolderId initiatedBy =>
    createWorkflow objectType id (f model) content initialFolderId initiatedBy
  | updateWorkflow model id revision => updateWorkflow (f model) id revision
  | item => item

/-- The revision that an update carries; a folder's update has none. -/
def revision : QueueItem → Option Revision
  | updateWorkflow _ _ revision => revision
  | update _ _ _ revision => revision
  | _ => none

def carriesRevision : QueueItem → Bool
  | updateWorkflow .. => true
  | update .. => true
  | _ => false

def withRevision (revision : Revision) : QueueItem → QueueItem
  | updateWorkflow model id _ => updateWorkflow model id (some revision)
  | update kind id content _ => update kind id content (some revision)
  | item => item

/-- What waits for the item when it waits for the object. -/
def dependencyOn (id : QueueItemId) (uid : SyncId) : QueueItem → Option QueueDependency
  | createObject _ clientId .. => if .client clientId = uid then some (.queueItem id) else none
  | createWorkflow _ clientId .. => if .client clientId = uid then some (.queueItem id) else none
  | bulkCreateGenericStringObjects objects =>
    (objects.find? fun data => SyncId.client data.id = uid).map fun data =>
      .bulkCreateGenericStringObject id data.id
  | updateWorkflow _ syncId _ => if syncId = uid then some (.queueItem id) else none
  | updateFolder syncId _ => if syncId = uid then some (.queueItem id) else none
  | update _ syncId .. => if syncId = uid then some (.queueItem id) else none
  | recordObjectAction .. => none

end QueueItem

/-! ## Requests, answers and events -/

/-- What is sent to the server. -/
inductive Request
  | create (objectType : ObjectType) (id : ClientId) (model : Option Workflow) (content : String)
    (initialFolderId : Option ServerId) (initiatedBy : InitiatedBy)
  | createBulk (objects : List (GenericStringObjectToCreate × Option ServerId))
  | update (id : ServerId) (model : Option Workflow) (content : String)
    (revision : Option Revision)
  | action (id : ServerId) (content : String) (timestamp : ℤ)
deriving DecidableEq

/-- The workflow that is sent. -/
def Request.model : Request → Option Workflow
  | create _ _ model .. => model
  | update _ model .. => model
  | _ => none

structure CreatedCloudObject where
  clientId : ClientId
  serverId : ServerId
  revision : Revision
deriving DecidableEq

/-- A cause in the chain of an error. -/
inductive ErrorCause
  | connect
  | userAuthentication
  | stagingAccessBlocked
  | http (status : ℕ)
  | other
deriving DecidableEq

/-- Whether other requests are expected to fail as well. -/
def ErrorCause.isPersistent : ErrorCause → Bool
  | connect => true
  | userAuthentication => true
  | stagingAccessBlocked => true
  | http status => status = 403 || status = 401
  | other => false

/-- The last state of a request; between its retries the queue does nothing. -/
inductive ServerResponse
  | created (serverId : ServerId) (revision : Revision)
  | userFacingError (message : String)
  | uniqueKeyConflict
  | bulkCreated (objects : List CreatedCloudObject)
  | updated (revision : Revision)
  | rejected (object : ServerId)
  | recorded
  | failed (error : List ErrorCause)
deriving DecidableEq

inductive CreationFailureReason
  | uniqueKeyConflict (id : SyncId) (initiatedBy : InitiatedBy)
  | denied (message : String) (clientId : ClientId) (initiatedBy : InitiatedBy)
  | other (id : SyncId) (initiatedBy : InitiatedBy)
deriving DecidableEq

inductive SyncQueueEvent
  | objectCreationSuccessful (serverId : ServerId) (clientId : ClientId) (revision : Revision)
    (initiatedBy : InitiatedBy)
  | objectUpdateSuccessful (serverId : ServerId) (revision : Revision)
  | objectUpdateRejected (id : ServerId)
  | objectCreationFailure (reason : CreationFailureReason)
  | objectUpdateFailure (id : SyncId)
  | reportObjectActionFailed (uid : SyncId) (timestamp : ℤ)
  | reportObjectActionSucceeded (uid : SyncId) (timestamp : ℤ)
deriving DecidableEq

/-- What happened, and to which item. -/
inductive LogEntry
  | enqueued (id : QueueItemId) (item : QueueItem)
  | sent (id : QueueItemId) (request : Request)
  | event (id : QueueItemId) (event : SyncQueueEvent)
  /-- `log::error!("..: skipping")`. -/
  | skipped (id : QueueItemId)
  | failed (id : QueueItemId) (isPersistent : Bool)
deriving DecidableEq

end Clinch
