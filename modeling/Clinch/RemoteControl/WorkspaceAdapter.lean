import Clinch.RemoteControl.Protocol

/-!
# The workspace adapter

`WorkspaceAdapter` of `app/src/remote_control/workspace_adapter.rs`. It runs on the main thread, so
a call is a function of its state. The windows, and what the desktop answers to a call, are a
`Desktop`; what the adapter asks of the desktop is the list `effects`.

* `Desktop`, `resolveTarget`, `resolveProject`, `desktopWatchedTargets`, `topology`;
* `WorkspaceAdapter`, `ensureWriter`, `pruneWriterLeases`, `releasePaneControl`;
* `snapshot`, `bumpTopologyRevision`, `cached`, `remember`;
* `handleEnvelope`, `completeUpload`, `sessionConnected`, `sessionDisconnected`.
-/

set_option autoImplicit false

namespace Clinch

/-! ## The desktop -/

abbrev EntityId := ℕ

/-- A pane that its tab shows. -/
structure Pane where
  id : String
  terminal : Option EntityId
deriving DecidableEq

/-- A `PaneGroup`. -/
structure Tab where
  id : EntityId
  groupId : Option Uuid
  panes : List Pane
deriving DecidableEq

structure WorkspaceTask where
  id : Uuid
  text : String
deriving DecidableEq

/-- A project and its `Workspace`. -/
structure Project where
  id : Uuid
  tabs : List Tab
  activeTabIndex : ℕ
  tabGroups : HashMap Uuid (Option String)
  tasks : List WorkspaceTask

structure ProjectWindow where
  projects : List Project
  activeProjectIndex : ℕ

structure Window where
  id : ℕ
  projectWindow : Option ProjectWindow

structure QuickInsert where
  id : String
  configurationRevision : ℕ
  text : String
deriving DecidableEq

/-- The windows, and what the desktop answers. -/
structure Desktop where
  windows : List Window
  activeWindow : Option ℕ
  appIsActive : Bool
  /-- `desktop_presence::desktop_unattended` -/
  unattended : Bool
  /-- `remote_control_is_ready` -/
  isReady : EntityId → Bool
  /-- `remote_control_dimensions` -/
  dimensions : EntityId → TerminalDimensions
  /-- `remote_control_submit_text` -/
  submitText : EntityId → String → Bool
  /-- `deferred_agent_is_starting` -/
  agentIsStarting : EntityId → Bool
  /-- `pwd_if_local` -/
  pwdIfLocal : EntityId → Option String
  /-- `remote_control_escape_inserted_path` -/
  escapeInsertedPath : EntityId → String → String
  /-- `quick_inserts_for_terminal` -/
  quickInserts : EntityId → List QuickInsert
  /-- `std::fs::canonicalize` -/
  canonicalize : String → Option String
  /-- `Path::is_dir` -/
  isDir : String → Bool
  /-- `add_project`, and whether the project is found then -/
  addProject : Bool
  /-- `add_workspace_task` -/
  addWorkspaceTask : Uuid → String → Bool
  /-- `remove_workspace_task` -/
  removeWorkspaceTask : Uuid → Uuid → Bool
  /-- `launch_workspace_task` -/
  launchWorkspaceTask : Uuid → Uuid → AgentProvider → Bool
  /-- `remote_control_resume_cli_agent` -/
  resumeCliAgent : Uuid → AgentProvider → String → String → Bool
  /-- `create_named_tab_group_from_tab` -/
  createTabGroup : Uuid → ℕ → String → Bool
  /-- `TerminalStreamId::new()` -/
  streamId : TerminalStreamId
  /-- `UploadId::new()` -/
  uploadId : UploadId

/-- What the adapter asks of the desktop. -/
inductive Effect
  | startDeferredAgent (terminal : EntityId)
  | activateProject (project : Uuid)
  | activateTab (project : Uuid) (tabIndex : ℕ)
  | activatePane (tab : EntityId) (pane : String)
  | refreshSize (terminal : EntityId)
  | restoreDesktopSize (terminal : EntityId)
  | resize (terminal : EntityId) (rows columns : UInt16)
  | submitText (terminal : EntityId) (text : String)
  | writeBytes (terminal : EntityId) (bytes : List UInt8)
  | insertText (terminal : EntityId) (text : String)
  | openTerminal (project : Option Uuid) (cwd : Option String)
  | openCliAgent (project : Uuid) (kind : SessionKind) (cwd prompt : Option String)
  | addProject (anchor : Uuid)
  | resumeCliAgent (project : Uuid) (provider : AgentProvider) (id cwd : String)
  | addWorkspaceTask (project : Uuid) (text : String)
  | removeWorkspaceTask (project task : Uuid)
  | launchWorkspaceTask (project task : Uuid) (provider : AgentProvider)
  | createTabGroup (project : Uuid) (tabIndex : ℕ) (name : String)
  | moveTabToGroup (project : Uuid) (tabIndex : ℕ) (group : Uuid)
  | removeTabFromGroup (project : Uuid) (tabIndex : ℕ)
deriving DecidableEq

structure TargetKey where
  projectId : String
  tabId : String
  paneId : String
deriving DecidableEq

/-- `TargetKey::from`. -/
def TargetRef.key (t : TargetRef) : TargetKey := ⟨t.projectId, t.tabId, t.paneId⟩

/-- `ProjectId::opaque_id`. -/
def Project.opaqueId (p : Project) : String := String.ofList p.id.toText

def Tab.opaqueId (t : Tab) : String := toString t.id

/-- `pane_opaque_id`. -/
def Pane.opaqueId (c : Crates) (p : Pane) : String := "pane_" ++ c.urlSafeEncode p.id

structure ResolvedTarget where
  project : Project
  tabIndex : ℕ
  tab : Tab
  pane : Pane
  terminal : EntityId

namespace Desktop

def resolveTarget (c : Crates) (d : Desktop) (target : TargetKey) : Option ResolvedTarget :=
  d.windows.findSome? fun window => window.projectWindow.bind fun projectWindow =>
    projectWindow.projects.findSome? fun project =>
      if project.opaqueId ≠ target.projectId then none
      else project.tabs.zipIdx.findSome? fun (tab, tabIndex) =>
        if tab.opaqueId ≠ target.tabId then none
        else tab.panes.findSome? fun pane =>
          if pane.opaqueId c ≠ target.paneId then none
          else pane.terminal.map fun terminal => ⟨project, tabIndex, tab, pane, terminal⟩

def resolveProject (d : Desktop) (projectId : String) : Option Project :=
  d.windows.findSome? fun window => window.projectWindow.bind fun projectWindow =>
    projectWindow.projects.find? fun project => project.opaqueId = projectId

/-- `desktop_watched_targets`. -/
def watchedTargets (c : Crates) (d : Desktop) : List TargetKey :=
  if !d.appIsActive || d.unattended then []
  else Option.toList (do
    let window ← d.windows.find? fun window => some window.id = d.activeWindow
    let projectWindow ← window.projectWindow
    let project ← projectWindow.projects[projectWindow.activeProjectIndex]?
    let tab ← project.tabs[project.activeTabIndex]?
    some (tab.panes.map fun pane => ⟨project.opaqueId, tab.opaqueId, pane.opaqueId c⟩))
    |>.flatten

/-- The projects in the order of the loops of `snapshot`. -/
def projects (d : Desktop) : List Project :=
  d.windows.flatMap fun window => window.projectWindow.toList.flatMap ProjectWindow.projects

end Desktop

/-- The section of a tab: its identifier and its name. -/
def Project.section (p : Project) (t : Tab) : Option (String × String) :=
  t.groupId.bind fun groupId => (p.tabGroups.get groupId).map fun name =>
    (String.ofList groupId.toText, name.getD "New Section")

/-- What `snapshot` hashes of a project. -/
def Project.hashWrites (c : Crates) (p : Project) : List HashWrite :=
  .str p.opaqueId :: (p.tabs.flatMap fun t =>
    [.str t.opaqueId, .optionStrStr (p.section t)] ++ t.panes.map fun q => .str (q.opaqueId c)) ++
      p.tasks.flatMap fun task => [.uuid task.id, .str task.text]

def Desktop.fingerprint (c : Crates) (d : Desktop) : UInt64 :=
  c.defaultHasher (d.projects.flatMap (Project.hashWrites c))

def optionalLocalDirectory (canonicalLocalDirectory : String → Except String String) :
    Option String → Except String (Option String)
  | none => .ok none
  | some path => (canonicalLocalDirectory path).map some

def Desktop.canonicalLocalDirectory (d : Desktop) (path : String) : Except String String :=
  if !path.startsWith "/" then .error "The working directory must be an absolute local path."
  else match d.canonicalize path with
    | none => .error "The working directory does not exist or cannot be accessed."
    | some canonical =>
      if d.isDir canonical then .ok canonical
      else .error "The working directory must be a directory."

/-- `pwd_if_local`, when it is a directory. -/
def Desktop.currentDirectory (d : Desktop) (terminal : EntityId) : Option String :=
  (d.pwdIfLocal terminal).bind fun cwd => (d.canonicalLocalDirectory cwd).toOption

/-! ## Leases -/

structure WriterLease where
  sessionId : AuthSessionId
  deviceId : DeviceId
  deviceName : String
  expiresAt : DateTime
deriving DecidableEq

def WriterLease.snapshot (l : WriterLease) : WriterLeaseSnapshot :=
  ⟨l.deviceId, l.deviceName, l.expiresAt⟩

def writerLeaseExpired (connectedSessions : Finset AuthSessionId) (lease : WriterLease)
    (now : DateTime) : Bool :=
  decide (lease.expiresAt ≤ now) && decide (lease.sessionId ∉ connectedSessions)

def writerLeaseBlocks (connectedSessions : Finset AuthSessionId) (lease : WriterLease)
    (authorization : SessionAuthorization) : Bool :=
  decide (lease.sessionId ≠ authorization.sessionId) &&
    decide (lease.deviceId ≠ authorization.deviceId) &&
    decide (lease.sessionId ∈ connectedSessions)

def remoteMaySizePane (desktopWatching : Bool) (pinnedBy : Option DeviceId) (deviceId : DeviceId) :
    Bool :=
  match pinnedBy with
  | some pinnedBy => pinnedBy = deviceId
  | none => !desktopWatching

/-! ## The adapter -/

structure UploadPlan where
  uploadId : UploadId
  target : TargetRef
  destinationDirectory : String
  filename : String
  size : ℕ
  sha256 : String
deriving DecidableEq

structure UploadCompletion where
  requestId : Option RequestId
  uploadId : UploadId
  target : TargetRef
  expectedDirectory : String
  finalPath : String
  authorization : SessionAuthorization

structure AdapterReply where
  envelope : ServerEnvelope
  terminalStream : Option TerminalStreamId
  uploadPlan : Option UploadPlan

/-- `AdapterReply::envelope`. -/
def AdapterReply.ofEnvelope (envelope : ServerEnvelope) : AdapterReply := ⟨envelope, none, none⟩

structure WorkspaceAdapter where
  appInstanceId : AppInstanceId
  revision : ℕ
  sequence : ℕ
  lastTopologyFingerprint : Option UInt64
  writerLeases : HashMap TargetKey WriterLease
  remoteSizePins : HashMap TargetKey DeviceId
  connectedSessions : Finset AuthSessionId
  terminalSubscriptions : Finset EntityId
  idempotency : HashMap AuthSessionId (List (RequestId × ServerEnvelope))
  /-- What was asked of the desktop so far. -/
  effects : List Effect

/-- `initial_workspace_revision`. -/
def initialWorkspaceRevision (random : UInt64) : ℕ := max (javascriptSafeInteger random) 1

def nextWorkspaceRevision (current : ℕ) : ℕ :=
  if maxJavascriptSafeInteger ≤ current then 1 else current + 1

def requiredCapability : ClientMessage → Option Capability
  | .ping | .requestSnapshot | .selectTarget _ _ => some .view
  | .acquireWriterLease _ _ _ | .releaseWriterLease _ | .submitComposerText _ _ _
  | .rawTerminalInput _ _ _ | .interruptTerminal _ _ | .terminalResize _ _ _
  | .setTerminalSizePin _ _ _ | .terminalKey _ _ _ | .quickInsertPreview _ _ _ _
  | .quickInsertSubmit _ _ _ _ | .createTask _ _ _ _ | .deleteTask _ _ _ _ | .createSection _ _ _
  | .setTabSection _ _ _ => some .control
  | .createProject _ _ _ _ | .createSession _ _ _ _ _ _ | .resumeSession _ _ _ _ _ _
  | .launchTask _ _ _ _ _ => some .createSession
  | .uploadBegin _ | .uploadCommit _ | .uploadCancel _ => some .upload
  | .unpairDevice | .disconnect => none

def isIdempotentMutation : ClientMessage → Bool
  | .acquireWriterLease _ _ _ | .releaseWriterLease _ | .submitComposerText _ _ _
  | .rawTerminalInput _ _ _ | .interruptTerminal _ _ | .terminalResize _ _ _
  | .setTerminalSizePin _ _ _ | .terminalKey _ _ _ | .createProject _ _ _ _
  | .createSession _ _ _ _ _ _ | .resumeSession _ _ _ _ _ _ | .createTask _ _ _ _
  | .deleteTask _ _ _ _ | .launchTask _ _ _ _ _ | .createSection _ _ _ | .setTabSection _ _ _
  | .quickInsertSubmit _ _ _ _ => true
  | _ => false

namespace WorkspaceAdapter

/-- `WorkspaceAdapter::new`. -/
def new (appInstanceId : AppInstanceId) (random : UInt64) : WorkspaceAdapter where
  appInstanceId := appInstanceId
  revision := initialWorkspaceRevision random
  sequence := 0
  lastTopologyFingerprint := none
  writerLeases := .empty
  remoteSizePins := .empty
  connectedSessions := ∅
  terminalSubscriptions := ∅
  idempotency := .empty
  effects := []

/-- The desktop is asked for something. -/
def perform (es : List Effect) (a : WorkspaceAdapter) : WorkspaceAdapter :=
  { a with effects := a.effects ++ es }

/-- `response`; the sequence number is a `u64` that saturates. -/
def response (requestId : Option RequestId) (payload : ServerMessage) (a : WorkspaceAdapter) :
    ServerEnvelope × WorkspaceAdapter :=
  let sequence := min (a.sequence + 1) (2 ^ 64 - 1)
  (⟨protocolVersion, requestId, some sequence, payload⟩, { a with sequence := sequence })

def error (requestId : Option RequestId) (code : ProtocolErrorCode) (message : String)
    (retryable : Bool) (a : WorkspaceAdapter) : ServerEnvelope × WorkspaceAdapter :=
  a.response requestId (.error ⟨code, message, retryable, some a.revision⟩)

def commandAccepted (requestId : RequestId) (a : WorkspaceAdapter) :
    ServerEnvelope × WorkspaceAdapter :=
  a.response (some requestId) (.commandAccepted a.revision)

/-- `AdapterReply::envelope(self.response(..))`. -/
def reply (requestId : RequestId) (payload : ServerMessage) (a : WorkspaceAdapter) :
    AdapterReply × WorkspaceAdapter :=
  let (envelope, a) := a.response (some requestId) payload
  (.ofEnvelope envelope, a)

/-- `AdapterReply::envelope(self.error(..))`. -/
def refuse (requestId : RequestId) (code : ProtocolErrorCode) (message : String) (retryable : Bool)
    (a : WorkspaceAdapter) : AdapterReply × WorkspaceAdapter :=
  a.reply requestId (.error ⟨code, message, retryable, some a.revision⟩)

/-- `AdapterReply::envelope(self.command_accepted(..))`. -/
def accept (requestId : RequestId) (a : WorkspaceAdapter) : AdapterReply × WorkspaceAdapter :=
  a.reply requestId (.commandAccepted a.revision)

def bumpTopologyRevision (a : WorkspaceAdapter) : WorkspaceAdapter :=
  { a with revision := nextWorkspaceRevision a.revision, lastTopologyFingerprint := none }

def cached (sessionId : AuthSessionId) (requestId : RequestId) (a : WorkspaceAdapter) :
    Option ServerEnvelope :=
  (a.idempotency.get sessionId).bind fun entries =>
    (entries.find? fun e => e.1 = requestId).map Prod.snd

/-- `while entries.len() >= MAX { entries.pop_front() }`. -/
def evict {α : Type} (entries : List α) : List α :=
  entries.drop (entries.length - (maxIdempotencyResultsPerSession - 1))

def remember (sessionId : AuthSessionId) (requestId : RequestId) (response : ServerEnvelope)
    (a : WorkspaceAdapter) : WorkspaceAdapter :=
  let entries := (a.idempotency.get sessionId).getD []
  { a with idempotency := a.idempotency.insert sessionId (evict entries ++ [(requestId, response)]) }

/-! ## Control of a pane -/

/-- `release_pane_control`. -/
def releasePaneControl (target : TargetKey) (a : WorkspaceAdapter) : WorkspaceAdapter :=
  { a with
    writerLeases := a.writerLeases.remove target
    remoteSizePins := a.remoteSizePins.remove target }

/-- `if let Some(resolved) = self.resolve_target_key(..) { restore_desktop_size }`. -/
def restoreDesktopSize (c : Crates) (d : Desktop) (target : TargetKey) (a : WorkspaceAdapter) :
    WorkspaceAdapter :=
  match d.resolveTarget c target with
  | some resolved => a.perform [.restoreDesktopSize resolved.terminal]
  | none => a

/-- The lease that `ensure_writer` grants, and its end of the pin of another device. -/
def grant (now : DateTime) (key : TargetKey) (authorization : SessionAuthorization)
    (a : WorkspaceAdapter) : Except ServerEnvelope WriterLeaseSnapshot × WorkspaceAdapter :=
  let lease : WriterLease := ⟨authorization.sessionId, authorization.deviceId,
    authorization.deviceName, now + seconds writerLeaseTtlSecs⟩
  (.ok lease.snapshot, { a with
    remoteSizePins :=
      if (a.remoteSizePins.get key).any (· ≠ authorization.deviceId) then a.remoteSizePins.remove key
      else a.remoteSizePins
    writerLeases := a.writerLeases.insert key lease })

/-- The first step of `ensure_writer`. -/
def dropExpired (now : DateTime) (key : TargetKey) (a : WorkspaceAdapter) : WorkspaceAdapter :=
  if (a.writerLeases.get key).any (writerLeaseExpired a.connectedSessions · now) then
    { a with writerLeases := a.writerLeases.remove key }
  else a

/-- The second step of `ensure_writer`. -/
def contend (now : DateTime) (key : TargetKey) (authorization : SessionAuthorization)
    (requestId : Option RequestId) (allowTakeover : Bool) (a : WorkspaceAdapter) :
    Except ServerEnvelope WriterLeaseSnapshot × WorkspaceAdapter :=
  match a.writerLeases.get key with
  | some lease =>
    if !allowTakeover && writerLeaseBlocks a.connectedSessions lease authorization then
      let (envelope, a) := a.error requestId .writerLeaseHeld
        (lease.deviceName ++ " currently has control of this terminal.") true
      (.error envelope, a)
    else a.grant now key authorization
  | none => a.grant now key authorization

def ensureWriter (now : DateTime) (target : TargetRef) (authorization : SessionAuthorization)
    (requestId : Option RequestId) (allowTakeover : Bool) (a : WorkspaceAdapter) :
    Except ServerEnvelope WriterLeaseSnapshot × WorkspaceAdapter :=
  (a.dropExpired now target.key).contend now target.key authorization requestId allowTakeover

/-- `prune_writer_leases`, and a step of its loop. -/
def pruneLease (c : Crates) (d : Desktop) (target : TargetKey) (a : WorkspaceAdapter) :
    WorkspaceAdapter :=
  (a.releasePaneControl target).restoreDesktopSize c d target

def expiredLeases (now : DateTime) (a : WorkspaceAdapter) : List TargetKey :=
  (a.writerLeases.entries.filter fun e => writerLeaseExpired a.connectedSessions e.2 now).map Prod.fst

def pruneWriterLeases (c : Crates) (d : Desktop) (now : DateTime) (a : WorkspaceAdapter) :
    WorkspaceAdapter :=
  (a.expiredLeases now).foldl (fun a target => a.pruneLease c d target) a

def reclaimDesktopSizes (c : Crates) (d : Desktop) (a : WorkspaceAdapter) : WorkspaceAdapter :=
  ((d.watchedTargets c).filter fun target => (a.remoteSizePins.get target).isNone).foldl
    (fun a target => a.restoreDesktopSize c d target) a

/-- `preempt_writer_for_desktop_input`. -/
def preemptWriterForDesktopInput (c : Crates) (d : Desktop) (terminal : EntityId)
    (a : WorkspaceAdapter) : WorkspaceAdapter :=
  let targets := (a.writerLeases.entries.map Prod.fst).filter fun target =>
    (d.resolveTarget c target).all fun resolved => resolved.terminal = terminal
  if targets.isEmpty then a
  else (targets.foldl (fun a target => a.releasePaneControl target) a).perform
    [.restoreDesktopSize terminal]

def sessionConnected (now : DateTime) (sessionId : AuthSessionId) (deviceId : DeviceId)
    (a : WorkspaceAdapter) : WorkspaceAdapter :=
  let connected := insert sessionId a.connectedSessions
  { a with
    connectedSessions := connected
    writerLeases := a.writerLeases.mapValues fun lease =>
      if lease.deviceId = deviceId ∧ lease.sessionId ∉ connected then
        { lease with sessionId := sessionId, expiresAt := now + seconds writerLeaseTtlSecs }
      else lease }

def sessionDisconnected (now : DateTime) (sessionId : AuthSessionId) (a : WorkspaceAdapter) :
    WorkspaceAdapter :=
  { a with
    connectedSessions := a.connectedSessions.erase sessionId
    writerLeases := a.writerLeases.mapValues fun lease =>
      if lease.sessionId = sessionId then
        { lease with expiresAt := now + seconds writerLeaseTtlSecs }
      else lease
    idempotency := a.idempotency.remove sessionId }

/-- `sweep_writer_leases`. -/
def sweepWriterLeases (c : Crates) (d : Desktop) (now : DateTime) (a : WorkspaceAdapter) :
    WorkspaceAdapter :=
  a.pruneWriterLeases c d now

def allSessionsDisconnected (c : Crates) (d : Desktop) (a : WorkspaceAdapter) : WorkspaceAdapter :=
  (a.writerLeases.entries.map Prod.fst).foldl (fun a target => a.restoreDesktopSize c d target)
    { a with
      connectedSessions := ∅
      writerLeases := .empty
      remoteSizePins := .empty
      idempotency := .empty }

end WorkspaceAdapter

end Clinch
