import Clinch.Whitespace
import Clinch.RemoteControl.WorkspaceAdapter

/-!
# The requests of a phone

`WorkspaceAdapter::handle_envelope` and the handlers it calls. Many of them begin in one of three
ways, which are `withTarget`, `withWriter` and `withProject`; what a handler does then is its own.

* `resolveValidTarget`, `resolveValidProject`, `withTarget`, `withWriter`, `withProject`;
* `snapshot`, the handlers under their names in the source;
* `execute`, `handleEnvelope`, `completeUpload`.
-/

set_option autoImplicit false

namespace Clinch

/-- `str::trim`. -/
def trim (s : String) : String :=
  String.ofList ((s.toList.dropWhile isWhitespace).reverse.dropWhile isWhitespace).reverse

/-- The bytes that `terminal_key` writes. -/
def TerminalKey.bytes : TerminalKey → List UInt8
  | escape => [0x1b]
  | tab => [0x09]
  | arrowUp => [0x1b, 0x5b, 0x41]
  | arrowDown => [0x1b, 0x5b, 0x42]
  | arrowLeft => [0x1b, 0x5b, 0x44]
  | arrowRight => [0x1b, 0x5b, 0x43]
  | controlD => [0x04]
  | home => [0x1b, 0x5b, 0x48]
  | endKey => [0x1b, 0x5b, 0x46]
  | pageUp => [0x1b, 0x5b, 0x35, 0x7e]
  | pageDown => [0x1b, 0x5b, 0x36, 0x7e]
  | delete => [0x1b, 0x5b, 0x33, 0x7e]

/-- The code, the text and the flag of an error. -/
abbrev TargetError := ProtocolErrorCode × String × Bool

namespace WorkspaceAdapter

variable (c : Crates) (d : Desktop) (now : DateTime)

/-! ## Targets -/

/-- `resolve_valid_target`; it subscribes to the terminal, and starts its agent. -/
def resolveValidTarget (target : TargetRef) (expectedRevision : Option ℕ) (a : WorkspaceAdapter) :
    Except TargetError ResolvedTarget × WorkspaceAdapter :=
  if target.appInstanceId ≠ a.appInstanceId then
    (.error (.targetGone, "Clinch restarted; refresh and select the target again.", true), a)
  else if expectedRevision.any (· ≠ a.revision) then
    (.error (.revisionConflict, "The workspace changed; refresh before sending input.", true), a)
  else match d.resolveTarget c target.key with
    | none => (.error (.targetGone,
        "The requested project, tab, or terminal is no longer available.", true), a)
    | some resolved =>
      (.ok resolved, { a with
        terminalSubscriptions := insert resolved.terminal a.terminalSubscriptions }.perform
          [.startDeferredAgent resolved.terminal])

def resolveValidProject (appInstanceId : AppInstanceId) (projectId : String)
    (expectedRevision : Option ℕ) (a : WorkspaceAdapter) : Except TargetError Project :=
  if appInstanceId ≠ a.appInstanceId then
    .error (.targetGone, "Clinch restarted; refresh before creating a session.", true)
  else if expectedRevision.any (· ≠ a.revision) then
    .error (.revisionConflict,
      "Projects changed on the Mac; refresh before creating a session.", true)
  else match d.resolveProject projectId with
    | none => .error (.targetGone, "That project is no longer open.", true)
    | some project => .ok project

/-- `self.target_error(..)`. -/
def targetError (requestId : RequestId) (error : TargetError) (a : WorkspaceAdapter) :
    AdapterReply × WorkspaceAdapter :=
  a.refuse requestId error.1 error.2.1 error.2.2

/-- The handler goes on with the target, or reports why not. -/
def withTarget (requestId : RequestId) (target : TargetRef) (expectedRevision : Option ℕ)
    (k : ResolvedTarget → WorkspaceAdapter → AdapterReply × WorkspaceAdapter)
    (a : WorkspaceAdapter) : AdapterReply × WorkspaceAdapter :=
  match a.resolveValidTarget c d target expectedRevision with
  | (.error error, a) => a.targetError requestId error
  | (.ok resolved, a) => k resolved a

/-- The handler goes on with the target and its lease, or reports why not. -/
def withWriter (requestId : RequestId) (target : TargetRef) (expectedRevision : Option ℕ)
    (authorization : SessionAuthorization) (allowTakeover : Bool)
    (k : ResolvedTarget → WriterLeaseSnapshot → WorkspaceAdapter → AdapterReply × WorkspaceAdapter)
    (a : WorkspaceAdapter) : AdapterReply × WorkspaceAdapter :=
  a.withTarget c d requestId target expectedRevision fun resolved a =>
    match a.ensureWriter now target authorization (some requestId) allowTakeover with
    | (.error envelope, a) => (.ofEnvelope envelope, a)
    | (.ok lease, a) => k resolved lease a

/-- The handler goes on with the project, or reports why not. -/
def withProject (requestId : RequestId) (appInstanceId : AppInstanceId) (projectId : String)
    (expectedRevision : Option ℕ)
    (k : Project → WorkspaceAdapter → AdapterReply × WorkspaceAdapter) (a : WorkspaceAdapter) :
    AdapterReply × WorkspaceAdapter :=
  match a.resolveValidProject d appInstanceId projectId expectedRevision with
  | .error error => a.targetError requestId error
  | .ok project => k project a

/-! ## Snapshots -/

def paneSnapshot (p : Project) (t : Tab) (a : WorkspaceAdapter) (q : Pane) : PaneSnapshot :=
  let key : TargetKey := ⟨p.opaqueId, t.opaqueId, q.opaqueId c⟩
  ⟨q.opaqueId c, (a.writerLeases.get key).map WriterLease.snapshot,
    (d.watchedTargets c).contains key, a.remoteSizePins.get key⟩

def tabSnapshot (p : Project) (a : WorkspaceAdapter) (t : Tab) : TabSnapshot :=
  ⟨t.opaqueId, (p.section t).map Prod.fst, (p.section t).map Prod.snd,
    t.panes.map (paneSnapshot c d p t a)⟩

def projectSnapshot (a : WorkspaceAdapter) (p : Project) : ProjectSnapshot :=
  ⟨p.opaqueId, p.tabs.map (tabSnapshot c d p a), p.tasks.map fun task => ⟨⟨task.id⟩, task.text⟩⟩

/-- The end of `snapshot`: the revision moves when the hash differs from the remembered one. -/
def observe (fingerprint : UInt64) (a : WorkspaceAdapter) : WorkspaceAdapter :=
  { a with
    revision :=
      if a.lastTopologyFingerprint.any (· ≠ fingerprint) then nextWorkspaceRevision a.revision
      else a.revision
    lastTopologyFingerprint := some fingerprint }

def snapshot (a : WorkspaceAdapter) : WorkspaceSnapshot × WorkspaceAdapter :=
  let a := (a.pruneWriterLeases c d now).reclaimDesktopSizes c d
  let projects := d.projects.map (projectSnapshot c d a)
  let a := a.observe (d.fingerprint c)
  (⟨a.revision, a.sequence, a.appInstanceId, projects⟩, a)

/-- `initial_snapshot`. -/
def initialSnapshot (a : WorkspaceAdapter) : ServerEnvelope × WorkspaceAdapter :=
  let (snapshot, a) := a.snapshot c d now
  a.response none (.snapshot snapshot)

/-! ## Handlers -/

def selectTarget (requestId : RequestId) (target : TargetRef) (a : WorkspaceAdapter) :
    AdapterReply × WorkspaceAdapter :=
  a.withTarget c d requestId target none fun resolved a =>
    if !d.isReady resolved.terminal then
      a.refuse requestId .resyncRequired ("This terminal is still starting. " ++
        "Clinch will connect it automatically when it is ready.") true
    else
      let a := a.perform [.activateProject resolved.project.id,
        .activateTab resolved.project.id resolved.tabIndex,
        .activatePane resolved.tab.id resolved.pane.id, .refreshSize resolved.terminal]
      let (envelope, a) := a.response (some requestId) (.terminalSnapshot target d.streamId a.revision
        (d.dimensions resolved.terminal))
      (⟨envelope, some d.streamId, none⟩, a)

def acquireWriterLease (requestId : RequestId) (target : TargetRef) (takeover : Bool)
    (authorization : SessionAuthorization) (a : WorkspaceAdapter) :
    AdapterReply × WorkspaceAdapter :=
  a.withWriter c d now requestId target none authorization takeover fun _ lease a =>
    a.reply requestId (.writerLeaseChanged target (some lease))

def releaseWriterLease (requestId : RequestId) (target : TargetRef)
    (authorization : SessionAuthorization) (a : WorkspaceAdapter) :
    AdapterReply × WorkspaceAdapter :=
  let a :=
    if (a.writerLeases.get target.key).any (·.sessionId = authorization.sessionId) then
      a.pruneLease c d target.key
    else a
  a.reply requestId (.writerLeaseChanged target
    ((a.writerLeases.get target.key).map WriterLease.snapshot))

def submitComposer (requestId : RequestId) (target : TargetRef) (workspaceRevision : ℕ)
    (text : String) (authorization : SessionAuthorization) (a : WorkspaceAdapter) :
    AdapterReply × WorkspaceAdapter :=
  a.withWriter c d now requestId target (some workspaceRevision) authorization false
    fun resolved _ a =>
      let a := a.perform [.submitText resolved.terminal text]
      if !d.submitText resolved.terminal text then
        a.refuse requestId .invalidRequest
          (if d.agentIsStarting resolved.terminal then
            "That agent is still starting (Clinch starts restored agents when they are first " ++
              "opened); send again in a few seconds."
          else "That agent is not currently accepting prompt input.") true
      else a.accept requestId

def rawTerminalInput (requestId : RequestId) (target : TargetRef) (workspaceRevision : ℕ)
    (dataBase64 : String) (authorization : SessionAuthorization) (a : WorkspaceAdapter) :
    AdapterReply × WorkspaceAdapter :=
  a.withWriter c d now requestId target (some workspaceRevision) authorization false
    fun resolved _ a =>
      match c.base64Decode dataBase64 with
      | none => a.refuse requestId .invalidRequest "Terminal input is not valid base64." false
      | some bytes => (a.perform [.writeBytes resolved.terminal bytes]).accept requestId

def writeFixedTerminalBytes (requestId : RequestId) (target : TargetRef) (expectedRevision : ℕ)
    (bytes : List UInt8) (authorization : SessionAuthorization) (a : WorkspaceAdapter) :
    AdapterReply × WorkspaceAdapter :=
  a.withWriter c d now requestId target (some expectedRevision) authorization false
    fun resolved _ a => (a.perform [.writeBytes resolved.terminal bytes]).accept requestId

def interruptTerminal (requestId : RequestId) (target : TargetRef) (workspaceRevision : ℕ)
    (authorization : SessionAuthorization) (a : WorkspaceAdapter) :
    AdapterReply × WorkspaceAdapter :=
  a.writeFixedTerminalBytes c d now requestId target workspaceRevision [0x03] authorization

def terminalKey (requestId : RequestId) (target : TargetRef) (workspaceRevision : ℕ)
    (key : TerminalKey) (authorization : SessionAuthorization) (a : WorkspaceAdapter) :
    AdapterReply × WorkspaceAdapter :=
  a.writeFixedTerminalBytes c d now requestId target workspaceRevision key.bytes authorization

def resizeTerminal (requestId : RequestId) (target : TargetRef) (dimensions : TerminalDimensions)
    (authorization : SessionAuthorization) (a : WorkspaceAdapter) :
    AdapterReply × WorkspaceAdapter :=
  a.withWriter c d now requestId target none authorization false fun resolved _ a =>
    if !remoteMaySizePane ((d.watchedTargets c).contains target.key)
        (a.remoteSizePins.get target.key) authorization.deviceId then a.accept requestId
    else
      (a.perform [.resize resolved.terminal dimensions.rows dimensions.columns]).accept requestId

def setTerminalSizePin (requestId : RequestId) (target : TargetRef) (pinned : Bool)
    (authorization : SessionAuthorization) (a : WorkspaceAdapter) :
    AdapterReply × WorkspaceAdapter :=
  a.withWriter c d now requestId target none authorization false fun resolved _ a =>
    let a :=
      if pinned then
        { a with remoteSizePins := a.remoteSizePins.insert target.key authorization.deviceId }
      else
        let a := { a with remoteSizePins := a.remoteSizePins.remove target.key }
        if (d.watchedTargets c).contains target.key then
          a.perform [.restoreDesktopSize resolved.terminal]
        else a
    a.accept requestId

/-- `self.bump_topology_revision(); AdapterReply::envelope(self.command_accepted(..))`. -/
def acceptMutation (requestId : RequestId) (a : WorkspaceAdapter) :
    AdapterReply × WorkspaceAdapter :=
  a.bumpTopologyRevision.accept requestId

def createSession (requestId : RequestId) (appInstanceId : AppInstanceId) (projectId : String)
    (kind : SessionKind) (cwd initialPrompt : Option String) (a : WorkspaceAdapter) :
    AdapterReply × WorkspaceAdapter :=
  a.withProject d requestId appInstanceId projectId none fun project a =>
    match optionalLocalDirectory d.canonicalLocalDirectory cwd with
    | .error message => a.refuse requestId .invalidRequest message false
    | .ok cwd =>
      let a := a.perform [.activateProject project.id]
      let a := match kind with
        | .terminal => a.perform [.openTerminal (some project.id) cwd]
        | .claudeCode | .codex => a.perform [.openCliAgent project.id kind cwd initialPrompt]
      a.acceptMutation requestId

def createProject (requestId : RequestId) (appInstanceId : AppInstanceId) (projectId : String)
    (cwd : Option String) (a : WorkspaceAdapter) : AdapterReply × WorkspaceAdapter :=
  a.withProject d requestId appInstanceId projectId none fun anchor a =>
    match optionalLocalDirectory d.canonicalLocalDirectory cwd with
    | .error message => a.refuse requestId .invalidRequest message false
    | .ok cwd =>
      let a := a.perform [.addProject anchor.id]
      if !d.addProject then
        a.refuse requestId .internal
          "Clinch created the project but could not open its first terminal." true
      else (a.perform [.openTerminal none cwd]).acceptMutation requestId

def resumeSession (requestId : RequestId) (appInstanceId : AppInstanceId) (projectId : String)
    (provider : AgentProvider) (durableSessionId cwd : String) (a : WorkspaceAdapter) :
    AdapterReply × WorkspaceAdapter :=
  a.withProject d requestId appInstanceId projectId none fun project a =>
    match d.canonicalLocalDirectory cwd with
    | .error message => a.refuse requestId .invalidRequest message false
    | .ok cwd =>
      let a := a.perform [.activateProject project.id,
        .resumeCliAgent project.id provider durableSessionId cwd]
      if !d.resumeCliAgent project.id provider durableSessionId cwd then
        a.refuse requestId .invalidRequest
          "The durable agent session ID is invalid for this provider." false
      else a.acceptMutation requestId

def createTask (requestId : RequestId) (appInstanceId : AppInstanceId) (workspaceRevision : ℕ)
    (projectId text : String) (a : WorkspaceAdapter) : AdapterReply × WorkspaceAdapter :=
  a.withProject d requestId appInstanceId projectId (some workspaceRevision) fun project a =>
    let a := a.perform [.addWorkspaceTask project.id text]
    if !d.addWorkspaceTask project.id text then
      a.refuse requestId .invalidRequest
        "Task text must contain at least one non-whitespace character." false
    else a.acceptMutation requestId

def createSection (requestId : RequestId) (target : TargetRef) (workspaceRevision : ℕ)
    (name : String) (a : WorkspaceAdapter) : AdapterReply × WorkspaceAdapter :=
  a.withTarget c d requestId target (some workspaceRevision) fun resolved a =>
    let name := trim name
    if name.isEmpty || name.toList.any isControl then
      a.refuse requestId .invalidRequest "Give the section a name." false
    else
      let a := a.perform [.createTabGroup resolved.project.id resolved.tabIndex name]
      if !d.createTabGroup resolved.project.id resolved.tabIndex name then
        a.refuse requestId .targetGone "That tab can no longer start a section." true
      else a.acceptMutation requestId

def setTabSection (requestId : RequestId) (target : TargetRef) (workspaceRevision : ℕ)
    (sectionId : Option String) (a : WorkspaceAdapter) : AdapterReply × WorkspaceAdapter :=
  a.withTarget c d requestId target (some workspaceRevision) fun resolved a =>
    match sectionId.map c.parseUuid with
    | some none => a.refuse requestId .invalidRequest "That section id is not valid." false
    | some (some sectionId) =>
      if (resolved.project.tabGroups.get sectionId).isNone then
        a.refuse requestId .targetGone "That section no longer exists." true
      else
        (a.perform [.moveTabToGroup resolved.project.id resolved.tabIndex sectionId]).acceptMutation
          requestId
    | none =>
      let a :=
        if resolved.tab.groupId.isSome then
          a.perform [.removeTabFromGroup resolved.project.id resolved.tabIndex]
        else a
      a.acceptMutation requestId

def deleteTask (requestId : RequestId) (appInstanceId : AppInstanceId) (workspaceRevision : ℕ)
    (projectId : String) (taskId : TaskId) (a : WorkspaceAdapter) :
    AdapterReply × WorkspaceAdapter :=
  a.withProject d requestId appInstanceId projectId (some workspaceRevision) fun project a =>
    let a := a.perform [.removeWorkspaceTask project.id taskId.uuid]
    if !d.removeWorkspaceTask project.id taskId.uuid then
      a.refuse requestId .targetGone "That task no longer exists." true
    else a.acceptMutation requestId

def launchTask (requestId : RequestId) (appInstanceId : AppInstanceId) (workspaceRevision : ℕ)
    (projectId : String) (taskId : TaskId) (provider : AgentProvider) (a : WorkspaceAdapter) :
    AdapterReply × WorkspaceAdapter :=
  a.withProject d requestId appInstanceId projectId (some workspaceRevision) fun project a =>
    if !project.tasks.any (·.id = taskId.uuid) then
      a.refuse requestId .targetGone "That task no longer exists." true
    else
      let a := a.perform [.activateProject project.id,
        .launchWorkspaceTask project.id taskId.uuid provider]
      if !d.launchWorkspaceTask project.id taskId.uuid provider then
        a.refuse requestId .capabilityDenied
          "This build could not start a local CLI-agent session for that task." false
      else a.acceptMutation requestId

def resolveQuickInsert (terminal : EntityId) (itemId : String) (configurationRevision : ℕ) :
    Option QuickInsert :=
  (d.quickInserts terminal).find? fun item =>
    item.id = itemId && item.configurationRevision = configurationRevision

def quickInsertPreview (requestId : RequestId) (target : TargetRef) (itemId : String)
    (configurationRevision : ℕ) (a : WorkspaceAdapter) : AdapterReply × WorkspaceAdapter :=
  a.withTarget c d requestId target none fun resolved a =>
    match resolveQuickInsert d resolved.terminal itemId configurationRevision with
    | none => a.refuse requestId .staleQuickInsert
        "Quick inserts changed on the Mac. Refresh and try again." true
    | some item =>
      a.reply requestId (.quickInsertPreview item.id item.configurationRevision item.text)

def quickInsertSubmit (requestId : RequestId) (target : TargetRef) (workspaceRevision : ℕ)
    (itemId : String) (configurationRevision : ℕ) (authorization : SessionAuthorization)
    (a : WorkspaceAdapter) : AdapterReply × WorkspaceAdapter :=
  a.withWriter c d now requestId target (some workspaceRevision) authorization false
    fun resolved _ a =>
      match resolveQuickInsert d resolved.terminal itemId configurationRevision with
      | none => a.refuse requestId .staleQuickInsert
          "Quick inserts changed on the Mac. Refresh and try again." true
      | some item =>
        let a := a.perform [.submitText resolved.terminal item.text]
        if !d.submitText resolved.terminal item.text then
          a.refuse requestId .invalidRequest "That terminal is not accepting this quick insert." true
        else a.accept requestId

def beginUpload (requestId : RequestId) (m : UploadBegin) (authorization : SessionAuthorization)
    (a : WorkspaceAdapter) : AdapterReply × WorkspaceAdapter :=
  a.withWriter c d now requestId m.target (some m.workspaceRevision) authorization false
    fun resolved _ a =>
      match d.currentDirectory resolved.terminal with
      | none => a.refuse requestId .uploadRejected ("Uploads currently require a local terminal directory; " ++
          "SSH uploads are not yet supported.") false
      | some cwd =>
        let (envelope, a) := a.response (some requestId) (.uploadReady d.uploadId maxUploadChunkBytes)
        (⟨envelope, none, some ⟨d.uploadId, m.target, cwd, m.filename, m.size,
          m.sha256.map Char.toLower⟩⟩, a)

/-! ## Envelopes -/

/-- `match envelope.payload { .. }` of `handle_envelope`. -/
def execute (requestId : RequestId) (authorization : SessionAuthorization) :
    ClientMessage → WorkspaceAdapter → AdapterReply × WorkspaceAdapter
  | .ping, a => a.reply requestId .pong
  | .requestSnapshot, a =>
    let (snapshot, a) := a.snapshot c d now
    a.reply requestId (.snapshot snapshot)
  | .selectTarget target _, a => a.selectTarget c d requestId target
  | .acquireWriterLease target _ takeover, a =>
    a.acquireWriterLease c d now requestId target takeover authorization
  | .releaseWriterLease target, a => a.releaseWriterLease c d requestId target authorization
  | .submitComposerText target revision text, a =>
    a.submitComposer c d now requestId target revision text authorization
  | .rawTerminalInput target revision dataBase64, a =>
    a.rawTerminalInput c d now requestId target revision dataBase64 authorization
  | .interruptTerminal target revision, a =>
    a.interruptTerminal c d now requestId target revision authorization
  | .terminalResize target _ dimensions, a =>
    a.resizeTerminal c d now requestId target dimensions authorization
  | .setTerminalSizePin target _ pinned, a =>
    a.setTerminalSizePin c d now requestId target pinned authorization
  | .terminalKey target revision key, a =>
    a.terminalKey c d now requestId target revision key authorization
  | .createProject app _ project cwd, a => a.createProject d requestId app project cwd
  | .createSession app _ project kind cwd prompt, a =>
    a.createSession d requestId app project kind cwd prompt
  | .resumeSession app _ project provider id cwd, a =>
    a.resumeSession d requestId app project provider id cwd
  | .createTask app revision project text, a => a.createTask d requestId app revision project text
  | .createSection target revision name, a => a.createSection c d requestId target revision name
  | .setTabSection target revision sectionId, a =>
    a.setTabSection c d requestId target revision sectionId
  | .deleteTask app revision project task, a => a.deleteTask d requestId app revision project task
  | .launchTask app revision project task provider, a =>
    a.launchTask d requestId app revision project task provider
  | .quickInsertPreview target _ itemId configurationRevision, a =>
    a.quickInsertPreview c d requestId target itemId configurationRevision
  | .quickInsertSubmit target revision itemId configurationRevision, a =>
    a.quickInsertSubmit c d now requestId target revision itemId configurationRevision authorization
  | .uploadBegin m, a => a.beginUpload c d now requestId m authorization
  | .uploadCommit _, a | .uploadCancel _, a =>
    a.refuse requestId .uploadRejected "No matching upload is active on this connection." false
  | .unpairDevice, a =>
    a.refuse requestId .internal "Unpairing is handled by the connection, not the workspace." false
  | .disconnect, a => a.accept requestId

def handleEnvelope (envelope : ClientEnvelope) (authorization : SessionAuthorization)
    (a : WorkspaceAdapter) : AdapterReply × WorkspaceAdapter :=
  match envelope.validate c with
  | .error error => a.refuse envelope.requestId .invalidRequest error.toText false
  | .ok () =>
    match a.cached authorization.sessionId envelope.requestId with
    | some cached => (.ofEnvelope cached, a)
    | none =>
      if (requiredCapability envelope.payload).any (· ∉ authorization.capabilities) then
        a.refuse envelope.requestId .capabilityDenied "This phone is not authorized for that action."
          false
      else
        let (reply, a) := a.execute c d now envelope.requestId authorization envelope.payload
        (reply, if isIdempotentMutation envelope.payload then
          a.remember authorization.sessionId envelope.requestId reply.envelope else a)

def completeUpload (completion : UploadCompletion) (a : WorkspaceAdapter) :
    ServerEnvelope × WorkspaceAdapter :=
  match a.resolveValidTarget c d completion.target none with
  | (.error error, a) => a.error completion.requestId error.1 error.2.1 error.2.2
  | (.ok resolved, a) =>
    match a.ensureWriter now completion.target completion.authorization completion.requestId false with
    | (.error envelope, a) => (envelope, a)
    | (.ok _, a) =>
      if d.currentDirectory resolved.terminal ≠ some completion.expectedDirectory then
        a.error completion.requestId .uploadRejected
          "The terminal directory changed before the upload completed." true
      else
        let insertedPath := d.escapeInsertedPath resolved.terminal completion.finalPath
        (a.perform [.insertText resolved.terminal insertedPath]).response completion.requestId
          (.uploadCompleted completion.uploadId insertedPath)

end WorkspaceAdapter

end Clinch
