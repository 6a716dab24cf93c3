import Clinch.RemoteControl.BinaryFrame
import Clinch.RemoteControl.Pairing

/-!
# The companion protocol

The messages of `clinch_companion_protocol` and the checks that an envelope passes. A snapshot is
modelled by what identifies its panes and by who controls them; titles, badges and usage are left
out.

* `TargetRef`, `ClientMessage`, `ClientEnvelope`, `ServerMessage`, `ServerEnvelope`;
* `ProtocolValidationError`, `ClientEnvelope.validate`;
* `Crates`: the functions of other crates.
-/

set_option autoImplicit false

namespace Clinch

/-- One call of a `Hasher`. -/
inductive HashWrite
  | str (s : String)
  | optionStrStr (o : Option (String × String))
  | uuid (u : Uuid)
deriving DecidableEq

/-- The functions of other crates. -/
structure Crates where
  /-- `BASE64_STANDARD.decode` -/
  base64Decode : String → Option (List UInt8)
  /-- `URL_SAFE_NO_PAD.encode` of a text -/
  urlSafeEncode : String → String
  /-- `Uuid::parse_str` -/
  parseUuid : String → Option Uuid
  /-- `DefaultHasher`: the value of `finish` after the calls -/
  defaultHasher : List HashWrite → UInt64

structure RequestId where
  uuid : Uuid
deriving DecidableEq

structure AppInstanceId where
  uuid : Uuid
deriving DecidableEq

structure TaskId where
  uuid : Uuid
deriving DecidableEq

def maxJavascriptSafeInteger : ℕ := 2 ^ 53 - 1

/-- `value & MAX_JAVASCRIPT_SAFE_INTEGER`. -/
def javascriptSafeInteger (value : UInt64) : ℕ := value.toNat &&& maxJavascriptSafeInteger

def writerLeaseTtlSecs : ℤ := 30
def maxInputBytes : ℕ := 64 * 1024
def maxPromptBytes : ℕ := 256 * 1024
def maxUploadBytes : ℕ := 25 * 1024 * 1024
def maxPathBytes : ℕ := 4096
def maxFilenameBytes : ℕ := 255
def maxMimeBytes : ℕ := 128
def maxOpaqueIdBytes : ℕ := 256
def maxSectionNameBytes : ℕ := 256
def maxIdempotencyResultsPerSession : ℕ := 1024

/-! ## Client messages -/

inductive AgentProvider
  | claudeCode
  | codex
deriving DecidableEq, Repr

inductive SessionKind
  | terminal
  | claudeCode
  | codex
deriving DecidableEq, Repr

inductive TerminalKey
  | escape
  | tab
  | arrowUp
  | arrowDown
  | arrowLeft
  | arrowRight
  | controlD
  | home
  | endKey
  | pageUp
  | pageDown
  | delete
deriving DecidableEq, Repr

structure TargetRef where
  appInstanceId : AppInstanceId
  projectId : String
  tabId : String
  paneId : String
deriving DecidableEq

structure TerminalDimensions where
  columns : UInt16
  rows : UInt16
deriving DecidableEq

structure UploadBegin where
  target : TargetRef
  workspaceRevision : ℕ
  filename : String
  mime : String
  size : ℕ
  sha256 : String
deriving DecidableEq

inductive ClientMessage
  | ping
  | requestSnapshot
  | selectTarget (target : TargetRef) (workspaceRevision : ℕ)
  | acquireWriterLease (target : TargetRef) (workspaceRevision : ℕ) (takeover : Bool)
  | releaseWriterLease (target : TargetRef)
  | submitComposerText (target : TargetRef) (workspaceRevision : ℕ) (text : String)
  | rawTerminalInput (target : TargetRef) (workspaceRevision : ℕ) (dataBase64 : String)
  | interruptTerminal (target : TargetRef) (workspaceRevision : ℕ)
  | terminalResize (target : TargetRef) (workspaceRevision : ℕ) (dimensions : TerminalDimensions)
  | setTerminalSizePin (target : TargetRef) (workspaceRevision : ℕ) (pinned : Bool)
  | terminalKey (target : TargetRef) (workspaceRevision : ℕ) (key : TerminalKey)
  | createProject (appInstanceId : AppInstanceId) (workspaceRevision : ℕ) (projectId : String)
    (cwd : Option String)
  | createSession (appInstanceId : AppInstanceId) (workspaceRevision : ℕ) (projectId : String)
    (kind : SessionKind) (cwd : Option String) (initialPrompt : Option String)
  | resumeSession (appInstanceId : AppInstanceId) (workspaceRevision : ℕ) (projectId : String)
    (provider : AgentProvider) (durableSessionId : String) (cwd : String)
  | createTask (appInstanceId : AppInstanceId) (workspaceRevision : ℕ) (projectId : String)
    (text : String)
  | deleteTask (appInstanceId : AppInstanceId) (workspaceRevision : ℕ) (projectId : String)
    (taskId : TaskId)
  | launchTask (appInstanceId : AppInstanceId) (workspaceRevision : ℕ) (projectId : String)
    (taskId : TaskId) (provider : AgentProvider)
  | createSection (target : TargetRef) (workspaceRevision : ℕ) (name : String)
  | setTabSection (target : TargetRef) (workspaceRevision : ℕ) (sectionId : Option String)
  | quickInsertPreview (target : TargetRef) (workspaceRevision : ℕ) (itemId : String)
    (configurationRevision : ℕ)
  | quickInsertSubmit (target : TargetRef) (workspaceRevision : ℕ) (itemId : String)
    (configurationRevision : ℕ)
  | uploadBegin (upload : UploadBegin)
  | uploadCommit (uploadId : UploadId)
  | uploadCancel (uploadId : UploadId)
  | unpairDevice
  | disconnect
deriving DecidableEq

structure ClientEnvelope where
  version : UInt16
  requestId : RequestId
  payload : ClientMessage
deriving DecidableEq

/-! ## Server messages -/

inductive ProtocolErrorCode
  | capabilityDenied
  | invalidRequest
  | targetGone
  | revisionConflict
  | writerLeaseHeld
  | staleQuickInsert
  | uploadRejected
  | resyncRequired
  | rateLimited
  | internal
deriving DecidableEq, Repr

structure ProtocolError where
  code : ProtocolErrorCode
  message : String
  retryable : Bool
  currentRevision : Option ℕ
deriving DecidableEq

structure WriterLeaseSnapshot where
  deviceId : DeviceId
  deviceName : String
  expiresAt : DateTime
deriving DecidableEq

structure PaneSnapshot where
  id : String
  writerLease : Option WriterLeaseSnapshot
  desktopWatching : Bool
  sizePinnedBy : Option DeviceId
deriving DecidableEq

structure TabSnapshot where
  id : String
  sectionId : Option String
  sectionName : Option String
  panes : List PaneSnapshot
deriving DecidableEq

structure TaskSnapshot where
  id : TaskId
  text : String
deriving DecidableEq

structure ProjectSnapshot where
  id : String
  tabs : List TabSnapshot
  tasks : List TaskSnapshot
deriving DecidableEq

structure WorkspaceSnapshot where
  revision : ℕ
  sequence : ℕ
  appInstanceId : AppInstanceId
  projects : List ProjectSnapshot
deriving DecidableEq

inductive ServerMessage
  | hello
  | pong
  | snapshot (snapshot : WorkspaceSnapshot)
  | workspaceChanged (snapshot : WorkspaceSnapshot)
  | terminalSnapshot (target : TargetRef) (streamId : TerminalStreamId) (workspaceRevision : ℕ)
    (dimensions : TerminalDimensions)
  | writerLeaseChanged (target : TargetRef) (lease : Option WriterLeaseSnapshot)
  | quickInsertPreview (itemId : String) (configurationRevision : ℕ) (text : String)
  | uploadReady (uploadId : UploadId) (chunkSize : ℕ)
  | uploadProgress (uploadId : UploadId) (received total : ℕ)
  | uploadCompleted (uploadId : UploadId) (insertedPath : String)
  | commandAccepted (workspaceRevision : ℕ)
  | deviceUnpaired
  | error (error : ProtocolError)
deriving DecidableEq

def ServerMessage.isError : ServerMessage → Bool
  | error _ => true
  | _ => false

structure ServerEnvelope where
  version : UInt16
  requestId : Option RequestId
  sequence : Option ℕ
  payload : ServerMessage
deriving DecidableEq

/-! ## Validation -/

inductive ProtocolValidationError
  | unsupportedVersion (version : UInt16)
  | invalidTextLength (field : String) (min max : ℕ)
  | invalidOpaqueId (field : String)
  | invalidDimensions
  | invalidPath
  | invalidFilename
  | uploadSize (size : ℕ)
  | invalidSha256
  | invalidBase64Payload (field : String)
deriving DecidableEq

def ProtocolValidationError.toText : ProtocolValidationError → String
  | unsupportedVersion version => "unsupported protocol version " ++ toString version
  | invalidTextLength field min max =>
    field ++ " must contain between " ++ toString min ++ " and " ++ toString max ++ " UTF-8 bytes"
  | invalidOpaqueId field => field ++ " is not a valid opaque identifier"
  | invalidDimensions => "terminal dimensions are outside the supported range"
  | invalidPath => "path is empty, too long, or contains a NUL byte"
  | invalidFilename => "filename is unsafe"
  | uploadSize size => "upload size " ++ toString size ++ " is outside the supported range"
  | invalidSha256 => "sha256 must be 64 hexadecimal characters"
  | invalidBase64Payload field =>
    field ++ " must be non-empty base64 within the configured decoded size limit"

/-- `return Err(error)` unless the condition holds. -/
def require (condition : Bool) (error : ProtocolValidationError) :
    Except ProtocolValidationError Unit :=
  if condition then .ok () else .error error

def checkText (field value : String) (min max : ℕ) : Except ProtocolValidationError Unit :=
  require (validateText value min max) (.invalidTextLength field min max)

/-- `is_ascii_control` or `is_ascii_whitespace`; no byte of a character above is either. -/
def isAsciiControlOrWhitespace (c : Char) : Bool :=
  decide (c.toNat ≤ 0x20) || decide (c.toNat = 0x7f)

def validateOpaqueId (field value : String) : Except ProtocolValidationError Unit :=
  require (!value.isEmpty && decide (value.utf8ByteSize ≤ maxOpaqueIdBytes) &&
    !value.toList.any isAsciiControlOrWhitespace) (.invalidOpaqueId field)

def validateBase64Payload (c : Crates) (field value : String) (maxDecodedBytes : ℕ) :
    Except ProtocolValidationError Unit :=
  require (!value.isEmpty && decide (value.utf8ByteSize ≤ (maxDecodedBytes + 2) / 3 * 4) &&
    (c.base64Decode value).any fun decoded =>
      !decoded.isEmpty && decide (decoded.length ≤ maxDecodedBytes)) (.invalidBase64Payload field)

def validateDimensions (d : TerminalDimensions) : Except ProtocolValidationError Unit :=
  require (decide (2 ≤ d.columns) && decide (1 ≤ d.rows) && decide (d.columns ≤ 1000) &&
    decide (d.rows ≤ 1000)) .invalidDimensions

def validatePath (path : String) : Except ProtocolValidationError Unit :=
  require (!path.isEmpty && decide (path.utf8ByteSize ≤ maxPathBytes) &&
    !path.toList.contains '\x00') .invalidPath

def validateFilename (filename : String) : Except ProtocolValidationError Unit :=
  require (!filename.isEmpty && decide (filename.utf8ByteSize ≤ maxFilenameBytes) &&
    decide (filename ≠ "." ∧ filename ≠ "..") &&
    !filename.toList.any (['/', '\\', '\x00'].contains ·) && !filename.toList.any isControl)
    .invalidFilename

/-- `u8::is_ascii_hexdigit`. -/
def isAsciiHexdigit (c : Char) : Bool :=
  c.isDigit || decide ('a' ≤ c ∧ c ≤ 'f') || decide ('A' ≤ c ∧ c ≤ 'F')

def TargetRef.validate (t : TargetRef) : Except ProtocolValidationError Unit := do
  validateOpaqueId "project_id" t.projectId
  validateOpaqueId "tab_id" t.tabId
  validateOpaqueId "pane_id" t.paneId

def UploadBegin.validate (m : UploadBegin) : Except ProtocolValidationError Unit := do
  m.target.validate
  validateFilename m.filename
  checkText "mime" m.mime 1 maxMimeBytes
  require (decide (m.size ≠ 0) && decide (m.size ≤ maxUploadBytes)) (.uploadSize m.size)
  require (decide (m.sha256.utf8ByteSize = 64) && m.sha256.toList.all isAsciiHexdigit)
    .invalidSha256

def ClientMessage.validate (c : Crates) : ClientMessage → Except ProtocolValidationError Unit
  | selectTarget target _ | acquireWriterLease target _ _ | releaseWriterLease target
  | interruptTerminal target _ | setTerminalSizePin target _ _ | terminalKey target _ _ =>
    target.validate
  | submitComposerText target _ text => do
    target.validate
    checkText "composer_text" text 1 maxPromptBytes
  | rawTerminalInput target _ dataBase64 => do
    target.validate
    validateBase64Payload c "raw_terminal_input" dataBase64 maxInputBytes
  | terminalResize target _ dimensions => do
    target.validate
    validateDimensions dimensions
  | createProject _ _ projectId cwd => do
    validateOpaqueId "project_id" projectId
    cwd.forM validatePath
  | createSession _ _ projectId _ cwd initialPrompt => do
    validateOpaqueId "project_id" projectId
    cwd.forM validatePath
    initialPrompt.forM (checkText "initial_prompt" · 0 maxPromptBytes)
  | resumeSession _ _ projectId _ durableSessionId cwd => do
    validateOpaqueId "project_id" projectId
    checkText "durable_session_id" durableSessionId 1 maxOpaqueIdBytes
    validatePath cwd
  | createTask _ _ projectId text => do
    validateOpaqueId "project_id" projectId
    checkText "task_text" text 1 maxPromptBytes
  | deleteTask _ _ projectId _ | launchTask _ _ projectId _ _ =>
    validateOpaqueId "project_id" projectId
  | createSection target _ name => do
    target.validate
    checkText "section_name" name 1 maxSectionNameBytes
  | setTabSection target _ sectionId => do
    target.validate
    sectionId.forM (validateOpaqueId "section_id")
  | quickInsertPreview target _ itemId _ | quickInsertSubmit target _ itemId _ => do
    target.validate
    validateOpaqueId "quick_insert_id" itemId
  | uploadBegin m => m.validate
  | ping | requestSnapshot | uploadCommit _ | uploadCancel _ | unpairDevice | disconnect => .ok ()

def ClientEnvelope.validate (c : Crates) (e : ClientEnvelope) :
    Except ProtocolValidationError Unit := do
  require (decide (e.version = protocolVersion)) (.unsupportedVersion e.version)
  e.payload.validate c

end Clinch
