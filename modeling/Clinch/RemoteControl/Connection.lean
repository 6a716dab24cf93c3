import Clinch.RemoteControl.Upload

/-!
# The loop of a connection

What `websocket_loop` of `app/src/remote_control/gateway.rs` does with the messages of one client once
the socket serves, with its upload and the answers to its commits. Other connections call the adapter
too, and other programs change files.

* `Connection`, `send`, `teardown`;
* `handle`, `uploadCancel`, `uploadCommit`, `receiveText`, `receiveBinary`;
* `ConnectionEvent`, `Connection.step`, `Connection.run`.
-/

set_option autoImplicit false

namespace Clinch

structure Connection where
  /-- The workspace model; `spawn` fails when it was dropped. -/
  workspace : Option WorkspaceAdapter
  files : FileSystem
  activeUpload : Option ActiveUpload
  completedUploadRequests : HashMap RequestId ServerEnvelope
  connectionSequence : ℕ
  /-- What was sent so far. -/
  sent : List ServerEnvelope
  /-- The loop ended. -/
  closed : Bool

/-- What the other side and the Mac do while the loop handles a message. -/
structure Io where
  mac : Mac
  /-- The message is sent; else the loop ends. -/
  sent : Bool
  /-- Why `revoke_device` fails. -/
  revokeError : Option String
  /-- The place of the key that `keys().next()` yields. -/
  firstKey : ℕ

def protocolError (requestId : Option RequestId) (code : ProtocolErrorCode) (message : String) :
    ServerEnvelope :=
  ⟨protocolVersion, requestId, none, .error ⟨code, message, false, none⟩⟩

def protocolCommandAccepted (requestId : RequestId) : ServerEnvelope :=
  ⟨protocolVersion, some requestId, none, .commandAccepted 0⟩

def maxCompletedUploadRequests : ℕ := 64

/-- `completed_upload_requests.insert(..)`, and the removal of a key when there are too many. -/
def rememberCompleted (io : Io) (requestId : RequestId) (response : ServerEnvelope)
    (completed : HashMap RequestId ServerEnvelope) : HashMap RequestId ServerEnvelope :=
  let completed := completed.insert requestId response
  if maxCompletedUploadRequests < completed.len then
    match completed.entries[io.firstKey % completed.len]? with
    | some oldest => completed.remove oldest.1
    | none => completed
  else completed

namespace Connection

variable (c : Crates) (k : Crypto) (sessionId : AuthSessionId)

/-- `if let Some(upload) = active_upload.take() { cleanup_staging_file(..) }`. -/
def dropUpload (s : Connection) : Connection :=
  match s.activeUpload with
  | some upload =>
    { s with activeUpload := none, files := cleanupStagingFile upload.stagingPath s.files }
  | none => s

/-- What follows the loop. -/
def teardown (now : DateTime) (s : Connection) : Connection :=
  let s := s.dropUpload
  { s with workspace := s.workspace.map (·.sessionDisconnected now sessionId), closed := true }

/-- `send_json`, which numbers the message. -/
def push (envelope : ServerEnvelope) (s : Connection) : Connection :=
  let connectionSequence := min (s.connectionSequence + 1) (2 ^ 64 - 1)
  { s with
    connectionSequence := connectionSequence
    sent := s.sent ++ [{ envelope with sequence := some connectionSequence }] }

/-- `if send_json(..).is_err() { break; }`. -/
def send (now : DateTime) (io : Io) (envelope : ServerEnvelope) (s : Connection) : Connection :=
  let s := s.push envelope
  if io.sent then s else s.teardown sessionId now

/-- The upload is dropped, and the client told why. -/
def rejectUpload (now : DateTime) (io : Io) (requestId : Option RequestId) (message : String)
    (s : Connection) : Connection :=
  s.dropUpload.send sessionId now io (protocolError requestId .uploadRejected message)

/-- The upload that the adapter planned is staged. -/
def stage (io : Io) (reply : AdapterReply) (s : Connection) : ServerEnvelope × Connection :=
  match reply.uploadPlan with
  | none => (reply.envelope, s)
  | some plan => match stageUpload io.mac plan s.files with
    | (.ok upload, files) => (reply.envelope, { s with activeUpload := some upload, files := files })
    | (.error message, files) =>
      (protocolError reply.envelope.requestId .uploadRejected message, { s with files := files })

/-- The adapter handles the envelope. -/
def handle (d : Desktop) (now : DateTime) (io : Io) (envelope : ClientEnvelope)
    (authorization : SessionAuthorization) (s : Connection) : Connection :=
  match s.workspace with
  | none => s.send sessionId now io
      (protocolError none .internal "Clinch workspace is unavailable.")
  | some a =>
    let (reply, a) := a.handleEnvelope c d now envelope authorization
    let (envelope, s) := { s with workspace := some a }.stage io reply
    s.send sessionId now io envelope

def uploadCancel (now : DateTime) (io : Io) (requestId : RequestId) (uploadId : UploadId)
    (s : Connection) : Connection :=
  let cancelled := s.activeUpload.any fun upload => upload.plan.uploadId = uploadId
  (if cancelled then s.dropUpload else s).send sessionId now io (protocolCommandAccepted requestId)

/-- The adapter inserts the path of the published file. -/
def complete (d : Desktop) (now : DateTime) (completion : UploadCompletion) (s : Connection) :
    ServerEnvelope × Connection :=
  match s.workspace with
  | none => (protocolError completion.requestId .internal "Clinch workspace is unavailable.", s)
  | some a =>
    let (response, a) := a.completeUpload c d now completion
    (response, { s with workspace := some a })

/-- The rest of a commit whose file is published. -/
def published (d : Desktop) (now : DateTime) (io : Io) (requestId : RequestId)
    (authorization : SessionAuthorization) (plan : UploadPlan) (finalPath : String)
    (s : Connection) : Connection :=
  let (response, s) := s.complete c d now ⟨some requestId, plan.uploadId, plan.target,
    plan.destinationDirectory, finalPath, authorization⟩
  let files := if response.payload.isError then s.files.remove finalPath else s.files
  { s with
    files := files
    completedUploadRequests := rememberCompleted io requestId response s.completedUploadRequests
    }.send sessionId now io response

def uploadCommit (d : Desktop) (now : DateTime) (io : Io) (requestId : RequestId)
    (authorization : SessionAuthorization) (uploadId : UploadId) (s : Connection) : Connection :=
  match s.activeUpload with
  | none => s.send sessionId now io (protocolError (some requestId) .uploadRejected
      "No matching upload is active on this connection.")
  | some upload =>
    if upload.plan.uploadId ≠ uploadId then
      s.rejectUpload sessionId now io (some requestId)
        "The upload ID does not match the active upload."
    else
      let (result, files) := finalizeUpload k io.mac upload s.files
      let s := { s with activeUpload := none, files := files }
      match result with
      | .ok (plan, finalPath) =>
        s.published c sessionId d now io requestId authorization plan finalPath
      | .error message =>
        s.send sessionId now io (protocolError (some requestId) .uploadRejected message)

/-- `revoke_device`, and the end of the loop when it succeeds. -/
def unpairDevice (now : DateTime) (io : Io) (requestId : RequestId) (s : Connection) : Connection :=
  match io.revokeError with
  | none => (s.push ⟨protocolVersion, some requestId, none, .deviceUnpaired⟩).teardown sessionId now
  | some error => s.send sessionId now io (protocolError (some requestId) .internal
      ("Could not unpair this phone: " ++ error))

/-- A text message that is an envelope. -/
def receiveText (d : Desktop) (now : DateTime) (io : Io) (authorization : SessionAuthorization)
    (envelope : ClientEnvelope) (s : Connection) : Connection :=
  match envelope.payload, s.completedUploadRequests.get envelope.requestId with
  | .disconnect, _ => s.teardown sessionId now
  | .unpairDevice, _ => s.unpairDevice sessionId now io envelope.requestId
  | _, some cached => s.send sessionId now io cached
  | .uploadCancel uploadId, none => s.uploadCancel sessionId now io envelope.requestId uploadId
  | .uploadCommit uploadId, none =>
    s.uploadCommit c k sessionId d now io envelope.requestId authorization uploadId
  | .uploadBegin _, none =>
    if s.activeUpload.isSome then s.send sessionId now io (protocolError (some envelope.requestId)
      .uploadRejected "Finish or cancel the current upload first.")
    else s.handle c sessionId d now io envelope authorization
  | _, none => s.handle c sessionId d now io envelope authorization

/-- The bytes of the chunk are written. -/
def writeChunk (now : DateTime) (io : Io) (upload : ActiveUpload) (frame : UploadChunkFrame)
    (s : Connection) : Connection :=
  let upload' : ActiveUpload := { upload with
    digest := upload.digest ++ frame.payload
    received := upload.received + frame.payload.length
    nextChunkIndex := upload.nextChunkIndex + 1 }
  { s with
    activeUpload := some upload'
    files := s.files.append upload.stagingPath frame.payload }.send sessionId now io
      ⟨protocolVersion, none, none,
        .uploadProgress upload.plan.uploadId upload'.received upload.plan.size⟩

def receiveBinary (now : DateTime) (io : Io) (bytes : List UInt8) (s : Connection) : Connection :=
  match decodeUploadChunk bytes with
  | .ok (.ok frame) =>
    match s.activeUpload with
    | none => s.send sessionId now io
        (protocolError none .uploadRejected "No upload is active for this connection.")
    | some upload =>
      if frame.uploadId ≠ upload.plan.uploadId ∨ frame.chunkIndex ≠ upload.nextChunkIndex ∨
          upload.plan.size < upload.received + frame.payload.length then
        s.rejectUpload sessionId now io none
          "Upload chunks must arrive once, in order, and within the declared size."
      else if io.mac.writeFails then
        s.rejectUpload sessionId now io none "The Mac could not write the uploaded file."
      else s.writeChunk sessionId now io upload frame
  -- the decoder never panics
  | _ => s.rejectUpload sessionId now io none "The upload chunk frame is invalid."

end Connection

/-! ## Runs -/

inductive ConnectionEvent
  | text (d : Desktop) (now : DateTime) (io : Io) (authorization : SessionAuthorization)
    (envelope : ClientEnvelope)
  /-- A text message that is no envelope. -/
  | garbled (now : DateTime) (io : Io)
  | binary (now : DateTime) (io : Io) (bytes : List UInt8)
  /-- A tick of the snapshots; the snapshot is sent if it shows anything new. -/
  | poll (d : Desktop) (now : DateTime) (io : Io) (changed : Bool)
  /-- The loop ends for any other reason. -/
  | close (now : DateTime)
  /-- A call of the adapter that is not the connection's. -/
  | adapter (d : Desktop) (now : DateTime) (e : AdapterEvent)
  /-- Another program writes or removes a file. It leaves the staging file alone. -/
  | outside (path : String) (content : Option (List UInt8))
  /-- The workspace model is dropped. -/
  | drop

namespace Connection

variable (c : Crates) (k : Crypto) (sessionId : AuthSessionId)

/-- `poll_snapshot` and `workspace_changed`. -/
def poll (d : Desktop) (now : DateTime) (io : Io) (changed : Bool) (s : Connection) : Connection :=
  match s.workspace with
  | none => s
  | some a =>
    let (snapshot, a) := a.snapshot c d now
    if !changed then { s with workspace := some a }
    else
      let (envelope, a) := a.response none (.workspaceChanged snapshot)
      { s with workspace := some a }.send sessionId now io envelope

def writeOutside (path : String) (content : Option (List UInt8)) (s : Connection) : Connection :=
  if s.activeUpload.any fun upload => upload.stagingPath = path then s
  else { s with files := match content with
    | some content => s.files.insert path content
    | none => s.files.remove path }

def step (s : Connection) : ConnectionEvent → Connection
  | .adapter d now e => { s with workspace := s.workspace.map fun a => a.step c d now e }
  | .outside path content => s.writeOutside path content
  | .drop => { s with workspace := none }
  | .text d now io authorization envelope =>
    if s.closed then s else s.receiveText c k sessionId d now io authorization envelope
  | .garbled now io =>
    if s.closed then s
    else s.send sessionId now io (protocolError none .invalidRequest "Invalid message.")
  | .binary now io bytes => if s.closed then s else s.receiveBinary sessionId now io bytes
  | .poll d now io changed => if s.closed then s else s.poll c sessionId d now io changed
  | .close now => if s.closed then s else s.teardown sessionId now

def run (s : Connection) (es : List ConnectionEvent) : Connection :=
  es.foldl (step c k sessionId) s

/-- The connection when its loop begins to serve. -/
def start (workspace : Option WorkspaceAdapter) (files : FileSystem) (connectionSequence : ℕ)
    (sent : List ServerEnvelope) : Connection :=
  ⟨workspace, files, none, .empty, connectionSequence, sent, false⟩

end Connection

end Clinch
