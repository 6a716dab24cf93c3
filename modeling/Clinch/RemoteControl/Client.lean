import Clinch.RemoteControl.BinaryFrame

/-!
# The phone's connection

`CompanionClient` of `web/remote-control/src/protocol/client.ts`, with what it sees of the browser:
the page's visibility and network, its web sockets, its timers and the authentications in progress.
A handler runs to its end, so it is a function of the state. What the callbacks of the application
are told is the list `notices`.

* `Client`, `Client.connect`, `Client.openSocket`, `Client.received`, `Client.scheduleReconnect`;
* `Event`, `Event.Enabled`, `step`: what the browser may dispatch, and the handler it runs;
* `Run`: the reachable states.
-/

set_option autoImplicit false

namespace Clinch.Browser

/-- `SESSION_REUSE_WINDOW_MS`. -/
def sessionReuseWindowMs : ℕ := 14 * 60000

inductive ConnectionState
  | connected
  | reconnecting
  | macOffline
  | authorizationRevoked
  | versionIncompatible
deriving DecidableEq, Repr

/-- What `received` reads of a `ServerEnvelope`. -/
structure ServerEnvelope where
  version : ℕ
  requestId : Option String
  sequence : Option ℕ
  isSnapshot : Bool
deriving DecidableEq, Repr

/-- The data of a message; a text is what `JSON.parse` makes of it. -/
inductive MessageData
  | binary (bytes : List UInt8)
  | text (envelope : Option ServerEnvelope)

/-- A call of `CompanionClientEvents`, or the outcome of a request. -/
inductive Notice
  | connection (state : ConnectionState) (detail : Option String)
  | envelope (envelope : ServerEnvelope)
  | terminal (frame : TerminalOutputFrame)
  | resync (required : Bool)
  | resolved (requestId : String) (envelope : ServerEnvelope)
  | rejected (requestId : String) (message : String)
deriving DecidableEq

/-- `WebSocket.readyState`; a socket whose close event was dispatched is `closed`. -/
inductive ReadyState
  | connecting
  | opened
  | closing
  | closed
deriving DecidableEq, Repr

/-- A web socket and the variables that its handlers capture. -/
structure Socket where
  readyState : ReadyState
  reusedSession : Bool
  opened : Bool
deriving DecidableEq, Repr

inductive Callback
  | reconnect
  | ping
  | request (requestId : String)
deriving DecidableEq, Repr

/-- A timer that is set. -/
structure Timer where
  id : ℕ
  delay : ℕ
  callback : Callback
deriving DecidableEq, Repr

/-- The `close` of a socket whose close event is still due starts its closing. -/
def Socket.close (s : Socket) : Socket :=
  match s.readyState with
  | .connecting | .opened => { s with readyState := .closing }
  | .closing | .closed => s

/-- Whether the text has the words, in letters of either case. -/
def hasWords (words : String) (text : String) : Bool :=
  (text.toList.map Char.toLower).tails.any fun l => words.toList.isPrefixOf l

def isPermanentAuthorizationError (message : String) : Bool :=
  ["revok", "pair", "authoriz", "not been approved", "record expired"].any (hasWords · message)

/-- A `CompanionClient` in its page. A socket is known by its index in `sockets`. -/
structure Client where
  socket : Option ℕ
  stopped : Bool
  connecting : Bool
  reconnectAttempt : ℕ
  reconnectTimer : Option ℕ
  pingTimer : Option ℕ
  lastSequence : ℕ
  authenticatedAt : Option ℕ
  /-- The requests that wait for an answer, each with its timer. -/
  pending : List (String × ℕ)
  /-- Whether the handlers of the page's events are registered. -/
  listening : Bool
  /-- `document.visibilityState !== "hidden"`. -/
  visible : Bool
  /-- `navigator.onLine`. -/
  online : Bool
  sockets : List Socket
  timers : List Timer
  nextTimer : ℕ
  /-- The calls of `connect` that wait for `authenticate`. -/
  authentications : ℕ
  notices : List Notice
deriving DecidableEq

namespace Client

/-- `new CompanionClient(..)`. -/
def new (visible online : Bool) : Client where
  socket := none
  stopped := true
  connecting := false
  reconnectAttempt := 0
  reconnectTimer := none
  pingTimer := none
  lastSequence := 0
  authenticatedAt := none
  pending := []
  listening := false
  visible := visible
  online := online
  sockets := []
  timers := []
  nextTimer := 1
  authentications := 0
  notices := []

/-! ## The browser -/

def readyState (c : Client) (i : ℕ) : ReadyState := (c.sockets[i]?.map Socket.readyState).getD .closed

def notice (n : Notice) (c : Client) : Client := { c with notices := c.notices ++ [n] }

/-- `window.clearTimeout` and `window.clearInterval`. -/
def clearTimer (id : Option ℕ) (c : Client) : Client :=
  { c with timers := c.timers.filter fun t => some t.id ≠ id }

/-- `window.setTimeout` and `window.setInterval`; the timer has the number `nextTimer`. -/
def setTimer (callback : Callback) (delay : ℕ) (c : Client) : Client :=
  { c with timers := c.timers ++ [⟨c.nextTimer, delay, callback⟩], nextTimer := c.nextTimer + 1 }

/-- `socket.close()`. -/
def closeSocket (i : ℕ) (c : Client) : Client := { c with sockets := c.sockets.modify i Socket.close }

/-- `this.socket?.close()`. -/
def closeCurrent (c : Client) : Client :=
  { c with
    sockets := match c.socket with
      | some i => c.sockets.modify i Socket.close
      | none => c.sockets }

/-- `this.socket?.readyState === WebSocket.OPEN`. -/
def isOpen (c : Client) : Bool := c.socket.any fun i => c.readyState i = .opened

/-! ## The client -/

def rejectPending (message : String) (c : Client) : Client :=
  { c with
    timers := c.timers.filter fun t => t.id ∉ c.pending.map Prod.snd
    pending := []
    notices := c.notices ++ c.pending.map fun p => .rejected p.1 message }

def openSocket (reusedSession : Bool) (c : Client) : Client :=
  { c with
    sockets := c.sockets ++ [⟨.connecting, reusedSession, false⟩]
    socket := some c.sockets.length }

/-- `connect`, up to its wait for `authenticate`. -/
def connect (now : ℕ) (allowSessionReuse : Bool) (c : Client) : Client :=
  if c.stopped || c.connecting || !c.visible then c
  else if !c.online then c.notice (.connection .macOffline "Phone is offline")
  else
    let c := { c with connecting := true }.notice (.connection .reconnecting none)
    let reuseSession := allowSessionReuse &&
      c.authenticatedAt.any fun authenticatedAt => now - authenticatedAt < sessionReuseWindowMs
    if reuseSession then { c with lastSequence := 0 }.openSocket true
    else { c with authentications := c.authentications + 1 }

def scheduleReconnect (announce : Bool) (c : Client) : Client :=
  if c.stopped || c.reconnectTimer.isSome then c
  else
    let c := if announce then c.notice (.connection .reconnecting none) else c
    let delay := min 15000 (750 * 2 ^ c.reconnectAttempt)
    { c with reconnectAttempt := c.reconnectAttempt + 1, reconnectTimer := some c.nextTimer }.setTimer
      .reconnect delay

/-- `connect`, when `authenticate` returned. -/
def authenticated (replayed : Bool) (now : ℕ) (c : Client) : Client :=
  let c := { c with
    authentications := c.authentications - 1
    authenticatedAt := some now
    lastSequence := if replayed then c.lastSequence else 0 }
  if c.stopped then c else c.openSocket false

/-- `connect`, when `authenticate` threw. -/
def authenticationFailed (message : String) (c : Client) : Client :=
  let c := { c with authentications := c.authentications - 1, connecting := false }
  if isPermanentAuthorizationError message then
    { c with stopped := true }.notice (.connection .authorizationRevoked message)
  else (c.notice (.connection .macOffline message)).scheduleReconnect false

def start (now : ℕ) (c : Client) : Client :=
  if !c.stopped then c else { c with stopped := false, listening := true }.connect now true

def stop (c : Client) : Client :=
  let c := { c with stopped := true, listening := false }
  ((c.clearTimer c.reconnectTimer).clearTimer c.pingTimer).closeCurrent.rejectPending "Disconnected"

/-- `sendAndWait`. -/
def sendAndWait (requestId : String) (timeoutMs : ℕ) (c : Client) : Client :=
  let timeout := c.nextTimer
  let c := c.setTimer (.request requestId) timeoutMs
  let rest := c.pending.filter fun p => p.1 ≠ requestId
  if c.isOpen then { c with pending := rest ++ [(requestId, timeout)] }
  else { c.clearTimer timeout with pending := rest }.notice (.rejected requestId "Mac is not connected")

/-- `socket.onopen`. -/
def onopen (i : ℕ) (c : Client) : Client :=
  let c := { c with
    sockets := c.sockets.modify i fun s => { s with opened := true }
    connecting := false
    reconnectAttempt := 0 }.notice (.connection .connected none)
  { c with pingTimer := some c.nextTimer }.setTimer .ping 20000

/-- `if (envelope.request_id) { .. }` of `received`; the empty text is false. -/
def resolvePending (envelope : ServerEnvelope) (c : Client) : Client :=
  match envelope.requestId.filter (· ≠ "") with
  | none => c
  | some requestId =>
    match c.pending.find? fun p => p.1 = requestId with
    | none => c
    | some pending =>
      { c.clearTimer pending.2 with
        pending := c.pending.filter fun p => p.1 ≠ requestId }.notice (.resolved requestId envelope)

/-- `received`. -/
def received (data : MessageData) (c : Client) : Client :=
  match data with
  | .binary bytes =>
    match decodeTerminalOutput bytes with
    | .ok frame => c.notice (.terminal frame)
    | .error message => (c.notice (.connection .versionIncompatible message)).closeCurrent
  | .text none => c.closeCurrent
  | .text (some envelope) =>
    if envelope.version ≠ protocolVersion.toNat then
      (c.notice (.connection .versionIncompatible none)).closeCurrent
    else
      let c := c.resolvePending envelope
      match envelope.sequence with
      | none => c.notice (.envelope envelope)
      | some sequence =>
        if sequence ≤ c.lastSequence then c
        else if c.lastSequence ≠ 0 ∧ sequence ≠ c.lastSequence + 1 ∧ !envelope.isSnapshot then
          let c := c.notice (.resync true)
          if c.isOpen then c else c.scheduleReconnect true
        else
          ({ c with lastSequence := sequence }.notice (.resync false)).notice (.envelope envelope)

/-- `socket.onclose`. -/
def onclose (i : ℕ) (reusedSession opened : Bool) (now : ℕ) (c : Client) : Client :=
  let c := c.clearTimer c.pingTimer
  let c := if c.socket = some i then { c with socket := none } else c
  let c := { c with connecting := false }.rejectPending "Connection to the Mac was interrupted"
  if c.stopped then c
  else if reusedSession && !opened then { c with authenticatedAt := none }.connect now false
  else c.scheduleReconnect true

def visibilityChanged (now : ℕ) (c : Client) : Client :=
  if c.visible then
    if c.isOpen then c
    else { c.clearTimer c.reconnectTimer with reconnectTimer := none }.connect now true
  else c.closeCurrent

def onlineHandler (now : ℕ) (c : Client) : Client :=
  { c.clearTimer c.reconnectTimer with reconnectTimer := none }.connect now true

def offlineHandler (c : Client) : Client :=
  (c.notice (.connection .macOffline "Phone is offline")).closeCurrent

/-- What a timer runs. The `ping` that the client sends changes nothing. -/
def timerFired (t : Timer) (now : ℕ) (c : Client) : Client :=
  match t.callback with
  | .reconnect => { c.clearTimer t.id with reconnectTimer := none }.connect now true
  | .ping => c
  | .request requestId =>
    { c.clearTimer t.id with
      pending := c.pending.filter fun p => p.1 ≠ requestId }.notice
        (.rejected requestId "The Mac did not answer in time")

end Client

/-! ## Runs -/

inductive Event
  | start (now : ℕ)
  | stop
  | visibility (visible : Bool) (now : ℕ)
  | online (now : ℕ)
  | offline
  | timer (t : Timer) (now : ℕ)
  | authenticated (replayed : Bool) (now : ℕ)
  | authenticationFailed (message : String)
  | opened (i : ℕ)
  | message (i : ℕ) (data : MessageData)
  | error (i : ℕ)
  | close (i : ℕ) (now : ℕ)
  | request (requestId : String) (timeoutMs : ℕ)

/-- When the browser dispatches the event. -/
def Event.Enabled (c : Client) : Event → Prop
  | timer t _ => t ∈ c.timers
  | authenticated _ _ => 0 < c.authentications
  | authenticationFailed _ => 0 < c.authentications
  | opened i => c.readyState i = .connecting
  | message i _ => c.readyState i = .opened
  | error i => c.readyState i ≠ .closed
  | close i _ => c.readyState i ≠ .closed
  | _ => True

/-- The browser's part of an event, and then the handler. -/
def step (c : Client) : Event → Client
  | .start now => c.start now
  | .stop => c.stop
  | .visibility visible now =>
    let c := { c with visible := visible }
    if c.listening then c.visibilityChanged now else c
  | .online now =>
    let c := { c with online := true }
    if c.listening then c.onlineHandler now else c
  | .offline =>
    let c := { c with online := false }
    if c.listening then c.offlineHandler else c
  | .timer t now => c.timerFired t now
  | .authenticated replayed now => c.authenticated replayed now
  | .authenticationFailed message => c.authenticationFailed message
  | .opened i =>
    { c with sockets := c.sockets.modify i fun s => { s with readyState := .opened } }.onopen i
  | .message _ data => c.received data
  | .error i => c.closeSocket i
  | .close i now =>
    match c.sockets[i]? with
    | none => c
    | some s =>
      { c with sockets := c.sockets.modify i fun s => { s with readyState := .closed } }.onclose i
        s.reusedSession s.opened now
  | .request requestId timeoutMs => c.sendAndWait requestId timeoutMs

/-- The states that a client and its page reach. -/
inductive Run : Client → Prop
  | new (visible online : Bool) : Run (.new visible online)
  | step {c : Client} (h : Run c) (e : Event) (he : e.Enabled c) : Run (step c e)

end Clinch.Browser
