import Clinch.RemoteControl.Frame

/-!
# The sockets of the gateway

Any number of `websocket_loop`s over one adapter. A loop calls the adapter between its waits, so a
call and the phase that it ends are one action; loops, the desktop and the clock act in any order.

* `LoopPhase`, `Gateway`, `GatewayAction`, `Gateway.step`: the loops, and what they do;
* `GatewayAction.Abandons`: the early returns of a loop that registered its session;
* `lease_origin`: a call that sets a lease is made for the device of the lease;
* `GatewayInv`: a connected session has a loop, and a lease expires soon;
* `live_sessions`: the main result, and `greeting_leaks`: what an early return leaves.
-/

set_option autoImplicit false

namespace Clinch

/-- Where a `websocket_loop` is: what it does next. -/
inductive LoopPhase
  /-- `connect_session` authorized the socket; `session_connected` is next. -/
  | accepted
  /-- The hello is next. -/
  | greeting
  /-- `initial_snapshot` is next. -/
  | loading
  /-- Sending the first snapshot is next. -/
  | showing
  /-- The loop itself. -/
  | serving
  /-- `session_disconnected` was called; `release_session` is next. -/
  | leaving
deriving DecidableEq, Repr

structure Gateway where
  /-- The workspace model; `spawn` fails when it was dropped. -/
  workspace : Option WorkspaceAdapter
  /-- The running loops. `connect_session` gives a session to one loop at a time. -/
  loops : HashMap AuthSessionId LoopPhase
  clock : DateTime

/-- A call of the adapter that the loop of a session makes while it serves. -/
def AdapterEvent.Serves (owner : AuthSessionId → DeviceId) (sessionId : AuthSessionId) :
    AdapterEvent → Prop
  | envelope _ authorization =>
    authorization.sessionId = sessionId ∧ authorization.deviceId = owner sessionId
  | completeUpload completion => completion.authorization.sessionId = sessionId ∧
    completion.authorization.deviceId = owner sessionId
  | snapshot | workspaceChanged _ => True
  | _ => False

inductive GatewayAction
  | connect (sessionId : AuthSessionId)
  | register (sessionId : AuthSessionId)
  | sendHello (sessionId : AuthSessionId) (sent : Bool)
  | load (sessionId : AuthSessionId) (d : Desktop)
  | sendSnapshot (sessionId : AuthSessionId) (sent : Bool)
  | call (sessionId : AuthSessionId) (d : Desktop) (e : AdapterEvent)
  /-- The loop ends, in any of its ways. -/
  | disconnect (sessionId : AuthSessionId)
  | release (sessionId : AuthSessionId)
  /-- A sweep that a loop scheduled when it ended. -/
  | sweep (d : Desktop)
  | desktopInput (d : Desktop) (terminal : EntityId)
  /-- The remote control is turned off. -/
  | shutdown (d : Desktop)
  /-- The workspace model is dropped. -/
  | drop
  | tick (nanoseconds : ℕ)

namespace Gateway

variable (c : Crates) (owner : AuthSessionId → DeviceId)

/-- `workspace_spawner.spawn(..)`. -/
def spawn (f : DateTime → WorkspaceAdapter → WorkspaceAdapter) (s : Gateway) : Gateway :=
  { s with workspace := s.workspace.map (f s.clock) }

def enter (sessionId : AuthSessionId) (phase : LoopPhase) (s : Gateway) : Gateway :=
  { s with loops := s.loops.insert sessionId phase }

/-- The loop returns; `release_session` gave its session free. -/
def leave (sessionId : AuthSessionId) (s : Gateway) : Gateway :=
  { s with loops := s.loops.remove sessionId }

/-- An action of a loop is taken in its phase only. -/
def inPhase (sessionId : AuthSessionId) (phase : LoopPhase) (f : Gateway → Gateway) (s : Gateway) :
    Gateway :=
  if s.loops.get sessionId = some phase then f s else s

def step (s : Gateway) : GatewayAction → Gateway
  | .connect sessionId =>
    if (s.loops.get sessionId).isSome then s else s.enter sessionId .accepted
  | .register sessionId => s.inPhase sessionId .accepted fun s =>
    (s.spawn fun now => .sessionConnected now sessionId (owner sessionId)).enter sessionId .greeting
  | .sendHello sessionId sent => s.inPhase sessionId .greeting fun s =>
    if sent then s.enter sessionId .loading else s.leave sessionId
  | .load sessionId d => s.inPhase sessionId .loading fun s =>
    if s.workspace.isNone then s.leave sessionId
    else (s.spawn fun now a => (a.initialSnapshot c d now).2).enter sessionId .showing
  | .sendSnapshot sessionId sent => s.inPhase sessionId .showing fun s =>
    if sent then s.enter sessionId .serving else s.leave sessionId
  | .call sessionId d e => s.inPhase sessionId .serving fun s =>
    s.spawn fun now a => a.step c d now e
  | .disconnect sessionId => s.inPhase sessionId .serving fun s =>
    (s.spawn fun now => .sessionDisconnected now sessionId).enter sessionId .leaving
  | .release sessionId => s.inPhase sessionId .leaving fun s => s.leave sessionId
  | .sweep d => s.spawn fun now => .sweepWriterLeases c d now
  | .desktopInput d terminal => s.spawn fun now a => a.step c d now (.desktopInput terminal)
  | .shutdown d => s.spawn fun _ => .allSessionsDisconnected c d
  | .drop => { s with workspace := none }
  | .tick nanoseconds => { s with clock := s.clock + nanoseconds }

end Gateway

/-- A loop calls the adapter for its own session. -/
def GatewayAction.Valid (owner : AuthSessionId → DeviceId) : GatewayAction → Prop
  | call sessionId _ e => e.Serves owner sessionId
  | _ => True

/-- A loop that registered its session returns early: it does not call `session_disconnected`. -/
def GatewayAction.Abandons (s : Gateway) : GatewayAction → Prop
  | sendHello sessionId false =>
    s.workspace.isSome = true ∧ s.loops.get sessionId = some .greeting
  | sendSnapshot sessionId false =>
    s.workspace.isSome = true ∧ s.loops.get sessionId = some .showing
  | _ => False

/-- A loop of the device begins. -/
def GatewayAction.Connects (owner : AuthSessionId → DeviceId) (dev : DeviceId) :
    GatewayAction → Prop
  | connect sessionId => owner sessionId = dev
  | _ => False

/-- The states that actions with the property `P` lead to from `s₀`. -/
inductive GatewayRun (c : Crates) (owner : AuthSessionId → DeviceId)
    (P : Gateway → GatewayAction → Prop) (s₀ : Gateway) : Gateway → Prop
  | start : GatewayRun c owner P s₀ s₀
  | step {s : Gateway} (h : GatewayRun c owner P s₀ s) (e : GatewayAction) (he : e.Valid owner)
    (hp : P s e) : GatewayRun c owner P s₀ (s.step c owner e)

def Gateway.new (appInstanceId : AppInstanceId) (random : UInt64) (clock : DateTime) : Gateway :=
  ⟨some (.new appInstanceId random), .empty, clock⟩

namespace WorkspaceAdapter

variable {c : Crates} {d : Desktop} {now : DateTime} {a a' : WorkspaceAdapter}
  {authorization : SessionAuthorization} {owner : AuthSessionId → DeviceId} {key : TargetKey}
  {lease : WriterLease}

/-! ## Where leases come from -/

/-- The lease was there, or it is one of the device, set now. -/
def Inherits (now : DateTime) (dev : DeviceId) (a a' : WorkspaceAdapter) : Prop :=
  ∀ key lease, a'.writerLeases.get key = some lease → a.writerLeases.get key = some lease ∨
    (lease.deviceId = dev ∧ lease.expiresAt = now + seconds writerLeaseTtlSecs)

/-- Every lease was there. -/
def Sheds (a a' : WorkspaceAdapter) : Prop :=
  ∀ key lease, a'.writerLeases.get key = some lease → a.writerLeases.get key = some lease

theorem Sheds.of_eq (h : a'.writerLeases = a.writerLeases) : Sheds a a' := fun _ _ hl => h ▸ hl

theorem Quiet.sheds (h : Quiet a a') : Sheds a a' := .of_eq h.writerLeases

theorem Sheds.trans {a'' : WorkspaceAdapter} (h : Sheds a a') (h' : Sheds a' a'') : Sheds a a'' :=
  fun key lease hl => h key lease (h' key lease hl)

theorem Sheds.inherits {dev : DeviceId} (h : Sheds a a') : Inherits now dev a a' :=
  fun key lease hl => Or.inl (h key lease hl)

theorem Inherits.sheds {a'' : WorkspaceAdapter} {dev : DeviceId} (h : Inherits now dev a a')
    (h' : Sheds a' a'') : Inherits now dev a a'' := fun key lease hl => h key lease (h' key lease hl)

theorem Quiet.inherits {a'' : WorkspaceAdapter} {dev : DeviceId} (h : Quiet a a')
    (h' : Inherits now dev a' a'') : Inherits now dev a a'' := by
  rwa [Inherits, ← h.writerLeases]

theorem Granted.inherits (h : Granted now key authorization a a') :
    Inherits now authorization.deviceId a a' := by
  intro k lease hl
  rw [h.writerLeases] at hl
  split at hl
  · obtain rfl := Option.some.inj hl
    exact Or.inr ⟨rfl, rfl⟩
  · exact Or.inl hl

theorem sheds_releasePaneControl (key : TargetKey) (a : WorkspaceAdapter) :
    Sheds a (a.releasePaneControl key) := fun _ _ hl => (HashMap.get_remove_some.mp hl).1

theorem sheds_pruneLease (c : Crates) (d : Desktop) (key : TargetKey) (a : WorkspaceAdapter) :
    Sheds a (a.pruneLease c d key) :=
  (sheds_releasePaneControl key a).trans (quiet_restoreDesktopSize c d key _).sheds

theorem sheds_pruneWriterLeases (c : Crates) (d : Desktop) (now : DateTime) (a : WorkspaceAdapter) :
    Sheds a (a.pruneWriterLeases c d now) := fun _ _ hl => (get_pruneWriterLeases.mp hl).1

theorem sheds_snapshot (c : Crates) (d : Desktop) (now : DateTime) (a : WorkspaceAdapter) :
    Sheds a (a.snapshot c d now).2 :=
  (sheds_pruneWriterLeases c d now a).trans (quiet_reclaimDesktopSizes c d _).sheds

theorem sheds_preempt (c : Crates) (d : Desktop) (terminal : EntityId) (a : WorkspaceAdapter) :
    Sheds a (a.preemptWriterForDesktopInput c d terminal) := by
  rw [preemptWriterForDesktopInput]
  split
  · exact .of_eq rfl
  · exact (foldl_induct (P := Sheds a) (fun b key h => h.trans (sheds_releasePaneControl key b)) _
      (.of_eq rfl)).trans (Quiet.perform_one _ id).sheds

theorem outcome_inherits {requestId : RequestId} {m : ClientMessage}
    {r : AdapterReply × WorkspaceAdapter} (h : Outcome c d now a requestId authorization m r) :
    Inherits now authorization.deviceId a r.2 := by
  cases h with
  | refused h _ => exact h.1.sheds.inherits
  | read _ h => exact h.sheds.inherits
  | mutation _ _ h => exact (Sheds.of_eq h.writerLeases).inherits
  | snapshot => exact ((sheds_snapshot c d now a).trans (Quiet.reply _ _ _).sheds).inherits
  | release _ h =>
    refine Sheds.inherits (Sheds.trans ?_ h.sheds)
    split
    · exact sheds_pruneLease c d _ a
    · exact .of_eq rfl
  | blocked _ h _ he => exact (h.trans (quiet_of_error he).2.1).sheds.inherits
  | written _ _ h he h' => exact (h.inherits (granted_of_ok he).2.inherits).sheds h'.sheds
  | resized _ _ h he _ => exact (h.inherits (granted_of_ok he).2.inherits).sheds (.of_eq rfl)
  | pin _ h he h' =>
    exact (h.inherits (granted_of_ok he).2.inherits).sheds (.of_eq h'.writerLeases)

theorem handleEnvelope_inherits (envelope : ClientEnvelope) :
    Inherits now authorization.deviceId a (a.handleEnvelope c d now envelope authorization).2 := by
  rcases handleEnvelope_cases c d now envelope authorization a with
    ⟨e, he⟩ | ⟨cached, -, he⟩ | ⟨-, he⟩ | ⟨-, r, hr, he⟩
  · rw [he]
    exact (Quiet.reply _ _ _).sheds.inherits
  · rw [he]
    exact (Sheds.of_eq rfl).inherits
  · rw [he]
    exact (Quiet.reply _ _ _).sheds.inherits
  · have h := outcome_inherits
      (execute_outcome c d now a envelope.requestId authorization envelope.payload)
    rw [← hr] at h
    rw [he]
    refine h.sheds (.of_eq ?_)
    simp only
    split <;> rfl

theorem completeUpload_inherits (completion : UploadCompletion) :
    Inherits now completion.authorization.deviceId a (a.completeUpload c d now completion).2 := by
  rcases completeUpload_cases c d now completion a with
    ⟨h, -, -⟩ | ⟨b, hb, -, ⟨envelope, he, heq⟩ | ⟨lease, he, h⟩⟩
  · exact h.sheds.inherits
  · rw [heq]
    exact (hb.trans (quiet_of_error he).2.1).sheds.inherits
  · exact (hb.inherits (granted_of_ok he).2.inherits).sheds h.sheds

theorem sessionConnected_inherits (now : DateTime) (sessionId : AuthSessionId) (dev : DeviceId)
    (a : WorkspaceAdapter) : Inherits now dev a (a.sessionConnected now sessionId dev) := by
  intro key lease hl
  rw [sessionConnected, HashMap.get_mapValues] at hl
  obtain ⟨lease', hl', rfl⟩ := Option.map_eq_some_iff.mp hl
  split
  · rename_i h
    exact Or.inr ⟨h.1, rfl⟩
  · exact Or.inl hl'

theorem sessionDisconnected_inherits (ha : LeaseInv owner a) (now : DateTime)
    (sessionId : AuthSessionId) :
    Inherits now (owner sessionId) a (a.sessionDisconnected now sessionId) := by
  intro key lease hl
  rw [sessionDisconnected, HashMap.get_mapValues] at hl
  obtain ⟨lease', hl', rfl⟩ := Option.map_eq_some_iff.mp hl
  split
  · rename_i h
    exact Or.inr ⟨by rw [← h]; exact ha.owned key lease' hl', rfl⟩
  · exact Or.inl hl'

/-- **A call that a loop makes sets leases of its device only.** -/
theorem lease_origin {sessionId : AuthSessionId} {e : AdapterEvent} (d : Desktop) (now : DateTime)
    (he : e.Serves owner sessionId) (a : WorkspaceAdapter) :
    Inherits now (owner sessionId) a (a.step c d now e) := by
  cases e with
  | envelope envelope authorization => exact he.2 ▸ handleEnvelope_inherits envelope
  | completeUpload completion => exact he.2 ▸ completeUpload_inherits completion
  | snapshot => exact (sheds_snapshot c d now a).inherits
  | workspaceChanged snapshot => exact (Quiet.response a none (.workspaceChanged snapshot)).sheds.inherits
  | _ => exact he.elim

theorem handleEnvelope_connected (envelope : ClientEnvelope) :
    (a.handleEnvelope c d now envelope authorization).2.connectedSessions = a.connectedSessions := by
  rcases handleEnvelope_cases c d now envelope authorization a with
    ⟨e, he⟩ | ⟨cached, -, he⟩ | ⟨-, he⟩ | ⟨-, r, hr, he⟩
  · rw [he]
    rfl
  · rw [he]
  · rw [he]
    rfl
  · have h := outcome_same
      (execute_outcome c d now a envelope.requestId authorization envelope.payload)
    rw [← hr] at h
    rw [he]
    refine Eq.trans ?_ h.connectedSessions
    simp only
    split <;> rfl

theorem serves_connected {sessionId : AuthSessionId} {e : AdapterEvent} (d : Desktop)
    (now : DateTime) (he : e.Serves owner sessionId) (a : WorkspaceAdapter) :
    (a.step c d now e).connectedSessions = a.connectedSessions := by
  cases e with
  | envelope envelope authorization => exact handleEnvelope_connected envelope
  | completeUpload completion =>
    exact (sameRevision_completeUpload c d now completion a).connectedSessions
  | snapshot => exact (same_snapshot c d now a).connectedSessions
  | workspaceChanged snapshot => rfl
  | _ => exact he.elim

theorem owned_of_serves {sessionId : AuthSessionId} {e : AdapterEvent}
    (he : e.Serves owner sessionId) : e.Owned owner := by
  cases e with
  | envelope envelope authorization => exact he.2.trans (congrArg owner he.1.symm)
  | completeUpload completion => exact he.2.trans (congrArg owner he.1.symm)
  | snapshot | workspaceChanged => trivial
  | _ => exact he.elim

/-! ## What a sweep leaves of a device -/

/-- The leases of the device are gone, with their pins, and its panes have the desktop's size. -/
structure Cleared (c : Crates) (d : Desktop) (dev : DeviceId) (a a' : WorkspaceAdapter) : Prop where
  leases : ∀ key lease, a'.writerLeases.get key = some lease → lease.deviceId ≠ dev
  pins : ∀ key, a'.remoteSizePins.get key ≠ some dev
  restored : ∀ key lease resolved, a.writerLeases.get key = some lease → lease.deviceId = dev →
    d.resolveTarget c key = some resolved → Asks (.restoreDesktopSize resolved.terminal) a a'

theorem Asks.mono {effect : Effect} {a'' : WorkspaceAdapter} (h : Asks effect a a')
    (h' : NoResize a' a'') : Asks effect a a'' := by
  obtain ⟨es, he, hm⟩ := h
  obtain ⟨es', he', -⟩ := h'
  exact ⟨es ++ es', by rw [he', he, List.append_assoc], List.mem_append_left _ hm⟩

theorem Asks.after {effect : Effect} {a'' : WorkspaceAdapter} (h : NoResize a a')
    (h' : Asks effect a' a'') : Asks effect a a'' := by
  obtain ⟨es, he, -⟩ := h
  obtain ⟨es', he', hm⟩ := h'
  exact ⟨es ++ es', by rw [he', he, List.append_assoc], List.mem_append_right _ hm⟩

/-- The loop of `prune_writer_leases` gives every pane it releases the desktop's size. -/
theorem asks_foldl_pruneLease {key : TargetKey} {resolved : ResolvedTarget}
    (hr : d.resolveTarget c key = some resolved) {keys : List TargetKey} (hk : key ∈ keys)
    (a : WorkspaceAdapter) : Asks (.restoreDesktopSize resolved.terminal) a
      (keys.foldl (fun a target => a.pruneLease c d target) a) := by
  induction keys generalizing a with
  | nil => exact nomatch hk
  | cons key' keys ih =>
    rcases List.mem_cons.mp hk with rfl | hk
    · have hask : Asks (.restoreDesktopSize resolved.terminal) a (a.pruneLease c d key) := by
        rw [pruneLease, restoreDesktopSize, hr]
        exact ⟨_, rfl, List.mem_singleton_self _⟩
      exact hask.mono (noResize_foldl (fun a target => noResize_pruneLease c d a target) keys _)
    · exact (ih hk _).after (noResize_pruneLease c d a key')

theorem cleared_pruneWriterLeases {dev : DeviceId} (c : Crates) (d : Desktop) (now : DateTime)
    (ha : LeaseInv owner a) (h : ∀ key lease, a.writerLeases.get key = some lease →
      lease.deviceId = dev → writerLeaseExpired a.connectedSessions lease now = true) :
    Cleared c d dev a (a.pruneWriterLeases c d now) := by
  have hleases : ∀ key lease, (a.pruneWriterLeases c d now).writerLeases.get key = some lease →
      lease.deviceId ≠ dev := by
    intro key lease hl hd
    obtain ⟨hl, hexp⟩ := get_pruneWriterLeases.mp hl
    exact nomatch (h key lease hl hd).symm.trans hexp
  refine ⟨hleases, fun key hp => ?_, fun key lease resolved hl hd hr => ?_⟩
  · obtain ⟨lease, hl, hd⟩ := (ha.pruneWriterLeases c d now).pinned key dev hp
    exact hleases key lease hl hd
  · exact asks_foldl_pruneLease hr (mem_expiredLeases.mpr ⟨lease, hl, h key lease hl hd⟩) a

theorem Cleared.quiet {dev : DeviceId} {a'' : WorkspaceAdapter} (h : Cleared c d dev a a')
    (h' : Quiet a' a'') : Cleared c d dev a a'' := by
  refine ⟨fun key lease hl => h.leases key lease (h'.writerLeases ▸ hl), fun key => ?_,
    fun key lease resolved hl hd hr => (h.restored key lease resolved hl hd hr).mono h'.effects⟩
  rw [h'.remoteSizePins]
  exact h.pins key

/-- A snapshot begins with a sweep. -/
theorem cleared_snapshot {dev : DeviceId} {now : DateTime}
    (h : Cleared c d dev a (a.pruneWriterLeases c d now)) :
    Cleared c d dev a (a.snapshot c d now).2 :=
  have h' := h.quiet (quiet_reclaimDesktopSizes c d _)
  ⟨h'.leases, h'.pins, h'.restored⟩

end WorkspaceAdapter

/-! ## The invariant -/

open WorkspaceAdapter

/-- The session was registered, and not yet disconnected. -/
def LoopPhase.isRegistered : LoopPhase → Bool
  | greeting | loading | showing | serving => true
  | accepted | leaving => false

/-- What holds of the adapter while loops are in these phases. -/
structure AdapterInv (owner : AuthSessionId → DeviceId) (loops : HashMap AuthSessionId LoopPhase)
    (clock : DateTime) (a : WorkspaceAdapter) : Prop where
  live : ∀ sessionId ∈ a.connectedSessions,
    ∃ phase, loops.get sessionId = some phase ∧ phase.isRegistered = true
  leases : LeaseInv owner a
  soon : ∀ key lease, a.writerLeases.get key = some lease →
    lease.expiresAt ≤ clock + seconds writerLeaseTtlSecs

def GatewayInv (owner : AuthSessionId → DeviceId) (s : Gateway) : Prop :=
  ∀ a, s.workspace = some a → AdapterInv owner s.loops s.clock a

namespace Gateway

variable {c : Crates} {owner : AuthSessionId → DeviceId} {s : Gateway} {sessionId : AuthSessionId}

theorem inPhase_of_eq {phase : LoopPhase} (h : s.loops.get sessionId = some phase)
    (f : Gateway → Gateway) : s.inPhase sessionId phase f = f s := if_pos h

theorem inPhase_of_ne {phase : LoopPhase} (h : s.loops.get sessionId ≠ some phase)
    (f : Gateway → Gateway) : s.inPhase sessionId phase f = s := if_neg h

end Gateway

namespace AdapterInv

variable {c : Crates} {owner : AuthSessionId → DeviceId} {loops : HashMap AuthSessionId LoopPhase}
  {clock : DateTime} {a a' : WorkspaceAdapter} {sessionId : AuthSessionId}

/-- A loop enters a phase. -/
theorem enter (h : AdapterInv owner loops clock a) {phase : LoopPhase}
    (hp : sessionId ∈ a.connectedSessions → phase.isRegistered = true) :
    AdapterInv owner (loops.insert sessionId phase) clock a := by
  refine ⟨fun sessionId' hc => ?_, h.leases, h.soon⟩
  rw [HashMap.get_insert]
  split
  · rename_i heq
    exact ⟨phase, rfl, hp (heq ▸ hc)⟩
  · exact h.live sessionId' hc

/-- A loop returns that is not registered. -/
theorem leave (h : AdapterInv owner loops clock a) {phase : LoopPhase}
    (hl : loops.get sessionId = some phase) (hp : phase.isRegistered = false) :
    AdapterInv owner (loops.remove sessionId) clock a := by
  refine ⟨fun sessionId' hc => ?_, h.leases, h.soon⟩
  obtain ⟨phase', hl', hp'⟩ := h.live sessionId' hc
  refine ⟨phase', ?_, hp'⟩
  rw [HashMap.get_remove_of_ne, hl']
  rintro rfl
  obtain rfl := Option.some.inj (hl.symm.trans hl')
  exact nomatch hp.symm.trans hp'

/-- A call that leaves the connected sessions as they are. -/
theorem call {dev : DeviceId} (h : AdapterInv owner loops clock a)
    (hc : a'.connectedSessions = a.connectedSessions) (hl : LeaseInv owner a')
    (hi : Inherits clock dev a a') : AdapterInv owner loops clock a' := by
  refine ⟨fun sessionId hm => h.live sessionId (hc ▸ hm), hl, fun key lease hg => ?_⟩
  rcases hi key lease hg with hg | ⟨-, he⟩
  · exact h.soon key lease hg
  · exact he.le

/-- A call that sets no lease. -/
theorem shed (h : AdapterInv owner loops clock a)
    (hc : ∀ sessionId ∈ a'.connectedSessions, sessionId ∈ a.connectedSessions)
    (hl : LeaseInv owner a') (hs : Sheds a a') : AdapterInv owner loops clock a' :=
  ⟨fun sessionId hm => h.live sessionId (hc sessionId hm), hl,
    fun key lease hg => h.soon key lease (hs key lease hg)⟩

theorem sessionConnected (h : AdapterInv owner loops clock a) :
    AdapterInv owner (loops.insert sessionId .greeting) clock
      (a.sessionConnected clock sessionId (owner sessionId)) := by
  refine ⟨fun sessionId' hm => ?_, h.leases.sessionConnected clock sessionId, fun key lease hg => ?_⟩
  · rw [HashMap.get_insert]
    split
    · exact ⟨.greeting, rfl, rfl⟩
    · rename_i hne
      exact h.live sessionId' ((Finset.mem_insert.mp hm).resolve_left hne)
  · rcases sessionConnected_inherits clock sessionId (owner sessionId) a key lease hg with hg | ⟨-, he⟩
    · exact h.soon key lease hg
    · exact he.le

theorem sessionDisconnected (h : AdapterInv owner loops clock a) :
    AdapterInv owner (loops.insert sessionId .leaving) clock
      (a.sessionDisconnected clock sessionId) := by
  refine ⟨fun sessionId' hm => ?_, h.leases.sessionDisconnected clock sessionId,
    fun key lease hg => ?_⟩
  · obtain ⟨hne, hm⟩ := Finset.mem_erase.mp hm
    rw [HashMap.get_insert, if_neg hne]
    exact h.live sessionId' hm
  · rcases sessionDisconnected_inherits h.leases clock sessionId key lease hg with hg | ⟨-, he⟩
    · exact h.soon key lease hg
    · exact he.le

theorem tick (h : AdapterInv owner loops clock a) (n : ℕ) :
    AdapterInv owner loops (clock + n) a :=
  ⟨h.live, h.leases, fun key lease hg => (h.soon key lease hg).trans
    (Int.add_le_add_right (Int.le_add_of_nonneg_right (Int.natCast_nonneg n)) _)⟩

end AdapterInv

/-! ## One action -/

variable {c : Crates} {owner : AuthSessionId → DeviceId} {s : Gateway} {e : GatewayAction}

theorem sheds_allSessionsDisconnected (c : Crates) (d : Desktop) (a : WorkspaceAdapter) :
    Sheds a (a.allSessionsDisconnected c d) := by
  intro key lease hl
  rw [allSessionsDisconnected, (quiet_foldl_restoreDesktopSize c d _ _).writerLeases] at hl
  cases hl

theorem connected_allSessionsDisconnected (c : Crates) (d : Desktop) (a : WorkspaceAdapter) :
    (a.allSessionsDisconnected c d).connectedSessions = ∅ :=
  (quiet_foldl_restoreDesktopSize c d _ _).connectedSessions

theorem step_desktopInput (c : Crates) (d : Desktop) (now : DateTime) (terminal : EntityId)
    (a : WorkspaceAdapter) : SameRevision a (a.step c d now (.desktopInput terminal)) ∧
      Sheds a (a.step c d now (.desktopInput terminal)) := by
  rw [WorkspaceAdapter.step]
  split
  · exact ⟨sameRevision_preempt c d terminal a, sheds_preempt c d terminal a⟩
  · exact ⟨.refl a, .of_eq rfl⟩

theorem leaseInv_initialSnapshot {a : WorkspaceAdapter} (c : Crates) (d : Desktop) (now : DateTime)
    (h : LeaseInv owner a) : LeaseInv owner (a.initialSnapshot c d now).2 :=
  (Quiet.response _ none (.snapshot (a.snapshot c d now).1)).leaseInv (h.snapshot c d now)

/-- **An action other than an early return keeps the invariant.** -/
theorem GatewayInv.step (h : GatewayInv owner s) (he : e.Valid owner) (hp : ¬ e.Abandons s) :
    GatewayInv owner (s.step c owner e) := by
  cases e with
  | connect sessionId =>
    rw [Gateway.step]
    split
    · exact h
    · rename_i hn
      intro a ha
      refine (h a ha).enter fun hm => ?_
      obtain ⟨phase, hl, -⟩ := (h a ha).live sessionId hm
      rw [hl] at hn
      exact absurd rfl hn
  | register sessionId =>
    rw [Gateway.step]
    by_cases hl : s.loops.get sessionId = some .accepted
    · rw [Gateway.inPhase_of_eq hl]
      intro a' ha'
      obtain ⟨a, ha, rfl⟩ := Option.map_eq_some_iff.mp (show s.workspace.map _ = _ from ha')
      exact (h a ha).sessionConnected
    · rwa [Gateway.inPhase_of_ne hl]
  | sendHello sessionId sent =>
    rw [Gateway.step]
    by_cases hl : s.loops.get sessionId = some .greeting
    · rw [Gateway.inPhase_of_eq hl]
      intro a ha
      cases sent with
      | true => exact (h a ha).enter fun _ => rfl
      | false => exact absurd ⟨Option.isSome_iff_exists.mpr ⟨a, ha⟩, hl⟩ hp
    · rwa [Gateway.inPhase_of_ne hl]
  | load sessionId d =>
    rw [Gateway.step]
    by_cases hl : s.loops.get sessionId = some .loading
    · rw [Gateway.inPhase_of_eq hl]
      split
      · rename_i hn
        intro a ha
        rw [show s.workspace = some a from ha] at hn
        cases hn
      · intro a' ha'
        obtain ⟨a, ha, rfl⟩ := Option.map_eq_some_iff.mp (show s.workspace.map _ = _ from ha')
        have hshed : AdapterInv owner s.loops s.clock (a.initialSnapshot c d s.clock).2 :=
          (h a ha).shed (fun _ hm => (same_snapshot c d s.clock a).connectedSessions ▸ hm)
            (leaseInv_initialSnapshot c d s.clock (h a ha).leases) (sheds_snapshot c d s.clock a)
        exact hshed.enter fun _ => rfl
    · rwa [Gateway.inPhase_of_ne hl]
  | sendSnapshot sessionId sent =>
    rw [Gateway.step]
    by_cases hl : s.loops.get sessionId = some .showing
    · rw [Gateway.inPhase_of_eq hl]
      intro a ha
      cases sent with
      | true => exact (h a ha).enter fun _ => rfl
      | false => exact absurd ⟨Option.isSome_iff_exists.mpr ⟨a, ha⟩, hl⟩ hp
    · rwa [Gateway.inPhase_of_ne hl]
  | call sessionId d e =>
    rw [Gateway.step]
    by_cases hl : s.loops.get sessionId = some .serving
    · rw [Gateway.inPhase_of_eq hl]
      intro a' ha'
      obtain ⟨a, ha, rfl⟩ := Option.map_eq_some_iff.mp (show s.workspace.map _ = _ from ha')
      exact (h a ha).call (serves_connected d _ he a)
        ((h a ha).leases.step d _ (owned_of_serves he)) (lease_origin d _ he a)
    · rwa [Gateway.inPhase_of_ne hl]
  | disconnect sessionId =>
    rw [Gateway.step]
    by_cases hl : s.loops.get sessionId = some .serving
    · rw [Gateway.inPhase_of_eq hl]
      intro a' ha'
      obtain ⟨a, ha, rfl⟩ := Option.map_eq_some_iff.mp (show s.workspace.map _ = _ from ha')
      exact (h a ha).sessionDisconnected
    · rwa [Gateway.inPhase_of_ne hl]
  | release sessionId =>
    rw [Gateway.step]
    by_cases hl : s.loops.get sessionId = some .leaving
    · rw [Gateway.inPhase_of_eq hl]
      exact fun a ha => (h a ha).leave hl rfl
    · rwa [Gateway.inPhase_of_ne hl]
  | sweep d =>
    intro a' ha'
    obtain ⟨a, ha, rfl⟩ := Option.map_eq_some_iff.mp (show s.workspace.map _ = _ from ha')
    have hsame := (sameRevision_pruneWriterLeases c d s.clock a).connectedSessions
    exact (h a ha).shed (fun _ hm => hsame ▸ hm) ((h a ha).leases.pruneWriterLeases c d _)
      (sheds_pruneWriterLeases c d _ a)
  | desktopInput d terminal =>
    intro a' ha'
    obtain ⟨a, ha, rfl⟩ := Option.map_eq_some_iff.mp (show s.workspace.map _ = _ from ha')
    obtain ⟨hsame, hsheds⟩ := step_desktopInput c d s.clock terminal a
    exact (h a ha).shed (fun _ hm => hsame.connectedSessions ▸ hm)
      ((h a ha).leases.step d _ (e := .desktopInput terminal) trivial) hsheds
  | shutdown d =>
    intro a' ha'
    obtain ⟨a, ha, rfl⟩ := Option.map_eq_some_iff.mp (show s.workspace.map _ = _ from ha')
    refine (h a ha).shed (fun sessionId hm => ?_) (leaseInv_allSessionsDisconnected c d a)
      (sheds_allSessionsDisconnected c d a)
    rw [connected_allSessionsDisconnected] at hm
    cases Finset.notMem_empty sessionId hm
  | drop => exact fun _ ha => by cases ha
  | tick n => exact fun a ha => (h a ha).tick n

/-- An action sets leases of a device that has a loop only. -/
theorem step_leases (h : GatewayInv owner s) (he : e.Valid owner) {a' : WorkspaceAdapter}
    (ha' : (s.step c owner e).workspace = some a') : ∃ a, s.workspace = some a ∧
      (Sheds a a' ∨ ∃ sessionId, s.loops.get sessionId ≠ none ∧
        Inherits s.clock (owner sessionId) a a') := by
  have hsame {a' : WorkspaceAdapter} (ha' : s.workspace = some a') : ∃ a, s.workspace = some a ∧
      (Sheds a a' ∨ ∃ sessionId, s.loops.get sessionId ≠ none ∧
        Inherits s.clock (owner sessionId) a a') := ⟨a', ha', Or.inl (.of_eq rfl)⟩
  -- an action in its phase, which does not call the adapter or calls it for the loop's session
  have hphase {sessionId : AuthSessionId} {phase : LoopPhase} {f : Gateway → Gateway}
      (hf : s.loops.get sessionId = some phase → (f s).workspace = some a' →
        s.workspace = some a' ∨ ∃ a, s.workspace = some a ∧ Inherits s.clock (owner sessionId) a a')
      (ha' : (s.inPhase sessionId phase f).workspace = some a') : ∃ a, s.workspace = some a ∧
      (Sheds a a' ∨ ∃ sessionId, s.loops.get sessionId ≠ none ∧
        Inherits s.clock (owner sessionId) a a') := by
    by_cases hl : s.loops.get sessionId = some phase
    · rw [Gateway.inPhase_of_eq hl] at ha'
      rcases hf hl ha' with ha | ⟨a, ha, hi⟩
      · exact hsame ha
      · exact ⟨a, ha, Or.inr ⟨sessionId, by rw [hl]; exact Option.some_ne_none _, hi⟩⟩
    · rw [Gateway.inPhase_of_ne hl] at ha'
      exact hsame ha'
  cases e with
  | connect sessionId =>
    rw [Gateway.step] at ha'
    split at ha' <;> exact hsame ha'
  | register sessionId =>
    refine hphase (fun _ ha' => Or.inr ?_) ha'
    obtain ⟨a, ha, rfl⟩ := Option.map_eq_some_iff.mp (show s.workspace.map _ = _ from ha')
    exact ⟨a, ha, sessionConnected_inherits s.clock sessionId (owner sessionId) a⟩
  | sendHello sessionId sent =>
    refine hphase (fun _ ha' => Or.inl ?_) ha'
    cases sent <;> exact ha'
  | load sessionId d =>
    refine hphase (fun _ ha' => ?_) ha'
    split at ha'
    · exact Or.inl ha'
    · obtain ⟨a, ha, rfl⟩ := Option.map_eq_some_iff.mp (show s.workspace.map _ = _ from ha')
      exact Or.inr ⟨a, ha, (sheds_snapshot c d s.clock a).inherits⟩
  | sendSnapshot sessionId sent =>
    refine hphase (fun _ ha' => Or.inl ?_) ha'
    cases sent <;> exact ha'
  | call sessionId d e =>
    refine hphase (fun _ ha' => Or.inr ?_) ha'
    obtain ⟨a, ha, rfl⟩ := Option.map_eq_some_iff.mp (show s.workspace.map _ = _ from ha')
    exact ⟨a, ha, lease_origin d s.clock he a⟩
  | disconnect sessionId =>
    refine hphase (fun _ ha' => Or.inr ?_) ha'
    obtain ⟨a, ha, rfl⟩ := Option.map_eq_some_iff.mp (show s.workspace.map _ = _ from ha')
    exact ⟨a, ha, sessionDisconnected_inherits (h a ha).leases s.clock sessionId⟩
  | release sessionId => exact hphase (fun _ ha' => Or.inl ha') ha'
  | sweep d =>
    obtain ⟨a, ha, rfl⟩ := Option.map_eq_some_iff.mp (show s.workspace.map _ = _ from ha')
    exact ⟨a, ha, Or.inl (sheds_pruneWriterLeases c d s.clock a)⟩
  | desktopInput d terminal =>
    obtain ⟨a, ha, rfl⟩ := Option.map_eq_some_iff.mp (show s.workspace.map _ = _ from ha')
    exact ⟨a, ha, Or.inl (step_desktopInput c d s.clock terminal a).2⟩
  | shutdown d =>
    obtain ⟨a, ha, rfl⟩ := Option.map_eq_some_iff.mp (show s.workspace.map _ = _ from ha')
    exact ⟨a, ha, Or.inl (sheds_allSessionsDisconnected c d a)⟩
  | drop => cases ha'
  | tick n => exact hsame ha'

/-- Only `connect_session` begins a loop. -/
theorem step_loops {sessionId : AuthSessionId} (hl : s.loops.get sessionId = none)
    (hc : e ≠ .connect sessionId) : (s.step c owner e).loops.get sessionId = none := by
  have henter {sessionId' : AuthSessionId} {phase : LoopPhase} (hne : sessionId ≠ sessionId') :
      (s.loops.insert sessionId' phase).get sessionId = none := by
    rw [HashMap.get_insert, if_neg hne, hl]
  have hremove (sessionId' : AuthSessionId) : (s.loops.remove sessionId').get sessionId = none := by
    by_contra hne
    obtain ⟨phase, hp⟩ := Option.ne_none_iff_exists'.mp hne
    rw [(HashMap.get_remove_some.mp hp).1] at hl
    exact nomatch hl
  have hphase {sessionId' : AuthSessionId} {phase : LoopPhase} {f : Gateway → Gateway}
      (hf : sessionId ≠ sessionId' → (f s).loops.get sessionId = none) :
      (s.inPhase sessionId' phase f).loops.get sessionId = none := by
    by_cases hp : s.loops.get sessionId' = some phase
    · rw [Gateway.inPhase_of_eq hp]
      refine hf fun heq => ?_
      rw [heq, hp] at hl
      exact nomatch hl
    · rwa [Gateway.inPhase_of_ne hp]
  cases e with
  | connect sessionId' =>
    rw [Gateway.step]
    split
    · exact hl
    · exact henter fun heq => hc (by rw [heq])
  | register sessionId' => exact hphase henter
  | sendHello sessionId' sent =>
    cases sent with
    | true => exact hphase henter
    | false => exact hphase fun _ => hremove sessionId'
  | load sessionId' d =>
    refine hphase fun hne => ?_
    split
    · exact hremove sessionId'
    · exact henter hne
  | sendSnapshot sessionId' sent =>
    cases sent with
    | true => exact hphase henter
    | false => exact hphase fun _ => hremove sessionId'
  | call sessionId' d e => exact hphase fun _ => hl
  | disconnect sessionId' => exact hphase henter
  | release sessionId' => exact hphase fun _ => hremove sessionId'
  | sweep | desktopInput | shutdown | drop | tick => exact hl

/-! ## Runs -/

/-- The device has no running loop. -/
def Gateway.Gone (owner : AuthSessionId → DeviceId) (dev : DeviceId) (s : Gateway) : Prop :=
  ∀ sessionId, owner sessionId = dev → s.loops.get sessionId = none

/-- No loop that registered its session returns early. -/
def Orderly (s : Gateway) (e : GatewayAction) : Prop := ¬ e.Abandons s

/-- And no loop of the device begins. -/
def OrderlyWithout (owner : AuthSessionId → DeviceId) (dev : DeviceId) (s : Gateway)
    (e : GatewayAction) : Prop := ¬ e.Abandons s ∧ ¬ e.Connects owner dev

variable {appInstanceId : AppInstanceId} {random : UInt64} {clock : DateTime}

/-- **The invariant holds in every state that orderly actions lead to.** -/
theorem GatewayRun.inv (h : GatewayRun c owner Orderly (.new appInstanceId random clock) s) :
    GatewayInv owner s := by
  induction h with
  | start =>
    intro a ha
    obtain rfl := Option.some.inj ha
    exact ⟨fun sessionId hm => (Finset.notMem_empty sessionId hm).elim,
      ⟨fun _ _ h => (nomatch h), fun _ _ h => (nomatch h)⟩, fun _ _ h => (nomatch h)⟩
  | step _ e he hp ih => exact ih.step he hp

/-- While a device has no loop, its leases only become older. -/
theorem GatewayRun.gone {dev : DeviceId} {s' : Gateway} (hs : GatewayInv owner s)
    (hgone : s.Gone owner dev) (h : GatewayRun c owner (OrderlyWithout owner dev) s s') :
    GatewayInv owner s' ∧ s'.Gone owner dev ∧ ∀ a, s'.workspace = some a → ∀ key lease,
      a.writerLeases.get key = some lease → lease.deviceId = dev →
      lease.expiresAt ≤ s.clock + seconds writerLeaseTtlSecs := by
  induction h with
  | start => exact ⟨hs, hgone, fun a ha key lease hl _ => (hs a ha).soon key lease hl⟩
  | step _ e he hp ih =>
    rename_i s'
    obtain ⟨hinv, hgone', hle⟩ := ih
    refine ⟨hinv.step he hp.1, fun sessionId ho => ?_, fun a' ha' key lease hl hd => ?_⟩
    · refine step_loops (hgone' sessionId ho) ?_
      rintro rfl
      exact hp.2 ho
    · obtain ⟨a, ha, hsheds | ⟨sessionId, hloop, hi⟩⟩ := step_leases hinv he ha'
      · exact hle a ha key lease (hsheds key lease hl) hd
      · rcases hi key lease hl with hl | ⟨hd', -⟩
        · exact hle a ha key lease hl hd
        · exact absurd (hgone' sessionId (hd'.symm.trans hd)) hloop

/-- The connected sessions are the live sockets. -/
structure LiveSessions (c : Crates) (owner : AuthSessionId → DeviceId) (s : Gateway) : Prop where
  live : ∀ a, s.workspace = some a → ∀ sessionId ∈ a.connectedSessions,
    s.loops.get sessionId ≠ none
  /-- The leases of a device without a loop block nobody. -/
  unblocked : ∀ a dev key lease auth, s.workspace = some a → s.Gone owner dev →
    a.writerLeases.get key = some lease → lease.deviceId = dev →
    writerLeaseBlocks a.connectedSessions lease auth = false
  /-- They are pruned by the first sweep or snapshot after their time, if no loop of the device
  begins. -/
  pruned : ∀ dev s' a d, s.Gone owner dev → GatewayRun c owner (OrderlyWithout owner dev) s s' →
    s.clock + seconds writerLeaseTtlSecs ≤ s'.clock → s'.workspace = some a →
    Cleared c d dev a (a.sweepWriterLeases c d s'.clock) ∧
      Cleared c d dev a (a.snapshot c d s'.clock).2

/-- The session of a device without a loop is not connected. -/
theorem AdapterInv.notMem_connected {loops : HashMap AuthSessionId LoopPhase}
    {a : WorkspaceAdapter} {key : TargetKey} {lease : WriterLease}
    (h : AdapterInv owner loops clock a)
    (hgone : ∀ sessionId, owner sessionId = lease.deviceId → loops.get sessionId = none)
    (hl : a.writerLeases.get key = some lease) : lease.sessionId ∉ a.connectedSessions := by
  intro hm
  obtain ⟨phase, hp, -⟩ := h.live lease.sessionId hm
  rw [hgone lease.sessionId (h.leases.owned key lease hl).symm] at hp
  exact nomatch hp

/-- **If no loop returns early after it registered its session, connected sessions are exactly the
live sockets, and the leases of a device without one block nobody and are pruned in time.** -/
theorem live_sessions (c : Crates) (owner : AuthSessionId → DeviceId) (appInstanceId : AppInstanceId)
    (random : UInt64) (clock : DateTime) :
    ∀ s, GatewayRun c owner Orderly (.new appInstanceId random clock) s →
      LiveSessions c owner s := by
  intro s h
  have hinv := h.inv
  refine ⟨fun a ha sessionId hm => ?_, ?_, ?_⟩
  · obtain ⟨phase, hp, -⟩ := (hinv a ha).live sessionId hm
    rw [hp]
    exact Option.some_ne_none _
  · rintro a dev key lease auth ha hgone hl rfl
    rw [writerLeaseBlocks, decide_eq_false ((hinv a ha).notMem_connected hgone hl), Bool.and_false]
  · intro dev s' a d hgone hrun htime ha
    obtain ⟨hinv', hgone', hle⟩ := hrun.gone hinv hgone
    have hcleared : Cleared c d dev a (a.pruneWriterLeases c d s'.clock) := by
      refine cleared_pruneWriterLeases c d s'.clock (hinv' a ha).leases fun key lease hl hd => ?_
      have hexp := (hle a ha key lease hl hd).trans htime
      have hnot := (hinv' a ha).notMem_connected (by rw [hd]; exact hgone') hl
      rw [writerLeaseExpired, decide_eq_true hexp, decide_eq_true hnot]
      rfl
    exact ⟨hcleared, cleared_snapshot hcleared⟩

/-! ## A hello that is not sent -/

namespace Sample

/-- Sessions `1` and `2` are the phone's. -/
def phoneOf (sessionId : AuthSessionId) : DeviceId :=
  if sessionId.uuid = 2 then ⟨1⟩ else ⟨sessionId.uuid⟩

/-- The phone takes the lease of the pane, and leaves. -/
def visit : List GatewayAction :=
  [.connect ⟨1⟩, .register ⟨1⟩, .sendHello ⟨1⟩ true, .load ⟨1⟩ desktop, .sendSnapshot ⟨1⟩ true,
    .call ⟨1⟩ desktop (.envelope acquire phone), .disconnect ⟨1⟩, .release ⟨1⟩]

/-- It comes back, and its socket fails before the hello. -/
def failedVisit : List GatewayAction := [.connect ⟨2⟩, .register ⟨2⟩, .sendHello ⟨2⟩ false]

def gateway (es : List GatewayAction) : Gateway :=
  es.foldl (Gateway.step crates phoneOf) (.new ⟨uuid 0⟩ 0 0)

theorem run_gateway {P : Gateway → GatewayAction → Prop} (es : List GatewayAction)
    (hv : ∀ e ∈ es, e.Valid phoneOf) (hp : ∀ s, ∀ e ∈ es, P s e) :
    GatewayRun crates phoneOf P (.new ⟨uuid 0⟩ 0 0) (gateway es) := by
  induction es using List.reverseRecOn with
  | nil => exact .start
  | append_singleton es e ih =>
    rw [gateway, List.foldl_append]
    exact (ih (fun e he => hv e (List.mem_append_left _ he))
      fun s e he => hp s e (List.mem_append_left _ he)).step e
      (hv e (List.mem_append_right _ (List.mem_singleton_self e)))
      (hp _ e (List.mem_append_right _ (List.mem_singleton_self e)))

theorem valid_visit : ∀ e ∈ visit ++ failedVisit, e.Valid phoneOf := by
  simp [visit, failedVisit, GatewayAction.Valid, AdapterEvent.Serves, phone, phoneOf]

theorem orderly_visit (s : Gateway) : ∀ e ∈ visit, Orderly s e := by
  simp [visit, Orderly, GatewayAction.Abandons]

theorem run_visit : GatewayRun crates phoneOf Orderly (.new ⟨uuid 0⟩ 0 0) (gateway visit) :=
  run_gateway visit (fun e he => valid_visit e (List.mem_append_left _ he)) orderly_visit

end Sample

open Sample in
theorem live_sessions_visit : LiveSessions crates phoneOf (gateway visit) :=
  live_sessions crates phoneOf ⟨uuid 0⟩ 0 0 (gateway visit) run_visit

open Sample in
/-- A socket that fails before the hello leaves its session connected. The lease that the session took
over blocks other devices, and never expires. -/
theorem greeting_leaks : ∃ c owner s a key lease auth,
    GatewayRun c owner (fun _ _ => True) (.new ⟨uuid 0⟩ 0 0) s ∧ s.workspace = some a ∧
    s.loops.get lease.sessionId = none ∧ lease.sessionId ∈ a.connectedSessions ∧
    a.writerLeases.get key = some lease ∧ writerLeaseBlocks a.connectedSessions lease auth = true ∧
    ∀ now, writerLeaseExpired a.connectedSessions lease now = false := by
  obtain ⟨a, ha⟩ : ∃ a, (gateway (visit ++ failedVisit)).workspace = some a :=
    ⟨_, rfl⟩
  have hconnected : (gateway (visit ++ failedVisit)).workspace.all
      (fun a => decide (⟨2⟩ ∈ a.connectedSessions)) = true := by decide
  have hlease : (gateway (visit ++ failedVisit)).workspace.all
      (fun a => decide (a.writerLeases.get target.key = some ⟨⟨2⟩, ⟨1⟩, "Phone", seconds 30⟩)) =
        true := by decide
  rw [ha] at hconnected hlease
  have hmem := of_decide_eq_true hconnected
  refine ⟨crates, phoneOf, _, a, target.key, ⟨⟨2⟩, ⟨1⟩, "Phone", seconds 30⟩,
    ⟨⟨3⟩, ⟨3⟩, "Other", [.control]⟩, run_gateway _ valid_visit fun _ _ _ => trivial, ha,
    by decide, hmem, of_decide_eq_true hlease, ?_, fun now => not_expired hmem⟩
  simp [writerLeaseBlocks, hmem]

end Clinch
