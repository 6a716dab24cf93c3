import Clinch.RemoteControl.Outcome

/-!
# Writer leases

The calls that the gateway and the desktop make to the adapter, in any order and at any times, and
what holds of the leases and of the size pins in every state they reach.

* `AdapterEvent`, `step`, `AdapterRun`;
* `Granted`, `ensureWriter_cases`: what `ensureWriter` does;
* `LeaseInv`: a pin belongs to the device that has the lease, a lease to the device of its session;
* `AdapterRun.leaseInv`: every reachable state has the invariant;
* `leases_exclusive`: the main result, and `shutdown_takes_lease`: the one way it leaves open.
-/

set_option autoImplicit false

namespace Clinch

/-- A call of the adapter. -/
inductive AdapterEvent
  | envelope (envelope : ClientEnvelope) (authorization : SessionAuthorization)
  | completeUpload (completion : UploadCompletion)
  | sessionConnected (sessionId : AuthSessionId) (deviceId : DeviceId)
  | sessionDisconnected (sessionId : AuthSessionId)
  | sweep
  | snapshot
  | workspaceChanged (snapshot : WorkspaceSnapshot)
  | desktopInput (terminal : EntityId)
  | shutdown

/-- A session belongs to one device: the pairing manager authorizes no other. -/
def AdapterEvent.Owned (owner : AuthSessionId → DeviceId) : AdapterEvent → Prop
  | envelope _ authorization => authorization.deviceId = owner authorization.sessionId
  | completeUpload completion =>
    completion.authorization.deviceId = owner completion.authorization.sessionId
  | sessionConnected sessionId deviceId => deviceId = owner sessionId
  | _ => True

namespace WorkspaceAdapter

variable (c : Crates)

/-- A desktop's input is heard when the adapter subscribed to the terminal. -/
def step (d : Desktop) (now : DateTime) (a : WorkspaceAdapter) : AdapterEvent → WorkspaceAdapter
  | .envelope envelope authorization => (a.handleEnvelope c d now envelope authorization).2
  | .completeUpload completion => (a.completeUpload c d now completion).2
  | .sessionConnected sessionId deviceId => a.sessionConnected now sessionId deviceId
  | .sessionDisconnected sessionId => a.sessionDisconnected now sessionId
  | .sweep => a.sweepWriterLeases c d now
  | .snapshot => (a.snapshot c d now).2
  | .workspaceChanged snapshot => (a.response none (.workspaceChanged snapshot)).2
  | .desktopInput terminal =>
    if terminal ∈ a.terminalSubscriptions then a.preemptWriterForDesktopInput c d terminal else a
  | .shutdown => a.allSessionsDisconnected c d

end WorkspaceAdapter

/-- The states that an adapter reaches. The desktop and the time are anything at every call. -/
inductive AdapterRun (c : Crates) (owner : AuthSessionId → DeviceId) : WorkspaceAdapter → Prop
  | new (appInstanceId : AppInstanceId) (random : UInt64) : AdapterRun c owner
    (.new appInstanceId random)
  | step {a : WorkspaceAdapter} (h : AdapterRun c owner a) (d : Desktop) (now : DateTime)
    (e : AdapterEvent) (he : e.Owned owner) : AdapterRun c owner (a.step c d now e)

namespace WorkspaceAdapter

variable {c : Crates} {d : Desktop} {now : DateTime} {a a' : WorkspaceAdapter}

/-! ## The calls that touch leases -/

/-- The writer has the lease, and the pin of another device is gone. -/
structure Granted (now : DateTime) (key : TargetKey) (authorization : SessionAuthorization)
    (a a' : WorkspaceAdapter) : Prop where
  writerLeases : ∀ k, a'.writerLeases.get k = if k = key then
    some ⟨authorization.sessionId, authorization.deviceId, authorization.deviceName,
      now + seconds writerLeaseTtlSecs⟩ else a.writerLeases.get k
  remoteSizePins : ∀ k dev, a'.remoteSizePins.get k = some dev →
    a.remoteSizePins.get k = some dev ∧ (k = key → dev = authorization.deviceId)
  appInstanceId : a'.appInstanceId = a.appInstanceId
  revision : a'.revision = a.revision
  lastTopologyFingerprint : a'.lastTopologyFingerprint = a.lastTopologyFingerprint
  connectedSessions : a'.connectedSessions = a.connectedSessions
  idempotency : a'.idempotency = a.idempotency
  effects : a'.effects = a.effects

theorem granted_grant (now : DateTime) (key : TargetKey) (authorization : SessionAuthorization)
    (a : WorkspaceAdapter) : Granted now key authorization a (a.grant now key authorization).2 := by
  refine ⟨fun k => HashMap.get_insert _ _ _ _, fun k dev hp => ?_, rfl, rfl, rfl, rfl, rfl, rfl⟩
  rw [grant] at hp
  simp only at hp
  split at hp
  · obtain ⟨hp, hk⟩ := HashMap.get_remove_some.mp hp
    exact ⟨hp, fun he => absurd he hk⟩
  · rename_i hany
    refine ⟨hp, fun he => ?_⟩
    rw [← he, hp] at hany
    simpa using hany

/-- A lease that stands in the way of a write. -/
def Blocked (key : TargetKey) (authorization : SessionAuthorization) (a : WorkspaceAdapter) : Prop :=
  ∃ lease, a.writerLeases.get key = some lease ∧
    writerLeaseBlocks a.connectedSessions lease authorization = true

theorem ensureWriter_cases (now : DateTime) (target : TargetRef)
    (authorization : SessionAuthorization) (requestId : Option RequestId) (takeover : Bool)
    (a : WorkspaceAdapter) :
    ((takeover = false → ¬ a.Blocked target.key authorization) ∧
      (∃ lease, (a.ensureWriter now target authorization requestId takeover).1 = .ok lease) ∧
      Granted now target.key authorization a
        (a.ensureWriter now target authorization requestId takeover).2) ∨
    (∃ envelope, (a.ensureWriter now target authorization requestId takeover).1 = .error envelope ∧
      envelope.payload.isError = true ∧
      Quiet a (a.ensureWriter now target authorization requestId takeover).2 ∧
      (a.ensureWriter now target authorization requestId takeover).2.effects = a.effects) := by
  rw [ensureWriter, dropExpired]
  split
  · -- an expired lease is removed, so nothing stands in the way
    rename_i hexp
    obtain ⟨lease, hl, hexp⟩ := (Option.any_eq_true _ _).mp hexp
    rw [contend, HashMap.get_remove_self]
    refine Or.inl ⟨fun _ => ?_, ⟨_, rfl⟩, ?_⟩
    · rintro ⟨lease', hl', hb⟩
      obtain rfl := Option.some.inj (hl.symm.trans hl')
      simp only [writerLeaseExpired, writerLeaseBlocks, Bool.and_eq_true, decide_eq_true_eq]
        at hexp hb
      exact hexp.2 hb.2
    · have h := granted_grant now target.key authorization
        { a with writerLeases := a.writerLeases.remove target.key }
      refine ⟨fun k => ?_, h.remoteSizePins, rfl, rfl, rfl, rfl, rfl, rfl⟩
      rw [h.writerLeases]
      split
      · rfl
      · rename_i hk
        exact HashMap.get_remove_of_ne _ hk
  · rw [contend]
    cases hl : a.writerLeases.get target.key with
    | none =>
      refine Or.inl ⟨fun _ => ?_, ⟨_, rfl⟩, granted_grant _ _ _ _⟩
      rintro ⟨lease, hl', -⟩
      cases hl.symm.trans hl'
    | some lease =>
      simp only
      split
      · exact Or.inr ⟨_, rfl, rfl, .error a requestId .writerLeaseHeld
          (lease.deviceName ++ " currently has control of this terminal.") true, rfl⟩
      · rename_i hb
        refine Or.inl ⟨fun ht => ?_, ⟨_, rfl⟩, granted_grant _ _ _ _⟩
        rintro ⟨lease', hl', hb'⟩
        obtain rfl := Option.some.inj (hl.symm.trans hl')
        rw [ht, hb'] at hb
        exact hb rfl

theorem granted_of_ok {target : TargetRef} {authorization : SessionAuthorization}
    {requestId : Option RequestId} {takeover : Bool} {lease : WriterLeaseSnapshot}
    (h : (a.ensureWriter now target authorization requestId takeover).1 = .ok lease) :
    (takeover = false → ¬ a.Blocked target.key authorization) ∧
      Granted now target.key authorization a
        (a.ensureWriter now target authorization requestId takeover).2 := by
  rcases ensureWriter_cases now target authorization requestId takeover a with
    ⟨hb, -, hg⟩ | ⟨envelope, he, -⟩
  · exact ⟨hb, hg⟩
  · exact nomatch h.symm.trans he

theorem quiet_of_error {target : TargetRef} {authorization : SessionAuthorization}
    {requestId : Option RequestId} {takeover : Bool} {envelope : ServerEnvelope}
    (h : (a.ensureWriter now target authorization requestId takeover).1 = .error envelope) :
    envelope.payload.isError = true ∧
      Quiet a (a.ensureWriter now target authorization requestId takeover).2 ∧
      (a.ensureWriter now target authorization requestId takeover).2.effects = a.effects := by
  rcases ensureWriter_cases now target authorization requestId takeover a with
    ⟨-, ⟨lease, he⟩, -⟩ | ⟨envelope', he, hquiet⟩
  · exact nomatch h.symm.trans he
  · obtain rfl := Except.error.inj (h.symm.trans he)
    exact hquiet

/-! ## The invariant -/

/-- A pin belongs to the device that has the lease, a lease to the device of its session. -/
structure LeaseInv (owner : AuthSessionId → DeviceId) (a : WorkspaceAdapter) : Prop where
  pinned : ∀ k dev, a.remoteSizePins.get k = some dev →
    ∃ lease, a.writerLeases.get k = some lease ∧ lease.deviceId = dev
  owned : ∀ k lease, a.writerLeases.get k = some lease → lease.deviceId = owner lease.sessionId

variable {owner : AuthSessionId → DeviceId}

theorem Quiet.leaseInv (h : Quiet a a') (ha : LeaseInv owner a) : LeaseInv owner a' where
  pinned k dev hp := by
    rw [h.writerLeases]
    exact ha.pinned k dev (h.remoteSizePins ▸ hp)
  owned k lease hl := ha.owned k lease (h.writerLeases ▸ hl)

theorem Granted.leaseInv {key : TargetKey} {authorization : SessionAuthorization}
    (h : Granted now key authorization a a') (ha : LeaseInv owner a)
    (hown : authorization.deviceId = owner authorization.sessionId) : LeaseInv owner a' where
  pinned k dev hp := by
    obtain ⟨hp, hk⟩ := h.remoteSizePins k dev hp
    rw [h.writerLeases]
    split
    · rename_i he
      exact ⟨_, rfl, (hk he).symm⟩
    · exact ha.pinned k dev hp
  owned k lease hl := by
    rw [h.writerLeases] at hl
    split at hl
    · obtain rfl := Option.some.inj hl
      exact hown
    · exact ha.owned k lease hl

theorem LeaseInv.releasePaneControl (ha : LeaseInv owner a) (key : TargetKey) :
    LeaseInv owner (a.releasePaneControl key) where
  pinned k dev hp := by
    obtain ⟨hp, hk⟩ := HashMap.get_remove_some.mp hp
    rw [WorkspaceAdapter.releasePaneControl, HashMap.get_remove_of_ne _ hk]
    exact ha.pinned k dev hp
  owned k lease hl := ha.owned k lease (HashMap.get_remove_some.mp hl).1

theorem quiet_restoreDesktopSize (c : Crates) (d : Desktop) (key : TargetKey)
    (a : WorkspaceAdapter) : Quiet a (a.restoreDesktopSize c d key) := by
  rw [restoreDesktopSize]
  split
  · exact .perform_one a id
  · exact .refl a

theorem quiet_foldl_restoreDesktopSize (c : Crates) (d : Desktop) (keys : List TargetKey)
    (a : WorkspaceAdapter) :
    Quiet a (keys.foldl (fun a key => a.restoreDesktopSize c d key) a) := by
  induction keys generalizing a with
  | nil => exact .refl a
  | cons key keys ih => exact (quiet_restoreDesktopSize c d key a).trans (ih _)

theorem quiet_reclaimDesktopSizes (c : Crates) (d : Desktop) (a : WorkspaceAdapter) :
    Quiet a (a.reclaimDesktopSizes c d) := quiet_foldl_restoreDesktopSize c d _ a

/-- What `release_pane_control` keeps, it keeps in a loop. -/
theorem foldl_induct {P : WorkspaceAdapter → Prop} {f : WorkspaceAdapter → TargetKey → WorkspaceAdapter}
    (hf : ∀ a key, P a → P (f a key)) (keys : List TargetKey) (ha : P a) : P (keys.foldl f a) := by
  induction keys generalizing a with
  | nil => exact ha
  | cons key keys ih => exact ih (hf a key ha)

theorem LeaseInv.pruneLease (c : Crates) (d : Desktop) (ha : LeaseInv owner a) (key : TargetKey) :
    LeaseInv owner (a.pruneLease c d key) :=
  (quiet_restoreDesktopSize c d key _).leaseInv (ha.releasePaneControl key)

theorem LeaseInv.pruneWriterLeases (c : Crates) (d : Desktop) (now : DateTime)
    (ha : LeaseInv owner a) : LeaseInv owner (a.pruneWriterLeases c d now) :=
  foldl_induct (fun _ key h => h.pruneLease c d key) _ ha

theorem LeaseInv.snapshot (c : Crates) (d : Desktop) (now : DateTime) (ha : LeaseInv owner a) :
    LeaseInv owner (a.snapshot c d now).2 := by
  have h := (quiet_reclaimDesktopSizes c d _).leaseInv (ha.pruneWriterLeases c d now)
  exact ⟨h.pinned, h.owned⟩

theorem LeaseInv.pin {b : WorkspaceAdapter} {key : TargetKey} {authorization : SessionAuthorization}
    (h : Granted now key authorization a b) (hb : LeaseInv owner b) (pinned : Bool) :
    LeaseInv owner { b with
      remoteSizePins := if pinned then b.remoteSizePins.insert key authorization.deviceId
        else b.remoteSizePins.remove key } := by
  refine ⟨fun k dev hp => ?_, hb.owned⟩
  split at hp
  · rw [HashMap.get_insert] at hp
    split at hp
    · rename_i hk
      rw [h.writerLeases, if_pos hk]
      exact ⟨_, rfl, Option.some.inj hp⟩
    · exact hb.pinned k dev hp
  · exact hb.pinned k dev (HashMap.get_remove_some.mp hp).1

theorem LeaseInv.outcome {requestId : RequestId} {authorization : SessionAuthorization}
    {m : ClientMessage} {r : AdapterReply × WorkspaceAdapter} (ha : LeaseInv owner a)
    (hown : authorization.deviceId = owner authorization.sessionId)
    (h : Outcome c d now a requestId authorization m r) : LeaseInv owner r.2 := by
  cases h with
  | refused h _ => exact h.1.leaseInv ha
  | read _ h => exact h.leaseInv ha
  | mutation _ _ h =>
    have hb := h.leaseInv ha
    exact ⟨hb.pinned, hb.owned⟩
  | snapshot => exact (Quiet.reply _ _ _).leaseInv (ha.snapshot c d now)
  | release _ h =>
    refine h.leaseInv ?_
    split
    · exact ha.pruneLease c d _
    · exact ha
  | blocked _ h _ he => exact (quiet_of_error he).2.1.leaseInv (h.leaseInv ha)
  | written _ _ h he h' =>
    exact h'.leaseInv ((granted_of_ok he).2.leaseInv (h.leaseInv ha) hown)
  | resized _ _ h he _ =>
    have hb := (granted_of_ok he).2.leaseInv (h.leaseInv ha) hown
    exact ⟨hb.pinned, hb.owned⟩
  | pin _ h he h' =>
    have hg := (granted_of_ok he).2
    exact h'.leaseInv (.pin hg (hg.leaseInv (h.leaseInv ha) hown) _)

theorem LeaseInv.remember {sessionId : AuthSessionId} {requestId : RequestId}
    {response : ServerEnvelope} (ha : LeaseInv owner a) :
    LeaseInv owner (a.remember sessionId requestId response) := ⟨ha.pinned, ha.owned⟩

theorem LeaseInv.handleEnvelope (ha : LeaseInv owner a) {authorization : SessionAuthorization}
    (hown : authorization.deviceId = owner authorization.sessionId) (envelope : ClientEnvelope) :
    LeaseInv owner (a.handleEnvelope c d now envelope authorization).2 := by
  rcases handleEnvelope_cases c d now envelope authorization a with
    ⟨e, he⟩ | ⟨cached, -, he⟩ | ⟨-, he⟩ | ⟨-, r, hr, he⟩
  · rw [he]
    exact (Quiet.reply _ _ _).leaseInv ha
  · rw [he]
    exact ha
  · rw [he]
    exact (Quiet.reply _ _ _).leaseInv ha
  · rw [he]
    have h : LeaseInv owner r.2 := hr ▸ ha.outcome hown (execute_outcome c d now _ _ _ _)
    simp only
    split
    · exact h.remember
    · exact h

theorem LeaseInv.completeUpload (ha : LeaseInv owner a) {completion : UploadCompletion}
    (hown : completion.authorization.deviceId = owner completion.authorization.sessionId) :
    LeaseInv owner (a.completeUpload c d now completion).2 := by
  rcases completeUpload_cases c d now completion a with
    ⟨h, -, -⟩ | ⟨b, hb, -, ⟨envelope, he, heq⟩ | ⟨lease, he, h⟩⟩
  · exact h.leaseInv ha
  · rw [heq]
    exact (quiet_of_error he).2.1.leaseInv (hb.leaseInv ha)
  · exact h.leaseInv ((granted_of_ok he).2.leaseInv (hb.leaseInv ha) hown)

theorem LeaseInv.sessionConnected (ha : LeaseInv owner a) (now : DateTime)
    (sessionId : AuthSessionId) :
    LeaseInv owner (a.sessionConnected now sessionId (owner sessionId)) := by
  refine ⟨fun k dev hp => ?_, fun k lease hl => ?_⟩
  · obtain ⟨lease, hl, hd⟩ := ha.pinned k dev hp
    rw [WorkspaceAdapter.sessionConnected, HashMap.get_mapValues, hl]
    refine ⟨_, rfl, ?_⟩
    beta_reduce
    split <;> exact hd
  · rw [WorkspaceAdapter.sessionConnected, HashMap.get_mapValues] at hl
    obtain ⟨lease', hl', rfl⟩ := Option.map_eq_some_iff.mp hl
    split
    · rename_i h
      exact h.1
    · exact ha.owned k lease' hl'

theorem LeaseInv.sessionDisconnected (ha : LeaseInv owner a) (now : DateTime)
    (sessionId : AuthSessionId) : LeaseInv owner (a.sessionDisconnected now sessionId) := by
  refine ⟨fun k dev hp => ?_, fun k lease hl => ?_⟩
  · obtain ⟨lease, hl, hd⟩ := ha.pinned k dev hp
    rw [WorkspaceAdapter.sessionDisconnected, HashMap.get_mapValues, hl]
    refine ⟨_, rfl, ?_⟩
    beta_reduce
    split <;> exact hd
  · rw [WorkspaceAdapter.sessionDisconnected, HashMap.get_mapValues] at hl
    obtain ⟨lease', hl', rfl⟩ := Option.map_eq_some_iff.mp hl
    split
    · exact ha.owned k lease' hl'
    · exact ha.owned k lease' hl'

theorem leaseInv_allSessionsDisconnected (c : Crates) (d : Desktop) (a : WorkspaceAdapter) :
    LeaseInv owner (a.allSessionsDisconnected c d) :=
  (quiet_foldl_restoreDesktopSize c d _ _).leaseInv
    ⟨fun _ _ h => (nomatch h), fun _ _ h => (nomatch h)⟩

theorem LeaseInv.preempt (ha : LeaseInv owner a) (c : Crates) (d : Desktop) (terminal : EntityId) :
    LeaseInv owner (a.preemptWriterForDesktopInput c d terminal) := by
  rw [preemptWriterForDesktopInput]
  split
  · exact ha
  · exact (Quiet.perform_one _ id).leaseInv
      (foldl_induct (fun _ key h => h.releasePaneControl key) _ ha)

theorem LeaseInv.step (ha : LeaseInv owner a) (d : Desktop) (now : DateTime) {e : AdapterEvent}
    (he : e.Owned owner) : LeaseInv owner (a.step c d now e) := by
  cases e with
  | envelope envelope authorization => exact ha.handleEnvelope he envelope
  | completeUpload completion => exact ha.completeUpload he
  | sessionConnected sessionId deviceId =>
    obtain rfl : deviceId = owner sessionId := he
    exact ha.sessionConnected now sessionId
  | sessionDisconnected sessionId => exact ha.sessionDisconnected now sessionId
  | sweep => exact ha.pruneWriterLeases c d now
  | snapshot => exact ha.snapshot c d now
  | workspaceChanged snapshot => exact (Quiet.response a none (.workspaceChanged snapshot)).leaseInv ha
  | desktopInput terminal =>
    rw [WorkspaceAdapter.step]
    split
    · exact ha.preempt c d terminal
    · exact ha
  | shutdown => exact leaseInv_allSessionsDisconnected c d a

/-! ## Losing a lease -/

/-- What a loop that releases panes leaves. -/
theorem get_foldl_release {f : WorkspaceAdapter → TargetKey → WorkspaceAdapter}
    (hf : ∀ a key, Quiet (a.releasePaneControl key) (f a key)) (keys : List TargetKey)
    (a : WorkspaceAdapter) (key : TargetKey) : (keys.foldl f a).writerLeases.get key =
      if key ∈ keys then none else a.writerLeases.get key := by
  induction keys generalizing a with
  | nil => rw [if_neg (List.not_mem_nil)]; rfl
  | cons key' keys ih =>
    rw [List.foldl_cons, ih, (hf a key').writerLeases, releasePaneControl]
    by_cases hk : key ∈ keys
    · rw [if_pos hk, if_pos (List.mem_cons_of_mem _ hk)]
    · rw [if_neg hk]
      by_cases hk' : key = key'
      · rw [hk', HashMap.get_remove_self, if_pos List.mem_cons_self]
      · rw [HashMap.get_remove_of_ne _ hk', if_neg (by simp [hk, hk'])]

theorem mem_expiredLeases {key : TargetKey} : key ∈ a.expiredLeases now ↔ ∃ lease,
    a.writerLeases.get key = some lease ∧ writerLeaseExpired a.connectedSessions lease now = true := by
  rw [expiredLeases, List.mem_map]
  constructor
  · rintro ⟨⟨key', lease⟩, hm, rfl⟩
    obtain ⟨hm, he⟩ := List.mem_filter.mp hm
    exact ⟨lease, HashMap.get_eq_some.mpr hm, he⟩
  · rintro ⟨lease, hl, he⟩
    exact ⟨(key, lease), List.mem_filter.mpr ⟨HashMap.get_eq_some.mp hl, he⟩, rfl⟩

/-- Pruning removes the expired leases, and no other. -/
theorem get_pruneWriterLeases {key : TargetKey} {lease : WriterLease} :
    (a.pruneWriterLeases c d now).writerLeases.get key = some lease ↔
      a.writerLeases.get key = some lease ∧
        writerLeaseExpired a.connectedSessions lease now = false := by
  rw [pruneWriterLeases, get_foldl_release (f := fun a target => a.pruneLease c d target)
    fun a key => quiet_restoreDesktopSize c d key _]
  constructor
  · intro h
    split at h
    · cases h
    · rename_i hm
      refine ⟨h, ?_⟩
      by_contra he
      exact hm (mem_expiredLeases.mpr ⟨lease, h, by simpa using he⟩)
  · rintro ⟨hl, he⟩
    rw [if_neg, hl]
    intro hm
    obtain ⟨lease', hl', he'⟩ := mem_expiredLeases.mp hm
    obtain rfl := Option.some.inj (hl.symm.trans hl')
    cases he.symm.trans he'

theorem not_expired {lease : WriterLease} (hc : lease.sessionId ∈ a.connectedSessions) :
    writerLeaseExpired a.connectedSessions lease now = false := by
  rw [writerLeaseExpired, decide_eq_false (not_not_intro hc), Bool.and_false]

/-- The device of the lease has the lease of the target. -/
def Keeps (key : TargetKey) (lease : WriterLease) (a : WorkspaceAdapter) : Prop :=
  ∃ lease', a.writerLeases.get key = some lease' ∧ lease'.deviceId = lease.deviceId

variable {key : TargetKey} {lease : WriterLease}

theorem Quiet.keeps (h : Quiet a a') (hk : Keeps key lease a) : Keeps key lease a' := by
  rwa [Keeps, h.writerLeases]

/-- A write leaves the lease of a connected session to its device, unless it takes it over. -/
theorem Granted.keeps {key' : TargetKey} {authorization : SessionAuthorization} {takeover : Bool}
    (h : Granted now key' authorization a a') (hb : takeover = false → ¬ a.Blocked key' authorization)
    (ha : LeaseInv owner a) (hown : authorization.deviceId = owner authorization.sessionId)
    (hl : a.writerLeases.get key = some lease) (hc : lease.sessionId ∈ a.connectedSessions) :
    Keeps key lease a' ∨
      (takeover = true ∧ key' = key ∧ authorization.deviceId ≠ lease.deviceId) := by
  by_cases hk : key = key'
  · subst hk
    by_cases hd : authorization.deviceId = lease.deviceId
    · exact Or.inl ⟨_, by rw [h.writerLeases, if_pos rfl], hd⟩
    · refine Or.inr ⟨?_, rfl, hd⟩
      by_contra ht
      refine hb (by simpa using ht) ⟨lease, hl, ?_⟩
      have hs : lease.sessionId ≠ authorization.sessionId := fun he =>
        hd (hown.trans (by rw [← he, ha.owned key lease hl]))
      simp [writerLeaseBlocks, hs, Ne.symm hd, hc]
  · exact Or.inl ⟨lease, by rw [h.writerLeases, if_neg hk, hl], rfl⟩

theorem written_true {m : ClientMessage} {target : TargetRef} (h : m.written = some (target, true)) :
    ∃ revision, m = .acquireWriterLease target revision true := by
  cases m <;> simp_all [ClientMessage.written]

theorem keeps_pruneWriterLeases (c : Crates) (d : Desktop) (now : DateTime)
    (hl : a.writerLeases.get key = some lease) (hc : lease.sessionId ∈ a.connectedSessions) :
    Keeps key lease (a.pruneWriterLeases c d now) :=
  ⟨lease, get_pruneWriterLeases.mpr ⟨hl, not_expired hc⟩, rfl⟩

theorem keeps_snapshot (c : Crates) (d : Desktop) (now : DateTime)
    (hl : a.writerLeases.get key = some lease) (hc : lease.sessionId ∈ a.connectedSessions) :
    Keeps key lease (a.snapshot c d now).2 :=
  (quiet_reclaimDesktopSizes c d _).keeps (keeps_pruneWriterLeases c d now hl hc)

end WorkspaceAdapter

open WorkspaceAdapter

/-- The event hands a lease over, or back. -/
def AdapterEvent.Surrenders (c : Crates) (d : Desktop) (key : TargetKey) (lease : WriterLease) :
    AdapterEvent → Prop
  | envelope e authorization =>
    (∃ target, e.payload = .releaseWriterLease target ∧ target.key = key ∧
      authorization.sessionId = lease.sessionId) ∨
    ∃ target revision, e.payload = .acquireWriterLease target revision true ∧
      target.key = key ∧ authorization.deviceId ≠ lease.deviceId
  | desktopInput terminal =>
    ∀ resolved, d.resolveTarget c key = some resolved → resolved.terminal = terminal
  | shutdown => True
  | _ => False

namespace WorkspaceAdapter

variable {c : Crates} {d : Desktop} {now : DateTime} {a : WorkspaceAdapter} {key : TargetKey}
  {lease : WriterLease} {owner : AuthSessionId → DeviceId} {authorization : SessionAuthorization}

theorem keeps_outcome {requestId : RequestId} {m : ClientMessage}
    {r : AdapterReply × WorkspaceAdapter} (h : Outcome c d now a requestId authorization m r)
    (ha : LeaseInv owner a) (hown : authorization.deviceId = owner authorization.sessionId)
    (hl : a.writerLeases.get key = some lease) (hc : lease.sessionId ∈ a.connectedSessions) :
    Keeps key lease r.2 ∨ (∃ target, m = .releaseWriterLease target ∧ target.key = key ∧
      authorization.sessionId = lease.sessionId) ∨
    ∃ target revision, m = .acquireWriterLease target revision true ∧ target.key = key ∧
      authorization.deviceId ≠ lease.deviceId := by
  have hk : Keeps key lease a := ⟨lease, hl, rfl⟩
  cases h with
  | refused h _ => exact Or.inl (h.1.keeps hk)
  | read _ h => exact Or.inl (h.keeps hk)
  | mutation _ _ h => exact Or.inl (h.keeps hk)
  | snapshot => exact Or.inl ((Quiet.reply _ _ _).keeps (keeps_snapshot c d now hl hc))
  | release hm h =>
    rename_i target
    by_cases hs : authorization.sessionId = lease.sessionId ∧ target.key = key
    · exact Or.inr (Or.inl ⟨target, hm, hs.2, hs.1⟩)
    · refine Or.inl (h.keeps ?_)
      split
      · rename_i hany
        refine (quiet_restoreDesktopSize c d _ _).keeps ⟨lease, ?_, rfl⟩
        rw [releasePaneControl, HashMap.get_remove_of_ne, hl]
        rintro rfl
        rw [hl] at hany
        exact hs ⟨(of_decide_eq_true hany).symm, rfl⟩
      · exact hk
  | blocked _ h _ he => exact Or.inl ((quiet_of_error he).2.1.keeps (h.keeps hk))
  | written hm _ h he h' =>
    obtain ⟨hb, hg⟩ := granted_of_ok he
    rcases hg.keeps hb (h.leaseInv ha) hown (h.writerLeases ▸ hl) (h.connectedSessions ▸ hc) with
      hk' | ⟨rfl, hkey, hd⟩
    · exact Or.inl (h'.keeps hk')
    · obtain ⟨revision, hm⟩ := written_true hm
      exact Or.inr (Or.inr ⟨_, revision, hm, hkey, hd⟩)
  | resized _ _ h he _ =>
    obtain ⟨hb, hg⟩ := granted_of_ok he
    rcases hg.keeps hb (h.leaseInv ha) hown (h.writerLeases ▸ hl) (h.connectedSessions ▸ hc) with
      hk' | ⟨ht, -, -⟩
    · exact Or.inl hk'
    · cases ht
  | pin _ h he h' =>
    obtain ⟨hb, hg⟩ := granted_of_ok he
    rcases hg.keeps hb (h.leaseInv ha) hown (h.writerLeases ▸ hl) (h.connectedSessions ▸ hc) with
      hk' | ⟨ht, -, -⟩
    · exact Or.inl (h'.keeps hk')
    · cases ht

theorem keeps_handleEnvelope (ha : LeaseInv owner a) (d : Desktop) (now : DateTime)
    (hown : authorization.deviceId = owner authorization.sessionId) (e : ClientEnvelope)
    (hl : a.writerLeases.get key = some lease) (hc : lease.sessionId ∈ a.connectedSessions) :
    Keeps key lease (a.handleEnvelope c d now e authorization).2 ∨
      (AdapterEvent.envelope e authorization).Surrenders c d key lease := by
  have hk : Keeps key lease a := ⟨lease, hl, rfl⟩
  rcases handleEnvelope_cases c d now e authorization a with
    ⟨error, he⟩ | ⟨cached, -, he⟩ | ⟨-, he⟩ | ⟨-, r, hr, he⟩
  · rw [he]
    exact Or.inl ((Quiet.reply _ _ _).keeps hk)
  · rw [he]
    exact Or.inl hk
  · rw [he]
    exact Or.inl ((Quiet.reply _ _ _).keeps hk)
  · have h := execute_outcome c d now a e.requestId authorization e.payload
    rw [← hr] at h
    refine (keeps_outcome h ha hown hl hc).imp_left fun hk' => ?_
    rw [he]
    simp only
    split <;> exact hk'

theorem keeps_mapValues {f : WriterLease → WriterLease} (hf : ∀ l, (f l).deviceId = l.deviceId)
    (hl : a.writerLeases.get key = some lease) :
    ∃ lease', (a.writerLeases.mapValues f).get key = some lease' ∧
      lease'.deviceId = lease.deviceId :=
  ⟨f lease, by rw [HashMap.get_mapValues, hl]; rfl, hf lease⟩

theorem keeps_preempt (c : Crates) (d : Desktop) (terminal : EntityId)
    (hl : a.writerLeases.get key = some lease) :
    Keeps key lease (a.preemptWriterForDesktopInput c d terminal) ∨
      ∀ resolved, d.resolveTarget c key = some resolved → resolved.terminal = terminal := by
  rw [preemptWriterForDesktopInput]
  split
  · exact Or.inl ⟨lease, hl, rfl⟩
  · rw [or_iff_not_imp_right]
    intro hne
    refine (Quiet.perform_one _ id).keeps ⟨lease, ?_, rfl⟩
    rw [get_foldl_release (f := fun a target => a.releasePaneControl target) fun _ _ => .refl _,
      if_neg, hl]
    intro hm
    refine hne fun resolved hr => ?_
    have hall := (List.mem_filter.mp hm).2
    rw [hr] at hall
    exact of_decide_eq_true hall

/-- A device loses the lease of a connected session to an event that surrenders it only. -/
theorem keeps_step (ha : LeaseInv owner a) (d : Desktop) (now : DateTime) {e : AdapterEvent}
    (he : e.Owned owner) (hl : a.writerLeases.get key = some lease)
    (hc : lease.sessionId ∈ a.connectedSessions) :
    Keeps key lease (a.step c d now e) ∨ e.Surrenders c d key lease := by
  have hk : Keeps key lease a := ⟨lease, hl, rfl⟩
  cases e with
  | envelope e authorization => exact keeps_handleEnvelope ha d now he e hl hc
  | completeUpload completion =>
    refine Or.inl ?_
    rw [step]
    rcases completeUpload_cases c d now completion a with
      ⟨h, -, -⟩ | ⟨b, hb, -, ⟨envelope, he', heq⟩ | ⟨lease', he', h⟩⟩
    · exact h.keeps hk
    · rw [heq]
      exact (quiet_of_error he').2.1.keeps (hb.keeps hk)
    · obtain ⟨hblock, hg⟩ := granted_of_ok he'
      refine ((hg.keeps hblock (hb.leaseInv ha) he (hb.writerLeases ▸ hl)
        (hb.connectedSessions ▸ hc)).resolve_right ?_) |> h.keeps
      rintro ⟨ht, -⟩
      exact nomatch ht
  | sessionConnected sessionId deviceId =>
    exact Or.inl (keeps_mapValues (fun l => by split <;> rfl) hl)
  | sessionDisconnected sessionId =>
    exact Or.inl (keeps_mapValues (fun l => by split <;> rfl) hl)
  | sweep => exact Or.inl (keeps_pruneWriterLeases c d now hl hc)
  | snapshot => exact Or.inl (keeps_snapshot c d now hl hc)
  | workspaceChanged snapshot => exact Or.inl hk
  | desktopInput terminal =>
    rw [step]
    split
    · exact keeps_preempt c d terminal hl
    · exact Or.inl hk
  | shutdown => exact Or.inr trivial

/-! ## Accepted writes -/

/-- The request is answered without an error, and not from the cache; or something is written. -/
def Accepts (c : Crates) (d : Desktop) (now : DateTime) (e : ClientEnvelope)
    (authorization : SessionAuthorization) (a : WorkspaceAdapter) : Prop :=
  (a.cached authorization.sessionId e.requestId = none ∧
    (a.handleEnvelope c d now e authorization).1.envelope.payload.isError = false) ∨
  ¬ Unwritten a (a.handleEnvelope c d now e authorization).2

/-- No connected session of another device had the lease, and the writing session has it. -/
def Admitted (key : TargetKey) (authorization : SessionAuthorization) (a a' : WorkspaceAdapter) :
    Prop :=
  (∀ lease, a.writerLeases.get key = some lease → lease.sessionId ∈ a.connectedSessions →
    lease.deviceId = authorization.deviceId) ∧
  ∃ lease, a'.writerLeases.get key = some lease ∧ lease.sessionId = authorization.sessionId ∧
    lease.deviceId = authorization.deviceId

theorem Granted.admitted {a' : WorkspaceAdapter} (h : Granted now key authorization a a')
    (hb : ¬ a.Blocked key authorization) (ha : LeaseInv owner a)
    (hown : authorization.deviceId = owner authorization.sessionId) :
    Admitted key authorization a a' := by
  refine ⟨fun lease hl hc => ?_, _, by rw [h.writerLeases, if_pos rfl], rfl, rfl⟩
  rcases h.keeps (fun _ : false = false => hb) ha hown hl hc with ⟨lease', hl', hd⟩ | ⟨ht, -⟩
  · rw [h.writerLeases, if_pos rfl] at hl'
    rw [← hd, ← Option.some.inj hl']
  · exact nomatch ht

theorem Quiet.admitted {b b' r : WorkspaceAdapter} (h : Quiet a b) (h' : Quiet b' r)
    (hb : Admitted key authorization b b') : Admitted key authorization a r := by
  rw [Admitted, h'.writerLeases, ← h.writerLeases, ← h.connectedSessions]
  exact hb

theorem unwritten_trans {a' a'' : WorkspaceAdapter} (h : Unwritten a a') (h' : a''.effects = a'.effects) :
    Unwritten a a'' := by
  rwa [Unwritten, h']

/-- Only a write that was admitted is answered without an error, or writes something. -/
theorem outcome_admitted {requestId : RequestId} {m : ClientMessage} {target : TargetRef}
    {r : AdapterReply × WorkspaceAdapter} (h : Outcome c d now a requestId authorization m r)
    (ha : LeaseInv owner a) (hown : authorization.deviceId = owner authorization.sessionId)
    (hm : m.written = some (target, false)) :
    Admitted target.key authorization a r.2 ∨
      (r.1.envelope.payload.isError = true ∧ Unwritten a r.2) := by
  have hne : m.written ≠ none := by
    rw [hm]
    exact Option.some_ne_none _
  cases h with
  | refused h hw => exact Or.inr ⟨h.2, unwritten_of_eq (hw hne)⟩
  | read hm' _ => exact absurd hm'.1 hne
  | mutation hm' _ _ => cases m <;> simp_all [ClientMessage.written, ClientMessage.isMutation]
  | snapshot hm' => exact absurd (by rw [hm']; rfl) hne
  | release hm' _ => exact absurd (by rw [hm']; rfl) hne
  | blocked _ _ hw he =>
    obtain ⟨herr, -, heff⟩ := quiet_of_error he
    exact Or.inr ⟨herr, unwritten_trans hw heff⟩
  | written hm' _ h he h' =>
    obtain ⟨rfl, rfl⟩ := Prod.mk.inj (Option.some.inj (hm'.symm.trans hm))
    obtain ⟨hb, hg⟩ := granted_of_ok he
    exact Or.inl (h.admitted h' (hg.admitted (hb rfl) (h.leaseInv ha) hown))
  | resized hm' _ h he _ =>
    subst hm'
    obtain ⟨rfl, -⟩ := Prod.mk.inj (Option.some.inj hm)
    obtain ⟨hb, hg⟩ := granted_of_ok he
    exact Or.inl (h.admitted (.refl _) (hg.admitted (hb rfl) (h.leaseInv ha) hown))
  | pin hm' h he h' =>
    subst hm'
    obtain ⟨rfl, -⟩ := Prod.mk.inj (Option.some.inj hm)
    obtain ⟨hb, hg⟩ := granted_of_ok he
    have hb' := hg.admitted (hb rfl) (h.leaseInv ha) hown
    refine Or.inl ?_
    rw [Admitted, h'.writerLeases, ← h.writerLeases, ← h.connectedSessions]
    exact hb'

theorem write_admitted (ha : LeaseInv owner a)
    (hown : authorization.deviceId = owner authorization.sessionId) {e : ClientEnvelope}
    {target : TargetRef} (hm : e.payload.written = some (target, false))
    (hacc : Accepts c d now e authorization a) :
    Admitted target.key authorization a (a.handleEnvelope c d now e authorization).2 := by
  rcases handleEnvelope_cases c d now e authorization a with
    ⟨error, he⟩ | ⟨cached, hc, he⟩ | ⟨-, he⟩ | ⟨-, r, hr, he⟩
  · rw [Accepts, he] at hacc
    exact (hacc.elim (fun h => nomatch h.2) fun h => absurd (unwritten_of_eq rfl) h)
  · rw [Accepts, he, hc] at hacc
    exact (hacc.elim (fun h => nomatch h.1) fun h => absurd (unwritten_of_eq rfl) h)
  · rw [Accepts, he] at hacc
    exact (hacc.elim (fun h => nomatch h.2) fun h => absurd (unwritten_of_eq rfl) h)
  · have h := execute_outcome c d now a e.requestId authorization e.payload
    rw [← hr] at h
    have heff : (a.handleEnvelope c d now e authorization).2.effects = r.2.effects ∧
        (a.handleEnvelope c d now e authorization).2.writerLeases = r.2.writerLeases := by
      rw [he]
      simp only
      split <;> exact ⟨rfl, rfl⟩
    rcases outcome_admitted h ha hown hm with had | ⟨herr, hun⟩
    · rwa [Admitted, heff.2]
    · rw [Accepts, he] at hacc
      rw [he] at heff
      exact (hacc.elim (fun h => nomatch herr.symm.trans h.2) fun h =>
        absurd (unwritten_trans hun heff.1) h)

/-- The upload is answered without an error, or something is written. -/
def AcceptsUpload (c : Crates) (d : Desktop) (now : DateTime) (completion : UploadCompletion)
    (a : WorkspaceAdapter) : Prop :=
  (a.completeUpload c d now completion).1.payload.isError = false ∨
    ¬ Unwritten a (a.completeUpload c d now completion).2

theorem upload_admitted (ha : LeaseInv owner a) {completion : UploadCompletion}
    (hown : completion.authorization.deviceId = owner completion.authorization.sessionId)
    (hacc : AcceptsUpload c d now completion a) :
    Admitted completion.target.key completion.authorization a
      (a.completeUpload c d now completion).2 := by
  rcases completeUpload_cases c d now completion a with
    ⟨-, herr, heff⟩ | ⟨b, hb, hw, ⟨envelope, he, heq⟩ | ⟨lease, he, h⟩⟩
  · exact (hacc.elim (fun h => nomatch herr.symm.trans h) fun h => absurd (unwritten_of_eq heff) h)
  · obtain ⟨herr, -, heff⟩ := quiet_of_error he
    rw [AcceptsUpload, heq] at hacc
    exact (hacc.elim (fun h => nomatch herr.symm.trans h) fun h =>
      absurd (unwritten_trans hw heff) h)
  · obtain ⟨hblock, hg⟩ := granted_of_ok he
    exact hb.admitted h (hg.admitted (hblock rfl) (hb.leaseInv ha) hown)

/-! ## Sizes -/

/-- The desktop is asked for the effect. -/
def Asks (effect : Effect) (a a' : WorkspaceAdapter) : Prop :=
  ∃ es, a'.effects = a.effects ++ es ∧ effect ∈ es

theorem NoResize.not_asks {a' : WorkspaceAdapter} (h : NoResize a a') {effect : Effect}
    (he : effect.IsResize) : ¬ Asks effect a a' := by
  rintro ⟨es, heq, hm⟩
  obtain ⟨es', heq', hn⟩ := h
  obtain rfl := List.append_cancel_left (heq.symm.trans heq')
  exact hn effect hm he

theorem noResize_foldl {f : WorkspaceAdapter → TargetKey → WorkspaceAdapter}
    (hf : ∀ a key, NoResize a (f a key)) (keys : List TargetKey) (a : WorkspaceAdapter) :
    NoResize a (keys.foldl f a) := by
  induction keys generalizing a with
  | nil => exact .of_eq rfl
  | cons key keys ih => exact (hf a key).trans (ih _)

theorem noResize_pruneLease (c : Crates) (d : Desktop) (a : WorkspaceAdapter) (key : TargetKey) :
    NoResize a (a.pruneLease c d key) := (quiet_restoreDesktopSize c d key _).effects

theorem noResize_pruneWriterLeases (c : Crates) (d : Desktop) (now : DateTime)
    (a : WorkspaceAdapter) : NoResize a (a.pruneWriterLeases c d now) :=
  noResize_foldl (fun a key => noResize_pruneLease c d a key) _ a

theorem noResize_snapshot (c : Crates) (d : Desktop) (now : DateTime) (a : WorkspaceAdapter) :
    NoResize a (a.snapshot c d now).2 :=
  (noResize_pruneWriterLeases c d now a).trans (quiet_reclaimDesktopSizes c d _).effects

theorem noResize_preempt (c : Crates) (d : Desktop) (terminal : EntityId) (a : WorkspaceAdapter) :
    NoResize a (a.preemptWriterForDesktopInput c d terminal) := by
  rw [preemptWriterForDesktopInput]
  split
  · exact .of_eq rfl
  · exact (noResize_foldl (f := fun a target => a.releasePaneControl target)
      (fun _ _ => .of_eq rfl) _ a).trans (Quiet.perform_one _ id).effects

/-- The device of the session has the lease, and its pin where the desktop shows the pane. -/
def MaySize (c : Crates) (d : Desktop) (key : TargetKey) (authorization : SessionAuthorization)
    (a : WorkspaceAdapter) : Prop :=
  (∃ lease, a.writerLeases.get key = some lease ∧ lease.deviceId = authorization.deviceId) ∧
  (key ∈ d.watchedTargets c → a.remoteSizePins.get key = some authorization.deviceId)

theorem maySize_of_remoteMaySizePane (h : remoteMaySizePane ((d.watchedTargets c).contains key)
      (a.remoteSizePins.get key) authorization.deviceId = true) (hm : key ∈ d.watchedTargets c) :
    a.remoteSizePins.get key = some authorization.deviceId := by
  rw [List.contains_iff_mem.mpr hm] at h
  cases hp : a.remoteSizePins.get key with
  | none =>
    rw [hp] at h
    exact nomatch h
  | some dev =>
    rw [hp] at h
    rw [of_decide_eq_true h]

theorem outcome_resize {requestId : RequestId} {m : ClientMessage} {terminal : EntityId}
    {rows columns : UInt16} {r : AdapterReply × WorkspaceAdapter}
    (h : Outcome c d now a requestId authorization m r)
    (hask : Asks (.resize terminal rows columns) a r.2) :
    ∃ target revision dimensions resolved, m = .terminalResize target revision dimensions ∧
      d.resolveTarget c target.key = some resolved ∧ resolved.terminal = terminal ∧
      MaySize c d target.key authorization r.2 := by
  have hsize : Effect.IsResize (.resize terminal rows columns) := trivial
  have hno : NoResize a r.2 → False := fun hn => hn.not_asks hsize hask
  cases h with
  | refused h _ => exact (hno h.1.effects).elim
  | read _ h => exact (hno h.effects).elim
  | mutation _ _ h => exact (hno h.effects).elim
  | snapshot => exact (hno (noResize_snapshot c d now a)).elim
  | release _ h =>
    refine (hno (.trans ?_ h.effects)).elim
    split
    · exact noResize_pruneLease c d a _
    · exact .of_eq rfl
  | blocked _ h _ he => exact (hno (h.effects.trans (quiet_of_error he).2.1.effects)).elim
  | written _ _ h he h' =>
    exact (hno ((h.effects.trans (.of_eq (granted_of_ok he).2.effects)).trans h'.effects)).elim
  | resized hm hr h he hmay =>
    rename_i target resolved revision dimensions b lease
    have hlease := ((granted_of_ok he).2.writerLeases target.key).trans (if_pos rfl)
    refine ⟨target, revision, dimensions, resolved, hm, hr, ?_,
      ⟨_, hlease, rfl⟩, maySize_of_remoteMaySizePane hmay⟩
    obtain ⟨es, heq, hmem⟩ := hask
    obtain ⟨es', heq', hn⟩ := h.effects.trans (.of_eq (granted_of_ok he).2.effects)
    have hlast : es = es' ++ [.resize resolved.terminal dimensions.rows dimensions.columns] := by
      refine List.append_cancel_left (heq.symm.trans ?_)
      rw [← List.append_assoc, ← heq']
      rfl
    rw [hlast] at hmem
    rcases List.mem_append.mp hmem with hmem | hmem
    · exact absurd hsize (hn _ hmem)
    · exact (Effect.resize.inj (List.mem_singleton.mp hmem)).1.symm
  | pin _ h he h' =>
    exact (hno ((h.effects.trans (.of_eq (granted_of_ok he).2.effects)).trans h'.effects)).elim

theorem step_resize {e : AdapterEvent} {terminal : EntityId} {rows columns : UInt16}
    (hask : Asks (.resize terminal rows columns) a (a.step c d now e)) :
    ∃ envelope authorization target revision dimensions resolved,
      e = .envelope envelope authorization ∧
      envelope.payload = .terminalResize target revision dimensions ∧
      d.resolveTarget c target.key = some resolved ∧ resolved.terminal = terminal ∧
      MaySize c d target.key authorization (a.step c d now e) := by
  have hsize : Effect.IsResize (.resize terminal rows columns) := trivial
  have hno : NoResize a (a.step c d now e) → False := fun hn => hn.not_asks hsize hask
  cases e with
  | envelope envelope authorization =>
    rw [step] at hask hno ⊢
    rcases handleEnvelope_cases c d now envelope authorization a with
      ⟨error, he⟩ | ⟨cached, hc, he⟩ | ⟨-, he⟩ | ⟨-, r, hr, he⟩
    · rw [he] at hno
      exact (hno (.of_eq rfl)).elim
    · rw [he] at hno
      exact (hno (.of_eq rfl)).elim
    · rw [he] at hno
      exact (hno (.of_eq rfl)).elim
    · have h := execute_outcome c d now a envelope.requestId authorization envelope.payload
      rw [← hr] at h
      have heq : (a.handleEnvelope c d now envelope authorization).2.effects = r.2.effects ∧
          (a.handleEnvelope c d now envelope authorization).2.writerLeases = r.2.writerLeases ∧
          (a.handleEnvelope c d now envelope authorization).2.remoteSizePins =
            r.2.remoteSizePins := by
        rw [he]
        simp only
        split <;> exact ⟨rfl, rfl, rfl⟩
      rw [Asks, heq.1] at hask
      obtain ⟨target, revision, dimensions, resolved, hm, hres, ht, hmay⟩ := outcome_resize h hask
      refine ⟨envelope, authorization, target, revision, dimensions, resolved, rfl, hm, hres, ht, ?_⟩
      rwa [MaySize, heq.2.1, heq.2.2]
  | completeUpload completion =>
    rw [step] at hno
    rcases completeUpload_cases c d now completion a with
      ⟨h, -, -⟩ | ⟨b, hb, -, ⟨envelope, he, heq⟩ | ⟨lease, he, h⟩⟩
    · exact (hno h.effects).elim
    · rw [heq] at hno
      exact (hno (hb.effects.trans (quiet_of_error he).2.1.effects)).elim
    · exact (hno ((hb.effects.trans (.of_eq (granted_of_ok he).2.effects)).trans h.effects)).elim
  | sessionConnected sessionId deviceId => exact (hno (.of_eq rfl)).elim
  | sessionDisconnected sessionId => exact (hno (.of_eq rfl)).elim
  | sweep => exact (hno (noResize_pruneWriterLeases c d now a)).elim
  | snapshot => exact (hno (noResize_snapshot c d now a)).elim
  | workspaceChanged snapshot => exact (hno (.of_eq rfl)).elim
  | desktopInput terminal =>
    rw [step] at hno
    split at hno
    · exact (hno (noResize_preempt c d terminal a)).elim
    · exact (hno (.of_eq rfl)).elim
  | shutdown => exact (hno (quiet_foldl_restoreDesktopSize c d _ _).effects).elim

end WorkspaceAdapter

variable {c : Crates} {owner : AuthSessionId → DeviceId} {a : WorkspaceAdapter}

/-- **The invariant holds in every state that an adapter reaches.** -/
theorem AdapterRun.leaseInv (h : AdapterRun c owner a) : LeaseInv owner a := by
  induction h with
  | new appInstanceId random => exact ⟨fun _ _ h => (nomatch h), fun _ _ h => (nomatch h)⟩
  | step _ d now e he ih => exact ih.step d now he

/-- Writer leases give exclusive control, and size pins never outlive them. -/
structure ExclusiveControl (c : Crates) (owner : AuthSessionId → DeviceId) (a : WorkspaceAdapter) :
    Prop where
  /-- A write without takeover is accepted only if no connected session of another device has the
  lease, and then the writing session has it. -/
  write : ∀ (d : Desktop) (now : DateTime) (e : ClientEnvelope) (auth : SessionAuthorization)
    (target : TargetRef), auth.deviceId = owner auth.sessionId →
    e.payload.written = some (target, false) → Accepts c d now e auth a →
    Admitted target.key auth a (a.handleEnvelope c d now e auth).2
  upload : ∀ (d : Desktop) (now : DateTime) (completion : UploadCompletion),
    completion.authorization.deviceId = owner completion.authorization.sessionId →
    AcceptsUpload c d now completion a → Admitted completion.target.key completion.authorization a
      (a.completeUpload c d now completion).2
  /-- The device of a connected session loses its lease only to an event that surrenders it. -/
  keep : ∀ (d : Desktop) (now : DateTime) (e : AdapterEvent) (key : TargetKey) (lease : WriterLease),
    e.Owned owner → a.writerLeases.get key = some lease → lease.sessionId ∈ a.connectedSessions →
    Keeps key lease (a.step c d now e) ∨ e.Surrenders c d key lease
  /-- A size pin belongs to the device that has the pane's lease. -/
  pinned : ∀ (key : TargetKey) (device : DeviceId), a.remoteSizePins.get key = some device →
    ∃ lease, a.writerLeases.get key = some lease ∧ lease.deviceId = device
  /-- A device resizes a pane with its lease only, and a pane that the Mac shows with its pin. -/
  size : ∀ (d : Desktop) (now : DateTime) (e : AdapterEvent) (terminal : EntityId)
    (rows columns : UInt16), Asks (.resize terminal rows columns) a (a.step c d now e) →
    ∃ envelope auth target revision dimensions resolved, e = .envelope envelope auth ∧
      envelope.payload = .terminalResize target revision dimensions ∧
      d.resolveTarget c target.key = some resolved ∧ resolved.terminal = terminal ∧
      MaySize c d target.key auth (a.step c d now e)

/-- **In every state that an adapter reaches, writer leases give exclusive control.** -/
theorem leases_exclusive (c : Crates) (owner : AuthSessionId → DeviceId) :
    ∀ a, AdapterRun c owner a → ExclusiveControl c owner a := fun _ h =>
  { write := fun _ _ _ _ _ hown hm hacc => write_admitted h.leaseInv hown hm hacc
    upload := fun _ _ _ hown hacc => upload_admitted h.leaseInv hown hacc
    keep := fun d now _ _ _ he hl hc => keeps_step h.leaseInv d now he hl hc
    pinned := h.leaseInv.pinned
    size := fun _ _ _ _ _ _ hask => step_resize hask }

/-! ## A phone in control of a pane -/

namespace Sample

def crates : Crates := ⟨fun _ => none, id, fun _ => none, fun l => UInt64.ofNat l.length⟩

def uuid (b : UInt8) : Uuid := ⟨List.replicate 16 b, List.length_replicate⟩

def pane : Pane := ⟨"a", some 7⟩

def tab : Tab := ⟨1, none, [pane]⟩

def project : Project := ⟨uuid 0, [tab], 0, .empty, []⟩

def desktop : Desktop where
  windows := [⟨0, some ⟨[project], 0⟩⟩]
  activeWindow := none
  appIsActive := false
  unattended := false
  isReady _ := true
  dimensions _ := ⟨80, 24⟩
  submitText _ _ := true
  agentIsStarting _ := false
  pwdIfLocal _ := none
  escapeInsertedPath _ path := path
  quickInserts _ := []
  canonicalize _ := none
  isDir _ := false
  addProject := true
  addWorkspaceTask _ _ := true
  removeWorkspaceTask _ _ := true
  launchWorkspaceTask _ _ _ := true
  resumeCliAgent _ _ _ _ := true
  createTabGroup _ _ _ := true
  streamId := ⟨uuid 0⟩
  uploadId := ⟨uuid 0⟩

def target : TargetRef := ⟨⟨uuid 0⟩, project.opaqueId, tab.opaqueId, pane.opaqueId crates⟩

def phone : SessionAuthorization := ⟨⟨1⟩, ⟨1⟩, "Phone", [.view, .control]⟩

def deviceOf (sessionId : AuthSessionId) : DeviceId := ⟨sessionId.uuid⟩

def acquire : ClientEnvelope := ⟨protocolVersion, ⟨uuid 1⟩, .acquireWriterLease target 0 false⟩

/-- The phone connected, and took the lease of the pane. -/
def controlled : WorkspaceAdapter :=
  ((WorkspaceAdapter.new ⟨uuid 0⟩ 0).step crates desktop 0 (.sessionConnected ⟨1⟩ ⟨1⟩)).step crates
    desktop 0 (.envelope acquire phone)

def lease : WriterLease := ⟨⟨1⟩, ⟨1⟩, "Phone", seconds 30⟩

theorem run_controlled : AdapterRun crates deviceOf controlled := by
  have hconnected : AdapterEvent.Owned deviceOf (.sessionConnected ⟨1⟩ ⟨1⟩) := rfl
  have howned : AdapterEvent.Owned deviceOf (.envelope acquire phone) := rfl
  exact ((AdapterRun.new _ _).step desktop 0 _ hconnected).step desktop 0 _ howned

theorem get_controlled : controlled.writerLeases.get target.key = some lease := by decide

theorem mem_controlled : lease.sessionId ∈ controlled.connectedSessions := by decide

end Sample

theorem controlled_exclusive : AdapterRun Sample.crates Sample.deviceOf Sample.controlled ∧
    ExclusiveControl Sample.crates Sample.deviceOf Sample.controlled :=
  ⟨Sample.run_controlled,
    leases_exclusive Sample.crates Sample.deviceOf Sample.controlled Sample.run_controlled⟩

/-- The shutdown of the remote control takes the lease of a connected session. -/
theorem shutdown_takes_lease : ∃ (c : Crates) (owner : AuthSessionId → DeviceId)
    (a : WorkspaceAdapter) (d : Desktop) (key : TargetKey) (lease : WriterLease),
    AdapterRun c owner a ∧ a.writerLeases.get key = some lease ∧
      lease.sessionId ∈ a.connectedSessions ∧ ¬ Keeps key lease (a.step c d 0 .shutdown) := by
  refine ⟨Sample.crates, Sample.deviceOf, Sample.controlled, Sample.desktop, Sample.target.key,
    Sample.lease, Sample.run_controlled, Sample.get_controlled, Sample.mem_controlled, ?_⟩
  rintro ⟨lease', hl, -⟩
  rw [WorkspaceAdapter.step, WorkspaceAdapter.allSessionsDisconnected,
    (quiet_foldl_restoreDesktopSize _ _ _ _).writerLeases] at hl
  exact nomatch hl

end Clinch
