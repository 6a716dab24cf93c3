import Clinch.AutoContinue.Pane

/-!
# The panes that continue, and what happens to them

`AutoContinueModel` of `app/src/terminal/cli_agent_sessions/auto_continue.rs`, and
`app/src/terminal/view/auto_continue.rs`. A handler that visits several panes is one event a pane,
in whatever order they come. A submission that fails is an event of its own, at any later time.

* `State`: the model with what it reads and writes, and the history of the stops;
* `restorePaneState`, `armIfExhausted`, `prepareDueFire`, `recordDeliveryFailure`, the other methods
  under their names in the source;
* `Event`, `State.act`, `State.acts`: what can happen.
-/

set_option autoImplicit false

namespace Clinch.AutoContinue

/-- An entry of `auto_continue_armed_sessions`. -/
structure PersistedArm where
  /-- In whole seconds. -/
  timestamp : ℤ
  stop : ℕ

/-- A timer of a view, for what was armed in one entry of its pane. -/
structure Timer (View : Type) where
  view : View
  fireAt : ℤ
  generation : ℕ
  entry : ℕ

/-- The history of a usage-limit stop. -/
structure Stop (View : Type) where
  /-- Where it is armed or was last armed. -/
  view : View
  agent : CLIAgent
  sessionId : Option (List Char)
  statedReset : Option ℤ
  /-- What was told of its reset, by the stop or the usage data. -/
  resets : List ℤ
  /-- The user or the agent was active since, the pane was disabled or its session replaced. -/
  cancelled : Bool
  /-- How many continues were released for it, and how many of these failed. -/
  released : ℕ
  failed : ℕ

/-- A stop that has just come. -/
def Stop.new {View : Type} (view : View) (agent : CLIAgent) (sessionId : Option (List Char))
    (statedReset : Option ℤ) (resets : List ℤ) : Stop View :=
  { view, agent, sessionId, statedReset, resets
    cancelled := false
    released := 0
    failed := 0 }

/-- A continue that was released, in answer to a timer. -/
structure Release (View : Type) where
  timer : Timer View
  fired : ArmedAutoContinue

/-- `AutoContinueModel`, the settings and models it uses, the timers of the views, and the
history. -/
structure State (View : Type) where
  now : ℤ
  usage : UsageSnapshot
  sessions : View → Option CLIAgentSession
  autoContinueOnLimitReset : Bool
  autoContinueSessionOverrides : Key → Option Bool
  autoContinueArmedSessions : Key → Option PersistedArm
  panes : View → Option PaneAutoContinue
  timers : List (Timer View)
  /-- The releases that were not reported to have failed. -/
  released : List (View × ArmedAutoContinue)
  stops : List (Stop View)
  entries : ℕ

variable {View : Type} [DecidableEq View]

namespace State

variable (self : State View)

/-! ## The history -/

/-- Changes the history of one stop. -/
def modifyStop (stop : ℕ) (f : Stop View → Stop View) : State View :=
  { self with stops := self.stops.modify stop f }

/-- A usage-limit stop comes. -/
def recordStop (view : View) (agent : CLIAgent) (sessionId : Option (List Char))
    (statedReset : Option ℤ) : State View :=
  { self with stops := self.stops ++ [.new view agent sessionId statedReset
      (resetsForLimitStop self.usage agent statedReset)] }

/-- The stops of a view are cancelled. -/
def cancelStops (view : View) (which : Stop View → Bool) : State View :=
  { self with
    stops := self.stops.map fun stop =>
      if stop.view = view ∧ which stop then { stop with cancelled := true } else stop }

/-! ## The model -/

def setSession (view : View) (session : Option CLIAgentSession) : State View :=
  { self with sessions := Function.update self.sessions view session }

def setPane (view : View) (pane : Option PaneAutoContinue) : State View :=
  { self with panes := Function.update self.panes view pane }

/-- `panes.entry(view).or_default()`. -/
def entryOrDefault (view : View) : State View × PaneAutoContinue :=
  match self.panes view with
  | some pane => (self, pane)
  | none =>
    let pane := PaneAutoContinue.default self.entries
    let self := { self with entries := self.entries + 1 }
    (self.setPane view (some pane), pane)

/-- `is_enabled`. -/
def isEnabled (view : View) : Bool := (self.panes view).any PaneAutoContinue.enabled

/-- `availability(..).may_enable()`. -/
def availability (view : View) (isSharedSessionViewer : Bool) : Bool :=
  (self.sessions view).any (·.isAvailable isSharedSessionViewer)

/-- The persistence key of the session of a view. -/
def sessionKey (view : View) : Option Key :=
  (self.sessions view).bind CLIAgentSession.persistenceKey

/-- `effective_enabled`. -/
def effectiveEnabled (key : Option Key) : Bool :=
  (key.bind self.autoContinueSessionOverrides).getD self.autoContinueOnLimitReset

/-- `set_persisted_arm`, under a key that a pane may have. -/
def setPersistedArm (key : Option Key) (armed : Option ArmedAutoContinue) : State View :=
  match key with
  | none => self
  | some key =>
    { self with
      autoContinueArmedSessions := Function.update self.autoContinueArmedSessions key
        (armed.map fun armed => ⟨armed.fireAt / second, armed.stop⟩) }

/-- `set_persisted_override`. -/
def setPersistedOverride (key : Key) (enabled : Bool) : State View :=
  { self with
    autoContinueSessionOverrides := Function.update self.autoContinueSessionOverrides key
      (if enabled = self.autoContinueOnLimitReset then none else some enabled) }

/-- The event `Armed`, for which the view schedules a timer. -/
def scheduleTimer (view : View) (entry : ℕ) (armed : ArmedAutoContinue) : State View :=
  { self with timers := self.timers ++ [⟨view, armed.fireAt, armed.generation, entry⟩] }

/-- A pane that armed: its arm is persisted and a timer scheduled. -/
def putArmed (view : View) (pane : PaneAutoContinue) (armed : ArmedAutoContinue) : State View :=
  ((self.setPane view (some pane)).setPersistedArm pane.persistenceKey (some armed)).scheduleTimer
    view pane.entry armed

/-- `disarm`. -/
def disarm (view : View) : State View :=
  match self.panes view with
  | none => self
  | some pane =>
    let (pane, cancelled) := pane.disarm
    let self := self.setPane view (some pane)
    if cancelled then self.setPersistedArm pane.persistenceKey none else self

/-- `disable`. -/
def disable (view : View) : State View :=
  let disabled := match self.panes view with
    | none => self
    | some pane =>
      (self.setPane view (some (pane.setEnabled false).1)).setPersistedArm pane.persistenceKey none
  disabled.cancelStops view fun _ => true

/-- `arm_if_exhausted` of a view that has a pane, once it may be armed. -/
def armStopped (view : View) (stop : ℕ) (agent : CLIAgent) (sessionId : Option (List Char))
    (statedReset : Option ℤ) : State View :=
  match self.panes view with
  | none => self
  | some pane =>
    let (pane, armed) := pane.onAgentSessionStopped stop agent sessionId
      (resetForLimitStop self.usage agent statedReset) self.now
    match armed with
    | none => self.setPane view (some pane)
    | some armed => self.putArmed view pane armed

/-- `try_arm_for_already_stopped_session`, of a view that has a pane. Unless the stop has just come,
the pane is told of it again. -/
def tryArmForAlreadyStoppedSession (view : View) (stop : Option ℕ) : State View :=
  match self.sessions view with
  | none => self
  | some session =>
    if !self.availability view false || session.status ≠ .success then self
    else if session.stopReason.isSome then
      match stop with
      | some stop =>
        self.armStopped view stop session.agent session.sessionId (statedReset session.stopReason)
      | none =>
        (self.recordStop view session.agent session.sessionId (statedReset session.stopReason))
          |>.armStopped view self.stops.length session.agent session.sessionId
            (statedReset session.stopReason)
    else self

/-- What `restore_pane_state` restores the pane of, if it does. -/
def restorable (view : View) : Option (Key × CLIAgent × List Char) :=
  match self.sessions view with
  | none => none
  | some session =>
    match session.persistenceKey, session.sessionId with
    | some key, some sessionId =>
      if !self.availability view false || !self.effectiveEnabled (some key) then none
      else some (key, session.agent, sessionId)
    | _, _ => none

/-- `restore_pane_state`. -/
def restorePaneState (view : View) (stop : Option ℕ) : State View :=
  match self.restorable view with
  | none => self
  | some (key, agent, sessionId) =>
    let persisted := self.autoContinueArmedSessions key
    let (self, pane) := self.entryOrDefault view
    let (pane, newlyEnabled) := { pane with persistenceKey := some key }.setEnabled true
    let self := self.setPane view (some pane)
    let restored := persisted.bind fun persisted =>
      let (pane, armed) := pane.restoreArm persisted.stop agent sessionId
        (persisted.timestamp * second) self.now
      armed.map (pane, ·)
    match restored with
    | some (pane, armed) =>
      let self := self.modifyStop armed.stop fun stop => { stop with view }
      (self.setPane view (some pane)).scheduleTimer view pane.entry armed
    | none => if newlyEnabled then self.tryArmForAlreadyStoppedSession view stop else self

/-- `arm_if_exhausted`. -/
def armIfExhausted (view : View) (stop : ℕ) (agent : CLIAgent) (sessionId : Option (List Char))
    (statedReset : Option ℤ) : State View :=
  if !self.availability view false then self.disarm view
  else
    let self := if (self.panes view).isNone then self.restorePaneState view (some stop) else self
    self.armStopped view stop agent sessionId statedReset

/-- `enable`. -/
def enable (view : View) (key : Option Key) : State View :=
  let (self, pane) := self.entryOrDefault view
  let (pane, changed) := { pane with persistenceKey := key }.setEnabled true
  let self := self.setPane view (some pane)
  if changed then self.tryArmForAlreadyStoppedSession view none else self

/-- `toggle`. -/
def toggle (view : View) : State View :=
  let key := self.sessionKey view
  if self.isEnabled view then
    let self := self.disable view
    match key with
    | none => self
    | some key => self.setPersistedOverride key false
  else if !self.availability view false then self
  else
    let self := match key with
      | none => self
      | some key => self.setPersistedOverride key true
    self.enable view key

/-- One pane of `sync_all_panes_with_settings`. -/
def syncPaneWithSettings (view : View) : State View :=
  let shouldEnable := self.effectiveEnabled (self.sessionKey view)
  if shouldEnable && !self.isEnabled view then self.restorePaneState view none
  else if !shouldEnable && self.isEnabled view then self.disable view
  else self

/-- `prepare_due_fire`, and what it releases. -/
def prepareDueFire (view : View) (generation : ℕ) : State View × Option ArmedAutoContinue :=
  match self.panes view with
  | none => (self, none)
  | some pane =>
    match pane.armedForGeneration generation with
    | none => (self, none)
    | some expected =>
      let (pane, decision) := pane.prepareDueFire generation
        (exhaustionForAgent self.usage expected.agent) self.now
      match decision with
      | .fire fired =>
        let self := self.modifyStop fired.stop fun stop =>
          { stop with released := stop.released + 1 }
        let self := { self with released := self.released ++ [(view, fired)] }
        ((self.setPane view (some pane)).setPersistedArm pane.persistenceKey none, some fired)
      | .rearmed armed => (self.putArmed view pane armed, none)
      | .ignore => (self, none)

/-- `record_delivery_failure`. -/
def recordDeliveryFailure (view : View) (fired : ArmedAutoContinue) : State View :=
  match self.panes view with
  | none => self
  | some pane =>
    let (pane, armed) := pane.rearmAfterDeliveryFailure fired self.now
    match armed with
    | some armed => self.putArmed view pane armed
    | none => (self.setPane view (some pane)).setPersistedArm pane.persistenceKey none

/-- One pane of `retry_pending_usage_confirmations`. -/
def retryPendingUsageConfirmation (view : View) : State View :=
  match self.panes view, self.sessions view with
  | some pane, some session =>
    if !pane.enabled then self
    else if !self.availability view false then self.disarm view
    else
      let exhaustedUntil :=
        (exhaustionForAgent self.usage session.agent).bind ExhaustionStatus.exhaustedUntil
      let reset := if pane.armed.isSome then exhaustedUntil
        else resetForLimitStop self.usage session.agent none
      let (pane, armed) :=
        if pane.armed.isSome then pane.reconcileReset reset self.now
        else pane.retryPendingUsageConfirmation reset self.now
      match armed with
      | none => self
      | some armed =>
        let self := self.modifyStop armed.stop fun stop =>
          { stop with resets := stop.resets ++ reset.toList }
        self.putArmed view pane armed
  | _, _ => self

/-! ## The view -/

/-- `toggle_auto_continue_on_limit_reset`. -/
def toggleAutoContinueOnLimitReset (view : View) (isSharedSessionViewer : Bool) : State View :=
  if self.isEnabled view || self.availability view isSharedSessionViewer then self.toggle view
  else self.disable view

/-- `cancel_auto_continue_on_user_input`. -/
def cancelAutoContinueOnUserInput (view : View) : State View :=
  (if (self.panes view).any PaneAutoContinue.hasPendingContinue then self.disarm view else self)
    |>.cancelStops view fun _ => true

/-- The live session is the one that is expected, and it is stopped. -/
def sessionMatches (view : View) (expected : ArmedAutoContinue) : Bool :=
  (self.sessions view).any fun session =>
    session.agent = expected.agent ∧
      (session.status = .success ∨ (expected.restored ∧ !session.hasObservedTurnActivity)) ∧
      session.sessionId = expected.sessionId

/-- `fire_auto_continue_if_still_armed`, and what it releases. -/
def fireAutoContinueIfStillArmed (view : View) (generation : ℕ)
    (isSharedSessionViewer agentStillForeground : Bool) : State View × Option ArmedAutoContinue :=
  if !self.availability view isSharedSessionViewer then (self.disarm view, none)
  else
    match (self.panes view).bind (·.armedForGeneration generation) with
    | none => (self, none)
    | some expected =>
      if !self.sessionMatches view expected then (self.disarm view, none)
      else if !agentStillForeground then (self.recordDeliveryFailure view expected, none)
      else self.prepareDueFire view generation

/-- A timer fires, and one that is not due goes on if what it is for is still armed. -/
def timerFires (index : ℕ) (isSharedSessionViewer agentStillForeground : Bool) :
    State View × Option (Release View) :=
  match self.timers[index]? with
  | none => (self, none)
  | some timer =>
    if self.now < timer.fireAt then
      if ((self.panes timer.view).bind (·.armedForGeneration timer.generation)).isSome then
        (self, none)
      else ({ self with timers := self.timers.eraseIdx index }, none)
    else
      let (self, fired) := { self with timers := self.timers.eraseIdx index
        : State View }.fireAutoContinueIfStillArmed timer.view timer.generation
          isSharedSessionViewer agentStillForeground
      (self, fired.map (⟨timer, ·⟩))

/-! ## The events -/

/-- Another session takes the view, whose pane is removed. -/
def sessionReplaced (view : View) (session : CLIAgentSession) : State View :=
  ((self.setSession view (some session)).setPane view none).cancelStops view fun stop =>
    stop.agent ≠ session.agent ∨
      stop.sessionId.map trimChars ≠ session.sessionId.map trimChars

/-- `Started`. -/
def sessionStarted (view : View) (session : CLIAgentSession) : State View :=
  (self.sessionReplaced view session).restorePaneState view none

/-- `Ended`. -/
def sessionEnded (view : View) : State View := (self.setSession view none).setPane view none

/-- `SessionUpdated`. -/
def sessionUpdated (view : View) (session : CLIAgentSession) : State View :=
  (self.setSession view (some session)).restorePaneState view none

/-- The status says that a supported session stopped at its usage limit. -/
def isLimitStop (session : CLIAgentSession) : Bool :=
  session.status = .success ∧ session.agent ≠ .other ∧ session.stopReason.isSome

/-- The session of a view changed, and it stopped at its usage limit. -/
def limitStop (view : View) (session : CLIAgentSession) : State View :=
  (self.setSession view (some session)).recordStop view session.agent session.sessionId
    (statedReset session.stopReason)

/-- `StatusChanged`. -/
def statusChanged (view : View) (session : CLIAgentSession) : State View :=
  if isLimitStop session then
    (self.limitStop view session).armIfExhausted view self.stops.length session.agent
      session.sessionId (statedReset session.stopReason)
  else ((self.setSession view (some session)).disarm view).cancelStops view fun _ => true

/-- A submission that was released turns out to have failed. -/
def deliveryFails (index : ℕ) : State View :=
  match self.released[index]? with
  | none => self
  | some (view, fired) =>
    let self := { self with released := self.released.eraseIdx index }
    (self.modifyStop fired.stop fun stop => { stop with failed := stop.failed + 1 })
      |>.recordDeliveryFailure view fired

end State

inductive Event (View : Type)
  | elapse (duration : ℕ)
  | sessionStarted (view : View) (session : CLIAgentSession)
  | sessionEnded (view : View)
  | sessionUpdated (view : View) (session : CLIAgentSession)
  | statusChanged (view : View) (session : CLIAgentSession)
  | usageRefreshed (usage : UsageSnapshot)
  | retryPendingUsageConfirmation (view : View)
  | settingsChanged (default : Bool) (overrides : Key → Option Bool)
  | syncPaneWithSettings (view : View)
  | toggle (view : View) (isSharedSessionViewer : Bool)
  | disable (view : View)
  | userInput (view : View)
  | timerFires (index : ℕ) (isSharedSessionViewer agentStillForeground : Bool)
  | deliveryFails (index : ℕ)

namespace State

variable (self : State View)

/-- What an event does, and what it releases. -/
def act : Event View → State View × Option (Release View)
  | .elapse duration => ({ self with now := self.now + duration }, none)
  | .sessionStarted view session => (self.sessionStarted view session, none)
  | .sessionEnded view => (self.sessionEnded view, none)
  | .sessionUpdated view session => (self.sessionUpdated view session, none)
  | .statusChanged view session => (self.statusChanged view session, none)
  | .usageRefreshed usage => ({ self with usage }, none)
  | .retryPendingUsageConfirmation view => (self.retryPendingUsageConfirmation view, none)
  | .settingsChanged default overrides =>
    ({ self with
        autoContinueOnLimitReset := default
        autoContinueSessionOverrides := overrides }, none)
  | .syncPaneWithSettings view => (self.syncPaneWithSettings view, none)
  | .toggle view viewer => (self.toggleAutoContinueOnLimitReset view viewer, none)
  | .disable view => (self.disable view, none)
  | .userInput view => (self.cancelAutoContinueOnUserInput view, none)
  | .timerFires index viewer foreground => self.timerFires index viewer foreground
  | .deliveryFails index => (self.deliveryFails index, none)

/-- The state after events, one after the other. -/
def acts : List (Event View) → State View → State View
  | [], self => self
  | event :: events, self => acts events (self.act event).1

end State

end Clinch.AutoContinue
