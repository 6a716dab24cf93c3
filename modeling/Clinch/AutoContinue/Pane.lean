import Clinch.Whitespace

/-!
# A pane that continues when its limit resets

`app/src/terminal/cli_agent_sessions/auto_continue.rs`, with `PlanLimits::exhaustion_status` of
`crates/cli_agent_usage/src/lib.rs`. Of a session only what these functions read is kept; a session
id is its characters, and a plugin version the three numbers that `compare_versions` reads.

* `PlanLimits`, `UsageSnapshot`, `resetForLimitStop`: when a provider's limits reset;
* `CLIAgentSession`, `autoContinueAvailability`, `persistenceKey`: a session;
* `PaneAutoContinue`: the state machine of one pane.

What is armed or waits also says for which usage-limit stop (`stop`), and a pane which of the
entries of its view it is (`entry`). These say what happened before, and no function reads them.
-/

set_option autoImplicit false

namespace Clinch.AutoContinue

/-- In nanoseconds, as all times here. -/
def second : ℤ := 1000000000

/-- `AUTO_CONTINUE_RESET_SLACK_SECS`. -/
def autoContinueResetSlack : ℤ := 60 * second

/-- `AUTO_CONTINUE_RETRY_SECS`. -/
def autoContinueRetry : ℤ := 60 * second

/-- `MAX_DELIVERY_ATTEMPTS`. -/
def maxDeliveryAttempts : ℕ := 3

/-- `CLIAgent`; all but these two are treated alike. -/
inductive CLIAgent
  | claude
  | codex
  | other
deriving DecidableEq

/-! ## Usage -/

/-- `LimitWindow`. -/
structure LimitWindow where
  percent : ℚ
  resetsAt : Option ℤ

/-- `PlanLimits`. -/
structure PlanLimits where
  session : Option LimitWindow
  weekly : Option LimitWindow

/-- `ExhaustionStatus`. -/
inductive ExhaustionStatus
  | notExhausted
  | resetUnknown
  | resetsAt (reset : ℤ)

/-- `exhausted_until`, of a status. -/
def ExhaustionStatus.exhaustedUntil : ExhaustionStatus → Option ℤ
  | .resetsAt reset => some reset
  | .notExhausted | .resetUnknown => none

/-- `UsageSnapshot`: `claude.plan` and `codex.plan`. -/
structure UsageSnapshot where
  claude : Option PlanLimits
  codex : Option PlanLimits

/-- The loop of `exhaustion_status`. -/
def exhaustionLoop : List LimitWindow → Option ℤ → ExhaustionStatus
  | [], latest => latest.elim .notExhausted .resetsAt
  | window :: windows, latest =>
    if 100 ≤ window.percent then
      match window.resetsAt with
      | none => .resetUnknown
      | some resetsAt => exhaustionLoop windows (some (latest.elim resetsAt (max resetsAt)))
    else exhaustionLoop windows latest

namespace PlanLimits

def windows (plan : PlanLimits) : List LimitWindow := plan.session.toList ++ plan.weekly.toList

/-- `exhaustion_status`. -/
def exhaustionStatus (plan : PlanLimits) : ExhaustionStatus := exhaustionLoop plan.windows none

end PlanLimits

/-- `plan_for_agent`. -/
def planForAgent (snapshot : UsageSnapshot) : CLIAgent → Option PlanLimits
  | .claude => snapshot.claude
  | .codex => snapshot.codex
  | .other => none

/-- `exhaustion_for_agent`. -/
def exhaustionForAgent (snapshot : UsageSnapshot) (agent : CLIAgent) : Option ExhaustionStatus :=
  (planForAgent snapshot agent).map PlanLimits.exhaustionStatus

/-- `reset_for_causal_limit_stop`. -/
def resetForCausalLimitStop (snapshot : UsageSnapshot) (agent : CLIAgent) : Option ℤ :=
  match planForAgent snapshot agent with
  | none => none
  | some plan =>
    match plan.exhaustionStatus with
    | .resetsAt reset => some reset
    | .resetUnknown => none
    | .notExhausted =>
      ((plan.windows.filter fun window => 99 ≤ window.percent).filterMap LimitWindow.resetsAt).max?

/-- The resets that `reset_for_limit_stop` compares. -/
def resetsForLimitStop (snapshot : UsageSnapshot) (agent : CLIAgent) (statedReset : Option ℤ) :
    List ℤ := (resetForCausalLimitStop snapshot agent).toList ++ statedReset.toList

/-- `reset_for_limit_stop`. -/
def resetForLimitStop (snapshot : UsageSnapshot) (agent : CLIAgent) (statedReset : Option ℤ) :
    Option ℤ := (resetsForLimitStop snapshot agent statedReset).max?

/-! ## Sessions -/

/-- `CLIAgentSessionStatus`. -/
inductive CLIAgentSessionStatus
  | inProgress
  | success
  | blocked
deriving DecidableEq

/-- `CLIAgentStopReason`, which is a usage limit. -/
structure UsageLimit where
  statedReset : Option ℤ

/-- `CLIAgentSession`. -/
structure CLIAgentSession where
  agent : CLIAgent
  status : CLIAgentSessionStatus
  sessionId : Option (List Char)
  stopReason : Option UsageLimit
  remoteHost : Option (List Char)
  receivedRichNotification : Bool
  pluginVersion : Option (ℕ × ℕ × ℕ)
  hasObservedTurnActivity : Bool

/-- `stated_reset`. -/
def statedReset (stopReason : Option UsageLimit) : Option ℤ :=
  stopReason.bind UsageLimit.statedReset

/-- A session id that is not blank, trimmed. -/
def trimmedId (sessionId : Option (List Char)) : Option (List Char) :=
  (sessionId.map trimChars).filter fun id => !id.isEmpty

/-- What `persistence_key` joins to one string. -/
abbrev Key := CLIAgent × List Char

namespace CLIAgentSession

variable (session : CLIAgentSession)

/-- `persistence_key`. -/
def persistenceKey : Option Key :=
  match session.agent with
  | .other => none
  | agent => (trimmedId session.sessionId).map (agent, ·)

/-- `MINIMUM_PLUGIN_VERSION`. -/
def minimumPluginVersion : CLIAgent → Option (ℕ × ℕ × ℕ)
  | .claude => some (2, 3, 0)
  | .codex => some (0, 5, 0)
  | .other => none

/-- `compare_versions(version, minimum).is_ge()`. -/
def isGe (version minimum : ℕ × ℕ × ℕ) : Bool :=
  minimum.1 < version.1 || (minimum.1 == version.1 && (minimum.2.1 < version.2.1 ||
    (minimum.2.1 == version.2.1 && minimum.2.2 ≤ version.2.2)))

/-- `supports_causal_limit_events`. -/
def supportsCausalLimitEvents : Bool :=
  if !session.receivedRichNotification || (trimmedId session.sessionId).isNone then false
  else
    match minimumPluginVersion session.agent with
    | none => false
    | some minimum => session.pluginVersion.any (isGe · minimum)

/-- Whether `auto_continue_availability` is `Ready`. -/
def isAvailable (isSharedSessionViewer : Bool) : Bool :=
  if isSharedSessionViewer || session.remoteHost.isSome || !session.supportsCausalLimitEvents then
    false
  else session.agent ≠ .other

end CLIAgentSession

/-! ## One pane -/

/-- `ArmedAutoContinue`. -/
structure ArmedAutoContinue where
  fireAt : ℤ
  agent : CLIAgent
  sessionId : Option (List Char)
  generation : ℕ
  deliveryAttempts : ℕ
  restored : Bool
  stop : ℕ
deriving DecidableEq

/-- `PendingUsageConfirmation`. -/
structure PendingUsageConfirmation where
  agent : CLIAgent
  sessionId : Option (List Char)
  stop : ℕ
deriving DecidableEq

/-- `DueFireDecision`. -/
inductive DueFireDecision
  | fire (fired : ArmedAutoContinue)
  | rearmed (armed : ArmedAutoContinue)
  | ignore

/-- `PaneAutoContinue`; whether there was a delivery error stands for its text. -/
structure PaneAutoContinue where
  enabled : Bool
  pendingUsageConfirmation : Option PendingUsageConfirmation
  armed : Option ArmedAutoContinue
  generation : ℕ
  persistenceKey : Option Key
  lastDeliveryError : Bool
  entry : ℕ

namespace PaneAutoContinue

/-- `PaneAutoContinue::default`. -/
def default (entry : ℕ) : PaneAutoContinue where
  enabled := false
  pendingUsageConfirmation := none
  armed := none
  generation := 0
  persistenceKey := none
  lastDeliveryError := false
  entry := entry

variable (self : PaneAutoContinue)

/-- `has_pending_continue`. -/
def hasPendingContinue : Bool := self.pendingUsageConfirmation.isSome || self.armed.isSome

/-- `disarm`, and whether it cancelled anything. -/
def disarm : PaneAutoContinue × Bool :=
  ({ self with
      generation := self.generation + 1
      pendingUsageConfirmation := none
      armed := none
      lastDeliveryError := false },
    self.pendingUsageConfirmation.isSome || self.armed.isSome || self.lastDeliveryError)

/-- `set_enabled`, and whether anything changed. -/
def setEnabled (enabled : Bool) : PaneAutoContinue × Bool :=
  if self.enabled = enabled then (self, false)
  else
    let self := { self with enabled }
    (if !enabled then { self.disarm.1 with lastDeliveryError := false } else self, true)

/-- Replaces what is armed, under the next generation. -/
def rearm (armed : ArmedAutoContinue) : PaneAutoContinue × ArmedAutoContinue :=
  let armed := { armed with generation := self.generation + 1 }
  ({ self with generation := self.generation + 1, armed := some armed }, armed)

/-- `retry_pending_usage_confirmation`. -/
def retryPendingUsageConfirmation (exhaustedUntil : Option ℤ) (now : ℤ) :
    PaneAutoContinue × Option ArmedAutoContinue :=
  if !self.enabled || self.armed.isSome then (self, none)
  else
    match exhaustedUntil with
    | none => (self, none)
    | some until_ =>
      if until_ ≤ now then (self, none)
      else
        match self.pendingUsageConfirmation with
        | none => (self, none)
        | some pending =>
          let (self, armed) :=
            { self with pendingUsageConfirmation := none, lastDeliveryError := false }.rearm
              { fireAt := until_ + autoContinueResetSlack
                agent := pending.agent
                sessionId := pending.sessionId
                generation := 0
                deliveryAttempts := 0
                restored := false
                stop := pending.stop }
          (self, some armed)

/-- `on_agent_session_stopped`. -/
def onAgentSessionStopped (stop : ℕ) (agent : CLIAgent) (sessionId : Option (List Char))
    (exhaustedUntil : Option ℤ) (now : ℤ) : PaneAutoContinue × Option ArmedAutoContinue :=
  if !self.enabled || self.armed.isSome then (self, none)
  else
    match trimmedId sessionId with
    | none => (self, none)
    | some sessionId =>
      { self with
        pendingUsageConfirmation := some { agent, sessionId := some sessionId, stop }
        : PaneAutoContinue }.retryPendingUsageConfirmation exhaustedUntil now

/-- `restore_arm`. -/
def restoreArm (stop : ℕ) (agent : CLIAgent) (sessionId : List Char) (fireAt now : ℤ) :
    PaneAutoContinue × Option ArmedAutoContinue :=
  if !self.enabled || self.armed.isSome then (self, none)
  else
    let (self, armed) := self.rearm
      { fireAt := max fireAt now
        agent
        sessionId := some sessionId
        generation := 0
        deliveryAttempts := 0
        restored := true
        stop }
    (self, some armed)

/-- `reconcile_reset`. -/
def reconcileReset (exhaustedUntil : Option ℤ) (now : ℤ) :
    PaneAutoContinue × Option ArmedAutoContinue :=
  match exhaustedUntil with
  | none => (self, none)
  | some reset =>
    if reset ≤ now then (self, none)
    else
      match self.armed with
      | none => (self, none)
      | some armed =>
        if armed.fireAt = reset + autoContinueResetSlack then (self, none)
        else
          let (self, armed) := self.rearm { armed with fireAt := reset + autoContinueResetSlack }
          (self, some armed)

/-- `armed_for_generation`. -/
def armedForGeneration (generation : ℕ) : Option ArmedAutoContinue :=
  if self.enabled then self.armed.filter fun armed => armed.generation = generation else none

/-- `prepare_due_fire`. -/
def prepareDueFire (generation : ℕ) (exhaustion : Option ExhaustionStatus) (now : ℤ) :
    PaneAutoContinue × DueFireDecision :=
  match self.armedForGeneration generation with
  | none => (self, .ignore)
  | some current =>
    let fired := { self with armed := none, lastDeliveryError := false }
    match exhaustion with
    | some .notExhausted => (fired, .fire current)
    | some (.resetsAt reset) =>
      if reset + autoContinueResetSlack ≤ now then (fired, .fire current)
      else
        let (self, rearmed) := self.rearm { current with fireAt := reset + autoContinueResetSlack }
        (self, .rearmed rearmed)
    | none => (fired, .fire current)
    | some .resetUnknown =>
      let (self, rearmed) := self.rearm { current with fireAt := now + autoContinueRetry }
      (self, .rearmed rearmed)

/-- `rearm_after_delivery_failure`. -/
def rearmAfterDeliveryFailure (fired : ArmedAutoContinue) (now : ℤ) :
    PaneAutoContinue × Option ArmedAutoContinue :=
  let self := { self with lastDeliveryError := true }
  if !self.enabled || maxDeliveryAttempts ≤ fired.deliveryAttempts then
    ({ self with armed := none }, none)
  else
    let (self, armed) := self.rearm
      { fired with
        deliveryAttempts := fired.deliveryAttempts + 1
        fireAt := now + autoContinueRetry }
    (self, some armed)

end PaneAutoContinue

end Clinch.AutoContinue
