import Mathlib

/-!
# The queue that restores agents

`app/src/terminal/cli_agent_sessions/restore.rs`, with what it reads and changes of a terminal view
(`app/src/terminal/view.rs`, `app/src/terminal/view/use_agent_footer/mod.rs`). A time is in
milliseconds, and a tick happens at one time.

* `View`, `Unavailable`: a terminal view; what its session, screen and shell say are `Readings`;
* `RestoreEntry`, `AgentRestoreQueue`: the queue;
* `continueStep`, `continueTurn`, `watchStart`, `observe`: one entry in the first loop of a tick;
* `startLoop`, `tick`: the second loop, and whether to tick again;
* `enqueue`, `retryStalled`, `recordInterruptedTurns`.
-/

set_option autoImplicit false

namespace Clinch.AgentRestore

/-- Why an agent cannot take a prompt, of `local_control_agent_readiness`. -/
inductive Unavailable
  | noAgent
  | notStarted
  | starting
  | unsupportedProvider
  | remoteSession
  | unknownConversation
  | statusUnavailable
  | submissionPending
  | agentNotWritable
  | interactiveAttentionRequired
  | rateLimited
  | humanInputOrDraft
  | working
  | remoteWriter
deriving DecidableEq

/-- What the session, the screen and the shell of a terminal say. -/
structure Readings (Key : Type) where
  sessionKey : Option Key
  /-- `agent_restore_is_ready`. -/
  ready : Bool
  agentCommandStalled : Bool
  unavailable : Option Unavailable
  composerIsEmpty : Bool
  /-- What the cancellation of the pending command would answer. -/
  cancels : Bool

/-- `TerminalView`. -/
structure View (Key : Type) extends Readings Key where
  /-- A start is waiting in `deferred_agent_start`. -/
  deferredAgentStart : Bool
  backgroundAgentRestore : Bool
  /-- `coordination_user_input_epoch`. -/
  userInputEpoch : ℕ

/-- `RestoreState`. -/
inductive RestoreState
  | queued
  | starting
  | restored
  | attention (reason : String)
  | closed
deriving DecidableEq

/-- `ContinueStep`. -/
inductive ContinueStep
  | wait
  | send
  | finished
  | giveUp
deriving DecidableEq

/-- `RestoreEntry`; the two commands are closures, of which the first one is called at most once. -/
structure RestoreEntry (Id Uuid Key : Type) where
  terminal : Id
  paneUuid : Uuid
  key : Key
  state : RestoreState
  startedAt : Option ℕ
  cancelPendingCommand : Bool
  retrying : Bool
  continuePending : Bool
  restoredAt : Option ℕ

/-- `AgentRestoreQueue`. -/
structure AgentRestoreQueue (Id Uuid Key : Type) where
  entries : List (RestoreEntry Id Uuid Key)
  ticking : Bool
  completedAt : Option ℕ
  unclaimedInterruptedPanes : Finset Uuid
  lastRecordedPanes : Option (Finset Uuid)

/-- What is seen from outside. -/
inductive Effect (Id Uuid : Type)
  /-- The tab was closed, or the user typed in it. -/
  | closed (terminal : Id)
  | typed (terminal : Id)
  /-- A start was deferred to the queue, a first time or again. -/
  | enqueued (terminal : Id)
  | retried (terminal : Id)
  /-- The deferred command was released. -/
  | released (terminal : Id)
  /-- The pane was recorded as mid-turn, and this tab restores it. -/
  | claimed (terminal : Id) (paneUuid : Uuid)
  /-- The prompt to continue was sent, or why it no longer is to be sent. -/
  | sent (terminal : Id) (paneUuid : Uuid)
  | finished (terminal : Id) (paneUuid : Uuid) (unavailable : Option Unavailable) (userTyped : Bool)
  | gaveUp (terminal : Id) (paneUuid : Uuid)
  /-- The panes that a restart would cut off. -/
  | recorded (panes : Finset Uuid) (written : Bool)
deriving DecidableEq

/-- `CONCURRENT_STARTS`. -/
def concurrentStarts : ℕ := 2

/-- `START_TIMEOUT`. -/
def startTimeout : ℕ := 90000

/-- `CONTINUE_SETTLE`. -/
def continueSettle : ℕ := 3000

/-- `CONTINUE_TIMEOUT`. -/
def continueTimeout : ℕ := 180000

/-- `CONTINUE_FAILED_LABEL`. -/
def continueFailedLabel : String := "Was running but couldn't continue — check this tab"

/-- `DID_NOT_START_LABEL`. -/
def didNotStartLabel : String := "The shell didn't start this — it may be waiting for input"

/-- `continue_step`. -/
def continueStep (unavailable : Option Unavailable) (composerIsEmpty userTyped : Bool)
    (elapsed : ℕ) : ContinueStep :=
  let timedOut := continueTimeout ≤ elapsed
  if userTyped then .finished
  else if unavailable = some .humanInputOrDraft then .finished
  else if unavailable = some .working ∧ timedOut then .finished
  else if unavailable = none ∧ composerIsEmpty ∧ continueSettle ≤ elapsed then .send
  else if timedOut then .giveUp
  else .wait

variable {Id Uuid Key : Type} [DecidableEq Id] [DecidableEq Uuid] [DecidableEq Key]

/-- The terminals, by their id; a closed one has no view. -/
abbrev Views (Id Key : Type) := Id → Option (View Key)

/-- `terminal.update`, of a terminal that may be closed. -/
def mapView (views : Views Id Key) (terminal : Id) (f : View Key → View Key) : Views Id Key :=
  Function.update views terminal ((views terminal).map f)

namespace View

/-- `agent_restore_has_user_input`. -/
def hasUserInput (view : View Key) : Bool := view.userInputEpoch ≠ 0

/-- `local_control_send_agent_text` with the revision that was just read. -/
def sendAgentText (view : View Key) : Bool × View Key :=
  if view.unavailable.isSome then (false, view)
  else (true, { view with unavailable := some .submissionPending })

/-- `manage_agent_restore_in_background`. -/
def manageAgentRestoreInBackground (view : View Key) : View Key :=
  { view with backgroundAgentRestore := true }

/-- `release_deferred_agent`. -/
def releaseDeferredAgent (view : View Key) : Bool × View Key :=
  (view.deferredAgentStart, { view with deferredAgentStart := false })

/-- `start_deferred_agent`. -/
def startDeferredAgent (view : View Key) : Bool × View Key :=
  if view.backgroundAgentRestore then (false, view) else view.releaseDeferredAgent

end View

namespace RestoreEntry

/-- Flags the tab and cancels a command that is still pending. -/
def flag (entry : RestoreEntry Id Uuid Key) (reason : String) : RestoreEntry Id Uuid Key :=
  { entry with state := .attention reason, cancelPendingCommand := false }

/-- `continue_turn`. -/
def continueTurn (now : ℕ) (view : View Key) (entry : RestoreEntry Id Uuid Key) :
    RestoreEntry Id Uuid Key × View Key × List (Effect Id Uuid) :=
  let restoredAt := entry.restoredAt.getD now
  let entry := { entry with restoredAt := some restoredAt }
  match continueStep view.unavailable view.composerIsEmpty view.hasUserInput (now - restoredAt) with
  | .wait => (entry, view, [])
  | .send =>
    let (sent, view) := view.sendAgentText
    ({ entry with continuePending := !sent }, view,
      if sent then [.sent entry.terminal entry.paneUuid] else [])
  | .finished =>
    ({ entry with continuePending := false }, view,
      [.finished entry.terminal entry.paneUuid view.unavailable view.hasUserInput])
  | .giveUp =>
    ({ entry with continuePending := false, state := .attention continueFailedLabel }, view,
      [.gaveUp entry.terminal entry.paneUuid])

/-- A flagged tab whose agent is up. -/
def recover (view : View Key) (entry : RestoreEntry Id Uuid Key) : RestoreEntry Id Uuid Key :=
  match entry.state with
  | .attention reason =>
    if reason ≠ continueFailedLabel ∧ view.ready then
      { entry with state := .restored, cancelPendingCommand := false }
    else entry
  | _ => entry

/-- An entry that is starting. -/
def watchStart (now : ℕ) (view : View Key) (entry : RestoreEntry Id Uuid Key) :
    RestoreEntry Id Uuid Key :=
  if view.ready then { entry with state := .restored, cancelPendingCommand := false }
  else if view.agentCommandStalled then entry.flag didNotStartLabel
  else if view.sessionKey ≠ some entry.key then entry.flag "Restore stopped — check this tab"
  else
    let cancelled := view.hasUserInput && entry.cancelPendingCommand && view.cancels
    let entry :=
      if view.hasUserInput then { entry with cancelPendingCommand := false } else entry
    if cancelled then entry.flag "Restore paused — input changed in this tab"
    else if entry.startedAt.any fun started => startTimeout ≤ now - started then
      entry.flag "Restore timed out — check this tab"
    else entry

/-- One entry in the first loop of `tick`. -/
def observe (now : ℕ) (view : Option (View Key)) (entry : RestoreEntry Id Uuid Key) :
    RestoreEntry Id Uuid Key × Option (View Key) × List (Effect Id Uuid) :=
  match view with
  | none => ({ entry with state := .closed, continuePending := false }, none, [])
  | some view =>
    let entry := entry.recover view
    let entry := if entry.state = .starting then entry.watchStart now view else entry
    if entry.state = .restored ∧ entry.continuePending then
      let (entry, view, effects) := entry.continueTurn now view
      (entry, some view, effects)
    else (entry, some view, [])

/-- One queued entry in the second loop of `tick`. -/
def start (now : ℕ) (view : View Key) (entry : RestoreEntry Id Uuid Key) :
    RestoreEntry Id Uuid Key × View Key × List (Effect Id Uuid) :=
  if (!entry.retrying && view.hasUserInput) = true ∨ view.sessionKey ≠ some entry.key then
    (entry.flag "Restore paused — input changed in this tab", view, [])
  else
    let (released, view) := view.releaseDeferredAgent
    if released then
      ({ entry with state := .starting, startedAt := some now }, view, [.released entry.terminal])
    else ({ entry with state := .attention "Restore could not start — check this tab" }, view, [])

/-- The entry keeps the queue ticking. -/
def busy (entry : RestoreEntry Id Uuid Key) : Bool :=
  entry.state = .queued ∨ entry.state = .starting ∨ (entry.state = .restored ∧ entry.continuePending)

/-- The tab is flagged. -/
def flagged (entry : RestoreEntry Id Uuid Key) : Bool :=
  match entry.state with
  | .attention _ => true
  | _ => false

end RestoreEntry

/-- The first loop of `tick`. -/
def observeAll (now : ℕ) : List (RestoreEntry Id Uuid Key) → Views Id Key →
    List (RestoreEntry Id Uuid Key) × Views Id Key × List (Effect Id Uuid)
  | [], views => ([], views, [])
  | entry :: entries, views =>
    let (entry', view, effects) := entry.observe now (views entry.terminal)
    let (entries, views, effects') := observeAll now entries
      (Function.update views entry.terminal view)
    (entry' :: entries, views, effects ++ effects')

/-- The second loop of `tick`, over the entries at some indices. -/
def startLoop (now : ℕ) : List ℕ → ℕ → List (RestoreEntry Id Uuid Key) → Views Id Key →
    List (RestoreEntry Id Uuid Key) × Views Id Key × List (Effect Id Uuid)
  | [], _, entries, views => (entries, views, [])
  | index :: order, available, entries, views =>
    if available = 0 then (entries, views, [])
    else
      match entries[index]? with
      | none => startLoop now order available entries views
      | some entry =>
        if entry.state ≠ .queued then startLoop now order available entries views
        else
          match views entry.terminal with
          | none => startLoop now order available entries views
          | some view =>
            let (entry', view, effects) := entry.start now view
            let available := if entry'.state = .starting then available - 1 else available
            let (entries, views, effects') := startLoop now order available
              (entries.set index entry') (Function.update views entry.terminal (some view))
            (entries, views, effects ++ effects')

/-- What was running comes first, in the order of the entries. -/
def startOrder (entries : List (RestoreEntry Id Uuid Key)) : List ℕ :=
  let indices := List.range entries.length
  let continues := fun index => (entries[index]?).any RestoreEntry.continuePending
  indices.filter continues ++ indices.filter fun index => !continues index

/-- How many entries are starting. -/
def startingCount (entries : List (RestoreEntry Id Uuid Key)) : ℕ :=
  entries.countP fun entry => entry.state = .starting

namespace AgentRestoreQueue

/-- `tick`, and whether it schedules another one. -/
def tick (now : ℕ) (self : AgentRestoreQueue Id Uuid Key) (views : Views Id Key) :
    AgentRestoreQueue Id Uuid Key × Views Id Key × List (Effect Id Uuid) × Bool :=
  let (entries, views, effects) := observeAll now self.entries views
  let (entries, views, effects') := startLoop now (startOrder entries)
    (concurrentStarts - startingCount entries) entries views
  let busy := entries.any RestoreEntry.busy
  let completedAt :=
    if !busy && self.completedAt.isNone then some now else self.completedAt
  let settled := entries.all fun entry => entry.state = .restored ∨ entry.state = .closed
  let ticking :=
    if !busy && settled then completedAt.any fun completed => now - completed < 5000 else busy
  -- a flagged tab is checked again, after a longer interval
  let scheduled := ticking || entries.any RestoreEntry.flagged
  ({ self with entries, completedAt, ticking := scheduled }, views, effects ++ effects', scheduled)

/-- The queue ticks from now on; whether that schedules a tick. -/
def wake (self : AgentRestoreQueue Id Uuid Key) : AgentRestoreQueue Id Uuid Key × Bool :=
  ({ self with ticking := true }, !self.ticking)

/-- The entry that `enqueue` adds. A second writer of the same conversation is never started
automatically. -/
def newEntry (self : AgentRestoreQueue Id Uuid Key) (views : Views Id Key) (terminal : Id)
    (paneUuid : Uuid) (key : Key) : RestoreEntry Id Uuid Key :=
  let duplicate := self.entries.any fun entry => entry.key = key ∧ (views entry.terminal).isSome
  { terminal, paneUuid, key
    state := if duplicate then .attention "Already restoring in another tab" else .queued
    startedAt := none
    cancelPendingCommand := true
    retrying := false
    continuePending := paneUuid ∈ self.unclaimedInterruptedPanes
    restoredAt := none }

/-- `enqueue`, of a terminal that is open. -/
def enqueue (self : AgentRestoreQueue Id Uuid Key) (views : Views Id Key) (terminal : Id)
    (paneUuid : Uuid) (key : Key) :
    AgentRestoreQueue Id Uuid Key × Views Id Key × List (Effect Id Uuid) × Bool :=
  if self.entries.any fun entry => entry.terminal = terminal then (self, views, [], false)
  else
    let views' := mapView views terminal View.manageAgentRestoreInBackground
    let entry := self.newEntry views terminal paneUuid key
    let (queue, scheduled) :=
      { self with
        entries := self.entries ++ [entry]
        unclaimedInterruptedPanes := self.unclaimedInterruptedPanes.erase paneUuid
        completedAt := none : AgentRestoreQueue Id Uuid Key }.wake
    (queue, views',
      .enqueued terminal :: if entry.continuePending then [.claimed terminal paneUuid] else [],
      scheduled)

/-- One entry of `retry_stalled`. -/
def retryEntry (views : Views Id Key) (entry : RestoreEntry Id Uuid Key) :
    RestoreEntry Id Uuid Key × Views Id Key × List (Effect Id Uuid) :=
  if entry.state ≠ .attention didNotStartLabel then (entry, views, [])
  else
    match views entry.terminal with
    | none => (entry, views, [])
    | some view =>
      ({ entry with state := .queued, startedAt := none, retrying := true },
        Function.update views entry.terminal
          (some { view with agentCommandStalled := false, deferredAgentStart := true }),
        [.retried entry.terminal])

/-- The loop of `retry_stalled`. -/
def retryAll : List (RestoreEntry Id Uuid Key) → Views Id Key →
    List (RestoreEntry Id Uuid Key) × Views Id Key × List (Effect Id Uuid)
  | [], views => ([], views, [])
  | entry :: entries, views =>
    let (entry, views, effects) := retryEntry views entry
    let (entries, views, effects') := retryAll entries views
    (entry :: entries, views, effects ++ effects')

/-- `retry_stalled`. -/
def retryStalled (self : AgentRestoreQueue Id Uuid Key) (views : Views Id Key) :
    AgentRestoreQueue Id Uuid Key × Views Id Key × List (Effect Id Uuid) × Bool :=
  let (entries, views, effects) := retryAll self.entries views
  let (self, scheduled) :=
    { self with entries, completedAt := none : AgentRestoreQueue Id Uuid Key }.wake
  (self, views, effects, scheduled)

/-- The panes of `record_interrupted_turns`, besides those that are mid-turn. -/
def continuingPanes (self : AgentRestoreQueue Id Uuid Key) : Finset Uuid :=
  ((self.entries.filter RestoreEntry.continuePending).map RestoreEntry.paneUuid).toFinset

/-- `record_interrupted_turns`, when a restart would cut off the panes `midTurn`. -/
def recordInterruptedTurns (self : AgentRestoreQueue Id Uuid Key) (quitting : Bool)
    (midTurn : Finset Uuid) : AgentRestoreQueue Id Uuid Key × List (Effect Id Uuid) :=
  let panes := midTurn ∪ self.continuingPanes
  let written : Bool := quitting ∨ self.lastRecordedPanes ≠ some panes
  ({ self with
      unclaimedInterruptedPanes := ∅
      lastRecordedPanes := if written then some panes else self.lastRecordedPanes },
    [.recorded panes written])

/-- The subscriber to session events; whether it schedules a tick. -/
def onSessionEvent (self : AgentRestoreQueue Id Uuid Key) (terminal : Id) :
    AgentRestoreQueue Id Uuid Key × Bool :=
  if !self.ticking && self.entries.any fun entry => entry.terminal = terminal ∧ entry.flagged then
    self.wake
  else (self, false)

end AgentRestoreQueue

end Clinch.AgentRestore
