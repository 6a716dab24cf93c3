import Clinch.AutoCoordinate.Planner
import Clinch.Whitespace

/-!
# Wakeups of the coordinator

`app/src/workspace/view/auto_coordinate.rs`: the state of auto-coordinate and what changes it. What
the code reads of the workspace is a `Workspace`; it can be another one at each event. The timer is
the instant it is set for, so `timer_scheduled` says that there is one.

* `Tactic`, `wakeupText`: the message;
* `Workspace`, `AutoCoordinateState`;
* `noteSession`, `timerFires`, `runCoordinatorNow`, `attempt`, `holdWakeup`.
-/

set_option autoImplicit false

namespace Clinch.AutoCoordinate

/-- `RETRY_INTERVAL`. -/
def retryInterval : ℕ := seconds 10

/-- `MAX_TITLE_CHARS`. -/
def maxTitleChars : ℕ := 60

inductive Tactic
  | watch
  | nameSessions
  | spotConflicts
  | lineUpShipping
  | cleanUp
deriving DecidableEq

namespace Tactic

/-- `Tactic::ALL`. -/
def all : List Tactic := [watch, nameSessions, spotConflicts, lineUpShipping, cleanUp]

def wakeupName : Tactic → String
  | watch => "watch"
  | nameSessions => "name sessions"
  | spotConflicts => "spot conflicts"
  | lineUpShipping => "line up shipping (ask first)"
  | cleanUp => "clean up (ask first)"

end Tactic

/-- `char::is_control`. -/
def isControl (c : Char) : Bool := c.toNat < 32 || (127 ≤ c.toNat && c.toNat < 160)

def quotedTitle (title : String) : String :=
  let words := title.toList.splitOnP (fun c => isWhitespace c || isControl c)
  let clean := ([' '].intercalate (words.filter fun word => !word.isEmpty)).map
    fun c => if c = '"' then Char.ofNat 39 else c
  let short := clean.take maxTitleChars ++ if clean.length > maxTitleChars then ['…'] else []
  "\"" ++ (if short.isEmpty then "Untitled session" else String.ofList short) ++ "\""

/-- `AUTO_COORDINATE_MARKER`. -/
def autoCoordinateMarker : String := "[Clinch auto-coordinate]"

def wakeupText (updates : List SessionUpdate) (tactics : List Tactic) (requested : Bool) : String :=
  let changes := updates.map fun update => quotedTitle update.title ++ " " ++
    match update.kind with
    | .finishedTurn => "finished a turn"
    | .needsYou => "is waiting on the user"
  let count := match updates.length with
    | 1 => "1 update"
    | n => toString n ++ " updates"
  autoCoordinateMarker ++ (if requested then " Run requested." else "") ++
    (if updates.isEmpty then ""
      else " " ++ count ++ ": " ++ "; ".intercalate changes ++ ".") ++
    " Tactics on: " ++ ", ".intercalate (tactics.map Tactic.wakeupName) ++
    ". Follow the Auto-coordinate section of the clinch-coordinate " ++
    "skill, and reply in one short line when nothing needs the user."

inductive AutoCoordinateStatus
  | idle
  | waitingForCoordinator
  | waitingForUser
  | coordinatorUnavailable
deriving DecidableEq

/-- What holds a wakeup back, given why the coordinator cannot take text. -/
def AutoCoordinateStatus.heldBy (unavailableReason : String) : AutoCoordinateStatus :=
  if unavailableReason ∈ ["human_input_or_draft", "saved_draft", "native_composer", "rich_input",
    "recent_input", "unverified_composer"] then .waitingForUser
  else if unavailableReason ∈ ["no_agent", "unsupported_provider", "remote_session",
    "agent_not_writable"] then .coordinatorUnavailable
  else .waitingForCoordinator

/-! ## The workspace -/

/-- The terminal of the coordinator: `local_control_agent_readiness` is a revision, and why the
terminal cannot take text; `local_control_send_agent_text` says whether the text was sent. -/
structure Terminal where
  readiness : String × Option String
  sendAgentText : String → String → Bool

/-- What is read of a tab. -/
structure Tab where
  coordinator : Bool
  autoCoordinate : Option Bool
  terminals : List ℕ
  displayTitle : String
  focusedSession : Option Terminal

structure Workspace where
  tabs : List Tab
  /-- `coordinator_auto_default_on`. -/
  defaultOn : Bool
  isEnabled : Tactic → Bool

namespace Workspace

/-- The tab at `coordinator_tab_index`. -/
def coordinatorTab (w : Workspace) : Option Tab := w.tabs.find? (·.coordinator)

def autoCoordinateEnabled (w : Workspace) : Bool :=
  w.coordinatorTab.any fun tab => tab.autoCoordinate.getD w.defaultOn

def enabledTactics (w : Workspace) : List Tactic := Tactic.all.filter w.isEnabled

/-- Auto-coordinate is on, so the coordinator's tab is open, and some tactic is on. -/
def Active (w : Workspace) : Prop := w.autoCoordinateEnabled = true ∧ w.enabledTactics ≠ []

instance (w : Workspace) : Decidable w.Active := inferInstanceAs (Decidable (_ ∧ _))

end Workspace

/-- `CLIAgentSessionStatus`. -/
inductive SessionStatus
  | inProgress
  | success
  | blocked
deriving DecidableEq

def UpdateKind.fromStatus : SessionStatus → Option UpdateKind
  | .success => some .finishedTurn
  | .blocked => some .needsYou
  | .inProgress => none

structure AutoCoordinateState where
  planner : WakePlanner
  timer : Option ℕ
  runRequested : Bool
  status : AutoCoordinateStatus
deriving DecidableEq

/-- A message that was sent, and the updates it carries. -/
structure Wakeup where
  updates : List SessionUpdate
  text : String
deriving DecidableEq

namespace AutoCoordinateState

/-- `AutoCoordinateState::default`. -/
def default : AutoCoordinateState := ⟨.default, none, false, .idle⟩

def dropPending (s : AutoCoordinateState) : AutoCoordinateState :=
  { s with planner := s.planner.clear, runRequested := false }

/-- `schedule_auto_coordinate_timer`: one timer at a time. -/
def scheduleTimer (s : AutoCoordinateState) (now : ℕ) (delay : ℕ) : AutoCoordinateState :=
  { s with timer := some (s.timer.getD (now + delay)) }

/-- `schedule_auto_coordinate_attempt`. -/
def scheduleAttempt (s : AutoCoordinateState) (now : ℕ) : AutoCoordinateState :=
  match s.planner.dueAt with
  | some dueAt => s.scheduleTimer now (dueAt - now)
  | none => s

/-- `hold_auto_coordinate_wakeup`. -/
def holdWakeup (s : AutoCoordinateState) (status : AutoCoordinateStatus)
    (updates : List SessionUpdate) (now : ℕ) : AutoCoordinateState :=
  { s with status, planner := s.planner.hold updates now }.scheduleTimer now retryInterval

end AutoCoordinateState

open AutoCoordinateState

/-- What `note_session_for_auto_coordinate` records of a change of a session: nothing for a turn in
progress, while auto-coordinate is off, and for a session of the coordinator's tab. -/
def updateOf (w : Workspace) (session : ℕ) (status : SessionStatus) : Option SessionUpdate := do
  let kind ← UpdateKind.fromStatus status
  if !w.autoCoordinateEnabled then none
  else
    let tab ← w.tabs.find? fun tab => session ∈ tab.terminals
    if tab.coordinator then none
    else return { session, title := tab.displayTitle, kind }

/-- `note_session_for_auto_coordinate`. -/
def noteSession (w : Workspace) (session : ℕ) (status : SessionStatus) (now : ℕ)
    (s : AutoCoordinateState) : AutoCoordinateState :=
  match updateOf w session status with
  | some update => { s with planner := s.planner.record update now }.scheduleAttempt now
  | none => s

/-- The end of `attempt_auto_coordinate_wakeup`, with the updates taken out of the planner. -/
def deliver (w : Workspace) (tab : Tab) (requested : Bool) (updates : List SessionUpdate)
    (now : ℕ) (s : AutoCoordinateState) : AutoCoordinateState × Option Wakeup :=
  match tab.focusedSession with
  | none => (s.holdWakeup .coordinatorUnavailable updates now, none)
  | some terminal =>
    match terminal.readiness.2 with
    | some reason => (s.holdWakeup (.heldBy reason) updates now, none)
    | none =>
      let text := wakeupText updates w.enabledTactics requested
      if terminal.sendAgentText text terminal.readiness.1 then
        ({ s with planner := s.planner.markWoken now, runRequested := false, status := .idle },
          some ⟨updates, text⟩)
      else (s.holdWakeup .waitingForCoordinator updates now, none)

/-- `attempt_auto_coordinate_wakeup`. -/
def attempt (w : Workspace) (requested : Bool) (now : ℕ) (s : AutoCoordinateState) :
    AutoCoordinateState × Option Wakeup :=
  match w.coordinatorTab with
  | none => (s.dropPending, none)
  | some tab =>
    if !requested && !w.autoCoordinateEnabled then (s.dropPending, none)
    else if w.enabledTactics.isEmpty then (s.dropPending, none)
    else if requested then
      let (updates, planner) := s.planner.takeAll
      deliver w tab requested updates now { s with runRequested := true, planner }
    else
      match s.planner.takeDue now with
      | some (updates, planner) => deliver w tab requested updates now { s with planner }
      | none => (s.scheduleAttempt now, none)

def runCoordinatorNow (w : Workspace) (now : ℕ) (s : AutoCoordinateState) :
    AutoCoordinateState × Option Wakeup :=
  attempt w true now s

/-- What the timer does when it fires. -/
def timerFires (w : Workspace) (now : ℕ) (s : AutoCoordinateState) :
    AutoCoordinateState × Option Wakeup :=
  if s.runRequested || s.planner.hasPending then
    attempt w s.runRequested now { s with timer := none }
  else ({ s with timer := none }, none)

end Clinch.AutoCoordinate
