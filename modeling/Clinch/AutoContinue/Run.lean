import Clinch.AutoContinue.Methods

/-!
# Runs of the panes that continue

* `Event.Sound`: the event does not lead into one of the four ways in which the code goes wrong;
* `Inv.act`, `Inv.acts`: every sound event, and every run of them, keeps the invariant;
* **`auto_continue_safe`**: what a release is for, in every run of sound events;
* `late_timer_releases`: the timer of an earlier session releases a continue too early.
-/

set_option autoImplicit false

namespace Clinch.AutoContinue

variable {View : Type} [DecidableEq View]

/-- Nothing has happened. -/
def State.initial (now : ℤ) (usage : UsageSnapshot) (autoContinueOnLimitReset : Bool)
    (overrides : Key → Option Bool) : State View where
  now := now
  usage := usage
  sessions := fun _ => none
  autoContinueOnLimitReset := autoContinueOnLimitReset
  autoContinueSessionOverrides := overrides
  autoContinueArmedSessions := fun _ => none
  panes := fun _ => none
  timers := []
  released := []
  stops := []
  entries := 0

/-- The event does not restore, answer, move or arm again what it should not. -/
def Event.Sound (state : State View) : Event View → Prop
  | .sessionStarted view session => RestoreSound (state.sessionReplaced view session) view
  | .sessionUpdated view session => RestoreSound (state.setSession view (some session)) view
  | .statusChanged view session => State.isLimitStop session = true → state.panes view = none →
      RestoreSound (state.limitStop view session) view
  | .syncPaneWithSettings view => state.isEnabled view = false → RestoreSound state view
  | .retryPendingUsageConfirmation view => RefreshSound state view
  | .timerFires index _ _ => TimerSound state index
  | .deliveryFails index => FailureSound state index
  | _ => True

/-- The events are sound, one after the other. -/
def Sound : List (Event View) → State View → Prop
  | [], _ => True
  | event :: events, state => event.Sound state ∧ Sound events (state.act event).1

variable {state : State View}

omit [DecidableEq View] in
theorem inv_initial (now : ℤ) (usage : UsageSnapshot) (default : Bool)
    (overrides : Key → Option Bool) :
    Inv none (State.initial now usage default overrides : State View) where
  panes _ _ _ h := nomatch h
  entries _ _ h := nomatch h
  timers _ h := nomatch h
  released _ _ h := nomatch h
  nodup := List.nodup_nil
  stops _ h := nomatch h

theorem Inv.setSession (hi : Inv none state) (view : View) (session : Option CLIAgentSession) :
    Inv none (state.setSession view session) := hi.elapse le_rfl rfl rfl rfl rfl rfl

omit [DecidableEq View] in
theorem idle_of_none {view : View} (h : state.panes view = none) :
    ∀ pane, state.panes view = some pane → ∀ i, ¬ pane.Holds i :=
  fun _ hp => nomatch h.symm.trans hp

theorem Inv.sessionReplaced (hi : Inv none state) (view : View) (session : CLIAgentSession) :
    Inv none (state.sessionReplaced view session) :=
  ((hi.setSession view (some session)).removePane view).cancelStops _
    (idle_of_none (State.setPane_self _ _))

theorem Inv.cancelAutoContinueOnUserInput (hi : Inv none state) (view : View) :
    Inv none (state.cancelAutoContinueOnUserInput view) := by
  unfold State.cancelAutoContinueOnUserInput
  split
  · obtain ⟨hinv, hidle⟩ := hi.disarm view
    exact hinv.cancelStops _ hidle
  · rename_i hnone
    refine hi.cancelStops _ fun pane hp i => ?_
    rw [hp, Option.any_some] at hnone
    unfold PaneAutoContinue.hasPendingContinue at hnone
    rw [Bool.or_eq_true, not_or] at hnone
    exact not_holds (Option.not_isSome_iff_eq_none.mp hnone.2)
      (Option.not_isSome_iff_eq_none.mp hnone.1) i

theorem Inv.statusChanged (hi : Inv none state) {view : View} {session : CLIAgentSession}
    (hsound : State.isLimitStop session = true → state.panes view = none →
      RestoreSound (state.limitStop view session) view) :
    Inv none (state.statusChanged view session) := by
  unfold State.statusChanged
  have hset := hi.setSession view (some session)
  split
  · refine (hset.recordStop view _ _ _).armIfExhausted (Function.update_self _ _ _)
      (justCame_recordStop _ view session) (hsound ‹_›)
  · obtain ⟨hinv, hidle⟩ := hset.disarm view
    exact hinv.cancelStops _ hidle

/-- **Every sound event keeps the invariant.** -/
theorem Inv.act (hi : Inv none state) {event : Event View} (hsound : event.Sound state) :
    Inv none (state.act event).1 := by
  cases event with
  | elapse duration =>
    exact hi.elapse (le_add_of_nonneg_right (Int.natCast_nonneg duration)) rfl rfl rfl rfl rfl
  | sessionStarted view session =>
    exact (hi.sessionReplaced view session).restorePaneState hsound fun _ _ h => nomatch h
  | sessionEnded view => exact (hi.setSession view none).removePane view
  | sessionUpdated view session =>
    exact (hi.setSession view (some session)).restorePaneState hsound fun _ _ h => nomatch h
  | statusChanged view session => exact hi.statusChanged hsound
  | usageRefreshed usage => exact hi.elapse le_rfl rfl rfl rfl rfl rfl
  | retryPendingUsageConfirmation view => exact hi.retryPendingUsageConfirmation hsound
  | settingsChanged default overrides => exact hi.elapse le_rfl rfl rfl rfl rfl rfl
  | syncPaneWithSettings view => exact hi.syncPaneWithSettings hsound
  | toggle view viewer => exact hi.toggleAutoContinueOnLimitReset view viewer
  | disable view => exact hi.disable view
  | userInput view => exact hi.cancelAutoContinueOnUserInput view
  | timerFires index viewer foreground => exact (hi.timerFires hsound viewer foreground).1
  | deliveryFails index => exact hi.deliveryFails hsound

/-- **Every run of sound events keeps the invariant.** -/
theorem Inv.acts {events : List (Event View)} (hi : Inv none state) (hsound : Sound events state) :
    Inv none (State.acts events state) := by
  induction events generalizing state with
  | nil => exact hi
  | cons event events ih => exact ih (hi.act hsound.1) hsound.2

/-- Only a timer releases. -/
theorem Inv.release (hi : Inv none state) {event : Event View} (hsound : event.Sound state)
    {release : Release View} (h : (state.act event).2 = some release) :
    ReleaseSafe state release := by
  cases event with
  | timerFires index viewer foreground => exact (hi.timerFires hsound viewer foreground).2 release h
  | _ => exact nomatch h

/-- The events are sound, up to the last one. -/
theorem sound_append {events : List (Event View)} {event : Event View}
    (h : Sound (events ++ [event]) state) :
    Sound events state ∧ event.Sound (State.acts events state) := by
  induction events generalizing state with
  | nil => exact ⟨trivial, h.1⟩
  | cons first events ih =>
    obtain ⟨hevents, hlast⟩ := ih h.2
    exact ⟨⟨h.1, hevents⟩, hlast⟩

/-- **A continue is released only for a stop that still asks for it**, after its resets and in
answer to the timer that was scheduled for what it consumes, and never twice but for failures. -/
theorem auto_continue_safe (now : ℤ) (usage : UsageSnapshot) (default : Bool)
    (overrides : Key → Option Bool) (events : List (Event View)) (event : Event View)
    (hsound : Sound (events ++ [event]) (.initial now usage default overrides)) :
    let state := State.acts events (.initial now usage default overrides)
    (∀ release, (state.act event).2 = some release → ReleaseSafe state release) ∧
      ∀ stop ∈ (state.act event).1.stops, stop.released ≤ stop.failed + 1 ∧
        stop.released ≤ maxDeliveryAttempts + 1 := by
  obtain ⟨hevents, hevent⟩ := sound_append hsound
  have hinv : Inv none (State.acts events (State.initial now usage default overrides)) :=
    (inv_initial now usage default overrides).acts hevents
  refine ⟨fun release h => hinv.release hevent h, fun stop hstop => ?_⟩
  obtain ⟨⟨-, hone, hretries⟩, -⟩ := (hinv.act hevent).stops stop hstop
  exact ⟨hone, hretries⟩

/-- A session of Claude Code that stopped at its limit, with the reset that it stated. -/
def stoppedSession (id : Char) (reset : ℤ) : CLIAgentSession where
  agent := .claude
  status := .success
  sessionId := some [id]
  stopReason := some ⟨some reset⟩
  remoteHost := none
  receivedRichNotification := true
  pluginVersion := some (2, 3, 0)
  hasObservedTurnActivity := true

/-- The session before it stopped. -/
def runningSession (id : Char) : CLIAgentSession :=
  { stoppedSession id 0 with
    status := .inProgress
    stopReason := none }

/-- Nothing has happened, and the panes are enabled. -/
def enabledByDefault : State ℕ := .initial 0 ⟨none, none⟩ true fun _ => none

/-- A session stops at its limit and continues when its timer fires. -/
def oneStop : List (Event ℕ) :=
  [.sessionStarted 0 (runningSession 'a'), .statusChanged 0 (stoppedSession 'a' (1000 * second)),
    .elapse 1060000000000]

theorem auto_continue_safe_oneStop :
    ∃ release, ((State.acts oneStop enabledByDefault).act (.timerFires 0 false true)).2 =
      some release ∧ ReleaseSafe (State.acts oneStop enabledByDefault) release := by
  refine ⟨_, rfl, (auto_continue_safe 0 ⟨none, none⟩ true (fun _ => none) oneStop
    (.timerFires 0 false true) ⟨?_, ?_, trivial, ?_, trivial⟩).1 _ rfl⟩
  · intro _ _ _ _ _ h
    exact nomatch h
  · intro _ h
    exact nomatch h
  · intro timer pane armed htimer _ hpane _
    obtain rfl := Option.some.inj htimer
    obtain rfl := Option.some.inj hpane
    rfl

/-- The pane entry of the first session is removed before its timer fires. -/
def lateTimer : List (Event ℕ) :=
  [.sessionStarted 0 (runningSession 'a'), .statusChanged 0 (stoppedSession 'a' (1000 * second)),
    .sessionEnded 0, .sessionStarted 0 (runningSession 'b'),
    .statusChanged 0 (stoppedSession 'b' (5000 * second)), .elapse 1060000000000]

/-- **The timer of an earlier session releases a continue** for the session that followed it in the
view, before the reset that the provider stated: the generations of the new entry begin again. -/
theorem late_timer_releases :
    ∃ release, ((State.acts lateTimer enabledByDefault).act (.timerFires 0 false true)).2 =
        some release ∧ release.timer.fireAt ≠ release.fired.fireAt ∧
      ∃ stop reset, (State.acts lateTimer enabledByDefault).stops[release.fired.stop]? = some stop ∧
        stop.statedReset = some reset ∧ (State.acts lateTimer enabledByDefault).now < reset :=
  ⟨_, rfl, by decide, _, _, rfl, rfl, by decide⟩

end Clinch.AutoContinue
