import Clinch.AutoContinue.Invariant

/-!
# The methods keep the invariant

* `Rearms`: a pane arms under its next generation;
* `onAgentSessionStopped_cases`, `prepareDueFire_cases`, the other `_cases`: what a pane can do;
* `Inv.disarm`, `Inv.armIfExhausted`, `Inv.restorePaneState`, the other methods under their names.
-/

set_option autoImplicit false

namespace Clinch.AutoContinue

/-! ## One pane -/

/-- A pane arms, under the next generation. -/
structure Rearms (pane pane' : PaneAutoContinue) (new : ArmedAutoContinue) : Prop where
  entry : pane'.entry = pane.entry
  enabled : pane'.enabled = pane.enabled
  armed : pane'.armed = some new
  generation : pane'.generation = pane.generation + 1
  armedGeneration : new.generation = pane.generation + 1

theorem Rearms.paneStep {pane pane' : PaneAutoContinue} {armed : ArmedAutoContinue}
    (h : Rearms pane pane' armed) : PaneStep pane pane' where
  entry := h.entry
  generation := by
    have := h.generation
    omega
  armed armed' ha := by
    obtain rfl := Option.some.inj (h.armed.symm.trans ha)
    have := h.armedGeneration
    exact Or.inr (by omega)

section Pane

variable (pane : PaneAutoContinue) (now : ℤ)

theorem retryPendingUsageConfirmation_cases (until_ : Option ℤ) :
    pane.retryPendingUsageConfirmation until_ now = (pane, none) ∨
      ∃ reset pending pane' armed, until_ = some reset ∧ now < reset ∧
        pane.pendingUsageConfirmation = some pending ∧
        pane.retryPendingUsageConfirmation until_ now = (pane', some armed) ∧
        Rearms pane pane' armed ∧ pane'.pendingUsageConfirmation = none ∧
        armed.fireAt = reset + autoContinueResetSlack ∧ armed.agent = pending.agent ∧
        armed.sessionId = pending.sessionId ∧ armed.stop = pending.stop ∧
        armed.deliveryAttempts = 0 := by
  unfold PaneAutoContinue.retryPendingUsageConfirmation
  split
  · exact Or.inl rfl
  · cases until_ with
    | none => exact Or.inl rfl
    | some reset =>
      dsimp only
      split
      · exact Or.inl rfl
      · rename_i hnow
        cases hpending : pane.pendingUsageConfirmation with
        | none => exact Or.inl rfl
        | some pending =>
          exact Or.inr ⟨reset, pending, _, _, rfl, not_le.mp hnow, rfl, rfl,
            ⟨rfl, rfl, rfl, rfl, rfl⟩, rfl, rfl, rfl, rfl, rfl, rfl⟩

/-- The trimmed id is the id, up to white space around it. -/
theorem trimmedId_eq {sessionId : Option (List Char)} {id : List Char}
    (h : trimmedId sessionId = some id) :
    sessionId.map trimChars = (some id).map trimChars := by
  unfold trimmedId at h
  obtain ⟨hmap, -⟩ := Option.filter_eq_some_iff.mp h
  obtain ⟨raw, rfl, rfl⟩ := Option.map_eq_some_iff.mp hmap
  rw [Option.map_some, Option.map_some, trimChars_trimChars]

/-- A stop is ignored, waits for its reset, or is armed. -/
theorem onAgentSessionStopped_cases (stop : ℕ) (agent : CLIAgent)
    (sessionId : Option (List Char)) (until_ : Option ℤ) :
    pane.onAgentSessionStopped stop agent sessionId until_ now = (pane, none) ∨
      pane.enabled = true ∧ pane.armed = none ∧
      ∃ id pane', sessionId.map trimChars = (some id).map trimChars ∧
        ((∀ reset, until_ = some reset → reset ≤ now) ∧
            pane' = { pane with pendingUsageConfirmation := some ⟨agent, some id, stop⟩ } ∧
            pane.onAgentSessionStopped stop agent sessionId until_ now = (pane', none) ∨
          ∃ reset armed, until_ = some reset ∧
            pane.onAgentSessionStopped stop agent sessionId until_ now = (pane', some armed) ∧
            Rearms pane pane' armed ∧ pane'.pendingUsageConfirmation = none ∧
            armed.fireAt = reset + autoContinueResetSlack ∧ armed.agent = agent ∧
            armed.sessionId = some id ∧ armed.stop = stop ∧ armed.deliveryAttempts = 0) := by
  unfold PaneAutoContinue.onAgentSessionStopped
  by_cases hignored : (!pane.enabled || pane.armed.isSome) = true
  · exact Or.inl (by rw [if_pos hignored])
  · rw [if_neg hignored]
    cases hid : trimmedId sessionId with
    | none => exact Or.inl rfl
    | some id =>
      have hready : pane.enabled = true ∧ pane.armed = none := by
        rw [Bool.or_eq_true, not_or, Bool.not_eq_true', Bool.not_eq_false] at hignored
        exact ⟨hignored.1, Option.not_isSome_iff_eq_none.mp hignored.2⟩
      refine Or.inr ⟨hready.1, hready.2, id, ?_⟩
      dsimp only
      unfold PaneAutoContinue.retryPendingUsageConfirmation
      rw [if_neg hignored]
      cases until_ with
      | none => exact ⟨_, trimmedId_eq hid, Or.inl ⟨fun _ h => (nomatch h), rfl, rfl⟩⟩
      | some reset =>
        dsimp only
        split
        · refine ⟨_, trimmedId_eq hid, Or.inl ⟨fun r hr => ?_, rfl, rfl⟩⟩
          exact Option.some.inj hr ▸ ‹_›
        · exact ⟨_, trimmedId_eq hid, Or.inr ⟨reset, _, rfl, rfl, ⟨rfl, rfl, rfl, rfl, rfl⟩,
            rfl, rfl, rfl, rfl, rfl, rfl⟩⟩

theorem restoreArm_cases (stop : ℕ) (agent : CLIAgent) (sessionId : List Char) (fireAt : ℤ) :
    pane.restoreArm stop agent sessionId fireAt now = (pane, none) ∨
      pane.enabled = true ∧ pane.armed = none ∧ ∃ pane' armed,
        pane.restoreArm stop agent sessionId fireAt now = (pane', some armed) ∧
        Rearms pane pane' armed ∧
        pane'.pendingUsageConfirmation = pane.pendingUsageConfirmation ∧
        fireAt ≤ armed.fireAt ∧ armed.agent = agent ∧ armed.sessionId = some sessionId ∧
        armed.stop = stop ∧ armed.deliveryAttempts = 0 := by
  unfold PaneAutoContinue.restoreArm
  by_cases hignored : (!pane.enabled || pane.armed.isSome) = true
  · exact Or.inl (by rw [if_pos hignored])
  · rw [if_neg hignored]
    have hready : pane.enabled = true ∧ pane.armed = none := by
      rw [Bool.or_eq_true, not_or, Bool.not_eq_true', Bool.not_eq_false] at hignored
      exact ⟨hignored.1, Option.not_isSome_iff_eq_none.mp hignored.2⟩
    exact Or.inr ⟨hready.1, hready.2, _, _, rfl, ⟨rfl, rfl, rfl, rfl, rfl⟩, rfl, le_max_left _ _,
      rfl, rfl, rfl, rfl⟩

theorem reconcileReset_cases (until_ : Option ℤ) :
    pane.reconcileReset until_ now = (pane, none) ∨
      ∃ reset old pane' armed, until_ = some reset ∧ now < reset ∧ pane.armed = some old ∧
        pane.reconcileReset until_ now = (pane', some armed) ∧ Rearms pane pane' armed ∧
        pane'.pendingUsageConfirmation = pane.pendingUsageConfirmation ∧
        armed.fireAt = reset + autoContinueResetSlack ∧ armed.agent = old.agent ∧
        armed.sessionId = old.sessionId ∧ armed.stop = old.stop ∧
        armed.deliveryAttempts = old.deliveryAttempts := by
  unfold PaneAutoContinue.reconcileReset
  cases until_ with
  | none => exact Or.inl rfl
  | some reset =>
    dsimp only
    split
    · exact Or.inl rfl
    · rename_i hnow
      cases harmed : pane.armed with
      | none => exact Or.inl rfl
      | some old =>
        dsimp only
        split
        · exact Or.inl rfl
        · exact Or.inr ⟨reset, old, _, _, rfl, not_le.mp hnow, rfl, rfl, ⟨rfl, rfl, rfl, rfl, rfl⟩,
            rfl, rfl, rfl, rfl, rfl, rfl⟩

variable {pane} in
theorem of_armedForGeneration {generation : ℕ} {armed : ArmedAutoContinue}
    (h : pane.armedForGeneration generation = some armed) :
    pane.armed = some armed ∧ armed.generation = generation := by
  unfold PaneAutoContinue.armedForGeneration at h
  split at h
  · obtain ⟨harmed, hgeneration⟩ := Option.filter_eq_some_iff.mp h
    exact ⟨harmed, of_decide_eq_true hgeneration⟩
  · exact nomatch h

/-- The arm is released once its provider's reset is over, or is put off. -/
theorem prepareDueFire_cases {generation : ℕ} {expected : ArmedAutoContinue}
    (exhaustion : Option ExhaustionStatus)
    (h : pane.armedForGeneration generation = some expected) :
    (∀ reset, exhaustion = some (.resetsAt reset) → reset + autoContinueResetSlack ≤ now) ∧
        pane.prepareDueFire generation exhaustion now =
          ({ pane with armed := none, lastDeliveryError := false }, .fire expected) ∨
      ∃ pane' armed, pane.prepareDueFire generation exhaustion now = (pane', .rearmed armed) ∧
        Rearms pane pane' armed ∧
        pane'.pendingUsageConfirmation = pane.pendingUsageConfirmation ∧
        now / second ≤ armed.fireAt / second ∧ armed.agent = expected.agent ∧
        armed.sessionId = expected.sessionId ∧ armed.stop = expected.stop ∧
        armed.deliveryAttempts = expected.deliveryAttempts := by
  unfold PaneAutoContinue.prepareDueFire
  rw [h]
  cases exhaustion with
  | none => exact Or.inl ⟨fun _ h => (nomatch h), rfl⟩
  | some status =>
    cases status with
    | notExhausted => exact Or.inl ⟨fun _ h => (nomatch h), rfl⟩
    | resetUnknown =>
      refine Or.inr ⟨_, _, rfl, ⟨rfl, rfl, rfl, rfl, rfl⟩, rfl, div_second_mono ?_,
        rfl, rfl, rfl, rfl⟩
      exact le_add_of_nonneg_right (by decide)
    | resetsAt reset =>
      dsimp only
      by_cases hdue : reset + autoContinueResetSlack ≤ now
      · rw [if_pos hdue]
        refine Or.inl ⟨fun r hr => ?_, rfl⟩
        obtain rfl := ExhaustionStatus.resetsAt.inj (Option.some.inj hr)
        exact hdue
      · rw [if_neg hdue]
        exact Or.inr ⟨_, _, rfl, ⟨rfl, rfl, rfl, rfl, rfl⟩, rfl,
          div_second_mono (not_le.mp hdue).le, rfl, rfl, rfl, rfl⟩

theorem rearmAfterDeliveryFailure_cases (fired : ArmedAutoContinue) :
    pane.rearmAfterDeliveryFailure fired now =
        ({ pane with armed := none, lastDeliveryError := true }, none) ∨
      pane.enabled = true ∧ fired.deliveryAttempts < maxDeliveryAttempts ∧
        ∃ pane' armed, pane.rearmAfterDeliveryFailure fired now = (pane', some armed) ∧
          Rearms pane pane' armed ∧
          pane'.pendingUsageConfirmation = pane.pendingUsageConfirmation ∧
          armed.fireAt = now + autoContinueRetry ∧ armed.agent = fired.agent ∧
          armed.sessionId = fired.sessionId ∧ armed.stop = fired.stop ∧
          armed.deliveryAttempts = fired.deliveryAttempts + 1 := by
  unfold PaneAutoContinue.rearmAfterDeliveryFailure
  dsimp only
  by_cases hlast : (!pane.enabled || decide (maxDeliveryAttempts ≤ fired.deliveryAttempts)) = true
  · exact Or.inl (by rw [if_pos hlast])
  · rw [if_neg hlast]
    rw [Bool.or_eq_true, not_or, Bool.not_eq_true', Bool.not_eq_false, decide_eq_true_eq] at hlast
    exact Or.inr ⟨hlast.1, not_le.mp hlast.2, _, _, rfl, ⟨rfl, rfl, rfl, rfl, rfl⟩,
      rfl, rfl, rfl, rfl, rfl, rfl⟩

end Pane

/-! ## The state -/

section State

variable {View : Type} {state : State View} {view : View} {old pane : PaneAutoContinue}

theorem Rearms.paneInv {armed : ArmedAutoContinue} (h : Rearms old pane armed)
    (hi : Inv (some view) state) (hold : state.panes view = some old)
    (henabled : old.enabled = true)
    (ha : ArmedInv state.stops view armed)
    (hpending : ∀ pending, pane.pendingUsageConfirmation = some pending →
      PendingInv state.stops state.now view pending ∧ armed.stop ≠ pending.stop) :
    PaneInv state.stops state.now state.entries view pane where
  entry := h.entry ▸ hi.entries view old hold
  armed armed' ha' := by
    obtain rfl := Option.some.inj (h.armed.symm.trans ha')
    exact ⟨ha, (h.armedGeneration.trans h.generation.symm).le⟩
  pending pending hp := (hpending pending hp).1
  distinct armed' pending ha' hp := by
    obtain rfl := Option.some.inj (h.armed.symm.trans ha')
    exact (hpending pending hp).2
  disabled hd := nomatch (h.enabled.trans henabled).symm.trans hd

variable [DecidableEq View]

/-- A pane that holds no more than before. -/
theorem Inv.shrink (hi : Inv none state) (hold : state.panes view = some old)
    (hentry : pane.entry = old.entry) (hgeneration : old.generation ≤ pane.generation)
    (harmed : pane.armed = none ∨ pane.armed = old.armed)
    (hpending : pane.pendingUsageConfirmation = none ∨
      pane.pendingUsageConfirmation = old.pendingUsageConfirmation)
    (hdisabled : pane.enabled = false → old.enabled = false ∨
      pane.armed = none ∧ pane.pendingUsageConfirmation = none) :
    Inv none (state.setPane view (some pane)) := by
  have hp := hi.pane hold
  have ha : ∀ armed, pane.armed = some armed → old.armed = some armed := fun armed h =>
    harmed.elim (fun hn => nomatch hn.symm.trans h) fun he => he.symm.trans h
  have hw : ∀ pending, pane.pendingUsageConfirmation = some pending →
      old.pendingUsageConfirmation = some pending := fun pending h =>
    hpending.elim (fun hn => nomatch hn.symm.trans h) fun he => he.symm.trans h
  refine (hi.leave view).setPane (fun pane' h => ?_) fun pane' h => ?_
  · obtain rfl := Option.some.inj h
    refine ⟨hentry ▸ hp.entry, fun a h => ⟨(hp.armed a (ha a h)).1,
      (hp.armed a (ha a h)).2.trans hgeneration⟩, fun p h => hp.pending p (hw p h),
      fun a p h h' => hp.distinct a p (ha a h) (hw p h'), fun hd => ?_⟩
    rcases hdisabled hd with hd | hd
    · obtain ⟨hnone, hnone'⟩ := hp.disabled hd
      exact ⟨harmed.elim id (·.trans hnone), hpending.elim id (·.trans hnone')⟩
    · exact hd
  · obtain rfl := Option.some.inj h
    exact ⟨old, hold, hentry, hgeneration, fun a h => Or.inl (ha a h)⟩

theorem Inv.removePane (hi : Inv none state) (view : View) : Inv none (state.setPane view none) :=
  (hi.leave view).setPane (fun _ h => nomatch h) fun _ h => nomatch h

/-- The pane of the view holds nothing. -/
def Idle (state : State View) (view : View) : Prop :=
  ∀ pane, state.panes view = some pane → ∀ i, ¬ pane.Holds i

omit [DecidableEq View] in
theorem not_holds (harmed : pane.armed = none) (hpending : pane.pendingUsageConfirmation = none)
    (i : ℕ) : ¬ pane.Holds i := by
  rintro (⟨armed, ha, -⟩ | ⟨pending, hp, -⟩)
  · exact nomatch harmed.symm.trans ha
  · exact nomatch hpending.symm.trans hp

theorem Inv.disarm (hi : Inv none state) (view : View) :
    Inv none (state.disarm view) ∧ Idle (state.disarm view) view := by
  unfold State.disarm
  cases hold : state.panes view with
  | none => exact ⟨hi, fun pane hp => nomatch hold.symm.trans hp⟩
  | some old =>
    have hset : Inv none (state.setPane view (some old.disarm.1)) :=
      hi.shrink hold rfl (Nat.le_succ _) (Or.inl rfl) (Or.inl rfl) fun _ => Or.inr ⟨rfl, rfl⟩
    have hidle : ∀ pane, some old.disarm.1 = some pane → ∀ i, ¬ pane.Holds i := by
      intro pane hp i
      obtain rfl := Option.some.inj hp
      exact not_holds rfl rfl i
    dsimp only
    split
    · refine ⟨hset.setPersistedArm _ none, fun pane hp => hidle pane ?_⟩
      rwa [State.setPersistedArm_panes, State.setPane_self] at hp
    · refine ⟨hset, fun pane hp => hidle pane ?_⟩
      rwa [State.setPane_self] at hp

omit [DecidableEq View] in
/-- A pane that is disabled holds nothing. -/
theorem setEnabled_false {stops : List (Stop View)} {now : ℤ} {entries : ℕ}
    (hp : PaneInv stops now entries view old) : (old.setEnabled false).1.entry = old.entry ∧
      old.generation ≤ (old.setEnabled false).1.generation ∧
      (old.setEnabled false).1.armed = none ∧
      (old.setEnabled false).1.pendingUsageConfirmation = none := by
  unfold PaneAutoContinue.setEnabled
  split
  · rename_i hdisabled
    exact ⟨rfl, le_rfl, (hp.disabled hdisabled).1, (hp.disabled hdisabled).2⟩
  · exact ⟨rfl, Nat.le_succ _, rfl, rfl⟩

theorem Inv.disable (hi : Inv none state) (view : View) : Inv none (state.disable view) := by
  unfold State.disable
  cases hold : state.panes view with
  | none => exact hi.cancelStops _ fun pane hp => nomatch hold.symm.trans hp
  | some old =>
    obtain ⟨hentry, hgeneration, harmed, hpending⟩ := setEnabled_false (hi.pane hold)
    have hset : Inv none (state.setPane view (some (old.setEnabled false).1)) :=
      hi.shrink hold hentry hgeneration (Or.inl harmed) (Or.inl hpending)
        fun _ => Or.inr ⟨harmed, hpending⟩
    refine (hset.setPersistedArm old.persistenceKey none).cancelStops _ fun pane hp => ?_
    rw [State.setPersistedArm_panes, State.setPane_self] at hp
    obtain rfl := Option.some.inj hp
    exact not_holds harmed hpending

/-! ## Arming -/

theorem max?_ge {l : List ℤ} {m : ℤ} (h : l.max? = some m) : ∀ r ∈ l, r ≤ m :=
  (List.max?_eq_some_iff.mp h).2

theorem le_of_max? {l : List ℤ} {now : ℤ} (h : ∀ m, l.max? = some m → m ≤ now) :
    ∀ r ∈ l, r ≤ now := by
  intro r hr
  cases hm : l.max? with
  | none => exact absurd (List.max?_eq_none_iff.mp hm) (List.ne_nil_of_mem hr)
  | some m => exact (max?_ge hm r hr).trans (h m hm)

/-- The stop has just come, as the session of the view says. -/
def JustCame (state : State View) (view : View) (i : ℕ) (session : CLIAgentSession) : Prop :=
  state.stops[i]? = some (.new view session.agent session.sessionId
    (statedReset session.stopReason) (resetsForLimitStop state.usage session.agent
      (statedReset session.stopReason)))

omit [DecidableEq View] in
theorem stopInv_new (view : View) (agent : CLIAgent) (sessionId : Option (List Char))
    (statedReset : Option ℤ) (snapshot : UsageSnapshot) :
    StopInv
      (.new view agent sessionId statedReset (resetsForLimitStop snapshot agent statedReset)) :=
  ⟨⟨le_rfl, Nat.zero_le _, Nat.zero_le _⟩, fun _ h =>
    List.mem_append_right _ (Option.mem_toList.mpr h)⟩

omit [DecidableEq View] in
theorem Inv.recordStop {except : Option View} (hi : Inv except state) (view : View)
    (agent : CLIAgent) (sessionId : Option (List Char)) (statedReset : Option ℤ) :
    Inv except (state.recordStop view agent sessionId statedReset) :=
  hi.appendStop _ (stopInv_new view agent sessionId statedReset state.usage)

omit [DecidableEq View] in
theorem justCame_recordStop (state : State View) (view : View) (session : CLIAgentSession) :
    JustCame (state.recordStop view session.agent session.sessionId
      (statedReset session.stopReason)) view state.stops.length session := by
  unfold JustCame State.recordStop
  rw [List.getElem?_append_right le_rfl, Nat.sub_self]
  rfl

theorem Inv.armStopped (hi : Inv none state) {stop : ℕ} {session : CLIAgentSession}
    (hcame : JustCame state view stop session) :
    Inv none (state.armStopped view stop session.agent session.sessionId
      (statedReset session.stopReason)) := by
  unfold State.armStopped
  cases hold : state.panes view with
  | none => exact hi
  | some old =>
    have hp := hi.pane hold
    have hfor : ∀ id, session.sessionId.map trimChars = (some id).map trimChars →
        StopFor state.stops view stop session.agent (some id) _ :=
      fun id hid => ⟨hcame, rfl, rfl, rfl, hid⟩
    dsimp only
    rcases onAgentSessionStopped_cases old state.now stop session.agent session.sessionId
      (resetForLimitStop state.usage session.agent (statedReset session.stopReason)) with heq |
        ⟨henabled, hnone, id, pane', hid, ⟨hpast, rfl, heq⟩ |
          ⟨reset, armed, hreset, heq, hrearms, hpending, hfire, hagent, harmedId, hstop, hattempts⟩⟩
    · rw [heq]
      exact hi.shrink hold rfl le_rfl (Or.inr rfl) (Or.inr rfl) Or.inl
    · rw [heq]
      -- it waits, with the resets that were told for it over
      refine (hi.leave view).setPane (fun pane h => ?_) fun pane h => ?_
      · obtain rfl := Option.some.inj h
        refine ⟨hp.entry, fun armed ha => (nomatch hnone.symm.trans ha), fun pending hpending => ?_,
          fun armed _ ha => (nomatch hnone.symm.trans ha),
          fun hd => (nomatch henabled.symm.trans hd)⟩
        obtain rfl := Option.some.inj hpending
        exact ⟨_, hfor id hid, rfl, rfl, le_of_max? hpast⟩
      · obtain rfl := Option.some.inj h
        exact ⟨old, hold, rfl, le_rfl, fun armed ha => Or.inl ha⟩
    · rw [heq]
      have harmed : ArmedInv state.stops view armed := by
        rw [ArmedInv, hstop, hagent, harmedId, hattempts, hfire]
        exact ⟨_, hfor id hid, rfl, le_rfl, Nat.zero_le _, after_of_le (max?_ge hreset)⟩
      refine Inv.putArmed (hi.leave view) hold hrearms.paneStep hrearms.armed ?_
      refine hrearms.paneInv (hi.leave view) hold henabled harmed fun pending h => ?_
      exact nomatch hpending.symm.trans h

theorem Inv.tryArmForAlreadyStoppedSession (hi : Inv none state) {stop : Option ℕ}
    (hcame : ∀ i session, stop = some i → state.sessions view = some session →
      JustCame state view i session) :
    Inv none (state.tryArmForAlreadyStoppedSession view stop) := by
  unfold State.tryArmForAlreadyStoppedSession
  cases hsession : state.sessions view with
  | none => exact hi
  | some session =>
    dsimp only
    split
    · exact hi
    · split
      · cases stop with
        | some i => exact hi.armStopped (hcame i session rfl hsession)
        | none =>
          exact (hi.recordStop view _ _ _).armStopped (justCame_recordStop state view session)
      · exact hi

/-- The entry of a view is there, and nothing else changes. -/
structure EntryOf (state state' : State View) (view : View) (entry : PaneAutoContinue) : Prop where
  inv : Inv none state'
  pane : state'.panes view = some entry
  others : ∀ w, w ≠ view → state'.panes w = state.panes w
  stops : state'.stops = state.stops
  usage : state'.usage = state.usage
  sessions : state'.sessions = state.sessions
  old : ∀ pane, state.panes view = some pane → pane = entry
  held : ∀ i, entry.Holds i → state.panes view = some entry

theorem Inv.entryOrDefault (hi : Inv none state) (view : View) :
    EntryOf state (state.entryOrDefault view).1 view (state.entryOrDefault view).2 := by
  unfold State.entryOrDefault
  cases hold : state.panes view with
  | some pane =>
    exact ⟨hi, hold, fun _ _ => rfl, rfl, rfl, rfl, fun _ h => Option.some.inj (h.symm.trans hold),
      fun _ _ => hold⟩
  | none =>
    have hidle := @not_holds (.default state.entries) rfl rfl
    refine ⟨?_, State.setPane_self _ _, fun w hw => State.setPane_of_ne _ _ hw, rfl, rfl,
      rfl, fun _ h => (nomatch hold.symm.trans h), fun i h => absurd h (hidle i)⟩
    dsimp only
    refine ⟨fun w pane _ hp => ?_, fun w pane hp => ?_, fun timer ht => ?_, hi.released, hi.nodup,
      hi.stops⟩
    · by_cases hw : w = view
      · rw [hw, State.setPane_self] at hp
        obtain rfl := Option.some.inj hp
        exact ⟨Nat.lt_succ_self _, fun _ h => (nomatch h), fun _ h => (nomatch h),
          fun _ _ h => (nomatch h), fun _ => ⟨rfl, rfl⟩⟩
      · rw [State.setPane_of_ne _ _ hw] at hp
        have h := hi.pane hp
        exact { h with entry := Nat.lt_succ_of_lt h.entry }
    · by_cases hw : w = view
      · rw [hw, State.setPane_self] at hp
        obtain rfl := Option.some.inj hp
        exact Nat.lt_succ_self _
      · rw [State.setPane_of_ne _ _ hw] at hp
        exact Nat.lt_succ_of_lt (hi.entries w pane hp)
    · -- no timer is for the new entry
      obtain ⟨hentry, htimer⟩ := hi.timers timer ht
      refine ⟨Nat.lt_succ_of_lt hentry, ?_⟩
      by_cases hw : timer.view = view
      · intro pane hp hpentry
        rw [hw, State.setPane_self] at hp
        obtain rfl := Option.some.inj hp
        exact absurd hpentry hentry.ne'
      · exact htimer.of_ne (State.setPane_of_ne _ _ hw)

theorem setEnabled_true (pane : PaneAutoContinue) :
    (pane.setEnabled true).1 = { pane with enabled := true } := by
  unfold PaneAutoContinue.setEnabled
  split
  · rename_i h
    cases pane
    cases h
    rfl
  · rfl

/-- The pane is enabled under a key. -/
theorem EntryOf.enable {state' : State View} (h : EntryOf state state' view pane)
    (key : Option Key) : Inv none (state'.setPane view
      (some { pane with persistenceKey := key, enabled := true })) :=
  h.inv.shrink h.pane rfl le_rfl (Or.inr rfl) (Or.inr rfl) fun hd => nomatch hd

/-- What `restore_pane_state` would restore is still wanted: it is for a stop of that session that
nothing has cancelled and nothing was released for, that no pane holds, and it comes after what was
told of its reset. -/
def RestoreSound (state : State View) (view : View) : Prop :=
  ∀ key agent sessionId arm, state.restorable view = some (key, agent, sessionId) →
    state.autoContinueArmedSessions key = some arm →
    (∀ pane, state.panes view = some pane → pane.armed = none) →
    ∃ stop, state.stops[arm.stop]? = some stop ∧ stop.cancelled = false ∧ stop.agent = agent ∧
      stop.sessionId.map trimChars = (some sessionId).map trimChars ∧ stop.released = 0 ∧
      After stop.resets arm.timestamp ∧
      ∀ w pane, state.panes w = some pane → ¬ pane.Holds arm.stop

omit [DecidableEq View] in
theorem getElem?_modifyStop {i : ℕ} {stop : Stop View} (f : Stop View → Stop View)
    (hget : state.stops[i]? = some stop) : (state.modifyStop i f).stops[i]? = some (f stop) := by
  show (state.stops.modify i f)[i]? = some (f stop)
  rw [List.getElem?_modify_eq, hget]
  rfl

omit [DecidableEq View] in
theorem getElem?_modifyStop_ne {i j : ℕ} (f : Stop View → Stop View) (hij : i ≠ j) :
    (state.modifyStop i f).stops[j]? = state.stops[j]? := List.getElem?_modify_ne f _ hij

omit [DecidableEq View] in
/-- A stop is not both held by a pane and released without a failure. -/
theorem Inv.released_ne {except : Option View} (hi : Inv except state) {i : ℕ} {stop : Stop View}
    (hget : state.stops[i]? = some stop) (hcount : stop.released = stop.failed) :
    ∀ released ∈ state.released, released.2.stop ≠ i := by
  intro released hr heq
  obtain ⟨stop', hget', -, -, -, hcount', -⟩ := hi.released released.1 released.2 hr
  rw [heq] at hget'
  obtain rfl := Option.some.inj (hget.symm.trans hget')
  omega

/-- A stop that no pane holds is armed again, in this view. -/
theorem Inv.armRestored (hi : Inv none state) (hold : state.panes view = some old)
    (henabled : old.enabled = true) {armed : ArmedAutoContinue} (hrearms : Rearms old pane armed)
    (hpending : pane.pendingUsageConfirmation = old.pendingUsageConfirmation) {stop : Stop View}
    (hget : state.stops[armed.stop]? = some stop) (hcancelled : stop.cancelled = false)
    (hagent : stop.agent = armed.agent)
    (hid : stop.sessionId.map trimChars = armed.sessionId.map trimChars)
    (hreleased : stop.released = 0) (hattempts : armed.deliveryAttempts = 0)
    (hafter : After stop.resets (armed.fireAt / second))
    (hnot : ∀ w pane, state.panes w = some pane → ¬ pane.Holds armed.stop) :
    Inv none (((state.modifyStop armed.stop fun stop => { stop with view }).setPane view
      (some pane)).scheduleTimer view pane.entry armed) := by
  have hcounts := hi.stops stop (List.mem_iff_getElem?.mpr ⟨_, hget⟩)
  have hfailed : stop.failed = 0 := Nat.le_zero.mp (hreleased ▸ hcounts.1.1)
  have hmodify := (hi.leave view).modifyStop armed.stop (fun stop => { stop with view })
    (fun w pane _ hp => hnot w pane hp)
    (hi.released_ne hget (hreleased.trans hfailed.symm))
    (fun stop' hget' => hi.stops stop' (List.mem_iff_getElem?.mpr ⟨_, hget'⟩))
  have hget' := getElem?_modifyStop (fun stop => { stop with view }) hget
  have harmed : ArmedInv (state.modifyStop armed.stop fun stop => { stop with view }).stops view
      armed := by
    refine ⟨_, ⟨hget', rfl, hcancelled, hagent, hid⟩, hreleased.trans hfailed.symm, ?_, ?_, hafter⟩
    · exact hfailed.le.trans (Nat.zero_le _)
    · rw [hattempts]
      exact Nat.zero_le _
  have hpane : PaneInv (state.modifyStop armed.stop fun stop => { stop with view }).stops state.now
      state.entries view pane := by
    refine hrearms.paneInv hmodify hold henabled harmed fun pending hp => ?_
    have hp' := hpending.symm.trans hp
    have hne : armed.stop ≠ pending.stop := fun h =>
      hnot view old hold (Or.inr ⟨pending, hp', h.symm⟩)
    obtain ⟨stop', hstop, hrest⟩ := (hi.pane hold).pending pending hp'
    refine ⟨⟨stop', { hstop with get := ?_ }, hrest⟩, hne⟩
    rw [getElem?_modifyStop_ne _ hne, hstop.get]
  refine Inv.scheduleTimer (hmodify.setPane (fun p h => ?_) fun p h => ?_) ?_ hrearms.armed
  · exact Option.some.inj h ▸ hpane
  · exact ⟨old, hold, Option.some.inj h ▸ hrearms.paneStep⟩
  · exact State.setPane_self _ _

theorem Inv.restorePaneState (hi : Inv none state) (hsound : RestoreSound state view)
    {stop : Option ℕ} (hcame : ∀ i session, stop = some i → state.sessions view = some session →
      JustCame state view i session) : Inv none (state.restorePaneState view stop) := by
  unfold State.restorePaneState
  cases hrestorable : state.restorable view with
  | none => exact hi
  | some found =>
    obtain ⟨key, agent, sessionId⟩ := found
    have hentry := hi.entryOrDefault view
    generalize state.entryOrDefault view = entered at hentry ⊢
    obtain ⟨state', pane⟩ := entered
    have henable := hentry.enable (some key)
    have hrest : ∀ changed : Bool, Inv none (if changed then
        (state'.setPane view (some { pane with
          persistenceKey := some key, enabled := true })).tryArmForAlreadyStoppedSession view stop
        else state'.setPane view (some { pane with
          persistenceKey := some key, enabled := true })) := by
      intro changed
      cases changed
      · exact henable
      · refine henable.tryArmForAlreadyStoppedSession fun i session h hsession => ?_
        have hcame' := hcame i session h ((congrFun hentry.sessions view).symm.trans hsession)
        unfold JustCame at hcame' ⊢
        rw [← hentry.stops, ← hentry.usage] at hcame'
        exact hcame'
    dsimp only
    rw [setEnabled_true]
    cases hpersisted : state.autoContinueArmedSessions key with
    | none => exact hrest _
    | some arm =>
      dsimp only [Option.bind_some]
      rcases restoreArm_cases { pane with persistenceKey := some key, enabled := true }
        (state'.setPane view (some { pane with persistenceKey := some key, enabled := true })).now
        arm.stop agent sessionId (arm.timestamp * second) with heq |
          ⟨henabled, hnone, pane', armed, heq, hrearms, hpending, hfire, hagent, hid, hstop,
            hattempts⟩
      · rw [heq]
        exact hrest _
      · rw [heq]
        obtain ⟨record, hget, hcancelled, hstopAgent, hstopId, hreleased, hafter, hnot⟩ :=
          hsound key agent sessionId arm hrestorable hpersisted fun p hp => by
            rw [hentry.old p hp]
            exact hnone
        have hget' : state'.stops[armed.stop]? = some record := by
          rw [hstop]
          exact (congrArg (·[arm.stop]?) hentry.stops).trans hget
        refine henable.armRestored (State.setPane_self _ _) henabled hrearms hpending hget'
          hcancelled (hstopAgent.trans hagent.symm) ?_ hreleased hattempts ?_ ?_
        · rw [hid]
          exact hstopId
        · refine hafter.mono ?_
          have h := div_second_mono hfire
          rwa [Int.mul_ediv_cancel _ (by decide)] at h
        · intro w p hp hholds
          rw [hstop] at hholds
          by_cases hw : w = view
          · rw [hw, State.setPane_self] at hp
            obtain rfl := Option.some.inj hp
            exact hnot view pane (hentry.held _ hholds) hholds
          · rw [State.setPane_of_ne _ _ hw, hentry.others w hw] at hp
            exact hnot w p hp hholds

/-- Nothing is recorded, and the usage data stay. -/
structure SameStops (state state' : State View) : Prop where
  stops : state'.stops = state.stops
  usage : state'.usage = state.usage

theorem sameStops_putArmed (state : State View) (view : View) (pane : PaneAutoContinue)
    (armed : ArmedAutoContinue) : SameStops state (state.putArmed view pane armed) := by
  unfold State.putArmed State.setPersistedArm
  cases pane.persistenceKey <;> exact ⟨rfl, rfl⟩

theorem sameStops_armStopped (state : State View) (view : View) (stop : ℕ) (agent : CLIAgent)
    (sessionId : Option (List Char)) (statedReset : Option ℤ) :
    SameStops state (state.armStopped view stop agent sessionId statedReset) := by
  unfold State.armStopped
  split
  · exact ⟨rfl, rfl⟩
  · dsimp only
    split
    · exact ⟨rfl, rfl⟩
    · exact sameStops_putArmed _ _ _ _

theorem sameStops_tryArm (state : State View) (view : View) (stop : ℕ) :
    SameStops state (state.tryArmForAlreadyStoppedSession view (some stop)) := by
  unfold State.tryArmForAlreadyStoppedSession
  split
  · exact ⟨rfl, rfl⟩
  · split
    · exact ⟨rfl, rfl⟩
    · split
      · exact sameStops_armStopped _ _ _ _ _ _
      · exact ⟨rfl, rfl⟩

omit [DecidableEq View] in
theorem JustCame.of_sameStops {state' : State View} {i : ℕ} {session : CLIAgentSession}
    (h : JustCame state view i session) (hs : SameStops state state') :
    JustCame state' view i session := by
  unfold JustCame at h ⊢
  rw [hs.stops, hs.usage]
  exact h

/-- Restoring the pane leaves the stop that has just come as it is. -/
theorem JustCame.restorePaneState (hi : Inv none state) {i : ℕ} {session : CLIAgentSession}
    (h : JustCame state view i session) :
    JustCame (state.restorePaneState view (some i)) view i session := by
  unfold State.restorePaneState
  split
  · exact h
  · have hentry := hi.entryOrDefault view
    generalize state.entryOrDefault view = entered at hentry ⊢
    obtain ⟨state', pane⟩ := entered
    have h' : JustCame state' view i session := h.of_sameStops ⟨hentry.stops, hentry.usage⟩
    dsimp only
    split
    · rename_i pane' armed _
      unfold JustCame at h' ⊢
      show (state'.stops.modify armed.stop fun stop => { stop with view })[i]? = _
      by_cases hstop : armed.stop = i
      · rw [hstop, List.getElem?_modify_eq, h']
        rfl
      · rw [List.getElem?_modify_ne _ _ hstop, h']
        rfl
    · split
      · have hset : ∀ pane, JustCame (state'.setPane view pane) view i session := fun _ => h'
        exact (hset _).of_sameStops (sameStops_tryArm _ view i)
      · exact h'

theorem Inv.armIfExhausted (hi : Inv none state) {stop : ℕ} {session : CLIAgentSession}
    (hsession : state.sessions view = some session) (hcame : JustCame state view stop session)
    (hsound : state.panes view = none → RestoreSound state view) :
    Inv none (state.armIfExhausted view stop session.agent session.sessionId
      (statedReset session.stopReason)) := by
  unfold State.armIfExhausted
  split
  · exact (hi.disarm view).1
  · dsimp only
    split
    · rename_i hnone
      have hrestore : Inv none (state.restorePaneState view (some stop)) := by
        refine hi.restorePaneState (hsound (Option.isNone_iff_eq_none.mp hnone))
          fun i session' h hsession' => ?_
        obtain rfl := Option.some.inj h
        obtain rfl := Option.some.inj (hsession.symm.trans hsession')
        exact hcame
      exact hrestore.armStopped (hcame.restorePaneState hi)
    · exact hi.armStopped hcame

theorem Inv.enable (hi : Inv none state) (view : View) (key : Option Key) :
    Inv none (state.enable view key) := by
  unfold State.enable
  have hentry := hi.entryOrDefault view
  generalize state.entryOrDefault view = entered at hentry ⊢
  obtain ⟨state', pane⟩ := entered
  have henable := hentry.enable key
  dsimp only
  rw [setEnabled_true]
  split
  · exact henable.tryArmForAlreadyStoppedSession fun _ _ h => nomatch h
  · exact henable

omit [DecidableEq View] in
theorem Inv.setPersistedOverride (hi : Inv none state) (key : Key) (enabled : Bool) :
    Inv none (state.setPersistedOverride key enabled) :=
  hi.elapse le_rfl rfl rfl rfl rfl rfl

theorem Inv.toggle (hi : Inv none state) (view : View) : Inv none (state.toggle view) := by
  unfold State.toggle
  dsimp only
  split
  · cases state.sessionKey view with
    | none => exact hi.disable view
    | some key => exact (hi.disable view).setPersistedOverride key false
  · split
    · exact hi
    · cases state.sessionKey view with
      | none => exact hi.enable view none
      | some key => exact (hi.setPersistedOverride key true).enable view _

theorem Inv.toggleAutoContinueOnLimitReset (hi : Inv none state) (view : View) (viewer : Bool) :
    Inv none (state.toggleAutoContinueOnLimitReset view viewer) := by
  unfold State.toggleAutoContinueOnLimitReset
  split
  · exact hi.toggle view
  · exact hi.disable view

theorem Inv.syncPaneWithSettings (hi : Inv none state)
    (hsound : state.isEnabled view = false → RestoreSound state view) :
    Inv none (state.syncPaneWithSettings view) := by
  unfold State.syncPaneWithSettings
  dsimp only
  split
  · rename_i hrestores
    rw [Bool.and_eq_true, Bool.not_eq_true'] at hrestores
    exact hi.restorePaneState (hsound hrestores.2) fun _ _ h => nomatch h
  · split
    · exact hi.disable view
    · exact hi

/-! ## Releasing -/

/-- A failure that comes before its stop is cancelled does not arm a cancelled stop. -/
theorem Inv.recordDeliveryFailure (hi : Inv (some view) state) {fired : ArmedAutoContinue}
    {stop : Stop View} (hfor : stop.cancelled = false →
      StopFor state.stops view fired.stop fired.agent fired.sessionId stop)
    (hpane : ∀ old, state.panes view = some old →
      PaneInv state.stops state.now state.entries view { old with armed := none } ∧
      (∀ pending, old.pendingUsageConfirmation = some pending → fired.stop ≠ pending.stop) ∧
      (old.enabled = true → fired.deliveryAttempts < maxDeliveryAttempts → stop.cancelled = false))
    (hcount : stop.released = stop.failed) (hfailed : stop.failed ≤ fired.deliveryAttempts + 1)
    (hresets : ∀ r ∈ stop.resets, r ≤ state.now) :
    Inv none (state.recordDeliveryFailure view fired) := by
  unfold State.recordDeliveryFailure
  cases hold : state.panes view with
  | none =>
    show Inv none state
    refine { hi with panes := fun w pane _ hp => ?_ }
    refine hi.panes w pane (fun h => ?_) hp
    rw [Option.some.inj h, hold] at hp
    exact nomatch hp
  | some old =>
    obtain ⟨hinv, hne, hwanted⟩ := hpane old hold
    dsimp only
    rcases rearmAfterDeliveryFailure_cases old state.now fired with heq |
      ⟨henabled, hlt, pane', armed, heq, hrearms, hpending, hfire, hagent, hid, hstop, hattempts⟩
    · rw [heq]
      refine Inv.setPersistedArm (hi.setPane (fun p h => ?_) fun p h => ?_) _ none
      · obtain rfl := Option.some.inj h
        exact ⟨hinv.entry, hinv.armed, hinv.pending, hinv.distinct, hinv.disabled⟩
      · obtain rfl := Option.some.inj h
        exact ⟨old, hold, rfl, le_rfl, fun _ ha => nomatch ha⟩
    · rw [heq]
      have hcancelled := hwanted henabled hlt
      have harmed : ArmedInv state.stops view armed := by
        have h := hfor hcancelled
        rw [ArmedInv, hstop, hagent, hid, hattempts, hfire]
        exact ⟨stop, h, hcount, hfailed, hlt, after_retry hresets⟩
      refine Inv.putArmed hi hold hrearms.paneStep hrearms.armed ?_
      refine hrearms.paneInv hi hold henabled harmed fun pending hp => ?_
      have hp' := hpending.symm.trans hp
      exact ⟨hinv.pending pending hp', hstop ▸ hne pending hp'⟩

omit [DecidableEq View] in
/-- A pane only holds stops of its view, so that the history of a stop may change with its pane. -/
theorem Inv.modifyHeld (hi : Inv none state) {i : ℕ} {stop : Stop View} (f : Stop View → Stop View)
    (hget : state.stops[i]? = some stop) (hview : stop.view = view)
    (hreleased : ∀ released ∈ state.released, released.2.stop ≠ i) (hstopInv : StopInv (f stop)) :
    Inv (some view) (state.modifyStop i f) := by
  refine (hi.leave view).modifyStop i f (fun w pane hw hp hholds => ?_) hreleased
    fun stop' hget' => ?_
  · obtain ⟨stop', hget', hview', -⟩ := (hi.pane hp).holds hholds
    obtain rfl := Option.some.inj (hget.symm.trans hget')
    exact hw (hview'.symm.trans hview)
  · obtain rfl := Option.some.inj (hget.symm.trans hget')
    exact hstopInv

/-- What a release consumes and what it answers. -/
theorem Inv.prepareDueFire (hi : Inv none state) {generation : ℕ} {old : PaneAutoContinue}
    {expected : ArmedAutoContinue} (hold : state.panes view = some old)
    (hexpected : old.armedForGeneration generation = some expected)
    (hdue : expected.fireAt ≤ state.now) :
    Inv none (state.prepareDueFire view generation).1 ∧
      ∀ fired, (state.prepareDueFire view generation).2 = some fired → fired = expected ∧
        ∀ reset, exhaustionForAgent state.usage expected.agent = some (.resetsAt reset) →
          reset + autoContinueResetSlack ≤ state.now := by
  obtain ⟨harmed, -⟩ := of_armedForGeneration hexpected
  have hp := hi.pane hold
  have henabled : old.enabled = true := by
    by_contra h
    exact nomatch (hp.disabled (Bool.eq_false_iff.mpr h)).1.symm.trans harmed
  obtain ⟨⟨stop, hfor, hcount, hfailed, hattempts, hafter⟩, -⟩ := hp.armed expected harmed
  have hresets := hafter.le hdue
  unfold State.prepareDueFire
  rw [hold]
  dsimp only
  rw [hexpected]
  dsimp only
  rcases prepareDueFire_cases old state.now (exhaustionForAgent state.usage expected.agent)
    hexpected with ⟨hreset, heq⟩ |
      ⟨pane', armed, heq, hrearms, hpending, hlater, hagent, hid, hstop, hattempts'⟩
  · rw [heq]
    refine ⟨?_, fun fired h => ⟨(Option.some.inj h).symm, hreset⟩⟩
    have hne := hi.released_ne hfor.get hcount
    have hmodify := hi.modifyHeld (fun stop => { stop with released := stop.released + 1 })
      hfor.get hfor.view hne (by
        have h := hi.stops stop (List.mem_iff_getElem?.mpr ⟨_, hfor.get⟩)
        unfold StopInv at h ⊢
        dsimp only
        exact ⟨by omega, h.2⟩)
    have hget := getElem?_modifyStop (fun stop => { stop with released := stop.released + 1 })
      hfor.get
    have hrelease : Inv (some view) { (state.modifyStop expected.stop fun stop =>
        { stop with released := stop.released + 1 }) with
        released := state.released ++ [(view, expected)] } := by
      refine { hmodify with released := fun w fired h => ?_, nodup := ?_ }
      · rcases List.mem_append.mp h with h | h
        · exact hmodify.released w fired h
        · obtain ⟨rfl, rfl⟩ := Prod.mk.inj (List.mem_singleton.mp h)
          exact ⟨_, hget, hfor.view, hfor.agent, hfor.sessionId, congrArg (· + 1) hcount, hfailed,
            hattempts, hresets⟩
      · dsimp only
        rw [List.map_append, List.map_singleton]
        refine List.nodup_append.mpr ⟨hi.nodup, List.nodup_singleton _, fun i hi' j hj h => ?_⟩
        obtain ⟨released, hr, rfl⟩ := List.mem_map.mp hi'
        exact hne released hr (h.trans (List.mem_singleton.mp hj))
    refine Inv.setPersistedArm (hrelease.setPane (fun p h => ?_) fun p h => ?_) _ none
    · obtain rfl := Option.some.inj h
      refine ⟨hp.entry, fun _ ha => (nomatch ha), fun pending hpending => ?_,
        fun _ _ ha => (nomatch ha), fun hd => (nomatch henabled.symm.trans hd)⟩
      obtain ⟨stop', hfor', hrest⟩ := hp.pending pending hpending
      refine ⟨stop', { hfor' with get := ?_ }, hrest⟩
      exact (getElem?_modifyStop_ne _ (hp.distinct expected pending harmed hpending)).trans
        hfor'.get
    · obtain rfl := Option.some.inj h
      exact ⟨old, hold, rfl, le_rfl, fun _ ha => (nomatch ha)⟩
  · rw [heq]
    refine ⟨?_, fun fired h => nomatch h⟩
    have hinv : ArmedInv state.stops view armed := by
      rw [ArmedInv, hstop, hagent, hid, hattempts']
      refine ⟨stop, hfor, hcount, hfailed, hattempts, hafter.mono ?_⟩
      exact (div_second_mono hdue).trans hlater
    refine Inv.putArmed (hi.leave view) hold hrearms.paneStep hrearms.armed ?_
    refine hrearms.paneInv (hi.leave view) hold henabled hinv fun pending h => ?_
    have h' := hpending.symm.trans h
    exact ⟨hp.pending pending h', hstop ▸ hp.distinct expected pending harmed h'⟩

theorem of_exhaustedUntil {exhaustion : Option ExhaustionStatus} {reset : ℤ}
    (h : exhaustion.bind ExhaustionStatus.exhaustedUntil = some reset) :
    exhaustion = some (.resetsAt reset) := by
  obtain ⟨status, rfl, hstatus⟩ := Option.bind_eq_some_iff.mp h
  cases status with
  | resetsAt reset' =>
    obtain rfl := Option.some.inj hstatus
    rfl
  | notExhausted | resetUnknown => exact nomatch hstatus

/-- The usage data moves no arm to an earlier time. -/
def RefreshSound (state : State View) (view : View) : Prop :=
  ∀ pane session armed reset, state.panes view = some pane →
    state.sessions view = some session → state.availability view false = true →
    pane.armed = some armed →
    exhaustionForAgent state.usage session.agent = some (.resetsAt reset) → state.now < reset →
    armed.fireAt ≤ reset + autoContinueResetSlack

/-- A stop that the pane holds is armed at what was told of its reset. -/
theorem Inv.armTold (hi : Inv none state) (hold : state.panes view = some old)
    (henabled : old.enabled = true) {armed : ArmedAutoContinue} {reset : ℤ} {stop : Stop View}
    (hrearms : Rearms old pane armed)
    (hfor : StopFor state.stops view armed.stop armed.agent armed.sessionId stop)
    (hcount : stop.released = stop.failed) (hfailed : stop.failed ≤ armed.deliveryAttempts)
    (hattempts : armed.deliveryAttempts ≤ maxDeliveryAttempts)
    (hfire : armed.fireAt = reset + autoContinueResetSlack)
    (hafter : After stop.resets (armed.fireAt / second))
    (hpending : ∀ pending, pane.pendingUsageConfirmation = some pending →
      PendingInv state.stops state.now view pending ∧ armed.stop ≠ pending.stop) :
    Inv none ((state.modifyStop armed.stop fun stop =>
      { stop with resets := stop.resets ++ [reset] }).putArmed view pane armed) := by
  have hcounts := hi.stops stop (List.mem_iff_getElem?.mpr ⟨_, hfor.get⟩)
  have hmodify := hi.modifyHeld (fun stop => { stop with resets := stop.resets ++ [reset] })
    hfor.get hfor.view (hi.released_ne hfor.get hcount)
    ⟨hcounts.1, fun r hr => List.mem_append_left _ (hcounts.2 r hr)⟩
  have hget := getElem?_modifyStop (fun stop => { stop with resets := stop.resets ++ [reset] })
    hfor.get
  have harmed : ArmedInv (state.modifyStop armed.stop fun stop =>
      { stop with resets := stop.resets ++ [reset] }).stops view armed := by
    refine ⟨_, ⟨hget, hfor.view, hfor.cancelled, hfor.agent, hfor.sessionId⟩, hcount, hfailed,
      hattempts, fun r hr => ?_⟩
    rcases List.mem_append.mp hr with hr | hr
    · exact hafter r hr
    · rw [List.mem_singleton.mp hr, hfire, add_slack_div]
  refine Inv.putArmed hmodify hold hrearms.paneStep hrearms.armed ?_
  refine hrearms.paneInv hmodify hold henabled harmed fun pending h => ?_
  obtain ⟨⟨stop', hfor', hrest⟩, hne⟩ := hpending pending h
  refine ⟨⟨stop', { hfor' with get := ?_ }, hrest⟩, hne⟩
  exact (getElem?_modifyStop_ne _ hne).trans hfor'.get

theorem Inv.retryPendingUsageConfirmation (hi : Inv none state) (hsound : RefreshSound state view) :
    Inv none (state.retryPendingUsageConfirmation view) := by
  unfold State.retryPendingUsageConfirmation
  cases hold : state.panes view with
  | none => exact hi
  | some old =>
    cases hsession : state.sessions view with
    | none => exact hi
    | some session =>
      have hp := hi.pane hold
      dsimp only
      split
      · exact hi
      · rename_i henabled
        rw [Bool.not_eq_true', Bool.not_eq_false] at henabled
        split
        · exact (hi.disarm view).1
        · rename_i havailable
          rw [Bool.not_eq_true', Bool.not_eq_false] at havailable
          cases harmed : old.armed with
          | some current =>
            simp only [Option.isSome_some, if_true]
            obtain ⟨⟨stop, hfor, hcount, hfailed, hattempts, hafter⟩, -⟩ := hp.armed current harmed
            rcases reconcileReset_cases old state.now ((exhaustionForAgent state.usage
                session.agent).bind ExhaustionStatus.exhaustedUntil) with heq |
              ⟨reset, current', pane', armed, hreset, hnow, harmed', heq, hrearms, hpending, hfire,
                hagent, hid, hstop, hattempts'⟩
            · rw [heq]
              exact hi
            · rw [heq, hreset]
              obtain rfl := Option.some.inj (harmed.symm.trans harmed')
              have hlater := hsound old session current reset hold hsession havailable harmed
                (of_exhaustedUntil hreset) hnow
              refine hi.armTold hold henabled hrearms ?_ hcount ?_ ?_ hfire ?_ fun pending h => ?_
              · rw [hstop, hagent, hid]
                exact hfor
              · rwa [hattempts']
              · rwa [hattempts']
              · exact hafter.mono (div_second_mono (hfire ▸ hlater))
              · have h' := hpending.symm.trans h
                exact ⟨hp.pending pending h', hstop ▸ hp.distinct current pending harmed h'⟩
          | none =>
            simp only [Option.isSome_none, Bool.false_eq_true, if_false]
            rcases retryPendingUsageConfirmation_cases old state.now
                (resetForLimitStop state.usage session.agent none) with heq |
              ⟨reset, pending, pane', armed, hreset, hnow, hpending, heq, hrearms, hnone, hfire,
                hagent, hid, hstop, hattempts⟩
            · rw [heq]
              exact hi
            · rw [heq, hreset]
              obtain ⟨stop, hfor, hreleased, hfailed, hresets⟩ := hp.pending pending hpending
              refine hi.armTold hold henabled hrearms ?_ (hreleased.trans hfailed.symm) ?_ ?_ hfire
                ?_ fun _ h => nomatch hnone.symm.trans h
              · rw [hstop, hagent, hid]
                exact hfor
              · exact hfailed.le.trans (Nat.zero_le _)
              · exact hattempts.le.trans (Nat.zero_le _)
              · rw [hfire]
                exact after_of_le fun r hr => (hresets r hr).trans hnow.le

/-- A failure is reported before its stop is cancelled. -/
def FailureSound (state : State View) (index : ℕ) : Prop :=
  ∀ view fired pane stop, state.released[index]? = some (view, fired) →
    state.panes view = some pane → pane.enabled = true →
    fired.deliveryAttempts < maxDeliveryAttempts → state.stops[fired.stop]? = some stop →
    stop.cancelled = false

theorem Inv.deliveryFails (hi : Inv none state) {index : ℕ} (hsound : FailureSound state index) :
    Inv none (state.deliveryFails index) := by
  unfold State.deliveryFails
  cases hget : state.released[index]? with
  | none => exact hi
  | some released =>
    obtain ⟨view, fired⟩ := released
    dsimp only
    have hmem : (view, fired) ∈ state.released := List.mem_of_getElem? hget
    obtain ⟨stop, hgetStop, hview, hagent, hid, hcount, hfailed, hattempts, hresets⟩ :=
      hi.released view fired hmem
    have hstopInv := hi.stops stop (List.mem_iff_getElem?.mpr ⟨_, hgetStop⟩)
    have hother : ∀ released ∈ state.released.eraseIdx index, released.2.stop ≠ fired.stop := by
      intro released hr heq
      obtain ⟨i, hne, hi'⟩ := List.mem_eraseIdx_iff_getElem?.mp hr
      refine hne ((List.getElem?_inj ?_ hi.nodup).mp ?_)
      · rw [List.length_map]
        exact (List.getElem?_eq_some_iff.mp hi').1
      · rw [List.getElem?_map, List.getElem?_map, hi', hget]
        exact congrArg some heq
    have herase : Inv none { state with released := state.released.eraseIdx index } :=
      { hi with
        released := fun w fired h => hi.released w fired (List.mem_of_mem_eraseIdx h)
        nodup := hi.nodup.sublist ((List.eraseIdx_sublist _ _).map _) }
    have hmodify := herase.modifyHeld (fun stop => { stop with failed := stop.failed + 1 })
      hgetStop hview hother (by
        unfold StopInv at hstopInv ⊢
        dsimp only
        exact ⟨by omega, hstopInv.2⟩)
    have hget' : (State.modifyStop { state with released := state.released.eraseIdx index }
        fired.stop fun stop => { stop with failed := stop.failed + 1 }).stops[fired.stop]? =
          some { stop with failed := stop.failed + 1 } := getElem?_modifyStop _ hgetStop
    refine hmodify.recordDeliveryFailure (fun hcancelled => ⟨hget', hview, hcancelled, hagent, hid⟩)
      (fun old hold => ?_) hcount (Nat.succ_le_succ hfailed) hresets
    have hp := hi.pane hold
    have hne : ∀ pending, old.pendingUsageConfirmation = some pending →
        fired.stop ≠ pending.stop := by
      intro pending hpending h
      obtain ⟨stop', hfor', hreleased', -⟩ := hp.pending pending hpending
      obtain rfl := Option.some.inj (hgetStop.symm.trans (h ▸ hfor'.get))
      omega
    refine ⟨⟨hp.entry, fun _ ha => (nomatch ha), fun pending hpending => ?_,
      fun _ _ ha => (nomatch ha), fun hd => ⟨rfl, (hp.disabled hd).2⟩⟩, hne, fun henabled hlt => ?_⟩
    · obtain ⟨stop', hfor', hrest⟩ := hp.pending pending hpending
      refine ⟨stop', { hfor' with get := ?_ }, hrest⟩
      exact (getElem?_modifyStop_ne _ (hne pending hpending)).trans hfor'.get
    · exact hsound view fired old stop hget hold henabled hlt hgetStop

/-- What a continue is released for, in answer to which timer. -/
structure ReleaseSafe (state : State View) (release : Release View) : Prop where
  /-- The timer was scheduled for what is armed, which the release consumes. -/
  timer : release.timer ∈ state.timers ∧ release.timer.generation = release.fired.generation ∧
    release.timer.fireAt = release.fired.fireAt
  pane : ∃ pane, state.panes release.timer.view = some pane ∧ pane.armed = some release.fired ∧
    pane.entry = release.timer.entry
  /-- The view runs the session that stopped. -/
  session : ∃ session, state.sessions release.timer.view = some session ∧
    session.agent = release.fired.agent ∧ session.sessionId = release.fired.sessionId
  /-- Nothing has cancelled the stop, and what was told of its reset is over. -/
  stop : ∃ stop, state.stops[release.fired.stop]? = some stop ∧ stop.view = release.timer.view ∧
    stop.cancelled = false ∧ stop.agent = release.fired.agent ∧
    stop.sessionId.map trimChars = release.fired.sessionId.map trimChars ∧
    (∀ reset, stop.statedReset = some reset → reset ≤ state.now) ∧
    ∀ reset ∈ stop.resets, reset ≤ state.now
  usage : ∀ reset, exhaustionForAgent state.usage release.fired.agent = some (.resetsAt reset) →
    reset ≤ state.now

/-- A timer that is due and whose generation is armed was scheduled for what is armed. -/
def TimerSound (state : State View) (index : ℕ) : Prop :=
  ∀ timer pane armed, state.timers[index]? = some timer → timer.fireAt ≤ state.now →
    state.panes timer.view = some pane → pane.armedForGeneration timer.generation = some armed →
    pane.entry = timer.entry

theorem Inv.timerFires (hi : Inv none state) {index : ℕ} (hsound : TimerSound state index)
    (viewer foreground : Bool) :
    Inv none (state.timerFires index viewer foreground).1 ∧
      ∀ release, (state.timerFires index viewer foreground).2 = some release →
        ReleaseSafe state release := by
  unfold State.timerFires
  have herase : Inv none { state with timers := state.timers.eraseIdx index } :=
    { hi with timers := fun timer ht => hi.timers timer (List.mem_of_mem_eraseIdx ht) }
  cases hget : state.timers[index]? with
  | none => exact ⟨hi, fun _ h => nomatch h⟩
  | some timer =>
    dsimp only
    split
    · split
      · exact ⟨hi, fun _ h => nomatch h⟩
      · exact ⟨herase, fun _ h => nomatch h⟩
    · rename_i hdue
      have hnow : timer.fireAt ≤ state.now := not_lt.mp hdue
      unfold State.fireAutoContinueIfStillArmed
      split
      · exact ⟨(herase.disarm timer.view).1, fun _ h => nomatch h⟩
      · cases hexpected : (state.panes timer.view).bind (·.armedForGeneration timer.generation) with
        | none => exact ⟨herase, fun _ h => nomatch h⟩
        | some expected =>
          obtain ⟨pane, hold, harmedFor⟩ := Option.bind_eq_some_iff.mp hexpected
          obtain ⟨harmed, hgeneration⟩ := of_armedForGeneration harmedFor
          have hentry := hsound timer pane expected hget hnow hold harmedFor
          have hfire : expected.fireAt = timer.fireAt :=
            ((hi.timers timer (List.mem_of_getElem? hget)).2 pane hold hentry).2 expected harmed
              hgeneration
          have hp := hi.pane hold
          obtain ⟨⟨stop, hfor, hcount, hfailed, hattempts, hafter⟩, -⟩ := hp.armed expected harmed
          have hresets := hafter.le (hfire ▸ hnow)
          dsimp only
          split
          · exact ⟨(herase.disarm timer.view).1, fun _ h => nomatch h⟩
          · rename_i hmatches
            split
            · refine ⟨(herase.leave timer.view).recordDeliveryFailure (fun _ => hfor)
                (fun old hold' => ?_) hcount (hfailed.trans (Nat.le_succ _)) hresets,
                fun _ h => nomatch h⟩
              obtain rfl := Option.some.inj (hold.symm.trans hold')
              exact ⟨⟨hp.entry, fun _ ha => (nomatch ha), hp.pending, fun _ _ ha => (nomatch ha),
                fun hd => ⟨rfl, (hp.disabled hd).2⟩⟩,
                fun pending h => hp.distinct expected pending harmed h, fun _ _ => hfor.cancelled⟩
            · obtain ⟨hinv, hrelease⟩ := herase.prepareDueFire hold harmedFor (hfire ▸ hnow)
              refine ⟨hinv, fun release h => ?_⟩
              obtain ⟨fired, hfired, rfl⟩ := Option.map_eq_some_iff.mp h
              obtain ⟨rfl, husage⟩ := hrelease fired hfired
              rw [Bool.not_eq_true', Bool.not_eq_false] at hmatches
              obtain ⟨session, hsession, hlive⟩ := (Option.any_eq_true _ _).mp hmatches
              obtain ⟨hagent, -, hid⟩ := of_decide_eq_true hlive
              have hstated := (hi.stops stop (List.mem_iff_getElem?.mpr ⟨_, hfor.get⟩)).2
              exact
                { timer := ⟨List.mem_of_getElem? hget, hgeneration.symm, hfire.symm⟩
                  pane := ⟨pane, hold, harmed, hentry⟩
                  session := ⟨session, hsession, hagent, hid⟩
                  stop := ⟨stop, hfor.get, hfor.view, hfor.cancelled, hfor.agent, hfor.sessionId,
                    fun reset h => hresets reset (hstated reset h), hresets⟩
                  usage := fun reset h =>
                    (le_add_of_nonneg_right (by decide)).trans (husage reset h) }

end State

end Clinch.AutoContinue
