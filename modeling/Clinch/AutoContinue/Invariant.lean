import Clinch.AutoContinue.Model

/-!
# What holds in every state

A stop is armed or waits in at most one pane, that of its own view, and only while it is not
cancelled; what is armed comes after each reset that was told for it.

* `ArmedInv`, `PendingInv`, `PaneInv`: a pane;
* `Inv`: the state, with one view left out while it changes;
* `PaneStep`, `Inv.setPane`, `Inv.putArmed`, `Inv.modifyStop`, `Inv.cancelStops`: the steps that the
  methods are made of.
-/

set_option autoImplicit false

namespace Clinch.AutoContinue

variable {View : Type}

/-- It comes after the resets, and a minute after in whole seconds. -/
def After (resets : List ℤ) (seconds : ℤ) : Prop := ∀ r ∈ resets, r / second + 60 ≤ seconds

/-- The stop that a pane is to continue after. -/
structure StopFor (stops : List (Stop View)) (view : View) (i : ℕ) (agent : CLIAgent)
    (sessionId : Option (List Char)) (stop : Stop View) : Prop where
  get : stops[i]? = some stop
  view : stop.view = view
  cancelled : stop.cancelled = false
  agent : stop.agent = agent
  sessionId : stop.sessionId.map trimChars = sessionId.map trimChars

/-- What is armed, all releases for which have failed. -/
def ArmedInv (stops : List (Stop View)) (view : View) (armed : ArmedAutoContinue) : Prop :=
  ∃ stop, StopFor stops view armed.stop armed.agent armed.sessionId stop ∧
    stop.released = stop.failed ∧ stop.failed ≤ armed.deliveryAttempts ∧
    armed.deliveryAttempts ≤ maxDeliveryAttempts ∧ After stop.resets (armed.fireAt / second)

/-- What waits for a reset; those that were told for it are over. -/
def PendingInv (stops : List (Stop View)) (now : ℤ) (view : View)
    (pending : PendingUsageConfirmation) : Prop :=
  ∃ stop, StopFor stops view pending.stop pending.agent pending.sessionId stop ∧
    stop.released = 0 ∧ stop.failed = 0 ∧ ∀ r ∈ stop.resets, r ≤ now

structure PaneInv (stops : List (Stop View)) (now : ℤ) (entries : ℕ) (view : View)
    (pane : PaneAutoContinue) : Prop where
  entry : pane.entry < entries
  armed : ∀ armed, pane.armed = some armed →
    ArmedInv stops view armed ∧ armed.generation ≤ pane.generation
  pending : ∀ pending, pane.pendingUsageConfirmation = some pending →
    PendingInv stops now view pending
  distinct : ∀ armed pending, pane.armed = some armed →
    pane.pendingUsageConfirmation = some pending → armed.stop ≠ pending.stop
  disabled : pane.enabled = false → pane.armed = none ∧ pane.pendingUsageConfirmation = none

/-- A timer is for what was armed in its entry of the pane. -/
def TimerInv (panes : View → Option PaneAutoContinue) (timer : Timer View) : Prop :=
  ∀ pane, panes timer.view = some pane → pane.entry = timer.entry →
    timer.generation ≤ pane.generation ∧
      ∀ armed, pane.armed = some armed → armed.generation = timer.generation →
        armed.fireAt = timer.fireAt

/-- A release that was not reported to have failed. -/
def ReleasedInv (stops : List (Stop View)) (now : ℤ) (view : View)
    (fired : ArmedAutoContinue) : Prop :=
  ∃ stop, stops[fired.stop]? = some stop ∧ stop.view = view ∧ stop.agent = fired.agent ∧
    stop.sessionId.map trimChars = fired.sessionId.map trimChars ∧
    stop.released = stop.failed + 1 ∧ stop.failed ≤ fired.deliveryAttempts ∧
    fired.deliveryAttempts ≤ maxDeliveryAttempts ∧ ∀ r ∈ stop.resets, r ≤ now

/-- At most one release has not failed, the retries are bounded, and what the provider stated was
told. -/
def StopInv (stop : Stop View) : Prop :=
  (stop.failed ≤ stop.released ∧ stop.released ≤ stop.failed + 1 ∧
    stop.released ≤ maxDeliveryAttempts + 1) ∧
    ∀ reset, stop.statedReset = some reset → reset ∈ stop.resets

/-- What holds in every state, but for the pane of one view. -/
structure Inv (except : Option View) (state : State View) : Prop where
  panes : ∀ view pane, some view ≠ except → state.panes view = some pane →
    PaneInv state.stops state.now state.entries view pane
  entries : ∀ view pane, state.panes view = some pane → pane.entry < state.entries
  timers : ∀ timer ∈ state.timers, timer.entry < state.entries ∧ TimerInv state.panes timer
  released : ∀ view fired, (view, fired) ∈ state.released →
    ReleasedInv state.stops state.now view fired
  nodup : (state.released.map fun released => released.2.stop).Nodup
  stops : ∀ stop ∈ state.stops, StopInv stop

/-! ## Times -/

theorem div_second_mono {a b : ℤ} (h : a ≤ b) : a / second ≤ b / second :=
  Int.ediv_le_ediv (by decide) h

theorem add_slack_div (a : ℤ) : (a + autoContinueResetSlack) / second = a / second + 60 :=
  Int.add_mul_ediv_right a 60 (by decide)

theorem After.mono {resets : List ℤ} {a b : ℤ} (h : After resets a) (hab : a ≤ b) :
    After resets b := fun r hr => (h r hr).trans hab

/-- Once it is due, the resets are over. -/
theorem After.le {resets : List ℤ} {fireAt now : ℤ} (h : After resets (fireAt / second))
    (hnow : fireAt ≤ now) : ∀ r ∈ resets, r ≤ now := by
  intro r hr
  by_contra hlt
  have h₁ := h r hr
  have h₂ : now / second ≤ r / second := div_second_mono (not_le.mp hlt).le
  have h₃ := div_second_mono hnow
  omega

theorem after_of_le {resets : List ℤ} {until_ : ℤ} (h : ∀ r ∈ resets, r ≤ until_) :
    After resets ((until_ + autoContinueResetSlack) / second) := by
  intro r hr
  rw [add_slack_div]
  have := div_second_mono (h r hr)
  omega

theorem after_retry {resets : List ℤ} {now : ℤ} (h : ∀ r ∈ resets, r ≤ now) :
    After resets ((now + autoContinueRetry) / second) := after_of_le h

/-! ## Leaving a view out -/

section Steps

variable {state : State View} {view : View}

theorem Inv.leave (hi : Inv none state) (view : View) : Inv (some view) state :=
  { hi with panes := fun w pane _ h => hi.panes w pane (Option.some_ne_none w) h }

theorem Inv.pane (hi : Inv none state) {pane : PaneAutoContinue}
    (h : state.panes view = some pane) :
    PaneInv state.stops state.now state.entries view pane :=
  hi.panes view pane (Option.some_ne_none view) h

/-- Only the time, the usage, the sessions or the settings change. -/
theorem Inv.elapse {except : Option View} (hi : Inv except state) {state' : State View}
    (hnow : state.now ≤ state'.now) (hpanes : state'.panes = state.panes)
    (htimers : state'.timers = state.timers)
    (hreleased : state'.released = state.released) (hstops : state'.stops = state.stops)
    (hentries : state'.entries = state.entries) : Inv except state' where
  panes w pane hw hp := by
    rw [hpanes] at hp
    obtain ⟨hentry, harmed, hpending, hdistinct, hdisabled⟩ := hi.panes w pane hw hp
    rw [hstops, hentries]
    refine ⟨hentry, harmed, fun pending h => ?_, hdistinct, hdisabled⟩
    obtain ⟨stop, hstop, hreleased, hfailed, hresets⟩ := hpending pending h
    exact ⟨stop, hstop, hreleased, hfailed, fun r hr => (hresets r hr).trans hnow⟩
  entries w pane hp := by
    rw [hpanes] at hp
    rw [hentries]
    exact hi.entries w pane hp
  timers timer ht := by
    rw [hpanes, hentries]
    exact hi.timers timer (htimers ▸ ht)
  released w fired h := by
    rw [hreleased] at h
    obtain ⟨stop, hget, hview, hagent, hid, hcount, hfailed, hattempts, hresets⟩ :=
      hi.released w fired h
    rw [hstops]
    exact ⟨stop, hget, hview, hagent, hid, hcount, hfailed, hattempts,
      fun r hr => (hresets r hr).trans hnow⟩
  nodup := hreleased ▸ hi.nodup
  stops := hstops ▸ hi.stops

/-- A step of a pane: what is armed is armed already, or has a later generation. -/
structure PaneStep (pane pane' : PaneAutoContinue) : Prop where
  entry : pane'.entry = pane.entry
  generation : pane.generation ≤ pane'.generation
  armed : ∀ armed, pane'.armed = some armed →
    pane.armed = some armed ∨ pane.generation < armed.generation

theorem PaneStep.refl (pane : PaneAutoContinue) : PaneStep pane pane :=
  ⟨rfl, le_rfl, fun _ => Or.inl⟩

variable [DecidableEq View]

omit [DecidableEq View] in
theorem TimerInv.of_ne {panes panes' : View → Option PaneAutoContinue} {timer : Timer View}
    (h : TimerInv panes timer) (heq : panes' timer.view = panes timer.view) :
    TimerInv panes' timer := by
  unfold TimerInv
  rw [heq]
  exact h

@[simp] theorem State.setPane_self (state : State View) (pane : Option PaneAutoContinue) :
    (state.setPane view pane).panes view = pane := Function.update_self _ _ _

theorem State.setPane_of_ne {w : View} (state : State View) (pane : Option PaneAutoContinue)
    (h : w ≠ view) : (state.setPane view pane).panes w = state.panes w :=
  Function.update_of_ne h _ _

/-- A pane is replaced, or removed. -/
theorem Inv.setPane {pane' : Option PaneAutoContinue} (hi : Inv (some view) state)
    (hpane : ∀ pane, pane' = some pane → PaneInv state.stops state.now state.entries view pane)
    (hstep : ∀ pane, pane' = some pane → ∃ old, state.panes view = some old ∧ PaneStep old pane) :
    Inv none (state.setPane view pane') where
  panes w pane _ hp := by
    by_cases hw : w = view
    · rw [hw, State.setPane_self] at hp
      exact hw ▸ hpane pane hp
    · rw [State.setPane_of_ne _ _ hw] at hp
      exact hi.panes w pane (fun h => hw (Option.some.inj h)) hp
  entries w pane hp := by
    by_cases hw : w = view
    · rw [hw, State.setPane_self] at hp
      exact (hpane pane hp).entry
    · rw [State.setPane_of_ne _ _ hw] at hp
      exact hi.entries w pane hp
  timers timer ht := by
    obtain ⟨hentry, htimer⟩ := hi.timers timer ht
    refine ⟨hentry, ?_⟩
    by_cases hw : timer.view = view
    · intro pane hp hpentry
      rw [hw, State.setPane_self] at hp
      obtain ⟨old, hold, hstep⟩ := hstep pane hp
      obtain ⟨hgeneration, harmed⟩ := htimer old (hw ▸ hold) (hstep.entry ▸ hpentry)
      refine ⟨hgeneration.trans hstep.generation, fun armed ha hg => ?_⟩
      rcases hstep.armed armed ha with ha | hlt
      · exact harmed armed ha hg
      · omega
    · exact htimer.of_ne (State.setPane_of_ne _ _ hw)
  released := hi.released
  nodup := hi.nodup
  stops := hi.stops

omit [DecidableEq View] in
/-- What is persisted changes. -/
theorem Inv.setPersistedArm {except : Option View} (hi : Inv except state) (key : Option Key)
    (armed : Option ArmedAutoContinue) : Inv except (state.setPersistedArm key armed) := by
  unfold State.setPersistedArm
  cases key with
  | none => exact hi
  | some key => exact { hi with }

omit [DecidableEq View] in
@[simp] theorem State.setPersistedArm_panes (state : State View) (key : Option Key)
    (armed : Option ArmedAutoContinue) :
    (state.setPersistedArm key armed).panes = state.panes := by
  unfold State.setPersistedArm
  cases key <;> rfl

omit [DecidableEq View] in
/-- A timer is scheduled for what is armed. -/
theorem Inv.scheduleTimer (hi : Inv none state) {pane : PaneAutoContinue}
    {armed : ArmedAutoContinue} (hp : state.panes view = some pane)
    (ha : pane.armed = some armed) : Inv none (state.scheduleTimer view pane.entry armed) := by
  refine { hi with timers := fun timer ht => ?_ }
  rcases List.mem_append.mp ht with ht | ht
  · exact hi.timers timer ht
  · rw [List.mem_singleton.mp ht]
    refine ⟨hi.entries view pane hp, fun pane' hp' _ => ?_⟩
    obtain rfl := Option.some.inj (hp.symm.trans hp')
    refine ⟨((hi.pane hp).armed armed ha).2, fun armed' ha' _ => ?_⟩
    rw [Option.some.inj (ha.symm.trans ha')]

/-- A pane arms. -/
theorem Inv.putArmed (hi : Inv (some view) state) {old pane : PaneAutoContinue}
    {armed : ArmedAutoContinue} (hold : state.panes view = some old)
    (hstep : PaneStep old pane) (ha : pane.armed = some armed)
    (hpane : PaneInv state.stops state.now state.entries view pane) :
    Inv none (state.putArmed view pane armed) := by
  have hset : Inv none (state.setPane view (some pane)) := by
    refine hi.setPane (fun p hp => ?_) fun p hp => ?_
    · exact Option.some.inj hp ▸ hpane
    · exact ⟨old, hold, Option.some.inj hp ▸ hstep⟩
  refine (hset.setPersistedArm pane.persistenceKey (some armed)).scheduleTimer ?_ ha
  rw [State.setPersistedArm_panes, State.setPane_self]

/-- What a pane holds of a stop. -/
def PaneAutoContinue.Holds (pane : PaneAutoContinue) (i : ℕ) : Prop :=
  (∃ armed, pane.armed = some armed ∧ armed.stop = i) ∨
    ∃ pending, pane.pendingUsageConfirmation = some pending ∧ pending.stop = i

omit [DecidableEq View] in
/-- Only what it holds matters to a pane. -/
theorem PaneInv.of_stops {stops stops' : List (Stop View)} {now : ℤ} {entries : ℕ}
    {pane : PaneAutoContinue} (h : PaneInv stops now entries view pane)
    (hstops : ∀ i, pane.Holds i → ∀ stop, stops[i]? = some stop → stop.view = view →
      stops'[i]? = some stop) : PaneInv stops' now entries view pane where
  entry := h.entry
  armed armed ha := by
    obtain ⟨⟨stop, hstop, hrest⟩, hgeneration⟩ := h.armed armed ha
    have hget := hstops armed.stop (Or.inl ⟨armed, ha, rfl⟩) stop hstop.get hstop.view
    exact ⟨⟨stop, { hstop with get := hget }, hrest⟩, hgeneration⟩
  pending pending hp := by
    obtain ⟨stop, hstop, hrest⟩ := h.pending pending hp
    have hget := hstops pending.stop (Or.inr ⟨pending, hp, rfl⟩) stop hstop.get hstop.view
    exact ⟨stop, { hstop with get := hget }, hrest⟩
  distinct := h.distinct
  disabled := h.disabled

omit [DecidableEq View] in
/-- What a pane holds is of its view. -/
theorem PaneInv.holds {stops : List (Stop View)} {now : ℤ} {entries i : ℕ}
    {pane : PaneAutoContinue} (h : PaneInv stops now entries view pane) (hi : pane.Holds i) :
    ∃ stop, stops[i]? = some stop ∧ stop.view = view ∧ stop.released = stop.failed := by
  rcases hi with ⟨armed, ha, rfl⟩ | ⟨pending, hp, rfl⟩
  · obtain ⟨⟨stop, hstop, hcount, -⟩, -⟩ := h.armed armed ha
    exact ⟨stop, hstop.get, hstop.view, hcount⟩
  · obtain ⟨stop, hstop, hreleased, hfailed, -⟩ := h.pending pending hp
    exact ⟨stop, hstop.get, hstop.view, hreleased.trans hfailed.symm⟩

omit [DecidableEq View] in
/-- The history of a stop changes that no other pane holds. -/
theorem Inv.modifyStop (hi : Inv (some view) state) (i : ℕ) (f : Stop View → Stop View)
    (hother : ∀ w pane, w ≠ view → state.panes w = some pane → ¬ pane.Holds i)
    (hreleased : ∀ released ∈ state.released, released.2.stop ≠ i)
    (hstops : ∀ stop, state.stops[i]? = some stop → StopInv (f stop)) :
    Inv (some view) (state.modifyStop i f) where
  panes w pane hw hp := by
    refine (hi.panes w pane hw hp).of_stops fun j hj stop hget _ => ?_
    have hne : i ≠ j := fun h => hother w pane (fun h => hw (congrArg some h)) hp (h ▸ hj)
    show (state.stops.modify i f)[j]? = some stop
    rw [List.getElem?_modify, hget]
    exact congrArg some (if_neg hne)
  entries := hi.entries
  timers := hi.timers
  released w fired h := by
    obtain ⟨stop, hget, hrest⟩ := hi.released w fired h
    have hne : i ≠ fired.stop := fun h' => hreleased _ h h'.symm
    refine ⟨stop, ?_, hrest⟩
    show (state.stops.modify i f)[fired.stop]? = some stop
    rw [List.getElem?_modify, hget]
    exact congrArg some (if_neg hne)
  nodup := hi.nodup
  stops stop hs := by
    obtain ⟨j, hj⟩ := List.mem_iff_getElem?.mp hs
    change (state.stops.modify i f)[j]? = some stop at hj
    rw [List.getElem?_modify] at hj
    obtain ⟨old, hold, rfl⟩ := Option.map_eq_some_iff.mp hj
    by_cases hij : i = j
    · rw [if_pos hij]
      exact hstops old (hij ▸ hold)
    · rw [if_neg hij]
      exact hi.stops old (List.mem_iff_getElem?.mpr ⟨j, hold⟩)

/-- The stops of a view are cancelled whose pane holds nothing. -/
theorem Inv.cancelStops (hi : Inv none state) (which : Stop View → Bool)
    (hpane : ∀ pane, state.panes view = some pane → ∀ i, ¬ pane.Holds i) :
    Inv none (state.cancelStops view which) where
  panes w pane hw hp := by
    refine (hi.panes w pane hw hp).of_stops fun j hj stop hget hview => ?_
    have hne : stop.view ≠ view := fun h => hpane pane ((hview.symm.trans h) ▸ hp) j hj
    show (state.stops.map _)[j]? = some stop
    rw [List.getElem?_map, hget, Option.map_some, if_neg fun h => hne h.1]
  entries := hi.entries
  timers := hi.timers
  released w fired h := by
    obtain ⟨stop, hget, hrest⟩ := hi.released w fired h
    refine ⟨_, (List.getElem?_map ..).trans (congrArg (Option.map _) hget), ?_⟩
    dsimp only
    split <;> exact hrest
  nodup := hi.nodup
  stops stop hs := by
    obtain ⟨old, hold, rfl⟩ := List.mem_map.mp hs
    split <;> exact hi.stops old hold

omit [DecidableEq View] in
/-- A new stop. -/
theorem Inv.appendStop {except : Option View} (hi : Inv except state) (stop : Stop View)
    (hstopInv : StopInv stop) :
    Inv except { state with stops := state.stops ++ [stop] } where
  panes w pane hw hp := by
    refine (hi.panes w pane hw hp).of_stops fun j _ old hget _ => ?_
    rw [List.getElem?_append_left (List.getElem?_eq_some_iff.mp hget).1, hget]
  entries := hi.entries
  timers := hi.timers
  released w fired h := by
    obtain ⟨old, hget, hrest⟩ := hi.released w fired h
    refine ⟨old, ?_, hrest⟩
    rw [List.getElem?_append_left (List.getElem?_eq_some_iff.mp hget).1, hget]
  nodup := hi.nodup
  stops old hs := by
    rcases List.mem_append.mp hs with hs | hs
    · exact hi.stops old hs
    · exact List.mem_singleton.mp hs ▸ hstopInv

end Steps

end Clinch.AutoContinue
