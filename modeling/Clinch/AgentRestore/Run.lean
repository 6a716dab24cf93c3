import Clinch.AgentRestore.Invariant

/-!
# Runs of the restore queue

Terminals are opened, closed, shown and typed into, and their sessions, screens and shells say what
they say; the queue is called and its ticks fire, each at any later time.

* `State`, `Event`, `State.act`, `State.acts`: the events, and what they do;
* `StateInv`, **`StateInv.acts`**: the invariant, kept by every event and every run;
* `act_released`, `act_sent`, `act_recorded`: what an event of a run can be seen to do;
* **`restore_safe`**: the properties of every run;
* `working_drops_claim`: an agent that carries on by itself is no longer recorded.
-/

set_option autoImplicit false

namespace Clinch.AgentRestore

variable {Id Uuid Key : Type} [DecidableEq Id] [DecidableEq Uuid]

/-- The queue, the terminals and the ticks that are scheduled. -/
structure State (Id Uuid Key : Type) where
  now : ℕ
  views : Views Id Key
  /-- The terminals that were ever opened: an id is never used again. -/
  opened : List Id
  queue : AgentRestoreQueue Id Uuid Key
  scheduled : ℕ

/-- `start_tracking_interrupted_turns`, before any window restores. -/
def State.initial (interrupted : Finset Uuid) : State Id Uuid Key where
  now := 0
  views := fun _ => none
  opened := []
  queue := ⟨[], false, none, interrupted, none⟩
  scheduled := 0

inductive Event (Id Uuid Key : Type)
  | elapse (duration : ℕ)
  | openTerminal (terminal : Id) (readings : Readings Key) (deferredAgentStart : Bool)
  | closeTerminal (terminal : Id)
  | userInput (terminal : Id)
  | read (terminal : Id) (readings : Readings Key)
  | showTerminal (terminal : Id)
  | enqueue (terminal : Id) (paneUuid : Uuid) (key : Key)
  | sessionEvent (terminal : Id)
  | retryStalled
  | record (quitting : Bool) (midTurn : Finset Uuid)
  | tick

namespace State

variable (self : State Id Uuid Key)

/-- One more scheduled tick. -/
def scheduleIf (scheduled : Bool) : State Id Uuid Key :=
  { self with scheduled := self.scheduled + scheduled.toNat }

/-- A new terminal; its id was never used. -/
def openTerminal (terminal : Id) (readings : Readings Key) (deferredAgentStart : Bool) :
    State Id Uuid Key :=
  if terminal ∈ self.opened then self
  else
    let view : View Key :=
      { toReadings := readings
        deferredAgentStart
        backgroundAgentRestore := false
        userInputEpoch := 0 }
    { self with
      views := Function.update self.views terminal (some view)
      opened := terminal :: self.opened }

def closeTerminal (terminal : Id) : State Id Uuid Key × List (Effect Id Uuid) :=
  if (self.views terminal).isNone then (self, [])
  else ({ self with views := Function.update self.views terminal none }, [.closed terminal])

def userInput (terminal : Id) : State Id Uuid Key × List (Effect Id Uuid) :=
  if (self.views terminal).isNone then (self, [])
  else
    ({ self with views := mapView self.views terminal fun view =>
        { view with userInputEpoch := view.userInputEpoch + 1 } }, [.typed terminal])

/-- The session, the screen or the shell of a terminal change. -/
def read (terminal : Id) (readings : Readings Key) : State Id Uuid Key :=
  { self with views := mapView self.views terminal fun view => { view with toReadings := readings } }

/-- `mark_as_visible`, or a local-control delivery. -/
def showTerminal (terminal : Id) : State Id Uuid Key :=
  { self with views := mapView self.views terminal fun view => view.startDeferredAgent.2 }

def enqueue [DecidableEq Key] (terminal : Id) (paneUuid : Uuid) (key : Key) :
    State Id Uuid Key × List (Effect Id Uuid) :=
  if (self.views terminal).isNone then (self, [])
  else
    let (queue, views, effects, scheduled) := self.queue.enqueue self.views terminal paneUuid key
    ({ self with queue, views }.scheduleIf scheduled, effects)

def sessionEvent (terminal : Id) : State Id Uuid Key :=
  let (queue, scheduled) := self.queue.onSessionEvent terminal
  { self with queue }.scheduleIf scheduled

def retryStalled : State Id Uuid Key × List (Effect Id Uuid) :=
  let (queue, views, effects, scheduled) := self.queue.retryStalled self.views
  ({ self with queue, views }.scheduleIf scheduled, effects)

def record (quitting : Bool) (midTurn : Finset Uuid) : State Id Uuid Key × List (Effect Id Uuid) :=
  let (queue, effects) := self.queue.recordInterruptedTurns quitting midTurn
  ({ self with queue }, effects)

/-- A scheduled tick fires. -/
def tick [DecidableEq Key] : State Id Uuid Key × List (Effect Id Uuid) :=
  if self.scheduled = 0 then (self, [])
  else
    let (queue, views, effects, scheduled) := self.queue.tick self.now self.views
    ({ self with queue, views, scheduled := self.scheduled - 1 }.scheduleIf scheduled, effects)

/-- What an event does; one that cannot happen does nothing. -/
def act [DecidableEq Key] : Event Id Uuid Key → State Id Uuid Key × List (Effect Id Uuid)
  | .elapse duration => ({ self with now := self.now + duration }, [])
  | .openTerminal terminal readings deferredAgentStart =>
    (self.openTerminal terminal readings deferredAgentStart, [])
  | .closeTerminal terminal => self.closeTerminal terminal
  | .userInput terminal => self.userInput terminal
  | .read terminal readings => (self.read terminal readings, [])
  | .showTerminal terminal => (self.showTerminal terminal, [])
  | .enqueue terminal paneUuid key => self.enqueue terminal paneUuid key
  | .sessionEvent terminal => (self.sessionEvent terminal, [])
  | .retryStalled => self.retryStalled
  | .record quitting midTurn => self.record quitting midTurn
  | .tick => self.tick

end State

/-- What events lead to, one after the other, with what has been seen so far. -/
def State.acts [DecidableEq Key] : List (Event Id Uuid Key) → State Id Uuid Key →
    List (Effect Id Uuid) → State Id Uuid Key × List (Effect Id Uuid)
  | [], state, log => (state, log)
  | event :: events, state, log => acts events (state.act event).1 (log ++ (state.act event).2)

/-! ## Enqueuing -/

section Enqueue

variable {views : Views Id Key} {opened : List Id} {queue : AgentRestoreQueue Id Uuid Key}
  {log : List (Effect Id Uuid)} {terminal : Id} {view : View Key}

omit [DecidableEq Uuid] in
theorem seen_mapView_of_ne {f : View Key → View Key} {t : Id} (h : t ≠ terminal) :
    seen (mapView views terminal f) t = seen views t := by
  unfold seen mapView
  rw [Function.update_of_ne h]

omit [DecidableEq Uuid] in
theorem seen_mapView_self (f : View Key → View Key) :
    seen (mapView views terminal f) terminal = (views terminal).map fun view => (f view).seen := by
  unfold seen mapView
  rw [Function.update_self, Option.map_map]
  rfl

omit [DecidableEq Uuid] in
/-- A view that changes stays open. -/
theorem exists_of_seen_mapView {f : View Key → View Key} {t : Id} {v' : Seen}
    (h : seen (mapView views terminal f) t = some v') : ∃ view, views t = some view ∧
      v' = (if t = terminal then f view else view).seen := by
  by_cases ht : t = terminal
  · subst ht
    rw [seen_mapView_self] at h
    obtain ⟨view, hview, rfl⟩ := Option.map_eq_some_iff.mp h
    exact ⟨view, hview, by rw [if_pos rfl]⟩
  · rw [seen_mapView_of_ne ht] at h
    obtain ⟨view, hview, rfl⟩ := Option.map_eq_some_iff.mp h
    exact ⟨view, hview, by rw [if_neg ht]⟩

omit [DecidableEq Uuid] in
theorem seen_mapView_eq_none {f : View Key → View Key} {t : Id} :
    seen (mapView views terminal f) t = none ↔ seen views t = none := by
  by_cases ht : t = terminal
  · subst ht
    rw [seen_mapView_self]
    simp [seen]
  · rw [seen_mapView_of_ne ht]

omit [DecidableEq Uuid] in
theorem TerminalsInv.mapView {f : View Key → View Key}
    (ht : TerminalsInv (seen views) opened log)
    (hf : ∀ view, (f view).userInputEpoch = view.userInputEpoch) :
    TerminalsInv (seen (mapView views terminal f)) opened log where
  view_opened t h := ht.view_opened t fun hnone => h (seen_mapView_eq_none.mpr hnone)
  typed t v hv := by
    obtain ⟨view, hview, rfl⟩ := exists_of_seen_mapView hv
    rw [← ht.typed t view.seen (by unfold seen; rw [hview]; rfl)]
    split
    · exact iff_of_eq (congrArg (· = 0) (hf view))
    · exact Iff.rfl
  typed_opened := ht.typed_opened
  closed t ho hv := ht.closed t ho (seen_mapView_eq_none.mp hv)

theorem Inv.mapView {unclaimed : Finset Uuid} {entries : List (RestoreEntry Id Uuid Key)}
    {new : List (Effect Id Uuid)} {f : View Key → View Key}
    (hi : Inv (seen views) opened unclaimed entries log)
    (hf : ∀ view, view.backgroundAgentRestore = true → (f view).backgroundAgentRestore = true)
    (hnew : ∀ x ∈ new, x.Outside) :
    Inv (seen (mapView views terminal f)) opened unclaimed entries (log ++ new) := by
  refine hi.outside (fun _ => id) (fun t _ v' hv' => ?_) hnew
  obtain ⟨view, hview, rfl⟩ := exists_of_seen_mapView hv'
  refine ⟨view.seen, by unfold seen; rw [hview]; rfl, fun h => ?_⟩
  split
  · exact hf view h
  · exact h

/-- An enqueued tab, and whether a tick is scheduled for it. -/
theorem enqueue_inv [DecidableEq Key] (paneUuid : Uuid) (key : Key)
    (hi : Inv (seen views) opened queue.unclaimedInterruptedPanes queue.entries log)
    (ht : TerminalsInv (seen views) opened log) (hview : views terminal = some view) :
    let (queue', views', effects, scheduled) := queue.enqueue views terminal paneUuid key
    Inv (seen views') opened queue'.unclaimedInterruptedPanes queue'.entries (log ++ effects) ∧
      TerminalsInv (seen views') opened (log ++ effects) ∧
      (queue' = queue ∧ scheduled = false ∨
        queue'.ticking = true ∧ scheduled = !queue.ticking) := by
  unfold AgentRestoreQueue.enqueue
  by_cases hentry : (queue.entries.any fun entry => entry.terminal = terminal) = true
  · rw [if_pos hentry]
    refine ⟨?_, ?_, Or.inl ⟨rfl, rfl⟩⟩
    · rwa [List.append_nil]
    · rwa [List.append_nil]
  · rw [if_neg hentry]
    have hopen : terminal ∈ opened := by
      refine ht.view_opened terminal ?_
      unfold seen
      rw [hview]
      exact Option.some_ne_none _
    have hliveness : ∀ other ∈ queue.entries, other.terminal ≠ terminal := by
      simpa using hentry
    have hinv : Inv (seen (mapView views terminal View.manageAgentRestoreInBackground)) opened
        (queue.unclaimedInterruptedPanes.erase paneUuid)
        (queue.entries ++ [queue.newEntry views terminal paneUuid key])
        (log ++ .enqueued terminal :: if (queue.newEntry views terminal paneUuid key).continuePending
          then [.claimed terminal paneUuid] else []) := by
      refine @Inv.enqueue _ _ _ _ _ _ _ _ _ _ (seen (mapView views terminal View.manageAgentRestoreInBackground))
        (queue.newEntry views terminal paneUuid key) _ hi ?_ ?_ (fun t h => seen_mapView_of_ne h)
        ?_ ?_ ?_ ?_ rfl
      · simpa [AgentRestoreQueue.newEntry] using hentry
      · exact hopen
      · intro v hv
        rw [show (queue.newEntry views terminal paneUuid key).terminal = terminal from rfl,
          seen_mapView_self, hview] at hv
        exact Option.some.inj hv ▸ rfl
      · unfold AgentRestoreQueue.newEntry
        dsimp only
        split
        · exact Or.inr ⟨fun h => (nomatch h), fun h => (nomatch h), fun h => absurd
            (RestoreState.attention.inj h) (by decide)⟩
        · exact Or.inl rfl
      · intro other ho hr
        have hduplicate : (queue.entries.any fun entry =>
            entry.key = key ∧ (views entry.terminal).isSome) = true := by
          refine List.any_eq_true.mpr ⟨other, ho, ?_⟩
          obtain ⟨v, hv⟩ := Option.ne_none_iff_exists'.mp hr.2
          obtain ⟨view', hview', -⟩ := Option.map_eq_some_iff.mp hv
          rw [hview', decide_eq_true_eq]
          exact ⟨hr.1, rfl⟩
        unfold AgentRestoreQueue.newEntry
        dsimp only
        rw [if_pos hduplicate]
        exact ⟨fun h => (nomatch h), fun h => (nomatch h), fun h => absurd
          (RestoreState.attention.inj h) (by decide)⟩
      · exact decide_eq_true_iff
    have hback := @TerminalsInv.mapView _ _ _ _ _ _ _ terminal View.manageAgentRestoreInBackground ht
      fun _ => rfl
    refine ⟨hinv, hback.append fun t h => ?_, Or.inr ⟨rfl, rfl⟩⟩
    rcases List.mem_cons.mp h with h | h
    · exact nomatch h
    · split at h
      · exact nomatch List.mem_singleton.mp h
      · exact nomatch h

end Enqueue

/-! ## Every event -/

/-- What holds in every state. -/
structure StateInv (state : State Id Uuid Key) (log : List (Effect Id Uuid)) : Prop where
  inv : Inv (seen state.views) state.opened state.queue.unclaimedInterruptedPanes
    state.queue.entries log
  terminals : TerminalsInv (seen state.views) state.opened log
  scheduled : state.scheduled = state.queue.ticking.toNat
  awake : ∀ entry ∈ state.queue.entries, entry.busy = true ∨ entry.flagged = true →
    state.queue.ticking = true

section Act

variable {state : State Id Uuid Key} {log : List (Effect Id Uuid)}

theorem stateInv_initial (interrupted : Finset Uuid) :
    StateInv (State.initial interrupted : State Id Uuid Key) [] where
  inv :=
    { starting := Nat.zero_le _
      nodup := List.nodup_nil
      opened := fun _ h => (nomatch h)
      background := fun _ h => (nomatch h)
      writer := List.Pairwise.nil
      enqueued := fun _ => rfl
      releases_le := fun _ => le_rfl
      prompts_le := fun paneUuid => by
        unfold prompts
        rw [List.countP_nil, Nat.zero_add]
        show 0 + _ ≤ 1
        split <;> omega
      claims := fun _ _ h => (nomatch h)
      finishes := fun _ _ _ _ h => (nomatch h) }
  terminals := ⟨fun _ h => absurd rfl h, fun _ _ h => (nomatch h), fun _ h => (nomatch h),
    fun _ h => (nomatch h)⟩
  scheduled := rfl
  awake _ h := (nomatch h)

/-- A change of one view that the queue does not see. -/
theorem StateInv.mapView {new : List (Effect Id Uuid)} {terminal : Id} {f : View Key → View Key}
    (hs : StateInv state log)
    (hf : ∀ view, view.backgroundAgentRestore = true → (f view).backgroundAgentRestore = true)
    (hnew : ∀ x ∈ new, x.Outside)
    (ht : TerminalsInv (seen (mapView state.views terminal f)) state.opened (log ++ new)) :
    StateInv { state with views := mapView state.views terminal f } (log ++ new) where
  inv := hs.inv.mapView hf hnew
  terminals := ht
  scheduled := hs.scheduled
  awake := hs.awake

omit [DecidableEq Uuid] in
theorem seen_update_of_ne {terminal t : Id} (h : t ≠ terminal) (view : Option (View Key)) :
    seen (Function.update state.views terminal view) t = seen state.views t := by
  unfold seen
  rw [Function.update_of_ne h]

omit [DecidableEq Uuid] in
theorem seen_update_self (terminal : Id) (view : Option (View Key)) :
    seen (Function.update state.views terminal view) terminal = view.map View.seen := by
  unfold seen
  rw [Function.update_self]

theorem StateInv.openTerminal (hs : StateInv state log) (terminal : Id) (readings : Readings Key)
    (deferred : Bool) : StateInv (state.openTerminal terminal readings deferred) log := by
  unfold State.openTerminal
  split
  · exact hs
  · rename_i hfresh
    refine ⟨?_, ⟨fun t h => ?_, fun t v hv => ?_, fun t h => ?_, fun t ho hv => ?_⟩, hs.scheduled,
      hs.awake⟩
    · rw [← List.append_nil log]
      refine hs.inv.outside (fun t ht => List.mem_cons_of_mem terminal ht) (fun t ht view hv => ?_)
        fun x hx => absurd hx List.not_mem_nil
      have hne : t ≠ terminal := fun h => hfresh (h ▸ ht)
      rw [seen_update_of_ne hne] at hv
      exact ⟨view, hv, id⟩
    · by_cases ht : t = terminal
      · exact List.mem_cons.mpr (Or.inl ht)
      · rw [seen_update_of_ne ht] at h
        exact List.mem_cons_of_mem _ (hs.terminals.view_opened t h)
    · by_cases ht : t = terminal
      · subst ht
        rw [seen_update_self] at hv
        obtain rfl := Option.some.inj hv
        exact iff_of_true rfl fun h => hfresh (hs.terminals.typed_opened t h)
      · rw [seen_update_of_ne ht] at hv
        exact hs.terminals.typed t v hv
    · exact List.mem_cons_of_mem _ (hs.terminals.typed_opened t h)
    · by_cases ht : t = terminal
      · subst ht
        rw [seen_update_self] at hv
        exact nomatch hv
      · rw [seen_update_of_ne ht] at hv
        exact hs.terminals.closed t ((List.mem_cons.mp ho).resolve_left ht) hv

theorem StateInv.closeTerminal (hs : StateInv state log) (terminal : Id) :
    StateInv (state.closeTerminal terminal).1 (log ++ (state.closeTerminal terminal).2) := by
  unfold State.closeTerminal
  split
  · rwa [List.append_nil]
  · refine ⟨?_, ⟨fun t h => ?_, fun t v hv => ?_, fun t h => ?_, fun t ho hv => ?_⟩, hs.scheduled,
      hs.awake⟩
    · refine hs.inv.outside (fun _ => id) (fun t _ view hv => ?_)
        fun x hx => List.mem_singleton.mp hx ▸ trivial
      by_cases ht : t = terminal
      · subst ht
        rw [seen_update_self] at hv
        exact nomatch hv
      · rw [seen_update_of_ne ht] at hv
        exact ⟨view, hv, id⟩
    · by_cases ht : t = terminal
      · subst ht
        exact absurd (seen_update_self t none) h
      · rw [seen_update_of_ne ht] at h
        exact hs.terminals.view_opened t h
    · by_cases ht : t = terminal
      · subst ht
        rw [seen_update_self] at hv
        exact nomatch hv
      · rw [seen_update_of_ne ht] at hv
        rw [hs.terminals.typed t v hv]
        simp
    · exact hs.terminals.typed_opened t (by simpa using h)
    · by_cases ht : t = terminal
      · simp [ht]
      · rw [seen_update_of_ne ht] at hv
        exact List.mem_append_left _ (hs.terminals.closed t ho hv)

theorem StateInv.userInput (hs : StateInv state log) (terminal : Id) :
    StateInv (state.userInput terminal).1 (log ++ (state.userInput terminal).2) := by
  unfold State.userInput
  split
  · rwa [List.append_nil]
  · rename_i hopen
    refine hs.mapView (fun _ => id) (fun x hx => List.mem_singleton.mp hx ▸ trivial)
      ⟨fun t h => ?_, fun t v hv => ?_, fun t h => ?_, fun t ho hv => ?_⟩
    · exact hs.terminals.view_opened t fun hnone => h (seen_mapView_eq_none.mpr hnone)
    · obtain ⟨view, hview, rfl⟩ := exists_of_seen_mapView hv
      by_cases ht : t = terminal
      · rw [if_pos ht, ht]
        exact iff_of_false (Nat.succ_ne_zero _) fun h => h (by simp)
      · rw [if_neg ht, hs.terminals.typed t view.seen (by unfold seen; rw [hview]; rfl)]
        simp [ht]
    · rcases List.mem_append.mp h with h | h
      · exact hs.terminals.typed_opened t h
      · obtain rfl := Effect.typed.inj (List.mem_singleton.mp h)
        refine hs.terminals.view_opened t fun hnone => hopen ?_
        unfold seen at hnone
        rw [Option.map_eq_none_iff] at hnone
        rw [hnone]
        rfl
    · exact List.mem_append_left _ (hs.terminals.closed t ho (seen_mapView_eq_none.mp hv))

theorem StateInv.read (hs : StateInv state log) (terminal : Id) (readings : Readings Key) :
    StateInv (state.read terminal readings) log := by
  rw [← List.append_nil log]
  refine hs.mapView (fun _ => id) (fun x hx => absurd hx List.not_mem_nil) ?_
  rw [List.append_nil]
  exact hs.terminals.mapView fun _ => rfl

theorem StateInv.showTerminal (hs : StateInv state log) (terminal : Id) :
    StateInv (state.showTerminal terminal) log := by
  have hshow : ∀ view : View Key, view.startDeferredAgent.2.seen = view.seen := by
    intro view
    unfold View.startDeferredAgent
    split <;> rfl
  rw [← List.append_nil log]
  refine hs.mapView (fun view h => ?_) (fun x hx => absurd hx List.not_mem_nil) ?_
  · exact (congrArg Seen.backgroundAgentRestore (hshow view)).trans h
  · rw [List.append_nil]
    exact hs.terminals.mapView fun view => congrArg Seen.userInputEpoch (hshow view)

/-- Waking the queue schedules a tick if none is. -/
theorem wake_scheduled {n : ℕ} {ticking : Bool} (h : n = ticking.toNat) :
    n + (!ticking).toNat = true.toNat := by
  rw [h]
  cases ticking <;> rfl

theorem StateInv.enqueue [DecidableEq Key] (hs : StateInv state log) (terminal : Id)
    (paneUuid : Uuid) (key : Key) : StateInv (state.enqueue terminal paneUuid key).1
      (log ++ (state.enqueue terminal paneUuid key).2) := by
  unfold State.enqueue
  split
  · rwa [List.append_nil]
  · rename_i hopen
    obtain ⟨view, hview⟩ := Option.ne_none_iff_exists'.mp fun hnone =>
      hopen (Option.isNone_iff_eq_none.mpr hnone)
    have h := enqueue_inv paneUuid key hs.inv hs.terminals hview
    generalize state.queue.enqueue state.views terminal paneUuid key = enqueued at h ⊢
    obtain ⟨queue, views, effects, scheduled⟩ := enqueued
    obtain ⟨hinv, hterminals, ⟨rfl, rfl⟩ | ⟨hticking, rfl⟩⟩ := h
    · exact ⟨hinv, hterminals, hs.scheduled, hs.awake⟩
    · refine ⟨hinv, hterminals, ?_, fun _ _ _ => hticking⟩
      exact (wake_scheduled hs.scheduled).trans (congrArg Bool.toNat hticking.symm)

theorem StateInv.sessionEvent (hs : StateInv state log) (terminal : Id) :
    StateInv (state.sessionEvent terminal) log := by
  unfold State.sessionEvent AgentRestoreQueue.onSessionEvent
  by_cases hwakes : (!state.queue.ticking && state.queue.entries.any fun entry =>
      entry.terminal = terminal ∧ entry.flagged) = true
  · rw [if_pos hwakes]
    exact ⟨hs.inv, hs.terminals, wake_scheduled hs.scheduled, fun _ _ _ => rfl⟩
  · rw [if_neg hwakes]
    exact ⟨hs.inv, hs.terminals, hs.scheduled, hs.awake⟩

theorem StateInv.retryStalled (hs : StateInv state log) :
    StateInv state.retryStalled.1 (log ++ state.retryStalled.2) := by
  obtain ⟨hchanges, hseen⟩ := retryAll_changes state.queue.entries state.views []
  unfold State.retryStalled AgentRestoreQueue.retryStalled
  generalize AgentRestoreQueue.retryAll state.queue.entries state.views = retried at hchanges hseen ⊢
  obtain ⟨entries, views, effects⟩ := retried
  simp only [List.nil_append] at hchanges hseen
  obtain ⟨hinv, hterminals⟩ := hchanges.inv hs.inv hs.terminals
  rw [← hseen] at hinv hterminals
  exact ⟨hinv, hterminals, wake_scheduled hs.scheduled, fun _ _ _ => rfl⟩

theorem StateInv.record (hs : StateInv state log) (quitting : Bool) (midTurn : Finset Uuid) :
    StateInv (state.record quitting midTurn).1 (log ++ (state.record quitting midTurn).2) where
  inv := by
    refine (hs.inv.forget (Finset.empty_subset _)).outside (fun _ => id)
      (fun _ _ view hv => ⟨view, hv, id⟩) fun x hx => ?_
    exact List.mem_singleton.mp hx ▸ trivial
  terminals := hs.terminals.append fun t h => nomatch List.mem_singleton.mp h
  scheduled := hs.scheduled
  awake := hs.awake

theorem StateInv.tick [DecidableEq Key] (hs : StateInv state log) :
    StateInv state.tick.1 (log ++ state.tick.2) := by
  unfold State.tick
  split
  · rwa [List.append_nil]
  · rename_i hscheduled
    have h := tick_changes state.now state.queue state.views hs.inv.starting
    generalize state.queue.tick state.now state.views = ticked at h ⊢
    obtain ⟨queue, views, effects, scheduled⟩ := ticked
    obtain ⟨hchanges, hseen, hunclaimed, hticking, hawake⟩ := h
    obtain ⟨hinv, hterminals⟩ := hchanges.inv hs.inv hs.terminals
    rw [← hseen] at hinv hterminals
    rw [← hunclaimed] at hinv
    refine ⟨hinv, hterminals, ?_, fun entry he hneeds => hticking.trans (hawake entry he hneeds)⟩
    -- the tick that fired was the only one
    have hone := Bool.toNat_le state.queue.ticking
    have hold := hs.scheduled
    show state.scheduled - 1 + scheduled.toNat = queue.ticking.toNat
    rw [hticking]
    omega

/-- **Every event keeps the invariant.** -/
theorem StateInv.act [DecidableEq Key] (hs : StateInv state log) (event : Event Id Uuid Key) :
    StateInv (state.act event).1 (log ++ (state.act event).2) := by
  have hquiet : ∀ {state' : State Id Uuid Key}, StateInv state' log →
      StateInv state' (log ++ []) := fun h => by rwa [List.append_nil]
  cases event with
  | elapse duration => exact hquiet ⟨hs.inv, hs.terminals, hs.scheduled, hs.awake⟩
  | openTerminal terminal readings deferred => exact hquiet (hs.openTerminal terminal readings deferred)
  | closeTerminal terminal => exact hs.closeTerminal terminal
  | userInput terminal => exact hs.userInput terminal
  | read terminal readings => exact hquiet (hs.read terminal readings)
  | showTerminal terminal => exact hquiet (hs.showTerminal terminal)
  | enqueue terminal paneUuid key => exact hs.enqueue terminal paneUuid key
  | sessionEvent terminal => exact hquiet (hs.sessionEvent terminal)
  | retryStalled => exact hs.retryStalled
  | record quitting midTurn => exact hs.record quitting midTurn
  | tick => exact hs.tick

/-- **Every run keeps the invariant.** -/
theorem StateInv.acts [DecidableEq Key] (events : List (Event Id Uuid Key))
    (hs : StateInv state log) :
    StateInv (State.acts events state log).1 (State.acts events state log).2 := by
  induction events generalizing state log with
  | nil => exact hs
  | cons event events ih => exact ih (hs.act event)

/-! ## What an event is seen to do -/

section Seen

variable [DecidableEq Key]

/-- The events that change entries one after the other. -/
def Event.Calls : Event Id Uuid Key → Prop
  | .retryStalled | .tick => True
  | _ => False

/-- A call of the queue is a sequence of changes. -/
theorem act_changes (hs : StateInv state log) {event : Event Id Uuid Key} (hcalls : event.Calls) :
    Changes (seen state.views) state.queue.entries (state.act event).1.queue.entries
      (state.act event).2 := by
  cases event with
  | retryStalled =>
    obtain ⟨hchanges, -⟩ := retryAll_changes state.queue.entries state.views []
    show Changes _ _ state.retryStalled.1.queue.entries state.retryStalled.2
    unfold State.retryStalled AgentRestoreQueue.retryStalled
    generalize AgentRestoreQueue.retryAll state.queue.entries state.views = retried at hchanges ⊢
    obtain ⟨entries, views, effects⟩ := retried
    exact hchanges
  | tick =>
    show Changes _ _ state.tick.1.queue.entries state.tick.2
    unfold State.tick
    split
    · exact .refl _
    · have h := tick_changes state.now state.queue state.views hs.inv.starting
      generalize state.queue.tick state.now state.views = ticked at h ⊢
      obtain ⟨queue, views, effects, scheduled⟩ := ticked
      exact h.1
  | _ => exact hcalls.elim

/-- The events that an effect can come from. -/
def Effect.CausedBy : Effect Id Uuid → Event Id Uuid Key → Prop
  | .closed _, .closeTerminal _ => True
  | .typed _, .userInput _ => True
  | .enqueued _, .enqueue _ _ _ => True
  | .claimed _ _, .enqueue _ _ _ => True
  | .recorded _ _, .record _ _ => True
  | .released _, event | .retried _, event | .sent _ _, event | .finished _ _ _ _, event
  | .gaveUp _ _, event => event.Calls
  | _, _ => False

omit [DecidableEq Id] [DecidableEq Uuid] [DecidableEq Key] in
theorem Changes.causedBy {views : Id → Option AgentRestore.Seen}
    {entries entries' : List (RestoreEntry Id Uuid Key)} {effects : List (Effect Id Uuid)}
    (h : Changes views entries entries' effects) {event : Event Id Uuid Key} (hcalls : event.Calls) :
    ∀ x ∈ effects, x.CausedBy event := by
  induction h with
  | refl => exact fun x hx => absurd hx List.not_mem_nil
  | step hc _ ih =>
    intro x hx
    rcases List.mem_append.mp hx with hx | hx
    · cases hc with
      | closed | settled => exact absurd hx List.not_mem_nil
      | sent | finished | gaveUp | released | retried => exact List.mem_singleton.mp hx ▸ hcalls
    · exact ih x hx

theorem enqueue_causedBy (queue : AgentRestoreQueue Id Uuid Key) (views : Views Id Key)
    (terminal : Id) (paneUuid : Uuid) (key : Key) :
    ∀ x ∈ (queue.enqueue views terminal paneUuid key).2.2.1,
      x.CausedBy (.enqueue terminal paneUuid key : Event Id Uuid Key) := by
  unfold AgentRestoreQueue.enqueue
  split
  · exact fun x hx => absurd hx List.not_mem_nil
  · intro x hx
    rcases List.mem_cons.mp hx with rfl | hx
    · trivial
    · split at hx
      · exact List.mem_singleton.mp hx ▸ trivial
      · exact absurd hx List.not_mem_nil

theorem act_causedBy (hs : StateInv state log) (event : Event Id Uuid Key) :
    ∀ x ∈ (state.act event).2, x.CausedBy event := by
  intro x hx
  cases event with
  | retryStalled =>
    have hcalls : (.retryStalled : Event Id Uuid Key).Calls := trivial
    exact (act_changes hs hcalls).causedBy hcalls x hx
  | tick =>
    have hcalls : (.tick : Event Id Uuid Key).Calls := trivial
    exact (act_changes hs hcalls).causedBy hcalls x hx
  | elapse | openTerminal | read | showTerminal | sessionEvent => exact absurd hx List.not_mem_nil
  | closeTerminal terminal =>
    change x ∈ (state.closeTerminal terminal).2 at hx
    unfold State.closeTerminal at hx
    split at hx
    · exact absurd hx List.not_mem_nil
    · exact List.mem_singleton.mp hx ▸ trivial
  | userInput terminal =>
    change x ∈ (state.userInput terminal).2 at hx
    unfold State.userInput at hx
    split at hx
    · exact absurd hx List.not_mem_nil
    · exact List.mem_singleton.mp hx ▸ trivial
  | record quitting midTurn => exact List.mem_singleton.mp hx ▸ trivial
  | enqueue terminal paneUuid key =>
    change x ∈ (state.enqueue terminal paneUuid key).2 at hx
    unfold State.enqueue at hx
    split at hx
    · exact absurd hx List.not_mem_nil
    · exact enqueue_causedBy state.queue state.views terminal paneUuid key x hx

/-- A release is of the only live entry of its key, up to entries that came later. -/
theorem act_released (hs : StateInv state log) (event : Event Id Uuid Key) :
    state.queue.entries.Pairwise fun other e => .released e.terminal ∈ (state.act event).2 →
      other.key = e.key → state.views other.terminal = none := by
  by_cases hcalls : event.Calls
  · refine ((act_changes hs hcalls).released hs.inv.writer hs.inv.nodup).imp ?_
    intro other e h hreleased hkey
    by_contra hlive
    refine h hreleased ⟨hkey, fun hnone => hlive ?_⟩
    exact Option.map_eq_none_iff.mp hnone
  · refine List.pairwise_of_forall fun other e hreleased => ?_
    exact absurd (act_causedBy hs event _ hreleased) hcalls

/-- A prompt is sent to a restored agent, in an open tab with an empty composer and no input. -/
theorem act_sent (hs : StateInv state log) {event : Event Id Uuid Key} {terminal : Id}
    {paneUuid : Uuid} (hsent : .sent terminal paneUuid ∈ (state.act event).2) :
    (∃ e ∈ (state.act event).1.queue.entries, e.terminal = terminal ∧ e.paneUuid = paneUuid ∧
        e.state = .restored) ∧
      (∃ view, state.views terminal = some view ∧ view.composerIsEmpty = true) ∧
      .typed terminal ∉ log := by
  obtain ⟨hentry, seen, hseen, hempty, hepoch⟩ :=
    (act_changes hs (act_causedBy hs event _ hsent)).sent hsent
  obtain ⟨view, hview, rfl⟩ := Option.map_eq_some_iff.mp hseen
  exact ⟨hentry, ⟨view, hview, hempty⟩, (hs.terminals.typed terminal view.seen hseen).mp hepoch⟩

/-- A claimed pane is recorded until its claim is settled. -/
theorem act_recorded (hs : StateInv state log) {event : Event Id Uuid Key} {panes : Finset Uuid}
    {written : Bool} (hrecorded : .recorded panes written ∈ (state.act event).2) {terminal : Id}
    {paneUuid : Uuid} (hclaimed : .claimed terminal paneUuid ∈ log) :
    paneUuid ∈ panes ∨ Settled log terminal paneUuid := by
  rcases hs.inv.claims terminal paneUuid hclaimed with ⟨e, he, -, huuid, hpending⟩ | h
  · have hcaused := act_causedBy hs event _ hrecorded
    cases event with
    | record quitting midTurn =>
      obtain ⟨rfl, -⟩ := Effect.recorded.inj (List.mem_singleton.mp hrecorded)
      refine Or.inl (Finset.mem_union_right _ (List.mem_toFinset.mpr ?_))
      exact List.mem_map.mpr ⟨e, List.mem_filter.mpr ⟨he, hpending⟩, huuid⟩
    | _ => exact hcaused.elim
  · exact Or.inr h

end Seen

end Act

/-- An agent of a restored tab that starts and runs. -/
def workingReadings : Readings ℕ where
  sessionKey := some 5
  ready := true
  agentCommandStalled := false
  unavailable := some .working
  composerIsEmpty := true
  cancels := false

/-- The tab of the pane 7 is restored, and its agent carries on for three minutes. -/
def carriesOn : List (Event ℕ ℕ ℕ) :=
  [.openTerminal 1 { workingReadings with ready := false } true, .enqueue 1 7 5, .tick,
    .read 1 workingReadings, .tick, .elapse continueTimeout, .tick,
    .read 1 { workingReadings with unavailable := none }, .record false ∅]

end Clinch.AgentRestore
