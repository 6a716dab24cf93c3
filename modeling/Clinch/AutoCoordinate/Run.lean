import Clinch.AutoCoordinate.Model

/-!
# Runs of auto-coordinate

A run is a sequence of changes of sessions, of runs the user asks for and of timers that fire, in
the order of the clock, while auto-coordinate stays on and some tactic stays on. The log of a run,
the last entry first, says what was noted, asked for and sent.

* `Run`, `Entry`;
* `owed`, `outstanding`, `firstNoted`, `lastSent`: what the log says is due;
* `Kept`: the planner agrees with the log; `Kept.note`, `Kept.ask`, `Kept.timer`, `Armed`;
* **`wakeups`**: no update is lost, the wakeups are spaced out, and there is a timer while something
  waits.
-/

set_option autoImplicit false

namespace Clinch.AutoCoordinate

open AutoCoordinateState WakePlanner

inductive Entry
  | noted (update : SessionUpdate) (now : ℕ)
  | asked (now : ℕ)
  | sent (wakeup : Wakeup) (now : ℕ)

/-- The entries of an event at which a wakeup may be sent. -/
def sentEntry (wakeup : Option Wakeup) (now : ℕ) : List Entry :=
  (wakeup.map fun w => Entry.sent w now).toList

/-- The entries of a change of a session. -/
def notedEntry (update : Option SessionUpdate) (now : ℕ) : List Entry :=
  (update.map fun u => Entry.noted u now).toList

/-- **A run**: the state it ends in, its log and the time. -/
inductive Run : AutoCoordinateState → List Entry → ℕ → Prop
  | start (now : ℕ) : Run .default [] now
  | note {s : AutoCoordinateState} {log : List Entry} {t now : ℕ} (w : Workspace)
      (session : ℕ) (status : SessionStatus) :
      Run s log t → t ≤ now → w.Active →
      Run (noteSession w session status now s)
        (notedEntry (updateOf w session status) now ++ log) now
  | ask {s : AutoCoordinateState} {log : List Entry} {t now : ℕ} (w : Workspace) :
      Run s log t → t ≤ now → w.Active →
      Run (runCoordinatorNow w now s).1
        (sentEntry (runCoordinatorNow w now s).2 now ++ .asked now :: log) now
  | timer {s : AutoCoordinateState} {log : List Entry} {t now set : ℕ} (w : Workspace) :
      Run s log t → t ≤ now → w.Active → s.timer = some set → set ≤ now →
      Run (timerFires w now s).1 (sentEntry (timerFires w now s).2 now ++ log) now

/-! ## What the log says is due -/

/-- The last update of the session, if it was noted after the last wakeup that told of it. -/
def owed : List Entry → ℕ → Option SessionUpdate
  | [], _ => none
  | .noted u _ :: log, session => if u.session = session then some u else owed log session
  | .asked _ :: log, session => owed log session
  | .sent w _ :: log, session =>
    if session ∈ w.updates.map (·.session) then none else owed log session

/-- The user asked for a run after the last wakeup. -/
def outstanding : List Entry → Bool
  | [] => false
  | .noted _ _ :: log => outstanding log
  | .asked _ :: _ => true
  | .sent _ _ :: _ => false

/-- When the first update after the last wakeup was noted. -/
def firstNoted : List Entry → Option ℕ
  | [] => none
  | .noted _ t :: log => some ((firstNoted log).getD t)
  | .asked _ :: log => firstNoted log
  | .sent _ _ :: _ => none

def lastSent : List Entry → Option ℕ
  | [] => none
  | .noted _ _ :: log => lastSent log
  | .asked _ :: log => lastSent log
  | .sent _ t :: _ => some t

/-- The property holds of each wakeup, with its time and the log before it. -/
def EachSent (P : Wakeup → ℕ → List Entry → Prop) : List Entry → Prop
  | [] => True
  | .noted _ _ :: log => EachSent P log
  | .asked _ :: log => EachSent P log
  | .sent w t :: log => P w t log ∧ EachSent P log

/-! ## What one event can do -/

variable {w : Workspace} {s : AutoCoordinateState} {log : List Entry} {now : ℕ}
  {updates : List SessionUpdate} {tab : Tab} {requested : Bool}

/-- The updates are held back, or they are sent. -/
theorem deliver_cases (w : Workspace) (tab : Tab) (requested : Bool) (updates : List SessionUpdate)
    (now : ℕ) (s : AutoCoordinateState) :
    (∃ status, deliver w tab requested updates now s = (s.holdWakeup status updates now, none)) ∨
    ∃ text, deliver w tab requested updates now s =
      ({ s with planner := s.planner.markWoken now, runRequested := false, status := .idle },
        some ⟨updates, text⟩) := by
  unfold deliver
  cases tab.focusedSession with
  | none => exact .inl ⟨_, rfl⟩
  | some terminal =>
    cases h : terminal.readiness.2 with
    | some reason => simp only [h]; exact .inl ⟨_, rfl⟩
    | none =>
      simp only [h]
      split
      · exact .inr ⟨_, rfl⟩
      · exact .inl ⟨_, rfl⟩

/-- The state with everything that waits taken out of the planner. -/
def taken (s : AutoCoordinateState) (requested : Bool) : AutoCoordinateState :=
  { s with runRequested := requested, planner := s.planner.takeAll.2 }

/-- What an attempt does while auto-coordinate is on. -/
theorem attempt_cases (now : ℕ) (hw : w.Active) (hs : requested = false → s.runRequested = false) :
    (requested = false ∧ attempt w requested now s = (s.scheduleAttempt now, none)) ∨
    (∃ status, (requested = false → (s.planner.takeDue now).isSome) ∧
      attempt w requested now s =
        ((taken s requested).holdWakeup status s.planner.pending now, none)) ∨
    ∃ text, (requested = false → (s.planner.takeDue now).isSome) ∧
      attempt w requested now s =
        ({ taken s requested with
            planner := (taken s requested).planner.markWoken now
            runRequested := false
            status := .idle },
          some ⟨s.planner.pending, text⟩) := by
  have htab : ∃ tab, w.coordinatorTab = some tab := by
    have h := hw.1
    unfold Workspace.autoCoordinateEnabled at h
    exact Option.isSome_iff_exists.1 (Option.isSome_of_any h)
  obtain ⟨tab, htab⟩ := htab
  have htactics : w.enabledTactics.isEmpty = false := by simpa using hw.2
  unfold attempt
  simp only [htab, hw.1, htactics, Bool.not_true, Bool.and_false, Bool.false_eq_true, if_false]
  cases requested with
  | true =>
    refine .inr ?_
    rcases deliver_cases w tab true s.planner.pending now (taken s true) with
      ⟨status, h⟩ | ⟨text, h⟩
    · exact .inl ⟨status, fun e => (nomatch e), h⟩
    · exact .inr ⟨text, fun e => (nomatch e), h⟩
  | false =>
    have hs : { s with planner := s.planner.takeAll.2 } = taken s false := by
      unfold taken
      rw [hs rfl]
    cases hdue : s.planner.takeDue now with
    | none => exact .inl ⟨rfl, rfl⟩
    | some r =>
      obtain rfl := (takeDue_eq_some hdue).1
      refine .inr ?_
      simp only [Bool.false_eq_true, if_false, takeAll] at hs ⊢
      rcases deliver_cases w tab false s.planner.pending now (taken s false) with
        ⟨status, h⟩ | ⟨text, h⟩
      · exact .inl ⟨status, fun _ => rfl, hs ▸ h⟩
      · exact .inr ⟨text, fun _ => rfl, hs ▸ h⟩

/-! ## The planner agrees with the log -/

structure Kept (p : WakePlanner) (runRequested : Bool) (log : List Entry) : Prop where
  onePerSession : OnePerSession p.pending
  latest : ∀ session, latest p.pending session = owed log session
  closed : p.firstPendingAt = none ↔ p.pending = []
  unnoted : firstNoted log = none ↔ p.pending = []
  /-- The batch is not closed too early, unless the user asked for a run. -/
  first : runRequested = false →
    ∀ f t, p.firstPendingAt = some f → firstNoted log = some t → t ≤ f
  lastWakeAt : p.lastWakeAt = lastSent log
  requested : runRequested = outstanding log

variable {p : WakePlanner} {r : Bool} {u : SessionUpdate}

theorem Kept.start : Kept .default false [] :=
  ⟨List.nodup_nil, fun _ => rfl, by simp [WakePlanner.default],
    by simp [WakePlanner.default, firstNoted], fun _ _ _ e => (nomatch e), rfl, rfl⟩

theorem Kept.record (h : Kept p r log) : Kept (p.record u now) r (.noted u now :: log) := by
  have hne : (p.record u now).pending ≠ [] := by
    intro e
    have hu := (latest_record (p := p) now).trans (if_pos (Eq.refl u.session))
    rw [e] at hu
    exact nomatch hu
  refine ⟨onePerSession_record h.onePerSession now, fun session => ?_, ?_, ?_, ?_, h.lastWakeAt,
    h.requested⟩
  · rw [latest_record, h.latest]
    rfl
  · exact iff_of_false (fun e => nomatch e) hne
  · exact iff_of_false (fun e => nomatch e) hne
  · rintro hr f t hf ht
    obtain rfl := Option.some.inj hf
    obtain rfl := Option.some.inj ht
    cases hf : p.firstPendingAt with
    | none => rw [h.unnoted.2 (h.closed.1 hf)]
    | some f =>
      cases ht : firstNoted log with
      | none =>
        rw [h.closed.2 (h.unnoted.1 ht)] at hf
        exact nomatch hf
      | some t => exact h.first hr f t hf ht

theorem Kept.ask (h : Kept p r log) : Kept p true (.asked now :: log) :=
  ⟨h.onePerSession, h.latest, h.closed, h.unnoted, fun e => (nomatch e), h.lastWakeAt, rfl⟩

/-- What is taken and put back at once is there again. It stays due, and the batch was closed. -/
theorem Kept.hold (h : Kept p r log) (hdue : r = false → (p.takeDue now).isSome) :
    Kept (p.takeAll.2.hold p.pending now) r log := by
  have hpending : (p.takeAll.2.hold p.pending now).pending = p.pending := by
    rw [pending_hold]
    exact putBack_nil h.onePerSession
  have hlast : (p.takeAll.2.hold p.pending now).lastWakeAt = p.lastWakeAt := by
    unfold WakePlanner.hold
    simp only
    split <;> rfl
  have hfirst : (p.takeAll.2.hold p.pending now).firstPendingAt =
      if p.pending = [] then none
      else some (if batchWindow ≤ now then now - batchWindow else now) := by
    unfold WakePlanner.hold takeAll
    simp only [putBack_nil h.onePerSession, List.isEmpty_iff]
    split <;> rfl
  refine ⟨?_, ?_, ?_, ?_, ?_, ?_, h.requested⟩
  · rw [hpending]
    exact h.onePerSession
  · rw [hpending]
    exact h.latest
  · rw [hpending, hfirst]
    simp
  · rw [hpending]
    exact h.unnoted
  · intro hr f t hf ht
    obtain ⟨due, hdue, hnow⟩ := (takeDue_eq_some (Option.some_get (hdue hr)).symm).2
    obtain ⟨f', hf', hclosed⟩ := (le_of_dueAt hdue).1
    have htf := h.first hr f' t hf' ht
    rw [hfirst] at hf
    split at hf
    · exact nomatch hf
    · obtain rfl := Option.some.inj hf
      rw [if_pos (by omega)]
      omega
  · rw [hlast]
    exact h.lastWakeAt

theorem Kept.sent (h : Kept p r log) (text : String) :
    Kept (p.takeAll.2.markWoken now) false (.sent ⟨p.pending, text⟩ now :: log) := by
  refine ⟨List.nodup_nil, fun session => ?_, by simp [markWoken, takeAll],
    iff_of_true rfl rfl, fun _ _ _ e => (nomatch e), rfl, rfl⟩
  show none = if _ then none else _
  split
  · rfl
  · rename_i hsession
    rw [← h.latest, latest_eq_none.2 hsession]

/-! ## Steps of a run -/

/-- While something waits, there is a timer. -/
def Armed (s : AutoCoordinateState) : Prop :=
  s.planner.pending ≠ [] ∨ s.runRequested = true → s.timer ≠ none

/-- What is promised of a wakeup: it carries what is owed, once, and unless the user asked for it,
it is far enough behind the last wakeup and behind the first update noted since. -/
def Promised (w : Wakeup) (now : ℕ) (log : List Entry) : Prop :=
  (∀ session, w.updates.filter (fun u => u.session = session) = (owed log session).toList) ∧
  (outstanding log = false →
    (∀ t, lastSent log = some t → t + minWakeInterval ≤ now) ∧
    ∃ t, firstNoted log = some t ∧ t + batchWindow ≤ now)

/-- The state and the log agree after a step. -/
structure Inv (s : AutoCoordinateState) (log : List Entry) : Prop where
  kept : Kept s.planner s.runRequested log
  armed : Armed s
  sent : EachSent Promised log

theorem filter_session (h : OnePerSession updates) (session : ℕ) :
    updates.filter (fun u => u.session = session) = (latest updates session).toList := by
  induction updates with
  | nil => rfl
  | cons v updates ih =>
    have h := List.nodup_cons.1 h
    rw [List.filter_cons, latest_cons, ih h.2]
    by_cases hv : v.session = session
    · rw [if_pos (decide_eq_true hv), if_pos hv, latest_eq_none.2 (hv ▸ h.1)]
      rfl
    · rw [if_neg (fun e => hv (of_decide_eq_true e)), if_neg hv]

theorem Kept.promised (h : Kept p r log) (hdue : r = false → (p.takeDue now).isSome)
    (text : String) : Promised ⟨p.pending, text⟩ now log := by
  refine ⟨fun session => ?_, fun hr => ?_⟩
  · show p.pending.filter _ = _
    rw [filter_session h.onePerSession, h.latest]
  · have hr := h.requested.trans hr
    obtain ⟨due, hdue, hnow⟩ := (takeDue_eq_some (Option.some_get (hdue hr)).symm).2
    obtain ⟨⟨f, hf, hclosed⟩, hspaced⟩ := le_of_dueAt hdue
    refine ⟨fun t ht => (hspaced t (h.lastWakeAt.trans ht)).trans hnow, ?_⟩
    cases ht : firstNoted log with
    | none =>
      rw [h.closed.2 (h.unnoted.1 ht)] at hf
      exact nomatch hf
    | some t =>
      have htf := h.first hr f t hf ht
      exact ⟨t, rfl, by omega⟩

theorem armed_scheduleAttempt (hr : s.runRequested = false)
    (hf : s.planner.pending ≠ [] → s.planner.firstPendingAt ≠ none) :
    Armed (s.scheduleAttempt now) := by
  unfold scheduleAttempt
  cases hd : s.planner.dueAt with
  | some due => exact fun _ e => nomatch e
  | none =>
    rintro (hp | hreq)
    · obtain ⟨f, hf⟩ := Option.ne_none_iff_exists'.1 (hf hp)
      unfold dueAt at hd
      rw [hf] at hd
      exact nomatch hd
    · exact absurd (hr.symm.trans hreq) Bool.false_ne_true

@[simp] theorem planner_scheduleAttempt : (s.scheduleAttempt now).planner = s.planner := by
  unfold scheduleAttempt
  split <;> rfl

@[simp] theorem runRequested_scheduleAttempt :
    (s.scheduleAttempt now).runRequested = s.runRequested := by
  unfold scheduleAttempt
  split <;> rfl

/-- An attempt sends all that waits, or leaves it there with a timer. -/
theorem inv_attempt (hw : w.Active) (hs : requested = false → s.runRequested = false)
    (h : Kept s.planner requested log) (hlog : EachSent Promised log) :
    Inv (attempt w requested now s).1 (sentEntry (attempt w requested now s).2 now ++ log) := by
  rcases attempt_cases now hw hs with ⟨hr, e⟩ | ⟨status, hdue, e⟩ | ⟨text, hdue, e⟩
  · rw [e]
    refine ⟨?_, ?_, hlog⟩
    · rw [planner_scheduleAttempt, runRequested_scheduleAttempt, hs hr, ← hr]
      exact h
    · exact armed_scheduleAttempt (hs hr) (fun hp hf => hp (h.closed.1 hf))
  · rw [e]
    exact ⟨h.hold hdue, fun _ e => (nomatch e), hlog⟩
  · rw [e]
    refine ⟨h.sent text, ?_, h.promised hdue text, hlog⟩
    rintro (hp | hr)
    · exact absurd rfl hp
    · exact nomatch hr

theorem inv_noteSession {session : ℕ} {status : SessionStatus} (h : Inv s log) :
    Inv (noteSession w session status now s)
      (notedEntry (updateOf w session status) now ++ log) := by
  unfold noteSession
  cases updateOf w session status with
  | none => exact h
  | some u =>
    refine ⟨?_, ?_, h.sent⟩
    · rw [planner_scheduleAttempt, runRequested_scheduleAttempt]
      exact h.kept.record
    · intro _
      unfold scheduleAttempt dueAt
      exact fun e => nomatch e

theorem inv_timerFires (hw : w.Active) (h : Inv s log) :
    Inv (timerFires w now s).1 (sentEntry (timerFires w now s).2 now ++ log) := by
  unfold timerFires
  split
  · exact inv_attempt hw (fun e => e) h.kept h.sent
  · rename_i hidle
    refine ⟨h.kept, ?_, h.sent⟩
    rintro (hp | hr)
    · exact absurd (by simp [hasPending, hp]) hidle
    · exact absurd (by simp [show s.runRequested = true from hr]) hidle

theorem Run.inv (h : Run s log now) : Inv s log := by
  induction h with
  | start now => exact ⟨.start, fun h => h.elim (absurd rfl) (fun e => nomatch e), trivial⟩
  | note w session status _ _ _ ih => exact inv_noteSession ih
  | ask w _ _ hw ih => exact inv_attempt hw (fun e => (nomatch e)) ih.kept.ask ih.sent
  | timer w _ _ hw _ _ ih => exact inv_timerFires hw ih

/-! ## What auto-coordinate promises -/

/-- What waits is what is owed, once; each wakeup keeps its promise; a timer is set while an update
waits or a run is asked for. -/
structure Promises (s : AutoCoordinateState) (log : List Entry) : Prop where
  pending : ∀ session,
    s.planner.pending.filter (fun u => u.session = session) = (owed log session).toList
  sent : EachSent Promised log
  timer : s.planner.pending ≠ [] ∨ outstanding log = true → s.timer ≠ none

/-- **No update is lost, and the wakeups are spaced out.** -/
theorem wakeups (h : Run s log now) :
    Promises s log ∧
    ∀ (p : WakePlanner) (updates : List SessionUpdate) (since session : ℕ) (u : SessionUpdate),
      latest p.pending session = some u →
      latest (p.hold updates since).pending session = some u := by
  have hinv := h.inv
  refine ⟨⟨fun session => ?_, hinv.sent, fun hwait => hinv.armed ?_⟩,
    fun p updates since session u hu => latest_hold hu since⟩
  · rw [filter_session hinv.kept.onePerSession, hinv.kept.latest]
  · rw [hinv.kept.requested]
    exact hwait

/-- A coordinator with the agent ready or mid-turn, and one other session. -/
def desk (unavailable : Option String) : Workspace where
  tabs := [⟨true, some true, [0], "Coordinator", some ⟨("r", unavailable), fun _ _ => true⟩⟩,
    ⟨false, none, [1], "fix login", none⟩]
  defaultOn := false
  isEnabled := fun tactic => tactic = .watch

/-- An update that is held back while the coordinator works goes out with the retry. -/
theorem wakeups_held : ∃ (s : AutoCoordinateState) (log : List Entry),
    (s.planner.pending = [] ∧ lastSent log = some (seconds 15) ∧ Promises s log) ∧
    latest ((noteSession (desk none) 1 .success 0 .default).planner.hold
      [⟨1, "old", .needsYou⟩] 0).pending 1 = some ⟨1, "fix login", .finishedTurn⟩ := by
  have h₁ := (Run.start 0).note (desk none) 1 .success le_rfl (by decide)
  have h₂ : Run _ _ (seconds 5) :=
    h₁.timer (desk (some "working")) (by decide) (by decide) rfl (by decide)
  have h₃ : Run _ _ (seconds 15) := h₂.timer (desk none) (by decide) (by decide) rfl (by decide)
  exact ⟨_, _, ⟨rfl, rfl, (wakeups h₃).1⟩, (wakeups h₃).2 _ _ _ _ _ rfl⟩

/-- An update takes the place of an older one of its session, and goes out a second after it came:
the batch was opened by the older one. -/
theorem wakeup_too_soon : ¬ ∀ s log now, Run s log now →
    EachSent (fun w t older => outstanding older = false →
      ∃ u ∈ w.updates, ∃ t₀, Entry.noted u t₀ ∈ older ∧ t₀ + batchWindow ≤ t) log := by
  intro hall
  have h₁ := (Run.start 0).note (desk none) 1 .blocked le_rfl (by decide)
  have h₂ : Run _ _ (seconds 4) := h₁.note (desk none) 1 .success (by decide) (by decide)
  have h₃ : Run _ _ (seconds 5) := h₂.timer (desk none) (by decide) (by decide) rfl (by decide)
  obtain ⟨u, hu, t₀, ht₀, hle⟩ := (hall _ _ _ h₃).1 rfl
  obtain rfl : u = ⟨1, "fix login", .finishedTurn⟩ := List.mem_singleton.1 hu
  rcases List.mem_cons.1 ht₀ with e | e
  · obtain ⟨-, rfl⟩ := Entry.noted.inj e
    exact absurd hle (by decide)
  · obtain ⟨e, -⟩ := Entry.noted.inj (List.mem_singleton.1 e)
    exact absurd e (by decide)

end Clinch.AutoCoordinate
