import Clinch.HashMap

/-!
# `WakePlanner`

`app/src/workspace/view/auto_coordinate.rs`: the updates that wait for the next wakeup of the
coordinator, one per session, and when they are due. An instant is a number of nanoseconds.

* `SessionUpdate`, `WakePlanner`: `record`, `dueAt`, `takeDue`, `hold`, `takeAll`, `markWoken`;
* `latest`: the update of a session among those that wait;
* `latest_record`, `putBack_nil`, **`latest_hold`**.
-/

set_option autoImplicit false

namespace Clinch.AutoCoordinate

/-- `Duration::from_secs`. -/
def seconds (n : ℕ) : ℕ := n * 1000000000

/-- `BATCH_WINDOW`. -/
def batchWindow : ℕ := seconds 5

/-- `MIN_WAKE_INTERVAL`. -/
def minWakeInterval : ℕ := seconds 120

inductive UpdateKind
  | finishedTurn
  | needsYou
deriving DecidableEq

/-- `SessionUpdate`; a session is a terminal view, by its `EntityId`. -/
structure SessionUpdate where
  session : ℕ
  title : String
  kind : UpdateKind
deriving DecidableEq

structure WakePlanner where
  pending : List SessionUpdate
  firstPendingAt : Option ℕ
  lastWakeAt : Option ℕ
deriving DecidableEq

/-- The update of a session. -/
def latest (updates : List SessionUpdate) (session : ℕ) : Option SessionUpdate :=
  updates.find? fun u => u.session = session

namespace WakePlanner

/-- `WakePlanner::default`. -/
def default : WakePlanner := ⟨[], none, none⟩

def record (p : WakePlanner) (update : SessionUpdate) (now : ℕ) : WakePlanner where
  pending :=
    match latest p.pending update.session with
    | some _ => updateFirst (fun u => u.session = update.session) (fun _ => update) p.pending
    | none => p.pending ++ [update]
  firstPendingAt := some (p.firstPendingAt.getD now)
  lastWakeAt := p.lastWakeAt

/-- When the pending updates may go out, if there are any. -/
def dueAt (p : WakePlanner) : Option ℕ := do
  let batchCloses := (← p.firstPendingAt) + batchWindow
  return match p.lastWakeAt with
  | some last => max batchCloses (last + minWakeInterval)
  | none => batchCloses

/-- Everything pending, due or not. -/
def takeAll (p : WakePlanner) : List SessionUpdate × WakePlanner :=
  (p.pending, { p with pending := [], firstPendingAt := none })

/-- The pending updates, if they are due. -/
def takeDue (p : WakePlanner) (now : ℕ) : Option (List SessionUpdate × WakePlanner) := do
  if (← p.dueAt) > now then none else return p.takeAll

/-- The updates are put back at the front, from the last to the first, unless there is a newer one
of the same session. -/
def putBack (updates pending : List SessionUpdate) : List SessionUpdate :=
  updates.foldr
    (fun update pending =>
      if pending.any fun u => u.session = update.session then pending else update :: pending)
    pending

/-- Puts back updates that could not be delivered. -/
def hold (p : WakePlanner) (updates : List SessionUpdate) (since : ℕ) : WakePlanner :=
  let pending := putBack updates p.pending
  if pending.isEmpty then { p with pending }
  else
    -- `checked_sub`: there may be no instant so long ago
    let since := if batchWindow ≤ since then since - batchWindow else since
    { p with
      pending
      firstPendingAt := some (match p.firstPendingAt with
        | some t => min t since
        | none => since) }

def markWoken (p : WakePlanner) (now : ℕ) : WakePlanner := { p with lastWakeAt := some now }

def hasPending (p : WakePlanner) : Bool := !p.pending.isEmpty

def clear (p : WakePlanner) : WakePlanner := { p with pending := [], firstPendingAt := none }

/-! ## The update of a session -/

variable {p : WakePlanner} {updates : List SessionUpdate} {u : SessionUpdate} {session : ℕ}

/-- There is one update of each session. -/
def OnePerSession (updates : List SessionUpdate) : Prop := (updates.map (·.session)).Nodup

theorem latest_eq_none : latest updates session = none ↔ session ∉ updates.map (·.session) := by
  unfold latest
  rw [List.find?_eq_none]
  simp

theorem latest_cons : latest (u :: updates) session =
    if u.session = session then some u else latest updates session := by
  unfold latest
  rw [List.find?_cons]
  by_cases h : u.session = session
  · simp [h]
  · simp [h]

theorem latest_append {vs : List SessionUpdate} : latest (updates ++ vs) session =
    (latest updates session).or (latest vs session) :=
  List.find?_append

theorem latest_updateFirst (h : u.session ∈ updates.map (·.session)) :
    latest (updateFirst (fun v => v.session = u.session) (fun _ => u) updates) session =
      if u.session = session then some u else latest updates session := by
  induction updates with
  | nil => exact absurd h List.not_mem_nil
  | cons v updates ih =>
    rw [updateFirst]
    by_cases hv : v.session = u.session
    · rw [if_pos (decide_eq_true hv), latest_cons, latest_cons]
      split
      · rfl
      · rw [if_neg (fun e => ‹¬ _› (hv ▸ e))]
    · have hmem : u.session ∈ updates.map (·.session) :=
        (List.mem_cons.1 h).resolve_left (fun e => hv e.symm)
      rw [if_neg (fun e => hv (of_decide_eq_true e)), latest_cons, latest_cons, ih hmem]
      by_cases hs : v.session = session
      · rw [if_pos hs, if_neg (fun e => hv (hs.trans e.symm)), if_pos hs]
      · rw [if_neg hs, if_neg hs]

theorem map_session_updateFirst :
    (updateFirst (fun v => v.session = u.session) (fun _ => u) updates).map (·.session) =
      updates.map (·.session) :=
  map_updateFirst (fun _ hv => (of_decide_eq_true hv).symm) updates

/-- What is recorded is the update of its session, and no other update changes. -/
theorem latest_record (now : ℕ) : latest (p.record u now).pending session =
    if u.session = session then some u else latest p.pending session := by
  unfold record
  cases h : latest p.pending u.session with
  | some v =>
    refine latest_updateFirst ?_
    by_contra hmem
    rw [latest_eq_none.2 hmem] at h
    exact absurd h (by simp)
  | none =>
    rw [latest_append, latest_cons]
    split
    · rename_i e
      rw [← e, h, Option.none_or]
    · exact Option.or_none

theorem onePerSession_record (h : OnePerSession p.pending) (now : ℕ) :
    OnePerSession (p.record u now).pending := by
  unfold record
  cases hu : latest p.pending u.session with
  | some v =>
    show ((updateFirst _ _ _).map _).Nodup
    rw [map_session_updateFirst]
    exact h
  | none =>
    show ((_ ++ [u]).map _).Nodup
    rw [List.map_append]
    refine h.append (List.nodup_singleton _) ?_
    exact List.disjoint_singleton.2 (latest_eq_none.1 hu)

/-- With one update of each session, an update is the one of its session. -/
theorem mem_iff_latest (h : OnePerSession updates) :
    u ∈ updates ↔ latest updates u.session = some u := by
  induction updates with
  | nil => simp [latest]
  | cons v updates ih =>
    have h := List.nodup_cons.1 h
    rw [latest_cons, List.mem_cons, ih h.2]
    by_cases hv : v.session = u.session
    · rw [if_pos hv, Option.some.injEq]
      refine ⟨fun e => e.elim Eq.symm fun e => ?_, fun e => .inl e.symm⟩
      rw [latest_eq_none.2 (hv ▸ h.1)] at e
      exact absurd e (by simp)
    · rw [if_neg hv, or_iff_right (fun e => hv (by rw [e]))]

/-! ## When the updates are due -/

/-- The updates that go out are due. -/
theorem takeDue_eq_some {now : ℕ} {r : List SessionUpdate × WakePlanner}
    (h : p.takeDue now = some r) : r = p.takeAll ∧ ∃ due, p.dueAt = some due ∧ due ≤ now := by
  unfold takeDue at h
  cases hd : p.dueAt with
  | none => rw [hd] at h; exact nomatch h
  | some due =>
    rw [hd, Option.bind_eq_bind, Option.bind_some] at h
    by_cases hdue : due > now
    · rw [if_pos hdue] at h
      exact nomatch h
    · rw [if_neg hdue] at h
      exact ⟨(Option.some.inj h).symm, due, rfl, Nat.le_of_not_lt hdue⟩

/-- The batch is closed and the last wakeup is far enough behind. -/
theorem le_of_dueAt {due : ℕ} (h : p.dueAt = some due) :
    (∃ t, p.firstPendingAt = some t ∧ t + batchWindow ≤ due) ∧
      ∀ t, p.lastWakeAt = some t → t + minWakeInterval ≤ due := by
  unfold dueAt at h
  cases hf : p.firstPendingAt with
  | none => rw [hf] at h; exact nomatch h
  | some t =>
    rw [hf, Option.bind_eq_bind, Option.bind_some] at h
    have h := Option.some.inj h
    cases hl : p.lastWakeAt with
    | none =>
      rw [hl] at h
      exact ⟨⟨t, rfl, h.le⟩, fun _ e => nomatch e⟩
    | some last =>
      rw [hl] at h
      refine ⟨⟨t, rfl, h ▸ le_max_left _ _⟩, fun t' ht' => ?_⟩
      rw [← h, Option.some.inj ht']
      exact le_max_right _ _
/-! ## Updates that are put back -/

theorem putBack_cons {pending : List SessionUpdate} : putBack (u :: updates) pending =
    if u.session ∈ (putBack updates pending).map (·.session) then putBack updates pending
    else u :: putBack updates pending := by
  show (if (putBack updates pending).any _ = true then _ else _) = _
  congr 1
  simp

/-- The update that waits for a session is kept, whatever is put back. -/
theorem latest_putBack {pending : List SessionUpdate} (h : latest pending session = some u) :
    latest (putBack updates pending) session = some u := by
  induction updates with
  | nil => exact h
  | cons v updates ih =>
    rw [putBack_cons]
    split
    · exact ih
    · rename_i hv
      rw [latest_cons, if_neg, ih]
      rintro rfl
      rw [latest_eq_none.2 hv] at ih
      exact absurd ih (by simp)

theorem putBack_nil (h : OnePerSession updates) : putBack updates [] = updates := by
  induction updates with
  | nil => rfl
  | cons v updates ih =>
    have h := List.nodup_cons.1 h
    rw [putBack_cons, ih h.2, if_neg h.1]

theorem pending_hold (since : ℕ) :
    (p.hold updates since).pending = putBack updates p.pending := by
  unfold hold
  simp only
  split <;> rfl

/-- **A held update never replaces an update of its session that came in the meantime.** -/
theorem latest_hold (h : latest p.pending session = some u) (since : ℕ) :
    latest (p.hold updates since).pending session = some u := by
  rw [pending_hold]
  exact latest_putBack h

end WakePlanner

end Clinch.AutoCoordinate
