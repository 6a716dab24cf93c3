import Clinch.RemoteControl.Frame
import Clinch.RemoteControl.Topology

/-!
# The revision of the workspace

Snapshots, requests and changes of the desktop in any order, and what a revision says of the
topology. A desktop may change at every moment.

* `Moment`, `run`, `changes`: a run, and how often the revision moves in it;
* `snapshotAt`, `carriedAt`, `MutatesAt`, `ExecutesAt`: what happens at a moment;
* `iterate_nextWorkspaceRevision`: the revisions are a cycle of `2^53 - 1` numbers;
* `run_kept`: while the revision stays, so does the remembered hash;
* `remembered_run`: a remembered answer carries a revision that the adapter had;
* `revision_names_topology`: the main result, and `revision_repeats`: its limits.
-/

set_option autoImplicit false

namespace Clinch

/-! ## The cycle of the revisions -/

theorem nextWorkspaceRevision_range (r : ℕ) :
    1 ≤ nextWorkspaceRevision r ∧ nextWorkspaceRevision r ≤ maxJavascriptSafeInteger := by
  rw [nextWorkspaceRevision, maxJavascriptSafeInteger]
  split <;> omega

theorem nextWorkspaceRevision_ne (r : ℕ) : nextWorkspaceRevision r ≠ r := by
  rw [nextWorkspaceRevision, maxJavascriptSafeInteger]
  split <;> omega

theorem iterate_nextWorkspaceRevision {r : ℕ} (h : 1 ≤ r) (h' : r ≤ maxJavascriptSafeInteger)
    (n : ℕ) : nextWorkspaceRevision^[n] r = (r - 1 + n) % maxJavascriptSafeInteger + 1 := by
  induction n with
  | zero => rw [Function.iterate_zero_apply, maxJavascriptSafeInteger] at *; omega
  | succ n ih =>
    rw [Function.iterate_succ_apply', ih, nextWorkspaceRevision, maxJavascriptSafeInteger]
    split <;> omega

/-- A revision comes back after `2^53 - 1` steps, and no sooner. -/
theorem eq_zero_of_iterate {r n : ℕ} (h : 1 ≤ r) (h' : r ≤ maxJavascriptSafeInteger)
    (hn : n < maxJavascriptSafeInteger) (heq : nextWorkspaceRevision^[n] r = r) : n = 0 := by
  rw [iterate_nextWorkspaceRevision h h', maxJavascriptSafeInteger] at heq
  rw [maxJavascriptSafeInteger] at h' hn
  omega

theorem initialWorkspaceRevision_range (random : UInt64) : 1 ≤ initialWorkspaceRevision random ∧
    initialWorkspaceRevision random ≤ maxJavascriptSafeInteger := by
  have h : javascriptSafeInteger random ≤ maxJavascriptSafeInteger := Nat.and_le_right
  exact ⟨le_max_right _ _, max_le h (by decide)⟩

/-! ## Runs -/

/-- A call of the adapter, and the desktop and the time that it finds. -/
structure Moment where
  desktop : Desktop
  now : DateTime
  event : AdapterEvent

namespace WorkspaceAdapter

variable (c : Crates)

def stepAt (a : WorkspaceAdapter) (m : Moment) : WorkspaceAdapter := a.step c m.desktop m.now m.event

def run (a : WorkspaceAdapter) (ms : List Moment) : WorkspaceAdapter := ms.foldl (stepAt c) a

/-- How often the revision moves. -/
def changes : WorkspaceAdapter → List Moment → ℕ
  | _, [] => 0
  | a, m :: ms =>
    (if (a.stepAt c m).revision = a.revision then 0 else 1) + changes (a.stepAt c m) ms

/-- The snapshot that is taken. A poll sends it afterwards, if it shows anything new. -/
def snapshotAt (a : WorkspaceAdapter) (m : Moment) : Option WorkspaceSnapshot :=
  match m.event with
  | .snapshot => some (a.snapshot c m.desktop m.now).1
  | .envelope envelope authorization =>
    match (a.handleEnvelope c m.desktop m.now envelope authorization).1.envelope.payload with
    | .snapshot s => some s
    | _ => none
  | _ => none

/-- The revision that the snapshot or the answer carries. -/
def carriedAt (a : WorkspaceAdapter) (m : Moment) : Option ℕ :=
  match m.event with
  | .snapshot => some (a.snapshot c m.desktop m.now).1.revision
  | .envelope envelope authorization =>
    (a.handleEnvelope c m.desktop m.now envelope authorization).1.envelope.payload.carried
  | .completeUpload completion => (a.completeUpload c m.desktop m.now completion).1.payload.carried
  | _ => none

/-- A request changes projects, tabs, sections or tasks. -/
def MutatesAt (a : WorkspaceAdapter) (m : Moment) : Prop :=
  ∃ envelope authorization, m.event = .envelope envelope authorization ∧
    envelope.payload.isMutation = true ∧
    a.cached authorization.sessionId envelope.requestId = none ∧
    (a.handleEnvelope c m.desktop m.now envelope authorization).1.envelope.payload.isError = false

/-- A command that names the revision is executed: it is answered without an error, or the desktop is
asked for something. -/
def ExecutesAt (a : WorkspaceAdapter) (m : Moment) (revision : ℕ) : Prop :=
  ∃ envelope authorization, m.event = .envelope envelope authorization ∧
    envelope.payload.expectedRevision = some revision ∧
    a.cached authorization.sessionId envelope.requestId = none ∧
    ((a.handleEnvelope c m.desktop m.now envelope authorization).1.envelope.payload.isError = false ∨
      (a.stepAt c m).effects ≠ a.effects)

variable {c} {a : WorkspaceAdapter} {m : Moment} {ms : List Moment}

theorem run_append (xs ys : List Moment) : a.run c (xs ++ ys) = (a.run c xs).run c ys :=
  List.foldl_append

theorem run_cons (ys : List Moment) : a.run c (m :: ys) = (a.stepAt c m).run c ys := rfl

theorem changes_append (xs ys : List Moment) :
    a.changes c (xs ++ ys) = a.changes c xs + (a.run c xs).changes c ys := by
  induction xs generalizing a with
  | nil => exact (Nat.zero_add _).symm
  | cons x xs ih => rw [List.cons_append, changes, changes, ih, Nat.add_assoc]; rfl

/-! ## What a step does -/

/-- A snapshot moves the revision when the hash is not the remembered one. -/
theorem snapshot_moves (c : Crates) (d : Desktop) (now : DateTime) (a : WorkspaceAdapter) :
    (a.snapshot c d now).2.lastTopologyFingerprint = some (d.fingerprint c) ∧
    (a.snapshot c d now).2.revision =
      (if a.lastTopologyFingerprint.any (· ≠ d.fingerprint c) then nextWorkspaceRevision a.revision
      else a.revision) := by
  have h := sameRevision_reclaim c d now a
  rw [← h.revision, ← h.lastTopologyFingerprint]
  exact ⟨rfl, rfl⟩

/-- What a step does to the revision and to the remembered hash. -/
def Moves (a : WorkspaceAdapter) (fingerprint : UInt64) (a' : WorkspaceAdapter) : Prop :=
  (a'.revision = a.revision ∧ a'.lastTopologyFingerprint = a.lastTopologyFingerprint) ∨
  (a'.revision = nextWorkspaceRevision a.revision ∧ a'.lastTopologyFingerprint = none) ∨
  (a'.lastTopologyFingerprint = some fingerprint ∧ a'.revision =
    if a.lastTopologyFingerprint.any (· ≠ fingerprint) then nextWorkspaceRevision a.revision
    else a.revision)

theorem SameRevision.moves {a' : WorkspaceAdapter} (h : SameRevision a a') (fingerprint : UInt64) :
    a.Moves fingerprint a' := Or.inl ⟨h.revision, h.lastTopologyFingerprint⟩

theorem outcome_moves {d : Desktop} {now : DateTime} {requestId : RequestId}
    {authorization : SessionAuthorization} {message : ClientMessage}
    {r : AdapterReply × WorkspaceAdapter}
    (h : Outcome c d now a requestId authorization message r) :
    a.Moves (d.fingerprint c) r.2 := by
  rcases outcome_revision h with h | ⟨-, b, hb, rfl⟩ | ⟨-, rfl⟩
  · exact h.moves _
  · exact Or.inr (Or.inl ⟨congrArg nextWorkspaceRevision hb.revision, rfl⟩)
  · exact Or.inr (Or.inr (snapshot_moves c d now a))

/-- The states of `handleEnvelope` and of `execute` have the same revision and hash. -/
theorem handleEnvelope_moves (d : Desktop) (now : DateTime) (envelope : ClientEnvelope)
    (authorization : SessionAuthorization) (a : WorkspaceAdapter) :
    a.Moves (d.fingerprint c) (a.handleEnvelope c d now envelope authorization).2 := by
  rcases handleEnvelope_cases c d now envelope authorization a with
    ⟨e, he⟩ | ⟨cached, -, he⟩ | ⟨-, he⟩ | ⟨-, r, hr, he⟩
  · rw [he]
    exact Or.inl ⟨rfl, rfl⟩
  · rw [he]
    exact Or.inl ⟨rfl, rfl⟩
  · rw [he]
    exact Or.inl ⟨rfl, rfl⟩
  · have h := outcome_moves
      (execute_outcome c d now a envelope.requestId authorization envelope.payload)
    rw [← hr] at h
    rw [he]
    simp only
    split <;> exact h

theorem stepAt_moves (a : WorkspaceAdapter) (m : Moment) :
    a.Moves (m.desktop.fingerprint c) (a.stepAt c m) := by
  rw [stepAt]
  cases m.event with
  | envelope envelope authorization => exact handleEnvelope_moves _ _ _ _ _
  | completeUpload completion =>
    exact (sameRevision_completeUpload c m.desktop m.now completion a).moves _
  | sessionConnected sessionId deviceId => exact Or.inl ⟨rfl, rfl⟩
  | sessionDisconnected sessionId => exact Or.inl ⟨rfl, rfl⟩
  | sweep => exact (sameRevision_pruneWriterLeases c m.desktop m.now a).moves _
  | snapshot => exact Or.inr (Or.inr (snapshot_moves c m.desktop m.now a))
  | workspaceChanged snapshot => exact Or.inl ⟨rfl, rfl⟩
  | desktopInput terminal =>
    rw [step]
    split
    · exact (sameRevision_preempt c m.desktop terminal a).moves _
    · exact Or.inl ⟨rfl, rfl⟩
  | shutdown =>
    have h := (quiet_foldl_restoreDesktopSize c m.desktop (a.writerLeases.entries.map Prod.fst)
      { a with
        connectedSessions := ∅
        writerLeases := .empty
        remoteSizePins := .empty
        idempotency := .empty })
    exact Or.inl ⟨h.revision, h.lastTopologyFingerprint⟩

theorem stepAt_revision (a : WorkspaceAdapter) (m : Moment) :
    (a.stepAt c m).revision = a.revision ∨
      (a.stepAt c m).revision = nextWorkspaceRevision a.revision := by
  rcases stepAt_moves (c := c) a m with ⟨h, -⟩ | ⟨h, -⟩ | ⟨-, h⟩
  · exact Or.inl h
  · exact Or.inr h
  · rw [h]
    split
    · exact Or.inr rfl
    · exact Or.inl rfl

/-- The revision steps through its cycle. -/
theorem run_revision (a : WorkspaceAdapter) (ms : List Moment) :
    (a.run c ms).revision = nextWorkspaceRevision^[a.changes c ms] a.revision := by
  induction ms generalizing a with
  | nil => rfl
  | cons m ms ih =>
    rw [run_cons, ih, changes]
    split
    · rename_i h
      rw [h, Nat.zero_add]
    · rename_i h
      rw [(stepAt_revision a m).resolve_left h, Nat.add_comm, Function.iterate_succ_apply]

theorem run_range {a : WorkspaceAdapter} (h : 1 ≤ a.revision)
    (h' : a.revision ≤ maxJavascriptSafeInteger) (ms : List Moment) :
    1 ≤ (a.run c ms).revision ∧ (a.run c ms).revision ≤ maxJavascriptSafeInteger := by
  rw [run_revision, iterate_nextWorkspaceRevision h h', maxJavascriptSafeInteger]
  omega

/-- **While the revision stays, so does the remembered hash.** -/
theorem run_kept {fingerprint : UInt64} (hf : a.lastTopologyFingerprint = some fingerprint)
    (h : a.changes c ms = 0) : (a.run c ms).lastTopologyFingerprint = some fingerprint := by
  induction ms generalizing a with
  | nil => exact hf
  | cons m ms ih =>
    rw [changes, Nat.add_eq_zero_iff] at h
    obtain ⟨hm, h⟩ := h
    refine ih ?_ h
    have hrev : (a.stepAt c m).revision = a.revision := by simpa using hm
    rcases stepAt_moves (c := c) a m with ⟨-, hl⟩ | ⟨hr, -⟩ | ⟨hl, hr⟩
    · exact hl.trans hf
    · exact absurd (hr.symm.trans hrev) (nextWorkspaceRevision_ne _)
    · rw [hl]
      split at hr
      · exact absurd (hr.symm.trans hrev) (nextWorkspaceRevision_ne _)
      · rename_i hany
        rw [hf, Option.any_some, decide_eq_true_eq, not_not] at hany
        rw [hany]

/-! ## Remembered answers -/

/-- An answer in the cache. -/
def Remembered (a : WorkspaceAdapter) (response : ServerEnvelope) : Prop :=
  ∃ sessionId entries requestId, a.idempotency.get sessionId = some entries ∧
    (requestId, response) ∈ entries

theorem remembered_of_cached {sessionId : AuthSessionId} {requestId : RequestId}
    {response : ServerEnvelope} (h : a.cached sessionId requestId = some response) :
    a.Remembered response := by
  obtain ⟨entries, he, hf⟩ := Option.bind_eq_some_iff.mp h
  obtain ⟨e, hfind, rfl⟩ := Option.map_eq_some_iff.mp hf
  exact ⟨sessionId, entries, e.1, he, List.mem_of_find?_eq_some hfind⟩

theorem remembered_remember {sessionId : AuthSessionId} {requestId : RequestId}
    {response response' : ServerEnvelope}
    (h : (a.remember sessionId requestId response').Remembered response) :
    a.Remembered response ∨ response = response' := by
  obtain ⟨sessionId', entries, requestId', he, hm⟩ := h
  rw [remember, HashMap.get_insert] at he
  split at he
  · obtain rfl := Option.some.inj he
    rcases List.mem_append.mp hm with hm | hm
    · refine Or.inl ?_
      cases hg : a.idempotency.get sessionId with
      | none =>
        rw [hg] at hm
        cases List.mem_of_mem_drop hm
      | some entries =>
        rw [hg] at hm
        exact ⟨sessionId, entries, requestId', hg, List.mem_of_mem_drop hm⟩
    · exact Or.inr (Prod.mk.inj (List.mem_singleton.mp hm)).2
  · exact Or.inl ⟨sessionId', entries, requestId', he, hm⟩

theorem Same.remembered {a' : WorkspaceAdapter} (h : Same a a') {response : ServerEnvelope}
    (hr : a'.Remembered response) : a.Remembered response := by
  rwa [Remembered, h.idempotency] at hr

/-- The answer is no snapshot, and carries no other revision than this. -/
def Carries (response : ServerEnvelope) (revision : ℕ) : Prop :=
  response.payload.isSnapshot = false ∧ ∀ n, response.payload.carried = some n → n = revision

theorem remembered_handleEnvelope {d : Desktop} {now : DateTime} {envelope : ClientEnvelope}
    {authorization : SessionAuthorization} {response : ServerEnvelope}
    (h : (a.handleEnvelope c d now envelope authorization).2.Remembered response) :
    a.Remembered response ∨
      Carries response (a.handleEnvelope c d now envelope authorization).2.revision := by
  rcases handleEnvelope_cases c d now envelope authorization a with
    ⟨e, he⟩ | ⟨cached, -, he⟩ | ⟨-, he⟩ | ⟨-, r, hr, he⟩
  · rw [he] at h
    exact Or.inl h
  · rw [he] at h
    exact Or.inl h
  · rw [he] at h
    exact Or.inl h
  · have hsame := outcome_same
      (execute_outcome c d now a envelope.requestId authorization envelope.payload)
    rw [← hr] at hsame
    rw [he] at h ⊢
    simp only at h ⊢
    split at h
    · rename_i hidem
      rw [if_pos hidem]
      rcases remembered_remember h with h | rfl
      · exact Or.inl (hsame.remembered h)
      · have hne : envelope.payload ≠ .requestSnapshot := fun hp => by
          rw [hp] at hidem
          exact nomatch hidem
        have hrep := execute_reports c d now a envelope.requestId authorization hne
        rw [← hr] at hrep
        exact Or.inr ⟨hrep.isSnapshot, hrep.carried⟩
    · exact Or.inl (hsame.remembered h)

theorem remembered_stepAt {response : ServerEnvelope} (h : (a.stepAt c m).Remembered response) :
    a.Remembered response ∨ Carries response (a.stepAt c m).revision := by
  rw [stepAt] at h ⊢
  cases he : m.event with
  | envelope envelope authorization =>
    rw [he] at h
    exact remembered_handleEnvelope h
  | completeUpload completion =>
    rw [he] at h
    exact Or.inl ((sameRevision_completeUpload c m.desktop m.now completion a).toSame.remembered h)
  | sessionConnected sessionId deviceId =>
    rw [he] at h
    exact Or.inl h
  | sessionDisconnected sessionId =>
    rw [he] at h
    obtain ⟨sessionId', entries, requestId, hg, hm⟩ := h
    exact Or.inl ⟨sessionId', entries, requestId, (HashMap.get_remove_some.mp hg).1, hm⟩
  | sweep =>
    rw [he] at h
    exact Or.inl ((sameRevision_pruneWriterLeases c m.desktop m.now a).toSame.remembered h)
  | snapshot =>
    rw [he] at h
    exact Or.inl ((same_snapshot c m.desktop m.now a).remembered h)
  | workspaceChanged snapshot =>
    rw [he] at h
    exact Or.inl h
  | desktopInput terminal =>
    rw [he, step] at h
    split at h
    · exact Or.inl ((sameRevision_preempt c m.desktop terminal a).toSame.remembered h)
    · exact Or.inl h
  | shutdown =>
    rw [he] at h
    obtain ⟨sessionId, entries, requestId, hg, -⟩ := (quiet_foldl_restoreDesktopSize c m.desktop
      (a.writerLeases.entries.map Prod.fst) _).same.remembered h
    cases hg

/-- **A remembered answer carries a revision that the adapter had.** -/
theorem remembered_run {response : ServerEnvelope} (h0 : ∀ response, ¬ a.Remembered response)
    (h : (a.run c ms).Remembered response) : response.payload.isSnapshot = false ∧
      ∀ n, response.payload.carried = some n → ∃ xs, xs <+: ms ∧ (a.run c xs).revision = n := by
  induction ms using List.reverseRecOn with
  | nil => exact absurd h (h0 response)
  | append_singleton ms m ih =>
    rw [run_append] at h
    rcases remembered_stepAt h with h | ⟨hs, hc⟩
    · obtain ⟨hs, hc⟩ := ih h
      refine ⟨hs, fun n hn => ?_⟩
      obtain ⟨xs, hx, hrev⟩ := hc n hn
      exact ⟨xs, hx.trans (List.prefix_append _ _), hrev⟩
    · refine ⟨hs, fun n hn => ⟨_, List.prefix_rfl, ?_⟩⟩
      rw [hc n hn, run_append]
      rfl

/-! ## What happens at a moment -/

variable {a : WorkspaceAdapter}

/-- A snapshot shows the desktop, and the adapter remembers the hash of what it shows. -/
theorem snapshotAt_spec {s : WorkspaceSnapshot}
    (hr : ∀ response, a.Remembered response → response.payload.isSnapshot = false)
    (h : a.snapshotAt c m = some s) : s.topology = m.desktop.topology c ∧
      (a.stepAt c m).revision = s.revision ∧
      (a.stepAt c m).lastTopologyFingerprint = some (m.desktop.fingerprint c) := by
  rw [snapshotAt] at h
  rw [stepAt]
  split at h
  · rename_i he
    obtain rfl := Option.some.inj h
    rw [he]
    exact ⟨snapshot_topology c _ _ a, rfl, (snapshot_moves c m.desktop m.now a).1⟩
  · rename_i envelope authorization he
    rw [he]
    split at h
    · rename_i s' hp
      obtain rfl := Option.some.inj h
      rw [step]
      rcases handleEnvelope_cases c m.desktop m.now envelope authorization a with
        ⟨e, he⟩ | ⟨cached, hc, he⟩ | ⟨-, he⟩ | ⟨-, r, hr', he⟩
      · rw [he] at hp
        cases hp
      · rw [he] at hp
        have hs := hr cached (remembered_of_cached hc)
        rw [show cached.payload = .snapshot s' from hp] at hs
        cases hs
      · rw [he] at hp
        cases hp
      · rw [he] at hp ⊢
        by_cases hm : envelope.payload = .requestSnapshot
        · rw [hm] at hr' ⊢
          rw [hr'] at hp ⊢
          obtain rfl := ServerMessage.snapshot.inj hp
          exact ⟨snapshot_topology c _ _ a, rfl, (snapshot_moves c m.desktop m.now a).1⟩
        · have hrep := execute_reports c m.desktop m.now a envelope.requestId authorization hm
          rw [← hr'] at hrep
          cases (congrArg ServerMessage.isSnapshot hp).symm.trans hrep.isSnapshot
    · cases h
  · cases h

theorem completeUpload_carried {completion : UploadCompletion} {d : Desktop} {now : DateTime} {n : ℕ}
    (h : (a.completeUpload c d now completion).1.payload.carried = some n) :
    n = (a.completeUpload c d now completion).2.revision := by
  rw [completeUpload] at h ⊢
  split at h
  · exact (Option.some.inj h).symm
  · rename_i resolved b he
    split at h
    · rename_i envelope b' he'
      have hrep := ensureWriter_reports (m := .ping) (congrArg Prod.fst he')
      rw [show _ = b' from congrArg Prod.snd he'] at hrep
      exact hrep.carried n h
    · split at h
      · rename_i hd
        simp only [hd, ne_eq, not_false_eq_true, if_true]
        exact (Option.some.inj h).symm
      · cases h

/-- What is carried is the revision after the moment, or one that a remembered answer had. -/
theorem carriedAt_spec {n : ℕ} (h : a.carriedAt c m = some n) : (a.stepAt c m).revision = n ∨
    ∃ response, a.Remembered response ∧ response.payload.carried = some n := by
  rw [carriedAt] at h
  rw [stepAt]
  split at h
  · rename_i he
    rw [he]
    exact Or.inl (Option.some.inj h)
  · rename_i envelope authorization he
    rw [he, step]
    rcases handleEnvelope_cases c m.desktop m.now envelope authorization a with
      ⟨e, he⟩ | ⟨cached, hc, he⟩ | ⟨-, he⟩ | ⟨-, r, hr, he⟩
    · rw [he] at h ⊢
      exact Or.inl (Option.some.inj h)
    · rw [he] at h
      exact Or.inr ⟨cached, remembered_of_cached hc, h⟩
    · rw [he] at h ⊢
      exact Or.inl (Option.some.inj h)
    · rw [he] at h ⊢
      refine Or.inl ?_
      have hrev : (if isIdempotentMutation envelope.payload then
          r.2.remember authorization.sessionId envelope.requestId r.1.envelope else r.2).revision =
          r.2.revision := by
        split <;> rfl
      refine hrev.trans ?_
      by_cases hm : envelope.payload = .requestSnapshot
      · rw [hm] at hr
        rw [hr] at h ⊢
        exact Option.some.inj h
      · have hrep := execute_reports c m.desktop m.now a envelope.requestId authorization hm
        rw [← hr] at hrep
        exact (hrep.carried n h).symm
  · rename_i completion he
    rw [he]
    exact Or.inl (completeUpload_carried h).symm
  · cases h

/-- A remote mutation moves the revision. -/
theorem stepAt_ne_of_mutatesAt (h : a.MutatesAt c m) : (a.stepAt c m).revision ≠ a.revision := by
  obtain ⟨envelope, authorization, he, hm, hc, herr⟩ := h
  rw [stepAt, he, step]
  rcases handleEnvelope_cases c m.desktop m.now envelope authorization a with
    ⟨e, heq⟩ | ⟨cached, hc', heq⟩ | ⟨-, heq⟩ | ⟨-, r, hr, heq⟩
  · rw [heq] at herr
    cases herr
  · cases hc.symm.trans hc'
  · rw [heq] at herr
    cases herr
  · have hout := execute_outcome c m.desktop m.now a envelope.requestId authorization
      envelope.payload
    rw [← hr] at hout
    have hrev : (a.handleEnvelope c m.desktop m.now envelope authorization).2.revision =
        r.2.revision := by
      rw [heq]
      simp only
      split <;> rfl
    rw [hrev]
    rw [heq] at herr
    cases hout with
    | refused h _ => cases h.2.symm.trans herr
    | read hm' _ => cases hm'.2.symm.trans hm
    | mutation _ _ h =>
      exact fun heq' => nextWorkspaceRevision_ne a.revision
        ((congrArg nextWorkspaceRevision h.revision).symm.trans heq')
    | snapshot hm' => cases (by rw [hm'] at hm; exact hm : false = true)
    | release hm' _ => cases (by rw [hm'] at hm; exact hm : false = true)
    | blocked hm' _ _ he' => cases (quiet_of_error he').1.symm.trans herr
    | written hm' _ _ _ _ =>
      cases hp : envelope.payload <;> simp_all [ClientMessage.isMutation, ClientMessage.written]
    | resized hm' _ _ _ _ => cases (by rw [hm'] at hm; exact hm : false = true)
    | pin hm' _ _ _ => cases (by rw [hm'] at hm; exact hm : false = true)

/-- A command is executed at the revision that it names. -/
theorem revision_of_executesAt {revision : ℕ} (h : a.ExecutesAt c m revision) :
    a.revision = revision := by
  obtain ⟨envelope, authorization, he, hm, hc, hexec⟩ := h
  rw [stepAt, he, step] at hexec
  by_contra hne
  rcases handleEnvelope_cases c m.desktop m.now envelope authorization a with
    ⟨e, heq⟩ | ⟨cached, hc', heq⟩ | ⟨-, heq⟩ | ⟨-, r, hr, heq⟩
  · rw [heq] at hexec
    exact hexec.elim (fun h => by cases h) fun h => h rfl
  · cases hc.symm.trans hc'
  · rw [heq] at hexec
    exact hexec.elim (fun h => by cases h) fun h => h rfl
  · obtain ⟨error, hstale⟩ := execute_stale c m.desktop m.now a envelope.requestId authorization hm
      (Ne.symm hne)
    rw [hstale] at hr
    rw [heq, hr] at hexec
    refine hexec.elim (fun h => by cases h) fun h => h ?_
    simp only
    split <;> rfl

end WorkspaceAdapter

/-! ## The main result -/

open WorkspaceAdapter

/-- Desktops of the run with the same hash were hashed alike. -/
def NoCollision (c : Crates) (ms : List Moment) : Prop :=
  ∀ m ∈ ms, ∀ m' ∈ ms, m.desktop.fingerprint c = m'.desktop.fingerprint c →
    m.desktop.hashWrites c = m'.desktop.hashWrites c

variable {c : Crates} {a : WorkspaceAdapter}

/-- Between two equal revisions of a run that is not too long, the revision stays. -/
theorem changes_eq_zero {xs ys : List Moment} (zs : List Moment) (h : 1 ≤ a.revision)
    (h' : a.revision ≤ maxJavascriptSafeInteger)
    (hn : a.changes c (xs ++ ys ++ zs) < maxJavascriptSafeInteger)
    (heq : (a.run c (xs ++ ys)).revision = (a.run c xs).revision) : (a.run c xs).changes c ys = 0 := by
  obtain ⟨hr, hr'⟩ := run_range (c := c) h h' xs
  rw [run_append, run_revision (a.run c xs) ys] at heq
  rw [changes_append, changes_append] at hn
  exact eq_zero_of_iterate hr hr' (by omega) heq

/-- What a revision says of a run: its range, and what holds of two snapshots, and of a command and a
message that carries its revision. -/
structure RevisionNames (c : Crates) (a : WorkspaceAdapter) (ms : List Moment) : Prop where
  range : ∀ xs, xs <+: ms →
    1 ≤ (a.run c xs).revision ∧ (a.run c xs).revision ≤ maxJavascriptSafeInteger
  /-- Two snapshots with the same revision show the same topology. -/
  snapshots : ∀ xs x ys y zs s s', ms = xs ++ x :: (ys ++ y :: zs) →
    (a.run c xs).snapshotAt c x = some s → (a.run c (xs ++ x :: ys)).snapshotAt c y = some s' →
    s.revision = s'.revision → s.topology = s'.topology
  /-- Since the message that carried the revision of an executed command, there was no remote
  mutation, and every snapshot carried that revision too. -/
  commands : ∀ xs x ys y zs revision, ms = xs ++ x :: (ys ++ y :: zs) →
    (a.run c xs).carriedAt c x = some revision →
    (a.run c (xs ++ x :: ys)).ExecutesAt c y revision → ∀ us z vs, ys = us ++ z :: vs →
      ¬ (a.run c (xs ++ x :: us)).MutatesAt c z ∧
      ∀ s, (a.run c (xs ++ x :: us)).snapshotAt c z = some s → s.revision = revision

/-- A moment of a stretch in which the revision stays. -/
theorem stepAt_of_changes {xs us vs : List Moment} {z : Moment}
    (h : (a.run c xs).changes c (us ++ z :: vs) = 0) :
    ((a.run c (xs ++ us)).stepAt c z).revision = (a.run c (xs ++ us)).revision ∧
      (a.run c (xs ++ us)).revision = (a.run c xs).revision := by
  rw [changes_append, changes, ← run_append] at h
  have hus : (a.run c xs).changes c us = 0 := by omega
  refine ⟨by by_contra hne; rw [if_neg hne] at h; omega, ?_⟩
  rw [run_append, run_revision, hus]
  rfl

/-- The messages of a stretch between two moments of a run. -/
theorem snapshots_same_topology {xs ys zs : List Moment} {x y : Moment} {s s' : WorkspaceSnapshot}
    (h0 : ∀ response, ¬ a.Remembered response) (h : 1 ≤ a.revision)
    (h' : a.revision ≤ maxJavascriptSafeInteger)
    (hc : NoCollision c (xs ++ x :: (ys ++ y :: zs)))
    (hn : a.changes c (xs ++ x :: (ys ++ y :: zs)) < maxJavascriptSafeInteger)
    (hs : (a.run c xs).snapshotAt c x = some s)
    (hs' : (a.run c (xs ++ x :: ys)).snapshotAt c y = some s') (hrev : s.revision = s'.revision) :
    s.topology = s'.topology := by
  obtain ⟨htop, hr, hl⟩ := snapshotAt_spec (fun _ hm => (remembered_run h0 hm).1) hs
  obtain ⟨htop', hr', hl'⟩ := snapshotAt_spec (fun _ hm => (remembered_run h0 hm).1) hs'
  -- the adapter after the first snapshot, and after the second
  have hfirst : a.run c (xs ++ [x]) = (a.run c xs).stepAt c x := run_append xs [x]
  have hlast : a.run c (xs ++ [x] ++ (ys ++ [y])) = (a.run c (xs ++ x :: ys)).stepAt c y := by
    rw [show xs ++ [x] ++ (ys ++ [y]) = (xs ++ x :: ys) ++ [y] by simp, run_append]
    rfl
  have hzero : (a.run c (xs ++ [x])).changes c (ys ++ [y]) = 0 := by
    refine changes_eq_zero zs h h' ?_ ?_
    · rwa [show xs ++ [x] ++ (ys ++ [y]) ++ zs = xs ++ x :: (ys ++ y :: zs) by simp]
    · rw [hlast, hr', hfirst, hr, hrev]
  have hkept := run_kept (hfirst ▸ hl) hzero
  rw [← run_append, hlast, hl'] at hkept
  have hfeed := hc x (by simp) y (by simp) (Option.some.inj hkept).symm
  rw [htop, htop', topology_injective hfeed]

/-- What is carried was the revision of the adapter at a moment up to that one. -/
theorem exists_prefix_of_carriedAt {xs : List Moment} {x : Moment} {revision : ℕ}
    (h0 : ∀ response, ¬ a.Remembered response)
    (h : (a.run c xs).carriedAt c x = some revision) :
    ∃ ws, ws <+: xs ++ [x] ∧ (a.run c ws).revision = revision := by
  rcases carriedAt_spec h with h | ⟨response, hr, hc⟩
  · exact ⟨xs ++ [x], List.prefix_rfl, by rw [run_append]; exact h⟩
  · obtain ⟨ws, hw, hrev⟩ := (remembered_run h0 hr).2 revision hc
    exact ⟨ws, hw.trans (List.prefix_append _ _), hrev⟩

/-- Since a message that carried the revision of an executed command, the revision stayed. -/
theorem changes_of_executesAt {xs ys zs : List Moment} {x y : Moment} {revision : ℕ}
    (h0 : ∀ response, ¬ a.Remembered response) (h : 1 ≤ a.revision)
    (h' : a.revision ≤ maxJavascriptSafeInteger)
    (hn : a.changes c (xs ++ x :: (ys ++ y :: zs)) < maxJavascriptSafeInteger)
    (hx : (a.run c xs).carriedAt c x = some revision)
    (hy : (a.run c (xs ++ x :: ys)).ExecutesAt c y revision) :
    (a.run c (xs ++ [x])).changes c ys = 0 ∧ (a.run c (xs ++ [x])).revision = revision := by
  obtain ⟨ws, ⟨us, hw⟩, hrev⟩ := exists_prefix_of_carriedAt h0 hx
  have hall : ws ++ (us ++ ys) = xs ++ x :: ys := by
    rw [← List.append_assoc, hw, List.append_assoc]
    rfl
  have hzero : (a.run c ws).changes c (us ++ ys) = 0 := by
    refine changes_eq_zero (y :: zs) h h' ?_ ?_
    · rwa [hall, List.append_assoc, List.cons_append]
    · rw [hall, revision_of_executesAt hy, hrev]
  rw [changes_append, ← run_append, hw] at hzero
  refine ⟨by omega, ?_⟩
  rw [← hw, run_append, run_revision, show (a.run c ws).changes c us = 0 by omega]
  exact hrev

/-- **A workspace revision names one topology.** In a run whose hashes do not collide and in which
the revision moves fewer than `2^53 - 1` times: two snapshots with the same revision show the same
topology, every revision is between `1` and `2^53 - 1`, and a command is executed only if, since the
message that carried its revision, no remote mutation was made and no snapshot carried another. -/
theorem revision_names_topology (c : Crates) (appInstanceId : AppInstanceId) (random : UInt64)
    (ms : List Moment) (hc : NoCollision c ms)
    (hn : (WorkspaceAdapter.new appInstanceId random).changes c ms < maxJavascriptSafeInteger) :
    RevisionNames c (.new appInstanceId random) ms := by
  have h0 : ∀ response, ¬ (WorkspaceAdapter.new appInstanceId random).Remembered response := by
    rintro response ⟨sessionId, entries, requestId, hg, -⟩
    exact nomatch hg
  obtain ⟨h, h'⟩ := initialWorkspaceRevision_range random
  refine ⟨fun xs _ => run_range h h' xs, ?_, ?_⟩
  · rintro xs x ys y zs s s' rfl hs hs' hrev
    exact snapshots_same_topology h0 h h' hc hn hs hs' hrev
  · rintro xs x ys y zs revision rfl hx hy us z vs rfl
    obtain ⟨hzero, hrev⟩ := changes_of_executesAt h0 h h' hn hx hy
    obtain ⟨hstep, hus⟩ := stepAt_of_changes hzero
    have hrun : xs ++ [x] ++ us = xs ++ x :: us := by simp
    rw [hrun] at hstep hus
    refine ⟨fun hmut => stepAt_ne_of_mutatesAt hmut hstep, fun s hs => ?_⟩
    rw [← (snapshotAt_spec (fun _ hm => (remembered_run h0 hm).1) hs).2.1, hstep, hus, hrev]

/-! ## A window that opens and closes -/

/-- Two desktops do not collide when their hashes differ. -/
theorem noCollision_of_two {d d' : Desktop} {ms : List Moment}
    (hne : d.fingerprint c ≠ d'.fingerprint c)
    (h : ∀ m ∈ ms, m.desktop = d ∨ m.desktop = d') : NoCollision c ms := by
  intro m hm m' hm' heq
  rcases h m hm with hd | hd <;> rcases h m' hm' with hd' | hd' <;> rw [hd, hd'] at heq ⊢
  · exact absurd heq hne
  · exact absurd heq.symm hne

namespace Sample

/-- The window is closed. -/
def closed : Desktop := { desktop with windows := [] }

/-- The snapshots are of the open window and of the closed one in turn. -/
def alternate (n : ℕ) : Moment := ⟨if n % 2 = 0 then desktop else closed, 0, .snapshot⟩

def start : WorkspaceAdapter := .new ⟨uuid 0⟩ 0

theorem revision_start : start.revision = 1 := by decide

theorem fingerprint_closed : closed.fingerprint crates ≠ desktop.fingerprint crates := by
  decide

theorem topology_closed : closed.topology crates ≠ desktop.topology crates := by decide

theorem fingerprint_alternate (n : ℕ) : (alternate n).desktop.fingerprint crates ≠
    (alternate (n + 1)).desktop.fingerprint crates := by
  rcases Nat.mod_two_eq_zero_or_one n with h | h
  · rw [alternate, if_pos h, alternate, if_neg (by omega)]
    exact fingerprint_closed.symm
  · rw [alternate, if_neg (by omega), alternate, if_pos (by omega)]
    exact fingerprint_closed

theorem alternate_desktop (n : ℕ) :
    (alternate n).desktop = desktop ∨ (alternate n).desktop = closed := by
  rw [alternate]
  exact ite_eq_or_eq _ _ _

/-- The first snapshot, and `n` more. -/
def alternating (n : ℕ) : List Moment := alternate 0 :: (List.range n).map fun k => alternate (k + 1)

theorem alternating_succ (n : ℕ) : alternating (n + 1) = alternating n ++ [alternate (n + 1)] := by
  rw [alternating, List.range_succ, List.map_append]
  rfl

/-- Every snapshot but the first moves the revision. -/
theorem run_alternating (n : ℕ) :
    (start.run crates (alternating n)).revision = nextWorkspaceRevision^[n] 1 ∧
    (start.run crates (alternating n)).lastTopologyFingerprint =
      some ((alternate n).desktop.fingerprint crates) ∧
    start.changes crates (alternating n) = n := by
  induction n with
  | zero => exact ⟨revision_start, rfl, by decide⟩
  | succ n ih =>
    obtain ⟨hr, hl, hc⟩ := ih
    obtain ⟨hl', hr'⟩ := snapshot_moves crates (alternate (n + 1)).desktop 0
      (start.run crates (alternating n))
    have hmoves : ((start.run crates (alternating n)).stepAt crates (alternate (n + 1))).revision =
        nextWorkspaceRevision^[n + 1] 1 := by
      rw [Function.iterate_succ_apply', ← hr]
      refine hr'.trans (if_pos ?_)
      rw [hl, Option.any_some, decide_eq_true_eq]
      exact fingerprint_alternate n
    rw [alternating_succ, run_append, changes_append]
    refine ⟨hmoves, hl', ?_⟩
    rw [changes, changes, hmoves, hc, hr, Function.iterate_succ_apply',
      if_neg (nextWorkspaceRevision_ne _)]

theorem noCollision_alternating (n : ℕ) : NoCollision crates (alternating n) := by
  refine noCollision_of_two fingerprint_closed.symm fun m hm => ?_
  rcases List.mem_cons.mp hm with rfl | hm
  · exact alternate_desktop 0
  · obtain ⟨k, -, rfl⟩ := List.mem_map.mp hm
    exact alternate_desktop (k + 1)

/-- The project has a task. -/
def planned : Desktop :=
  { desktop with windows := [⟨0, some ⟨[{ project with tasks := [⟨uuid 2, "Plan"⟩] }], 0⟩⟩] }

/-- A request of the phone. -/
def request (d : Desktop) (id : UInt8) (m : ClientMessage) : Moment :=
  ⟨d, 0, .envelope ⟨protocolVersion, ⟨uuid id⟩, m⟩
    { phone with capabilities := [.control, .createSession] }⟩

def addProject : Moment := request desktop 1 (.createProject ⟨uuid 0⟩ 1 project.opaqueId none)

def seePlan : Moment := ⟨planned, 0, .snapshot⟩

def addTask : Moment := request planned 2 (.createTask ⟨uuid 0⟩ 2 project.opaqueId "Task")

theorem executesAt_addTask :
    (start.run crates [alternate 0, addProject, seePlan]).ExecutesAt crates addTask 2 :=
  ⟨_, _, rfl, rfl, by decide, Or.inl (by decide +kernel)⟩

end Sample

open Sample in
theorem alternating_names : RevisionNames crates (.new ⟨uuid 0⟩ 0) (alternating 1) :=
  revision_names_topology crates ⟨uuid 0⟩ 0 (alternating 1) (noCollision_alternating 1)
    (by rw [show WorkspaceAdapter.new ⟨uuid 0⟩ 0 = start from rfl, (run_alternating 1).2.2]; decide)

open Sample in
/-- The revision comes back after `2^53 - 1` moves; and a desktop's change between a mutation and the
next snapshot does not move it. -/
theorem revision_repeats :
    (∃ c appInstanceId random xs x ys y s s', NoCollision c (xs ++ x :: (ys ++ [y])) ∧
      (WorkspaceAdapter.new appInstanceId random).changes c (xs ++ x :: (ys ++ [y])) < 2 ^ 53 ∧
      ((WorkspaceAdapter.new appInstanceId random).run c xs).snapshotAt c x = some s ∧
      ((WorkspaceAdapter.new appInstanceId random).run c (xs ++ x :: ys)).snapshotAt c y = some s' ∧
      s.revision = s'.revision ∧ s.topology ≠ s'.topology) ∧
    ∃ c appInstanceId random xs x z y s revision, NoCollision c (xs ++ [x, z, y]) ∧
      (WorkspaceAdapter.new appInstanceId random).changes c (xs ++ [x, z, y]) < 2 ^ 53 ∧
      ((WorkspaceAdapter.new appInstanceId random).run c xs).carriedAt c x = some revision ∧
      ((WorkspaceAdapter.new appInstanceId random).run c (xs ++ [x])).snapshotAt c z = some s ∧
      s.topology ≠ x.desktop.topology c ∧
      ((WorkspaceAdapter.new appInstanceId random).run c (xs ++ [x, z])).ExecutesAt c y revision := by
  constructor
  · obtain ⟨n, hn⟩ : ∃ n, n + 1 = maxJavascriptSafeInteger := ⟨2 ^ 53 - 2, by decide⟩
    have hsplit : alternate 0 :: ((List.range n).map (fun k => alternate (k + 1)) ++
        [alternate (n + 1)]) = alternating (n + 1) := by
      rw [alternating_succ]
      rfl
    obtain ⟨hr, -, hc⟩ := run_alternating (n + 1)
    refine ⟨crates, ⟨uuid 0⟩, 0, [], alternate 0, (List.range n).map fun k => alternate (k + 1),
      alternate (n + 1), _, _, ?_, ?_, rfl, rfl, ?_, ?_⟩
    · rw [List.nil_append, hsplit]
      exact noCollision_alternating _
    · rw [List.nil_append, hsplit]
      refine lt_of_eq_of_lt hc ?_
      rw [hn]
      decide
    · rw [alternating_succ, run_append] at hr
      refine Eq.trans ?_ hr.symm
      rw [hn, iterate_nextWorkspaceRevision le_rfl (by decide)]
      decide
    · have hodd : (alternate (n + 1)).desktop = closed := by
        rw [hn]
        rfl
      intro htop
      rw [snapshot_topology, snapshot_topology, hodd] at htop
      exact topology_closed htop.symm
  · refine ⟨crates, ⟨uuid 0⟩, 0, [alternate 0], addProject, seePlan, addTask, _, 2, ?_,
      by decide, by decide +kernel, rfl, ?_, executesAt_addTask⟩
    · refine noCollision_of_two (d := desktop) (by decide : _ ≠ planned.fingerprint crates) ?_
      simp [alternate, addProject, seePlan, addTask, request]
    · rw [snapshot_topology]
      decide

end Clinch
