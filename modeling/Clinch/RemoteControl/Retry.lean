import Clinch.RemoteControl.Connection

/-!
# Requests that are sent twice

A client that did not hear the answer to a request sends it again with the same request id. The adapter
remembers the answers to mutations, for each session; the connection remembers the answers to the commits
of its uploads.

* `Remembers`: the adapter remembers the answer, and how many newer ones;
* `InCache`, `InCompleted`: which of the caches has the answer, and that it stays there;
* `Retry.OnlyAnswered`: all that the second copy does is to be answered as the first was;
* `RetriesSafe`, `retries_safe`: the main result;
* `snapshot_changes`: other requests are handled again.
-/

set_option autoImplicit false

namespace Clinch

/-! ## The answers of a session -/

namespace WorkspaceAdapter

variable {c : Crates} {d : Desktop} {now : DateTime} {a : WorkspaceAdapter}
  {sessionId : AuthSessionId} {requestId : RequestId} {response : ServerEnvelope}
  {authorization : SessionAuthorization} {n : ℕ}

/-- The session's answer to the request is remembered, after at most `n` newer ones. -/
def Remembers (a : WorkspaceAdapter) (sessionId : AuthSessionId) (requestId : RequestId)
    (response : ServerEnvelope) (n : ℕ) : Prop :=
  ∃ older newer, a.idempotency.get sessionId = some (older ++ (requestId, response) :: newer) ∧
    (∀ e ∈ older, e.1 ≠ requestId) ∧ newer.length ≤ n

theorem Remembers.mono {m : ℕ} (h : a.Remembers sessionId requestId response n) (hm : n ≤ m) :
    a.Remembers sessionId requestId response m := by
  obtain ⟨older, newer, hget, holder, hn⟩ := h
  exact ⟨older, newer, hget, holder, hn.trans hm⟩

theorem Remembers.cached (h : a.Remembers sessionId requestId response n) :
    a.cached sessionId requestId = some response := by
  obtain ⟨older, newer, hget, holder, -⟩ := h
  have hnone : older.find? (fun e => decide (e.1 = requestId)) = none :=
    List.find?_eq_none.mpr fun e he => by simpa using holder e he
  rw [WorkspaceAdapter.cached, hget, Option.bind_some, List.find?_append, hnone, Option.none_or,
    List.find?_cons_of_pos (by exact decide_eq_true rfl), Option.map_some]

theorem cached_eq_none (h : a.cached sessionId requestId = none) {entries : List _}
    (hget : a.idempotency.get sessionId = some entries) : ∀ e ∈ entries, e.1 ≠ requestId := by
  rw [WorkspaceAdapter.cached, hget, Option.bind_some, Option.map_eq_none_iff,
    List.find?_eq_none] at h
  exact fun e he => by simpa using h e he

/-- An answer that is remembered now is the newest. -/
theorem remembers_remember (h : a.cached sessionId requestId = none) (response : ServerEnvelope) :
    (a.remember sessionId requestId response).Remembers sessionId requestId response 0 := by
  refine ⟨evict ((a.idempotency.get sessionId).getD []), [], ?_, fun e he => ?_, le_rfl⟩
  · rw [remember, HashMap.get_insert, if_pos rfl]
  · cases hg : a.idempotency.get sessionId with
    | none =>
      rw [hg] at he
      exact nomatch List.mem_of_mem_drop he
    | some entries =>
      rw [hg] at he
      exact cached_eq_none h hg e (List.mem_of_mem_drop he)

/-- Eviction takes the oldest answers. -/
theorem evict_append {α : Type} (older newer : List α) (e : α)
    (h : newer.length + 2 ≤ maxIdempotencyResultsPerSession) :
    ∃ kept, evict (older ++ e :: newer) = kept ++ e :: newer ∧ ∀ x ∈ kept, x ∈ older := by
  rw [maxIdempotencyResultsPerSession] at h
  refine ⟨older.drop ((older ++ e :: newer).length - (maxIdempotencyResultsPerSession - 1)), ?_,
    fun x hx => List.mem_of_mem_drop hx⟩
  rw [evict, List.drop_append_of_le_length]
  rw [List.length_append, List.length_cons, maxIdempotencyResultsPerSession]
  omega

theorem Remembers.remember (h : a.Remembers sessionId requestId response n)
    (hn : n + 2 ≤ maxIdempotencyResultsPerSession) {sessionId' : AuthSessionId}
    {requestId' : RequestId} (response' : ServerEnvelope) :
    (a.remember sessionId' requestId' response').Remembers sessionId requestId response (n + 1) := by
  obtain ⟨older, newer, hget, holder, hlen⟩ := h
  by_cases hs : sessionId = sessionId'
  · subst hs
    obtain ⟨kept, hkept, hmem⟩ := evict_append older newer (requestId, response)
      ((Nat.add_le_add_right hlen 2).trans hn)
    refine ⟨kept, newer ++ [(requestId', response')], ?_, fun e he => holder e (hmem e he), ?_⟩
    · rw [WorkspaceAdapter.remember, HashMap.get_insert, if_pos rfl, hget, Option.getD_some, hkept,
        List.append_assoc, List.cons_append]
    · rw [List.length_append, List.length_singleton]
      omega
  · refine ⟨older, newer, ?_, holder, hlen.trans n.le_succ⟩
    rw [WorkspaceAdapter.remember, HashMap.get_insert, if_neg hs, hget]

theorem Same.remembers {a' : WorkspaceAdapter} (h : Same a a')
    (hr : a.Remembers sessionId requestId response n) :
    a'.Remembers sessionId requestId response n := by
  rwa [Remembers, h.idempotency]

/-- A request of the session is remembered if it is a mutation. -/
theorem Remembers.handleEnvelope (h : a.Remembers sessionId requestId response n)
    (envelope : ClientEnvelope) (authorization : SessionAuthorization)
    (hn : isIdempotentMutation envelope.payload = true →
      n + 2 ≤ maxIdempotencyResultsPerSession) :
    (a.handleEnvelope c d now envelope authorization).2.Remembers sessionId requestId response
      (if isIdempotentMutation envelope.payload then n + 1 else n) := by
  have hle : n ≤ if isIdempotentMutation envelope.payload then n + 1 else n := by
    split <;> omega
  rcases handleEnvelope_cases c d now envelope authorization a with
    ⟨error, he⟩ | ⟨cached, -, he⟩ | ⟨-, he⟩ | ⟨-, r, hr, he⟩
  · rw [he]
    exact ((Quiet.reply _ _ _).same.remembers h).mono hle
  · rw [he]
    exact h.mono hle
  · rw [he]
    exact ((Quiet.reply _ _ _).same.remembers h).mono hle
  · have hsame := outcome_same
      (execute_outcome c d now a envelope.requestId authorization envelope.payload)
    rw [← hr] at hsame
    rw [he]
    split
    · rename_i hm
      exact (hsame.remembers h).remember (hn hm) _
    · exact hsame.remembers h

/-- A request of another session. -/
theorem Remembers.other (h : a.Remembers sessionId requestId response n)
    (envelope : ClientEnvelope) (hs : sessionId ≠ authorization.sessionId) :
    (a.handleEnvelope c d now envelope authorization).2.Remembers sessionId requestId response n := by
  rcases handleEnvelope_cases c d now envelope authorization a with
    ⟨error, he⟩ | ⟨cached, -, he⟩ | ⟨-, he⟩ | ⟨-, r, hr, he⟩
  · rw [he]
    exact (Quiet.reply _ _ _).same.remembers h
  · rw [he]
    exact h
  · rw [he]
    exact (Quiet.reply _ _ _).same.remembers h
  · have hsame := outcome_same
      (execute_outcome c d now a envelope.requestId authorization envelope.payload)
    rw [← hr] at hsame
    rw [he]
    simp only
    split
    · obtain ⟨older, newer, hget, holder, hlen⟩ := hsame.remembers h
      refine ⟨older, newer, ?_, holder, hlen⟩
      rw [WorkspaceAdapter.remember, HashMap.get_insert, if_neg hs, hget]
    · exact hsame.remembers h

end WorkspaceAdapter

/-- A call that is not of the session, and not the shutdown of the remote control. -/
def AdapterEvent.Elsewhere (sessionId : AuthSessionId) : AdapterEvent → Prop
  | envelope _ authorization => sessionId ≠ authorization.sessionId
  | sessionDisconnected sessionId' => sessionId ≠ sessionId'
  | shutdown => False
  | _ => True

namespace WorkspaceAdapter

variable {c : Crates} {a : WorkspaceAdapter} {sessionId : AuthSessionId} {requestId : RequestId}
  {response : ServerEnvelope} {n : ℕ}

theorem Remembers.step (h : a.Remembers sessionId requestId response n) (d : Desktop)
    (now : DateTime) {e : AdapterEvent} (he : e.Elsewhere sessionId) :
    (a.step c d now e).Remembers sessionId requestId response n := by
  cases e with
  | envelope envelope authorization => exact h.other envelope he
  | completeUpload completion =>
    exact (sameRevision_completeUpload c d now completion a).toSame.remembers h
  | sessionConnected sessionId' deviceId => exact h
  | sessionDisconnected sessionId' =>
    obtain ⟨older, newer, hget, holder, hlen⟩ := h
    refine ⟨older, newer, ?_, holder, hlen⟩
    rw [WorkspaceAdapter.step, sessionDisconnected, HashMap.get_remove_of_ne _ he, hget]
  | sweep => exact (sameRevision_pruneWriterLeases c d now a).toSame.remembers h
  | snapshot => exact (same_snapshot c d now a).remembers h
  | workspaceChanged snapshot => exact h
  | desktopInput terminal =>
    rw [WorkspaceAdapter.step]
    split
    · exact (sameRevision_preempt c d terminal a).toSame.remembers h
    · exact h
  | shutdown => exact he.elim

end WorkspaceAdapter

/-! ## The connection -/

/-- No message with the request id, and no end of the session in the adapter. -/
def ConnectionEvent.Elsewhere (sessionId : AuthSessionId) (requestId : RequestId) :
    ConnectionEvent → Prop
  | text _ _ _ _ envelope => envelope.requestId ≠ requestId
  | adapter _ _ e => e.Elsewhere sessionId
  | _ => True

def ConnectionEvent.isMutation : ConnectionEvent → Bool
  | text _ _ _ _ envelope => isIdempotentMutation envelope.payload
  | _ => false

def ConnectionEvent.isCommit : ConnectionEvent → Bool
  | text _ _ _ _ envelope => match envelope.payload with
    | .uploadCommit _ => true
    | _ => false
  | _ => false

namespace Connection

variable {c : Crates} {k : Crypto} {sessionId : AuthSessionId} {s s' : Connection} {d : Desktop}
  {now : DateTime} {io : Io} {authorization : SessionAuthorization} {envelope : ClientEnvelope}
  {requestId : RequestId} {response : ServerEnvelope} {n : ℕ} {e : ConnectionEvent}

/-- A message that is sent leaves the loop running. -/
theorem send_of_open {answer : ServerEnvelope}
    (h : (s.send sessionId now io answer).closed = false) :
    s.send sessionId now io answer = s.push answer := by
  rw [send] at h ⊢
  split at h
  · rename_i hs
    rw [if_pos hs]
  · exact nomatch h

/-- What a running loop has in common with the state before it sent its message. -/
theorem of_send {P : Connection → Prop} {answer : ServerEnvelope}
    (hP : ∀ answer, P s → P (s.push answer)) (hs : P s)
    (h : (s.send sessionId now io answer).closed = false) : P (s.send sessionId now io answer) := by
  rw [send_of_open h]
  exact hP answer hs

/-- The answer is in the adapter's cache, and not in the connection's. -/
structure InCache (sessionId : AuthSessionId) (requestId : RequestId) (response : ServerEnvelope)
    (n : ℕ) (s : Connection) : Prop where
  completed : s.completedUploadRequests.get requestId = none
  remembered : ∀ a, s.workspace = some a → a.Remembers sessionId requestId response n

theorem InCache.mono {m : ℕ} (h : InCache sessionId requestId response n s) (hm : n ≤ m) :
    InCache sessionId requestId response m s :=
  ⟨h.completed, fun a ha => (h.remembered a ha).mono hm⟩

theorem InCache.push (h : InCache sessionId requestId response n s) (answer : ServerEnvelope) :
    InCache sessionId requestId response n (s.push answer) := ⟨h.completed, h.remembered⟩

theorem InCache.send (h : InCache sessionId requestId response n s) {answer : ServerEnvelope}
    (ho : (s.send sessionId now io answer).closed = false) :
    InCache sessionId requestId response n (s.send sessionId now io answer) :=
  of_send (fun answer h => h.push answer) h ho

theorem InCache.congr (h : InCache sessionId requestId response n s)
    (hw : s'.workspace = s.workspace)
    (hc : s'.completedUploadRequests = s.completedUploadRequests) :
    InCache sessionId requestId response n s' := by
  refine ⟨hc ▸ h.completed, ?_⟩
  rw [hw]
  exact h.remembered

theorem dropUpload_others (s : Connection) : s.dropUpload.workspace = s.workspace ∧
    s.dropUpload.completedUploadRequests = s.completedUploadRequests := by
  rw [dropUpload]
  split <;> exact ⟨rfl, rfl⟩

theorem InCache.dropUpload (h : InCache sessionId requestId response n s) :
    InCache sessionId requestId response n s.dropUpload :=
  h.congr (dropUpload_others s).1 (dropUpload_others s).2

theorem stage_others (io : Io) (reply : AdapterReply) (s : Connection) :
    (s.stage io reply).2.workspace = s.workspace ∧
      (s.stage io reply).2.completedUploadRequests = s.completedUploadRequests := by
  rw [stage]
  split
  · exact ⟨rfl, rfl⟩
  · split <;> exact ⟨rfl, rfl⟩

variable (c d now) in
theorem complete_others (completion : UploadCompletion) (s : Connection) :
    (s.complete c d now completion).2.workspace =
      s.workspace.map (fun a => (a.completeUpload c d now completion).2) ∧
    (s.complete c d now completion).2.completedUploadRequests = s.completedUploadRequests := by
  rw [complete]
  split
  · rename_i hw
    exact ⟨by rw [hw, Option.map_none], rfl⟩
  · rename_i a hw
    exact ⟨by rw [hw]; rfl, rfl⟩

theorem get_rememberCompleted {requestId' : RequestId} {answer : ServerEnvelope}
    {completed : HashMap RequestId ServerEnvelope} (h : completed.get requestId = none)
    (hne : requestId ≠ requestId') :
    (rememberCompleted io requestId' answer completed).get requestId = none := by
  have hinsert : (completed.insert requestId' answer).get requestId = none := by
    rw [HashMap.get_insert, if_neg hne, h]
  rw [rememberCompleted]
  split
  · split
    · by_contra hsome
      obtain ⟨v, hv⟩ := Option.ne_none_iff_exists'.mp hsome
      rw [(HashMap.get_remove_some.mp hv).1] at hinsert
      cases hinsert
    · exact hinsert
  · exact hinsert

theorem InCache.handle (h : InCache sessionId requestId response n s)
    (hn : isIdempotentMutation envelope.payload = true →
      n + 2 ≤ maxIdempotencyResultsPerSession)
    (ho : (s.handle c sessionId d now io envelope authorization).closed = false) :
    InCache sessionId requestId response
      (if isIdempotentMutation envelope.payload then n + 1 else n)
      (s.handle c sessionId d now io envelope authorization) := by
  rw [Connection.handle] at ho ⊢
  split at ho
  · refine (InCache.send h ho).mono ?_
    split <;> omega
  · rename_i a ha
    refine InCache.send (InCache.congr (s := { s with
      workspace := some (a.handleEnvelope c d now envelope authorization).2 }) ?_
      (stage_others io _ _).1 (stage_others io _ _).2) ho
    refine ⟨h.completed, fun a' ha' => ?_⟩
    obtain rfl := Option.some.inj ha'
    exact (h.remembered a ha).handleEnvelope envelope authorization hn

theorem InCache.published (h : InCache sessionId requestId response n s) {requestId' : RequestId}
    (hne : requestId ≠ requestId') {plan : UploadPlan} {finalPath : String}
    (ho : (s.published c sessionId d now io requestId' authorization plan finalPath).closed =
      false) : InCache sessionId requestId response n
        (s.published c sessionId d now io requestId' authorization plan finalPath) := by
  obtain ⟨hw, hc⟩ := complete_others c d now ⟨some requestId', plan.uploadId,
    plan.target, plan.destinationDirectory, finalPath, authorization⟩ s
  rw [Connection.published] at ho ⊢
  refine InCache.send ⟨get_rememberCompleted ?_ hne, fun a' ha' => ?_⟩ ho
  · exact (congrArg (HashMap.get · requestId) hc).trans h.completed
  · obtain ⟨a, ha, rfl⟩ := Option.map_eq_some_iff.mp (hw.symm.trans ha')
    exact (WorkspaceAdapter.sameRevision_completeUpload c d now _ a).toSame.remembers
      (h.remembered a ha)

theorem InCache.uploadCommit (h : InCache sessionId requestId response n s)
    {requestId' : RequestId} (hne : requestId ≠ requestId') {uploadId : UploadId}
    (ho : (s.uploadCommit c k sessionId d now io requestId' authorization uploadId).closed =
      false) : InCache sessionId requestId response n
        (s.uploadCommit c k sessionId d now io requestId' authorization uploadId) := by
  rw [Connection.uploadCommit] at ho ⊢
  split at ho
  · exact h.send ho
  · split at ho
    · rename_i hid
      rw [if_pos hid]
      exact h.dropUpload.send ho
    · rename_i hid
      rw [if_neg hid]
      simp only at ho ⊢
      split at ho
      · refine InCache.published ?_ hne ho
        exact h.congr rfl rfl
      · refine InCache.send ?_ ho
        exact h.congr rfl rfl

theorem InCache.receiveText (h : InCache sessionId requestId response n s)
    (hne : requestId ≠ envelope.requestId)
    (hn : isIdempotentMutation envelope.payload = true → n + 2 ≤ maxIdempotencyResultsPerSession)
    (ho : (s.receiveText c k sessionId d now io authorization envelope).closed = false) :
    InCache sessionId requestId response
      (if isIdempotentMutation envelope.payload then n + 1 else n)
      (s.receiveText c k sessionId d now io authorization envelope) := by
  have hle : n ≤ if isIdempotentMutation envelope.payload then n + 1 else n := by
    split <;> omega
  rw [Connection.receiveText] at ho ⊢
  split at ho
  · exact nomatch ho
  · rw [unpairDevice] at ho ⊢
    split at ho
    · exact nomatch ho
    · exact (h.send ho).mono hle
  · exact (h.send ho).mono hle
  · refine InCache.mono (InCache.send ?_ ho) hle
    split
    · exact h.dropUpload
    · exact h
  · exact (h.uploadCommit hne ho).mono hle
  · split at ho
    · rename_i hs
      rw [if_pos hs]
      exact (h.send ho).mono hle
    · rename_i hs
      rw [if_neg hs]
      exact h.handle hn ho
  · exact h.handle hn ho

theorem writeOutside_others (path : String) (content : Option (List UInt8)) (s : Connection) :
    (s.writeOutside path content).workspace = s.workspace ∧
      (s.writeOutside path content).completedUploadRequests = s.completedUploadRequests ∧
      (s.writeOutside path content).closed = s.closed := by
  unfold writeOutside
  split <;> exact ⟨rfl, rfl, rfl⟩

/-- A loop that ended stays so. -/
theorem closed_of_step (h : (s.step c k sessionId e).closed = false) : s.closed = false := by
  by_contra hc
  rw [Bool.not_eq_false] at hc
  cases e with
  | adapter | drop => exact nomatch hc.symm.trans h
  | outside path content =>
    exact nomatch (hc.symm.trans (writeOutside_others path content s).2.2.symm).trans h
  | text | garbled | binary | poll | close =>
    rw [step, if_pos hc, hc] at h
    exact nomatch h

theorem InCache.poll (h : InCache sessionId requestId response n s) {changed : Bool}
    (ho : (s.poll c sessionId d now io changed).closed = false) :
    InCache sessionId requestId response n (s.poll c sessionId d now io changed) := by
  rw [Connection.poll] at ho ⊢
  split at ho
  · exact h
  · rename_i a ha
    have hsnap : (a.snapshot c d now).2.Remembers sessionId requestId response n :=
      (WorkspaceAdapter.same_snapshot c d now a).remembers (h.remembered a ha)
    simp only at ho ⊢
    split at ho
    · rename_i hc
      rw [if_pos hc]
      exact ⟨h.completed, fun a' ha' => Option.some.inj ha' ▸ hsnap⟩
    · rename_i hc
      rw [if_neg hc]
      refine InCache.send ?_ ho
      exact ⟨h.completed, fun a' ha' => Option.some.inj ha' ▸ hsnap⟩

theorem InCache.receiveBinary (h : InCache sessionId requestId response n s) {bytes : List UInt8}
    (ho : (s.receiveBinary sessionId now io bytes).closed = false) :
    InCache sessionId requestId response n (s.receiveBinary sessionId now io bytes) := by
  rw [Connection.receiveBinary] at ho ⊢
  split at ho
  · split at ho
    · exact h.send ho
    · split at ho
      · rename_i hbad
        rw [if_pos hbad]
        exact h.dropUpload.send ho
      · rename_i hbad
        rw [if_neg hbad]
        split at ho
        · rename_i hw
          rw [if_pos hw]
          exact h.dropUpload.send ho
        · rename_i hw
          rw [if_neg hw]
          refine InCache.send ?_ ho
          exact h.congr rfl rfl
  · exact h.dropUpload.send ho

/-- **An event without the request id leaves the answer in the cache.** -/
theorem InCache.step (h : InCache sessionId requestId response n s)
    (he : e.Elsewhere sessionId requestId)
    (hn : e.isMutation = true → n + 2 ≤ maxIdempotencyResultsPerSession)
    (ho : (s.step c k sessionId e).closed = false) :
    InCache sessionId requestId response (if e.isMutation then n + 1 else n)
      (s.step c k sessionId e) := by
  have hc := closed_of_step ho
  have hfalse : ¬ s.closed = true := by simp [hc]
  cases e with
  | adapter d now e =>
    refine ⟨h.completed, fun a' ha' => ?_⟩
    obtain ⟨a, ha, rfl⟩ := Option.map_eq_some_iff.mp ha'
    exact (h.remembered a ha).step d now he
  | outside path content =>
    obtain ⟨hw, hcompleted, -⟩ := writeOutside_others path content s
    exact h.congr hw hcompleted
  | drop => exact ⟨h.completed, nofun⟩
  | text d now io authorization envelope =>
    rw [Connection.step, if_neg hfalse] at ho ⊢
    exact h.receiveText (Ne.symm he) hn ho
  | garbled now io =>
    rw [Connection.step, if_neg hfalse] at ho ⊢
    exact h.send ho
  | binary now io bytes =>
    rw [Connection.step, if_neg hfalse] at ho ⊢
    exact h.receiveBinary ho
  | poll d now io changed =>
    rw [Connection.step, if_neg hfalse] at ho ⊢
    exact h.poll ho
  | close now =>
    rw [Connection.step, if_neg hfalse] at ho
    exact nomatch ho

theorem run_append (xs ys : List ConnectionEvent) :
    s.run c k sessionId (xs ++ ys) = (s.run c k sessionId xs).run c k sessionId ys :=
  List.foldl_append

theorem run_singleton (e : ConnectionEvent) : s.run c k sessionId [e] = s.step c k sessionId e := rfl

/-- The answer stays in the cache while fewer than 1024 mutations follow. -/
theorem InCache.run (h : InCache sessionId requestId response 0 s) {es : List ConnectionEvent}
    (he : ∀ e ∈ es, e.Elsewhere sessionId requestId)
    (hn : es.countP ConnectionEvent.isMutation < maxIdempotencyResultsPerSession)
    (ho : (s.run c k sessionId es).closed = false) :
    InCache sessionId requestId response (es.countP ConnectionEvent.isMutation)
      (s.run c k sessionId es) := by
  induction es using List.reverseRecOn with
  | nil => exact h
  | append_singleton es e ih =>
    rw [run_append, run_singleton] at ho ⊢
    rw [List.countP_append] at hn ⊢
    have hcount : [e].countP ConnectionEvent.isMutation = if e.isMutation then 1 else 0 :=
      List.countP_singleton
    rw [hcount] at hn ⊢
    have hih := ih (fun e' he' => he e' (List.mem_append_left _ he')) (by omega) (closed_of_step ho)
    refine (hih.step (he e (List.mem_append_right _ (List.mem_singleton_self e))) ?_ ho).mono ?_
    · intro hm
      rw [if_pos hm] at hn
      omega
    · split <;> omega

/-! ## The two copies -/

/-- The message is answered with this. -/
def Answers (response : ServerEnvelope) (s s' : Connection) : Prop :=
  ∃ sequence, s'.sent = s.sent ++ [{ response with sequence := some sequence }]

theorem answers_send (response : ServerEnvelope) (s : Connection)
    (ho : (s.send sessionId now io response).closed = false) :
    Answers response s (s.send sessionId now io response) := by
  rw [send_of_open ho]
  exact ⟨_, rfl⟩

theorem receiveText_mutation (hm : isIdempotentMutation envelope.payload = true)
    (hnew : s.completedUploadRequests.get envelope.requestId = none) :
    s.receiveText c k sessionId d now io authorization envelope =
      s.handle c sessionId d now io envelope authorization := by
  rw [receiveText]
  split
  · rename_i hp
    rw [hp] at hm
    exact nomatch hm
  · rename_i hp
    rw [hp] at hm
    exact nomatch hm
  · rename_i hsome _ _
    exact nomatch hnew.symm.trans hsome
  · rename_i hp _
    rw [hp] at hm
    exact nomatch hm
  · rename_i hp _
    rw [hp] at hm
    exact nomatch hm
  · rename_i hp _
    rw [hp] at hm
    exact nomatch hm
  · rfl

/-- The mutation is new, valid and allowed. -/
structure Admits (c : Crates) (sessionId : AuthSessionId) (authorization : SessionAuthorization)
    (envelope : ClientEnvelope) (s : Connection) (a : WorkspaceAdapter) : Prop where
  mutation : isIdempotentMutation envelope.payload = true
  session : authorization.sessionId = sessionId
  new : s.completedUploadRequests.get envelope.requestId = none
  workspace : s.workspace = some a
  valid : envelope.validate c = .ok ()
  uncached : a.cached sessionId envelope.requestId = none
  allowed : (requiredCapability envelope.payload).any (· ∉ authorization.capabilities) = false

variable (d now) in
theorem handleEnvelope_admits {a : WorkspaceAdapter}
    (h : Admits c sessionId authorization envelope s a) :
    ∃ r, (a.handleEnvelope c d now envelope authorization) = (r, (a.execute c d now
      envelope.requestId authorization envelope.payload).2.remember sessionId envelope.requestId
        r.envelope) ∧ r.uploadPlan = none := by
  have hne : envelope.payload ≠ .requestSnapshot := fun hp => by
    have hm := h.mutation
    rw [hp] at hm
    exact nomatch hm
  have hplan : (a.execute c d now envelope.requestId authorization envelope.payload).1.uploadPlan =
      none := by
    by_contra hsome
    obtain ⟨plan, hp⟩ := Option.ne_none_iff_exists'.mp hsome
    obtain ⟨m, hm, -⟩ := (WorkspaceAdapter.execute_reports c d now a envelope.requestId authorization hne).uploadPlan plan hp
    have hmut := h.mutation
    rw [hm] at hmut
    exact nomatch hmut
  refine ⟨_, ?_, hplan⟩
  rw [WorkspaceAdapter.handleEnvelope, h.valid]
  simp only
  rw [h.session, h.uncached]
  simp only
  rw [h.allowed, if_neg Bool.false_ne_true, if_pos h.mutation]

/-- The first copy is executed, and its answer remembered. -/
theorem first_mutation {a : WorkspaceAdapter} (h : Admits c sessionId authorization envelope s a)
    (ho : (s.step c k sessionId (.text d now io authorization envelope)).closed = false) :
    ∃ response, Answers response s (s.step c k sessionId (.text d now io authorization envelope)) ∧
      InCache sessionId envelope.requestId response 0
        (s.step c k sessionId (.text d now io authorization envelope)) := by
  have hc := closed_of_step ho
  obtain ⟨r, hr, hplan⟩ := handleEnvelope_admits d now h
  rw [step, if_neg (by simp [hc]), receiveText_mutation h.mutation h.new, handle, h.workspace] at ho ⊢
  simp only [hr, stage, hplan] at ho ⊢
  refine ⟨r.envelope, answers_send r.envelope _ ho, InCache.send ?_ ho⟩
  refine ⟨h.new, fun a' ha' => ?_⟩
  · obtain rfl := Option.some.inj ha'
    refine WorkspaceAdapter.remembers_remember ?_ r.envelope
    have hsame := WorkspaceAdapter.outcome_same (WorkspaceAdapter.execute_outcome c d now a
      envelope.requestId authorization envelope.payload)
    rw [WorkspaceAdapter.cached, hsame.idempotency]
    exact h.uncached

/-- The second copy is answered from the cache. -/
theorem second_mutation (h : InCache sessionId envelope.requestId response n s)
    (hm : isIdempotentMutation envelope.payload = true) (hv : envelope.validate c = .ok ())
    (hs : authorization.sessionId = sessionId) (hc : s.closed = false)
    (hw : s.workspace ≠ none) : s.step c k sessionId (.text d now io authorization envelope) =
      s.send sessionId now io response := by
  obtain ⟨a, ha⟩ := Option.ne_none_iff_exists'.mp hw
  have hcached := (h.remembered a ha).cached
  have hhandle : a.handleEnvelope c d now envelope authorization =
      (.ofEnvelope response, a) := by
    rw [WorkspaceAdapter.handleEnvelope, hv]
    simp only
    rw [hs, hcached]
  have hsame : { s with workspace := some a } = s := by rw [← ha]
  rw [step, if_neg (by simp [hc]), receiveText_mutation hm h.completed, handle, ha]
  simp only [hhandle, stage, AdapterReply.ofEnvelope]
  rw [hsame]

/-! ## The answers to commits -/

theorem completed_send (answer : ServerEnvelope) (s : Connection) :
    (s.send sessionId now io answer).completedUploadRequests = s.completedUploadRequests := by
  rw [send]
  split
  · rfl
  · exact (dropUpload_others (s.push answer)).2

theorem completed_handle (s : Connection) :
    (s.handle c sessionId d now io envelope authorization).completedUploadRequests =
      s.completedUploadRequests := by
  rw [handle]
  split
  · exact completed_send _ s
  · exact (completed_send _ _).trans (stage_others io _ _).2

/-- What a step does to the answers of the commits. -/
def Completes (s : Connection) (e : ConnectionEvent) (s' : Connection) : Prop :=
  s'.completedUploadRequests = s.completedUploadRequests ∨
    ∃ d now io authorization envelope response,
      e = .text d now io authorization envelope ∧ e.isCommit = true ∧
        s'.completedUploadRequests =
          rememberCompleted io envelope.requestId response s.completedUploadRequests

variable (c sessionId d now io authorization) in
theorem completed_published (requestId : RequestId) (plan : UploadPlan) (finalPath : String)
    (s : Connection) : (s.published c sessionId d now io requestId authorization plan
        finalPath).completedUploadRequests =
      rememberCompleted io requestId (s.complete c d now ⟨some requestId, plan.uploadId, plan.target,
        plan.destinationDirectory, finalPath, authorization⟩).1 s.completedUploadRequests := by
  rw [published]
  exact (completed_send _ _).trans
    (congrArg (rememberCompleted io requestId _) (complete_others c d now _ s).2)

theorem completed_uploadCommit {requestId : RequestId} {uploadId : UploadId} (s : Connection) :
    (s.uploadCommit c k sessionId d now io requestId authorization
        uploadId).completedUploadRequests = s.completedUploadRequests ∨
      ∃ response, (s.uploadCommit c k sessionId d now io requestId authorization
        uploadId).completedUploadRequests =
          rememberCompleted io requestId response s.completedUploadRequests := by
  rw [uploadCommit]
  split
  · exact Or.inl (completed_send _ s)
  split
  · exact Or.inl ((completed_send _ _).trans (dropUpload_others s).2)
  simp only
  split
  · exact Or.inr ⟨_, completed_published _ _ _ _ _ _ _ _ _ _⟩
  · exact Or.inl (completed_send _ _)

theorem completes_receiveText (s : Connection) :
    s.Completes (.text d now io authorization envelope)
      (s.receiveText c k sessionId d now io authorization envelope) := by
  rw [receiveText]
  split
  · exact Or.inl (dropUpload_others s).2
  · rw [unpairDevice]
    split
    · exact Or.inl (dropUpload_others (s.push _)).2
    · exact Or.inl (completed_send _ s)
  · exact Or.inl (completed_send _ s)
  · refine Or.inl ((completed_send _ _).trans ?_)
    split
    · exact (dropUpload_others s).2
    · rfl
  · rename_i hp _
    refine (completed_uploadCommit s).imp_right ?_
    rintro ⟨response, h⟩
    refine ⟨d, now, io, authorization, envelope, response, rfl, ?_, h⟩
    simp only [ConnectionEvent.isCommit, hp]
  · split
    · exact Or.inl (completed_send _ s)
    · exact Or.inl (completed_handle s)
  · exact Or.inl (completed_handle s)

theorem completed_receiveBinary {bytes : List UInt8} (s : Connection) :
    (s.receiveBinary sessionId now io bytes).completedUploadRequests =
      s.completedUploadRequests := by
  have hreject : ∀ requestId message,
      (s.rejectUpload sessionId now io requestId message).completedUploadRequests =
        s.completedUploadRequests :=
    fun _ _ => (completed_send _ _).trans (dropUpload_others s).2
  rw [receiveBinary]
  split
  · split
    · exact completed_send _ s
    · split
      · exact hreject _ _
      · split
        · exact hreject _ _
        · exact completed_send _ _
  · exact hreject _ _

variable (c k sessionId) in
/-- **Only a commit adds to the answers of the commits.** -/
theorem completes_step (e : ConnectionEvent) (s : Connection) :
    s.Completes e (s.step c k sessionId e) := by
  cases e with
  | adapter => exact Or.inl rfl
  | outside path content => exact Or.inl (writeOutside_others path content s).2.1
  | drop => exact Or.inl rfl
  | text d now io authorization envelope =>
    rw [step]
    split
    · exact Or.inl rfl
    · exact completes_receiveText s
  | garbled now io =>
    rw [step]
    split
    · exact Or.inl rfl
    · exact Or.inl (completed_send _ s)
  | binary now io bytes =>
    rw [step]
    split
    · exact Or.inl rfl
    · exact Or.inl (completed_receiveBinary s)
  | poll d now io changed =>
    rw [step]
    split
    · exact Or.inl rfl
    rw [poll]
    split
    · exact Or.inl rfl
    simp only
    split
    · exact Or.inl rfl
    · exact Or.inl (completed_send _ _)
  | close now =>
    rw [step]
    split
    · exact Or.inl rfl
    · exact Or.inl (dropUpload_others s).2

/-- While there are few answers, none is dropped. -/
theorem rememberCompleted_of_len {completed : HashMap RequestId ServerEnvelope}
    (h : completed.len < maxCompletedUploadRequests) (requestId : RequestId)
    (answer : ServerEnvelope) :
    rememberCompleted io requestId answer completed = completed.insert requestId answer := by
  have hlen := completed.len_insert_le requestId answer
  rw [rememberCompleted, if_neg (by omega)]

theorem len_step (h : s.completedUploadRequests.len ≤ n) (e : ConnectionEvent)
    (hn : e.isCommit = true → n < maxCompletedUploadRequests) :
    (s.step c k sessionId e).completedUploadRequests.len ≤ if e.isCommit then n + 1 else n := by
  rcases completes_step c k sessionId e s with
    he | ⟨d, now, io, authorization, envelope, response, -, hc, he⟩
  · rw [he]
    split <;> omega
  · rw [he, if_pos hc, rememberCompleted_of_len (h.trans_lt (hn hc))]
    exact (HashMap.len_insert_le _ _ _).trans (Nat.add_le_add_right h 1)

theorem countP_append_singleton {p : ConnectionEvent → Bool} (es : List ConnectionEvent)
    (e : ConnectionEvent) : (es ++ [e]).countP p = if p e then es.countP p + 1 else es.countP p := by
  rw [List.countP_append, List.countP_singleton]
  split <;> rfl

theorem len_run {es : List ConnectionEvent} (h : s.completedUploadRequests.len ≤ n)
    (hn : n + es.countP ConnectionEvent.isCommit ≤ maxCompletedUploadRequests) :
    (s.run c k sessionId es).completedUploadRequests.len ≤
      n + es.countP ConnectionEvent.isCommit := by
  induction es using List.reverseRecOn with
  | nil => exact h
  | append_singleton es e ih =>
    rw [run_append, run_singleton]
    rw [countP_append_singleton] at hn ⊢
    have hih := ih (by split at hn <;> omega)
    refine (len_step hih e fun hc => ?_).trans ?_
    · rw [if_pos hc] at hn
      omega
    · split <;> omega

/-- The answer is in the connection's cache, which has at most `n` answers. -/
structure InCompleted (requestId : RequestId) (response : ServerEnvelope) (n : ℕ)
    (s : Connection) : Prop where
  completed : s.completedUploadRequests.get requestId = some response
  len : s.completedUploadRequests.len ≤ n

theorem InCompleted.step (h : InCompleted requestId response n s)
    (he : e.Elsewhere sessionId requestId)
    (hn : e.isCommit = true → n < maxCompletedUploadRequests) :
    InCompleted requestId response (if e.isCommit then n + 1 else n) (s.step c k sessionId e) := by
  refine ⟨?_, len_step h.len e hn⟩
  rcases completes_step c k sessionId e s with
    hs | ⟨d, now, io, authorization, envelope, answer, rfl, hc, hs⟩
  · rw [hs]
    exact h.completed
  · rw [hs, rememberCompleted_of_len (h.len.trans_lt (hn hc)), HashMap.get_insert,
      if_neg (Ne.symm he)]
    exact h.completed

/-- The answer stays in the connection's cache while it has room. -/
theorem InCompleted.run (h : InCompleted requestId response n s) {es : List ConnectionEvent}
    (he : ∀ e ∈ es, e.Elsewhere sessionId requestId)
    (hn : n + es.countP ConnectionEvent.isCommit ≤ maxCompletedUploadRequests) :
    InCompleted requestId response (n + es.countP ConnectionEvent.isCommit)
      (s.run c k sessionId es) := by
  induction es using List.reverseRecOn with
  | nil => exact h
  | append_singleton es e ih =>
    rw [run_append, run_singleton]
    rw [countP_append_singleton] at hn ⊢
    have hih := ih (fun e' he' => he e' (List.mem_append_left _ he')) (by split at hn <;> omega)
    have hstep := hih.step (c := c) (k := k)
      (he e (List.mem_append_right _ (List.mem_singleton_self e))) fun hc => by
        rw [if_pos hc] at hn
        omega
    refine ⟨hstep.completed, hstep.len.trans ?_⟩
    split <;> omega

theorem new_run {es : List ConnectionEvent} (h : s.completedUploadRequests.get requestId = none)
    (he : ∀ e ∈ es, e.Elsewhere sessionId requestId) :
    (s.run c k sessionId es).completedUploadRequests.get requestId = none := by
  induction es using List.reverseRecOn with
  | nil => exact h
  | append_singleton es e ih =>
    have hih := ih fun e' he' => he e' (List.mem_append_left _ he')
    have hlast := he e (List.mem_append_right _ (List.mem_singleton_self e))
    rw [run_append, run_singleton]
    rcases completes_step c k sessionId e (s.run c k sessionId es) with
      hs | ⟨d, now, io, authorization, envelope, answer, rfl, -, hs⟩
    · rw [hs]
      exact hih
    · rw [hs]
      exact get_rememberCompleted hih (Ne.symm hlast)

theorem closed_of_run {es : List ConnectionEvent} (h : (s.run c k sessionId es).closed = false) :
    s.closed = false := by
  induction es using List.reverseRecOn with
  | nil => exact h
  | append_singleton es e ih =>
    rw [run_append, run_singleton] at h
    exact ih (closed_of_step h)

/-- A commit that is answered from the connection's cache. -/
theorem receiveText_completed {uploadId : UploadId}
    (hp : envelope.payload = .uploadCommit uploadId)
    (h : s.completedUploadRequests.get envelope.requestId = some response) :
    s.receiveText c k sessionId d now io authorization envelope =
      s.send sessionId now io response := by
  rw [receiveText, hp, h]

theorem receiveText_commit {uploadId : UploadId}
    (hp : envelope.payload = .uploadCommit uploadId)
    (hnew : s.completedUploadRequests.get envelope.requestId = none) :
    s.receiveText c k sessionId d now io authorization envelope =
      s.uploadCommit c k sessionId d now io envelope.requestId authorization uploadId := by
  rw [receiveText, hp, hnew]

theorem receiveText_cancel {uploadId : UploadId}
    (hp : envelope.payload = .uploadCancel uploadId)
    (hnew : s.completedUploadRequests.get envelope.requestId = none) :
    s.receiveText c k sessionId d now io authorization envelope =
      s.uploadCancel sessionId now io envelope.requestId uploadId := by
  rw [receiveText, hp, hnew]

theorem sent_dropUpload (s : Connection) : s.dropUpload.sent = s.sent := by
  rw [dropUpload]
  split <;> rfl

theorem sent_complete (completion : UploadCompletion) (s : Connection) :
    (s.complete c d now completion).2.sent = s.sent := by
  rw [complete]
  split <;> rfl

/-- The commit's upload is complete, and its file can be published. -/
structure Publishes (k : Crypto) (io : Io) (envelope : ClientEnvelope) (s : Connection) : Prop where
  new : s.completedUploadRequests.get envelope.requestId = none
  upload : ∃ upload plan path, envelope.payload = .uploadCommit upload.plan.uploadId ∧
    s.activeUpload = some upload ∧
    (finalizeUpload k io.mac upload s.files).1 = .ok (plan, path)

theorem published_remembers {plan : UploadPlan} {finalPath : String}
    (hlen : s.completedUploadRequests.len ≤ n) (hn : n < maxCompletedUploadRequests)
    (ho : (s.published c sessionId d now io requestId authorization plan finalPath).closed = false) :
    ∃ response,
      Answers response s (s.published c sessionId d now io requestId authorization plan finalPath) ∧
      InCompleted requestId response (n + 1)
        (s.published c sessionId d now io requestId authorization plan finalPath) := by
  have hcompleted := completed_published c sessionId d now io authorization requestId plan finalPath s
  rw [rememberCompleted_of_len (hlen.trans_lt hn)] at hcompleted
  refine ⟨(s.complete c d now ⟨some requestId, plan.uploadId, plan.target,
    plan.destinationDirectory, finalPath, authorization⟩).1, ?_, ?_, ?_⟩
  · rw [published] at ho ⊢
    obtain ⟨sequence, hsent⟩ := answers_send _ _ ho
    exact ⟨sequence, hsent.trans (congrArg (· ++ _) (sent_complete _ _))⟩
  · rw [hcompleted, HashMap.get_insert, if_pos rfl]
  · rw [hcompleted]
    exact (HashMap.len_insert_le _ _ _).trans (Nat.add_le_add_right hlen 1)

/-- The first copy of a commit publishes the file, and its answer is remembered. -/
theorem first_commit (h : Publishes k io envelope s) (hlen : s.completedUploadRequests.len ≤ n)
    (hn : n < maxCompletedUploadRequests)
    (ho : (s.step c k sessionId (.text d now io authorization envelope)).closed = false) :
    ∃ response, Answers response s (s.step c k sessionId (.text d now io authorization envelope)) ∧
      InCompleted envelope.requestId response (n + 1)
        (s.step c k sessionId (.text d now io authorization envelope)) := by
  have hc := closed_of_step ho
  obtain ⟨upload, plan, path, hp, hup, hok⟩ := h.upload
  have hcommit : s.step c k sessionId (.text d now io authorization envelope) =
      ({ s with activeUpload := none,
                files := (finalizeUpload k io.mac upload s.files).2 } : Connection).published c
        sessionId d now io envelope.requestId authorization plan path := by
    rw [step, if_neg (by simp [hc]), receiveText_commit hp h.new, uploadCommit, hup]
    simp only
    rw [if_neg (not_not_intro rfl)]
    simp only [hok]
  rw [hcommit] at ho ⊢
  exact published_remembers hlen hn ho

/-- A cancellation is accepted, whatever it finds. -/
theorem answers_cancel {uploadId : UploadId} (hp : envelope.payload = .uploadCancel uploadId)
    (hnew : s.completedUploadRequests.get envelope.requestId = none)
    (ho : (s.step c k sessionId (.text d now io authorization envelope)).closed = false) :
    Answers (protocolCommandAccepted envelope.requestId) s
      (s.step c k sessionId (.text d now io authorization envelope)) := by
  have hc := closed_of_step ho
  rw [step, if_neg (by simp [hc]), receiveText_cancel hp hnew, uploadCancel] at ho ⊢
  obtain ⟨sequence, hsent⟩ := answers_send _ _ ho
  refine ⟨sequence, hsent.trans (congrArg (· ++ _) ?_)⟩
  split
  · exact sent_dropUpload s
  · rfl

theorem cancel_inactive {uploadId : UploadId} (hp : envelope.payload = .uploadCancel uploadId)
    (hnew : s.completedUploadRequests.get envelope.requestId = none) (hc : s.closed = false)
    (hgone : ∀ upload, s.activeUpload = some upload → upload.plan.uploadId ≠ uploadId) :
    s.step c k sessionId (.text d now io authorization envelope) =
      s.send sessionId now io (protocolCommandAccepted envelope.requestId) := by
  have hnone : (s.activeUpload.any fun upload => decide (upload.plan.uploadId = uploadId)) = false := by
    rw [Option.any_eq_false]
    exact fun upload hup => decide_eq_false (hgone upload hup)
  rw [step, if_neg (by simp [hc]), receiveText_cancel hp hnew, uploadCancel, hnone,
    if_neg Bool.false_ne_true]

/-- A mutation that is invalid or not allowed is only answered. -/
theorem refused_mutation {a : WorkspaceAdapter} (hm : isIdempotentMutation envelope.payload = true)
    (hc : s.closed = false) (hnew : s.completedUploadRequests.get envelope.requestId = none)
    (hw : s.workspace = some a)
    (hr : envelope.validate c ≠ .ok () ∨ a.cached authorization.sessionId envelope.requestId = none ∧
      (requiredCapability envelope.payload).any (· ∉ authorization.capabilities) = true) :
    ∃ answer sequence, answer.payload.isError = true ∧
      s.step c k sessionId (.text d now io authorization envelope) =
        ({ s with workspace := some { a with sequence := sequence } } : Connection).send sessionId now
          io answer := by
  rw [step, if_neg (by simp [hc]), receiveText_mutation hm hnew, handle, hw]
  simp only
  rw [WorkspaceAdapter.handleEnvelope]
  split
  · exact ⟨_, _, rfl, rfl⟩
  · rename_i hv
    obtain ⟨hcached, hdenied⟩ := hr.resolve_left (not_not_intro hv)
    rw [hcached]
    simp only
    rw [if_pos hdenied]
    exact ⟨_, _, rfl, rfl⟩

end Connection

/-! ## Retries -/

/-- One of the copies of a message. -/
structure Copy where
  desktop : Desktop
  now : DateTime
  io : Io
  authorization : SessionAuthorization

/-- A message, what comes behind it, and the message again. -/
structure Retry where
  envelope : ClientEnvelope
  first : Copy
  between : List ConnectionEvent
  second : Copy

def Copy.event (copy : Copy) (envelope : ClientEnvelope) : ConnectionEvent :=
  .text copy.desktop copy.now copy.io copy.authorization envelope

namespace Retry

variable (c : Crates) (k : Crypto) (sessionId : AuthSessionId) (r : Retry)

def afterFirst (s : Connection) : Connection := s.step c k sessionId (r.first.event r.envelope)

/-- The connection when the second copy comes. -/
def beforeSecond (s : Connection) : Connection := (r.afterFirst c k sessionId s).run c k sessionId r.between

/-- The session runs until the second copy comes, and uses the request id for nothing else. -/
structure Resent (s : Connection) : Prop where
  first : r.first.authorization.sessionId = sessionId
  second : r.second.authorization.sessionId = sessionId
  elsewhere : ∀ e ∈ r.between, e.Elsewhere sessionId r.envelope.requestId
  serves : (r.beforeSecond c k sessionId s).closed = false

/-- All that the second copy does is to be answered as the first was. -/
def OnlyAnswered (s : Connection) : Prop :=
  ∃ response, s.Answers response (r.afterFirst c k sessionId s) ∧
    (r.beforeSecond c k sessionId s).step c k sessionId (r.second.event r.envelope) =
      (r.beforeSecond c k sessionId s).send sessionId r.second.now r.second.io response

end Retry

/-- What the copies of a message do on the connection that begins with the state. -/
structure RetriesSafe (c : Crates) (k : Crypto) (sessionId : AuthSessionId) (s₀ : Connection) :
    Prop where
  mutation (xs : List ConnectionEvent) (r : Retry) (a : WorkspaceAdapter) :
    r.Resent c k sessionId (s₀.run c k sessionId xs) →
    Connection.Admits c sessionId r.first.authorization r.envelope (s₀.run c k sessionId xs) a →
    r.between.countP ConnectionEvent.isMutation < maxIdempotencyResultsPerSession →
    (r.beforeSecond c k sessionId (s₀.run c k sessionId xs)).workspace ≠ none →
    r.OnlyAnswered c k sessionId (s₀.run c k sessionId xs)
  refused (xs : List ConnectionEvent) (copy : Copy) (envelope : ClientEnvelope)
    (a : WorkspaceAdapter) :
    isIdempotentMutation envelope.payload = true →
    (s₀.run c k sessionId xs).closed = false →
    (s₀.run c k sessionId xs).completedUploadRequests.get envelope.requestId = none →
    (s₀.run c k sessionId xs).workspace = some a →
    envelope.validate c ≠ .ok () ∨
      a.cached copy.authorization.sessionId envelope.requestId = none ∧
        (requiredCapability envelope.payload).any (· ∉ copy.authorization.capabilities) = true →
    ∃ answer sequence, answer.payload.isError = true ∧
      (s₀.run c k sessionId xs).step c k sessionId (copy.event envelope) =
        ({ s₀.run c k sessionId xs with
            workspace := some { a with sequence := sequence } } : Connection).send sessionId
          copy.now copy.io answer
  commit (xs : List ConnectionEvent) (r : Retry) :
    r.Resent c k sessionId (s₀.run c k sessionId xs) →
    Connection.Publishes k r.first.io r.envelope (s₀.run c k sessionId xs) →
    (xs ++ r.first.event r.envelope :: r.between).countP ConnectionEvent.isCommit ≤
      maxCompletedUploadRequests →
    r.OnlyAnswered c k sessionId (s₀.run c k sessionId xs)
  cancel (xs : List ConnectionEvent) (r : Retry) (uploadId : UploadId) :
    r.Resent c k sessionId (s₀.run c k sessionId xs) →
    r.envelope.payload = .uploadCancel uploadId →
    (s₀.run c k sessionId xs).completedUploadRequests.get r.envelope.requestId = none →
    (∀ upload, (r.beforeSecond c k sessionId (s₀.run c k sessionId xs)).activeUpload = some upload →
      upload.plan.uploadId ≠ uploadId) →
    r.OnlyAnswered c k sessionId (s₀.run c k sessionId xs)

/-- **A retried mutation, commit or cancellation takes effect once.** -/
theorem retries_safe (c : Crates) (k : Crypto) (sessionId : AuthSessionId)
    (workspace : Option WorkspaceAdapter) (files : FileSystem) (connectionSequence : ℕ)
    (sent : List ServerEnvelope) :
    RetriesSafe c k sessionId (.start workspace files connectionSequence sent) where
  mutation xs r a hr hadmits hfew hw := by
    have ho := Connection.closed_of_run hr.serves
    obtain ⟨response, hanswers, hcache⟩ := Connection.first_mutation hadmits ho
    have hlate := hcache.run hr.elsewhere hfew hr.serves
    exact ⟨response, hanswers, Connection.second_mutation hlate hadmits.mutation hadmits.valid
      hr.second hr.serves hw⟩
  refused xs copy envelope a hm hc hnew hw hrefused :=
    Connection.refused_mutation hm hc hnew hw hrefused
  commit xs r hr hpub hfew := by
    have ho := Connection.closed_of_run hr.serves
    obtain ⟨upload, plan, path, hp, hup, hok⟩ := hpub.upload
    have hcommit : (r.first.event r.envelope).isCommit = true := by
      simp only [Copy.event, ConnectionEvent.isCommit, hp]
    rw [List.countP_append, List.countP_cons, hcommit, if_pos rfl] at hfew
    have hlen : ((Connection.start workspace files connectionSequence sent).run c k sessionId
        xs).completedUploadRequests.len ≤ 0 + xs.countP ConnectionEvent.isCommit :=
      Connection.len_run le_rfl (by omega)
    obtain ⟨response, hanswers, hcache⟩ := Connection.first_commit hpub hlen (by omega) ho
    have hlate := hcache.run (c := c) (k := k) hr.elsewhere (by omega)
    refine ⟨response, hanswers, ?_⟩
    rw [Copy.event, Connection.step, if_neg (by simp [hr.serves])]
    exact Connection.receiveText_completed hp hlate.completed
  cancel xs r uploadId hr hp hnew hgone := by
    have ho := Connection.closed_of_run hr.serves
    refine ⟨protocolCommandAccepted r.envelope.requestId,
      Connection.answers_cancel hp hnew ho, ?_⟩
    have hcommit : (r.first.event r.envelope).isCommit = false := by
      simp only [Copy.event, ConnectionEvent.isCommit, hp]
    refine Connection.cancel_inactive hp (Connection.new_run ?_ hr.elsewhere) hr.serves hgone
    rcases Connection.completes_step c k sessionId
      (r.first.event r.envelope) _ with hs | ⟨_, _, _, _, _, _, -, hc, -⟩
    · exact (congrArg (HashMap.get · r.envelope.requestId) hs).trans hnew
    · exact nomatch hcommit.symm.trans hc

/-! ## Other requests -/

namespace Sample

def crypto : Crypto := ⟨fun _ => none, fun _ => "", id, fun _ => "", fun _ _ _ => false, fun _ => ""⟩

/-- The Mac has no project. -/
def bare : Desktop := { desktop with windows := [] }

def goodIo : Io := ⟨⟨none, false, none, none, fun _ => none⟩, true, none, 0⟩

def copy (d : Desktop) : Copy := ⟨d, 0, goodIo, phone⟩

/-- The phone asks for a snapshot, and asks again. -/
def look : Retry :=
  ⟨⟨protocolVersion, ⟨uuid 1⟩, .requestSnapshot⟩, copy desktop, [], copy bare⟩

def fresh : WorkspaceAdapter := .new ⟨uuid 0⟩ 0

def seen (d : Desktop) (a : WorkspaceAdapter) : AdapterReply × WorkspaceAdapter :=
  a.handleEnvelope crates d 0 look.envelope phone

/-- The phone takes the lease, and asks again when the Mac has no project any more. -/
def acquireTwice : Retry := ⟨acquire, copy desktop, [], copy bare⟩

theorem admits_acquire : Connection.Admits crates ⟨1⟩ phone acquire
    (.start (some fresh) .empty 0 []) fresh := ⟨rfl, rfl, rfl, rfl, rfl, rfl, rfl⟩

end Sample

open Sample in
theorem retries_safe_acquire :
    acquireTwice.OnlyAnswered crates crypto ⟨1⟩ (.start (some fresh) .empty 0 []) :=
  (retries_safe crates crypto ⟨1⟩ (some fresh) .empty 0 []).mutation [] acquireTwice fresh
    ⟨rfl, rfl, fun _ he => (nomatch he), rfl⟩ admits_acquire (by decide) (Option.some_ne_none _)

open Sample in
/-- A request for a snapshot is handled again when it is sent again. -/
theorem snapshot_changes : ∃ (c : Crates) (k : Crypto) (sessionId : AuthSessionId)
    (workspace : Option WorkspaceAdapter) (files : FileSystem) (r : Retry)
    (response response' : ServerEnvelope),
    r.Resent c k sessionId (.start workspace files 0 []) ∧ r.between = [] ∧
    Connection.Answers response (.start workspace files 0 [])
      (r.afterFirst c k sessionId (.start workspace files 0 [])) ∧
    Connection.Answers response' (r.beforeSecond c k sessionId (.start workspace files 0 []))
      ((r.beforeSecond c k sessionId (.start workspace files 0 [])).step c k sessionId
        (r.second.event r.envelope)) ∧
    response.payload ≠ response'.payload := by
  refine ⟨crates, crypto, ⟨1⟩, some fresh, .empty, look, (seen desktop fresh).1.envelope,
    (seen bare (seen desktop fresh).2).1.envelope, ⟨rfl, rfl, ?_, rfl⟩, rfl, ⟨1, ?_⟩, ⟨2, ?_⟩, ?_⟩
  · exact fun e he => nomatch he
  · rfl
  · rfl
  · decide

end Clinch
