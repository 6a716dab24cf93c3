import Clinch.RemoteControl.Envelope

/-!
# What a request can do

Every handler of the adapter does one of six things to its state, apart from numbering its answer,
watching a terminal and asking the desktop for something.

* `Quiet`: the rest of the state is unchanged, and no terminal is resized (`NoResize`);
* `Outcome`: the six things;
* `execute_outcome`: there is no other.
-/

set_option autoImplicit false

namespace Clinch

/-- The target that a message writes to, and whether it may take the lease from another device. -/
def ClientMessage.written : ClientMessage → Option (TargetRef × Bool)
  | acquireWriterLease target _ takeover => some (target, takeover)
  | submitComposerText target _ _ | rawTerminalInput target _ _ | interruptTerminal target _
  | terminalResize target _ _ | setTerminalSizePin target _ _ | terminalKey target _ _
  | quickInsertSubmit target _ _ _ => some (target, false)
  | uploadBegin m => some (m.target, false)
  | _ => none

/-- The messages that change projects, tabs, sections or tasks. -/
def ClientMessage.isMutation : ClientMessage → Bool
  | createProject _ _ _ _ | createSession _ _ _ _ _ _ | resumeSession _ _ _ _ _ _
  | createTask _ _ _ _ | deleteTask _ _ _ _ | launchTask _ _ _ _ _ | createSection _ _ _
  | setTabSection _ _ _ => true
  | _ => false

/-- The revision that a message has to name. -/
def ClientMessage.expectedRevision : ClientMessage → Option ℕ
  | submitComposerText _ revision _ | rawTerminalInput _ revision _ | interruptTerminal _ revision
  | terminalKey _ revision _ | createTask _ revision _ _ | deleteTask _ revision _ _
  | launchTask _ revision _ _ _ | createSection _ revision _ | setTabSection _ revision _
  | quickInsertSubmit _ revision _ _ => some revision
  | uploadBegin m => some m.workspaceRevision
  | _ => none

def Effect.IsResize : Effect → Prop
  | resize _ _ _ => True
  | _ => False

/-- Something is written to a terminal, or its size changes. -/
def Effect.IsWrite : Effect → Prop
  | submitText _ _ | writeBytes _ _ | insertText _ _ | resize _ _ _ => True
  | _ => False

namespace WorkspaceAdapter

/-- The desktop is not asked to resize a terminal. -/
def NoResize (a a' : WorkspaceAdapter) : Prop :=
  ∃ es, a'.effects = a.effects ++ es ∧ ∀ e ∈ es, ¬ e.IsResize

theorem NoResize.of_eq {a a' : WorkspaceAdapter} (h : a'.effects = a.effects) : NoResize a a' :=
  ⟨[], by rw [h, List.append_nil], fun _ h => (nomatch h)⟩

theorem NoResize.trans {a a' a'' : WorkspaceAdapter} (h : NoResize a a') (h' : NoResize a' a'') :
    NoResize a a'' := by
  obtain ⟨es, he, hr⟩ := h
  obtain ⟨es', he', hr'⟩ := h'
  refine ⟨es ++ es', by rw [he', he, List.append_assoc], fun e hm => ?_⟩
  exact (List.mem_append.mp hm).elim (hr e) (hr' e)

/-- The rest of the state is unchanged. -/
structure Quiet (a a' : WorkspaceAdapter) : Prop where
  appInstanceId : a'.appInstanceId = a.appInstanceId
  revision : a'.revision = a.revision
  lastTopologyFingerprint : a'.lastTopologyFingerprint = a.lastTopologyFingerprint
  writerLeases : a'.writerLeases = a.writerLeases
  remoteSizePins : a'.remoteSizePins = a.remoteSizePins
  connectedSessions : a'.connectedSessions = a.connectedSessions
  idempotency : a'.idempotency = a.idempotency
  effects : NoResize a a'

namespace Quiet

variable {a a' a'' : WorkspaceAdapter}

theorem refl (a : WorkspaceAdapter) : Quiet a a :=
  ⟨rfl, rfl, rfl, rfl, rfl, rfl, rfl, .of_eq rfl⟩

theorem trans (h : Quiet a a') (h' : Quiet a' a'') : Quiet a a'' :=
  ⟨h'.appInstanceId.trans h.appInstanceId, h'.revision.trans h.revision,
    h'.lastTopologyFingerprint.trans h.lastTopologyFingerprint,
    h'.writerLeases.trans h.writerLeases, h'.remoteSizePins.trans h.remoteSizePins,
    h'.connectedSessions.trans h.connectedSessions, h'.idempotency.trans h.idempotency,
    h.effects.trans h'.effects⟩

theorem perform (a : WorkspaceAdapter) {es : List Effect} (h : ∀ e ∈ es, ¬ e.IsResize) :
    Quiet a (a.perform es) := ⟨rfl, rfl, rfl, rfl, rfl, rfl, rfl, es, rfl, h⟩

theorem response (a : WorkspaceAdapter) (requestId : Option RequestId) (payload : ServerMessage) :
    Quiet a (a.response requestId payload).2 :=
  ⟨rfl, rfl, rfl, rfl, rfl, rfl, rfl, .of_eq rfl⟩

theorem error (a : WorkspaceAdapter) (requestId : Option RequestId) (code : ProtocolErrorCode)
    (message : String) (retryable : Bool) :
    Quiet a (a.error requestId code message retryable).2 :=
  response a requestId (.error ⟨code, message, retryable, some a.revision⟩)

theorem reply (a : WorkspaceAdapter) (requestId : RequestId) (payload : ServerMessage) :
    Quiet a (a.reply requestId payload).2 := response a (some requestId) payload

end Quiet

variable (c : Crates) (d : Desktop) (now : DateTime)

/-- The state in which a handler goes on with its target. -/
def opened (resolved : ResolvedTarget) (a : WorkspaceAdapter) : WorkspaceAdapter :=
  { a with terminalSubscriptions := insert resolved.terminal a.terminalSubscriptions }.perform
    [.startDeferredAgent resolved.terminal]

variable {a : WorkspaceAdapter}

theorem quiet_opened (resolved : ResolvedTarget) (a : WorkspaceAdapter) :
    Quiet a (a.opened resolved) := by
  refine ⟨rfl, rfl, rfl, rfl, rfl, rfl, rfl, _, rfl, fun e he => ?_⟩
  rw [List.mem_singleton.mp he]
  exact id

theorem resolveValidTarget_cases (target : TargetRef) (expectedRevision : Option ℕ) :
    (∃ e, a.resolveValidTarget c d target expectedRevision = (.error e, a)) ∨
    ∃ resolved, d.resolveTarget c target.key = some resolved ∧
      (∀ revision ∈ expectedRevision, revision = a.revision) ∧
      a.resolveValidTarget c d target expectedRevision = (.ok resolved, a.opened resolved) := by
  rw [resolveValidTarget]
  split
  · exact Or.inl ⟨_, rfl⟩
  · split
    · exact Or.inl ⟨_, rfl⟩
    · rename_i hrev
      cases hr : d.resolveTarget c target.key with
      | none => exact Or.inl ⟨_, rfl⟩
      | some resolved =>
        refine Or.inr ⟨resolved, rfl, fun revision hm => ?_, rfl⟩
        rw [Option.mem_def] at hm
        rw [hm] at hrev
        simpa using hrev

theorem resolveValidProject_revision {appInstanceId : AppInstanceId} {projectId : String}
    {expectedRevision : Option ℕ} {project : Project}
    (h : a.resolveValidProject d appInstanceId projectId expectedRevision = .ok project) :
    ∀ revision ∈ expectedRevision, revision = a.revision := by
  intro revision hm
  rw [Option.mem_def] at hm
  rw [resolveValidProject, hm] at h
  split at h
  · exact nomatch h
  · split at h
    · exact nomatch h
    · rename_i hrev
      simpa using hrev

/-! ## Outcomes -/

/-- Nothing was written to a terminal. -/
def Unwritten (a a' : WorkspaceAdapter) : Prop :=
  ∃ es, a'.effects = a.effects ++ es ∧ ∀ e ∈ es, ¬ e.IsWrite

theorem unwritten_of_eq {a' : WorkspaceAdapter} (h : a'.effects = a.effects) : Unwritten a a' :=
  ⟨[], by rw [h, List.append_nil], fun _ h => (nomatch h)⟩

theorem unwritten_opened (resolved : ResolvedTarget) (a : WorkspaceAdapter) :
    Unwritten a (a.opened resolved) := by
  refine ⟨_, rfl, fun e he => ?_⟩
  rw [List.mem_singleton.mp he]
  exact id

/-- A refusal is an error, and leaves the state as it is. -/
def Refused (a : WorkspaceAdapter) (r : AdapterReply × WorkspaceAdapter) : Prop :=
  Quiet a r.2 ∧ r.1.envelope.payload.isError = true

theorem refused_refuse (requestId : RequestId) (code : ProtocolErrorCode) (message : String)
    (retryable : Bool) (a : WorkspaceAdapter) : Refused a (a.refuse requestId code message retryable) :=
  ⟨.reply a requestId _, rfl⟩

/-- What a request can do. -/
inductive Outcome (a : WorkspaceAdapter) (requestId : RequestId)
    (authorization : SessionAuthorization) (m : ClientMessage) :
    AdapterReply × WorkspaceAdapter → Prop
  | refused {r : AdapterReply × WorkspaceAdapter} (h : Refused a r)
    (hw : m.written ≠ none → r.2.effects = a.effects) : Outcome a requestId authorization m r
  | read {r : AdapterReply × WorkspaceAdapter} (hm : m.written = none ∧ m.isMutation = false)
    (h : Quiet a r.2) : Outcome a requestId authorization m r
  | mutation {b : WorkspaceAdapter} (hm : m.isMutation = true)
    (hr : ∀ revision ∈ m.expectedRevision, revision = a.revision) (h : Quiet a b) :
    Outcome a requestId authorization m (b.bumpTopologyRevision.accept requestId)
  | snapshot (hm : m = .requestSnapshot) : Outcome a requestId authorization m
    ((a.snapshot c d now).2.reply requestId (.snapshot (a.snapshot c d now).1))
  | release {target : TargetRef} {r : AdapterReply × WorkspaceAdapter}
    (hm : m = .releaseWriterLease target)
    (h : Quiet (if (a.writerLeases.get target.key).any (·.sessionId = authorization.sessionId) then
      a.pruneLease c d target.key else a) r.2) : Outcome a requestId authorization m r
  | blocked {target : TargetRef} {takeover : Bool} {b : WorkspaceAdapter} {envelope : ServerEnvelope}
    (hm : m.written = some (target, takeover)) (h : Quiet a b) (hw : Unwritten a b)
    (he : (b.ensureWriter now target authorization (some requestId) takeover).1 = .error envelope) :
    Outcome a requestId authorization m (.ofEnvelope envelope,
      (b.ensureWriter now target authorization (some requestId) takeover).2)
  | written {target : TargetRef} {takeover : Bool} {b : WorkspaceAdapter}
    {lease : WriterLeaseSnapshot} {r : AdapterReply × WorkspaceAdapter}
    (hm : m.written = some (target, takeover))
    (hr : ∀ revision ∈ m.expectedRevision, revision = a.revision) (h : Quiet a b)
    (he : (b.ensureWriter now target authorization (some requestId) takeover).1 = .ok lease)
    (h' : Quiet (b.ensureWriter now target authorization (some requestId) takeover).2 r.2) :
    Outcome a requestId authorization m r
  | resized {target : TargetRef} {resolved : ResolvedTarget} {revision : ℕ}
    {dimensions : TerminalDimensions} {b : WorkspaceAdapter} {lease : WriterLeaseSnapshot}
    (hm : m = .terminalResize target revision dimensions)
    (hr : d.resolveTarget c target.key = some resolved) (h : Quiet a b)
    (he : (b.ensureWriter now target authorization (some requestId) false).1 = .ok lease)
    (hmay : remoteMaySizePane ((d.watchedTargets c).contains target.key)
      ((b.ensureWriter now target authorization (some requestId) false).2.remoteSizePins.get
        target.key) authorization.deviceId = true) :
    Outcome a requestId authorization m
      (((b.ensureWriter now target authorization (some requestId) false).2.perform
        [.resize resolved.terminal dimensions.rows dimensions.columns]).accept requestId)
  | pin {target : TargetRef} {revision : ℕ} {pinned : Bool} {b : WorkspaceAdapter}
    {lease : WriterLeaseSnapshot} {r : AdapterReply × WorkspaceAdapter}
    (hm : m = .setTerminalSizePin target revision pinned) (h : Quiet a b)
    (he : (b.ensureWriter now target authorization (some requestId) false).1 = .ok lease)
    (h' : Quiet { (b.ensureWriter now target authorization (some requestId) false).2 with
      remoteSizePins :=
        if pinned then
          (b.ensureWriter now target authorization (some requestId) false).2.remoteSizePins.insert
            target.key authorization.deviceId
        else
          (b.ensureWriter now target authorization (some requestId) false).2.remoteSizePins.remove
            target.key } r.2) : Outcome a requestId authorization m r

/-! ## Beginnings -/

variable {requestId : RequestId} {authorization : SessionAuthorization} {m : ClientMessage}

theorem withTarget_outcome {target : TargetRef} {expectedRevision : Option ℕ}
    {k : ResolvedTarget → WorkspaceAdapter → AdapterReply × WorkspaceAdapter}
    (hk : ∀ resolved, d.resolveTarget c target.key = some resolved →
      (∀ revision ∈ expectedRevision, revision = a.revision) →
      Outcome c d now a requestId authorization m (k resolved (a.opened resolved))) :
    Outcome c d now a requestId authorization m
      (a.withTarget c d requestId target expectedRevision k) := by
  rw [withTarget]
  rcases resolveValidTarget_cases (a := a) c d target expectedRevision with
    ⟨e, he⟩ | ⟨resolved, hr, hrev, he⟩
  · rw [he]
    exact .refused (refused_refuse _ _ _ _ a) fun _ => rfl
  · rw [he]
    exact hk resolved hr hrev

theorem withWriter_outcome {target : TargetRef} {expectedRevision : Option ℕ} {takeover : Bool}
    {k : ResolvedTarget → WriterLeaseSnapshot → WorkspaceAdapter → AdapterReply × WorkspaceAdapter}
    (hm : m.written = some (target, takeover))
    (hk : ∀ resolved lease b, d.resolveTarget c target.key = some resolved →
      (∀ revision ∈ expectedRevision, revision = a.revision) → Quiet a b →
      (b.ensureWriter now target authorization (some requestId) takeover).1 = .ok lease →
      Outcome c d now a requestId authorization m (k resolved lease
        (b.ensureWriter now target authorization (some requestId) takeover).2)) :
    Outcome c d now a requestId authorization m
      (a.withWriter c d now requestId target expectedRevision authorization takeover k) := by
  refine withTarget_outcome c d now fun resolved hr hrev => ?_
  have hq := quiet_opened resolved a
  split
  · rename_i envelope b' he
    have hb : b' = ((a.opened resolved).ensureWriter now target authorization (some requestId)
      takeover).2 := by rw [he]
    rw [hb]
    exact .blocked hm hq (unwritten_opened resolved a) (by rw [he])
  · rename_i lease b' he
    have hb : b' = ((a.opened resolved).ensureWriter now target authorization (some requestId)
      takeover).2 := by rw [he]
    rw [hb]
    exact hk resolved lease _ hr hrev hq (by rw [he])

theorem withProject_outcome {appInstanceId : AppInstanceId} {projectId : String}
    {expectedRevision : Option ℕ}
    {k : Project → WorkspaceAdapter → AdapterReply × WorkspaceAdapter}
    (hk : ∀ project, (∀ revision ∈ expectedRevision, revision = a.revision) →
      Outcome c d now a requestId authorization m (k project a)) :
    Outcome c d now a requestId authorization m
      (a.withProject d requestId appInstanceId projectId expectedRevision k) := by
  rw [withProject]
  split
  · exact .refused (refused_refuse _ _ _ _ a) fun _ => rfl
  · rename_i project hp
    exact hk project (resolveValidProject_revision d hp)

/-- A write that ends in an answer. -/
theorem written_outcome {target : TargetRef} {takeover : Bool} {expectedRevision : Option ℕ}
    (hm : m.written = some (target, takeover)) (hexp : m.expectedRevision = expectedRevision)
    {k : ResolvedTarget → WriterLeaseSnapshot → WorkspaceAdapter → AdapterReply × WorkspaceAdapter}
    (hk : ∀ resolved lease b, Quiet b (k resolved lease b).2) :
    Outcome c d now a requestId authorization m
      (a.withWriter c d now requestId target expectedRevision authorization takeover k) := by
  refine withWriter_outcome c d now hm fun resolved lease b _ hrev hq he => ?_
  rw [← hexp] at hrev
  exact .written hm hrev hq he (hk resolved lease _)

/-! ## The handlers -/

theorem Quiet.perform_one (a : WorkspaceAdapter) {e : Effect} (h : ¬ e.IsResize) :
    Quiet a (a.perform [e]) :=
  .perform a fun e' he => by rwa [List.mem_singleton.mp he]

theorem Quiet.refused {b : WorkspaceAdapter} (h : Quiet a b) (requestId : RequestId)
    (code : ProtocolErrorCode) (message : String) (retryable : Bool) :
    Refused a (b.refuse requestId code message retryable) := ⟨h.trans (.reply b requestId _), rfl⟩

theorem selectTarget_outcome (hm : m.written = none ∧ m.isMutation = false)
    (target : TargetRef) :
    Outcome c d now a requestId authorization m (a.selectTarget c d requestId target) := by
  refine withTarget_outcome c d now fun resolved _ _ => ?_
  have hq := quiet_opened resolved a
  split
  · exact .refused (hq.refused _ _ _ _) fun h => absurd hm.1 h
  · refine .read hm ((hq.trans (.perform _ fun e he => ?_)).trans (.response _ (some requestId)
      (.terminalSnapshot target d.streamId a.revision (d.dimensions resolved.terminal))))
    simp only [List.mem_cons, List.not_mem_nil, or_false] at he
    rcases he with rfl | rfl | rfl | rfl <;> exact id

theorem quickInsertPreview_outcome (hm : m.written = none ∧ m.isMutation = false)
    (target : TargetRef) (itemId : String) (configurationRevision : ℕ) : Outcome c d now a requestId authorization m
      (a.quickInsertPreview c d requestId target itemId configurationRevision) := by
  refine withTarget_outcome c d now fun resolved _ _ => ?_
  have hq := quiet_opened resolved a
  split
  · exact .refused (hq.refused _ _ _ _) fun h => absurd hm.1 h
  · exact .read hm (hq.trans (.reply _ _ _))

theorem submitComposer_outcome (target : TargetRef) (revision : ℕ) (text : String) :
    Outcome c d now a requestId authorization (.submitComposerText target revision text)
      (a.submitComposer c d now requestId target revision text authorization) := by
  refine written_outcome c d now rfl rfl fun resolved lease b => ?_
  simp only
  refine Quiet.trans (.perform_one b (e := .submitText resolved.terminal text) id) ?_
  split <;> exact .reply _ _ _

theorem rawTerminalInput_outcome (target : TargetRef) (revision : ℕ) (dataBase64 : String) :
    Outcome c d now a requestId authorization (.rawTerminalInput target revision dataBase64)
      (a.rawTerminalInput c d now requestId target revision dataBase64 authorization) := by
  refine written_outcome c d now rfl rfl fun resolved lease b => ?_
  split
  · exact .reply _ _ _
  · exact Quiet.trans (.perform_one b id) (.reply _ _ _)

theorem writeFixedTerminalBytes_outcome {target : TargetRef} {revision : ℕ}
    (hm : m.written = some (target, false)) (hr : m.expectedRevision = some revision)
    (bytes : List UInt8) : Outcome c d now a requestId authorization m
      (a.writeFixedTerminalBytes c d now requestId target revision bytes authorization) :=
  written_outcome c d now hm hr fun _ _ b => Quiet.trans (.perform_one b id) (.reply _ _ _)

theorem quickInsertSubmit_outcome (target : TargetRef) (revision : ℕ) (itemId : String)
    (configurationRevision : ℕ) : Outcome c d now a requestId authorization
      (.quickInsertSubmit target revision itemId configurationRevision)
      (a.quickInsertSubmit c d now requestId target revision itemId configurationRevision
        authorization) := by
  refine written_outcome c d now rfl rfl fun resolved lease b => ?_
  split
  · exact .reply _ _ _
  · rename_i item _
    simp only
    refine Quiet.trans (.perform_one b (e := .submitText resolved.terminal item.text) id) ?_
    split <;> exact .reply _ _ _

theorem beginUpload_outcome (u : UploadBegin) : Outcome c d now a requestId authorization
    (.uploadBegin u) (a.beginUpload c d now requestId u authorization) := by
  refine written_outcome c d now rfl rfl fun resolved lease b => ?_
  split
  · exact .reply _ _ _
  · exact .response _ (some requestId) (.uploadReady d.uploadId maxUploadChunkBytes)

theorem resizeTerminal_outcome (target : TargetRef) (revision : ℕ)
    (dimensions : TerminalDimensions) : Outcome c d now a requestId authorization
      (.terminalResize target revision dimensions)
      (a.resizeTerminal c d now requestId target dimensions authorization) := by
  refine withWriter_outcome c d now rfl fun resolved lease b hr _ hq he => ?_
  split
  · exact .written rfl (fun _ h => by cases h) hq he (.reply _ _ _)
  · rename_i hmay
    exact .resized rfl hr hq he (by simpa using hmay)

theorem setTerminalSizePin_outcome (target : TargetRef) (revision : ℕ) (pinned : Bool) :
    Outcome c d now a requestId authorization (.setTerminalSizePin target revision pinned)
      (a.setTerminalSizePin c d now requestId target pinned authorization) := by
  refine withWriter_outcome c d now rfl fun resolved lease b _ _ hq he => ?_
  refine .pin rfl hq he ?_
  cases pinned with
  | true => exact .reply _ _ _
  | false =>
    simp only [Bool.false_eq_true, if_false]
    split
    · exact Quiet.trans (.perform_one _ id) (.reply _ _ _)
    · exact .reply _ _ _

theorem createSession_outcome (app : AppInstanceId) (revision : ℕ) (project : String)
    (kind : SessionKind) (cwd prompt : Option String) : Outcome c d now a requestId authorization
      (.createSession app revision project kind cwd prompt)
      (a.createSession d requestId app project kind cwd prompt) := by
  refine withProject_outcome c d now fun project _ => ?_
  split
  · exact .refused (refused_refuse _ _ _ _ a) fun _ => rfl
  · refine .mutation rfl (fun _ h => (nomatch h)) ?_
    refine Quiet.trans (.perform_one a (e := .activateProject project.id) id) ?_
    split <;> exact .perform_one _ id

theorem createProject_outcome (app : AppInstanceId) (revision : ℕ) (project : String)
    (cwd : Option String) : Outcome c d now a requestId authorization
      (.createProject app revision project cwd) (a.createProject d requestId app project cwd) := by
  refine withProject_outcome c d now fun anchor _ => ?_
  split
  · exact .refused (refused_refuse _ _ _ _ a) fun _ => rfl
  · have hq := Quiet.perform_one a (e := .addProject anchor.id) id
    simp only
    split
    · exact .refused (hq.refused _ _ _ _) fun h => absurd rfl h
    · exact .mutation rfl (fun _ h => (nomatch h)) (hq.trans (.perform_one _ id))

theorem quiet_two (a : WorkspaceAdapter) (e e' : Effect) (h : ¬ e.IsResize) (h' : ¬ e'.IsResize) :
    Quiet a (a.perform [e, e']) := by
  refine .perform a fun e'' he => ?_
  simp only [List.mem_cons, List.not_mem_nil, or_false] at he
  rcases he with rfl | rfl
  · exact h
  · exact h'

theorem resumeSession_outcome (app : AppInstanceId) (revision : ℕ) (project : String)
    (provider : AgentProvider) (id cwd : String) : Outcome c d now a requestId authorization
      (.resumeSession app revision project provider id cwd)
      (a.resumeSession d requestId app project provider id cwd) := by
  refine withProject_outcome c d now fun project _ => ?_
  split
  · exact .refused (refused_refuse _ _ _ _ a) fun _ => rfl
  · rename_i cwd _
    have hq := quiet_two a (.activateProject project.id)
      (.resumeCliAgent project.id provider id cwd) (fun h => h) (fun h => h)
    simp only
    split
    · exact .refused (hq.refused _ _ _ _) fun h => absurd rfl h
    · exact .mutation rfl (fun _ h => (nomatch h)) hq

theorem createTask_outcome (app : AppInstanceId) (revision : ℕ) (project text : String) :
    Outcome c d now a requestId authorization (.createTask app revision project text)
      (a.createTask d requestId app revision project text) := by
  refine withProject_outcome c d now fun project hr => ?_
  have hq := Quiet.perform_one a (e := .addWorkspaceTask project.id text) id
  simp only
  split
  · exact .refused (hq.refused _ _ _ _) fun h => absurd rfl h
  · exact .mutation rfl hr hq

theorem deleteTask_outcome (app : AppInstanceId) (revision : ℕ) (project : String)
    (task : TaskId) : Outcome c d now a requestId authorization
      (.deleteTask app revision project task)
      (a.deleteTask d requestId app revision project task) := by
  refine withProject_outcome c d now fun project hr => ?_
  have hq := Quiet.perform_one a (e := .removeWorkspaceTask project.id task.uuid) id
  simp only
  split
  · exact .refused (hq.refused _ _ _ _) fun h => absurd rfl h
  · exact .mutation rfl hr hq

theorem launchTask_outcome (app : AppInstanceId) (revision : ℕ) (project : String)
    (task : TaskId) (provider : AgentProvider) : Outcome c d now a requestId authorization
      (.launchTask app revision project task provider)
      (a.launchTask d requestId app revision project task provider) := by
  refine withProject_outcome c d now fun project hr => ?_
  split
  · exact .refused (refused_refuse _ _ _ _ a) fun _ => rfl
  · have hq := quiet_two a (.activateProject project.id)
      (.launchWorkspaceTask project.id task.uuid provider) id id
    simp only
    split
    · exact .refused (hq.refused _ _ _ _) fun h => absurd rfl h
    · exact .mutation rfl hr hq

theorem createSection_outcome (target : TargetRef) (revision : ℕ) (name : String) :
    Outcome c d now a requestId authorization (.createSection target revision name)
      (a.createSection c d requestId target revision name) := by
  refine withTarget_outcome c d now fun resolved _ hr => ?_
  have hq := quiet_opened resolved a
  simp only
  split
  · exact .refused (hq.refused _ _ _ _) fun h => absurd rfl h
  · have hq' := hq.trans (.perform_one _
      (e := .createTabGroup resolved.project.id resolved.tabIndex (trim name)) id)
    split
    · exact .refused (hq'.refused _ _ _ _) fun h => absurd rfl h
    · exact .mutation rfl hr hq'

theorem setTabSection_outcome (target : TargetRef) (revision : ℕ) (sectionId : Option String) :
    Outcome c d now a requestId authorization (.setTabSection target revision sectionId)
      (a.setTabSection c d requestId target revision sectionId) := by
  refine withTarget_outcome c d now fun resolved _ hr => ?_
  have hq := quiet_opened resolved a
  split
  · exact .refused (hq.refused _ _ _ _) fun h => absurd rfl h
  · split
    · exact .refused (hq.refused _ _ _ _) fun h => absurd rfl h
    · exact .mutation rfl hr (hq.trans (.perform_one _ id))
  · refine .mutation rfl hr (hq.trans ?_)
    split
    · exact .perform_one _ id
    · exact .refl _

/-- What `complete_upload` can do. -/
theorem completeUpload_cases (completion : UploadCompletion) (a : WorkspaceAdapter) :
    (Quiet a (a.completeUpload c d now completion).2 ∧
      (a.completeUpload c d now completion).1.payload.isError = true ∧
      (a.completeUpload c d now completion).2.effects = a.effects) ∨
    ∃ b, Quiet a b ∧ Unwritten a b ∧ ((∃ envelope,
      (b.ensureWriter now completion.target completion.authorization completion.requestId false).1 =
        .error envelope ∧ a.completeUpload c d now completion = (envelope,
      (b.ensureWriter now completion.target completion.authorization completion.requestId false).2)) ∨
      ∃ lease, (b.ensureWriter now completion.target completion.authorization completion.requestId
        false).1 = .ok lease ∧ Quiet (b.ensureWriter now completion.target completion.authorization
        completion.requestId false).2 (a.completeUpload c d now completion).2) := by
  rw [completeUpload]
  rcases resolveValidTarget_cases (a := a) c d completion.target none with
    ⟨e, he⟩ | ⟨resolved, -, -, he⟩
  · rw [he]
    exact Or.inl ⟨.error a completion.requestId e.1 e.2.1 e.2.2, rfl, rfl⟩
  · rw [he]
    refine Or.inr ⟨_, quiet_opened resolved a, unwritten_opened resolved a, ?_⟩
    simp only
    split
    · rename_i envelope b' he'
      rw [he']
      exact Or.inl ⟨envelope, rfl, rfl⟩
    · rename_i lease b' he'
      rw [he']
      refine Or.inr ⟨lease, rfl, ?_⟩
      split
      · exact .error b' completion.requestId .uploadRejected
          "The terminal directory changed before the upload completed." true
      · exact Quiet.trans (.perform_one b' id) (.response _ completion.requestId
          (.uploadCompleted completion.uploadId
            (d.escapeInsertedPath resolved.terminal completion.finalPath)))

/-- A request is answered at once, or executed and then remembered. -/
theorem handleEnvelope_cases (envelope : ClientEnvelope) (authorization : SessionAuthorization)
    (a : WorkspaceAdapter) :
    (∃ error, a.handleEnvelope c d now envelope authorization =
      a.refuse envelope.requestId .invalidRequest error false) ∨
    (∃ cached, a.cached authorization.sessionId envelope.requestId = some cached ∧
      a.handleEnvelope c d now envelope authorization = (.ofEnvelope cached, a)) ∨
    (a.cached authorization.sessionId envelope.requestId = none ∧
      a.handleEnvelope c d now envelope authorization = a.refuse envelope.requestId .capabilityDenied
        "This phone is not authorized for that action." false) ∨
    (a.cached authorization.sessionId envelope.requestId = none ∧ ∃ r,
      r = a.execute c d now envelope.requestId authorization envelope.payload ∧
      a.handleEnvelope c d now envelope authorization = (r.1,
        if isIdempotentMutation envelope.payload then
          r.2.remember authorization.sessionId envelope.requestId r.1.envelope else r.2)) := by
  rw [handleEnvelope]
  split
  · exact Or.inl ⟨_, rfl⟩
  · split
    · rename_i cached hc
      exact Or.inr (Or.inl ⟨cached, hc, rfl⟩)
    · rename_i hc
      split
      · exact Or.inr (Or.inr (Or.inl ⟨hc, rfl⟩))
      · exact Or.inr (Or.inr (Or.inr ⟨hc, _, rfl, rfl⟩))

/-- **A request does one of the things of `Outcome`.** -/
theorem execute_outcome (a : WorkspaceAdapter) (requestId : RequestId)
    (authorization : SessionAuthorization) (m : ClientMessage) :
    Outcome c d now a requestId authorization m (a.execute c d now requestId authorization m) := by
  cases m with
  | ping => exact .read ⟨rfl, rfl⟩ (.reply _ _ _)
  | requestSnapshot => exact .snapshot rfl
  | selectTarget target revision => exact selectTarget_outcome c d now ⟨rfl, rfl⟩ target
  | acquireWriterLease target revision takeover =>
    exact written_outcome c d now rfl rfl fun _ _ _ => .reply _ _ _
  | releaseWriterLease target => exact .release rfl (.reply _ _ _)
  | submitComposerText target revision text => exact submitComposer_outcome c d now _ _ _
  | rawTerminalInput target revision dataBase64 => exact rawTerminalInput_outcome c d now _ _ _
  | interruptTerminal target revision => exact writeFixedTerminalBytes_outcome c d now rfl rfl _
  | terminalResize target revision dimensions => exact resizeTerminal_outcome c d now _ _ _
  | setTerminalSizePin target revision pinned => exact setTerminalSizePin_outcome c d now _ _ _
  | terminalKey target revision key => exact writeFixedTerminalBytes_outcome c d now rfl rfl _
  | createProject app revision project cwd => exact createProject_outcome c d now _ _ _ _
  | createSession app revision project kind cwd prompt =>
    exact createSession_outcome c d now _ _ _ _ _ _
  | resumeSession app revision project provider id cwd =>
    exact resumeSession_outcome c d now _ _ _ _ _ _
  | createTask app revision project text => exact createTask_outcome c d now _ _ _ _
  | deleteTask app revision project task => exact deleteTask_outcome c d now _ _ _ _
  | launchTask app revision project task provider => exact launchTask_outcome c d now _ _ _ _ _
  | createSection target revision name => exact createSection_outcome c d now _ _ _
  | setTabSection target revision sectionId => exact setTabSection_outcome c d now _ _ _
  | quickInsertPreview target revision itemId configurationRevision =>
    exact quickInsertPreview_outcome c d now ⟨rfl, rfl⟩ _ _ _
  | quickInsertSubmit target revision itemId configurationRevision =>
    exact quickInsertSubmit_outcome c d now _ _ _ _
  | uploadBegin u => exact beginUpload_outcome c d now u
  | uploadCommit uploadId => exact .refused (refused_refuse _ _ _ _ a) fun _ => rfl
  | uploadCancel uploadId => exact .refused (refused_refuse _ _ _ _ a) fun _ => rfl
  | unpairDevice => exact .refused (refused_refuse _ _ _ _ a) fun _ => rfl
  | disconnect => exact .read ⟨rfl, rfl⟩ (.reply _ _ _)

end WorkspaceAdapter

end Clinch
