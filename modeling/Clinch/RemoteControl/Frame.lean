import Clinch.RemoteControl.Leases

/-!
# What requests leave alone, and what they report

* `Same`: the calls of a connection leave the connected sessions and the remembered answers as they
  are;
* `Reports`: an answer carries the revision that the adapter has after it;
* `execute_stale`: a command that names another revision is refused.
-/

set_option autoImplicit false

namespace Clinch

/-- The revision that a message carries. -/
def ServerMessage.carried : ServerMessage → Option ℕ
  | snapshot s | workspaceChanged s => some s.revision
  | terminalSnapshot _ _ revision _ => some revision
  | commandAccepted revision => some revision
  | error e => e.currentRevision
  | _ => none

def ServerMessage.isSnapshot : ServerMessage → Bool
  | snapshot _ => true
  | _ => false

/-- The plan is for the upload that the message declares. -/
structure UploadPlan.Declared (plan : UploadPlan) (u : UploadBegin) : Prop where
  target : plan.target = u.target
  filename : plan.filename = u.filename
  size : plan.size = u.size
  sha256 : plan.sha256 = u.sha256.map Char.toLower

namespace WorkspaceAdapter

variable {c : Crates} {d : Desktop} {now : DateTime} {a a' a'' : WorkspaceAdapter}
  {requestId : RequestId} {authorization : SessionAuthorization} {m : ClientMessage}

/-- The connected sessions and the remembered answers are unchanged. -/
structure Same (a a' : WorkspaceAdapter) : Prop where
  connectedSessions : a'.connectedSessions = a.connectedSessions
  idempotency : a'.idempotency = a.idempotency

theorem Same.refl (a : WorkspaceAdapter) : Same a a := ⟨rfl, rfl⟩

theorem Same.trans (h : Same a a') (h' : Same a' a'') : Same a a'' :=
  ⟨h'.connectedSessions.trans h.connectedSessions, h'.idempotency.trans h.idempotency⟩

theorem Quiet.same (h : Quiet a a') : Same a a' := ⟨h.connectedSessions, h.idempotency⟩

theorem Granted.same {key : TargetKey} (h : Granted now key authorization a a') : Same a a' :=
  ⟨h.connectedSessions, h.idempotency⟩

/-- What a loop that releases panes leaves as it is. -/
structure SameRevision (a a' : WorkspaceAdapter) : Prop extends Same a a' where
  revision : a'.revision = a.revision
  lastTopologyFingerprint : a'.lastTopologyFingerprint = a.lastTopologyFingerprint

theorem SameRevision.refl (a : WorkspaceAdapter) : SameRevision a a := ⟨.refl a, rfl, rfl⟩

theorem SameRevision.trans (h : SameRevision a a') (h' : SameRevision a' a'') :
    SameRevision a a'' :=
  ⟨h.toSame.trans h'.toSame, h'.revision.trans h.revision,
    h'.lastTopologyFingerprint.trans h.lastTopologyFingerprint⟩

theorem Quiet.sameRevision (h : Quiet a a') : SameRevision a a' :=
  ⟨h.same, h.revision, h.lastTopologyFingerprint⟩

theorem Granted.sameRevision {key : TargetKey} (h : Granted now key authorization a a') :
    SameRevision a a' := ⟨h.same, h.revision, h.lastTopologyFingerprint⟩

theorem sameRevision_releasePaneControl (key : TargetKey) (a : WorkspaceAdapter) :
    SameRevision a (a.releasePaneControl key) := ⟨⟨rfl, rfl⟩, rfl, rfl⟩

theorem sameRevision_pruneLease (c : Crates) (d : Desktop) (key : TargetKey)
    (a : WorkspaceAdapter) : SameRevision a (a.pruneLease c d key) :=
  (sameRevision_releasePaneControl key a).trans (quiet_restoreDesktopSize c d key _).sameRevision

theorem sameRevision_pruneWriterLeases (c : Crates) (d : Desktop) (now : DateTime)
    (a : WorkspaceAdapter) : SameRevision a (a.pruneWriterLeases c d now) :=
  foldl_induct (fun b key h => h.trans (sameRevision_pruneLease c d key b)) _ (.refl a)

/-- The beginning of `snapshot`. -/
theorem sameRevision_reclaim (c : Crates) (d : Desktop) (now : DateTime) (a : WorkspaceAdapter) :
    SameRevision a ((a.pruneWriterLeases c d now).reclaimDesktopSizes c d) :=
  (sameRevision_pruneWriterLeases c d now a).trans (quiet_reclaimDesktopSizes c d _).sameRevision

theorem same_snapshot (c : Crates) (d : Desktop) (now : DateTime) (a : WorkspaceAdapter) :
    Same a (a.snapshot c d now).2 :=
  (sameRevision_reclaim c d now a).toSame.trans ⟨rfl, rfl⟩

theorem sameRevision_preempt (c : Crates) (d : Desktop) (terminal : EntityId)
    (a : WorkspaceAdapter) : SameRevision a (a.preemptWriterForDesktopInput c d terminal) := by
  rw [preemptWriterForDesktopInput]
  split
  · exact .refl a
  · exact (foldl_induct (P := SameRevision a) (fun b key h =>
      h.trans (sameRevision_releasePaneControl key b)) _ (.refl a)).trans
      (Quiet.perform_one _ id).sameRevision

theorem sameRevision_completeUpload (c : Crates) (d : Desktop) (now : DateTime)
    (completion : UploadCompletion) (a : WorkspaceAdapter) :
    SameRevision a (a.completeUpload c d now completion).2 := by
  rcases completeUpload_cases c d now completion a with
    ⟨h, -, -⟩ | ⟨b, hb, -, ⟨envelope, he, heq⟩ | ⟨lease, he, h⟩⟩
  · exact h.sameRevision
  · rw [heq]
    exact (hb.trans (quiet_of_error he).2.1).sameRevision
  · exact (hb.sameRevision.trans (granted_of_ok he).2.sameRevision).trans h.sameRevision

/-- A request leaves the revision alone, or is a mutation or a snapshot. -/
theorem outcome_revision {r : AdapterReply × WorkspaceAdapter}
    (h : Outcome c d now a requestId authorization m r) : SameRevision a r.2 ∨
      (m.isMutation = true ∧ ∃ b, Quiet a b ∧ r = b.bumpTopologyRevision.accept requestId) ∨
      (m = .requestSnapshot ∧
        r = (a.snapshot c d now).2.reply requestId (.snapshot (a.snapshot c d now).1)) := by
  cases h with
  | refused h _ => exact Or.inl h.1.sameRevision
  | read _ h => exact Or.inl h.sameRevision
  | mutation hm _ h => exact Or.inr (Or.inl ⟨hm, _, h, rfl⟩)
  | snapshot hm => exact Or.inr (Or.inr ⟨hm, rfl⟩)
  | release _ h =>
    refine Or.inl (SameRevision.trans ?_ h.sameRevision)
    split
    · exact sameRevision_pruneLease c d _ a
    · exact .refl a
  | blocked _ h _ he => exact Or.inl (h.trans (quiet_of_error he).2.1).sameRevision
  | written _ _ h he h' =>
    exact Or.inl ((h.sameRevision.trans (granted_of_ok he).2.sameRevision).trans h'.sameRevision)
  | resized _ _ h he _ =>
    exact Or.inl ((h.sameRevision.trans (granted_of_ok he).2.sameRevision).trans ⟨⟨rfl, rfl⟩, rfl, rfl⟩)
  | pin _ h he h' =>
    have hg := (h.sameRevision.trans (granted_of_ok he).2.sameRevision)
    exact Or.inl (hg.trans ⟨⟨h'.connectedSessions, h'.idempotency⟩, h'.revision,
      h'.lastTopologyFingerprint⟩)

theorem outcome_same {r : AdapterReply × WorkspaceAdapter}
    (h : Outcome c d now a requestId authorization m r) : Same a r.2 := by
  rcases outcome_revision h with h | ⟨-, b, hb, rfl⟩ | ⟨-, rfl⟩
  · exact h.toSame
  · exact ⟨hb.connectedSessions, hb.idempotency⟩
  · exact (same_snapshot c d now a).trans (Quiet.reply _ _ _).same

/-! ## What an answer reports -/

/-- The answer carries no other revision than the adapter's, is no snapshot, and plans an upload only if
the message declares it. -/
structure Reports (m : ClientMessage) (r : AdapterReply × WorkspaceAdapter) : Prop where
  carried : ∀ n, r.1.envelope.payload.carried = some n → n = r.2.revision
  isSnapshot : r.1.envelope.payload.isSnapshot = false
  uploadPlan : ∀ plan, r.1.uploadPlan = some plan →
    ∃ u, m = .uploadBegin u ∧ plan.Declared u

theorem reports_refuse (requestId : RequestId) (code : ProtocolErrorCode) (message : String)
    (retryable : Bool) (a : WorkspaceAdapter) : Reports m (a.refuse requestId code message retryable) :=
  ⟨fun _ h => (Option.some.inj h).symm, rfl, nofun⟩

theorem reports_accept (requestId : RequestId) (a : WorkspaceAdapter) :
    Reports m (a.accept requestId) := ⟨fun _ h => (Option.some.inj h).symm, rfl, nofun⟩

theorem reports_reply (requestId : RequestId) {payload : ServerMessage} (a : WorkspaceAdapter)
    (h : payload.carried = none) (h' : payload.isSnapshot = false) :
    Reports m (a.reply requestId payload) := by
  refine ⟨fun n hn => ?_, h', nofun⟩
  exact nomatch h.symm.trans hn

theorem withTarget_reports {target : TargetRef} {expectedRevision : Option ℕ}
    {k : ResolvedTarget → WorkspaceAdapter → AdapterReply × WorkspaceAdapter}
    (hk : ∀ resolved b, Reports m (k resolved b)) :
    Reports m (a.withTarget c d requestId target expectedRevision k) := by
  rw [withTarget]
  split
  · exact reports_refuse _ _ _ _ _
  · exact hk _ _

theorem ensureWriter_reports {target : TargetRef} {requestId : Option RequestId} {takeover : Bool}
    {envelope : ServerEnvelope}
    (h : (a.ensureWriter now target authorization requestId takeover).1 = .error envelope) :
    Reports m (.ofEnvelope envelope,
      (a.ensureWriter now target authorization requestId takeover).2) := by
  rw [ensureWriter] at h ⊢
  generalize a.dropExpired now target.key = b at h ⊢
  rw [contend] at h ⊢
  cases hl : b.writerLeases.get target.key with
  | none =>
    rw [hl] at h
    cases h
  | some lease =>
    rw [hl] at h
    simp only at h ⊢
    split at h
    · rename_i hb
      rw [if_pos hb]
      obtain rfl := Except.error.inj h
      exact ⟨fun _ h => (Option.some.inj h).symm, rfl, fun _ hplan => by cases hplan⟩
    · cases h

theorem withWriter_reports {target : TargetRef} {expectedRevision : Option ℕ} {takeover : Bool}
    {k : ResolvedTarget → WriterLeaseSnapshot → WorkspaceAdapter → AdapterReply × WorkspaceAdapter}
    (hk : ∀ resolved lease b, Reports m (k resolved lease b)) :
    Reports m (a.withWriter c d now requestId target expectedRevision authorization takeover k) := by
  refine withTarget_reports fun resolved b => ?_
  split
  · rename_i envelope b' he
    have h := congrArg Prod.fst he
    rw [← show _ = b' from congrArg Prod.snd he]
    exact ensureWriter_reports h
  · exact hk _ _ _

theorem withProject_reports {appInstanceId : AppInstanceId} {projectId : String}
    {expectedRevision : Option ℕ}
    {k : Project → WorkspaceAdapter → AdapterReply × WorkspaceAdapter}
    (hk : ∀ project b, Reports m (k project b)) :
    Reports m (a.withProject d requestId appInstanceId projectId expectedRevision k) := by
  rw [withProject]
  split
  · exact reports_refuse _ _ _ _ _
  · exact hk _ _

theorem reports_acceptMutation (requestId : RequestId) (a : WorkspaceAdapter) :
    Reports m (a.acceptMutation requestId) := reports_accept requestId _

theorem beginUpload_reports (u : UploadBegin) : Reports (.uploadBegin u)
    (a.beginUpload c d now requestId u authorization) := by
  refine withWriter_reports fun resolved lease b => ?_
  split
  · exact reports_refuse _ _ _ _ _
  · refine ⟨nofun, rfl, fun plan hp => ⟨u, rfl, ?_⟩⟩
    obtain rfl := Option.some.inj hp
    exact ⟨rfl, rfl, rfl, rfl⟩

theorem writeFixedTerminalBytes_reports (target : TargetRef) (revision : ℕ) (bytes : List UInt8) :
    Reports m (a.writeFixedTerminalBytes c d now requestId target revision bytes authorization) :=
  withWriter_reports fun _ _ _ => reports_accept _ _

variable (c d now a requestId authorization) in
/-- **An answer carries no other revision than the adapter's.** -/
theorem execute_reports (hm : m ≠ .requestSnapshot) :
    Reports m (a.execute c d now requestId authorization m) := by
  cases m with
  | ping => exact reports_reply _ _ rfl rfl
  | requestSnapshot => exact absurd rfl hm
  | selectTarget target revision =>
    refine withTarget_reports fun resolved b => ?_
    split
    · exact reports_refuse _ _ _ _ _
    · exact ⟨fun _ h => (Option.some.inj h).symm, rfl, nofun⟩
  | acquireWriterLease target revision takeover =>
    exact withWriter_reports fun _ _ _ => reports_reply _ _ rfl rfl
  | releaseWriterLease target => exact reports_reply _ _ rfl rfl
  | submitComposerText target revision text =>
    refine withWriter_reports fun resolved lease b => ?_
    simp only
    split
    · exact reports_refuse _ _ _ _ _
    · exact reports_accept _ _
  | rawTerminalInput target revision dataBase64 =>
    refine withWriter_reports fun resolved lease b => ?_
    split
    · exact reports_refuse _ _ _ _ _
    · exact reports_accept _ _
  | interruptTerminal target revision => exact writeFixedTerminalBytes_reports _ _ _
  | terminalResize target revision dimensions =>
    refine withWriter_reports fun resolved lease b => ?_
    split <;> exact reports_accept _ _
  | setTerminalSizePin target revision pinned =>
    exact withWriter_reports fun _ _ _ => reports_accept _ _
  | terminalKey target revision key => exact writeFixedTerminalBytes_reports _ _ _
  | createProject app revision project cwd =>
    rw [execute, createProject]
    refine withProject_reports fun anchor b => ?_
    split
    · exact reports_refuse _ _ _ _ _
    · simp only
      split
      · exact reports_refuse _ _ _ _ _
      · exact reports_acceptMutation _ _
  | createSession app revision project kind cwd prompt =>
    rw [execute, createSession]
    refine withProject_reports fun project b => ?_
    split
    · exact reports_refuse _ _ _ _ _
    · exact reports_acceptMutation _ _
  | resumeSession app revision project provider id cwd =>
    rw [execute, resumeSession]
    refine withProject_reports fun project b => ?_
    split
    · exact reports_refuse _ _ _ _ _
    · simp only
      split
      · exact reports_refuse _ _ _ _ _
      · exact reports_acceptMutation _ _
  | createTask app revision project text =>
    rw [execute, createTask]
    refine withProject_reports fun project b => ?_
    simp only
    split
    · exact reports_refuse _ _ _ _ _
    · exact reports_acceptMutation _ _
  | deleteTask app revision project task =>
    rw [execute, deleteTask]
    refine withProject_reports fun project b => ?_
    simp only
    split
    · exact reports_refuse _ _ _ _ _
    · exact reports_acceptMutation _ _
  | launchTask app revision project task provider =>
    rw [execute, launchTask]
    refine withProject_reports fun project b => ?_
    split
    · exact reports_refuse _ _ _ _ _
    · simp only
      split
      · exact reports_refuse _ _ _ _ _
      · exact reports_acceptMutation _ _
  | createSection target revision name =>
    refine withTarget_reports fun resolved b => ?_
    simp only
    split
    · exact reports_refuse _ _ _ _ _
    · split
      · exact reports_refuse _ _ _ _ _
      · exact reports_acceptMutation _ _
  | setTabSection target revision sectionId =>
    refine withTarget_reports fun resolved b => ?_
    split
    · exact reports_refuse _ _ _ _ _
    · split
      · exact reports_refuse _ _ _ _ _
      · exact reports_acceptMutation _ _
    · exact reports_acceptMutation _ _
  | quickInsertPreview target revision itemId configurationRevision =>
    refine withTarget_reports fun resolved b => ?_
    split
    · exact reports_refuse _ _ _ _ _
    · exact reports_reply _ _ rfl rfl
  | quickInsertSubmit target revision itemId configurationRevision =>
    refine withWriter_reports fun resolved lease b => ?_
    split
    · exact reports_refuse _ _ _ _ _
    · simp only
      split
      · exact reports_refuse _ _ _ _ _
      · exact reports_accept _ _
  | uploadBegin u => exact beginUpload_reports u
  | uploadCommit uploadId => exact reports_refuse _ _ _ _ _
  | uploadCancel uploadId => exact reports_refuse _ _ _ _ _
  | unpairDevice => exact reports_refuse _ _ _ _ _
  | disconnect => exact reports_accept _ _

/-! ## Stale commands -/

theorem withTarget_stale (target : TargetRef) {revision : ℕ} (h : revision ≠ a.revision)
    (k : ResolvedTarget → WorkspaceAdapter → AdapterReply × WorkspaceAdapter) :
    ∃ error, a.withTarget c d requestId target (some revision) k =
      a.targetError requestId error := by
  rw [withTarget]
  rcases resolveValidTarget_cases (a := a) c d target (some revision) with
    ⟨e, he⟩ | ⟨resolved, -, hrev, -⟩
  · rw [he]
    exact ⟨e, rfl⟩
  · exact absurd (hrev revision rfl) h

theorem withProject_stale (appInstanceId : AppInstanceId) (projectId : String) {revision : ℕ}
    (h : revision ≠ a.revision)
    (k : Project → WorkspaceAdapter → AdapterReply × WorkspaceAdapter) :
    ∃ error, a.withProject d requestId appInstanceId projectId (some revision) k =
      a.targetError requestId error := by
  rw [withProject]
  split
  · exact ⟨_, rfl⟩
  · rename_i project hp
    exact absurd (resolveValidProject_revision d hp revision rfl) h

variable (c d now a requestId authorization) in
/-- **A command that names another revision is refused, and nothing is asked of the desktop.** -/
theorem execute_stale {revision : ℕ} (hm : m.expectedRevision = some revision)
    (h : revision ≠ a.revision) : ∃ error, a.execute c d now requestId authorization m =
      a.targetError requestId error := by
  cases m with
  | submitComposerText target r text =>
    obtain rfl := Option.some.inj hm
    exact withTarget_stale target h _
  | rawTerminalInput target r dataBase64 =>
    obtain rfl := Option.some.inj hm
    exact withTarget_stale target h _
  | interruptTerminal target r =>
    obtain rfl := Option.some.inj hm
    exact withTarget_stale target h _
  | terminalKey target r key =>
    obtain rfl := Option.some.inj hm
    exact withTarget_stale target h _
  | quickInsertSubmit target r itemId configurationRevision =>
    obtain rfl := Option.some.inj hm
    exact withTarget_stale target h _
  | uploadBegin u =>
    obtain rfl := Option.some.inj hm
    exact withTarget_stale u.target h _
  | createSection target r name =>
    obtain rfl := Option.some.inj hm
    exact withTarget_stale target h _
  | setTabSection target r sectionId =>
    obtain rfl := Option.some.inj hm
    exact withTarget_stale target h _
  | createTask app r project text =>
    obtain rfl := Option.some.inj hm
    rw [execute, createTask]
    exact withProject_stale app project h _
  | deleteTask app r project task =>
    obtain rfl := Option.some.inj hm
    rw [execute, deleteTask]
    exact withProject_stale app project h _
  | launchTask app r project task provider =>
    obtain rfl := Option.some.inj hm
    rw [execute, launchTask]
    exact withProject_stale app project h _
  | _ => exact nomatch hm

end WorkspaceAdapter

end Clinch
