import Clinch.RemoteControl.Connection

/-!
# Uploads are all or nothing

What a message can do to the files and to the upload of a connection, and what follows for a run of
messages, ended at any point.

* `UploadStep`: a message leaves the files alone, or drops, stages, continues or publishes the upload;
* `step_uploadStep`: there is nothing else;
* `Received`: the active upload is the chunks that arrived since it began;
* `uploads_safe`: the main result.
-/

set_option autoImplicit false

namespace Clinch

/-- A commit names the upload, it has the declared size and digest, and its path is inserted. -/
structure Commits (c : Crates) (k : Crypto) (u : ActiveUpload) (path : String)
    (s : Connection) (e : ConnectionEvent) : Prop where
  named : ∃ d now io authorization envelope, e = .text d now io authorization envelope ∧
    envelope.payload = .uploadCommit u.plan.uploadId ∧ ∃ a, s.workspace = some a ∧
      (a.completeUpload c d now ⟨some envelope.requestId, u.plan.uploadId, u.plan.target,
        u.plan.destinationDirectory, path, authorization⟩).1.payload.isError = false
  size : u.received = u.plan.size
  sha256 : k.hexEncode (k.sha256 u.digest) = u.plan.sha256

/-- The message declares the upload. -/
def Begins (u : ActiveUpload) (e : ConnectionEvent) : Prop :=
  ∃ d now io authorization envelope m, e = .text d now io authorization envelope ∧
    envelope.payload = .uploadBegin m ∧ u.plan.Declared m

/-- The chunk of a binary message. -/
def ConnectionEvent.frame? : ConnectionEvent → Option UploadChunkFrame
  | binary _ _ bytes => match decodeUploadChunk bytes with
    | .ok (.ok frame) => some frame
    | _ => none
  | _ => none

/-- What a message does to the upload and the files. -/
inductive UploadStep (c : Crates) (k : Crypto) (e : ConnectionEvent) (s s' : Connection) : Prop
  | idle (hu : s'.activeUpload = s.activeUpload) (he : s.activeUpload ≠ none → e.frame? = none)
    (hf : ∀ path, s'.files.get path = s.files.get path)
  | dropped {u : ActiveUpload} (h : s.activeUpload = some u) (hu : s'.activeUpload = none)
    (hf : Unstaged u.stagingPath s.files s'.files)
  | staged {u : ActiveUpload} (h : s.activeUpload = none) (hu : s'.activeUpload = some u)
    (hb : Begins u e) (hnew : s.files.get u.stagingPath = none)
    (hempty : u.nextChunkIndex = 0 ∧ u.received = 0 ∧ u.digest = [])
    (hf : ∀ path, s'.files.get path =
      if path = u.stagingPath then some [] else s.files.get path)
  | wrote {u : ActiveUpload} {frame : UploadChunkFrame} (h : s.activeUpload = some u)
    (he : e.frame? = some frame) (hid : frame.uploadId = u.plan.uploadId)
    (hindex : frame.chunkIndex = u.nextChunkIndex)
    (hu : s'.activeUpload = some { u with
      digest := u.digest ++ frame.payload
      received := u.received + frame.payload.length
      nextChunkIndex := u.nextChunkIndex + 1 })
    (hf : ∀ path, s'.files.get path = if path = u.stagingPath then
      (s.files.get path).map (· ++ frame.payload) else s.files.get path)
  | published {u : ActiveUpload} {path : String} {content : List UInt8}
    (h : s.activeUpload = some u) (hu : s'.activeUpload = none) (hc : Commits c k u path s e)
    (hf : Published u.stagingPath path content s.files s'.files)

namespace Connection

variable {c : Crates} {k : Crypto} {sessionId : AuthSessionId} {e : ConnectionEvent}
  {s s' s'' : Connection}

theorem dropUpload_spec (s : Connection) : (s.activeUpload = none ∧ s.dropUpload = s) ∨
    ∃ u, s.activeUpload = some u ∧ s.dropUpload.activeUpload = none ∧
      Unstaged u.stagingPath s.files s.dropUpload.files := by
  rw [dropUpload]
  split
  · rename_i u h
    exact Or.inr ⟨u, h, rfl, unstaged_cleanup _ _⟩
  · rename_i h
    exact Or.inl ⟨h, rfl⟩

/-- The upload and the files are those of another state. -/
def SameUpload (s s' : Connection) : Prop :=
  s'.activeUpload = s.activeUpload ∧ s'.files = s.files

theorem uploadStep_congr (h : UploadStep c k e s s') (h' : SameUpload s' s'') :
    UploadStep c k e s s'' := by
  obtain ⟨hu', hf'⟩ := h'
  cases h with
  | idle hu he hf => exact .idle (hu'.trans hu) he (hf' ▸ hf)
  | dropped h hu hf => exact .dropped h (hu'.trans hu) (hf' ▸ hf)
  | staged h hu hb hnew hempty hf => exact .staged h (hu'.trans hu) hb hnew hempty (hf' ▸ hf)
  | wrote h he hid hindex hu hf => exact .wrote h he hid hindex (hu'.trans hu) (hf' ▸ hf)
  | published h hu hc hf => exact .published h (hu'.trans hu) hc (hf' ▸ hf)

/-- An upload may be dropped after the step. -/
theorem uploadStep_dropUpload (h : UploadStep c k e s s') : UploadStep c k e s s'.dropUpload := by
  rcases dropUpload_spec s' with ⟨-, heq⟩ | ⟨u', hu', hnone, huns⟩
  · rwa [heq]
  cases h with
  | idle hu he hf =>
    rw [hu] at hu'
    refine .dropped hu' hnone fun path => ?_
    rw [huns, hf]
  | dropped h hu hf => exact nomatch hu.symm.trans hu'
  | staged h hu hb hnew hempty hf =>
    obtain rfl := Option.some.inj (hu.symm.trans hu')
    refine .idle (hnone.trans h.symm) (fun hne => absurd h hne) fun path => ?_
    rw [huns, hf]
    split
    · rename_i hp
      rw [hp, hnew]
    · rfl
  | wrote h he hid hindex hu hf =>
    obtain rfl := Option.some.inj (hu.symm.trans hu')
    refine .dropped h hnone fun path => ?_
    rw [huns, hf]
    simp only
    split <;> rfl
  | published h hu hc hf => exact nomatch hu.symm.trans hu'

theorem uploadStep_teardown (now : DateTime) (h : UploadStep c k e s s') :
    UploadStep c k e s (s'.teardown sessionId now) :=
  uploadStep_congr (uploadStep_dropUpload h) ⟨rfl, rfl⟩

theorem uploadStep_send (now : DateTime) (io : Io) (envelope : ServerEnvelope)
    (h : UploadStep c k e s s') : UploadStep c k e s (s'.send sessionId now io envelope) := by
  have hpush : UploadStep c k e s (s'.push envelope) := uploadStep_congr h ⟨rfl, rfl⟩
  rw [send]
  split
  · exact hpush
  · exact uploadStep_teardown now hpush

theorem uploadStep_refl (he : e.frame? = none) (s : Connection) : UploadStep c k e s s :=
  .idle rfl (fun _ => he) fun _ => rfl

theorem uploadStep_rejectUpload (now : DateTime) (io : Io) (requestId : Option RequestId)
    (message : String) (s : Connection) :
    UploadStep c k e s (s.rejectUpload sessionId now io requestId message) := by
  refine uploadStep_send now io _ ?_
  rcases dropUpload_spec s with ⟨hnone, heq⟩ | ⟨u, hu, hnone, huns⟩
  · rw [heq]
    exact .idle rfl (fun h => absurd hnone h) fun _ => rfl
  · exact .dropped hu hnone huns

/-! ## The messages -/

variable {d : Desktop} {now : DateTime} {io : Io} {authorization : SessionAuthorization}
  {envelope : ClientEnvelope}

/-- The adapter plans an upload only if the message declares it. -/
theorem handleEnvelope_uploadPlan {a : WorkspaceAdapter} {plan : UploadPlan}
    (h : (a.handleEnvelope c d now envelope authorization).1.uploadPlan = some plan) :
    ∃ m, envelope.payload = .uploadBegin m ∧ plan.Declared m := by
  rcases WorkspaceAdapter.handleEnvelope_cases c d now envelope authorization a with
    ⟨error, he⟩ | ⟨cached, -, he⟩ | ⟨-, he⟩ | ⟨-, r, hr, he⟩
  · rw [he] at h
    exact nomatch h
  · rw [he] at h
    exact nomatch h
  · rw [he] at h
    exact nomatch h
  · rw [he] at h
    by_cases hm : envelope.payload = .requestSnapshot
    · rw [hm] at hr
      rw [hr] at h
      exact nomatch h
    · have hrep := WorkspaceAdapter.execute_reports c d now a envelope.requestId
        authorization hm
      rw [← hr] at hrep
      exact hrep.uploadPlan plan h

theorem uploadStep_handle (h : s.activeUpload = none ∨ ∀ m, envelope.payload ≠ .uploadBegin m) :
    UploadStep c k (.text d now io authorization envelope) s
      (s.handle c sessionId d now io envelope authorization) := by
  rw [handle]
  split
  · exact uploadStep_send now io _ (uploadStep_refl rfl s)
  · rename_i a ha
    simp only
    refine uploadStep_send now io _ ?_
    rw [stage]
    split
    · exact .idle rfl (fun _ => rfl) fun _ => rfl
    · rename_i plan hplan
      obtain ⟨m, hm, hdecl⟩ := handleEnvelope_uploadPlan hplan
      have hnone := h.resolve_right fun h => h m hm
      simp only [stageUpload, FileSystem.createNew]
      split
      · rename_i u files hs
        split at hs
        · exact nomatch congrArg (fun r => r.1.toOption) hs
        · rename_i files' hc
          obtain ⟨hu, rfl⟩ := Prod.mk.inj hs
          obtain rfl := Except.ok.inj hu
          split at hc
          · exact nomatch hc
          · exact nomatch hc
          · rename_i hnew _
            obtain rfl := Except.ok.inj hc
            refine .staged hnone rfl ⟨d, now, io, authorization, envelope, m, rfl, hm, hdecl⟩ hnew
              ⟨rfl, rfl, rfl⟩ fun path => HashMap.get_insert _ _ _ _
      · rename_i message files hs
        split at hs
        · obtain ⟨-, rfl⟩ := Prod.mk.inj hs
          exact .idle rfl (fun _ => rfl) fun _ => rfl
        · exact nomatch congrArg (fun r => r.1.toOption) hs

theorem uploadStep_uploadCancel (he : e.frame? = none) (requestId : RequestId)
    (uploadId : UploadId) (s : Connection) :
    UploadStep c k e s (s.uploadCancel sessionId now io requestId uploadId) := by
  refine uploadStep_send now io _ ?_
  split
  · exact uploadStep_dropUpload (uploadStep_refl he s)
  · exact uploadStep_refl he s

theorem uploadStep_uploadCommit {uploadId : UploadId}
    (hm : envelope.payload = .uploadCommit uploadId) (s : Connection) :
    UploadStep c k (.text d now io authorization envelope) s
      (s.uploadCommit c k sessionId d now io envelope.requestId authorization uploadId) := by
  rw [uploadCommit]
  split
  · exact uploadStep_send now io _ (uploadStep_refl rfl s)
  rename_i u hu
  split
  · exact uploadStep_rejectUpload now io _ _ s
  rename_i hid
  simp only
  rcases finalizeUpload_spec k io.mac u s.files with
    ⟨path, content, hok, hsize, hsha, hpub⟩ | ⟨⟨error, herr⟩, huns⟩
  · rw [hok]
    simp only [published]
    refine uploadStep_send now io _ ?_
    have hinsert {response : ServerEnvelope} {workspace : Option WorkspaceAdapter}
        (hc : response.payload.isError = false →
          Commits c k u path s (.text d now io authorization envelope)) :
        UploadStep c k (.text d now io authorization envelope) s
          { s with
            workspace := workspace
            activeUpload := none
            files := if response.payload.isError then
                (finalizeUpload k io.mac u s.files).2.remove path
              else (finalizeUpload k io.mac u s.files).2
            completedUploadRequests :=
              rememberCompleted io envelope.requestId response s.completedUploadRequests } := by
      cases herr : response.payload.isError with
      | false => exact .published hu rfl (hc herr) hpub
      | true =>
        -- the published file is removed again, so only the staging file is gone
        obtain ⟨hne, hnone, -, hget⟩ := hpub
        refine .dropped hu rfl fun path' => ?_
        simp only [if_true]
        by_cases hp : path' = path
        · rw [hp, HashMap.get_remove_self, if_neg hne, hnone]
        · rw [HashMap.get_remove_of_ne _ hp, hget, if_neg hp]
    cases hw : s.workspace with
    | none =>
      rw [complete]
      exact hinsert fun h => by cases h
    | some a =>
      rw [complete]
      refine hinsert fun h => ⟨⟨d, now, io, authorization, envelope, rfl, ?_, a, hw, h⟩, hsize, hsha⟩
      rw [hm, not_not.mp hid]
  · rw [herr]
    exact uploadStep_send now io _ (.dropped hu rfl huns)

theorem uploadStep_receiveText (d : Desktop) (now : DateTime) (io : Io)
    (authorization : SessionAuthorization) (envelope : ClientEnvelope) (s : Connection) :
    UploadStep c k (.text d now io authorization envelope) s
      (s.receiveText c k sessionId d now io authorization envelope) := by
  have hrefl : UploadStep c k (.text d now io authorization envelope) s s := uploadStep_refl rfl s
  rw [receiveText]
  split
  · exact uploadStep_teardown now hrefl
  · rw [unpairDevice]
    split
    · exact uploadStep_teardown now (uploadStep_congr hrefl ⟨rfl, rfl⟩)
    · exact uploadStep_send now io _ hrefl
  · exact uploadStep_send now io _ hrefl
  · exact uploadStep_uploadCancel rfl _ _ s
  · rename_i hm _
    exact uploadStep_uploadCommit hm s
  · split
    · exact uploadStep_send now io _ hrefl
    · rename_i hnone
      exact uploadStep_handle (Or.inl (by simpa using hnone))
  · rename_i hbegin
    exact uploadStep_handle (Or.inr fun m hm => hbegin m hm)

theorem uploadStep_receiveBinary (now : DateTime) (io : Io) (bytes : List UInt8) (s : Connection) :
    UploadStep c k (.binary now io bytes) s (s.receiveBinary sessionId now io bytes) := by
  rw [receiveBinary]
  split
  · rename_i frame hdec
    have hframe : (ConnectionEvent.binary now io bytes).frame? = some frame := by
      rw [ConnectionEvent.frame?, hdec]
    split
    · rename_i hnone
      exact uploadStep_send now io _ (.idle rfl (fun h => absurd hnone h) fun _ => rfl)
    · rename_i u hu
      split
      · exact uploadStep_rejectUpload now io _ _ s
      · rename_i hchunk
        push Not at hchunk
        split
        · exact uploadStep_rejectUpload now io _ _ s
        · refine uploadStep_send now io _ ?_
          refine .wrote hu hframe hchunk.1 hchunk.2.1 rfl fun path => ?_
          rw [FileSystem.append]
          split
          · rename_i content hget
            rw [HashMap.get_insert]
            split
            · rename_i hp
              rw [hp, hget]
              rfl
            · rfl
          · rename_i hget
            split
            · rename_i hp
              rw [hp, hget]
              rfl
            · rfl
  · exact uploadStep_rejectUpload now io _ _ s

variable (c k sessionId) in
/-- **An event other than a change by another program drops, stages, continues or publishes the upload,
or leaves the files alone.** -/
theorem step_uploadStep (hclosed : s.closed = true → s.activeUpload = none)
    (he : ∀ path content, e ≠ .outside path content) :
    UploadStep c k e s (s.step c k sessionId e) := by
  cases e with
  | adapter d now e => exact .idle rfl (fun _ => rfl) fun _ => rfl
  | outside path content => exact absurd rfl (he path content)
  | drop => exact .idle rfl (fun _ => rfl) fun _ => rfl
  | text d now io authorization envelope =>
    rw [step]
    split
    · exact uploadStep_refl rfl s
    · exact uploadStep_receiveText d now io authorization envelope s
  | garbled now io =>
    rw [step]
    split
    · exact uploadStep_refl rfl s
    · exact uploadStep_send now io _ (uploadStep_refl rfl s)
  | binary now io bytes =>
    rw [step]
    split
    · rename_i hc
      exact .idle rfl (fun h => absurd (hclosed hc) h) fun _ => rfl
    · exact uploadStep_receiveBinary now io bytes s
  | poll d now io changed =>
    rw [step]
    split
    · exact uploadStep_refl rfl s
    · rw [poll]
      split
      · exact uploadStep_refl rfl s
      · simp only
        split
        · exact .idle rfl (fun _ => rfl) fun _ => rfl
        · exact uploadStep_send now io _ (.idle rfl (fun _ => rfl) fun _ => rfl)
  | close now =>
    rw [step]
    split
    · exact uploadStep_refl rfl s
    · exact uploadStep_teardown now (uploadStep_refl rfl s)

/-! ## The end of the loop -/

/-- A loop that ended has no upload. -/
def Ended (s : Connection) : Prop := s.closed = true → s.activeUpload = none

theorem ended_of_open (h : s.closed = false) : s.Ended := fun hc => nomatch h.symm.trans hc

theorem ended_teardown (now : DateTime) (s : Connection) : (s.teardown sessionId now).Ended := by
  intro _
  rcases dropUpload_spec s with ⟨hnone, heq⟩ | ⟨u, -, hnone, -⟩
  · rw [teardown, heq]
    exact hnone
  · exact hnone

theorem ended_send (now : DateTime) (io : Io) (envelope : ServerEnvelope) (h : s.closed = false) :
    (s.send sessionId now io envelope).Ended := by
  rw [send]
  split
  · exact ended_of_open h
  · exact ended_teardown now _

theorem closed_dropUpload (s : Connection) : s.dropUpload.closed = s.closed := by
  rw [dropUpload]
  split <;> rfl

theorem ended_rejectUpload (now : DateTime) (io : Io) (requestId : Option RequestId)
    (message : String) (h : s.closed = false) :
    (s.rejectUpload sessionId now io requestId message).Ended :=
  ended_send now io _ ((closed_dropUpload s).trans h)

theorem closed_stage (io : Io) (reply : AdapterReply) (s : Connection) :
    (s.stage io reply).2.closed = s.closed := by
  rw [stage]
  split
  · rfl
  · split <;> rfl

theorem closed_complete (completion : UploadCompletion) (s : Connection) :
    (s.complete c d now completion).2.closed = s.closed := by
  rw [complete]
  split <;> rfl

theorem ended_handle (envelope : ClientEnvelope) (h : s.closed = false) :
    (s.handle c sessionId d now io envelope authorization).Ended := by
  rw [handle]
  split
  · exact ended_send now io _ h
  · exact ended_send now io _ ((closed_stage io _ _).trans h)

theorem ended_uploadCommit (requestId : RequestId) (uploadId : UploadId) (h : s.closed = false) :
    (s.uploadCommit c k sessionId d now io requestId authorization uploadId).Ended := by
  rw [uploadCommit]
  split
  · exact ended_send now io _ h
  · split
    · exact ended_rejectUpload now io _ _ h
    · simp only
      split
      · exact ended_send now io _ ((closed_complete _ _).trans h)
      · exact ended_send now io _ h

theorem ended_receiveText (envelope : ClientEnvelope) (h : s.closed = false) :
    (s.receiveText c k sessionId d now io authorization envelope).Ended := by
  rw [receiveText]
  split
  · exact ended_teardown now s
  · rw [unpairDevice]
    split
    · exact ended_teardown now _
    · exact ended_send now io _ h
  · exact ended_send now io _ h
  · refine ended_send now io _ ?_
    split
    · exact (closed_dropUpload s).trans h
    · exact h
  · exact ended_uploadCommit _ _ h
  · split
    · exact ended_send now io _ h
    · exact ended_handle envelope h
  · exact ended_handle envelope h

theorem ended_receiveBinary (bytes : List UInt8) (h : s.closed = false) :
    (s.receiveBinary sessionId now io bytes).Ended := by
  rw [receiveBinary]
  split
  · split
    · exact ended_send now io _ h
    · split
      · exact ended_rejectUpload now io _ _ h
      · split
        · exact ended_rejectUpload now io _ _ h
        · exact ended_send now io _ h
  · exact ended_rejectUpload now io _ _ h

theorem ended_step (h : s.Ended) (e : ConnectionEvent) : (s.step c k sessionId e).Ended := by
  cases hc : s.closed with
  | true =>
    cases e with
    | adapter | drop => exact h
    | outside path content =>
      rw [step]
      unfold writeOutside
      split <;> exact h
    | text | garbled | binary | poll | close =>
      rw [step, if_pos hc]
      exact h
  | false =>
    cases e with
    | adapter | drop => exact ended_of_open hc
    | outside path content =>
      rw [step]
      unfold writeOutside
      split <;> exact ended_of_open hc
    | text d now io authorization envelope =>
      rw [step, if_neg (by simp [hc])]
      exact ended_receiveText envelope hc
    | garbled now io =>
      rw [step, if_neg (by simp [hc])]
      exact ended_send now io _ hc
    | binary now io bytes =>
      rw [step, if_neg (by simp [hc])]
      exact ended_receiveBinary bytes hc
    | poll d now io changed =>
      rw [step, if_neg (by simp [hc]), poll]
      split
      · exact ended_of_open hc
      · simp only
        split
        · exact ended_of_open hc
        · exact ended_send now io _ hc
    | close now =>
      rw [step, if_neg (by simp [hc])]
      exact ended_teardown now s

theorem writeOutside_spec (path : String) (content : Option (List UInt8)) (s : Connection) :
    (s.writeOutside path content).activeUpload = s.activeUpload ∧
      ∀ u, s.activeUpload = some u →
        (s.writeOutside path content).files.get u.stagingPath = s.files.get u.stagingPath := by
  unfold writeOutside
  split
  · exact ⟨rfl, fun _ _ => rfl⟩
  · rename_i hany
    refine ⟨rfl, fun u hu => ?_⟩
    rw [hu, Option.any_some, decide_eq_true_eq] at hany
    split
    · rw [HashMap.get_insert, if_neg hany]
    · exact HashMap.get_remove_of_ne _ hany

end Connection

/-! ## What arrived -/

/-- The chunks among the messages. -/
def chunks (es : List ConnectionEvent) : List UploadChunkFrame :=
  es.filterMap ConnectionEvent.frame?

/-- The upload is the chunks, which are its own and numbered from `0`. -/
structure Chunked (u : ActiveUpload) (frames : List UploadChunkFrame) : Prop where
  numbered : ∀ i frame, frames[i]? = some frame →
    frame.uploadId = u.plan.uploadId ∧ frame.chunkIndex = UInt64.ofNat i
  nextChunkIndex : u.nextChunkIndex = UInt64.ofNat frames.length
  digest : u.digest = frames.flatMap UploadChunkFrame.payload
  received : u.received = u.digest.length

/-- The upload began with one of the messages, and is the chunks since then. -/
structure Received (es : List ConnectionEvent) (files : FileSystem) (u : ActiveUpload) : Prop where
  staged : files.get u.stagingPath = some u.digest
  began : ∃ xs b ys, es = xs ++ b :: ys ∧ Begins u b ∧ Chunked u (chunks ys)

theorem Chunked.append {u : ActiveUpload} {frames : List UploadChunkFrame}
    (h : Chunked u frames) {frame : UploadChunkFrame} (hid : frame.uploadId = u.plan.uploadId)
    (hindex : frame.chunkIndex = u.nextChunkIndex) : Chunked { u with
      digest := u.digest ++ frame.payload
      received := u.received + frame.payload.length
      nextChunkIndex := u.nextChunkIndex + 1 } (frames ++ [frame]) where
  numbered i frame' hf := by
    rcases Nat.lt_or_ge i frames.length with hi | hi
    · rw [List.getElem?_append_left hi] at hf
      exact h.numbered i frame' hf
    · rw [List.getElem?_append_right hi] at hf
      cases hk : i - frames.length with
      | zero =>
        rw [hk] at hf
        obtain rfl := Option.some.inj hf
        exact ⟨hid, by rw [hindex, h.nextChunkIndex, show i = frames.length by omega]⟩
      | succ n =>
        rw [hk] at hf
        exact nomatch hf
  nextChunkIndex := by
    rw [h.nextChunkIndex, List.length_append, List.length_singleton]
    simp
  digest := by
    rw [h.digest, List.flatMap_append]
    simp
  received := by rw [h.received, List.length_append]

variable {c : Crates} {k : Crypto} {sessionId : AuthSessionId} {es : List ConnectionEvent}
  {s s' : Connection} {e : ConnectionEvent}

/-- What holds of the connection after the messages. -/
structure UploadInv (es : List ConnectionEvent) (s : Connection) : Prop where
  ended : s.Ended
  received : ∀ u, s.activeUpload = some u → Received es s.files u

theorem Received.other {files : FileSystem} {u : ActiveUpload} (h : Received es s.files u)
    (he : e.frame? = none) (hf : files.get u.stagingPath = s.files.get u.stagingPath) :
    Received (es ++ [e]) files u := by
  obtain ⟨xs, b, ys, rfl, hb, hc⟩ := h.began
  refine ⟨hf.trans h.staged, xs, b, ys ++ [e], by simp, hb, ?_⟩
  rwa [chunks, List.filterMap_append, List.filterMap_cons_none he, List.filterMap_nil,
    List.append_nil]

theorem uploadInv_step (h : UploadInv es s) (e : ConnectionEvent) :
    UploadInv (es ++ [e]) (s.step c k sessionId e) := by
  refine ⟨Connection.ended_step h.ended e, fun u hu => ?_⟩
  by_cases ho : ∃ path content, e = .outside path content
  · obtain ⟨path, content, rfl⟩ := ho
    obtain ⟨hsame, hfile⟩ := Connection.writeOutside_spec path content s
    have hu := hsame.symm.trans hu
    exact (h.received u hu).other rfl (hfile u hu)
  · have hne : ∀ path content, e ≠ .outside path content := fun path content he =>
      ho ⟨path, content, he⟩
    cases Connection.step_uploadStep c k sessionId h.ended hne with
    | idle hsame he hf =>
      have hu := hsame.symm.trans hu
      exact (h.received u hu).other (he (by rw [hu]; exact Option.some_ne_none u)) (hf _)
    | dropped _ hnone _ => exact nomatch hnone.symm.trans hu
    | staged hnone hsome hb _ hempty hf =>
      obtain rfl := Option.some.inj (hsome.symm.trans hu)
      obtain ⟨hnext, hreceived, hdigest⟩ := hempty
      refine ⟨by rw [hf, if_pos rfl, hdigest], es, e, [], rfl, hb, ?_⟩
      exact ⟨fun i frame hf => (nomatch hf), hnext, hdigest, by rw [hreceived, hdigest]; rfl⟩
    | wrote hold he hid hindex hsome hf =>
      obtain rfl := Option.some.inj (hsome.symm.trans hu)
      obtain ⟨hstaged, xs, b, ys, rfl, hb, hc⟩ := h.received _ hold
      refine ⟨by rw [hf, if_pos rfl, hstaged]; rfl, xs, b, ys ++ [e], by simp, hb, ?_⟩
      rw [chunks, List.filterMap_append, List.filterMap_cons_some he, List.filterMap_nil]
      exact hc.append hid hindex
    | published _ hnone _ _ => exact nomatch hnone.symm.trans hu

variable {s₀ : Connection}

variable (c k sessionId) in
/-- **After every run of messages, the active upload is the chunks that arrived since it began.** -/
theorem uploadInv_run (h : UploadInv [] s₀) (es : List ConnectionEvent) :
    UploadInv es (s₀.run c k sessionId es) := by
  induction es using List.reverseRecOn with
  | nil => exact h
  | append_singleton es e ih =>
    rw [Connection.run, List.foldl_append]
    exact uploadInv_step ih e

theorem run_append_singleton (es : List ConnectionEvent) (e : ConnectionEvent) :
    s₀.run c k sessionId (es ++ [e]) = (s₀.run c k sessionId es).step c k sessionId e :=
  List.foldl_append

/-! ## The main result -/

/-- A commit publishes the upload that a message declared: it names the upload, its chunks arrived in
order since then, the content is theirs, with the declared size and digest, and the path of the file is
inserted. -/
def PublishesUpload (c : Crates) (k : Crypto) (es : List ConnectionEvent) (s : Connection)
    (e : ConnectionEvent) (path : String) (content : List UInt8) : Prop :=
  ∃ u m xs b ys, s.activeUpload = some u ∧ Commits c k u path s e ∧ es = xs ++ b :: ys ∧
    (∃ d now io authorization envelope, b = .text d now io authorization envelope ∧
      envelope.payload = .uploadBegin m) ∧ u.plan.Declared m ∧
    (∀ i frame, (chunks ys)[i]? = some frame →
      frame.uploadId = u.plan.uploadId ∧ frame.chunkIndex = UInt64.ofNat i) ∧
    content = (chunks ys).flatMap UploadChunkFrame.payload ∧ content.length = m.size ∧
    k.hexEncode (k.sha256 content) = m.sha256.map Char.toLower

/-- What holds of the uploads of a connection after some messages, and of the next event. -/
structure UploadsSafe (c : Crates) (k : Crypto) (sessionId : AuthSessionId) (s₀ : Connection)
    (es : List ConnectionEvent) : Prop where
  /-- No file but the staging file of the active upload is overwritten or removed. -/
  kept : ∀ e path content, (∀ path content, e ≠ .outside path content) →
    (∀ u, (s₀.run c k sessionId es).activeUpload = some u → u.stagingPath ≠ path) →
    (s₀.run c k sessionId es).files.get path = some content →
    (s₀.run c k sessionId (es ++ [e])).files.get path = some content
  /-- A new file is the staging file of a new upload, or a published upload. -/
  created : ∀ e path content, (∀ path content, e ≠ .outside path content) →
    (s₀.run c k sessionId es).files.get path = none →
    (s₀.run c k sessionId (es ++ [e])).files.get path = some content →
    ((s₀.run c k sessionId es).activeUpload = none ∧
      ∃ u, (s₀.run c k sessionId (es ++ [e])).activeUpload = some u ∧ u.stagingPath = path) ∨
    PublishesUpload c k es (s₀.run c k sessionId es) e path content
  /-- An upload stays the active one until its staging file is gone. -/
  single : ∀ e u, (s₀.run c k sessionId es).activeUpload = some u →
    (∃ u', (s₀.run c k sessionId (es ++ [e])).activeUpload = some u' ∧ u'.plan = u.plan ∧
      u'.stagingPath = u.stagingPath) ∨
    ((s₀.run c k sessionId (es ++ [e])).activeUpload = none ∧
      (s₀.run c k sessionId (es ++ [e])).files.get u.stagingPath = none)
  /-- When the loop has ended, every staging file was removed. -/
  cleaned : (s₀.run c k sessionId es).closed = true → ∀ xs ys u, es = xs ++ ys →
    (s₀.run c k sessionId xs).activeUpload = some u → ∃ us vs, ys = us ++ vs ∧
      (s₀.run c k sessionId (xs ++ us)).files.get u.stagingPath = none

theorem published_of_step (h : UploadInv es s) {u : ActiveUpload} {path path' : String}
    {content content' : List UInt8} (hu : s.activeUpload = some u) (hc : Commits c k u path s e)
    (hf : Published u.stagingPath path content s.files s'.files) (hnone : s.files.get path' = none)
    (hsome : s'.files.get path' = some content') : PublishesUpload c k es s e path' content' := by
  obtain ⟨-, -, hstaged, hget⟩ := hf
  rw [hget] at hsome
  split at hsome
  · rename_i hp
    obtain rfl := hp
    obtain rfl := Option.some.inj hsome
    obtain ⟨hdigest, xs, b, ys, hes, ⟨d, now, io, authorization, envelope, m, hb, hm, hdecl⟩, hch⟩ :=
      h.received u hu
    obtain rfl := Option.some.inj (hstaged.symm.trans hdigest)
    refine ⟨u, m, xs, b, ys, hu, hc, hes, ⟨d, now, io, authorization, envelope, hb, hm⟩, hdecl,
      hch.numbered, hch.digest, ?_, ?_⟩
    · rw [← hch.received, hc.size, hdecl.size]
    · rw [hc.sha256, hdecl.sha256]
  · split at hsome
    · cases hsome
    · cases hnone.symm.trans hsome

variable (c k sessionId) in
/-- An upload that is no longer active has lost its staging file. -/
theorem single_step (h : UploadInv es s) (e : ConnectionEvent) {u : ActiveUpload}
    (hu : s.activeUpload = some u) :
    (∃ u', (s.step c k sessionId e).activeUpload = some u' ∧ u'.plan = u.plan ∧
      u'.stagingPath = u.stagingPath) ∨
    ((s.step c k sessionId e).activeUpload = none ∧
      (s.step c k sessionId e).files.get u.stagingPath = none) := by
  by_cases ho : ∃ path content, e = .outside path content
  · obtain ⟨path, content, rfl⟩ := ho
    exact Or.inl ⟨u, (Connection.writeOutside_spec path content s).1.trans hu, rfl, rfl⟩
  · have hne : ∀ path content, e ≠ .outside path content := fun path content he =>
      ho ⟨path, content, he⟩
    cases Connection.step_uploadStep c k sessionId h.ended hne with
    | idle hsame _ _ => exact Or.inl ⟨u, hsame.trans hu, rfl, rfl⟩
    | dropped hold hnone hf =>
      obtain rfl := Option.some.inj (hold.symm.trans hu)
      exact Or.inr ⟨hnone, by rw [hf, if_pos rfl]⟩
    | staged hnone _ _ _ _ _ => exact nomatch hnone.symm.trans hu
    | wrote hold _ _ _ hsome _ =>
      obtain rfl := Option.some.inj (hold.symm.trans hu)
      exact Or.inl ⟨_, hsome, rfl, rfl⟩
    | published hold hnone _ hf =>
      obtain rfl := Option.some.inj (hold.symm.trans hu)
      obtain ⟨hne, -, -, hget⟩ := hf
      exact Or.inr ⟨hnone, by rw [hget, if_neg (Ne.symm hne), if_pos rfl]⟩

/-- Once no upload is active, every staging file was removed. -/
theorem exists_cleaned (h : UploadInv [] s₀) {xs ys : List ConnectionEvent} {u : ActiveUpload}
    (hu : (s₀.run c k sessionId xs).activeUpload = some u)
    (hnone : (s₀.run c k sessionId (xs ++ ys)).activeUpload = none) : ∃ us vs, ys = us ++ vs ∧
      (s₀.run c k sessionId (xs ++ us)).files.get u.stagingPath = none := by
  induction ys generalizing xs u with
  | nil =>
    rw [List.append_nil] at hnone
    exact nomatch hnone.symm.trans hu
  | cons e ys ih =>
    rcases single_step c k sessionId (uploadInv_run c k sessionId h xs) e hu with
      ⟨u', hu', -, hpath⟩ | ⟨-, hgone⟩
    · rw [← run_append_singleton] at hu'
      obtain ⟨us, vs, rfl, hget⟩ := ih hu' (by rwa [List.append_assoc])
      refine ⟨e :: us, vs, rfl, ?_⟩
      rwa [List.append_assoc, hpath] at hget
    · exact ⟨[e], ys, rfl, by rwa [run_append_singleton]⟩

end Clinch
