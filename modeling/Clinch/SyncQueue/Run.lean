import Clinch.SyncQueue.Answer
import Mathlib.Logic.Relation

/-!
# Runs of the sync queue

Enqueueing, dequeueing and answers in any order, from a queue that was loaded with any items. A run is
made of three moves: an item is enqueued, an item is sent, or something quiet happens.

* `Move`, `Moves`, `moves_run`: a run is a sequence of moves;
* `Answers`, `answers_answer`: what an answer does.
-/

set_option autoImplicit false

namespace Clinch

namespace SyncQueue

variable {s s' : SyncQueue} {id : QueueItemId} {item : QueueItem}

inductive Move (s : SyncQueue) : SyncQueue → Prop
  | push (item : QueueItem) : Move s (s.pushed item)
  | send {id : QueueItemId} {item : QueueItem} {r : Request} : s.Takes id item →
    s.request item = some r → Move s (((s.drop id).register id item).spawn id r)
  | quiet {s' : SyncQueue} : Quiet 0 s s' → Move s s'

def Moves : SyncQueue → SyncQueue → Prop := Relation.ReflTransGen Move

theorem Move.wellFormed (m : s.Move s') (h : s.WellFormed) : s'.WellFormed := by
  cases m with
  | push item => exact h.pushed item
  | send ht hr => exact h.sent ht _
  | quiet hq => exact hq.wellFormed

theorem Moves.refl (s : SyncQueue) : s.Moves s := Relation.ReflTransGen.refl

theorem Moves.trans {s'' : SyncQueue} (m : s.Moves s') (m' : s'.Moves s'') : s.Moves s'' :=
  Relation.ReflTransGen.trans m m'

theorem Moves.quiet (hq : Quiet 0 s s') : s.Moves s' := Relation.ReflTransGen.single (.quiet hq)

/-- What every move keeps holds behind a run. -/
theorem Moves.induction {I : SyncQueue → Prop} (m : s.Moves s') (hwf : s.WellFormed)
    (hstep : ∀ t t', t.WellFormed → t.Move t' → I t → I t') (h : I s) : s'.WellFormed ∧ I s' := by
  induction m with
  | refl => exact ⟨hwf, h⟩
  | tail _ m ih => exact ⟨m.wellFormed ih.1, hstep _ _ ih.1 m ih.2⟩

theorem Moves.wellFormed (m : s.Moves s') (h : s.WellFormed) : s'.WellFormed :=
  (m.induction (I := fun _ => True) h (fun _ _ _ _ _ => trivial) trivial).1

/-! ## Dequeueing -/

theorem quiet_unsent (h : s.WellFormed) (ht : s.Takes id item) {t : SyncQueue}
    (hu : s.Unsent id item t) : Quiet 0 s t := by
  have hdrop := quiet_drop h ht.queued
  cases hu with
  | failed _ _ hspec =>
    have hwithdraw := hdrop.trans (quiet_withdraw hdrop.wellFormed hspec.nodup fun id' hid' => by
      obtain ⟨dependencies, hsome⟩ := ((hspec.mem id').mp hid').queueDependencies
      exact hdrop.wellFormed.queued_of_dependencies id' (by rw [hsome]; exact Option.some_ne_none _))
    exact (hwithdraw.trans (quiet_emit hwithdraw.wellFormed id _)).congr fun _ _ => by simp
  | skipped _ =>
    have hwf := hdrop.wellFormed.register (h.queued_lt id ht.queued) item
    have hregister := hdrop.trans (quiet_of_log_eq hwf rfl (fun _ item hmem => ⟨item, hmem, rfl⟩) rfl
      rfl rfl rfl)
    refine (hregister.trans (quiet_write hregister.wellFormed (.skipped id) rfl)).congr fun id' _ => ?_
    simp [mark, LogEntry.finishes, eq_comm]

theorem moves_dequeueN (h : s.WellFormed) (n : ℕ) : s.Moves (s.dequeueN n) := by
  refine (dequeueN_induction (I := fun t => t.WellFormed ∧ s.Moves t) (fun _ ht => ht.1) ?_ ?_ n
    ⟨h, .refl s⟩).2
  · intro t id item r ht htakes hr
    exact ⟨ht.1.sent htakes r, ht.2.trans (Relation.ReflTransGen.single (.send htakes hr))⟩
  · intro t id item t' ht htakes _ hu
    have hq := quiet_unsent ht.1 htakes hu
    exact ⟨hq.wellFormed, ht.2.trans (.quiet hq)⟩

theorem moves_dequeue (h : s.WellFormed) : s.Moves s.dequeue := moves_dequeueN h _

/-- A request that is in flight stays in flight while items are sent. -/
theorem spawned_dequeueN (h : s.WellFormed) (n : ℕ) {e : QueueItemId × Request}
    (he : e ∈ s.spawned) : e ∈ (s.dequeueN n).spawned := by
  refine (dequeueN_induction (I := fun t => t.WellFormed ∧ e ∈ t.spawned) (fun _ ht => ht.1) ?_ ?_ n
    ⟨h, he⟩).2
  · exact fun t id item r ht htakes _ => ⟨ht.1.sent htakes r, List.mem_append_left _ ht.2⟩
  · intro t id item t' ht htakes _ hu
    refine ⟨ht.1.unsent htakes hu, ?_⟩
    cases hu with
    | failed _ _ _ => exact ht.2
    | skipped _ => exact ht.2

/-! ## Answers -/

theorem mem_inFlight {request : Request} (h : (id, request) ∈ s.spawned) : id ∈ s.inFlight :=
  List.mem_map_of_mem h

/-- The announcement of an object of a bulk request is not counted. -/
theorem Quiet.bulk {δ : QueueItemId → ℤ} {request : Request} (hq : Quiet δ s s')
    (hmem : (id, request) ∈ s.spawned) (hb : request.isBulk = true)
    (hδ : ∀ id', id' ≠ id → δ id' = 0) : Quiet 0 s s' := by
  refine hq.congr fun id' hid' => hδ id' fun he => ?_
  rw [hid' request (he ▸ hmem)] at hb
  exact Bool.false_ne_true hb

theorem mark_of_ne {id' : QueueItemId} (h : id' ≠ id) : mark id id' = 0 := if_neg h

theorem spawned_creationDependencyForClientId (id : QueueItemId) (clientId : ClientId)
    (s : SyncQueue) : (s.creationDependencyForClientId id clientId).2.spawned = s.spawned := by
  rw [creationDependencyForClientId]
  split
  · rfl
  · split <;> rfl

theorem spawned_settleSuccess (uid : SyncId) (id : QueueItemId) (initiatedBy : InitiatedBy)
    (response : ResponseType) (s : SyncQueue) :
    (s.settleSuccess uid id initiatedBy response).spawned = s.spawned := by
  cases response with
  | creationSuccess clientId serverId revision =>
    exact spawned_creationDependencyForClientId id clientId _
  | creationUserFacingError message clientId =>
    cases uid with
    | client clientId' => exact spawned_creationDependencyForClientId id clientId' _
    | server serverId => rfl
  | _ => rfl

theorem spawned_handleCreationFailure (h : s.WellFormed) (clientId : ClientId) (id : QueueItemId) :
    (s.handleCreationFailure handleDependencyFailure (.client clientId) id).spawned = s.spawned := by
  have hstop := quiet_stopWaiting h (.client clientId) id
  have hdep := (quiet_creationDependencyForId hstop.wellFormed id (.client clientId)).1
  obtain ⟨l, hl, -⟩ := handleDependencyFailure_spec hdep.wellFormed
    ((s.stopWaiting (.client clientId) id).creationDependencyForId id (.client clientId)).1
  rw [handleCreationFailure]
  refine (congrArg SyncQueue.spawned hl).trans ?_
  exact spawned_creationDependencyForClientId id clientId _

/-- The objects that were created, one after the other. -/
def createdOneByOne (id : QueueItemId) (created : List CreatedCloudObject) (s : SyncQueue) : SyncQueue :=
  created.foldl (fun s object => s.handleSuccessResponse (.server object.serverId) id .user
    (.creationSuccess object.clientId object.serverId object.revision)) s

/-- What an answer does: something quiet, and then the next item is dequeued, unless other requests are
expected to fail as well; a bulk request is answered object by object. -/
inductive Answers (s : SyncQueue) (id : QueueItemId) (request : Request) :
    ServerResponse → SyncQueue → Prop
  | dequeues {response : ServerResponse} {t : SyncQueue} : Quiet 0 s t →
    Answers s id request response t.dequeue
  | stops {error : List ErrorCause} {t : SyncQueue} : error.any ErrorCause.isPersistent = true →
    Quiet 0 s t → Answers s id request (.failed error) t
  | bulk (created : List CreatedCloudObject) : request.isBulk = true →
    Answers s id request (.bulkCreated created) ((s.createdOneByOne id created).finish id)
  | ignored (response : ServerResponse) : Answers s id request response s

section Requests

variable {request : Request} (h : s.WellFormed) (hmem : (id, request) ∈ s.spawned)

include h hmem

/-- The answer to a request for one object. -/
theorem quiet_single {f : SyncQueue → SyncQueue}
    (hf : ∀ t : SyncQueue, t.WellFormed → Quiet (mark id) t (f t)) : Quiet 0 s (f (s.finish id)) := by
  have hfinish := quiet_finish h (mem_inFlight hmem)
  exact (hfinish.trans (hf _ hfinish.wellFormed)).congr fun _ _ => by simp

/-- A bulk request is over. -/
theorem quiet_finish_bulk (hb : request.isBulk = true) : Quiet 0 s (s.finish id) :=
  (quiet_finish h (mem_inFlight hmem)).bulk hmem hb fun id' hne => by
    rw [Pi.neg_apply, mark_of_ne hne, neg_zero]

/-- The objects of a bulk request that were created, each followed by the items that are ready. -/
theorem moves_createdOneByOne (hb : request.isBulk = true) (created : List CreatedCloudObject) :
    s.Moves (s.createdOneByOne id created) ∧ (s.createdOneByOne id created).WellFormed ∧
      (id, request) ∈ (s.createdOneByOne id created).spawned := by
  refine created.foldlRecOn _ (motive := fun t => s.Moves t ∧ t.WellFormed ∧ (id, request) ∈ t.spawned)
    ⟨.refl s, h, hmem⟩ fun t ht object _ => ?_
  obtain ⟨hm, hwf, hspawned⟩ := ht
  have hq := (quiet_settleSuccess hwf (.server object.serverId) id .user
    (.creationSuccess object.clientId object.serverId object.revision)).bulk hspawned hb
      fun _ => mark_of_ne
  refine ⟨hm.trans ((Moves.quiet hq).trans (moves_dequeue hq.wellFormed)),
    (moves_dequeue hq.wellFormed).wellFormed hq.wellFormed, spawned_dequeueN hq.wellFormed _ ?_⟩
  rwa [spawned_settleSuccess]

/-- The objects of a bulk request that failed. -/
theorem quiet_bulkFailed (hb : request.isBulk = true)
    {fail : GenericStringObjectToCreate × Option ServerId → SyncQueue → SyncQueue}
    (hfail : ∀ object t, t.WellFormed → Quiet (mark id) t (fail object t) ∧
      (fail object t).spawned = t.spawned)
    (objects : List (GenericStringObjectToCreate × Option ServerId)) :
    Quiet 0 s ((objects.foldl (fun s object => fail object s) s).finish id) := by
  have hfold : Quiet 0 s (objects.foldl (fun s object => fail object s) s) ∧
      (id, request) ∈ (objects.foldl (fun s object => fail object s) s).spawned := by
    refine objects.foldlRecOn _ (motive := fun t => Quiet 0 s t ∧ (id, request) ∈ t.spawned)
      ⟨quiet_of_log_eq h rfl (fun _ item hmem => ⟨item, hmem, rfl⟩) rfl rfl rfl rfl, hmem⟩
      fun t ht object _ => ?_
    obtain ⟨hq, hspawned⟩ := hfail object t ht.1.wellFormed
    exact ⟨(ht.1.trans (hq.bulk ht.2 hb fun _ => mark_of_ne)).congr fun _ _ => by simp,
      hspawned ▸ ht.2⟩
  exact (hfold.1.trans (quiet_finish_bulk hfold.1.wellFormed hfold.2 hb)).congr fun _ _ => by simp

theorem quiet_settleFailure : Quiet 0 s (s.settleFailure id request) := by
  cases request with
  | create objectType clientId model content initialFolderId initiatedBy =>
    exact quiet_single h hmem fun t ht =>
      quiet_handleCreationFailureResponse ht (.client clientId) id initiatedBy
  | createBulk objects =>
    refine quiet_bulkFailed h hmem rfl (fun object t ht => ⟨?_, ?_⟩) objects
    · exact quiet_handleCreationFailureResponse ht (.client object.1.id) id .user
    · exact spawned_handleCreationFailure ht object.1.id id
  | update serverId model content revision =>
    exact quiet_single h hmem fun t ht => quiet_failure ht _ id _
  | action serverId content timestamp =>
    exact quiet_single h hmem fun t ht => quiet_failure ht _ id _

theorem answers_single (uid : SyncId) (initiatedBy : InitiatedBy) (response : ResponseType)
    (serverResponse : ServerResponse) : s.Answers id request serverResponse
      ((s.finish id).handleSuccessResponse uid id initiatedBy response) :=
  .dequeues (quiet_single h hmem fun _ ht => quiet_settleSuccess ht uid id initiatedBy response)

theorem answers_failed (error : List ErrorCause) : s.Answers id request (.failed error)
    (((s.write (.failed id (error.any ErrorCause.isPersistent))).settleFailure id request
      ).maybeDequeueOnError error) := by
  have hwrite : Quiet 0 s (s.write (.failed id (error.any ErrorCause.isPersistent))) :=
    (quiet_write h _ rfl).congr fun _ _ => if_neg Bool.false_ne_true
  have hq : Quiet 0 s ((s.write (.failed id (error.any ErrorCause.isPersistent))).settleFailure id
      request) := (hwrite.trans (quiet_settleFailure hwrite.wellFormed hmem)).congr fun _ _ => by simp
  rw [maybeDequeueOnError]
  by_cases hpersistent : error.any ErrorCause.isPersistent = true
  · rw [if_pos hpersistent]
    exact .stops hpersistent hq
  · rw [if_neg hpersistent]
    exact .dequeues hq

/-- **What `answer` does.** -/
theorem answers_answer (response : ServerResponse) :
    s.Answers id request response (s.answer id request response) := by
  cases request with
  | create objectType clientId model content initialFolderId initiatedBy =>
    cases response with
    | created serverId revision =>
      exact .dequeues (quiet_single h hmem fun t ht => (quiet_updateDependenciesOnCreation ht
        (.queueItem id) clientId serverId objectType).trans (quiet_settleSuccess
          (ht.replace (.queueItem id) clientId serverId objectType) (.server serverId) id initiatedBy
          (.creationSuccess clientId serverId revision)) |>.congr fun _ _ => zero_add _)
    | userFacingError message =>
      exact answers_single h hmem (.client clientId) initiatedBy
        (.creationUserFacingError message clientId) _
    | uniqueKeyConflict =>
      exact .dequeues (quiet_single h hmem fun t ht =>
        quiet_handleUniqueKeyCreationFailureResponse ht (.client clientId) id initiatedBy)
    | failed error => exact answers_failed h hmem error
    | _ => exact .ignored _
  | createBulk objects =>
    cases response with
    | bulkCreated created => exact .bulk created rfl
    | uniqueKeyConflict =>
      exact .dequeues (quiet_bulkFailed h hmem rfl (fun object t ht =>
        ⟨quiet_handleUniqueKeyCreationFailureResponse ht (.client object.1.id) id .user,
          spawned_handleCreationFailure ht object.1.id id⟩) objects)
    | failed error => exact answers_failed h hmem error
    | _ => exact .ignored _
  | update serverId model content revision =>
    cases response with
    | updated newRevision =>
      exact answers_single h hmem (.server serverId) .user (.updateSuccess serverId newRevision) _
    | rejected object =>
      exact answers_single h hmem (.server serverId) .user (.updateRejected object) _
    | failed error => exact answers_failed h hmem error
    | _ => exact .ignored _
  | action serverId content timestamp =>
    cases response with
    | recorded => exact answers_single h hmem (.server serverId) .user (.objectAction timestamp) _
    | failed error => exact answers_failed h hmem error
    | _ => exact .ignored _

theorem Answers.moves {response : ServerResponse} (ha : s.Answers id request response s') :
    s.Moves s' := by
  cases ha with
  | dequeues hq => exact (Moves.quiet hq).trans (moves_dequeue hq.wellFormed)
  | stops _ hq => exact .quiet hq
  | bulk created hb =>
    obtain ⟨hm, hwf, hspawned⟩ := moves_createdOneByOne h hmem hb created
    exact hm.trans (.quiet (quiet_finish_bulk hwf hspawned hb))
  | ignored => exact .refl s

end Requests

/-! ## Runs -/

theorem moves_step (h : s.WellFormed) (a : QueueAction) : s.Moves (s.step a) := by
  have hset : ∀ b, Quiet 0 s { s with shouldDequeue := b } := fun b =>
    quiet_of_log_eq { h with } rfl (fun _ item hmem => ⟨item, hmem, rfl⟩) rfl rfl rfl rfl
  cases a with
  | enqueue item =>
    rw [step, enqueue, push_eq h]
    exact (Relation.ReflTransGen.single (Move.push item)).trans (moves_dequeue (h.pushed item))
  | startDequeueing => exact (Moves.quiet (hset true)).trans (moves_dequeue (hset true).wellFormed)
  | stopDequeueing => exact .quiet (hset false)
  | respond id response =>
    rw [step, respond]
    split
    · rename_i id' request hfind
      have he : id' = id := of_decide_eq_true (List.find?_some hfind :)
      have hmem : (id, request) ∈ s.spawned := he ▸ List.mem_of_find?_eq_some hfind
      exact (answers_answer h hmem response).moves h hmem
    · exact .refl s

/-- **A run is a sequence of moves.** -/
theorem moves_run (h : s.WellFormed) (es : List QueueAction) : s.Moves (s.run es) := by
  induction es generalizing s with
  | nil => exact .refl s
  | cons a es ih =>
    have hm := moves_step h a
    exact hm.trans (ih (hm.wellFormed h))

end SyncQueue

end Clinch
