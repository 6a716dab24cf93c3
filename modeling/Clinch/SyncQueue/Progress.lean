import Clinch.SyncQueue.Delivery

/-!
# The queue does not stop

As long as dequeueing is on, an item that is ready is sent, or another request is in flight behind whose
answer the queue goes on.

* `Rested`: dequeueing is off, or a request is in flight, or no item is ready;
* `rested_dequeue`, `rested_finish`: what `dequeue` leaves;
* **`rested_run`**: nothing that is ready is left behind.
-/

set_option autoImplicit false

namespace Clinch

/-- The queue dequeues behind the answer: the error does not concern other requests, and some object of a
bulk request was created. -/
def ServerResponse.goesOn : ServerResponse → Bool
  | bulkCreated objects => !objects.isEmpty
  | failed error => !error.any ErrorCause.isPersistent
  | _ => true

def QueueAction.goesOn : QueueAction → Bool
  | respond _ response => response.goesOn
  | _ => true

/-- The action dequeues, whatever happened before. -/
def QueueAction.dequeues : QueueAction → Bool
  | enqueue _ => true
  | startDequeueing => true
  | _ => false

namespace SyncQueue

variable {s s' : SyncQueue} {id : QueueItemId} {item : QueueItem} {request : Request}

def Rested (s : SyncQueue) : Prop :=
  s.shouldDequeue = true → s.inFlight = [] → ∀ e ∈ s.queue, s.isReady e = false

theorem length_unsent_lt (ht : s.Takes id item) (hu : s.Unsent id item s') :
    s'.queue.length < s.queue.length := by
  have hlt := length_drop_lt ht.queued
  cases hu with
  | failed _ _ _ => exact (List.filter_sublist (l := (s.drop id).queue)).length_le.trans_lt hlt
  | skipped _ => exact hlt

/-- What `dequeue` leaves behind: it has sent an item, or there was none that was ready. -/
theorem dequeueN_rested (h : s.WellFormed) (n : ℕ) (hn : s.queue.length ≤ n)
    (hon : (s.dequeueN n).shouldDequeue = true) :
    (∃ id ∈ s.queued, id ∈ (s.dequeueN n).inFlight) ∨
      ∀ e ∈ (s.dequeueN n).queue, (s.dequeueN n).isReady e = false := by
  induction n generalizing s with
  | zero =>
    have hnil : s.queue = [] := List.eq_nil_of_length_eq_zero (Nat.le_zero.mp hn)
    rw [dequeueN, hnil]
    exact Or.inr (List.forall_mem_nil _)
  | succ n ih =>
    by_cases ht : ∃ id item, s.Takes id item
    · obtain ⟨id, item, ht⟩ := ht
      rcases dequeueN_succ h ht n with ⟨r, -, heq⟩ | ⟨-, t, hu, heq⟩
      · refine Or.inl ⟨id, ht.queued, ?_⟩
        rw [heq]
        exact mem_inFlight (List.mem_append_right _ (List.mem_singleton_self (id, r)))
      · rw [heq] at hon ⊢
        have hlen := Nat.lt_succ_iff.mp ((length_unsent_lt ht hu).trans_le hn)
        rcases ih (h.unsent ht hu) hlen hon with ⟨id', hid', hin⟩ | hready
        · exact Or.inl ⟨id', (quiet_unsent h ht hu).queued hid', hin⟩
        · exact Or.inr hready
    · rw [dequeueN_of_not_takes fun id item h' => ht ⟨id, item, h'⟩] at hon ⊢
      refine Or.inr fun e he => ?_
      rw [Bool.eq_false_iff]
      intro hready
      cases hfind : s.queue.find? s.isReady with
      | none => exact List.find?_eq_none.mp hfind e he hready
      | some e' => exact ht ⟨e'.1, e'.2, hon, hfind⟩

theorem rested_dequeue (h : s.WellFormed) : s.dequeue.Rested := by
  intro hon hin
  rcases dequeueN_rested h _ le_rfl hon with ⟨id, -, hid⟩ | hready
  · rw [show (s.dequeueN s.queue.length).inFlight = [] from hin] at hid
    exact absurd hid List.not_mem_nil
  · exact hready

/-- The end of a bulk request: what was sent before is in flight. -/
theorem rested_finish (h : s.WellFormed) (hid : id ∉ s.queued) : (s.dequeue.finish id).Rested := by
  intro hon hin
  rcases dequeueN_rested h _ le_rfl hon with ⟨id', hq, hid'⟩ | hready
  · obtain ⟨e, he, rfl⟩ := List.mem_map.mp hid'
    have hmem : e.1 ∈ (s.dequeue.finish id).inFlight := by
      refine List.mem_map_of_mem (List.mem_filter.mpr ⟨he, decide_eq_true fun heq => hid ?_⟩)
      exact heq ▸ hq
    rw [hin] at hmem
    exact absurd hmem List.not_mem_nil
  · exact hready

theorem Answers.rested {response : ServerResponse} (ha : s.Answers id request response s')
    (h : s.WellFormed) (hmem : (id, request) ∈ s.spawned) (hgo : response.goesOn = true)
    (hr : s.Rested) : s'.Rested := by
  cases ha with
  | dequeues hq => exact rested_dequeue hq.wellFormed
  | stops hpersistent _ =>
    rw [ServerResponse.goesOn, hpersistent] at hgo
    cases hgo
  | bulk created hb =>
    rcases List.eq_nil_or_concat created with rfl | ⟨created, object, rfl⟩
    · cases hgo
    · obtain ⟨-, hwf, hspawned⟩ := moves_createdOneByOne h hmem hb created
      have hq := quiet_settleSuccess hwf (.server object.serverId) id .user
        (.creationSuccess object.clientId object.serverId object.revision)
      rw [createdOneByOne, List.concat_eq_append, List.foldl_append]
      refine rested_finish hq.wellFormed fun hid => ?_
      exact (hwf.idle id (hq.queued hid)).2.2 (mem_inFlight hspawned)
  | ignored => exact hr

theorem rested_of_dequeues (h : s.WellFormed) {a : QueueAction} (ha : a.dequeues = true) :
    (s.step a).Rested := by
  cases a with
  | enqueue item =>
    rw [step, enqueue, push_eq h]
    exact rested_dequeue (h.pushed item)
  | startDequeueing => exact rested_dequeue { h with }
  | stopDequeueing => cases ha
  | respond id response => cases ha

theorem Rested.step (hr : s.Rested) (h : s.WellFormed) {a : QueueAction} (hgo : a.goesOn = true) :
    (s.step a).Rested := by
  cases a with
  | enqueue item => exact rested_of_dequeues h rfl
  | startDequeueing => exact rested_of_dequeues h rfl
  | stopDequeueing => exact fun hon => by cases hon
  | respond id response =>
    rw [SyncQueue.step, respond]
    split
    · rename_i id' request hfind
      have he : id' = id := of_decide_eq_true (List.find?_some hfind :)
      have hmem : (id, request) ∈ s.spawned := he ▸ List.mem_of_find?_eq_some hfind
      exact (answers_answer h hmem response).rested h hmem hgo hr
    · exact hr

theorem Rested.run (hr : s.Rested) (h : s.WellFormed) {es : List QueueAction}
    (hgo : ∀ a ∈ es, a.goesOn = true) : (s.run es).Rested := by
  induction es generalizing s with
  | nil => exact hr
  | cons a es ih =>
    exact ih (hr.step h (hgo a List.mem_cons_self)) ((moves_step h a).wellFormed h)
      fun b hb => hgo b (List.mem_cons_of_mem _ hb)

theorem Rested.of_dequeues (h : s.WellFormed) {a : QueueAction} (ha : a.dequeues = true)
    {es : List QueueAction} (hgo : ∀ a ∈ es, a.goesOn = true) : ((s.step a).run es).Rested :=
  (rested_of_dequeues h ha).run ((moves_step h a).wellFormed h) hgo

/-- **Nothing that is ready is left behind.** Whatever happened before, from the next `enqueue` or
`start_dequeueing` on: while dequeueing is on and no request is in flight, no queued item is ready. It is
so up to an error that other requests are expected to have as well, or a bulk answer without objects,
behind which the queue waits for the next such call. -/
theorem rested_run (queueItems : List QueueItem) (es es' : List QueueAction) (a : QueueAction)
    (ha : a.dequeues = true) (hgo : ∀ a ∈ es', a.goesOn = true) :
    ((new queueItems).run (es ++ a :: es')).Rested := by
  have hrun : (new queueItems).run (es ++ a :: es') =
      (((new queueItems).run es).step a).run es' := List.foldl_append
  rw [hrun]
  exact .of_dequeues ((moves_run (wellFormed_new queueItems) es).wellFormed (wellFormed_new queueItems))
    ha hgo

theorem rested_run_created :
    ((new [.createObject .notebook ⟨0⟩ "" none .user]).run
      ([] ++ .startDequeueing :: [.respond 0 (.created ⟨""⟩ 1)])).Rested :=
  rested_run _ [] _ .startDequeueing rfl (by decide)

end SyncQueue

end Clinch
