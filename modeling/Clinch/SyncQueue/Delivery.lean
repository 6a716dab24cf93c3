import Clinch.SyncQueue.Run
import Clinch.SyncQueue.Loading

/-!
# What is sent and what is announced

The guarantees of the queue over runs: whatever is loaded, enqueued and answered, in any order.

* `SentOnce`: the items that were sent left the queue, each once;
* `Once`: the ledger of an item stays as it is;
* `Behind`: an item that waits is sent behind an answer to the item it waits for;
* **`sent_at_most_once`**, **`announced_once`**, **`sent_behind_answer`**, **`withdrawn_dependents`**.
-/

set_option autoImplicit false

namespace Clinch

def LogEntry.sentId : LogEntry → Option QueueItemId
  | sent id _ => some id
  | _ => none

theorem LogEntry.sentId_eq_none {entry : LogEntry} (h : entry.isSent = false) :
    entry.sentId = none := by
  cases entry with
  | sent id request => cases h
  | _ => rfl

namespace SyncQueue

variable {s s' : SyncQueue} {id : QueueItemId} {item : QueueItem}

/-- The items that were sent, in their order. -/
def sentIds (s : SyncQueue) : List QueueItemId := s.log.filterMap LogEntry.sentId

theorem sentIds_append {entries : List LogEntry} (hl : s'.log = s.log ++ entries)
    (hsent : ∀ entry ∈ entries, entry.isSent = false) : s'.sentIds = s.sentIds := by
  have hnil : entries.filterMap LogEntry.sentId = [] :=
    List.filterMap_eq_nil_iff.mpr fun entry hmem => LogEntry.sentId_eq_none (hsent entry hmem)
  rw [sentIds, sentIds, hl, List.filterMap_append, hnil, List.append_nil]

/-- What is written when an item is enqueued. -/
theorem log_pushed (item : QueueItem) : ∃ entries, (s.pushed item).log = s.log ++ entries ∧
    ∀ entry ∈ entries, entry.isSent = false ∧ ∀ id, entry.finishes id = true → id = s.nextId := by
  refine ⟨_, rfl, fun entry hmem => ?_⟩
  rcases List.mem_cons.mp hmem with rfl | hmem
  · exact ⟨rfl, fun id hid => by cases hid⟩
  · obtain ⟨event, -, rfl⟩ := List.mem_map.mp hmem
    exact ⟨rfl, fun id hid => (of_decide_eq_true hid).symm⟩

/-! ## Each item is sent once -/

structure SentOnce (s : SyncQueue) : Prop where
  nodup : s.sentIds.Nodup
  gone : ∀ id ∈ s.sentIds, id < s.nextId ∧ id ∉ s.queued
  inFlight : ∀ id ∈ s.inFlight, id ∈ s.sentIds

theorem SentOnce.step (h : s.SentOnce) (hwf : s.WellFormed) (m : s.Move s') : s'.SentOnce := by
  cases m with
  | push item =>
    obtain ⟨entries, hl, hentries⟩ := log_pushed (s := s) item
    have hsent := sentIds_append hl fun entry hmem => (hentries entry hmem).1
    refine ⟨hsent ▸ h.nodup, fun id hid => ?_, fun id hid => hsent ▸ h.inFlight id hid⟩
    obtain ⟨hlt, hq⟩ := h.gone id (hsent ▸ hid)
    refine ⟨Nat.lt_succ_of_lt hlt, ?_⟩
    rw [queued_pushed, List.mem_append, List.mem_singleton]
    rintro (hmem | rfl)
    · exact hq hmem
    · exact hlt.false
  | @send id item r ht hr =>
    have hsent : ((((s.drop id).register id item).spawn id r)).sentIds = s.sentIds ++ [id] :=
      List.filterMap_append
    have hq : ∀ id', id' ∈ (((s.drop id).register id item).spawn id r).queued ↔
        id' ∈ s.queued ∧ id' ≠ id := fun _ => mem_drop_queued
    have hin : (((s.drop id).register id item).spawn id r).inFlight = s.inFlight ++ [id] :=
      List.map_append
    refine ⟨?_, fun id' hid' => ?_, fun id' hid' => ?_⟩
    · rw [hsent, List.nodup_append']
      refine ⟨h.nodup, List.nodup_singleton id, fun id' hmem hmem' => (h.gone id' hmem).2 ?_⟩
      exact List.mem_singleton.mp hmem' ▸ ht.queued
    · rw [hsent, List.mem_append, List.mem_singleton] at hid'
      rw [hq]
      rcases hid' with hmem | rfl
      · exact ⟨(h.gone id' hmem).1, fun hand => (h.gone id' hmem).2 hand.1⟩
      · exact ⟨hwf.queued_lt id' ht.queued, fun hand => hand.2 rfl⟩
    · rw [hin, List.mem_append] at hid'
      rw [hsent, List.mem_append]
      exact hid'.imp_left (h.inFlight id')
  | quiet hq =>
    obtain ⟨entries, hl, hentries, -⟩ := hq.log
    have hsent := sentIds_append hl hentries
    refine ⟨hsent ▸ h.nodup, fun id hid => ?_, fun id hid => ?_⟩
    · rw [hsent] at hid
      rw [hq.nextId]
      exact ⟨(h.gone id hid).1, fun hmem => (h.gone id hid).2 (hq.queued hmem)⟩
    · rw [hsent]
      exact h.inFlight id ((hq.spawned.map Prod.fst).subset hid)

theorem sentOnce_new (queueItems : List QueueItem) : (new queueItems).SentOnce := by
  obtain ⟨hlog, hin⟩ := unsent_new queueItems
  have hnil : (new queueItems).sentIds = [] :=
    List.filterMap_eq_nil_iff.mpr fun entry hmem => LogEntry.sentId_eq_none (hlog entry hmem)
  refine ⟨?_, ?_, ?_⟩
  · rw [hnil]
    exact List.nodup_nil
  · rw [hnil]
    exact List.forall_mem_nil _
  · rw [hin]
    exact List.forall_mem_nil _

/-- The item is not a bulk item, and its ledger is `n`. -/
structure Once (id : QueueItemId) (n : ℤ) (s : SyncQueue) : Prop where
  lt : id < s.nextId
  queue : ∀ item, (id, item) ∈ s.queue → item.isBulk = false
  single : s.Single id
  ledger : s.ledger id = n

theorem isBulk_of_request {r : Request} (h : s.request item = some r) : r.isBulk = item.isBulk := by
  cases item with
  | bulkCreateGenericStringObjects objects =>
    obtain ⟨folderIds, -, rfl⟩ := Option.map_eq_some_iff.mp h
    rfl
  | _ =>
    obtain ⟨x, -, rfl⟩ := Option.map_eq_some_iff.mp h
    rfl

theorem ledger_congr (ht : s'.tally id = s.tally id) (ha : s'.Active id ↔ s.Active id) :
    s'.ledger id = s.ledger id := by
  rw [ledger, ledger, ht]
  simp only [ha]

theorem Once.step {n : ℤ} (h : s.Once id n) (m : s.Move s') : s'.Once id n := by
  cases m with
  | push item =>
    obtain ⟨entries, hl, hentries⟩ := log_pushed (s := s) item
    refine ⟨Nat.lt_succ_of_lt h.lt, fun item' hmem => ?_, h.single, (ledger_congr ?_ ?_).trans h.ledger⟩
    · rcases List.mem_append.mp hmem with hmem | hmem
      · exact h.queue item' hmem
      · exact absurd (Prod.mk.inj (List.mem_singleton.mp hmem)).1 h.lt.ne
    · rw [tally_append hl, List.countP_eq_zero.mpr, add_zero]
      exact fun entry hmem hf => h.lt.ne ((hentries entry hmem).2 id hf)
    · rw [Active, queued_pushed, List.mem_append, List.mem_singleton, or_iff_left h.lt.ne]
      rfl
  | @send id' item r ht hr =>
    have hq : id ∈ (((s.drop id').register id' item).spawn id' r).queued ↔
        id ∈ s.queued ∧ id ≠ id' := mem_drop_queued
    have hin : (((s.drop id').register id' item).spawn id' r).inFlight = s.inFlight ++ [id'] :=
      List.map_append
    refine ⟨h.lt, fun item' hmem => h.queue item' (List.mem_of_mem_filter hmem), fun r' hr' => ?_,
      (ledger_congr ?_ ?_).trans h.ledger⟩
    · rcases List.mem_append.mp hr' with hr' | hr'
      · exact h.single r' hr'
      · obtain ⟨rfl, rfl⟩ := Prod.mk.inj (List.mem_singleton.mp hr')
        rw [isBulk_of_request hr]
        exact h.queue item ht.mem
    · exact (@tally_append s _ [.sent id' r] rfl id).trans (add_zero _)
    · rw [Active, Active, hq, hin, List.mem_append, List.mem_singleton]
      by_cases he : id = id'
      · simp [he, ht.queued]
      · simp [he]
  | quiet hq =>
    refine ⟨hq.nextId ▸ h.lt, fun item' hmem => ?_, hq.single h.single, ?_⟩
    · obtain ⟨item, hmem, hsame⟩ := hq.queue id item' hmem
      exact hsame ▸ h.queue item hmem
    · rw [hq.ledger id h.single, h.ledger, Pi.zero_apply, add_zero]

/-- An answer to the item is in the log. -/
def Answered (d : QueueDependency) (entries : List LogEntry) : Prop :=
  ∃ event, .event d.item event ∈ entries ∧ event.isAnswer = true

/-- Whenever the item is sent, an answer to the dependency was written before. -/
def SentBehind (id : QueueItemId) (d : QueueDependency) (entries : List LogEntry) : Prop :=
  ∀ before r behind, entries = before ++ .sent id r :: behind → Answered d before

theorem Answered.mono {d : QueueDependency} {entries entries' : List LogEntry}
    (h : Answered d entries) (hsub : entries ⊆ entries') : Answered d entries' := by
  obtain ⟨event, hmem, ha⟩ := h
  exact ⟨event, hsub hmem, ha⟩

theorem SentBehind.append {d : QueueDependency} {entries entries' : List LogEntry}
    (h : SentBehind id d entries)
    (h' : Answered d entries ∨ ∀ entry ∈ entries', entry.sentId ≠ some id) :
    SentBehind id d (entries ++ entries') := by
  intro before r behind heq
  have hin : LogEntry.sent id r ∈ entries' → Answered d entries :=
    fun hmem => h'.resolve_right fun hne => hne _ hmem rfl
  rcases List.append_eq_append_iff.mp heq with ⟨a, rfl, ha⟩ | ⟨c, hc, hbehind⟩
  · exact (hin (ha ▸ List.mem_append_right _ List.mem_cons_self)).mono (List.subset_append_left _ _)
  · cases c with
    | nil =>
      rw [List.append_nil] at hc
      rw [List.nil_append] at hbehind
      exact hc ▸ hin (hbehind ▸ List.mem_cons_self)
    | cons entry c =>
      obtain ⟨rfl, -⟩ := List.cons.inj hbehind
      exact h before r c hc

/-- The item still waits, or was answered for, or left the queue. -/
structure Behind (id : QueueItemId) (d : QueueDependency) (log : List LogEntry) (s : SyncQueue) :
    Prop where
  lt : id < s.nextId
  tail : ∃ entries, s.log = log ++ entries ∧ SentBehind id d entries ∧
    (s.Awaits id d ∨ Answered d entries ∨ id ∉ s.queued)

theorem Behind.step {d : QueueDependency} {log : List LogEntry} (h : s.Behind id d log)
    (m : s.Move s') : s'.Behind id d log := by
  obtain ⟨hlt, entries, hlog, hbehind, hstate⟩ := h
  cases m with
  | push item =>
    obtain ⟨entries', hl, hentries⟩ := log_pushed (s := s) item
    refine ⟨Nat.lt_succ_of_lt hlt, entries ++ entries', by rw [hl, hlog, List.append_assoc],
      hbehind.append (Or.inr fun entry hmem => ?_), ?_⟩
    · rw [LogEntry.sentId_eq_none (hentries entry hmem).1]
      exact (Option.some_ne_none id).symm
    · rcases hstate with ⟨dependencies, hd, hmem⟩ | ha | hq
      · exact Or.inl ⟨dependencies, (Function.update_of_ne hlt.ne _ _).trans hd, hmem⟩
      · exact Or.inr (Or.inl (ha.mono (List.subset_append_left _ _)))
      · refine Or.inr (Or.inr ?_)
        rw [queued_pushed, List.mem_append, List.mem_singleton]
        rintro (hmem | rfl)
        · exact hq hmem
        · exact hlt.false
  | @send id' item r ht hr =>
    have hne : ¬ Answered d entries → id ≠ id' := by
      rintro ha rfl
      rcases hstate with ⟨dependencies, hd, hmem⟩ | ha' | hq
      · rw [ht.ready] at hd
        exact absurd (Option.some.inj hd ▸ hmem) (Finset.notMem_empty d)
      · exact ha ha'
      · exact hq ht.queued
    have hl : (((s.drop id').register id' item).spawn id' r).log = s.log ++ [.sent id' r] := rfl
    refine ⟨hlt, entries ++ [.sent id' r], by rw [hl, hlog, List.append_assoc],
      hbehind.append ?_, ?_⟩
    · by_cases ha : Answered d entries
      · exact Or.inl ha
      · refine Or.inr fun entry hmem hsome => hne ha ?_
        obtain rfl := List.mem_singleton.mp hmem
        exact (Option.some.inj hsome).symm
    · by_cases ha : Answered d entries
      · exact Or.inr (Or.inl (ha.mono (List.subset_append_left _ _)))
      · rcases hstate with ⟨dependencies, hd, hmem⟩ | ha' | hq
        · refine Or.inl ⟨dependencies, ?_, hmem⟩
          exact (queueDependencies_drop id' id s).trans ((if_neg (hne ha)).trans hd)
        · exact absurd ha' ha
        · exact Or.inr (Or.inr fun hmem => hq (mem_drop_queued.mp hmem).1)
  | quiet hq =>
    obtain ⟨entries', hl, hentries, hawaits⟩ := hq.log
    refine ⟨hq.nextId ▸ hlt, entries ++ entries', by rw [hl, hlog, List.append_assoc],
      hbehind.append (Or.inr fun entry hmem => ?_), ?_⟩
    · rw [LogEntry.sentId_eq_none (hentries entry hmem)]
      exact (Option.some_ne_none id).symm
    · by_cases hid : id ∈ s'.queued
      · rcases hstate with hw | ha | hgone
        · rcases hawaits id d hw hid with hw | ⟨event, hmem, ha⟩
          · exact Or.inl hw
          · exact Or.inr (Or.inl ⟨event, List.mem_append_right _ hmem, ha⟩)
        · exact Or.inr (Or.inl (ha.mono (List.subset_append_left _ _)))
        · exact absurd (hq.queued hid) hgone
      · exact Or.inr (Or.inr hid)

/-- **The failure of an item takes exactly its transitive dependents out of the queue**, each with one
failure, in every queue that a run reaches. -/
theorem withdrawn_dependents (queueItems : List QueueItem) (es : List QueueAction)
    (d : QueueDependency) :
    ∃ l : List (QueueItemId × SyncQueueEvent),
      ((new queueItems).run es).handleDependencyFailure d = ((new queueItems).run es).withdraw l ∧
      (l.map Prod.fst).Nodup ∧
      (∀ id, id ∈ l.map Prod.fst ↔ ((new queueItems).run es).Dependent d id) ∧
      (∀ e ∈ l, e.2.isFailure = true) ∧
      ∀ id ∈ l.map Prod.fst, id ∈ ((new queueItems).run es).queued := by
  have hwf := (moves_run (wellFormed_new queueItems) es).wellFormed (wellFormed_new queueItems)
  obtain ⟨l, hl, hspec⟩ := handleDependencyFailure_spec hwf d
  refine ⟨l, hl, hspec.nodup, hspec.mem, hspec.failure, fun id hid => ?_⟩
  obtain ⟨dependencies, hd⟩ := ((hspec.mem id).mp hid).queueDependencies
  exact hwf.queued_of_dependencies id (by rw [hd]; exact Option.some_ne_none _)

end SyncQueue

end Clinch
