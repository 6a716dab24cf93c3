import Clinch.AgentRestore.Queue

/-!
# What the queue can do to an entry

A tick and a retry change one entry after the other. `Change` lists what one of these changes can be,
given what does not change of the views meanwhile; everything else follows from it by induction.

* `Seen`: what of a view only the user and the app change;
* `Change`, `Changes`;
* `observe_change`, `start_change`, `retryEntry_change`: each step is a change;
* **`tick_changes`**, `retryStalled_changes`: so a call is a sequence of changes.
-/

set_option autoImplicit false

namespace Clinch.AgentRestore

variable {Id Uuid Key : Type}

/-- What the queue reads of a view and does not change. -/
structure Seen where
  backgroundAgentRestore : Bool
  userInputEpoch : ℕ
  composerIsEmpty : Bool

/-- What is seen of a view. -/
def View.seen (view : View Key) : Seen :=
  ⟨view.backgroundAgentRestore, view.userInputEpoch, view.composerIsEmpty⟩

/-- What is seen of the views. -/
def seen (views : Views Id Key) : Id → Option Seen := fun terminal => (views terminal).map View.seen

theorem seen_update [DecidableEq Id] {views : Views Id Key} {terminal : Id} {view : Option (View Key)}
    (h : view.map View.seen = (views terminal).map View.seen) :
    seen (Function.update views terminal view) = seen views := by
  funext other
  unfold seen
  by_cases ho : other = terminal
  · rw [ho, Function.update_self, h]
  · rw [Function.update_of_ne ho]

/-- A change of state that starts nothing and makes nothing a stalled start, unless it was starting. -/
def Settles (s s' : RestoreState) : Prop :=
  (s' = .queued → s = .queued) ∧ (s' = .starting → s = .starting) ∧
    (s' = .attention didNotStartLabel → s = .starting ∨ s = .attention didNotStartLabel)

/-- The entry is for the same pane. -/
structure SamePane (e e' : RestoreEntry Id Uuid Key) : Prop where
  terminal : e'.terminal = e.terminal
  paneUuid : e'.paneUuid = e.paneUuid
  key : e'.key = e.key

/-- What one step of a call can do to the entry `e`, when `n` entries are starting. -/
inductive Change (views : Id → Option Seen) (n : ℕ) (e : RestoreEntry Id Uuid Key) :
    RestoreEntry Id Uuid Key → List (Effect Id Uuid) → Prop
  /-- The tab is closed. -/
  | closed {e' : RestoreEntry Id Uuid Key} : SamePane e e' → views e.terminal = none →
      e'.state = .closed → e'.continuePending = false → Change views n e e' []
  | settled {e' : RestoreEntry Id Uuid Key} : SamePane e e' → Settles e.state e'.state →
      (e.state = .restored → e'.state = .restored) → e'.continuePending = e.continuePending →
      Change views n e e' []
  | sent {e' : RestoreEntry Id Uuid Key} {view : Seen} : SamePane e e' → Settles e.state e'.state →
      e.continuePending = true → views e.terminal = some view → view.composerIsEmpty = true →
      view.userInputEpoch = 0 → e'.state = .restored → e'.continuePending = false →
      Change views n e e' [.sent e.terminal e.paneUuid]
  | finished {e' : RestoreEntry Id Uuid Key} {unavailable : Option Unavailable} {typed : Bool} :
      SamePane e e' → Settles e.state e'.state → e.continuePending = true →
      e'.continuePending = false →
      typed = true ∨ unavailable = some .humanInputOrDraft ∨ unavailable = some .working →
      Change views n e e' [.finished e.terminal e.paneUuid unavailable typed]
  | gaveUp {e' : RestoreEntry Id Uuid Key} : SamePane e e' → Settles e.state e'.state →
      e.continuePending = true → e'.continuePending = false →
      Change views n e e' [.gaveUp e.terminal e.paneUuid]
  | released {e' : RestoreEntry Id Uuid Key} : SamePane e e' → e.state = .queued →
      e'.state = .starting → e'.continuePending = e.continuePending → n < concurrentStarts →
      Change views n e e' [.released e.terminal]
  | retried {e' : RestoreEntry Id Uuid Key} : SamePane e e' →
      e.state = .attention didNotStartLabel → e'.state = .queued →
      e'.continuePending = e.continuePending → Change views n e e' [.retried e.terminal]

/-- A sequence of changes. -/
inductive Changes (views : Id → Option Seen) : List (RestoreEntry Id Uuid Key) →
    List (RestoreEntry Id Uuid Key) → List (Effect Id Uuid) → Prop
  | refl (entries : List (RestoreEntry Id Uuid Key)) : Changes views entries entries []
  | step {pre post entries : List (RestoreEntry Id Uuid Key)} {e e' : RestoreEntry Id Uuid Key}
      {effects effects' : List (Effect Id Uuid)} :
      Change views (startingCount (pre ++ e :: post)) e e' effects →
      Changes views (pre ++ e' :: post) entries effects' →
      Changes views (pre ++ e :: post) entries (effects ++ effects')

variable {views : Id → Option Seen} {entries entries' entries'' : List (RestoreEntry Id Uuid Key)}
  {effects effects' : List (Effect Id Uuid)}

theorem Changes.trans (h : Changes views entries entries' effects)
    (h' : Changes views entries' entries'' effects') :
    Changes views entries entries'' (effects ++ effects') := by
  induction h with
  | refl => exact h'
  | step hc _ ih =>
    rw [List.append_assoc]
    exact .step hc (ih h')

/-! ## One entry -/

theorem SamePane.refl (e : RestoreEntry Id Uuid Key) : SamePane e e := ⟨rfl, rfl, rfl⟩

theorem Settles.refl (s : RestoreState) : Settles s s := ⟨id, id, Or.inr⟩

theorem Settles.trans {s s' s'' : RestoreState} (h : Settles s s') (h' : Settles s' s'') :
    Settles s s'' := by
  refine ⟨fun hs => h.1 (h'.1 hs), fun hs => h.2.1 (h'.2.1 hs), fun hs => ?_⟩
  rcases h'.2.2 hs with hs | hs
  · exact Or.inl (h.2.1 hs)
  · exact h.2.2 hs

theorem settles_restored (s : RestoreState) : Settles s .restored :=
  ⟨fun h => (nomatch h), fun h => (nomatch h), fun h => (nomatch h)⟩

theorem settles_attention {s : RestoreState} {reason : String}
    (h : reason = didNotStartLabel → s = .starting) : Settles s (.attention reason) :=
  ⟨fun h => (nomatch h), fun h => (nomatch h), fun hs => Or.inl (h (RestoreState.attention.inj hs))⟩

section Entry

variable {now : ℕ} {view : View Key} {entry : RestoreEntry Id Uuid Key}

/-- What an observation leaves of an entry before it is told to continue. -/
structure Watched (e e' : RestoreEntry Id Uuid Key) : Prop where
  samePane : SamePane e e'
  settles : Settles e.state e'.state
  restored : e.state = .restored → e'.state = .restored
  continuePending : e'.continuePending = e.continuePending

theorem Watched.refl (e : RestoreEntry Id Uuid Key) : Watched e e := ⟨.refl e, .refl _, id, rfl⟩

theorem Watched.trans {e e' e'' : RestoreEntry Id Uuid Key} (h : Watched e e')
    (h' : Watched e' e'') : Watched e e'' :=
  ⟨⟨h'.samePane.1.trans h.samePane.1, h'.samePane.2.trans h.samePane.2,
    h'.samePane.3.trans h.samePane.3⟩, h.settles.trans h'.settles,
    fun hs => h'.restored (h.restored hs), h'.continuePending.trans h.continuePending⟩

theorem watched_recover : Watched entry (entry.recover view) := by
  unfold RestoreEntry.recover
  split
  · split
    · exact ⟨⟨rfl, rfl, rfl⟩, settles_restored _, fun _ => rfl, rfl⟩
    · exact .refl _
  · exact .refl _

theorem watched_flag {reason : String} (h : reason = didNotStartLabel → entry.state = .starting)
    (hs : entry.state ≠ .restored) : Watched entry (entry.flag reason) :=
  ⟨⟨rfl, rfl, rfl⟩, settles_attention h, fun h => absurd h hs, rfl⟩

theorem watched_watchStart [DecidableEq Key] (hs : entry.state = .starting) :
    Watched entry (entry.watchStart now view) := by
  have hflag : ∀ (entry' : RestoreEntry Id Uuid Key) (reason : String),
      Watched entry entry' ∧ entry'.state = .starting → Watched entry (entry'.flag reason) := by
    intro entry' reason h
    exact h.1.trans (watched_flag (fun _ => h.2) (by rw [h.2]; decide))
  unfold RestoreEntry.watchStart
  split
  · exact ⟨⟨rfl, rfl, rfl⟩, settles_restored _, fun _ => rfl, rfl⟩
  · split
    · exact hflag _ _ ⟨.refl _, hs⟩
    · split
      · exact hflag _ _ ⟨.refl _, hs⟩
      · have hcancel : Watched entry (if view.hasUserInput then
            { entry with cancelPendingCommand := false } else entry) ∧
            (if view.hasUserInput then { entry with cancelPendingCommand := false }
              else entry).state = .starting := by
          split
          · exact ⟨⟨⟨rfl, rfl, rfl⟩, .refl _, id, rfl⟩, hs⟩
          · exact ⟨.refl _, hs⟩
        simp only
        generalize (if view.hasUserInput then
          { entry with cancelPendingCommand := false } else entry) = entry' at hcancel ⊢
        split
        · exact hflag _ _ hcancel
        · split
          · exact hflag _ _ hcancel
          · exact hcancel.1

theorem of_continueStep_send {unavailable : Option Unavailable} {empty typed : Bool} {elapsed : ℕ}
    (h : continueStep unavailable empty typed elapsed = .send) :
    typed = false ∧ unavailable = none ∧ empty = true := by
  unfold continueStep at h
  simp only at h
  split at h
  · exact nomatch h
  · rename_i htyped
    split at h
    · exact nomatch h
    · split at h
      · exact nomatch h
      · split at h
        · rename_i hsend
          exact ⟨Bool.eq_false_iff.mpr htyped, hsend.1, hsend.2.1⟩
        · split at h <;> exact nomatch h

theorem of_continueStep_finished {unavailable : Option Unavailable} {empty typed : Bool}
    {elapsed : ℕ} (h : continueStep unavailable empty typed elapsed = .finished) :
    typed = true ∨ unavailable = some .humanInputOrDraft ∨ unavailable = some .working := by
  unfold continueStep at h
  simp only at h
  split at h
  · exact Or.inl ‹_›
  · split at h
    · exact Or.inr (Or.inl ‹_›)
    · split at h
      · rename_i hworking
        exact Or.inr (Or.inr hworking.1)
      · split at h
        · exact nomatch h
        · split at h <;> exact nomatch h

variable {views : Id → Option Seen} {n : ℕ} {e : RestoreEntry Id Uuid Key}

theorem Watched.change (h : Watched e entry) : Change views n e entry [] :=
  .settled h.samePane h.settles h.restored h.continuePending

variable (now) in
theorem continueTurn_change (h : Watched e entry) (hview : views e.terminal = some view.seen)
    (hs : entry.state = .restored) (hpending : entry.continuePending = true) :
    Change views n e (entry.continueTurn now view).1 (entry.continueTurn now view).2.2 ∧
      (entry.continueTurn now view).2.1.seen = view.seen := by
  unfold RestoreEntry.continueTurn
  simp only [h.samePane.terminal, h.samePane.paneUuid]
  have hclaimed : e.continuePending = true := h.continuePending.symm.trans hpending
  split
  · exact ⟨.settled ⟨rfl, rfl, h.samePane.key⟩ h.settles h.restored h.continuePending, rfl⟩
  · rename_i hstep
    obtain ⟨htyped, havailable, hempty⟩ := of_continueStep_send hstep
    have hepoch : view.userInputEpoch = 0 := by
      unfold View.hasUserInput at htyped
      simpa using htyped
    unfold View.sendAgentText
    rw [havailable]
    exact ⟨.sent ⟨rfl, rfl, h.samePane.key⟩ h.settles hclaimed hview hempty hepoch hs rfl, rfl⟩
  · rename_i hstep
    exact ⟨.finished ⟨rfl, rfl, h.samePane.key⟩ h.settles hclaimed rfl
      (of_continueStep_finished hstep), rfl⟩
  · refine ⟨.gaveUp ⟨rfl, rfl, h.samePane.key⟩ (h.settles.trans ?_) hclaimed rfl, rfl⟩
    exact settles_attention fun h => absurd h (by decide)

theorem observe_change [DecidableEq Key] {view : Option (View Key)}
    (hview : views entry.terminal = view.map View.seen) :
    Change views n entry (entry.observe now view).1 (entry.observe now view).2.2 ∧
      (entry.observe now view).2.1.map View.seen = view.map View.seen := by
  unfold RestoreEntry.observe
  cases view with
  | none => exact ⟨.closed ⟨rfl, rfl, rfl⟩ hview rfl rfl, rfl⟩
  | some view =>
    simp only
    have hrecover : Watched entry (entry.recover view) := watched_recover
    have hwatch : Watched entry (if (entry.recover view).state = .starting then
        (entry.recover view).watchStart now view else entry.recover view) := by
      split
      · exact hrecover.trans (watched_watchStart ‹_›)
      · exact hrecover
    generalize (if (entry.recover view).state = .starting then
        (entry.recover view).watchStart now view else entry.recover view) = entry' at hwatch ⊢
    split
    · rename_i hrestored
      obtain ⟨hchange, hseen⟩ := continueTurn_change now hwatch hview hrestored.1
        hrestored.2
      exact ⟨hchange, congrArg some hseen⟩
    · exact ⟨hwatch.change, rfl⟩

theorem start_change [DecidableEq Key] (hqueued : entry.state = .queued)
    (hn : n < concurrentStarts) :
    Change views n entry (entry.start now view).1 (entry.start now view).2.2 ∧
      (entry.start now view).2.1.seen = view.seen := by
  unfold RestoreEntry.start
  split
  · exact ⟨(watched_flag (fun h => absurd h (by decide)) (by rw [hqueued]; decide)).change, rfl⟩
  · unfold View.releaseDeferredAgent
    simp only
    split
    · exact ⟨.released ⟨rfl, rfl, rfl⟩ hqueued rfl rfl hn, rfl⟩
    · refine ⟨.settled ⟨rfl, rfl, rfl⟩ ?_ (fun hs => nomatch hqueued.symm.trans hs) rfl, rfl⟩
      exact settles_attention fun h => absurd h (by decide)

end Entry

theorem startingCount_append (pre post : List (RestoreEntry Id Uuid Key))
    (e : RestoreEntry Id Uuid Key) : startingCount (pre ++ e :: post) =
      startingCount pre + startingCount post + if e.state = .starting then 1 else 0 := by
  unfold startingCount
  rw [List.countP_append, List.countP_cons]
  simp only [decide_eq_true_eq]
  omega

/-- **At most two entries start at once.** -/
theorem Changes.startingCount_le (h : Changes views entries entries' effects)
    (hcount : startingCount entries ≤ concurrentStarts) :
    startingCount entries' ≤ concurrentStarts := by
  induction h with
  | refl => exact hcount
  | @step pre post _ e e' _ _ hchange _ ih =>
    refine ih ?_
    rw [startingCount_append] at hcount ⊢
    have hsettles : Settles e.state e'.state → (if e'.state = .starting then 1 else 0) ≤
        if e.state = .starting then 1 else 0 := by
      intro h
      by_cases he : e'.state = .starting
      · rw [if_pos he, if_pos (h.2.1 he)]
      · rw [if_neg he]
        exact Nat.zero_le _
    cases hchange with
    | closed _ _ hs _ =>
      rw [hs]
      simp only [reduceCtorEq, if_false]
      omega
    | settled _ hs _ | sent _ hs | finished _ hs | gaveUp _ hs =>
      have := hsettles hs
      omega
    | released _ hq hs _ hn =>
      rw [startingCount_append, hq] at hn
      rw [hs]
      simp only [reduceCtorEq, if_false, if_true] at hn ⊢
      omega
    | retried _ _ hs _ =>
      rw [hs]
      simp only [reduceCtorEq, if_false]
      omega

/-! ## A call -/

theorem exists_append_of_getElem? {α : Type} {l : List α} {i : ℕ} {a : α} (h : l[i]? = some a) :
    ∃ pre post, l = pre ++ a :: post ∧ ∀ b, l.set i b = pre ++ b :: post := by
  obtain ⟨hi, rfl⟩ := List.getElem?_eq_some_iff.mp h
  refine ⟨l.take i, l.drop (i + 1), ?_, fun b => ?_⟩
  · rw [← List.drop_eq_getElem_cons hi, List.take_append_drop]
  · rw [List.set_eq_take_append_cons_drop, if_pos hi]

section Calls

variable [DecidableEq Id] [DecidableEq Key]

theorem observeAll_changes (now : ℕ) (entries : List (RestoreEntry Id Uuid Key))
    (views : Views Id Key) (pre : List (RestoreEntry Id Uuid Key)) :
    Changes (seen views) (pre ++ entries) (pre ++ (observeAll now entries views).1)
        (observeAll now entries views).2.2 ∧
      seen (observeAll now entries views).2.1 = seen views := by
  induction entries generalizing views pre with
  | nil => exact ⟨.refl _, rfl⟩
  | cons entry entries ih =>
    obtain ⟨hchange, hseen⟩ := @observe_change Id Uuid Key now entry (seen views)
      (startingCount (pre ++ entry :: entries)) _ (views entry.terminal) rfl
    have hviews := seen_update hseen
    rw [observeAll]
    simp only
    generalize entry.observe now (views entry.terminal) = observed at hchange hviews ⊢
    obtain ⟨entry', view, effects⟩ := observed
    simp only at hchange hviews ⊢
    obtain ⟨hrest, hrestseen⟩ := ih (Function.update views entry.terminal view) (pre ++ [entry'])
    rw [hviews, List.append_assoc, List.append_assoc] at hrest
    exact ⟨.step hchange hrest, hrestseen.trans hviews⟩

theorem startLoop_changes (now : ℕ) (order : List ℕ) (available : ℕ)
    (entries : List (RestoreEntry Id Uuid Key)) (views : Views Id Key)
    (hcount : available + startingCount entries ≤ concurrentStarts) :
    Changes (seen views) entries (startLoop now order available entries views).1
        (startLoop now order available entries views).2.2 ∧
      seen (startLoop now order available entries views).2.1 = seen views := by
  induction order generalizing available entries views with
  | nil => exact ⟨.refl _, rfl⟩
  | cons index order ih =>
    rw [startLoop]
    split
    · exact ⟨.refl _, rfl⟩
    · rename_i hpos
      split
      · exact ih _ _ _ hcount
      · rename_i entry hentry
        split
        · exact ih _ _ _ hcount
        · rename_i hqueued
          split
          · exact ih _ _ _ hcount
          · rename_i view hview
            obtain ⟨pre, post, rfl, hset⟩ := exists_append_of_getElem? hentry
            have hstate := not_not.mp hqueued
            obtain ⟨hchange, hseen⟩ := @start_change Id Uuid Key now view entry (seen views)
              (startingCount (pre ++ entry :: post)) _ hstate (by omega)
            have hviews : seen (Function.update views entry.terminal
                (some (entry.start now view).2.1)) = seen views :=
              seen_update (by rw [hview]; exact congrArg some hseen)
            simp only [hset]
            generalize entry.start now view = started at hchange hviews ⊢
            obtain ⟨entry', view', effects⟩ := started
            simp only at hchange hviews ⊢
            have hcount' : (if entry'.state = .starting then available - 1 else available) +
                startingCount (pre ++ entry' :: post) ≤ concurrentStarts := by
              rw [startingCount_append, hstate] at hcount
              rw [startingCount_append]
              simp only [reduceCtorEq, if_false] at hcount
              split <;> omega
            obtain ⟨hrest, hrestseen⟩ := ih _ _
              (Function.update views entry.terminal (some view')) hcount'
            rw [hviews] at hrest
            exact ⟨.step hchange hrest, hrestseen.trans hviews⟩

omit [DecidableEq Key] in
/-- A retry, of one entry. -/
theorem retryEntry_change (views : Views Id Key) (n : ℕ) (entry : RestoreEntry Id Uuid Key) :
    Change (seen views) n entry (AgentRestoreQueue.retryEntry views entry).1
        (AgentRestoreQueue.retryEntry views entry).2.2 ∧
      seen (AgentRestoreQueue.retryEntry views entry).2.1 = seen views := by
  unfold AgentRestoreQueue.retryEntry
  split
  · exact ⟨(Watched.refl entry).change, rfl⟩
  · rename_i hstate
    cases hview : views entry.terminal with
    | none => exact ⟨(Watched.refl entry).change, rfl⟩
    | some view =>
      exact ⟨.retried ⟨rfl, rfl, rfl⟩ (not_not.mp hstate) rfl rfl, seen_update (by rw [hview]; rfl)⟩

omit [DecidableEq Key] in
theorem retryAll_changes (entries : List (RestoreEntry Id Uuid Key)) (views : Views Id Key)
    (pre : List (RestoreEntry Id Uuid Key)) :
    Changes (seen views) (pre ++ entries)
        (pre ++ (AgentRestoreQueue.retryAll entries views).1)
        (AgentRestoreQueue.retryAll entries views).2.2 ∧
      seen (AgentRestoreQueue.retryAll entries views).2.1 = seen views := by
  induction entries generalizing views pre with
  | nil => exact ⟨.refl _, rfl⟩
  | cons entry entries ih =>
    obtain ⟨hchange, hviews⟩ := retryEntry_change views (startingCount (pre ++ entry :: entries)) entry
    rw [AgentRestoreQueue.retryAll]
    generalize AgentRestoreQueue.retryEntry views entry = retried at hchange hviews ⊢
    obtain ⟨entry', views', effects⟩ := retried
    simp only at hchange hviews ⊢
    obtain ⟨hrest, hrestseen⟩ := ih views' (pre ++ [entry'])
    rw [hviews, List.append_assoc, List.append_assoc] at hrest
    exact ⟨.step hchange hrest, hrestseen.trans hviews⟩

/-- What a tick does besides: it goes on as long as an entry needs it. -/
theorem tick_changes (now : ℕ) (self : AgentRestoreQueue Id Uuid Key) (views : Views Id Key)
    (hcount : startingCount self.entries ≤ concurrentStarts) :
    let (queue, views', effects, scheduled) := self.tick now views
    Changes (seen views) self.entries queue.entries effects ∧ seen views' = seen views ∧
      queue.unclaimedInterruptedPanes = self.unclaimedInterruptedPanes ∧
      queue.ticking = scheduled ∧
      ∀ entry ∈ queue.entries, entry.busy = true ∨ entry.flagged = true → scheduled = true := by
  obtain ⟨hobserve, hseen⟩ := observeAll_changes now self.entries views []
  rw [AgentRestoreQueue.tick]
  generalize observeAll now self.entries views = observed at hobserve hseen ⊢
  obtain ⟨entries, views', effects⟩ := observed
  simp only [List.nil_append] at hobserve hseen ⊢
  have hle := hobserve.startingCount_le hcount
  obtain ⟨hstart, hseen'⟩ := startLoop_changes now (startOrder entries)
    (concurrentStarts - startingCount entries) entries views' (by omega)
  generalize startLoop now (startOrder entries) (concurrentStarts - startingCount entries) entries
    views' = started at hstart hseen' ⊢
  obtain ⟨entries', views'', effects'⟩ := started
  dsimp only at hstart hseen' ⊢
  rw [hseen] at hstart
  refine ⟨hobserve.trans hstart, hseen'.trans hseen, trivial, trivial, fun entry hentry hneeds => ?_⟩
  rcases hneeds with hbusy | hflagged
  · have hany : entries'.any RestoreEntry.busy = true := List.any_eq_true.mpr ⟨entry, hentry, hbusy⟩
    rw [hany]
    rfl
  · have hany : entries'.any RestoreEntry.flagged = true :=
      List.any_eq_true.mpr ⟨entry, hentry, hflagged⟩
    rw [hany, Bool.or_true]

end Calls

end Clinch.AgentRestore
