import Clinch.AgentRestore.Change

/-!
# The invariant of the restore queue

* `SingleWriter`: a duplicate is neither queued nor started;
* `releases`, `prompts`: what an entry may still cause counts as if it had happened;
* `Claimed`: a pane that was mid-turn is to continue, or why it is not;
* `Inv`, **`Changes.inv`**: preserved by every change of the entries.
-/

set_option autoImplicit false

namespace Clinch.AgentRestore

variable {Id Uuid Key : Type}

/-- The other entry is for a live terminal with the same key. -/
def Rival (views : Id → Option Seen) (other e : RestoreEntry Id Uuid Key) : Prop :=
  other.key = e.key ∧ views other.terminal ≠ none

/-- The states in which the entry of a duplicate may be. -/
def RestoreState.Idle (s : RestoreState) : Prop :=
  s ≠ .queued ∧ s ≠ .starting ∧ s ≠ .attention didNotStartLabel

/-- An entry after one with the same key, whose terminal is live, is neither queued nor started. -/
def SingleWriter (views : Id → Option Seen) (entries : List (RestoreEntry Id Uuid Key)) : Prop :=
  entries.Pairwise fun other e => Rival views other e → e.state.Idle

section Counts

variable [DecidableEq Id] [DecidableEq Uuid]

/-- The prompt was sent to the pane. -/
def Effect.isSent (paneUuid : Uuid) : Effect Id Uuid → Bool
  | .sent _ uuid => uuid = paneUuid
  | _ => false

/-- The releases of deferred commands of a terminal, and those that are queued. -/
def releases (entries : List (RestoreEntry Id Uuid Key)) (log : List (Effect Id Uuid))
    (terminal : Id) : ℕ :=
  log.count (.released terminal) +
    entries.countP fun e => e.terminal = terminal ∧ e.state = .queued

/-- The prompts sent to a pane, and those still to send. -/
def prompts (entries : List (RestoreEntry Id Uuid Key)) (log : List (Effect Id Uuid))
    (paneUuid : Uuid) : ℕ :=
  log.countP (Effect.isSent paneUuid) +
    entries.countP fun e => e.paneUuid = paneUuid ∧ e.continuePending

end Counts

/-- The claim of a pane was settled: its prompt was sent, someone took over, it was given up or its
tab was closed. -/
def Settled (log : List (Effect Id Uuid)) (terminal : Id) (paneUuid : Uuid) : Prop :=
  .sent terminal paneUuid ∈ log ∨
    (∃ unavailable typed, .finished terminal paneUuid unavailable typed ∈ log) ∨
    .gaveUp terminal paneUuid ∈ log ∨ .closed terminal ∈ log

/-- The pane is still to continue, or its claim was settled. -/
def Claimed (entries : List (RestoreEntry Id Uuid Key)) (log : List (Effect Id Uuid))
    (terminal : Id) (paneUuid : Uuid) : Prop :=
  (∃ e ∈ entries, e.terminal = terminal ∧ e.paneUuid = paneUuid ∧ e.continuePending = true) ∨
    Settled log terminal paneUuid

/-- What holds of the terminals in every state. -/
structure TerminalsInv (views : Id → Option Seen) (opened : List Id)
    (log : List (Effect Id Uuid)) : Prop where
  view_opened : ∀ terminal, views terminal ≠ none → terminal ∈ opened
  typed : ∀ terminal view, views terminal = some view →
    (view.userInputEpoch = 0 ↔ .typed terminal ∉ log)
  typed_opened : ∀ terminal, .typed terminal ∈ log → terminal ∈ opened
  closed : ∀ terminal ∈ opened, views terminal = none → .closed terminal ∈ log

/-- What holds of the entries in every state. -/
structure Inv [DecidableEq Id] [DecidableEq Uuid] (views : Id → Option Seen) (opened : List Id)
    (unclaimed : Finset Uuid) (entries : List (RestoreEntry Id Uuid Key))
    (log : List (Effect Id Uuid)) : Prop where
  starting : startingCount entries ≤ concurrentStarts
  nodup : (entries.map RestoreEntry.terminal).Nodup
  opened : ∀ e ∈ entries, e.terminal ∈ opened
  background : ∀ e ∈ entries, ∀ view, views e.terminal = some view →
    view.backgroundAgentRestore = true
  writer : SingleWriter views entries
  enqueued : ∀ terminal, log.count (.enqueued terminal) =
    (entries.map RestoreEntry.terminal).count terminal
  releases_le : ∀ terminal, releases entries log terminal ≤
    log.count (.enqueued terminal) + log.count (.retried terminal)
  prompts_le : ∀ paneUuid, prompts entries log paneUuid +
    (if paneUuid ∈ unclaimed then 1 else 0) ≤ 1
  claims : ∀ terminal paneUuid, .claimed terminal paneUuid ∈ log →
    Claimed entries log terminal paneUuid
  finishes : ∀ terminal paneUuid unavailable typed,
    .finished terminal paneUuid unavailable typed ∈ log →
      typed = true ∨ unavailable = some .humanInputOrDraft ∨ unavailable = some .working

/-! ## One change -/

theorem Settled.mono {log effects : List (Effect Id Uuid)} {terminal : Id} {paneUuid : Uuid}
    (h : Settled log terminal paneUuid) : Settled (log ++ effects) terminal paneUuid := by
  have hsub : ∀ x, x ∈ log → x ∈ log ++ effects := fun _ => List.mem_append_left _
  rcases h with h | ⟨unavailable, typed, h⟩ | h | h
  · exact Or.inl (hsub _ h)
  · exact Or.inr (Or.inl ⟨unavailable, typed, hsub _ h⟩)
  · exact Or.inr (Or.inr (Or.inl (hsub _ h)))
  · exact Or.inr (Or.inr (Or.inr (hsub _ h)))

variable {views : Id → Option Seen} {n : ℕ} {e e' : RestoreEntry Id Uuid Key}
  {effects : List (Effect Id Uuid)}

theorem Change.samePane (h : Change views n e e' effects) : SamePane e e' := by
  cases h <;> assumption

/-- A change is not seen as an event of the user or an enqueued tab. -/
theorem Change.notMem (h : Change views n e e' effects) (terminal : Id) (paneUuid : Uuid) :
    .typed terminal ∉ effects ∧ .enqueued terminal ∉ effects ∧
      .claimed terminal paneUuid ∉ effects := by
  cases h <;> simp

theorem Change.idle (h : Change views n e e' effects) (he : e.state.Idle) : e'.state.Idle := by
  have hsettles : Settles e.state e'.state → e'.state.Idle := by
    intro hs
    refine ⟨fun h => he.1 (hs.1 h), fun h => he.2.1 (hs.2.1 h), fun h => ?_⟩
    rcases hs.2.2 h with h | h
    · exact he.2.1 h
    · exact he.2.2 h
  cases h with
  | closed _ _ hs _ =>
    rw [hs]
    exact ⟨fun h => (nomatch h), fun h => (nomatch h), fun h => (nomatch h)⟩
  | settled _ hs _ | sent _ hs | finished _ hs | gaveUp _ hs => exact hsettles hs
  | released _ hs _ _ _ => exact absurd hs he.1
  | retried _ hs _ _ => exact absurd hs he.2.2

theorem SingleWriter.change {pre post : List (RestoreEntry Id Uuid Key)}
    (hw : SingleWriter views (pre ++ e :: post)) (h : Change views n e e' effects) :
    SingleWriter views (pre ++ e' :: post) := by
  have hpane := h.samePane
  unfold SingleWriter at hw ⊢
  rw [List.pairwise_append, List.pairwise_cons] at hw ⊢
  obtain ⟨hpre, ⟨he, hpost⟩, hcross⟩ := hw
  refine ⟨hpre, ⟨fun other ho hr => he other ho ?_, hpost⟩, fun x hx y hy hr => ?_⟩
  · unfold Rival at hr ⊢
    rwa [hpane.key, hpane.terminal] at hr
  · rcases List.mem_cons.mp hy with rfl | hy
    · refine h.idle (hcross x hx e List.mem_cons_self ?_)
      unfold Rival at hr ⊢
      rwa [hpane.key] at hr
    · exact hcross x hx y (List.mem_cons_of_mem _ hy) hr

section Counts

variable [DecidableEq Id] [DecidableEq Uuid] {pre post : List (RestoreEntry Id Uuid Key)}
  {log : List (Effect Id Uuid)}

/-- A release uses up a queued entry. -/
theorem releases_change (h : Change views n e e' effects) (terminal : Id) :
    releases (pre ++ e' :: post) (log ++ effects) terminal ≤
      releases (pre ++ e :: post) log terminal + effects.count (.retried terminal) := by
  have hpane := h.samePane
  unfold releases
  simp only [List.count_append, List.countP_append, List.countP_cons, decide_eq_true_eq,
    hpane.terminal]
  have hquiet : (e'.state = .queued → e.state = .queued) →
      (if e.terminal = terminal ∧ e'.state = .queued then 1 else 0) ≤
        if e.terminal = terminal ∧ e.state = .queued then 1 else 0 := by
    intro hs
    by_cases he : e.terminal = terminal ∧ e'.state = .queued
    · rw [if_pos he, if_pos ⟨he.1, hs he.2⟩]
    · rw [if_neg he]
      exact Nat.zero_le _
  cases h with
  | closed _ _ hs _ =>
    have := hquiet fun hq => nomatch hs.symm.trans hq
    rw [List.count_nil, List.count_nil]
    omega
  | settled _ hs _ =>
    have := hquiet hs.1
    rw [List.count_nil, List.count_nil]
    omega
  | sent _ hs | finished _ hs | gaveUp _ hs =>
    have := hquiet hs.1
    simp only [List.count_singleton, beq_iff_eq, reduceCtorEq, if_false]
    omega
  | released _ hq hs _ _ =>
    rw [List.count_singleton, List.count_singleton, hq, hs]
    simp only [reduceCtorEq, and_false, and_true, if_false, beq_iff_eq, Effect.released.injEq]
    omega
  | retried _ hq hs _ =>
    rw [List.count_singleton, List.count_singleton, hq, hs]
    simp only [reduceCtorEq, and_false, and_true, if_false, beq_iff_eq, Effect.retried.injEq]
    omega

omit [DecidableEq Id] in
/-- A prompt uses up a pane that is to continue. -/
theorem prompts_change (h : Change views n e e' effects) (paneUuid : Uuid) :
    prompts (pre ++ e' :: post) (log ++ effects) paneUuid ≤
      prompts (pre ++ e :: post) log paneUuid := by
  have hpane := h.samePane
  unfold prompts
  simp only [List.countP_append, List.countP_cons, decide_eq_true_eq, hpane.paneUuid]
  have hquiet : (e'.continuePending = true → e.continuePending = true) →
      (if e.paneUuid = paneUuid ∧ e'.continuePending = true then 1 else 0) ≤
        if e.paneUuid = paneUuid ∧ e.continuePending = true then 1 else 0 := by
    intro hs
    by_cases he : e.paneUuid = paneUuid ∧ e'.continuePending = true
    · rw [if_pos he, if_pos ⟨he.1, hs he.2⟩]
    · rw [if_neg he]
      exact Nat.zero_le _
  cases h with
  | closed _ _ _ hs =>
    have := hquiet fun hp => nomatch hs.symm.trans hp
    rw [List.countP_nil]
    omega
  | settled _ _ _ hs =>
    have := hquiet fun hp => hs.symm.trans hp
    rw [List.countP_nil]
    omega
  | sent _ _ hp _ _ _ _ hs =>
    rw [List.countP_singleton, hp, hs]
    simp only [Effect.isSent, Bool.false_eq_true, and_false, and_true, if_false,
      decide_eq_true_eq]
    omega
  | finished _ _ _ hs _ | gaveUp _ _ _ hs =>
    have := hquiet fun hp => nomatch hs.symm.trans hp
    rw [List.countP_singleton, if_neg (by simp [Effect.isSent])]
    omega
  | released _ _ _ hs _ | retried _ _ _ hs =>
    have := hquiet fun hp => hs.symm.trans hp
    rw [List.countP_singleton, if_neg (by simp [Effect.isSent])]
    omega

omit [DecidableEq Id] [DecidableEq Uuid] in
/-- A claim is kept or settled. -/
theorem Claimed.change {terminal : Id} {paneUuid : Uuid}
    (hc : Claimed (pre ++ e :: post) log terminal paneUuid) (h : Change views n e e' effects)
    (hclosed : views e.terminal = none → .closed e.terminal ∈ log) :
    Claimed (pre ++ e' :: post) (log ++ effects) terminal paneUuid := by
  have hpane := h.samePane
  rcases hc with ⟨x, hx, hterminal, huuid, hpending⟩ | hc
  · rw [List.mem_append, List.mem_cons] at hx
    have hkeep : ∀ y ∈ pre ++ e' :: post, y.terminal = x.terminal → y.paneUuid = x.paneUuid →
        y.continuePending = true → Claimed (pre ++ e' :: post) (log ++ effects) terminal paneUuid :=
      fun y hy ht hu hp => Or.inl ⟨y, hy, ht.trans hterminal, hu.trans huuid, hp⟩
    rcases hx with hx | rfl | hx
    · exact hkeep x (by simp [hx]) rfl rfl hpending
    · have hmem : ∀ y, y ∈ effects → y ∈ log ++ effects := fun y => List.mem_append_right _
      have hstay : e'.continuePending = x.continuePending →
          Claimed (pre ++ e' :: post) (log ++ effects) terminal paneUuid := fun hs =>
        hkeep e' (by simp) hpane.terminal hpane.paneUuid (hs.trans hpending)
      subst hterminal huuid
      cases h with
      | closed _ hv _ _ => exact Or.inr (Or.inr (Or.inr (Or.inr (by simpa using hclosed hv))))
      | settled _ _ _ hs => exact hstay hs
      | sent => exact Or.inr (Or.inl (hmem _ (by simp)))
      | @finished unavailable typed =>
        exact Or.inr (Or.inr (Or.inl ⟨unavailable, typed, hmem _ (by simp)⟩))
      | gaveUp => exact Or.inr (Or.inr (Or.inr (Or.inl (hmem _ (by simp)))))
      | released _ _ _ hs _ => exact hstay hs
      | retried _ _ _ hs => exact hstay hs
    · exact hkeep x (by simp [hx]) rfl rfl hpending
  · exact Or.inr hc.mono

end Counts

/-! ## Every change -/

section Step

variable {opened : List Id} {unclaimed : Finset Uuid} {pre post : List (RestoreEntry Id Uuid Key)}
  {entries entries' : List (RestoreEntry Id Uuid Key)} {log : List (Effect Id Uuid)}

theorem TerminalsInv.append {new : List (Effect Id Uuid)} (ht : TerminalsInv views opened log)
    (hnew : ∀ terminal, .typed terminal ∉ new) : TerminalsInv views opened (log ++ new) where
  view_opened := ht.view_opened
  typed terminal view hv := by
    rw [ht.typed terminal view hv, List.mem_append, not_or]
    exact ⟨fun hl => ⟨hl, hnew terminal⟩, And.left⟩
  typed_opened terminal hl :=
    ht.typed_opened terminal ((List.mem_append.mp hl).resolve_right (hnew terminal))
  closed terminal ho hv := List.mem_append_left _ (ht.closed terminal ho hv)

variable [DecidableEq Id] [DecidableEq Uuid]

theorem Inv.change (hi : Inv views opened unclaimed (pre ++ e :: post) log)
    (ht : TerminalsInv views opened log)
    (h : Change views (startingCount (pre ++ e :: post)) e e' effects) :
    Inv views opened unclaimed (pre ++ e' :: post) (log ++ effects) := by
  have hpane := h.samePane
  have hmem : ∀ x ∈ pre ++ e' :: post, ∃ y ∈ pre ++ e :: post, y.terminal = x.terminal := by
    intro x hx
    rw [List.mem_append, List.mem_cons] at hx
    rcases hx with hx | rfl | hx
    · exact ⟨x, by simp [hx], rfl⟩
    · exact ⟨e, by simp, hpane.terminal.symm⟩
    · exact ⟨x, by simp [hx], rfl⟩
  have hmap : (pre ++ e' :: post).map RestoreEntry.terminal =
      (pre ++ e :: post).map RestoreEntry.terminal := by
    simp only [List.map_append, List.map_cons, hpane.terminal]
  have hnew : ∀ terminal, effects.count (.enqueued terminal) = 0 := fun terminal =>
    List.count_eq_zero.mpr (h.notMem terminal e.paneUuid).2.1
  constructor
  · exact (Changes.step h (.refl _)).startingCount_le hi.starting
  · rw [hmap]
    exact hi.nodup
  · intro x hx
    obtain ⟨y, hy, hxy⟩ := hmem x hx
    exact hxy ▸ hi.opened y hy
  · intro x hx view hv
    obtain ⟨y, hy, hxy⟩ := hmem x hx
    exact hi.background y hy view (hxy ▸ hv)
  · exact hi.writer.change h
  · intro terminal
    rw [hmap, List.count_append, hnew, Nat.add_zero, hi.enqueued]
  · intro terminal
    have hle := @releases_change Id Uuid Key views _ e e' effects _ _ pre post log h terminal
    have hold := hi.releases_le terminal
    rw [List.count_append, List.count_append, hnew]
    omega
  · intro paneUuid
    have hle := @prompts_change Id Uuid Key views _ e e' effects _ pre post log h paneUuid
    have hold := hi.prompts_le paneUuid
    omega
  · intro terminal paneUuid hl
    rcases List.mem_append.mp hl with hl | hl
    · refine (hi.claims terminal paneUuid hl).change h fun hv => ?_
      exact ht.closed _ (hi.opened e (by simp)) hv
    · exact absurd hl (h.notMem terminal paneUuid).2.2
  · intro terminal paneUuid unavailable typed hl
    rcases List.mem_append.mp hl with hl | hl
    · exact hi.finishes terminal paneUuid unavailable typed hl
    · cases h with
      | finished _ _ _ _ hreason =>
        obtain ⟨-, -, rfl, rfl⟩ := Effect.finished.inj (List.mem_singleton.mp hl)
        exact hreason
      | closed | settled => exact absurd hl List.not_mem_nil
      | sent | gaveUp | released | retried => exact nomatch List.mem_singleton.mp hl

/-- **Every sequence of changes keeps the invariant.** -/
theorem Changes.inv (h : Changes views entries entries' effects)
    (hi : Inv views opened unclaimed entries log) (ht : TerminalsInv views opened log) :
    Inv views opened unclaimed entries' (log ++ effects) ∧
      TerminalsInv views opened (log ++ effects) := by
  induction h generalizing log with
  | refl =>
    rw [List.append_nil]
    exact ⟨hi, ht⟩
  | @step _ _ _ e _ _ _ hc _ ih =>
    rw [← List.append_assoc]
    exact ih (hi.change ht hc) (ht.append fun t => (hc.notMem t e.paneUuid).1)

omit [DecidableEq Id] [DecidableEq Uuid] in
theorem Changes.panes (h : Changes views entries entries' effects) :
    entries'.map (fun e => (e.terminal, e.key)) = entries.map fun e => (e.terminal, e.key) := by
  induction h with
  | refl => rfl
  | step hc _ ih =>
    rw [ih]
    simp only [List.map_append, List.map_cons, hc.samePane.terminal, hc.samePane.key]

omit [DecidableEq Id] [DecidableEq Uuid] in
/-- **What is released has no rival before it.** -/
theorem Changes.released (h : Changes views entries entries' effects)
    (hw : SingleWriter views entries) (hnodup : (entries.map RestoreEntry.terminal).Nodup) :
    entries.Pairwise fun other e => .released e.terminal ∈ effects → ¬ Rival views other e := by
  -- in terms of what does not change, so that the induction reaches the first list
  suffices hpanes : (entries.map fun e => (e.terminal, e.key)).Pairwise fun other e =>
      .released e.1 ∈ effects → ¬ (other.2 = e.2 ∧ views other.1 ≠ none) by
    exact List.pairwise_map.mp hpanes
  induction h with
  | refl => exact List.Pairwise.imp (fun _ h => absurd h List.not_mem_nil) (List.pairwise_of_forall
      fun _ _ => trivial)
  | @step pre post _ e e' effects effects' hc hrest ih =>
    have hpane := hc.samePane
    have hmap : ∀ f : Id × Key → Id × Key, (pre ++ e' :: post).map (fun e => f (e.terminal, e.key)) =
        (pre ++ e :: post).map fun e => f (e.terminal, e.key) := by
      intro f
      simp only [List.map_append, List.map_cons, hpane.terminal, hpane.key]
    have hlater := ih (hw.change hc) (by
      simp only [List.map_append, List.map_cons, hpane.terminal] at hnodup ⊢
      exact hnodup)
    have hsame := hmap id
    simp only [id] at hsame
    rw [hsame] at hlater
    have hnow : ((pre ++ e :: post).map fun e => (e.terminal, e.key)).Pairwise fun other e =>
        .released e.1 ∈ effects → ¬ (other.2 = e.2 ∧ views other.1 ≠ none) := by
      rw [List.pairwise_map]
      refine hw.imp_of_mem fun {other x} _ hx hidle hreleased hrival => ?_
      -- the entry that is released is queued, and no other one is for its terminal
      cases hc with
      | released _ hqueued _ _ _ =>
        have hterminal := Effect.released.inj (List.mem_singleton.mp hreleased)
        have hxe : x = e := List.inj_on_of_nodup_map hnodup hx (by simp) hterminal
        exact (hidle hrival).1 (hxe ▸ hqueued)
      | closed | settled => exact absurd hreleased List.not_mem_nil
      | sent | gaveUp | finished | retried => exact nomatch List.mem_singleton.mp hreleased
    refine (hnow.and hlater).imp fun h hreleased => ?_
    rcases List.mem_append.mp hreleased with hreleased | hreleased
    · exact h.1 hreleased
    · exact h.2 hreleased

/-- The entry is restored, in an open tab, and has nothing to continue. -/
def Prompted (views : Id → Option Seen) (e : RestoreEntry Id Uuid Key) : Prop :=
  e.state = .restored ∧ e.continuePending = false ∧ views e.terminal ≠ none

omit [DecidableEq Id] [DecidableEq Uuid] in
theorem Change.prompted (h : Change views n e e' effects) (hp : Prompted views e) :
    Prompted views e' := by
  obtain ⟨hs, hc, hv⟩ := hp
  have hv' : views e'.terminal ≠ none := by rwa [h.samePane.terminal]
  cases h with
  | closed _ hnone _ _ => exact absurd hnone hv
  | settled _ _ hrestored hcontinue => exact ⟨hrestored hs, hcontinue.trans hc, hv'⟩
  | sent _ _ hpending | finished _ _ hpending | gaveUp _ _ hpending =>
    exact nomatch hc.symm.trans hpending
  | released _ hqueued _ _ _ => exact nomatch hs.symm.trans hqueued
  | retried _ hstalled _ _ => exact nomatch hs.symm.trans hstalled

omit [DecidableEq Id] [DecidableEq Uuid] in
theorem Changes.prompted (h : Changes views entries entries' effects) {terminal : Id}
    {paneUuid : Uuid} (hp : ∃ e ∈ entries, e.terminal = terminal ∧ e.paneUuid = paneUuid ∧
      Prompted views e) :
    ∃ e ∈ entries', e.terminal = terminal ∧ e.paneUuid = paneUuid ∧ Prompted views e := by
  induction h with
  | refl => exact hp
  | @step pre post _ e e' _ _ hc _ ih =>
    refine ih ?_
    obtain ⟨x, hx, hterminal, huuid, hprompted⟩ := hp
    rw [List.mem_append, List.mem_cons] at hx
    rcases hx with hx | rfl | hx
    · exact ⟨x, by simp [hx], hterminal, huuid, hprompted⟩
    · exact ⟨e', by simp, hc.samePane.terminal.trans hterminal, hc.samePane.paneUuid.trans huuid,
        hc.prompted hprompted⟩
    · exact ⟨x, by simp [hx], hterminal, huuid, hprompted⟩

omit [DecidableEq Id] [DecidableEq Uuid] in
/-- **A prompt is sent to a restored agent with an empty composer that nobody typed to.** -/
theorem Changes.sent (h : Changes views entries entries' effects) {terminal : Id}
    {paneUuid : Uuid} (hsent : .sent terminal paneUuid ∈ effects) :
    (∃ e ∈ entries', e.terminal = terminal ∧ e.paneUuid = paneUuid ∧ e.state = .restored) ∧
      ∃ view, views terminal = some view ∧ view.composerIsEmpty = true ∧ view.userInputEpoch = 0 := by
  induction h with
  | refl => exact absurd hsent List.not_mem_nil
  | @step pre post _ e e' effects effects' hc hrest ih =>
    rcases List.mem_append.mp hsent with hnow | hlater
    · cases hc with
      | @sent view hpane _ _ hview hempty hepoch hrestored hcontinue =>
        obtain ⟨rfl, rfl⟩ := Effect.sent.inj (List.mem_singleton.mp hnow)
        have hlive : views e'.terminal ≠ none := by
          rw [hpane.terminal, hview]
          exact Option.some_ne_none view
        obtain ⟨x, hx, hterminal, huuid, hprompted⟩ := hrest.prompted
          ⟨e', by simp, hpane.terminal, hpane.paneUuid, hrestored, hcontinue, hlive⟩
        exact ⟨⟨x, hx, hterminal, huuid, hprompted.1⟩, view, hview, hempty, hepoch⟩
      | closed | settled => exact absurd hnow List.not_mem_nil
      | finished | gaveUp | released | retried => exact nomatch List.mem_singleton.mp hnow
    · exact ih hlater

/-! ## Outside the queue -/

/-- What is seen of a tab besides the queue, and of its records. -/
def Effect.Outside : Effect Id Uuid → Prop
  | .closed _ | .typed _ | .recorded _ _ => True
  | _ => False

/-- A terminal that was opened is never live again, and stays in the background. -/
theorem Inv.outside {views' : Id → Option Seen} {opened' : List Id} {new : List (Effect Id Uuid)}
    (hi : Inv views opened unclaimed entries log) (hsub : ∀ t ∈ opened, t ∈ opened')
    (hlive : ∀ t ∈ opened, ∀ view', views' t = some view' → ∃ view, views t = some view ∧
      (view.backgroundAgentRestore = true → view'.backgroundAgentRestore = true))
    (hnew : ∀ x ∈ new, x.Outside) : Inv views' opened' unclaimed entries (log ++ new) := by
  have hcount : ∀ x : Effect Id Uuid, ¬ x.Outside → new.count x = 0 := fun x hx =>
    List.count_eq_zero.mpr fun h => hx (hnew x h)
  have hold : ∀ x : Effect Id Uuid, ¬ x.Outside → x ∈ log ++ new → x ∈ log := fun x hx h =>
    (List.mem_append.mp h).resolve_right fun h => hx (hnew x h)
  constructor
  · exact hi.starting
  · exact hi.nodup
  · exact fun e he => hsub _ (hi.opened e he)
  · intro e he view' hv
    obtain ⟨view, hview, hbackground⟩ := hlive _ (hi.opened e he) view' hv
    exact hbackground (hi.background e he view hview)
  · refine List.Pairwise.imp_of_mem (fun {other e} ho _ h hr => h ⟨hr.1, ?_⟩) hi.writer
    obtain ⟨view', hview'⟩ := Option.ne_none_iff_exists'.mp hr.2
    obtain ⟨view, hview, -⟩ := hlive _ (hi.opened other ho) view' hview'
    exact hview ▸ Option.some_ne_none view
  · intro terminal
    rw [List.count_append, hcount _ id, Nat.add_zero, hi.enqueued]
  · intro terminal
    have h := hi.releases_le terminal
    unfold releases at h ⊢
    rw [List.count_append, List.count_append, List.count_append, hcount _ id, hcount _ id,
      hcount _ id]
    exact h
  · intro paneUuid
    have h := hi.prompts_le paneUuid
    have hsent : new.countP (Effect.isSent paneUuid) = 0 := by
      refine List.countP_eq_zero.mpr fun x hx hsent => ?_
      have hout := hnew x hx
      cases x <;> first | exact hout | exact nomatch hsent
    unfold prompts at h ⊢
    rw [List.countP_append, hsent]
    exact h
  · intro terminal paneUuid hl
    rcases hi.claims terminal paneUuid (hold _ id hl) with h | h
    · exact Or.inl h
    · exact Or.inr h.mono
  · exact fun terminal paneUuid unavailable typed hl =>
      hi.finishes terminal paneUuid unavailable typed (hold _ id hl)

theorem Inv.forget {unclaimed' : Finset Uuid} (hi : Inv views opened unclaimed entries log)
    (hsub : unclaimed' ⊆ unclaimed) : Inv views opened unclaimed' entries log :=
  { hi with
    prompts_le := fun paneUuid => by
      have h := hi.prompts_le paneUuid
      by_cases hu : paneUuid ∈ unclaimed'
      · rw [if_pos (hsub hu)] at h
        rwa [if_pos hu]
      · rw [if_neg hu]
        omega }

/-- A new entry, which is not queued when its key has a live terminal. -/
theorem Inv.enqueue {views' : Id → Option Seen} {entry : RestoreEntry Id Uuid Key}
    {new : List (Effect Id Uuid)} (hi : Inv views opened unclaimed entries log)
    (hfresh : entry.terminal ∉ entries.map RestoreEntry.terminal) (hopen : entry.terminal ∈ opened)
    (hviews : ∀ t, t ≠ entry.terminal → views' t = views t)
    (hback : ∀ view, views' entry.terminal = some view → view.backgroundAgentRestore = true)
    (hstate : entry.state = .queued ∨ entry.state.Idle)
    (hdup : ∀ other ∈ entries, Rival views other entry → entry.state.Idle)
    (hpending : entry.continuePending = true ↔ entry.paneUuid ∈ unclaimed)
    (hnew : new = .enqueued entry.terminal :: if entry.continuePending then
      [.claimed entry.terminal entry.paneUuid] else []) :
    Inv views' opened (unclaimed.erase entry.paneUuid) (entries ++ [entry]) (log ++ new) := by
  have hother : ∀ e ∈ entries, e.terminal ≠ entry.terminal := fun e he h =>
    hfresh (h ▸ List.mem_map_of_mem he)
  have hrival : ∀ e ∈ entries, ∀ e', Rival views' e e' → Rival views e e' := by
    intro e he e' hr
    unfold Rival at hr ⊢
    rwa [hviews _ (hother e he)] at hr
  have hmem : ∀ x ∈ new, x = .enqueued entry.terminal ∨
      entry.continuePending = true ∧ x = .claimed entry.terminal entry.paneUuid := by
    intro x hx
    rw [hnew, List.mem_cons] at hx
    rcases hx with hx | hx
    · exact Or.inl hx
    · split at hx
      · exact Or.inr ⟨‹_›, List.mem_singleton.mp hx⟩
      · exact absurd hx List.not_mem_nil
  have hzero : ∀ x : Effect Id Uuid, x ≠ .enqueued entry.terminal →
      x ≠ .claimed entry.terminal entry.paneUuid → new.count x = 0 := fun x h h' =>
    List.count_eq_zero.mpr fun hx => (hmem x hx).elim h fun hx => h' hx.2
  have henqueued : ∀ t, new.count (.enqueued t) = if entry.terminal = t then 1 else 0 := by
    intro t
    rw [hnew, List.count_cons]
    split <;> simp
  constructor
  · have h := hi.starting
    unfold startingCount at h ⊢
    rw [List.countP_append, List.countP_singleton, if_neg]
    · exact h
    · rcases hstate with hs | hs
      · simp [hs]
      · simpa using hs.2.1
  · rw [List.map_append, List.map_singleton]
    exact List.nodup_append.mpr ⟨hi.nodup, List.nodup_singleton _, fun t ht t' ht' h =>
      hfresh (by rw [← List.mem_singleton.mp ht', ← h]; exact ht)⟩
  · intro e he
    rcases List.mem_append.mp he with he | he
    · exact hi.opened e he
    · rw [List.mem_singleton.mp he]
      exact hopen
  · intro e he view hv
    rcases List.mem_append.mp he with he | he
    · exact hi.background e he view (hviews _ (hother e he) ▸ hv)
    · rw [List.mem_singleton.mp he] at hv
      exact hback view hv
  · unfold SingleWriter
    rw [List.pairwise_append]
    refine ⟨hi.writer.imp_of_mem fun {other e} ho _ h hr => h (hrival other ho e hr),
      List.pairwise_singleton _ _, fun other ho e he hr => ?_⟩
    rw [List.mem_singleton.mp he] at hr ⊢
    exact hdup other ho (hrival other ho _ hr)
  · intro t
    rw [List.count_append, hi.enqueued, List.map_append, List.count_append, henqueued,
      List.map_singleton, List.count_singleton]
    simp only [beq_iff_eq]
  · intro t
    have h := hi.releases_le t
    unfold releases at h ⊢
    rw [List.count_append, List.count_append, List.count_append, henqueued,
      hzero _ (by simp) (by simp), hzero _ (by simp) (by simp), List.countP_append,
      List.countP_singleton]
    have hle : (if decide (entry.terminal = t ∧ entry.state = .queued) = true then 1 else 0) ≤
        if entry.terminal = t then 1 else 0 := by
      by_cases ht : entry.terminal = t
      · rw [if_pos ht]
        split <;> omega
      · rw [if_neg (by simp [ht])]
        exact Nat.zero_le _
    omega
  · intro paneUuid
    have h := hi.prompts_le paneUuid
    have hsent : new.countP (Effect.isSent paneUuid) = 0 := by
      refine List.countP_eq_zero.mpr fun x hx hsent => ?_
      rcases hmem x hx with rfl | ⟨-, rfl⟩ <;> exact nomatch hsent
    unfold prompts at h ⊢
    rw [List.countP_append, hsent, List.countP_append, List.countP_singleton]
    simp only [decide_eq_true_eq, Finset.mem_erase]
    by_cases hp : entry.paneUuid = paneUuid
    · subst hp
      by_cases hu : entry.paneUuid ∈ unclaimed
      · rw [if_pos hu] at h
        rw [if_pos ⟨rfl, hpending.mpr hu⟩, if_neg (by simp)]
        omega
      · rw [if_neg hu] at h
        rw [if_neg (by simpa [hpending] using hu), if_neg (by simp)]
        omega
    · rw [if_neg (by simp [hp])]
      have hle : (if paneUuid ≠ entry.paneUuid ∧ paneUuid ∈ unclaimed then 1 else 0) ≤
          if paneUuid ∈ unclaimed then 1 else 0 := by
        split
        · rw [if_pos (And.right ‹_›)]
        · exact Nat.zero_le _
      omega
  · intro t paneUuid hl
    rcases List.mem_append.mp hl with hl | hl
    · rcases hi.claims t paneUuid hl with ⟨e, he, h⟩ | h
      · exact Or.inl ⟨e, List.mem_append_left _ he, h⟩
      · exact Or.inr h.mono
    · rcases hmem _ hl with h | ⟨hc, h⟩
      · exact nomatch h
      · obtain ⟨rfl, rfl⟩ := Effect.claimed.inj h
        exact Or.inl ⟨entry, by simp, rfl, rfl, hc⟩
  · intro t paneUuid unavailable typed hl
    rcases List.mem_append.mp hl with hl | hl
    · exact hi.finishes t paneUuid unavailable typed hl
    · rcases hmem _ hl with h | ⟨-, h⟩ <;> exact nomatch h

end Step

end Clinch.AgentRestore
