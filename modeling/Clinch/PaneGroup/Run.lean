import Clinch.PaneGroup.Leaves

/-!
# Runs of the pane tree

A run applies operations of `PaneData` one after the other, beginning with one pane.

* `PaneData.WellFormed`: the tree is well formed, its ids are unique, `len` counts its leaves;
* `PaneOp.Sound`: an operation reports success exactly when its panes are there, then changes the
  list of panes by its own insertion, deletion or move, and changes nothing when it reports failure;
* `PaneOp.KeepsPanes`: a move finds its target, and no replacement brings in a pane that is there;
* **`PaneData.run_sound_iff`**: a run is sound exactly when every operation of it keeps the panes.
-/

set_option autoImplicit false

namespace Clinch

/-- The operations of `PaneData` on the tree. -/
inductive PaneOp (P : Type)
  | split (oldId newId : P) (direction : Direction)
  | splitRoot (newId : P) (direction : Direction)
  | remove (content : P)
  | movePane (id targetPaneId : P) (direction : Direction)
  | replacePane (originalPaneId replacementPaneId : P) (isTemporary : Bool)
  | revertTemporaryReplacement (replacementPaneId : P)

variable {P : Type} [DecidableEq P]

namespace PaneData

/-- What an operation reports, and the state after it. -/
def apply (data : PaneData P) : PaneOp P → Bool × PaneData P
  | .split oldId newId direction => data.split oldId newId direction
  | .splitRoot newId direction => (true, data.splitRoot newId direction)
  | .remove content => data.remove content
  | .movePane id targetPaneId direction => data.movePane id targetPaneId direction
  | .replacePane originalPaneId replacementPaneId isTemporary =>
    data.replacePane originalPaneId replacementPaneId isTemporary
  | .revertTemporaryReplacement replacementPaneId =>
    let (original, data) := data.revertTemporaryReplacement replacementPaneId
    (original.isSome, data)

omit [DecidableEq P] in
structure WellFormed (data : PaneData P) : Prop where
  root : data.root.WellFormed
  nodup : data.paneIds.Nodup
  len : data.len = data.paneIds.length

omit [DecidableEq P] in
theorem wellFormed_new (paneId : P) : (new paneId).WellFormed :=
  ⟨trivial, List.nodup_singleton _, rfl⟩

end PaneData

namespace PaneOp

/-- `split` and `split_root` get a new pane. -/
def Fresh (data : PaneData P) : PaneOp P → Prop
  | split _ newId _ | splitRoot newId _ => newId ∉ data.paneIds
  | _ => True

/-- The panes that the operation needs are there. -/
def Succeeds (data : PaneData P) : PaneOp P → Prop
  | split oldId _ _ => oldId ∈ data.paneIds
  | splitRoot _ _ => True
  | remove content => content ∈ data.paneIds ∧ 2 ≤ data.paneIds.length
  | movePane id targetPaneId direction =>
    id ≠ targetPaneId ∧ data.siblingByDirection targetPaneId direction ≠ some id ∧
      id ∈ data.paneIds ∧ targetPaneId ∈ data.paneIds
  | replacePane originalPaneId _ _ => originalPaneId ∈ data.paneIds
  | revertTemporaryReplacement replacementPaneId =>
    (data.originalPaneForReplacement replacementPaneId).isSome ∧ replacementPaneId ∈ data.paneIds

/-- What a successful operation does to the panes. -/
def Changes (data data' : PaneData P) : PaneOp P → Prop
  | split oldId newId direction => ∃ l₁ l₂, data.paneIds = l₁ ++ oldId :: l₂ ∧
    data'.paneIds = l₁ ++ beside direction oldId newId ++ l₂
  | splitRoot newId direction =>
    data'.paneIds = if direction.isBefore then newId :: data.paneIds else data.paneIds ++ [newId]
  | remove content => ∃ l₁ l₂, data.paneIds = l₁ ++ content :: l₂ ∧ data'.paneIds = l₁ ++ l₂
  | movePane id targetPaneId direction => data'.paneIds.Perm data.paneIds ∧
    data'.siblingByDirection targetPaneId direction = some id ∧
    ∃ l₁ l₂, data.paneIds.erase id = l₁ ++ targetPaneId :: l₂ ∧
      data'.paneIds = l₁ ++ beside direction targetPaneId id ++ l₂
  | replacePane originalPaneId replacementPaneId _ =>
    ∃ l₁ l₂, data.paneIds = l₁ ++ originalPaneId :: l₂ ∧
      data'.paneIds = l₁ ++ replacementPaneId :: l₂
  | revertTemporaryReplacement replacementPaneId => ∃ originalPaneId l₁ l₂,
    data.originalPaneForReplacement replacementPaneId = some originalPaneId ∧
      data.paneIds = l₁ ++ replacementPaneId :: l₂ ∧ data'.paneIds = l₁ ++ originalPaneId :: l₂

/-- **What an operation may do.** -/
structure Sound (op : PaneOp P) (data : PaneData P) : Prop where
  report : (data.apply op).1 = true ↔ op.Succeeds data
  success : (data.apply op).1 = true → op.Changes data (data.apply op).2
  failure : (data.apply op).1 = false → (data.apply op).2 = data

/-- The condition on an operation: a move of a pane that `remove` takes out finds its target, and a
pane that replaces another one is not in the tree already. -/
def KeepsPanes (data : PaneData P) : PaneOp P → Prop
  | movePane id targetPaneId _ => id ≠ targetPaneId → id ∈ data.paneIds →
    2 ≤ data.paneIds.length → targetPaneId ∈ data.paneIds
  | replacePane originalPaneId replacementPaneId _ => originalPaneId ∈ data.paneIds →
    replacementPaneId ∈ data.paneIds → replacementPaneId = originalPaneId
  | revertTemporaryReplacement replacementPaneId => ∀ originalPaneId,
    data.originalPaneForReplacement replacementPaneId = some originalPaneId →
    replacementPaneId ∈ data.paneIds → originalPaneId ∈ data.paneIds →
    originalPaneId = replacementPaneId
  | _ => True

end PaneOp

namespace PaneData

variable {data : PaneData P}

/-! ## The operations -/

theorem WellFormed.split (h : data.WellFormed) {oldId newId : P} (direction : Direction)
    (hnew : newId ∉ data.paneIds) : (data.split oldId newId direction).2.WellFormed := by
  have hids : (data.split oldId newId direction).2.paneIds =
      insertBeside direction oldId newId data.paneIds := (PaneNode.paneIds_split data.root).2
  have hfound : (data.root.split oldId newId direction).1 = _ := (PaneNode.paneIds_split data.root).1
  refine ⟨h.root.split, ?_, ?_⟩
  · rw [hids]
    by_cases hmem : oldId ∈ data.paneIds
    · exact (insertBeside_perm hmem).nodup_iff.mpr (List.nodup_cons.mpr ⟨hnew, h.nodup⟩)
    · rw [insertBeside_of_not_mem hmem]
      exact h.nodup
  · rw [hids, PaneData.split]
    simp only [hfound, decide_eq_true_eq]
    split
    · rename_i hmem
      rw [(insertBeside_perm (l := data.paneIds) hmem).length_eq, h.len, List.length_cons]
    · rename_i hmem
      rw [insertBeside_of_not_mem (l := data.paneIds) hmem, h.len]

theorem split_of_not_mem {oldId newId : P} {direction : Direction} (h : oldId ∉ data.paneIds) :
    data.split oldId newId direction = (false, data) := by
  rw [PaneData.split, PaneNode.split_of_not_mem h]
  rfl

theorem split_of_mem {oldId newId : P} {direction : Direction} (h : oldId ∈ data.paneIds) :
    (data.split oldId newId direction).1 = true ∧ ∃ l₁ l₂, data.paneIds = l₁ ++ oldId :: l₂ ∧
      (data.split oldId newId direction).2.paneIds =
        l₁ ++ beside direction oldId newId ++ l₂ := by
  obtain ⟨hfound, hids⟩ := PaneNode.paneIds_split data.root
  obtain ⟨l₁, l₂, -, hl, he⟩ := insertBeside_eq h
  exact ⟨hfound.trans (decide_eq_true h), l₁, l₂, hl, hids.trans he⟩

omit [DecidableEq P] in
theorem WellFormed.splitRoot (h : data.WellFormed) {newId : P} (direction : Direction)
    (hnew : newId ∉ data.paneIds) : (data.splitRoot newId direction).WellFormed := by
  have hids : (data.splitRoot newId direction).paneIds =
      if direction.isBefore then newId :: data.paneIds else data.paneIds ++ [newId] :=
    PaneNode.paneIds_insert newId direction data.root
  refine ⟨h.root.insert newId direction, ?_, ?_⟩
  · rw [hids]
    split
    · exact List.nodup_cons.mpr ⟨hnew, h.nodup⟩
    · exact (List.perm_append_singleton _ _).nodup_iff.mpr (List.nodup_cons.mpr ⟨hnew, h.nodup⟩)
  · rw [hids, PaneData.splitRoot]
    split <;> simp [h.len]

/-- `remove` takes out one pane, or the pane is not there or is the only one. -/
theorem WellFormed.remove_cases (h : data.WellFormed) (content : P) :
    (¬ (content ∈ data.paneIds ∧ 2 ≤ data.paneIds.length) ∧
      data.remove content = (false, data)) ∨
    ((content ∈ data.paneIds ∧ 2 ≤ data.paneIds.length) ∧ (data.remove content).1 = true ∧
      (data.remove content).2.paneIds = data.paneIds.erase content ∧
      (data.remove content).2.WellFormed) := by
  obtain ⟨root, len, hiddenPanes⟩ := data
  cases root with
  | leaf id =>
    refine Or.inl ⟨fun hand => ?_, by rw [PaneData.remove, PaneNode.remove]; rfl⟩
    simp [paneIds, PaneNode.paneIds] at hand
  | branch axis nodes dividers =>
    have htwo : 2 ≤ (paneIds ⟨.branch axis nodes dividers, len, hiddenPanes⟩).length :=
      PaneNode.two_le_length_paneIds h.root
    have hc : PaneNode.RemovesFrom content (.branch axis nodes dividers) :=
      PaneNode.removesFrom_branch h.root
    rcases hc with ⟨hmem, he⟩ | ⟨hmem, hfound, hids, hroot⟩
    · exact Or.inl ⟨fun hand => hmem hand.1, by rw [PaneData.remove, he]; rfl⟩
    · refine Or.inr ⟨⟨hmem, htwo⟩, hfound, hids, hroot, ?_, ?_⟩
      · rw [paneIds, PaneData.remove, hids]
        exact h.nodup.erase content
      · have hlen : len = (PaneNode.branch axis nodes dividers).paneIds.length := h.len
        rw [PaneData.remove]
        simp only [hfound, if_true, paneIds]
        rw [hids, List.length_erase_of_mem hmem, hlen]

/-- A replacement keeps the shape; the ids stay unique if the pane was not in the tree. -/
theorem WellFormed.replace (h : data.WellFormed) {old new : P} (hmem : old ∈ data.paneIds)
    (hiddenPanes : List (HiddenPane P)) :
    (data.root.replacePane old new).1 = true ∧
      (∃ l₁ l₂, data.paneIds = l₁ ++ old :: l₂ ∧
        (data.root.replacePane old new).2.paneIds = l₁ ++ new :: l₂) ∧
      ((new ∈ data.paneIds → new = old) ↔
        ({ data with root := (data.root.replacePane old new).2, hiddenPanes } :
          PaneData P).WellFormed) := by
  obtain ⟨hfound, hids, hwf⟩ := PaneNode.paneIds_replacePane data.root
  obtain ⟨l₁, l₂, hl, hl₁⟩ := List.eq_append_cons_of_mem hmem
  have hids' : (data.root.replacePane old new).2.paneIds = l₁ ++ new :: l₂ := by
    rw [hids, show data.root.paneIds = l₁ ++ old :: l₂ from hl, List.replace_append_right hl₁,
      List.replace_cons_self]
  have hnodup := h.nodup
  rw [hl, List.nodup_middle, List.nodup_cons] at hnodup
  refine ⟨hfound.trans (decide_eq_true hmem), ⟨l₁, l₂, hl, hids'⟩, fun hnew => ?_,
    fun hwf' hnew => ?_⟩
  · refine ⟨hwf h.root, ?_, ?_⟩
    · rw [paneIds, hids', List.nodup_middle, List.nodup_cons]
      refine ⟨fun hin => ?_, hnodup.2⟩
      have hin' : new ∈ data.paneIds := by
        rw [hl, List.mem_append, List.mem_cons]
        rw [List.mem_append] at hin
        tauto
      exact hnodup.1 (hnew hin' ▸ hin)
    · rw [paneIds, hids']
      simpa [hl] using h.len
  · have hn := hwf'.nodup
    rw [paneIds, hids', List.nodup_middle, List.nodup_cons] at hn
    rw [hl, List.mem_append, List.mem_cons] at hnew
    by_contra hne
    refine hn.1 (List.mem_append.mpr ?_)
    tauto

/-- The entry of a replacement, and where it is. -/
theorem find_findIdx {α : Type} (p : α → Bool) (l : List α) :
    (l.find? p = none ∧ l.findIdx? p = none) ∨ ∃ a i, l.find? p = some a ∧
      l.findIdx? p = some i ∧ (l.eraseIdx i).insertIdx i a = l := by
  induction l with
  | nil => exact Or.inl ⟨rfl, rfl⟩
  | cons b l ih =>
    rw [List.find?_cons, List.findIdx?_cons]
    cases hb : p b with
    | true => exact Or.inr ⟨b, 0, rfl, rfl, rfl⟩
    | false =>
      rcases ih with ⟨hf, hi⟩ | ⟨a, i, hf, hi, he⟩
      · exact Or.inl ⟨hf, by rw [hi]; rfl⟩
      · exact Or.inr ⟨a, i + 1, hf, by rw [hi]; rfl, congrArg (b :: ·) he⟩

theorem revert_cases (data : PaneData P) (replacementPaneId : P) :
    (data.originalPaneForReplacement replacementPaneId = none ∧
      data.revertTemporaryReplacement replacementPaneId = (none, data)) ∨
    ∃ originalPaneId hiddenPanes,
      data.originalPaneForReplacement replacementPaneId = some originalPaneId ∧
      ((replacementPaneId ∉ data.paneIds ∧
          data.revertTemporaryReplacement replacementPaneId = (none, data)) ∨
        (replacementPaneId ∈ data.paneIds ∧
          data.revertTemporaryReplacement replacementPaneId = (some originalPaneId, { data with
            root := (data.root.replacePane replacementPaneId originalPaneId).2, hiddenPanes }))) := by
  rw [originalPaneForReplacement, revertTemporaryReplacement]
  rcases find_findIdx (fun pane : HiddenPane P =>
    decide (pane.reason = .temporaryReplacement replacementPaneId)) data.hiddenPanes with ⟨hf, hi⟩ | ⟨hiddenPane, position, hf, hi, he⟩
  · exact Or.inl ⟨by rw [hf]; rfl, by rw [hf, hi]⟩
  · refine Or.inr ⟨hiddenPane.paneId, data.hiddenPanes.eraseIdx position, by rw [hf]; rfl, ?_⟩
    rw [hf, hi]
    by_cases hmem : replacementPaneId ∈ data.paneIds
    · have hfound : (data.root.replacePane replacementPaneId hiddenPane.paneId).1 = _ :=
        (PaneNode.paneIds_replacePane data.root).1
      refine Or.inr ⟨hmem, ?_⟩
      simp only [hfound.trans (decide_eq_true hmem), if_true]
    · refine Or.inl ⟨hmem, ?_⟩
      simp only [PaneNode.replacePane_of_not_mem hmem, he, Bool.false_eq_true, if_false]

end PaneData

/-! ## One step -/

namespace PaneOp

variable {data : PaneData P}

theorem sound_of_failure {op : PaneOp P} (h : data.apply op = (false, data))
    (hs : ¬ op.Succeeds data) : op.Sound data where
  report := by simp [h, hs]
  success hok := by simp [h] at hok
  failure _ := by rw [h]

theorem sound_of_success {op : PaneOp P} (h : (data.apply op).1 = true) (hs : op.Succeeds data)
    (hc : op.Changes data (data.apply op).2) : op.Sound data where
  report := by simp [h, hs]
  success _ := hc
  failure hfail := by simp [h] at hfail

theorem exists_erase_eq {l : List P} {p : P} (h : p ∈ l) :
    ∃ l₁ l₂, l = l₁ ++ p :: l₂ ∧ l.erase p = l₁ ++ l₂ := by
  obtain ⟨l₁, l₂, rfl, hl₁⟩ := List.eq_append_cons_of_mem h
  exact ⟨l₁, l₂, rfl, by rw [List.erase_append_right _ hl₁, List.erase_cons_head]⟩

theorem split_iff (h : data.WellFormed) {oldId newId : P} {direction : Direction}
    (hnew : newId ∉ data.paneIds) : (split oldId newId direction).Sound data ∧
      (data.split oldId newId direction).2.WellFormed := by
  refine ⟨?_, h.split direction hnew⟩
  by_cases hmem : oldId ∈ data.paneIds
  · obtain ⟨hok, hc⟩ := PaneData.split_of_mem hmem
    exact sound_of_success hok hmem hc
  · exact sound_of_failure (PaneData.split_of_not_mem hmem) hmem

theorem remove_iff (h : data.WellFormed) (content : P) :
    (remove content).Sound data ∧ (data.remove content).2.WellFormed := by
  rcases h.remove_cases content with ⟨hno, he⟩ | ⟨hyes, hok, hids, hwf⟩
  · exact ⟨sound_of_failure he hno, he ▸ h⟩
  · obtain ⟨l₁, l₂, hl, herase⟩ := exists_erase_eq hyes.1
    exact ⟨sound_of_success hok hyes ⟨l₁, l₂, hl, hids.trans herase⟩, hwf⟩

/-- **A move loses its pane exactly when the pane can be removed and the target is missing.** -/
theorem movePane_iff (h : data.WellFormed) (id targetPaneId : P) (direction : Direction) :
    ((movePane id targetPaneId direction).Sound data ∧
      (data.movePane id targetPaneId direction).2.WellFormed) ↔
    (movePane id targetPaneId direction).KeepsPanes data := by
  by_cases hid : id = targetPaneId
  · have he : data.movePane id targetPaneId direction = (false, data) := by
      rw [PaneData.movePane, if_pos hid]
    exact ⟨fun _ hne => absurd hid hne,
      fun _ => ⟨sound_of_failure he fun hs => hs.1 hid, he ▸ h⟩⟩
  by_cases hsib : data.siblingByDirection targetPaneId direction = some id
  · have he : data.movePane id targetPaneId direction = (false, data) := by
      rw [PaneData.movePane, if_neg hid, if_pos hsib]
    exact ⟨fun _ _ _ _ => PaneNode.mem_of_siblingByDirection hsib,
      fun _ => ⟨sound_of_failure he fun hs => hs.2.1 hsib, he ▸ h⟩⟩
  have hmove : data.movePane id targetPaneId direction =
      if (data.remove id).1 then (data.remove id).2.split targetPaneId id direction
      else (false, (data.remove id).2) := by
    rw [PaneData.movePane, if_neg hid, if_neg hsib]
  rcases h.remove_cases id with ⟨hno, he⟩ | ⟨hyes, hok, hids, hwf⟩
  · rw [he, if_neg Bool.false_ne_true] at hmove
    refine ⟨fun _ _ hmem htwo => absurd ⟨hmem, htwo⟩ hno, fun hk => ⟨sound_of_failure hmove ?_,
      hmove ▸ h⟩⟩
    -- two different panes are there only if there are two
    rintro ⟨-, -, hmem, htarget⟩
    refine hno ⟨hmem, ?_⟩
    have hsub : [id, targetPaneId] ⊆ data.paneIds := by simp [hmem, htarget]
    exact (List.subperm_of_subset (by simpa using hid) hsub).length_le
  rw [hok, if_pos rfl] at hmove
  have hmem' : targetPaneId ∈ (data.remove id).2.paneIds ↔ targetPaneId ∈ data.paneIds := by
    rw [hids]
    exact List.mem_erase_of_ne (Ne.symm hid)
  by_cases htarget : targetPaneId ∈ data.paneIds
  · refine ⟨fun _ _ _ _ => htarget, fun _ => ⟨?_, ?_⟩⟩
    · obtain ⟨hs, l₁, l₂, hl, hl'⟩ := PaneData.split_of_mem
        (hmem'.mpr htarget)
      refine sound_of_success (by rw [PaneData.apply, hmove, hs]) ⟨hid, hsib, hyes.1, htarget⟩ ?_
      rw [PaneData.apply, hmove]
      refine ⟨?_, PaneNode.siblingByDirection_split hid (hmem'.mpr htarget), l₁, l₂,
        hids.symm.trans hl, hl'⟩
      have hperm : ((data.remove id).2.split targetPaneId id direction).2.paneIds.Perm
          (id :: (data.remove id).2.paneIds) := by
        rw [show ((data.remove id).2.split targetPaneId id direction).2.paneIds = _ from
          (PaneNode.paneIds_split (data.remove id).2.root).2]
        exact insertBeside_perm (hmem'.mpr htarget)
      rw [hids] at hperm
      exact hperm.trans (List.perm_cons_erase hyes.1).symm
    · rw [hmove]
      refine hwf.split direction ?_
      rw [hids]
      exact h.nodup.not_mem_erase
  · rw [PaneData.split_of_not_mem (hmem'.not.mpr htarget)] at hmove
    refine ⟨fun hs => ?_, fun hk => absurd (hk hid hyes.1 hyes.2) htarget⟩
    have hsame := hs.1.failure (by rw [PaneData.apply, hmove])
    rw [PaneData.apply, hmove] at hsame
    have hlen := congrArg List.length (hids.symm.trans (congrArg PaneData.paneIds hsame))
    rw [List.length_erase_of_mem hyes.1] at hlen
    omega

theorem replacePane_iff (h : data.WellFormed) (originalPaneId replacementPaneId : P)
    (isTemporary : Bool) :
    ((replacePane originalPaneId replacementPaneId isTemporary).Sound data ∧
      (data.replacePane originalPaneId replacementPaneId isTemporary).2.WellFormed) ↔
    (replacePane originalPaneId replacementPaneId isTemporary).KeepsPanes data := by
  by_cases hmem : originalPaneId ∈ data.paneIds
  · have hcontains : data.root.containsPane originalPaneId = true :=
      (PaneNode.containsPane_iff data.root).mpr hmem
    obtain ⟨hfound, hc, hiff⟩ := @PaneData.WellFormed.replace _ _ _ h _ replacementPaneId hmem
      (if isTemporary then
        data.hiddenPanes ++ [⟨originalPaneId, .temporaryReplacement replacementPaneId⟩]
      else data.hiddenPanes)
    have he : data.replacePane originalPaneId replacementPaneId isTemporary = (true, { data with
        root := (data.root.replacePane originalPaneId replacementPaneId).2
        hiddenPanes := if isTemporary then
            data.hiddenPanes ++ [⟨originalPaneId, .temporaryReplacement replacementPaneId⟩]
          else data.hiddenPanes }) := by
      rw [PaneData.replacePane, if_pos hcontains]
      simp only [hfound, if_true]
    rw [he]
    have hs : (replacePane originalPaneId replacementPaneId isTemporary).Sound data := by
      refine sound_of_success ?_ hmem ?_
      · rw [PaneData.apply, he]
      · rw [PaneData.apply, he]
        exact hc
    exact ⟨fun hand _ => hiff.mpr hand.2, fun hk => ⟨hs, hiff.mp (hk hmem)⟩⟩
  · have hcontains : ¬ data.root.containsPane originalPaneId = true :=
      (PaneNode.containsPane_iff data.root).not.mpr hmem
    have he : data.replacePane originalPaneId replacementPaneId isTemporary = (false, data) := by
      rw [PaneData.replacePane, if_neg hcontains]
    exact ⟨fun _ hmem' => absurd hmem' hmem, fun _ => ⟨sound_of_failure he hmem, he ▸ h⟩⟩

theorem revert_iff (h : data.WellFormed) (replacementPaneId : P) :
    ((revertTemporaryReplacement replacementPaneId).Sound data ∧
      (data.revertTemporaryReplacement replacementPaneId).2.WellFormed) ↔
    (revertTemporaryReplacement replacementPaneId).KeepsPanes data := by
  rcases data.revert_cases replacementPaneId with ⟨hnone, he⟩ |
    ⟨originalPaneId, hiddenPanes, hsome, ⟨hmem, he⟩ | ⟨hmem, he⟩⟩
  · have happly : data.apply (.revertTemporaryReplacement replacementPaneId) = (false, data) := by
      rw [PaneData.apply, he]
      rfl
    refine ⟨fun _ _ hsome => ?_, fun _ => ⟨sound_of_failure happly fun hs => ?_, he ▸ h⟩⟩
    · rw [hnone] at hsome
      cases hsome
    · rw [Succeeds, hnone] at hs
      cases hs.1
  · have happly : data.apply (.revertTemporaryReplacement replacementPaneId) = (false, data) := by
      rw [PaneData.apply, he]
      rfl
    exact ⟨fun _ _ _ hmem' => absurd hmem' hmem,
      fun _ => ⟨sound_of_failure happly fun hs => hmem hs.2, he ▸ h⟩⟩
  · obtain ⟨-, ⟨l₁, l₂, hl, hl'⟩, hiff⟩ := h.replace hmem hiddenPanes
    have hs : (revertTemporaryReplacement replacementPaneId).Sound data := by
      refine sound_of_success ?_ ⟨by rw [hsome]; rfl, hmem⟩ ?_
      · rw [PaneData.apply, he]
        rfl
      · rw [PaneData.apply, he]
        exact ⟨originalPaneId, l₁, l₂, hsome, hl, hl'⟩
    rw [he]
    constructor
    · rintro ⟨-, hwf⟩ original hsome' _ hmem'
      rw [hsome, Option.some.injEq] at hsome'
      exact hsome' ▸ hiff.mpr hwf (hsome'.symm ▸ hmem')
    · exact fun hk => ⟨hs, hiff.mp (hk originalPaneId hsome hmem)⟩

/-- **A step is sound and keeps the state well formed exactly under the condition.** -/
theorem sound_iff (h : data.WellFormed) {op : PaneOp P} (hfresh : op.Fresh data) :
    (op.Sound data ∧ (data.apply op).2.WellFormed) ↔ op.KeepsPanes data := by
  cases op with
  | split oldId newId direction => exact iff_of_true (split_iff h hfresh) trivial
  | splitRoot newId direction =>
    refine iff_of_true ⟨sound_of_success rfl trivial ?_, h.splitRoot direction hfresh⟩ trivial
    exact PaneNode.paneIds_insert newId direction data.root
  | remove content => exact iff_of_true (remove_iff h content) trivial
  | movePane id targetPaneId direction => exact movePane_iff h id targetPaneId direction
  | replacePane originalPaneId replacementPaneId isTemporary =>
    exact replacePane_iff h originalPaneId replacementPaneId isTemporary
  | revertTemporaryReplacement replacementPaneId => exact revert_iff h replacementPaneId

end PaneOp

/-! ## Runs -/

namespace PaneData

/-- A property of every operation of a run, in the state before it. -/
def RunAll (p : PaneOp P → PaneData P → Prop) (data : PaneData P) : List (PaneOp P) → Prop
  | [] => True
  | op :: ops => p op data ∧ RunAll p (data.apply op).2 ops

/-- **A sound run**: every state is well formed, and every operation does what it may. -/
def SoundRun (data : PaneData P) : List (PaneOp P) → Prop
  | [] => data.WellFormed
  | op :: ops => data.WellFormed ∧ op.Sound data ∧ SoundRun (data.apply op).2 ops

theorem SoundRun.wellFormed {data : PaneData P} {ops : List (PaneOp P)} (h : data.SoundRun ops) :
    data.WellFormed := by
  cases ops with
  | nil => exact h
  | cons op ops => exact h.1

theorem WellFormed.soundRun_iff {data : PaneData P} (h : data.WellFormed) {ops : List (PaneOp P)}
    (hfresh : data.RunAll (fun op data => op.Fresh data) ops) :
    data.SoundRun ops ↔ data.RunAll (fun op data => op.KeepsPanes data) ops := by
  induction ops generalizing data with
  | nil => exact iff_of_true h trivial
  | cons op ops ih =>
    obtain ⟨hop, hops⟩ := hfresh
    constructor
    · rintro ⟨-, hs, hrun⟩
      exact ⟨(PaneOp.sound_iff h hop).mp ⟨hs, hrun.wellFormed⟩, (ih hrun.wellFormed hops).mp hrun⟩
    · rintro ⟨hk, hkeeps⟩
      obtain ⟨hs, hwf⟩ := (PaneOp.sound_iff h hop).mpr hk
      exact ⟨h, hs, (ih hwf hops).mpr hkeeps⟩

/-- **A run from one pane, with fresh ids on every split, is sound exactly when no move of a pane
misses its target and no replacement brings in a pane that is there.** -/
theorem run_sound_iff (paneId : P) (ops : List (PaneOp P))
    (hfresh : (new paneId).RunAll (fun op data => op.Fresh data) ops) :
    (new paneId).SoundRun ops ↔ (new paneId).RunAll (fun op data => op.KeepsPanes data) ops :=
  (wellFormed_new paneId).soundRun_iff hfresh

/-- Three panes, one of them moved. -/
theorem run_sound_three : (new 0).SoundRun
    [.split 0 1 .right, .splitRoot 2 .up, .movePane 0 2 .left, .replacePane 1 3 true,
      .revertTemporaryReplacement 3, .remove 2] := by
  refine (run_sound_iff 0 _ ?_).mpr ?_
  · simp only [RunAll, PaneOp.Fresh]
    decide
  · simp only [RunAll, PaneOp.KeepsPanes]
    decide

/-- A move to a pane that is not in the tree reports failure and loses the moved pane. -/
theorem movePane_loses : (new 0).RunAll (fun op data => op.Fresh data)
      [.split 0 1 .right, .movePane 0 2 .right] ∧
    ¬ (new 0).SoundRun [.split 0 1 .right, .movePane 0 2 .right] := by
  refine ⟨by simp only [RunAll, PaneOp.Fresh]; decide, fun h => ?_⟩
  have hsame := congrArg paneIds (h.2.2.2.1.failure (by decide))
  exact absurd hsame (by decide)

end PaneData

end Clinch
