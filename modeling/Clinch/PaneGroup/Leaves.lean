import Clinch.PaneGroup.Tree

/-!
# The panes of the tree in order

Every operation on the tree acts on the in-order list of its panes as one list operation, and keeps
the shape of the tree.

* `insertBeside`: a new pane directly before or after the first pane with an id;
* `PaneNode.WellFormed`: every branch has at least two nodes, and one divider fewer than nodes;
* `PaneNode.paneIds_split`, `paneIds_remove`, `paneIds_replacePane`: the lists;
* `PaneNode.siblingByDirection_split`: where a new pane is in the tree.
-/

set_option autoImplicit false

namespace Clinch

variable {P : Type}

/-- The panes `old` and `new`, in the order that the direction of `new` gives. -/
def beside (direction : Direction) (old new : P) : List P :=
  if direction.isBefore then [new, old] else [old, new]

theorem mem_beside {direction : Direction} {old new p : P} :
    p ∈ beside direction old new ↔ p = old ∨ p = new := by
  rw [beside]
  split <;> simp [or_comm]

theorem beside_perm (direction : Direction) (old new : P) :
    (beside direction old new).Perm [new, old] := by
  rw [beside]
  split
  · exact List.Perm.refl _
  · exact List.Perm.swap _ _ _

section InsertBeside

variable [DecidableEq P]

/-- Put `new` directly beside the first `old`. -/
def insertBeside (direction : Direction) (old new : P) : List P → List P
  | [] => []
  | p :: l =>
    if p = old then beside direction old new ++ l else p :: insertBeside direction old new l

variable {direction : Direction} {old new : P}

theorem insertBeside_of_not_mem {l : List P} (h : old ∉ l) :
    insertBeside direction old new l = l := by
  induction l with
  | nil => rfl
  | cons p l ih =>
    rw [List.mem_cons, not_or] at h
    rw [insertBeside, if_neg (Ne.symm h.1), ih h.2]

theorem insertBeside_append_left {l₁ : List P} (h : old ∈ l₁) (l₂ : List P) :
    insertBeside direction old new (l₁ ++ l₂) = insertBeside direction old new l₁ ++ l₂ := by
  induction l₁ with
  | nil => exact nomatch h
  | cons p l₁ ih =>
    rw [List.cons_append, insertBeside, insertBeside]
    split
    · rw [List.append_assoc]
    · rename_i hp
      rw [List.cons_append, ih ((List.mem_cons.mp h).resolve_left (Ne.symm hp))]

theorem insertBeside_append_right {l₁ : List P} (h : old ∉ l₁) (l₂ : List P) :
    insertBeside direction old new (l₁ ++ l₂) = l₁ ++ insertBeside direction old new l₂ := by
  induction l₁ with
  | nil => rfl
  | cons p l₁ ih =>
    rw [List.mem_cons, not_or] at h
    rw [List.cons_append, insertBeside, if_neg (Ne.symm h.1), ih h.2, List.cons_append]

/-- The list is cut at the first `old`, and `new` stands beside it. -/
theorem insertBeside_eq {l : List P} (h : old ∈ l) : ∃ l₁ l₂, old ∉ l₁ ∧ l = l₁ ++ old :: l₂ ∧
    insertBeside direction old new l = l₁ ++ beside direction old new ++ l₂ := by
  obtain ⟨l₁, l₂, rfl, hl₁⟩ := List.eq_append_cons_of_mem h
  refine ⟨l₁, l₂, hl₁, rfl, ?_⟩
  rw [insertBeside_append_right hl₁, insertBeside, if_pos rfl, List.append_assoc]

theorem insertBeside_perm {l : List P} (h : old ∈ l) :
    (insertBeside direction old new l).Perm (new :: l) := by
  obtain ⟨l₁, l₂, -, rfl, he⟩ := insertBeside_eq h
  rw [he, List.append_assoc]
  refine ((beside_perm direction old new).append_right l₂).append_left l₁ |>.trans ?_
  exact List.perm_middle

end InsertBeside

namespace PaneNode

theorem paneIdsAll_append (nodes nodes' : List (PaneNode P)) :
    paneIdsAll (nodes ++ nodes') = paneIdsAll nodes ++ paneIdsAll nodes' := by
  induction nodes with
  | nil => rfl
  | cons node nodes ih => rw [List.cons_append, paneIdsAll, ih, paneIdsAll, List.append_assoc]

theorem paneIdsAll_cons (node : PaneNode P) (nodes : List (PaneNode P)) :
    paneIdsAll (node :: nodes) = node.paneIds ++ paneIdsAll nodes := by rw [paneIdsAll]

theorem paneIdsAll_singleton (node : PaneNode P) : paneIdsAll [node] = node.paneIds := by
  rw [paneIdsAll, paneIdsAll, List.append_nil]

theorem paneIds_newBranch (old new : P) (direction : Direction) :
    (forLeaves old new direction).paneIds = beside direction old new := by
  rw [forLeaves, newBranch, paneIds, beside]
  split <;> simp [paneIdsAll, paneIds]

/-! ## Well-formed trees -/

mutual

/-- **Every branch has at least two nodes, and one divider fewer than nodes.** -/
def WellFormed : PaneNode P → Prop
  | .leaf _ => True
  | .branch _ nodes dividers =>
    2 ≤ nodes.length ∧ dividers.length + 1 = nodes.length ∧ WellFormedAll nodes

def WellFormedAll : List (PaneNode P) → Prop
  | [] => True
  | node :: nodes => WellFormed node ∧ WellFormedAll nodes

end

theorem wellFormedAll_append {nodes nodes' : List (PaneNode P)} :
    WellFormedAll (nodes ++ nodes') ↔ WellFormedAll nodes ∧ WellFormedAll nodes' := by
  induction nodes with
  | nil => simp [WellFormedAll]
  | cons node nodes ih => rw [List.cons_append, WellFormedAll, ih, WellFormedAll, and_assoc]

theorem wellFormedAll_singleton {t : PaneNode P} : WellFormedAll [t] ↔ t.WellFormed := by
  simp [WellFormedAll]

theorem wellFormed_forLeaves (old new : P) (direction : Direction) :
    (forLeaves old new direction).WellFormed := by
  rw [forLeaves, newBranch]
  split <;> simp [WellFormed, WellFormedAll]

mutual

theorem paneIds_ne_nil : ∀ {t : PaneNode P}, t.WellFormed → t.paneIds ≠ []
  | .leaf _, _ => by simp [paneIds]
  | .branch _ nodes _, h => by
    rw [WellFormed] at h
    rw [paneIds]
    exact paneIdsAll_ne_nil (by omega) h.2.2

theorem paneIdsAll_ne_nil : ∀ {nodes : List (PaneNode P)}, 1 ≤ nodes.length →
    WellFormedAll nodes → paneIdsAll nodes ≠ []
  | node :: nodes, _, h => by
    rw [WellFormedAll] at h
    rw [paneIdsAll]
    exact fun he => paneIds_ne_nil h.1 (List.append_eq_nil_iff.mp he).1

end

theorem length_le_paneIdsAll : ∀ {nodes : List (PaneNode P)}, WellFormedAll nodes →
    nodes.length ≤ (paneIdsAll nodes).length
  | [], _ => le_rfl
  | node :: nodes, h => by
    rw [paneIdsAll, List.length_append, List.length_cons, Nat.add_comm]
    exact Nat.add_le_add (List.length_pos_iff.mpr (paneIds_ne_nil h.1)) (length_le_paneIdsAll h.2)

/-- A branch has at least two panes. -/
theorem two_le_length_paneIds {axis : SplitDirection} {nodes : List (PaneNode P)}
    {dividers : List Divider} (h : (PaneNode.branch axis nodes dividers).WellFormed) :
    2 ≤ (PaneNode.branch axis nodes dividers).paneIds.length := by
  rw [paneIds]
  exact h.1.trans (length_le_paneIdsAll h.2.2)

/-! ## `insert` -/

theorem paneIds_insert (newId : P) (direction : Direction) (t : PaneNode P) :
    (t.insert newId direction).paneIds =
      if direction.isBefore then newId :: t.paneIds else t.paneIds ++ [newId] := by
  cases t with
  | leaf id =>
    rw [insert, paneIds_newBranch, beside, paneIds]
    rfl
  | branch axis nodes dividers =>
    rw [insert]
    split
    · split <;> simp [paneIds, paneIdsAll, paneIdsAll_append]
    · rw [newBranch, paneIds]
      split <;> simp [paneIds, paneIdsAll]

theorem WellFormed.insert {t : PaneNode P} (h : t.WellFormed) (newId : P)
    (direction : Direction) : (t.insert newId direction).WellFormed := by
  cases t with
  | leaf id => exact wellFormed_forLeaves _ _ _
  | branch axis nodes dividers =>
    rw [PaneNode.insert]
    split
    · obtain ⟨htwo, hlen, hall⟩ := h
      split
      · exact ⟨by simp; omega, by simp; omega, trivial, hall⟩
      · exact ⟨by simp; omega, by simp; omega,
          wellFormedAll_append.mpr ⟨hall, trivial, trivial⟩⟩
    · rw [newBranch]
      split
      · exact ⟨le_rfl, rfl, trivial, h, trivial⟩
      · exact ⟨le_rfl, rfl, h, trivial, trivial⟩

variable [DecidableEq P]

/-! ## `split` -/

section Split

variable {old new : P} {direction : Direction}

omit [DecidableEq P] in
theorem insertIdx_visited (visited nodes : List (PaneNode P)) (id : P) :
    (visited ++ .leaf id :: nodes).insertIdx
        (if direction.isBefore then visited.length else visited.length + 1) (.leaf new) =
      visited ++ (if direction.isBefore then [.leaf new, .leaf id] else [.leaf id, .leaf new]) ++
        nodes := by
  induction visited with
  | nil => split <;> rfl
  | cons node visited ih =>
    rw [List.length_cons, ← apply_ite Nat.succ, List.cons_append]
    exact congrArg (node :: ·) ih

mutual

theorem paneIds_split : ∀ t : PaneNode P,
    (t.split old new direction).1 = decide (old ∈ t.paneIds) ∧
      (t.split old new direction).2.paneIds = insertBeside direction old new t.paneIds
  | .leaf id => by
    rw [split, paneIds]
    by_cases h : id = old
    · subst h
      rw [if_pos rfl, paneIds_newBranch, insertBeside, if_pos rfl]
      simp
    · rw [if_neg h, insertBeside, if_neg h]
      simp [paneIds, insertBeside, Ne.symm h]
  | .branch axis nodes dividers => by
    have h := paneIds_splitNodes axis [] dividers nodes
    rw [split, paneIds]
    exact h

theorem paneIds_splitNodes (axis : SplitDirection) (visited : List (PaneNode P))
    (dividers : List Divider) : ∀ nodes : List (PaneNode P),
    (splitNodes old new direction axis visited dividers nodes).1 =
        decide (old ∈ paneIdsAll nodes) ∧
      paneIdsAll (splitNodes old new direction axis visited dividers nodes).2.1 =
        paneIdsAll visited ++ insertBeside direction old new (paneIdsAll nodes)
  | [] => by simp [splitNodes, paneIdsAll, insertBeside]
  | .branch axis' nodes' dividers' :: nodes => by
    obtain ⟨hfound, hids⟩ := paneIds_split (.branch axis' nodes' dividers')
    rw [splitNodes, paneIdsAll]
    by_cases h : old ∈ (PaneNode.branch axis' nodes' dividers').paneIds
    · rw [decide_eq_true h] at hfound
      simp only [hfound, if_true, paneIdsAll_append, paneIdsAll_cons, hids,
        insertBeside_append_left h, List.mem_append, h, true_or, decide_true, and_self]
    · rw [decide_eq_false h] at hfound
      rw [insertBeside_of_not_mem h] at hids
      obtain ⟨hfound', hids'⟩ := paneIds_splitNodes axis
        (visited ++ [(split old new direction (.branch axis' nodes' dividers')).2]) dividers nodes
      simp only [hfound, Bool.false_eq_true, if_false, hfound', hids', paneIdsAll_append,
        paneIdsAll_singleton, hids, insertBeside_append_right h, List.mem_append, h, false_or,
        List.append_assoc, and_self]
  | .leaf id :: nodes => by
    rw [splitNodes, paneIdsAll, paneIds]
    by_cases h : id = old
    · subst h
      rw [if_pos rfl, List.singleton_append, insertBeside, if_pos rfl, beside]
      split
      · rw [insertIdx_visited]
        split <;> simp [paneIdsAll_append, paneIdsAll, paneIds]
      · simp [paneIdsAll_append, paneIdsAll_cons, paneIds_newBranch, beside]
    · rw [if_neg h, List.singleton_append, insertBeside, if_neg h]
      obtain ⟨hfound', hids'⟩ := paneIds_splitNodes axis (visited ++ [.leaf id]) dividers nodes
      rw [hfound', hids', paneIdsAll_append, paneIdsAll_singleton, paneIds]
      simp [Ne.symm h]

end

mutual

/-- A split that does not find the pane changes nothing. -/
theorem split_of_not_mem : ∀ {t : PaneNode P}, old ∉ t.paneIds →
    t.split old new direction = (false, t)
  | .leaf id, h => by
    rw [paneIds, List.mem_singleton] at h
    rw [split, if_neg (Ne.symm h)]
  | .branch axis nodes dividers, h => by
    rw [paneIds] at h
    rw [split, splitNodes_of_not_mem axis [] dividers h]
    rfl

theorem splitNodes_of_not_mem (axis : SplitDirection) (visited : List (PaneNode P))
    (dividers : List Divider) : ∀ {nodes : List (PaneNode P)}, old ∉ paneIdsAll nodes →
    splitNodes old new direction axis visited dividers nodes =
      (false, visited ++ nodes, dividers)
  | [], _ => by rw [splitNodes, List.append_nil]
  | .branch axis' nodes' dividers' :: nodes, h => by
    rw [paneIdsAll, List.mem_append, not_or] at h
    rw [splitNodes, split_of_not_mem h.1]
    simp only [Bool.false_eq_true, if_false]
    rw [splitNodes_of_not_mem axis _ dividers h.2, List.append_assoc, List.singleton_append]
  | .leaf id :: nodes, h => by
    rw [paneIdsAll, paneIds, List.singleton_append, List.mem_cons, not_or] at h
    rw [splitNodes, if_neg (Ne.symm h.1), splitNodes_of_not_mem axis _ dividers h.2,
      List.append_assoc, List.singleton_append]

end

mutual

theorem WellFormed.split : ∀ {t : PaneNode P}, t.WellFormed →
    (t.split old new direction).2.WellFormed
  | .leaf id, _ => by
    rw [PaneNode.split]
    split
    · exact wellFormed_forLeaves _ _ _
    · trivial
  | .branch axis nodes dividers, h => by
    obtain ⟨htwo, hlen, hall⟩ := h
    obtain ⟨hall', hlen', hle⟩ := @WellFormedAll.splitNodes axis nodes [] dividers trivial hall
      (by simpa using hlen)
    rw [PaneNode.split]
    exact ⟨htwo.trans (by simpa using hle), hlen', hall'⟩

theorem WellFormedAll.splitNodes (axis : SplitDirection) : ∀ {nodes visited : List (PaneNode P)}
    {dividers : List Divider}, WellFormedAll visited → WellFormedAll nodes →
    dividers.length + 1 = visited.length + nodes.length →
    WellFormedAll (splitNodes old new direction axis visited dividers nodes).2.1 ∧
      (splitNodes old new direction axis visited dividers nodes).2.2.length + 1 =
        (splitNodes old new direction axis visited dividers nodes).2.1.length ∧
      visited.length + nodes.length ≤
        (splitNodes old new direction axis visited dividers nodes).2.1.length
  | [], visited, dividers, hv, _, hlen => by
    rw [PaneNode.splitNodes]
    exact ⟨hv, hlen, le_rfl⟩
  | .branch axis' nodes' dividers' :: nodes, visited, dividers, hv, hn, hlen => by
    obtain ⟨hnode, hnodes⟩ := hn
    have hnode' := WellFormed.split (t := .branch axis' nodes' dividers') hnode
    rw [PaneNode.splitNodes]
    simp only
    split
    · refine ⟨wellFormedAll_append.mpr ⟨hv, hnode', hnodes⟩, ?_, ?_⟩
      · simpa using hlen
      · simp
    · have hv' := wellFormedAll_append.mpr ⟨hv, wellFormedAll_singleton.mpr hnode'⟩
      have h := @WellFormedAll.splitNodes axis nodes _ dividers hv' hnodes (by
        rw [List.length_append, List.length_singleton]
        simpa [add_assoc, add_comm 1] using hlen)
      refine ⟨h.1, h.2.1, le_trans ?_ h.2.2⟩
      rw [List.length_append, List.length_singleton, List.length_cons]
      omega
  | .leaf id :: nodes, visited, dividers, hv, hn, hlen => by
    have hnodes := hn.2
    rw [List.length_cons] at hlen
    rw [PaneNode.splitNodes]
    split
    · split
      · rw [insertIdx_visited]
        refine ⟨?_, ?_, ?_⟩
        · rw [wellFormedAll_append, wellFormedAll_append]
          refine ⟨⟨hv, ?_⟩, hnodes⟩
          split <;> exact ⟨trivial, trivial, trivial⟩
        · rw [List.length_insertIdx_of_le_length (by omega)]
          split
          all_goals
            simp
            omega
        · split
          all_goals simp
      · refine ⟨wellFormedAll_append.mpr ⟨hv, wellFormed_forLeaves _ _ _, hnodes⟩, ?_, ?_⟩
        · simpa using hlen
        · simp
    · have hv' : WellFormedAll (visited ++ [.leaf id]) := wellFormedAll_append.mpr ⟨hv, hn.1, trivial⟩
      have h := @WellFormedAll.splitNodes axis nodes _ dividers hv' hnodes (by
        rw [List.length_append, List.length_singleton]
        omega)
      refine ⟨h.1, h.2.1, le_trans ?_ h.2.2⟩
      rw [List.length_append, List.length_singleton, List.length_cons]
      omega

end

end Split

/-! ## `remove` -/

section Remove

variable {id : P}

/-- What the loop of `PaneBranch::remove` gives after the nodes `visited`. -/
inductive Removes (id : P) (visited nodes : List (PaneNode P)) (dividers : List Divider) :
    BranchRemoveResult P × List (PaneNode P) × List Divider → Prop
  | notFound : id ∉ paneIdsAll nodes →
    Removes id visited nodes dividers (.notFound, visited ++ nodes, dividers)
  | removed {nodes' : List (PaneNode P)} {dividers' : List Divider} : id ∈ paneIdsAll nodes →
    paneIdsAll nodes' = paneIdsAll visited ++ (paneIdsAll nodes).erase id →
    WellFormedAll nodes' → 2 ≤ nodes'.length → dividers'.length + 1 = nodes'.length →
    Removes id visited nodes dividers (.removed, nodes', dividers')
  | collapse {lastNode : PaneNode P} {dividers' : List Divider} : id ∈ paneIdsAll nodes →
    lastNode.paneIds = paneIdsAll visited ++ (paneIdsAll nodes).erase id → lastNode.WellFormed →
    Removes id visited nodes dividers (.collapse lastNode, [], dividers')

/-- What `PaneNode::remove` gives for a branch. -/
def RemovesFrom (id : P) (t : PaneNode P) : Prop :=
  (id ∉ t.paneIds ∧ t.remove id = (false, t)) ∨
    (id ∈ t.paneIds ∧ (t.remove id).1 = true ∧
      (t.remove id).2.paneIds = t.paneIds.erase id ∧ (t.remove id).2.WellFormed)

/-- The loop goes on after a node without the pane. -/
theorem Removes.visited_branch {visited nodes : List (PaneNode P)} {dividers : List Divider}
    {node : PaneNode P} {r : BranchRemoveResult P × List (PaneNode P) × List Divider}
    (h : Removes id (visited ++ [node]) nodes dividers r) (hnode : id ∉ node.paneIds) :
    Removes id visited (node :: nodes) dividers r := by
  have hmem : id ∈ paneIdsAll (node :: nodes) ↔ id ∈ paneIdsAll nodes := by
    rw [paneIdsAll, List.mem_append, or_iff_right hnode]
  have hids : paneIdsAll visited ++ (paneIdsAll (node :: nodes)).erase id =
      paneIdsAll (visited ++ [node]) ++ (paneIdsAll nodes).erase id := by
    rw [paneIdsAll, List.erase_append_right _ hnode, paneIdsAll_append, paneIdsAll_singleton,
      List.append_assoc]
  cases h with
  | notFound h =>
    rw [List.append_assoc, List.singleton_append]
    exact Removes.notFound (hmem.not.mpr h)
  | removed h he hall htwo hlen =>
    exact Removes.removed (hmem.mpr h) (he.trans hids.symm) hall htwo hlen
  | collapse h he hlast => exact Removes.collapse (hmem.mpr h) (he.trans hids.symm) hlast

/-- A leaf is taken out of its branch; a branch that has one node left is replaced by it. -/
theorem removes_leaf {visited nodes : List (PaneNode P)} {dividers : List Divider}
    (hv : WellFormedAll visited) (hn : WellFormedAll nodes)
    (htwo : 2 ≤ visited.length + nodes.length + 1)
    (hlen : dividers.length + 1 = visited.length + nodes.length + 1) :
    Removes id visited (.leaf id :: nodes) dividers
      (removeNodes id visited dividers (.leaf id :: nodes)) := by
  have hids : (paneIdsAll (.leaf id :: nodes)).erase id = paneIdsAll nodes := by
    rw [paneIdsAll, paneIds, List.singleton_append, List.erase_cons_head]
  have hmem : id ∈ paneIdsAll (.leaf id :: nodes) := by
    rw [paneIdsAll, paneIds, List.singleton_append]
    exact List.mem_cons_self
  have hall := wellFormedAll_append.mpr ⟨hv, hn⟩
  have hdiv : (dividers.eraseIdx (min visited.length (dividers.length - 1))).length + 1 =
      visited.length + nodes.length := by
    rw [List.length_eraseIdx_of_lt (by omega)]
    omega
  have herase : (visited ++ .leaf id :: nodes).eraseIdx visited.length = visited ++ nodes := by
    rw [List.eraseIdx_append_of_length_le le_rfl, Nat.sub_self, List.eraseIdx_cons_zero]
  rw [removeNodes, if_pos rfl, herase]
  split
  · rename_i lastNode hlast
    rw [hlast] at hall
    refine Removes.collapse hmem ?_ (wellFormedAll_singleton.mp hall)
    rw [hids, ← paneIdsAll_append, hlast, paneIdsAll_singleton]
  · rename_i hne
    refine Removes.removed hmem (by rw [hids, paneIdsAll_append]) hall ?_ ?_
    · by_contra hlt
      have hone : (visited ++ nodes).length = 1 := by
        rw [List.length_append] at hlt ⊢
        omega
      obtain ⟨lastNode, hlast⟩ := List.length_eq_one_iff.mp hone
      exact hne lastNode hlast
    · rw [hdiv, List.length_append]

mutual

theorem removesFrom_branch : ∀ {axis : SplitDirection} {nodes : List (PaneNode P)}
    {dividers : List Divider}, (PaneNode.branch axis nodes dividers).WellFormed →
    RemovesFrom id (.branch axis nodes dividers)
  | axis, nodes, dividers, h => by
    obtain ⟨htwo, hlen, hall⟩ := h
    have hr : Removes id [] nodes dividers (removeNodes id [] dividers nodes) :=
      removes_nodes trivial hall (by simpa using htwo) (by simpa using hlen)
    rw [RemovesFrom, paneIds, remove]
    generalize removeNodes id [] dividers nodes = r at hr
    cases hr with
    | notFound hmem => exact Or.inl ⟨hmem, rfl⟩
    | removed hmem hids hall' htwo' hlen' =>
      refine Or.inr ⟨hmem, rfl, ?_, htwo', hlen', hall'⟩
      rw [paneIds, hids, paneIdsAll, List.nil_append]
    | collapse hmem hids hlast =>
      refine Or.inr ⟨hmem, rfl, ?_, hlast⟩
      rw [hids, paneIdsAll, List.nil_append]

theorem removes_nodes : ∀ {nodes visited : List (PaneNode P)} {dividers : List Divider},
    WellFormedAll visited → WellFormedAll nodes → 2 ≤ visited.length + nodes.length →
    dividers.length + 1 = visited.length + nodes.length →
    Removes id visited nodes dividers (removeNodes id visited dividers nodes)
  | [], visited, dividers, _, _, _, _ => by
    have h : Removes id visited [] dividers (.notFound, visited ++ [], dividers) :=
      Removes.notFound (by simp [paneIdsAll])
    rw [List.append_nil] at h
    rw [removeNodes]
    exact h
  | .branch axis' nodes' dividers' :: nodes, visited, dividers, hv, hn, htwo, hlen => by
    obtain ⟨hnode, hnodes⟩ := hn
    rw [List.length_cons] at htwo hlen
    rw [removeNodes]
    have hc : RemovesFrom id (.branch axis' nodes' dividers') := removesFrom_branch hnode
    rcases hc with ⟨hmem, he⟩ | ⟨hmem, hfound, hids, hnode'⟩
    · rw [he]
      simp only [Bool.false_eq_true, if_false]
      have hv' := wellFormedAll_append.mpr ⟨hv, wellFormedAll_singleton.mpr hnode⟩
      have hr := @removes_nodes nodes _ dividers hv' hnodes
        (by rw [List.length_append, List.length_singleton]; omega)
        (by rw [List.length_append, List.length_singleton]; omega)
      exact hr.visited_branch hmem
    · simp only [hfound, if_true]
      refine Removes.removed ?_ ?_ (wellFormedAll_append.mpr ⟨hv, hnode', hnodes⟩) ?_ ?_
      · rw [paneIdsAll]
        exact List.mem_append_left _ hmem
      · rw [paneIdsAll_append, paneIdsAll_cons, paneIdsAll_cons, hids,
          List.erase_append_left _ hmem]
      · simpa using htwo
      · simpa using hlen
  | .leaf pane :: nodes, visited, dividers, hv, hn, htwo, hlen => by
    rw [List.length_cons] at htwo hlen
    by_cases h : pane = id
    · subst h
      exact removes_leaf hv hn.2 (by omega) (by omega)
    · rw [removeNodes, if_neg h]
      have hv' : WellFormedAll (visited ++ [.leaf pane]) :=
        wellFormedAll_append.mpr ⟨hv, hn.1, trivial⟩
      have hr := @removes_nodes nodes _ dividers hv' hn.2
        (by rw [List.length_append, List.length_singleton]; omega)
        (by rw [List.length_append, List.length_singleton]; omega)
      refine hr.visited_branch ?_
      rw [paneIds, List.mem_singleton]
      exact Ne.symm h

end

end Remove

/-! ## `contains_pane` and `replace_pane` -/

mutual

theorem containsPane_iff {id : P} : ∀ t : PaneNode P, t.containsPane id = true ↔ id ∈ t.paneIds
  | .leaf id' => by rw [containsPane, paneIds, List.mem_singleton, decide_eq_true_iff, eq_comm]
  | .branch _ nodes _ => by rw [containsPane, paneIds, anyContainsPane_iff nodes]

theorem anyContainsPane_iff {id : P} : ∀ nodes : List (PaneNode P),
    anyContainsPane id nodes = true ↔ id ∈ paneIdsAll nodes
  | [] => by simp [anyContainsPane, paneIdsAll]
  | node :: nodes => by
    rw [anyContainsPane, paneIdsAll, Bool.or_eq_true, List.mem_append, containsPane_iff node,
      anyContainsPane_iff nodes]

end

section Replace

variable {old new : P}

mutual

theorem paneIds_replacePane : ∀ t : PaneNode P,
    (t.replacePane old new).1 = decide (old ∈ t.paneIds) ∧
      (t.replacePane old new).2.paneIds = t.paneIds.replace old new ∧
      (t.WellFormed → (t.replacePane old new).2.WellFormed)
  | .leaf id => by
    rw [replacePane, paneIds]
    by_cases h : id = old
    · subst h
      simp [paneIds, WellFormed]
    · simp [h, Ne.symm h, paneIds]
  | .branch axis nodes dividers => by
    obtain ⟨hfound, hids, hlen, hwf⟩ := replaceNodes_spec nodes
    rw [replacePane, paneIds]
    refine ⟨hfound, hids, fun ⟨htwo, hdiv, hall⟩ => ⟨?_, ?_, hwf hall⟩⟩
    · rw [hlen]
      exact htwo
    · rw [hlen]
      exact hdiv

theorem replaceNodes_spec : ∀ nodes : List (PaneNode P),
    (replaceNodes old new nodes).1 = decide (old ∈ paneIdsAll nodes) ∧
      paneIdsAll (replaceNodes old new nodes).2 = (paneIdsAll nodes).replace old new ∧
      (replaceNodes old new nodes).2.length = nodes.length ∧
      (WellFormedAll nodes → WellFormedAll (replaceNodes old new nodes).2)
  | [] => by simp [replaceNodes, paneIdsAll]
  | node :: nodes => by
    obtain ⟨hfound, hids, hwf⟩ := paneIds_replacePane node
    rw [replaceNodes, paneIdsAll]
    by_cases h : old ∈ node.paneIds
    · rw [decide_eq_true h] at hfound
      simp only [hfound, if_true]
      refine ⟨by simp [h], ?_, rfl, fun hall => ⟨hwf hall.1, hall.2⟩⟩
      rw [paneIdsAll, hids, List.replace_append_left h]
    · rw [decide_eq_false h] at hfound
      obtain ⟨hfound', hids', hlen', hwf'⟩ := replaceNodes_spec nodes
      rw [List.replace_of_not_mem h] at hids
      simp only [hfound, Bool.false_eq_true, if_false]
      refine ⟨by simp [hfound', h], ?_, by simp [hlen'], fun hall => ⟨hwf hall.1, hwf' hall.2⟩⟩
      rw [paneIdsAll, hids, hids', List.replace_append_right h]

end

mutual

/-- A replacement that does not find the pane changes nothing. -/
theorem replacePane_of_not_mem : ∀ {t : PaneNode P}, old ∉ t.paneIds →
    t.replacePane old new = (false, t)
  | .leaf id, h => by
    rw [paneIds, List.mem_singleton] at h
    rw [replacePane, if_neg (Ne.symm h)]
  | .branch axis nodes dividers, h => by
    rw [paneIds] at h
    rw [replacePane, replaceNodes_of_not_mem h]

theorem replaceNodes_of_not_mem : ∀ {nodes : List (PaneNode P)}, old ∉ paneIdsAll nodes →
    replaceNodes old new nodes = (false, nodes)
  | [], _ => by rw [replaceNodes]
  | node :: nodes, h => by
    rw [paneIdsAll, List.mem_append, not_or] at h
    rw [replaceNodes, replacePane_of_not_mem h.1, replaceNodes_of_not_mem h.2]
    rfl

end

end Replace

/-! ## `sibling_by_direction` -/

section Sibling

variable {id new : P} {direction : Direction}

mutual

theorem mem_of_siblingByDirection {sibling : P} : ∀ {t : PaneNode P},
    t.siblingByDirection id direction = some sibling → id ∈ t.paneIds
  | .leaf _, h => by
    rw [siblingByDirection] at h
    exact nomatch h
  | .branch axis nodes _, h => by
    rw [siblingByDirection] at h
    rw [paneIds]
    exact mem_of_siblingNodes h

theorem mem_of_siblingNodes {sibling : P} {axis : SplitDirection} :
    ∀ {nodes : List (PaneNode P)} {before : Option (PaneNode P)},
    siblingNodes id direction axis before nodes = some sibling → id ∈ paneIdsAll nodes
  | [], _, h => by
    rw [siblingNodes] at h
    exact nomatch h
  | .branch axis' nodes' dividers' :: nodes, before, h => by
    rw [paneIdsAll, List.mem_append]
    rw [siblingNodes] at h
    split at h
    · rename_i heq
      exact Or.inl (mem_of_siblingByDirection heq)
    · exact Or.inr (mem_of_siblingNodes h)
  | .leaf id' :: nodes, before, h => by
    rw [paneIdsAll, paneIds, List.singleton_append, List.mem_cons]
    rw [siblingNodes] at h
    split at h
    · rename_i heq
      exact Or.inl heq.2.symm
    · exact Or.inr (mem_of_siblingNodes h)

end

/-- The loop goes past nodes without the pane. -/
theorem siblingNodes_append {axis : SplitDirection} {visited nodes : List (PaneNode P)}
    (h : id ∉ paneIdsAll visited) : ∀ before, siblingNodes id direction axis before
      (visited ++ nodes) = siblingNodes id direction axis (visited.getLast?.or before) nodes := by
  induction visited with
  | nil => exact fun _ => rfl
  | cons node visited ih =>
    intro before
    rw [paneIdsAll, List.mem_append, not_or] at h
    have hlast : (node :: visited).getLast?.or before = visited.getLast?.or (some node) := by
      rw [List.getLast?_cons, Option.some_or]
      cases visited.getLast? <;> rfl
    rw [hlast, ← ih h.2, List.cons_append]
    cases node with
    | leaf id' =>
      rw [paneIds, List.mem_singleton] at h
      rw [siblingNodes, if_neg fun hand => h.1 hand.2.symm]
    | branch axis' nodes' dividers' =>
      rw [siblingNodes]
      split
      · rename_i heq
        exact absurd (mem_of_siblingByDirection heq) h.1
      · rfl

theorem siblingByDirection_forLeaves (h : new ≠ id) :
    (forLeaves id new direction).siblingByDirection id direction = some new := by
  rw [forLeaves, newBranch, siblingByDirection]
  split <;> simp [siblingNodes, leafId, *]

mutual

/-- **The new pane is the sibling on the requested side.** -/
theorem siblingByDirection_split (hne : new ≠ id) : ∀ {t : PaneNode P}, id ∈ t.paneIds →
    (t.split id new direction).2.siblingByDirection id direction = some new
  | .leaf id', h => by
    rw [paneIds, List.mem_singleton] at h
    rw [split, if_pos h.symm]
    exact siblingByDirection_forLeaves hne
  | .branch axis nodes dividers, h => by
    rw [paneIds] at h
    rw [split, siblingByDirection]
    exact siblingNodes_splitNodes hne (List.not_mem_nil) h

theorem siblingNodes_splitNodes (hne : new ≠ id) {axis : SplitDirection} :
    ∀ {nodes visited : List (PaneNode P)} {dividers : List Divider}, id ∉ paneIdsAll visited →
    id ∈ paneIdsAll nodes → siblingNodes id direction axis none
      (splitNodes id new direction axis visited dividers nodes).2.1 = some new
  | [], _, _, _, h => by
    rw [paneIdsAll] at h
    exact nomatch h
  | .branch axis' nodes' dividers' :: nodes, visited, dividers, hv, h => by
    rw [splitNodes]
    by_cases hmem : id ∈ (PaneNode.branch axis' nodes' dividers').paneIds
    · have hs := siblingByDirection_split hne hmem
      have hfound : (PaneNode.split id new direction (.branch axis' nodes' dividers')).1 = _ :=
        (paneIds_split (.branch axis' nodes' dividers')).1
      rw [decide_eq_true hmem] at hfound
      simp only [hfound, if_true]
      rw [siblingNodes_append hv]
      rw [split] at hs ⊢
      rw [siblingNodes, hs]
    · rw [split_of_not_mem hmem]
      simp only [Bool.false_eq_true, if_false]
      rw [paneIdsAll, List.mem_append, or_iff_right hmem] at h
      refine siblingNodes_splitNodes hne ?_ h
      rw [paneIdsAll_append, paneIdsAll_singleton, List.mem_append]
      exact not_or_intro hv hmem
  | .leaf id' :: nodes, visited, dividers, hv, h => by
    rw [splitNodes]
    by_cases he : id' = id
    · subst he
      rw [if_pos rfl]
      split
      · rename_i haxis
        rw [insertIdx_visited, List.append_assoc, siblingNodes_append hv]
        split <;> simp [siblingNodes, leafId, *]
      · rw [siblingNodes_append hv]
        have hs := @siblingByDirection_forLeaves _ _ _ _ direction hne
        rw [forLeaves, newBranch] at hs ⊢
        rw [siblingNodes, hs]
    · rw [if_neg he]
      rw [paneIdsAll, paneIds, List.singleton_append, List.mem_cons,
        or_iff_right (Ne.symm he)] at h
      refine siblingNodes_splitNodes hne ?_ h
      rw [paneIdsAll_append, paneIdsAll_singleton, List.mem_append, paneIds, List.mem_singleton]
      exact not_or_intro hv (Ne.symm he)

end

end Sibling

end PaneNode

end Clinch
