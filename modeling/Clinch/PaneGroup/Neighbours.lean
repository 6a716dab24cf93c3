import Clinch.PaneGroup.Leaves
import Clinch.Rust

/-!
# The panes next to a pane

`FindPaneByDirection` in `app/src/pane_group/tree.rs`. A `HashSet<PaneId>` is the finite set of its
elements; the order in which it is iterated, and the rectangles that the panes were last drawn in,
are parameters of the one function that reads them.

* `FindPaneByDirectionResult`, `PaneNode.firstPanesInDirection`, `PaneNode.panesByDirection`;
* `RectF`, `areRectsOverlapping`, `PaneData.panesByDirection`;
* `PaneFrame`, `plug`: the way from a pane to the root, and what lies beside it on the way;
* `neighbour`: the nearest subtree on one side;
* **`panesByDirection_plug`**: the search finds its first panes.
-/

set_option autoImplicit false

namespace Clinch

variable {P : Type}

/-- `FindPaneByDirectionResult`. -/
inductive FindPaneByDirectionResult (P : Type)
  | located
  | notFound
  | found (ids : Finset P)

namespace PaneNode

variable [DecidableEq P]

mutual

/-- `PaneNode::first_panes_in_direction`. -/
def firstPanesInDirection (direction : Direction) : PaneNode P → Result (Finset P)
  | .leaf id => .ok {id}
  | .branch axis nodes _ =>
    if axis = direction.axis then
      if direction.isBefore then firstPanesOfLast direction nodes
      else firstPanesOfHead direction nodes
    else firstPanesOfAll direction nodes

/-- `branch.nodes.last().expect(..)`. -/
def firstPanesOfLast (direction : Direction) : List (PaneNode P) → Result (Finset P)
  | [] => .error .unwrap
  | [node] => firstPanesInDirection direction node
  | _ :: node :: nodes => firstPanesOfLast direction (node :: nodes)

/-- `branch.nodes.first().expect(..)`. -/
def firstPanesOfHead (direction : Direction) : List (PaneNode P) → Result (Finset P)
  | [] => .error .unwrap
  | node :: _ => firstPanesInDirection direction node

/-- `branch.nodes.iter().flat_map(..).collect()`. -/
def firstPanesOfAll (direction : Direction) : List (PaneNode P) → Result (Finset P)
  | [] => .ok ∅
  | node :: nodes => do
    let first ← firstPanesInDirection direction node
    let rest ← firstPanesOfAll direction nodes
    return first ∪ rest

end

mutual

/-- `panes_by_direction` of `PaneNode` and `PaneBranch`. -/
def panesByDirection (paneId : P) (direction : Direction) :
    PaneNode P → Result (FindPaneByDirectionResult P)
  | .leaf id => .ok (if id = paneId then .located else .notFound)
  | .branch axis nodes _ => panesByNodes paneId direction axis none nodes

/-- The loop of `PaneBranch::panes_by_direction`, after the node `before`. -/
def panesByNodes (paneId : P) (direction : Direction) (axis : SplitDirection)
    (before : Option (PaneNode P)) :
    List (PaneNode P) → Result (FindPaneByDirectionResult P)
  | [] => .ok .notFound
  | node :: nodes => do
    match ← panesByDirection paneId direction node with
    | .found ids => return .found ids
    | .located =>
      if direction.axis ≠ axis then return .located
      else
        match if direction.isBefore then before else nodes.head? with
        | none => return .located
        | some target => return .found (← target.firstPanesInDirection direction)
    | .notFound => panesByNodes paneId direction axis (some node) nodes

end

end PaneNode

/-! ## The panes that touch -/

/-- `RectF`. -/
structure RectF (K : Type) where
  minX : K
  maxX : K
  minY : K
  maxY : K

/-- `PaneData::are_rects_overlapping`. -/
def areRectsOverlapping {K : Type} [LinearOrder K] (rect1 rect2 : RectF K) (axis : SplitDirection) :
    Bool :=
  match axis with
  | .horizontal => !(decide (rect1.maxY ≤ rect2.minY) || decide (rect1.minY ≥ rect2.maxY))
  | .vertical => !(decide (rect1.maxX ≤ rect2.minX) || decide (rect1.minX ≥ rect2.maxX))

/-- Whether a candidate touches the current pane; one without a position is assumed to. -/
def touches {K : Type} [LinearOrder K] (currentRect : RectF K) (axis : SplitDirection) :
    Option (RectF K) → Bool
  | some candidateRect => areRectsOverlapping currentRect candidateRect axis
  | none => true

/-- `PaneData::panes_by_direction`, where `position` is `ctx.element_position_by_id` and `intoIter`
the order in which a `HashSet` is iterated. -/
def PaneData.panesByDirection [DecidableEq P] {K : Type} [LinearOrder K]
    (position : P → Option (RectF K)) (intoIter : Finset P → List P) (data : PaneData P)
    (paneId : P) (direction : Direction) : Result (List P) := do
  match ← data.root.panesByDirection paneId direction with
  | .found ids =>
    match position paneId with
    | some currentRect =>
      return (intoIter ids).filter fun id => touches currentRect direction.axis (position id)
    | none => return intoIter ids
  | .located | .notFound => return []

/-! ## The way to a pane -/

/-- A branch around one of its nodes. -/
structure PaneFrame (P : Type) where
  axis : SplitDirection
  before : List (PaneNode P)
  after : List (PaneNode P)
  dividers : List Divider

/-- The branch with the node in its place. -/
def PaneFrame.plug (frame : PaneFrame P) (node : PaneNode P) : PaneNode P :=
  .branch frame.axis (frame.before ++ node :: frame.after) frame.dividers

/-- The tree with the node in its place; the first frame is the nearest. -/
def plug : List (PaneFrame P) → PaneNode P → PaneNode P
  | [], node => node
  | frame :: frames, node => plug frames (frame.plug node)

/-- The sibling on one side, if the branch is split along that axis. -/
def PaneFrame.sibling (direction : Direction) (frame : PaneFrame P) : Option (PaneNode P) :=
  if frame.axis = direction.axis then
    if direction.isBefore then frame.before.getLast? else frame.after.head?
  else none

/-- **The nearest neighbouring subtree in a direction.** -/
def neighbour (direction : Direction) (frames : List (PaneFrame P)) : Option (PaneNode P) :=
  frames.findSome? (PaneFrame.sibling direction)

/-- A sibling is a node of the branch. -/
theorem PaneFrame.mem_of_sibling {direction : Direction} {frame : PaneFrame P} {target : PaneNode P}
    (h : frame.sibling direction = some target) :
    frame.axis = direction.axis ∧
      ((direction.isBefore = true ∧ ∃ before, frame.before = before ++ [target]) ∨
        direction.isBefore = false ∧ ∃ after, frame.after = target :: after) := by
  rw [PaneFrame.sibling] at h
  split at h
  · rename_i haxis
    refine ⟨haxis, ?_⟩
    split at h
    · rename_i hbefore
      exact Or.inl ⟨hbefore, List.getLast?_eq_some_iff.mp h⟩
    · rename_i hbefore
      exact Or.inr ⟨by simpa using hbefore, List.head?_eq_some_iff.mp h⟩
  · nomatch h

theorem plug_append (frames frames' : List (PaneFrame P)) (node : PaneNode P) :
    plug (frames ++ frames') node = plug frames' (plug frames node) := by
  induction frames generalizing node with
  | nil => rfl
  | cons frame frames ih => exact ih _

namespace PaneNode

theorem paneIdsAll_middle (before after : List (PaneNode P)) (node : PaneNode P) :
    paneIdsAll (before ++ node :: after) =
      paneIdsAll before ++ (node.paneIds ++ paneIdsAll after) := by
  rw [paneIdsAll_append, paneIdsAll]

theorem paneIds_plug_sublist (frames : List (PaneFrame P)) (node : PaneNode P) :
    node.paneIds.Sublist (plug frames node).paneIds := by
  induction frames generalizing node with
  | nil => exact List.Sublist.refl _
  | cons frame frames ih =>
    refine List.Sublist.trans ?_ (ih (frame.plug node))
    rw [PaneFrame.plug, paneIds, paneIdsAll_middle]
    exact (List.sublist_append_left _ _).trans (List.sublist_append_right _ _)

theorem WellFormed.of_plug {frames : List (PaneFrame P)} {node : PaneNode P}
    (h : (plug frames node).WellFormed) : node.WellFormed := by
  induction frames generalizing node with
  | nil => exact h
  | cons frame frames ih =>
    have hbranch := ih h
    rw [PaneFrame.plug, WellFormed, wellFormedAll_append, WellFormedAll] at hbranch
    exact hbranch.2.2.2.1

theorem WellFormed.sibling {direction : Direction} {frame : PaneFrame P} {node target : PaneNode P}
    (h : (frame.plug node).WellFormed) (htarget : frame.sibling direction = some target) :
    target.WellFormed := by
  rw [PaneFrame.plug, WellFormed, wellFormedAll_append, WellFormedAll] at h
  obtain ⟨-, -, hbefore, -, hafter⟩ := h
  rcases (PaneFrame.mem_of_sibling htarget).2 with ⟨-, before, heq⟩ | ⟨-, after, heq⟩
  · rw [heq, wellFormedAll_append] at hbefore
    exact wellFormedAll_singleton.mp hbefore.2
  · rw [heq, WellFormedAll] at hafter
    exact hafter.1

mutual

/-- There is a way to every pane of the tree. -/
theorem exists_plug {q : P} :
    ∀ {t : PaneNode P}, q ∈ t.paneIds → ∃ frames, t = plug frames (.leaf q)
  | .leaf id, h => by
    rw [paneIds, List.mem_singleton] at h
    exact ⟨[], by rw [plug, h]⟩
  | .branch axis nodes dividers, h => by
    rw [paneIds] at h
    obtain ⟨before, frames, after, rfl⟩ := exists_plug_nodes h
    refine ⟨frames ++ [⟨axis, before, after, dividers⟩], ?_⟩
    rw [plug_append]
    rfl

theorem exists_plug_nodes {q : P} : ∀ {nodes : List (PaneNode P)}, q ∈ paneIdsAll nodes →
    ∃ before frames after, nodes = before ++ plug frames (.leaf q) :: after
  | [], h => by simp [paneIdsAll] at h
  | node :: nodes, h => by
    rw [paneIdsAll, List.mem_append] at h
    rcases h with h | h
    · obtain ⟨frames, rfl⟩ := exists_plug h
      exact ⟨[], frames, nodes, rfl⟩
    · obtain ⟨before, frames, after, rfl⟩ := exists_plug_nodes h
      exact ⟨node :: before, frames, after, rfl⟩

end

variable [DecidableEq P]

/-! ## The first panes -/

mutual

/-- In a well-formed tree no branch is empty. -/
theorem firstPanesInDirection_spec (direction : Direction) : ∀ {t : PaneNode P}, t.WellFormed →
    Returns (fun ids => ∀ p ∈ ids, p ∈ t.paneIds) (t.firstPanesInDirection direction)
  | .leaf id, _ => ⟨{id}, by rw [firstPanesInDirection], fun p hp => by simpa [paneIds] using hp⟩
  | .branch axis nodes dividers, h => by
    rw [WellFormed] at h
    have hne : nodes ≠ [] := by
      rintro rfl
      simp at h
    rw [firstPanesInDirection, paneIds]
    split
    · split
      · exact firstPanesOfLast_spec direction hne h.2.2
      · exact firstPanesOfHead_spec direction hne h.2.2
    · exact firstPanesOfAll_spec direction h.2.2

theorem firstPanesOfLast_spec (direction : Direction) : ∀ {nodes : List (PaneNode P)}, nodes ≠ [] →
    WellFormedAll nodes →
    Returns (fun ids => ∀ p ∈ ids, p ∈ paneIdsAll nodes) (firstPanesOfLast direction nodes)
  | [node], _, h => by
    rw [firstPanesOfLast]
    refine (firstPanesInDirection_spec direction h.1).mono fun ids hids p hp => ?_
    rw [paneIdsAll]
    exact List.mem_append_left _ (hids p hp)
  | node :: node' :: nodes, _, h => by
    rw [firstPanesOfLast]
    refine (firstPanesOfLast_spec direction (List.cons_ne_nil _ _) h.2).mono fun ids hids p hp => ?_
    rw [paneIdsAll]
    exact List.mem_append_right _ (hids p hp)

theorem firstPanesOfHead_spec (direction : Direction) : ∀ {nodes : List (PaneNode P)}, nodes ≠ [] →
    WellFormedAll nodes →
    Returns (fun ids => ∀ p ∈ ids, p ∈ paneIdsAll nodes) (firstPanesOfHead direction nodes)
  | node :: nodes, _, h => by
    rw [firstPanesOfHead]
    refine (firstPanesInDirection_spec direction h.1).mono fun ids hids p hp => ?_
    rw [paneIdsAll]
    exact List.mem_append_left _ (hids p hp)

theorem firstPanesOfAll_spec (direction : Direction) : ∀ {nodes : List (PaneNode P)},
    WellFormedAll nodes →
    Returns (fun ids => ∀ p ∈ ids, p ∈ paneIdsAll nodes) (firstPanesOfAll direction nodes)
  | [], _ => ⟨∅, by rw [firstPanesOfAll], by simp⟩
  | node :: nodes, h => by
    rw [firstPanesOfAll]
    refine (firstPanesInDirection_spec direction h.1).bind fun first hfirst => ?_
    refine (firstPanesOfAll_spec direction h.2).bind fun rest hrest => Returns.ok fun p hp => ?_
    rw [paneIdsAll, List.mem_append]
    exact (Finset.mem_union.mp hp).imp (hfirst p) (hrest p)

end

/-! ## The search -/

mutual

theorem panesByDirection_notFound {q : P} (direction : Direction) : ∀ {t : PaneNode P},
    q ∉ t.paneIds → t.panesByDirection q direction = .ok .notFound
  | .leaf id, h => by
    rw [paneIds, List.mem_singleton] at h
    rw [panesByDirection, if_neg (Ne.symm h)]
  | .branch axis nodes dividers, h => by
    rw [paneIds] at h
    rw [panesByDirection, ← List.append_nil nodes, panesByNodes_skip direction axis none h,
      panesByNodes]

/-- The loop goes past the nodes that the pane is not in. -/
theorem panesByNodes_skip {q : P} (direction : Direction) (axis : SplitDirection)
    {rest : List (PaneNode P)} : ∀ (before : Option (PaneNode P)) {nodes : List (PaneNode P)},
    q ∉ paneIdsAll nodes → panesByNodes q direction axis before (nodes ++ rest) =
      panesByNodes q direction axis (nodes.getLast?.or before) rest
  | before, [], _ => rfl
  | before, node :: nodes, h => by
    rw [paneIdsAll, List.mem_append, not_or] at h
    rw [List.cons_append, panesByNodes, panesByDirection_notFound direction h.1, ok_bind]
    simp only
    rw [panesByNodes_skip direction axis (some node) h.2]
    cases nodes with
    | nil => rfl
    | cons node' nodes =>
      rw [List.getLast?_cons_cons, List.getLast?_eq_some_getLast (List.cons_ne_nil _ _)]
      rfl

end

/-- What becomes of the outcome for a node that has this sibling. -/
def resume (direction : Direction) (sibling : Option (PaneNode P)) :
    FindPaneByDirectionResult P → Result (FindPaneByDirectionResult P)
  | .located =>
    match sibling with
    | none => .ok .located
    | some target => do return .found (← target.firstPanesInDirection direction)
  | outcome => .ok outcome

theorem panesByDirection_frame {q : P} (direction : Direction) (frame : PaneFrame P) {node : PaneNode P}
    (hq : q ∉ paneIdsAll frame.before) {outcome : FindPaneByDirectionResult P}
    (hnode : node.panesByDirection q direction = .ok outcome) (hne : outcome ≠ .notFound) :
    (frame.plug node).panesByDirection q direction =
      resume direction (frame.sibling direction) outcome := by
  rw [PaneFrame.plug, panesByDirection, panesByNodes_skip direction frame.axis none hq, panesByNodes,
    hnode, ok_bind]
  cases outcome with
  | notFound => exact absurd rfl hne
  | found ids => rfl
  | located =>
    simp only [resume, PaneFrame.sibling, Option.or_none, ne_eq, ite_not]
    by_cases haxis : direction.axis = frame.axis
    · rw [if_pos haxis, if_pos haxis.symm]
      rfl
    · rw [if_neg haxis, if_neg (Ne.symm haxis)]
      rfl

/-- The rest of the way up, from a node in which the search has had an outcome. -/
theorem panesByDirection_plug_node {q : P} (direction : Direction) (frames : List (PaneFrame P))
    {node : PaneNode P} (hq : q ∈ node.paneIds) (hwf : (plug frames node).WellFormed)
    (hnodup : (plug frames node).paneIds.Nodup) {outcome : FindPaneByDirectionResult P}
    (hnode : node.panesByDirection q direction = .ok outcome) (hne : outcome ≠ .notFound) :
    (plug frames node).panesByDirection q direction =
      resume direction (neighbour direction frames) outcome := by
  induction frames generalizing node outcome with
  | nil =>
    rw [plug, hnode]
    cases outcome <;> rfl
  | cons frame frames ih =>
    have hwf' : (frame.plug node).WellFormed := WellFormed.of_plug hwf
    have hframe := (paneIds_plug_sublist frames (frame.plug node)).nodup hnodup
    have hq' : q ∈ (frame.plug node).paneIds := (paneIds_plug_sublist [frame] node).subset hq
    have hbefore : q ∉ paneIdsAll frame.before := by
      rw [PaneFrame.plug, paneIds, paneIdsAll_middle] at hframe
      intro hmem
      exact (List.nodup_append.mp hframe).2.2 q hmem q (List.mem_append_left _ hq) rfl
    have hstep := panesByDirection_frame direction frame hbefore hnode hne
    rw [plug]
    cases outcome with
    | notFound => exact absurd rfl hne
    | found ids => exact ih hq' hwf hnodup (hstep.trans rfl) (by simp)
    | located =>
      rw [neighbour, List.findSome?_cons]
      cases hsib : frame.sibling direction with
      | none =>
        rw [hsib] at hstep
        exact ih hq' hwf hnodup hstep (by simp)
      | some target =>
        rw [hsib] at hstep
        obtain ⟨ids, hids, -⟩ := firstPanesInDirection_spec direction (hwf'.sibling hsib)
        have hfound : resume direction (some target) .located = .ok (.found ids) := by
          rw [resume, hids, ok_bind]
          rfl
        rw [hfound] at hstep
        exact (ih hq' hwf hnodup hstep (by simp)).trans hfound.symm

/-- **The search from a pane finds the first panes of the nearest neighbouring subtree.** -/
theorem panesByDirection_plug {q : P} (direction : Direction) (frames : List (PaneFrame P))
    (hwf : (plug frames (.leaf q)).WellFormed) (hnodup : (plug frames (.leaf q)).paneIds.Nodup) :
    (plug frames (.leaf q)).panesByDirection q direction =
      resume direction (neighbour direction frames) .located := by
  have hleaf : (PaneNode.leaf q).panesByDirection q direction = .ok .located := by
    rw [panesByDirection, if_pos rfl]
  exact panesByDirection_plug_node direction frames (List.mem_singleton.mpr rfl) hwf hnodup hleaf
    (by simp)

end PaneNode

end Clinch
