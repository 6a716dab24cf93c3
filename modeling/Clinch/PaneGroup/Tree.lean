import Mathlib

/-!
# The pane split tree

`app/src/pane_group/tree.rs`. A `Branch(PaneBranch)` is one constructor, and the loops of
`PaneBranch` over its nodes are recursions over the nodes that are still to be visited. What only the
rendering reads (the flex values, a divider's id and mouse state) is left out.

* `Direction`, `SplitDirection`, `PaneNode`, `HiddenPane`, `PaneData`;
* `PaneNode.split`, `remove`, `insert`, `paneIds`, `containsPane`, `replacePane`,
  `siblingByDirection`;
* `PaneData.split`, `splitRoot`, `remove`, `movePane`, `replacePane`, `revertTemporaryReplacement`.
-/

set_option autoImplicit false

namespace Clinch

inductive SplitDirection
  | horizontal | vertical
  deriving DecidableEq

inductive Direction
  | left | right | up | down
  deriving DecidableEq

namespace Direction

def axis : Direction → SplitDirection
  | left | right => .horizontal
  | up | down => .vertical

/-- `Direction::Left | Direction::Up`: the new pane goes before the old one. -/
def isBefore : Direction → Bool
  | left | up => true
  | right | down => false

end Direction

/-- `Divider`, without its id and its mouse state. -/
structure Divider where
  new ::
  deriving DecidableEq

/-- `PaneNode`, with the fields of `PaneBranch` in the branch. -/
inductive PaneNode (P : Type)
  | branch (axis : SplitDirection) (nodes : List (PaneNode P)) (dividers : List Divider)
  | leaf (id : P)

/-- What `PaneBranch::remove` found; the node of `Collapse` takes the branch's place. -/
inductive BranchRemoveResult (P : Type)
  | notFound
  | removed
  | collapse (lastNode : PaneNode P)

variable {P : Type}

namespace PaneNode

/-- `PaneBranch::new`. -/
def newBranch (oldPane newPane : PaneNode P) (direction : Direction) : PaneNode P :=
  .branch direction.axis
    (if direction.isBefore then [newPane, oldPane] else [oldPane, newPane]) [Divider.new]

/-- `PaneBranch::for_leaves`. -/
def forLeaves (oldLeaf newLeaf : P) (direction : Direction) : PaneNode P :=
  newBranch (.leaf oldLeaf) (.leaf newLeaf) direction

mutual

/-- `PaneNode::pane_ids`, and `PaneBranch::get_children`. -/
def paneIds : PaneNode P → List P
  | .branch _ nodes _ => paneIdsAll nodes
  | .leaf id => [id]

def paneIdsAll : List (PaneNode P) → List P
  | [] => []
  | node :: nodes => paneIds node ++ paneIdsAll nodes

end

/-- `PaneNode::insert`. -/
def insert (newPaneId : P) (direction : Direction) : PaneNode P → PaneNode P
  | .leaf oldPaneId => forLeaves oldPaneId newPaneId direction
  | .branch axis nodes dividers =>
    if direction.axis = axis then
      if direction.isBefore then .branch axis (.leaf newPaneId :: nodes) (Divider.new :: dividers)
      else .branch axis (nodes ++ [.leaf newPaneId]) (dividers ++ [Divider.new])
    else newBranch (.branch axis nodes dividers) (.leaf newPaneId) direction

variable [DecidableEq P]

mutual

/-- `PaneNode::split`. -/
def split (oldPane newPane : P) (direction : Direction) : PaneNode P → Bool × PaneNode P
  | .leaf pane =>
    if pane = oldPane then (true, forLeaves oldPane newPane direction) else (false, .leaf pane)
  | .branch axis nodes dividers =>
    let (found, nodes, dividers) := splitNodes oldPane newPane direction axis [] dividers nodes
    (found, .branch axis nodes dividers)

/-- The loop of `PaneBranch::split`, after the nodes `visited`. -/
def splitNodes (oldPane newPane : P) (direction : Direction) (axis : SplitDirection)
    (visited : List (PaneNode P)) (dividers : List Divider) :
    List (PaneNode P) → Bool × List (PaneNode P) × List Divider
  | [] => (false, visited, dividers)
  | .branch axis' nodes' dividers' :: nodes =>
    let (found, node) := split oldPane newPane direction (.branch axis' nodes' dividers')
    if found then (true, visited ++ node :: nodes, dividers)
    else splitNodes oldPane newPane direction axis (visited ++ [node]) dividers nodes
  | .leaf pane :: nodes =>
    if pane = oldPane then
      if direction.axis = axis then
        (true, (visited ++ .leaf pane :: nodes).insertIdx
            (if direction.isBefore then visited.length else visited.length + 1) (.leaf newPane),
          dividers.insertIdx visited.length Divider.new)
      else (true, visited ++ forLeaves pane newPane direction :: nodes, dividers)
    else splitNodes oldPane newPane direction axis (visited ++ [.leaf pane]) dividers nodes

end

mutual

/-- `PaneNode::remove`. -/
def remove (paneId : P) : PaneNode P → Bool × PaneNode P
  | .leaf id => (false, .leaf id)
  | .branch axis nodes dividers =>
    match removeNodes paneId [] dividers nodes with
    | (.notFound, nodes, dividers) => (false, .branch axis nodes dividers)
    | (.removed, nodes, dividers) => (true, .branch axis nodes dividers)
    | (.collapse lastNode, _, _) => (true, lastNode)

/-- The loop of `PaneBranch::remove`, after the nodes `visited`. -/
def removeNodes (paneIdToRemove : P) (visited : List (PaneNode P)) (dividers : List Divider) :
    List (PaneNode P) → BranchRemoveResult P × List (PaneNode P) × List Divider
  | [] => (.notFound, visited, dividers)
  | .branch axis' nodes' dividers' :: nodes =>
    let (found, node) := remove paneIdToRemove (.branch axis' nodes' dividers')
    if found then (.removed, visited ++ node :: nodes, dividers)
    else removeNodes paneIdToRemove (visited ++ [node]) dividers nodes
  | .leaf pane :: nodes =>
    if pane = paneIdToRemove then
      -- an empty list of dividers is only logged
      let dividers := dividers.eraseIdx (min visited.length (dividers.length - 1))
      match (visited ++ .leaf pane :: nodes).eraseIdx visited.length with
      | [lastNode] => (.collapse lastNode, [], dividers)
      | nodes => (.removed, nodes, dividers)
    else removeNodes paneIdToRemove (visited ++ [.leaf pane]) dividers nodes

end

mutual

/-- `PaneNode::contains_pane`. -/
def containsPane (paneId : P) : PaneNode P → Bool
  | .leaf id => id = paneId
  | .branch _ nodes _ => anyContainsPane paneId nodes

def anyContainsPane (paneId : P) : List (PaneNode P) → Bool
  | [] => false
  | node :: nodes => containsPane paneId node || anyContainsPane paneId nodes

end

mutual

/-- `PaneNode::replace_pane`. -/
def replacePane (oldPaneId newPaneId : P) : PaneNode P → Bool × PaneNode P
  | .leaf id => if id = oldPaneId then (true, .leaf newPaneId) else (false, .leaf id)
  | .branch axis nodes dividers =>
    let (found, nodes) := replaceNodes oldPaneId newPaneId nodes
    (found, .branch axis nodes dividers)

/-- The loop of `PaneBranch::replace_pane`. -/
def replaceNodes (oldPaneId newPaneId : P) : List (PaneNode P) → Bool × List (PaneNode P)
  | [] => (false, [])
  | node :: nodes =>
    let (found, node) := replacePane oldPaneId newPaneId node
    if found then (true, node :: nodes)
    else
      let (found, nodes) := replaceNodes oldPaneId newPaneId nodes
      (found, node :: nodes)

end

/-- The id of a leaf. -/
def leafId : PaneNode P → Option P
  | .leaf id => some id
  | .branch .. => none

mutual

/-- `PaneBranch::sibling_by_direction`; a leaf has none. -/
def siblingByDirection (paneId : P) (direction : Direction) : PaneNode P → Option P
  | .leaf _ => none
  | .branch axis nodes _ => siblingNodes paneId direction axis none nodes

/-- The loop of `PaneBranch::sibling_by_direction`, after the node `before`. -/
def siblingNodes (paneId : P) (direction : Direction) (axis : SplitDirection)
    (before : Option (PaneNode P)) : List (PaneNode P) → Option P
  | [] => none
  | .branch axis' nodes' dividers' :: nodes =>
    match siblingByDirection paneId direction (.branch axis' nodes' dividers') with
    | some id => some id
    | none => siblingNodes paneId direction axis (some (.branch axis' nodes' dividers')) nodes
  | .leaf id :: nodes =>
    if direction.axis = axis ∧ id = paneId then
      if direction.isBefore then before.bind leafId else nodes.head?.bind leafId
    else siblingNodes paneId direction axis (some (.leaf id)) nodes

end

end PaneNode

/-- `HiddenPaneReason`. -/
inductive HiddenPaneReason (P : Type)
  | fromMove
  | fromJob
  | temporaryReplacement (replacementPaneId : P)
  | closed
  | childAgent
  deriving DecidableEq

structure HiddenPane (P : Type) where
  paneId : P
  reason : HiddenPaneReason P
  deriving DecidableEq

structure PaneData (P : Type) where
  root : PaneNode P
  len : ℕ
  hiddenPanes : List (HiddenPane P)

namespace PaneData

def new (paneId : P) : PaneData P := ⟨.leaf paneId, 1, []⟩

def paneIds (data : PaneData P) : List P := data.root.paneIds

/-- `PaneData::split_root`. -/
def splitRoot (data : PaneData P) (newId : P) (direction : Direction) : PaneData P :=
  { data with root := data.root.insert newId direction, len := data.len + 1 }

variable [DecidableEq P]

def split (data : PaneData P) (oldId newId : P) (direction : Direction) : Bool × PaneData P :=
  let (successfulSplit, root) := data.root.split oldId newId direction
  (successfulSplit,
    { data with root, len := if successfulSplit then data.len + 1 else data.len })

def remove (data : PaneData P) (content : P) : Bool × PaneData P :=
  let (successfulRemove, root) := data.root.remove content
  (successfulRemove,
    { data with root, len := if successfulRemove then data.len - 1 else data.len })

def siblingByDirection (data : PaneData P) (paneId : P) (direction : Direction) : Option P :=
  data.root.siblingByDirection paneId direction

/-- `PaneData::move_pane`. -/
def movePane (data : PaneData P) (id targetPaneId : P) (direction : Direction) :
    Bool × PaneData P :=
  if id = targetPaneId then (false, data)
  else if data.siblingByDirection targetPaneId direction = some id then (false, data)
  else
    let (removed, data) := data.remove id
    if removed then data.split targetPaneId id direction else (false, data)

/-- `PaneData::replace_pane`. -/
def replacePane (data : PaneData P) (originalPaneId replacementPaneId : P) (isTemporary : Bool) :
    Bool × PaneData P :=
  if data.root.containsPane originalPaneId then
    let hiddenPanes := if isTemporary then
        data.hiddenPanes ++ [⟨originalPaneId, .temporaryReplacement replacementPaneId⟩]
      else data.hiddenPanes
    let (success, root) := data.root.replacePane originalPaneId replacementPaneId
    if success then (true, { data with root, hiddenPanes })
    else (false, { data with
      root, hiddenPanes := if isTemporary then hiddenPanes.dropLast else hiddenPanes })
  else (false, data)

/-- `PaneData::original_pane_for_replacement`. -/
def originalPaneForReplacement (data : PaneData P) (replacementPaneId : P) : Option P :=
  (data.hiddenPanes.find? fun pane => pane.reason = .temporaryReplacement replacementPaneId).map
    HiddenPane.paneId

/-- `PaneData::revert_temporary_replacement`. -/
def revertTemporaryReplacement (data : PaneData P) (replacementPaneId : P) :
    Option P × PaneData P :=
  match data.hiddenPanes.findIdx? fun pane => pane.reason = .temporaryReplacement replacementPaneId,
    data.hiddenPanes.find? fun pane => pane.reason = .temporaryReplacement replacementPaneId with
  | some position, some hiddenPane =>
    let hiddenPanes := data.hiddenPanes.eraseIdx position
    let (replaced, root) := data.root.replacePane replacementPaneId hiddenPane.paneId
    if replaced then (some hiddenPane.paneId, { data with root, hiddenPanes })
    else (none, { data with root, hiddenPanes := hiddenPanes.insertIdx position hiddenPane })
  | _, _ => (none, data)

end PaneData

end Clinch
