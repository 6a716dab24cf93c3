import Clinch.Rust

/-!
# The sum tree

`crates/sum_tree/src/lib.rs`: a persistent B-tree over the items of a sequence, in which every node
caches the sum of the summaries below it. `Arc::make_mut` is copy-on-write, so a `SumTree<T>` is the
value of its root node and every mutating method returns the new tree.

* `SumTree`, `summary`, `height`, `childSummaries`, `childTrees`, `items`, `isUnderflowing`;
* `pushTreeRecursive`, `pushTree`, `push`, `extend`, `updateLast`, `fromChildTrees`;
* `toList`: the items in order.
-/

set_option autoImplicit false

namespace Clinch

/-- `TREE_BASE` of a build without the `test-util` feature. -/
def treeBase : ℕ := 6

theorem treeBase_pos : 0 < treeBase := by decide

/-- The capacity of the `ArrayVec`s of a node. -/
def nodeCapacity : ℕ := 2 * treeBase

/-- `Item`: every item has a summary. -/
class Item (T : Type) (S : outParam Type) where
  summary : T → S

/-- `Node`, and `SumTree` as the value of its root. -/
inductive SumTree (T S : Type)
  | internal (height : ℕ) (summary : S) (childSummaries : List S) (childTrees : List (SumTree T S))
  | leaf (summary : S) (items : List T) (itemSummaries : List S)

namespace SumTree

variable {T S : Type}

/-! ## Reading a node -/

def isLeaf : SumTree T S → Bool
  | .internal .. => false
  | .leaf .. => true

def height : SumTree T S → ℕ
  | .internal height .. => height
  | .leaf .. => 0

def summary : SumTree T S → S
  | .internal _ summary _ _ => summary
  | .leaf summary _ _ => summary

/-- `Node::child_summaries`: of a leaf, the summaries of its items. -/
def childSummaries : SumTree T S → List S
  | .internal _ _ childSummaries _ => childSummaries
  | .leaf _ _ itemSummaries => itemSummaries

/-- `Node::child_trees`. -/
def childTrees : SumTree T S → Result (List (SumTree T S))
  | .internal _ _ _ childTrees => .ok childTrees
  | .leaf .. => .error .assert

/-- `Node::items`. -/
def items : SumTree T S → Result (List T)
  | .internal .. => .error .assert
  | .leaf _ items _ => .ok items

def isUnderflowing : SumTree T S → Bool
  | .internal _ _ _ childTrees => childTrees.length < treeBase
  | .leaf _ items _ => items.length < treeBase

def isEmpty : SumTree T S → Bool
  | .leaf _ items _ => items.isEmpty
  | .internal .. => false

mutual
/-- The items in order. -/
def toList : SumTree T S → List T
  | .leaf _ items _ => items
  | .internal _ _ _ childTrees => toListAll childTrees
def toListAll : List (SumTree T S) → List T
  | [] => []
  | t :: ts => toList t ++ toListAll ts
end

mutual
/-- `SumTree::rightmost_leaf`. -/
def rightmostLeaf : SumTree T S → Result (SumTree T S)
  | .leaf summary items itemSummaries => .ok (.leaf summary items itemSummaries)
  | .internal _ _ _ childTrees => rightmostLeafLast childTrees
def rightmostLeafLast : List (SumTree T S) → Result (SumTree T S)
  | [] => .error .unwrap
  | [t] => rightmostLeaf t
  | _ :: t :: ts => rightmostLeafLast (t :: ts)
end

/-- `SumTree::last`. -/
def last (t : SumTree T S) : Result (Option T) := do
  let leaf ← t.rightmostLeaf
  return (← leaf.items).getLast?

/-! ## Building -/

variable [AddMonoid S]

/-- `SumTree::new`. -/
def new : SumTree T S := .leaf 0 [] []

/-- `SumTree::from_child_trees`; the height is a `u8`. -/
def fromChildTrees (childTrees : List (SumTree T S)) : Result (SumTree T S) := do
  let height ← checkedAdd u8Max (← index childTrees 0).height 1
  let childSummaries ← arrayCollect nodeCapacity (childTrees.map summary)
  let childTrees ← arrayCollect nodeCapacity childTrees
  return .internal height childSummaries.sum childSummaries childTrees

/-- The end of the internal case of `push_tree_recursive`: append, or split in two. -/
def appendChildren (height : ℕ) (summary : S) (childSummaries summariesToAppend : List S)
    (childTrees treesToAppend : List (SumTree T S)) : Result (SumTree T S × Option (SumTree T S)) :=
  let childCount := childTrees.length + treesToAppend.length
  if childCount > nodeCapacity then do
    let midpoint := (childCount + childCount % 2) / 2
    let allSummaries := childSummaries ++ summariesToAppend
    let leftSummaries ← arrayCollect nodeCapacity (allSummaries.take midpoint)
    let rightSummaries ← arrayCollect nodeCapacity (allSummaries.drop midpoint)
    let allTrees := childTrees ++ treesToAppend
    let leftTrees ← arrayCollect nodeCapacity (allTrees.take midpoint)
    let rightTrees ← arrayCollect nodeCapacity (allTrees.drop midpoint)
    return (.internal height leftSummaries.sum leftSummaries leftTrees,
      some (.internal height rightSummaries.sum rightSummaries rightTrees))
  else do
    let childSummaries ← arrayExtend nodeCapacity childSummaries summariesToAppend
    let childTrees ← arrayExtend nodeCapacity childTrees treesToAppend
    return (.internal height summary childSummaries childTrees, none)

/-- The leaf case of `push_tree_recursive`. -/
def appendItems (summary : S) (items : List T) (itemSummaries : List S) (other : SumTree T S) :
    Result (SumTree T S × Option (SumTree T S)) := do
  let otherItems ← other.items
  let childCount := items.length + otherItems.length
  if childCount > nodeCapacity then
    let midpoint := (childCount + childCount % 2) / 2
    let allItems := items ++ otherItems
    let leftItems ← arrayCollect nodeCapacity (allItems.take midpoint)
    let rightItems ← arrayCollect nodeCapacity (allItems.drop midpoint)
    let allSummaries := itemSummaries ++ other.childSummaries
    let leftSummaries ← arrayCollect nodeCapacity (allSummaries.take midpoint)
    let rightSummaries ← arrayCollect nodeCapacity (allSummaries.drop midpoint)
    return (.leaf leftSummaries.sum leftItems leftSummaries,
      some (.leaf rightSummaries.sum rightItems rightSummaries))
  else
    let items ← arrayExtend nodeCapacity items otherItems
    let itemSummaries ← arrayExtend nodeCapacity itemSummaries other.childSummaries
    return (.leaf (summary + other.summary) items itemSummaries, none)

/-- `*child_summaries.last_mut().unwrap() = child_trees.last().unwrap().0.summary().clone()`. -/
def refreshLastSummary (childSummaries : List S) (childTrees : List (SumTree T S)) :
    Result (List S) := do
  let child ← unwrap childTrees.getLast?
  let _ ← unwrap childSummaries.getLast?
  return childSummaries.dropLast ++ [child.summary]

mutual
/-- `SumTree::push_tree_recursive`: the grown tree, and its right half when the root was split. -/
def pushTreeRecursive : SumTree T S → SumTree T S → Result (SumTree T S × Option (SumTree T S))
  | .internal height summary childSummaries childTrees, other => do
    let heightDelta ← checkedSub height other.height
    if heightDelta = 0 then
      let summariesToAppend ← arrayExtend nodeCapacity [] other.childSummaries
      let treesToAppend ← arrayExtend nodeCapacity [] (← other.childTrees)
      appendChildren height (summary + other.summary) childSummaries summariesToAppend childTrees
        treesToAppend
    else if heightDelta = 1 ∧ ¬ other.isUnderflowing then
      appendChildren height (summary + other.summary) childSummaries [other.summary] childTrees
        [other]
    else
      let (childTrees, treeToAppend) ← pushTreeLast childTrees other
      let childSummaries ← refreshLastSummary childSummaries childTrees
      match treeToAppend with
      | none => appendChildren height (summary + other.summary) childSummaries [] childTrees []
      | some splitTree =>
        appendChildren height (summary + other.summary) childSummaries [splitTree.summary]
          childTrees [splitTree]
  | .leaf summary items itemSummaries, other => appendItems summary items itemSummaries other
/-- `push_tree_recursive` on the last child. -/
def pushTreeLast : List (SumTree T S) → SumTree T S →
    Result (List (SumTree T S) × Option (SumTree T S))
  | [], _ => .error .unwrap
  | [t], other => do
    let (t, splitTree) ← pushTreeRecursive t other
    return ([t], splitTree)
  | t :: u :: ts, other => do
    let (ts, splitTree) ← pushTreeLast (u :: ts) other
    return (t :: ts, splitTree)
end

/-- `push_tree` when `other` is not taller: split the root when it has become too wide. -/
def pushTreeRoot (self other : SumTree T S) : Result (SumTree T S) := do
  match ← pushTreeRecursive self other with
  | (self, none) => return self
  | (self, some splitTree) => fromChildTrees [self, splitTree]

mutual
/-- `SumTree::push_tree`. -/
def pushTree (self : SumTree T S) : SumTree T S → Result (SumTree T S)
  | .leaf summary items itemSummaries =>
    if items.isEmpty then .ok self else pushTreeRoot self (.leaf summary items itemSummaries)
  | .internal height summary childSummaries childTrees =>
    if self.height < height then pushTrees self childTrees
    else pushTreeRoot self (.internal height summary childSummaries childTrees)
/-- `for tree in other_node.child_trees() { self.push_tree(tree.clone()) }`. -/
def pushTrees (self : SumTree T S) : List (SumTree T S) → Result (SumTree T S)
  | [] => .ok self
  | t :: ts => do pushTrees (← pushTree self t) ts
end

variable [Item T S]

/-- `SumTree::push`. -/
def push (self : SumTree T S) (item : T) : Result (SumTree T S) := do
  let summary := Item.summary item
  pushTree self (← fromChildTrees [.leaf summary [item] [summary]])

/-- `SumTree::from_item`. -/
def fromItem (item : T) : Result (SumTree T S) := push new item

/-- The leaf that `SumTree::extend` is filling: its summary, items and item summaries. -/
abbrev PendingLeaf (T S : Type) := S × List T × List S

/-- `if leaf.is_some() && leaf.items().len() == 2 * TREE_BASE { self.push_tree(leaf.take()) }`. -/
def flushFullLeaf (self : SumTree T S) :
    Option (PendingLeaf T S) → Result (SumTree T S × Option (PendingLeaf T S))
  | none => .ok (self, none)
  | some (summary, items, itemSummaries) =>
    if items.length = nodeCapacity then do
      return (← pushTree self (.leaf summary items itemSummaries), none)
    else .ok (self, some (summary, items, itemSummaries))

/-- The loop of `SumTree::extend` over the iterator. -/
def extendLoop (self : SumTree T S) (pending : Option (PendingLeaf T S)) :
    List T → Result (SumTree T S)
  | [] =>
    match pending with
    | none => .ok self
    | some (summary, items, itemSummaries) => pushTree self (.leaf summary items itemSummaries)
  | item :: iter => do
    let (self, pending) ← flushFullLeaf self pending
    let (summary, items, itemSummaries) := pending.getD (0, [], [])
    let itemSummary := Item.summary item
    let items ← arrayPush nodeCapacity items item
    let itemSummaries ← arrayPush nodeCapacity itemSummaries itemSummary
    extendLoop self (some (summary + itemSummary, items, itemSummaries)) iter

/-- `SumTree::extend`. -/
def extend (self : SumTree T S) (iter : List T) : Result (SumTree T S) := extendLoop self none iter

/-- The leaf case of `update_last_leaf_recursive`. -/
def updateLastItem (f : T → T) (items : List T) (itemSummaries : List S) :
    Result (SumTree T S) := do
  let item ← unwrap items.getLast?
  let _ ← unwrap itemSummaries.getLast?
  let item := f item
  let itemSummaries := itemSummaries.dropLast ++ [Item.summary item]
  return .leaf itemSummaries.sum (items.dropLast ++ [item]) itemSummaries

mutual
/-- `SumTree::update_last_leaf_recursive`: the tree; the summary it returns is the root's. -/
def updateLastLeafRecursive (f : T → T) : SumTree T S → Result (SumTree T S)
  | .internal height _ childSummaries childTrees => do
    let childTrees ← updateLastChild f childTrees
    let childSummaries ← refreshLastSummary childSummaries childTrees
    return .internal height childSummaries.sum childSummaries childTrees
  | .leaf _ items itemSummaries => updateLastItem f items itemSummaries
/-- `update_last_leaf_recursive` on the last child. -/
def updateLastChild (f : T → T) : List (SumTree T S) → Result (List (SumTree T S))
  | [] => .error .unwrap
  | [t] => do return [← updateLastLeafRecursive f t]
  | t :: u :: ts => do return t :: (← updateLastChild f (u :: ts))
end

/-- `SumTree::update_last`; on an empty tree it only logs a warning. -/
def updateLast (self : SumTree T S) (f : T → T) : Result (SumTree T S) :=
  if self.isEmpty then .ok self else updateLastLeafRecursive f self

end SumTree

end Clinch
