import Clinch.SumTree.Model

/-!
# The cursor of a sum tree

`crates/sum_tree/src/cursor.rs`. A cursor holds the path from the root to a leaf as a stack, each
entry with the index of the child it went into and the two running sums at the start of that child,
and the two running sums at its own position. The stack is an `ArrayVec` of 16 entries, its top is
the head of the list. `debug_assert!` and `cfg!(debug_assertions)` checks are taken as on.

* `Dimension`, `StackEntry`, `Cursor`, `item`, `prevItem`;
* `nextInternal`, `next`, `prev`, `descendToFirstItem`, `descendToLastItem`;
* `seekInternal`, and `seek`, `seekClamped`, `slice`, `suffix`, `summaryTo` over it.
-/

set_option autoImplicit false

namespace Clinch

/-- `Dimension`: what a cursor measures along a tree. -/
class Dimension (D S : Type) where
  default : D
  addSummary : D → S → D

/-- `()` measures nothing. -/
instance {S : Type} : Dimension Unit S := ⟨(), fun _ _ => ()⟩

inductive SeekBias
  | left
  | right
deriving DecidableEq, Repr

/-- Whether a seek past the last item is clamped to it. -/
inductive ClampMax
  | yes
  | no
deriving DecidableEq, Repr

/-- The capacity of a cursor's stack. -/
def stackCapacity : ℕ := 16

structure StackEntry (T S D U : Type) where
  tree : SumTree T S
  index : ℕ
  seekDimension : D
  sumDimension : U

structure Cursor (T S D U : Type) where
  tree : SumTree T S
  stack : List (StackEntry T S D U)
  seekDimension : D
  sumDimension : U
  didSeek : Bool
  atEnd : Bool

/-- What a seek accumulates on its way. -/
inductive SeekAggregate (T S W : Type)
  | none
  | slice (tree : SumTree T S)
  | summary (sum : W)

/-- Step over one child: the sums recorded in the entry grow, and its index. -/
def StackEntry.advance {T S D U : Type} [Dimension D S] [Dimension U S]
    (entry : StackEntry T S D U) (s : S) : StackEntry T S D U :=
  { entry with
    index := entry.index + 1
    seekDimension := Dimension.addSummary entry.seekDimension s
    sumDimension := Dimension.addSummary entry.sumDimension s }

/-- The leaf a slice collects items in: `slice_items_summary`, `slice_items` and
`slice_item_summaries`. -/
abbrev SliceLeaf (T S : Type) := S × List T × List S

namespace SeekAggregate

variable {T S W : Type} [AddMonoid S] [Dimension W S]

/-- What a seek does with a whole child that it passes. -/
def addChild (aggregate : SeekAggregate T S W) (child : SumTree T S)
    (childSummary : S) : Result (SeekAggregate T S W) :=
  match aggregate with
  | .none => .ok .none
  | .slice tree => do return .slice (← tree.pushTree child)
  | .summary sum => .ok (.summary (Dimension.addSummary sum childSummary))

/-- What a seek does with an item that it passes. -/
def addItem (aggregate : SeekAggregate T S W) (leaf : SliceLeaf T S)
    (item : T) (itemSummary : S) : Result (SeekAggregate T S W × SliceLeaf T S) :=
  match aggregate with
  | .none => .ok (.none, leaf)
  | .slice tree => do
    let items ← arrayPush nodeCapacity leaf.2.1 item
    let itemSummaries ← arrayPush nodeCapacity leaf.2.2 itemSummary
    return (.slice tree, leaf.1 + itemSummary, items, itemSummaries)
  | .summary sum => .ok (.summary (Dimension.addSummary sum itemSummary), leaf)

/-- `slice.push_tree(SumTree(Arc::new(Node::Leaf { .. })))`. -/
def pushLeaf (aggregate : SeekAggregate T S W) (leaf : SliceLeaf T S) :
    Result (SeekAggregate T S W) :=
  match aggregate with
  | .slice tree => do return .slice (← tree.pushTree (.leaf leaf.1 leaf.2.1 leaf.2.2))
  | aggregate => .ok aggregate

/-- `if !slice_items.is_empty() { slice.push_tree(..) }`. -/
def pushFilledLeaf (aggregate : SeekAggregate T S W)
    (leaf : SliceLeaf T S) : Result (SeekAggregate T S W) :=
  if leaf.2.1.isEmpty then .ok aggregate else aggregate.pushLeaf leaf

end SeekAggregate

namespace Cursor

variable {T S D U : Type} [Dimension D S] [Dimension U S]

/-- `Cursor::new`. -/
def new (tree : SumTree T S) : Cursor T S D U where
  tree := tree
  stack := []
  seekDimension := Dimension.default S
  sumDimension := Dimension.default S
  didSeek := false
  atEnd := false

/-- `Cursor::reset`. -/
def reset (c : Cursor T S D U) : Cursor T S D U where
  tree := c.tree
  stack := []
  seekDimension := Dimension.default S
  sumDimension := Dimension.default S
  didSeek := false
  atEnd := false

/-- Add a summary to both running sums. -/
def addSummary (c : Cursor T S D U) (s : S) : Cursor T S D U :=
  { c with
    seekDimension := Dimension.addSummary c.seekDimension s
    sumDimension := Dimension.addSummary c.sumDimension s }

/-- `for summary in summaries { .. }`. -/
def addSummaries (c : Cursor T S D U) (ss : List S) : Cursor T S D U := ss.foldl addSummary c

omit [Dimension D S] [Dimension U S] in
/-- `self.stack.push(StackEntry { tree, index, .. })`. -/
def pushEntry (c : Cursor T S D U) (tree : SumTree T S) (index : ℕ) : Result (Cursor T S D U) :=
  if c.stack.length < stackCapacity then
    .ok { c with stack := ⟨tree, index, c.seekDimension, c.sumDimension⟩ :: c.stack }
  else .error .capacity

/-! ## Reading the position -/

omit [Dimension D S] [Dimension U S] in
/-- `Cursor::seek_position`. -/
def seekPosition (c : Cursor T S D U) : D := c.seekDimension

omit [Dimension D S] [Dimension U S] in
/-- `Cursor::start`. -/
def start (c : Cursor T S D U) : U := c.sumDimension

/-- `Cursor::item`. -/
def item (c : Cursor T S D U) : Result (Option T) := do
  debugAssert c.didSeek
  match c.stack with
  | [] => return none
  | entry :: _ =>
    match entry.tree with
    | .internal .. => return none
    | .leaf _ items _ =>
      if entry.index = items.length then return none else return some (← index items entry.index)

/-- `Cursor::item_summary`. -/
def itemSummary (c : Cursor T S D U) : Result (Option S) := do
  debugAssert c.didSeek
  match c.stack with
  | [] => return none
  | entry :: _ =>
    match entry.tree with
    | .internal .. => return none
    | .leaf _ _ itemSummaries =>
      if entry.index = itemSummaries.length then return none
      else return some (← index itemSummaries entry.index)

/-- `Cursor::prev_leaf`, below the top of the stack. -/
def prevLeaf : List (StackEntry T S D U) → Result (Option (SumTree T S))
  | [] => .ok none
  | entry :: stack =>
    if entry.index ≠ 0 then
      match entry.tree with
      | .internal _ _ _ childTrees => do
        return some (← (← index childTrees (entry.index - 1)).rightmostLeaf)
      | .leaf .. => .ok none
    else prevLeaf stack

/-- `Cursor::prev_item`. -/
def prevItem (c : Cursor T S D U) : Result (Option T) := do
  debugAssert c.didSeek
  match c.stack with
  | entry :: stack =>
    if entry.index = 0 then
      match ← prevLeaf stack with
      | none => return none
      | some leaf => return some (← unwrap (← leaf.items).getLast?)
    else
      match entry.tree with
      | .internal .. => return none
      | .leaf _ items _ => return some (← index items (entry.index - 1))
  | [] => if c.atEnd then c.tree.last else return none

/-! ## Moving by one -/

mutual
/-- `Cursor::descend_to_first_item`. -/
def descendToFirstItem (filterNode : S → Bool) :
    SumTree T S → Cursor T S D U → Result (Cursor T S D U)
  | .internal height summary childSummaries childTrees, c =>
    descendToFirstChild filterNode (.internal height summary childSummaries childTrees) 0
      childSummaries childTrees { c with didSeek := true }
  | .leaf summary items itemSummaries, c =>
    let skipped := itemSummaries.takeWhile fun s => !filterNode s
    let c := addSummaries { c with didSeek := true } skipped
    if skipped.length < itemSummaries.length then
      c.pushEntry (.leaf summary items itemSummaries) skipped.length
    else .ok c
/-- The children of a node from `index` on. -/
def descendToFirstChild (filterNode : S → Bool) (subtree : SumTree T S) (index : ℕ) :
    List S → List (SumTree T S) → Cursor T S D U → Result (Cursor T S D U)
  | [], _, c => .ok c
  | s :: childSummaries, childTrees, c =>
    if filterNode s then
      match childTrees with
      | [] => .error .bounds
      | child :: _ => do descendToFirstItem filterNode child (← c.pushEntry subtree index)
    else
      match childTrees with
      | [] => descendToFirstChild filterNode subtree (index + 1) childSummaries [] (c.addSummary s)
      | _ :: childTrees =>
        descendToFirstChild filterNode subtree (index + 1) childSummaries childTrees
          (c.addSummary s)
end

mutual
/-- `Cursor::descend_to_last_item`. -/
def descendToLastItem : SumTree T S → Cursor T S D U → Result (Cursor T S D U)
  | .internal height summary childSummaries childTrees, c => do
    let c := { c with didSeek := true }
    let len ← checkedSub childSummaries.length 1
    let c := c.addSummaries (← sliceRange childSummaries 0 len)
    let index ← checkedSub childTrees.length 1
    let c ← c.pushEntry (.internal height summary childSummaries childTrees) index
    descendToLastChild childTrees c
  | .leaf summary items itemSummaries, c => do
    let c := { c with didSeek := true }
    let lastIndex := itemSummaries.length - 1
    let c := c.addSummaries (← sliceRange itemSummaries 0 lastIndex)
    c.pushEntry (.leaf summary items itemSummaries) lastIndex
/-- `subtree = child_trees.last().unwrap()`. -/
def descendToLastChild : List (SumTree T S) → Cursor T S D U → Result (Cursor T S D U)
  | [], _ => .error .unwrap
  | [t], c => descendToLastItem t c
  | _ :: t :: ts, c => descendToLastChild (t :: ts) c
end

/-- `prev` restarts the running sums from those of the entry below the one it popped. -/
def restoreSums (c : Cursor T S D U) : List (StackEntry T S D U) → Cursor T S D U
  | parent :: stack =>
    { c with
      stack := parent :: stack
      seekDimension := parent.seekDimension
      sumDimension := parent.sumDimension }
  | [] =>
    { c with
      stack := []
      seekDimension := Dimension.default S
      sumDimension := Dimension.default S }

/-- The loop of `Cursor::prev` over the stack. -/
def prevLoop (c : Cursor T S D U) : List (StackEntry T S D U) → Result (Cursor T S D U)
  | [] => .ok { c with stack := [] }
  | entry :: stack =>
    if entry.index > 0 then do
      let newIndex := entry.index - 1
      let c := c.restoreSums stack
      match entry.tree with
      | .internal _ _ childSummaries childTrees =>
        let c := c.addSummaries (← sliceRange childSummaries 0 newIndex)
        let c ← c.pushEntry entry.tree newIndex
        descendToLastItem (← index childTrees newIndex) c
      | .leaf _ _ itemSummaries =>
        let c := c.addSummaries (← sliceRange itemSummaries 0 newIndex)
        c.pushEntry entry.tree newIndex
    else prevLoop c stack

/-- `Cursor::prev`. -/
def prev (c : Cursor T S D U) : Result (Cursor T S D U) := do
  debugAssert c.didSeek
  if c.atEnd then
    let c := { c with seekDimension := Dimension.default S, sumDimension := Dimension.default S }
    let c ← descendToLastItem c.tree c
    return { c with atEnd := false }
  else prevLoop c c.stack

/-- The inner loop of `next_internal` in an internal node, over the summaries from `entry.index`
on. -/
def advanceChild (filterNode : S → Bool) :
    List S → StackEntry T S D U → Cursor T S D U → StackEntry T S D U × Cursor T S D U
  | [], entry, c => (entry, c)
  | [s], entry, c => (entry.advance s, c)
  | s :: next :: rest, entry, c =>
    if filterNode next then (entry.advance s, c)
    else advanceChild filterNode (next :: rest) (entry.advance s) (c.addSummary next)

/-- The inner loop of `next_internal` in a leaf; whether it stopped at an item. -/
def advanceItem (filterNode : S → Bool) :
    List S → StackEntry T S D U → Cursor T S D U →
      Result (StackEntry T S D U × Cursor T S D U × Bool)
  | [], _, _ => .error .bounds
  | [s], entry, c => .ok (entry.advance s, c.addSummary s, false)
  | s :: next :: rest, entry, c =>
    if filterNode next then .ok (entry.advance s, c.addSummary s, true)
    else advanceItem filterNode (next :: rest) (entry.advance s) (c.addSummary s)

/-- The outer loop of `next_internal` over the stack. -/
def nextLoop (filterNode : S → Bool) (c : Cursor T S D U) :
    List (StackEntry T S D U) → Result (Cursor T S D U)
  | [] => .ok { c with stack := [], atEnd := true }
  | entry :: stack =>
    match entry.tree with
    | .internal _ _ childSummaries childTrees => do
      let (entry, c) := advanceChild filterNode (childSummaries.drop entry.index) entry c
      match childTrees[entry.index]? with
      | some subtree =>
        let c ← descendToFirstItem filterNode subtree { c with stack := entry :: stack }
        return { c with atEnd := c.stack.isEmpty }
      | none => nextLoop filterNode c stack
    | .leaf _ _ itemSummaries => do
      match ← advanceItem filterNode (itemSummaries.drop entry.index) entry c with
      | (entry, c, true) => return { c with stack := entry :: stack }
      | (_, c, false) => nextLoop filterNode c stack

/-- `Cursor::next_internal`. -/
def nextInternal (filterNode : S → Bool) (c : Cursor T S D U) : Result (Cursor T S D U) := do
  debugAssert c.didSeek
  match c.stack with
  | [] =>
    let c ← (if c.atEnd then .ok c else descendToFirstItem filterNode c.tree c : Result _)
    return { c with atEnd := c.stack.isEmpty }
  | stack => nextLoop filterNode c stack

/-- `Cursor::next`. -/
def next (c : Cursor T S D U) : Result (Cursor T S D U) := nextInternal (fun _ => true) c

/-! ## Seeking -/

variable [LinearOrder D] {W : Type} [Dimension W S] [AddMonoid S]

omit [Dimension D S] in
/-- `comparison == Greater || (comparison == Equal && bias == SeekBias::Right)`, where the
comparison of the target with the end of a child is clamped for the last child. -/
def targetBeyond (clampMax : ClampMax) (atLastItem : Bool) (target : D) (bias : SeekBias)
    (childEnd : D) : Bool :=
  let target := if atLastItem && clampMax = .yes then min target childEnd else target
  decide (childEnd < target) || (decide (target = childEnd) && decide (bias = .right))

/-- The end of the last child is at least the end of its parent, whatever the rounding. -/
def roundedEnd (atLastItem : Bool) (childEnd maxEnd : D) : D :=
  if atLastItem then max childEnd maxEnd else childEnd

section Reseek

variable (target : D) (bias : SeekBias) (clampMax : ClampMax)

/-- The children after the entry's, of `len` in all: the index reached, and the child that contains
the target. -/
def reseekChildren (len : ℕ) : List (SumTree T S) → List S → ℕ → Cursor T S D U →
    SeekAggregate T S W →
    Result (ℕ × Cursor T S D U × SeekAggregate T S W × Option (SumTree T S))
  | child :: childTrees, s :: childSummaries, index, c, aggregate =>
    if targetBeyond clampMax (index + 1 = len) target bias
        (Dimension.addSummary c.seekDimension s) then do
      reseekChildren len childTrees childSummaries (index + 1) (c.addSummary s)
        (← aggregate.addChild child s)
    else .ok (index, c, aggregate, some child)
  | _, _, index, c, aggregate => .ok (index, c, aggregate, none)

/-- The items from the entry's on, of `len` in all: the index reached, and whether the loop stopped
at an item. -/
def reseekItems (len : ℕ) : List T → List S → ℕ → Cursor T S D U → SeekAggregate T S W →
    SliceLeaf T S →
    Result (ℕ × Cursor T S D U × SeekAggregate T S W × Bool)
  | item :: items, s :: itemSummaries, index, c, aggregate, leaf =>
    if targetBeyond clampMax (index + 1 = len) target bias
        (Dimension.addSummary c.seekDimension s) then do
      let (aggregate, leaf) ← aggregate.addItem leaf item s
      reseekItems len items itemSummaries (index + 1) (c.addSummary s) aggregate leaf
    else do return (index, c, ← aggregate.pushLeaf leaf, true)
  | _, _, index, c, aggregate, leaf => do return (index, c, ← aggregate.pushFilledLeaf leaf, false)

/-- The first loop of `seek_internal`, up the stack of a cursor that has seeked: the subtree that
contains the target, if it is not in the current leaf. -/
def reseekLoop (c : Cursor T S D U) (aggregate : SeekAggregate T S W) :
    List (StackEntry T S D U) →
    Result (Cursor T S D U × SeekAggregate T S W × Option (SumTree T S))
  | [] => .ok ({ c with stack := [] }, aggregate, none)
  | entry :: stack =>
    match entry.tree with
    | .internal _ _ childSummaries childTrees => do
      let index := entry.index + 1
      let trees ← sliceRange childTrees index childTrees.length
      let summaries ← sliceRange childSummaries index childSummaries.length
      match ← reseekChildren target bias clampMax childTrees.length trees summaries index c
          aggregate with
      | (index, c, aggregate, some child) =>
        return ({ c with stack := { entry with index := index } :: stack }, aggregate, some child)
      | (_, c, aggregate, none) => reseekLoop c aggregate stack
    | .leaf _ items itemSummaries => do
      let rest ← sliceRange items entry.index items.length
      let summaries ← sliceRange itemSummaries entry.index itemSummaries.length
      match ← reseekItems target bias clampMax items.length rest summaries entry.index c aggregate
          (0, [], []) with
      | (index, c, aggregate, true) =>
        return ({ c with stack := { entry with index := index } :: stack }, aggregate, none)
      | (_, c, aggregate, false) => reseekLoop c aggregate stack

/-- The items of a leaf that is being descended into; whether the target turned out to be past the
last of them. -/
def seekItems (subtree : SumTree T S) (maxEnd : D) : ℕ → List T → List S → Cursor T S D U →
    SeekAggregate T S W → SliceLeaf T S →
    Result (Cursor T S D U × SeekAggregate T S W × SliceLeaf T S × Bool)
  | index, item :: items, s :: itemSummaries, c, aggregate, leaf => do
    let atLastItem := items.isEmpty
    let itemEnd := roundedEnd atLastItem (Dimension.addSummary c.seekDimension s) maxEnd
    let targetBeyondNode := targetBeyond clampMax atLastItem target bias itemEnd
    if (c.stack.isEmpty || !atLastItem) && targetBeyondNode then
      let (aggregate, leaf) ← aggregate.addItem leaf item s
      seekItems subtree maxEnd (index + 1) items itemSummaries (c.addSummary s) aggregate leaf
    else
      let c := if targetBeyondNode then c.addSummary s else c
      let c ← c.pushEntry subtree index
      return (c, aggregate, leaf, targetBeyondNode)
  | _, _, _, c, aggregate, leaf => .ok (c, aggregate, leaf, false)

mutual
/-- The descent of `seek_internal` into the subtree that contains the target; whether the target
turned out to be past the last item of the subtree, which rounding can cause. -/
def seekDescend : SumTree T S → Cursor T S D U → SeekAggregate T S W →
    Result (Cursor T S D U × SeekAggregate T S W × Bool)
  | .internal height summary childSummaries childTrees, c, aggregate =>
    seekChildren (.internal height summary childSummaries childTrees)
      (Dimension.addSummary c.seekDimension summary) 0 childSummaries childTrees c aggregate
  | .leaf summary items itemSummaries, c, aggregate => do
    let (c, aggregate, leaf, after) ← seekItems target bias clampMax
      (.leaf summary items itemSummaries) (Dimension.addSummary c.seekDimension summary) 0 items
      itemSummaries c aggregate (0, [], [])
    return (c, ← aggregate.pushFilledLeaf leaf, after)
def seekChildren (subtree : SumTree T S) (maxEnd : D) (index : ℕ) : List S → List (SumTree T S) →
    Cursor T S D U → SeekAggregate T S W →
    Result (Cursor T S D U × SeekAggregate T S W × Bool)
  | s :: childSummaries, child :: childTrees, c, aggregate => do
    let atLastItem := childTrees.isEmpty
    let childEnd := roundedEnd atLastItem (Dimension.addSummary c.seekDimension s) maxEnd
    let targetBeyondNode := targetBeyond clampMax atLastItem target bias childEnd
    if (c.stack.isEmpty || !atLastItem) && targetBeyondNode then
      seekChildren subtree maxEnd (index + 1) childSummaries childTrees (c.addSummary s)
        (← aggregate.addChild child s)
    else
      let c ← c.pushEntry subtree index
      let (c, aggregate, after) ← seekDescend child c aggregate
      return (c, aggregate, targetBeyondNode || after)
  | _, _, c, aggregate => .ok (c, aggregate, false)
end

/-- The end of `seek_internal`: whether the cursor is exactly at the target. -/
def seekFinish (c : Cursor T S D U) (aggregate : SeekAggregate T S W) :
    Result (Cursor T S D U × SeekAggregate T S W × Bool) := do
  let c := { c with atEnd := c.stack.isEmpty }
  match bias with
  | .left =>
    match ← c.itemSummary with
    | some s => return (c, aggregate, target = Dimension.addSummary c.seekDimension s)
    | none => return (c, aggregate, target = c.seekDimension)
  | .right => return (c, aggregate, target = c.seekDimension)

/-- `Cursor::seek_internal`. -/
def seekInternal (c : Cursor T S D U) (aggregate : SeekAggregate T S W) :
    Result (Cursor T S D U × SeekAggregate T S W × Bool) := do
  debugAssert (c.seekDimension ≤ target)
  let (c, aggregate, containingSubtree) ←
    (if c.didSeek then reseekLoop target bias clampMax c aggregate c.stack
    else .ok ({ c with didSeek := true }, aggregate, some c.tree) : Result _)
  match containingSubtree with
  | none => seekFinish target bias c aggregate
  | some subtree =>
    let (c, aggregate, itemAfterSubtree) ← seekDescend target bias clampMax subtree c aggregate
    if itemAfterSubtree then
      let c ← c.next
      return (c, aggregate, target = c.seekDimension)
    else seekFinish target bias c aggregate

end Reseek

/-- `Cursor::seek`. -/
def seek (c : Cursor T S D U) (pos : D) (bias : SeekBias) : Result (Cursor T S D U × Bool) := do
  let (c, _, found) ← seekInternal pos bias .no c.reset (.none : SeekAggregate T S Unit)
  return (c, found)

/-- `Cursor::seek_clamped`. -/
def seekClamped (c : Cursor T S D U) (pos : D) (bias : SeekBias) : Result (Cursor T S D U) := do
  return (← seekInternal pos bias .yes c.reset (.none : SeekAggregate T S Unit)).1

/-- `Cursor::slice`. -/
def slice (c : Cursor T S D U) (endPos : D) (bias : SeekBias) :
    Result (Cursor T S D U × SumTree T S) := do
  match ← seekInternal endPos bias .no c (.slice .new : SeekAggregate T S Unit) with
  | (c, .slice tree, _) => return (c, tree)
  | _ => throw .assert

/-- `SumTree::extent`. -/
def extent (tree : SumTree T S) (D : Type) [Dimension D S] : D :=
  Dimension.addSummary (Dimension.default S) tree.summary

/-- `Cursor::suffix`. -/
def suffix (c : Cursor T S D U) : Result (Cursor T S D U × SumTree T S) := do
  match ← seekInternal (extent c.tree D) .right .no c
      (.slice .new : SeekAggregate T S Unit) with
  | (c, .slice tree, _) => return (c, tree)
  | _ => throw .assert

/-- `Cursor::summary`. -/
def summaryTo (c : Cursor T S D U) (W : Type) [Dimension W S] (endPos : D) (bias : SeekBias) :
    Result (Cursor T S D U × W) := do
  match ← seekInternal endPos bias .no c (.summary (Dimension.default S : W)) with
  | (c, .summary sum, _) => return (c, sum)
  | _ => throw .assert

end Cursor

end Clinch
