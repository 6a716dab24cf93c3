import Clinch.HashMap
import Clinch.Rust

/-!
# Grouping the selected tabs of a workspace

`app/src/workspace/view/tab_grouping.rs`: the multi-tab menu makes a new group of the selected tabs,
moves them to a group, or takes them out of theirs. A tab is known by its pane group.

* `TabData`, `TabGroup`, `Workspace`, `FeatureFlags`;
* `selectedTabIndices`, `selectionSharedGroup`, `restoreActiveTabIndex`, `pruneEmptyTabGroup`;
* `isTabEffectivelyPinned`, `pinnedBoundaryIndex`, `clampToUnpinnedRegion`;
* `newTabGroupFromSelectedTabs`, `moveSelectedTabsToGroup`, `removeSelectedTabsFromGroup`.
-/

set_option autoImplicit false

namespace Clinch

/-! ## What the functions take from `Vec` -/

section Vec

variable {α : Type}

/-- `Iterator::rposition`. -/
def rposition (p : α → Bool) : List α → Option ℕ
  | [] => none
  | x :: l =>
    match rposition p l with
    | some last => some (last + 1)
    | none => if p x then some 0 else none

/-- `l.splice(at..at, xs)`. -/
def splice (l : List α) (insertAt : ℕ) (xs : List α) : Result (List α) :=
  if insertAt ≤ l.length then .ok (l.take insertAt ++ xs ++ l.drop insertAt) else .error .bounds

/-- `for &index in indices { f(&mut l[index]) }`. -/
def modifyEach (f : α → α) (l : List α) (indices : List ℕ) : Result (List α) :=
  indices.foldlM
    (fun l i => if i < l.length then .ok (l.modify i f) else .error .bounds) l

end Vec

/-! ## The workspace -/

/-- `TabData`, as far as grouping reads it; `paneGroup` is the id of its pane group. -/
structure TabData (P G : Type) where
  paneGroup : P
  groupId : Option G
  inMultiSelection : Bool
  pinned : Bool
deriving DecidableEq

/-- `TabGroup`, as far as grouping reads it. -/
structure TabGroup where
  collapsed : Bool
  pinned : Bool
deriving DecidableEq

/-- `TabGroup::new`. -/
def TabGroup.new : TabGroup := { collapsed := false, pinned := false }

structure Workspace (P G : Type) where
  tabs : List (TabData P G)
  tabGroups : HashMap G TabGroup
  activeTabIndex : ℕ

/-- `FeatureFlag::GroupedTabs` and `FeatureFlag::PinnedTabs`. -/
structure FeatureFlags where
  groupedTabs : Bool
  pinnedTabs : Bool

namespace Workspace

variable {P G : Type} [DecidableEq P] [DecidableEq G]

/-- `clear_tab_multi_selection`. -/
def clearTabMultiSelection (ws : Workspace P G) : Workspace P G :=
  { ws with tabs := ws.tabs.map fun tab => { tab with inMultiSelection := false } }

/-- `selected_tab_indices`. -/
def selectedTabIndices (ws : Workspace P G) : List ℕ :=
  let anyFlagged := ws.tabs.any fun tab => tab.inMultiSelection
  if !anyFlagged then []
  else
    (ws.tabs.zipIdx.filter fun (tab, index) =>
      tab.inMultiSelection || index = ws.activeTabIndex).map Prod.snd

/-- `selection_shared_group`. -/
def selectionSharedGroup (ws : Workspace P G) : Option G :=
  match (ws.selectedTabIndices.filterMap fun index => ws.tabs[index]?).map fun tab => tab.groupId with
  | some first :: groupIds => if groupIds.all (· = some first) then some first else none
  | _ => none

/-- The pane group of the active tab. -/
def activePaneGroup (ws : Workspace P G) : Option P :=
  ws.tabs[ws.activeTabIndex]?.map fun tab => tab.paneGroup

/-- `restore_active_tab_index`. -/
def restoreActiveTabIndex (ws : Workspace P G) (paneGroupId : Option P) : Workspace P G :=
  match paneGroupId with
  | none => ws
  | some activeId =>
    match ws.tabs.findIdx? fun tab => tab.paneGroup = activeId with
    | some newIndex => { ws with activeTabIndex := newIndex }
    | none => ws

/-- `prune_empty_tab_group`. -/
def pruneEmptyTabGroup (ws : Workspace P G) (groupId : G) : Workspace P G :=
  let hasMembers := ws.tabs.any fun tab => tab.groupId = some groupId
  if !hasMembers then { ws with tabGroups := ws.tabGroups.remove groupId } else ws

/-- `expand_tab_group`. -/
def expandTabGroup (ws : Workspace P G) (groupId : G) : Workspace P G :=
  { ws with tabGroups := ws.tabGroups.modify groupId fun g => { g with collapsed := false } }

/-- `is_tab_effectively_pinned`. -/
def isTabEffectivelyPinned (flags : FeatureFlags) (tabGroups : HashMap G TabGroup)
    (tab : TabData P G) : Bool :=
  if !flags.pinnedTabs then false
  else
    tab.pinned || tab.groupId.any fun gid => (tabGroups.get gid).any fun g => g.pinned

/-- `pinned_boundary_index`. -/
def pinnedBoundaryIndex (flags : FeatureFlags) (tabGroups : HashMap G TabGroup)
    (tabs : List (TabData P G)) : ℕ :=
  (tabs.takeWhile (isTabEffectivelyPinned flags tabGroups)).length

/-- `clamp_to_unpinned_region`. -/
def clampToUnpinnedRegion (flags : FeatureFlags) (tabGroups : HashMap G TabGroup)
    (tabs : List (TabData P G)) (idx : ℕ) : ℕ :=
  max idx (pinnedBoundaryIndex flags tabGroups tabs)

/-- The groups of the selected tabs; the source collects them in a set. -/
def previousGroupIds (ws : Workspace P G) (selectedIndices : List ℕ) : Result (List G) := do
  let selected ← selectedIndices.mapM (index ws.tabs)
  return (selected.filterMap fun tab => tab.groupId).dedup

/-- `new_tab_group_from_selected_tabs`; `groupId` is the id of `TabGroup::new`. -/
def newTabGroupFromSelectedTabs (flags : FeatureFlags) (groupId : G) (ws : Workspace P G) :
    Result (Workspace P G) :=
  if !flags.groupedTabs then .ok ws
  else
    let selectedIndices := ws.selectedTabIndices
    if selectedIndices.length < 2 then .ok ws
    else do
      let previousGroupIds ← ws.previousGroupIds selectedIndices
      let tabGroups := ws.tabGroups.insert groupId .new
      let activePaneGroupId := ws.activePaneGroup
      let anchorIndex ← index selectedIndices 0
      let anchorPreviousGroupId := (← index ws.tabs anchorIndex).groupId
      let tabs ← modifyEach (fun tab =>
        { tab with groupId := some groupId, pinned := false, inMultiSelection := false })
        ws.tabs selectedIndices
      let (selectedTabs, otherTabs) := tabs.partition fun tab => tab.groupId = some groupId
      let insertAt := (anchorPreviousGroupId.bind fun prevGroupId =>
        (rposition (fun tab => tab.groupId = some prevGroupId) otherTabs).map (· + 1)).getD
          anchorIndex
      let insertAt := clampToUnpinnedRegion flags tabGroups otherTabs insertAt
      let tabs ← splice otherTabs insertAt selectedTabs
      let ws := ({ ws with tabs, tabGroups }).restoreActiveTabIndex activePaneGroupId
      return previousGroupIds.foldl pruneEmptyTabGroup ws

/-- `move_selected_tabs_to_group`. -/
def moveSelectedTabsToGroup (flags : FeatureFlags) (groupId : G) (ws : Workspace P G) :
    Result (Workspace P G) :=
  if !flags.groupedTabs || !(ws.tabGroups.get groupId).isSome then .ok ws
  else
    let selectedIndices := ws.selectedTabIndices
    if selectedIndices.length < 2 then .ok ws
    else do
      let previousGroupIds := (← ws.previousGroupIds selectedIndices).filter fun gid => gid ≠ groupId
      let firstExistingMember := ws.tabs.findIdx? fun tab => tab.groupId = some groupId
      let activePaneGroupId := ws.activePaneGroup
      let tabs ← modifyEach (fun tab =>
        { tab with groupId := some groupId, pinned := false, inMultiSelection := false })
        ws.tabs selectedIndices
      let insertAt ← match firstExistingMember with
        | none => .ok 0
        | some first => checkedSub first (selectedIndices.filter fun i => i < first).length
      let (members, rest) := tabs.partition fun tab => tab.groupId = some groupId
      let tabs ← splice rest insertAt members
      let ws := ({ ws with tabs }).restoreActiveTabIndex activePaneGroupId
      return previousGroupIds.foldl pruneEmptyTabGroup (ws.expandTabGroup groupId)

/-- `remove_selected_tabs_from_group`. -/
def removeSelectedTabsFromGroup (flags : FeatureFlags) (ws : Workspace P G) :
    Result (Workspace P G) :=
  if !flags.groupedTabs then .ok ws
  else
    match ws.selectionSharedGroup with
    | none => .ok ws.clearTabMultiSelection
    | some groupId => do
      let groupFirstIndex := (ws.tabs.findIdx? fun tab => tab.groupId = some groupId).getD 0
      let activePaneGroupId := ws.activePaneGroup
      let selectedIndices := ws.selectedTabIndices
      let tabs ← modifyEach (fun tab => { tab with groupId := none }) ws.tabs selectedIndices
      let keptBeforeGroup ←
        checkedSub groupFirstIndex (selectedIndices.filter fun i => i < groupFirstIndex).length
      let (removed, rest) := tabs.zipIdx.partition fun (_, index) => selectedIndices.contains index
      let removed := removed.map Prod.fst
      let rest := rest.map Prod.fst
      let naturalInsertAt := match rposition (fun tab => tab.groupId = some groupId) rest with
        | some last => last + 1
        | none => keptBeforeGroup
      let insertAt := clampToUnpinnedRegion flags ws.tabGroups rest naturalInsertAt
      let tabs ← splice rest insertAt removed
      let ws := ({ ws with tabs }).clearTabMultiSelection
      let ws := ws.restoreActiveTabIndex activePaneGroupId
      return ws.pruneEmptyTabGroup groupId

end Workspace

end Clinch
