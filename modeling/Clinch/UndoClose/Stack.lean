import Mathlib

/-!
# The undo-close stack

`undo_close/stack.rs`. Windows, tabs and panes that were closed are kept until they are restored or
discarded. There is a limit for their number and one for the memory of their terminals.

* `ClosedItem`, `State`: the stack with its byte counter and the settings, and what became of the
  items that were closed;
* `Views`: the workspaces and pane groups that own closed items, as far as the stack asks them;
* `removeAndDiscard`, `popItem`, `removeWhile`, `trimToLimits`: the operations on the stack;
* `pushItem`, `undoClose`, `discardPaneGroupParent`, `handleSettingsEvent`: what it is used for;
* `Event`, `State.step`: everything that happens.
-/

set_option autoImplicit false

namespace Clinch

namespace UndoClose

/-- `MAX_RETAINED_CLOSED_ITEMS`. -/
def maxRetainedClosedItems : ℕ := 25

/-- `usize::MAX`. -/
def usizeMax : ℕ := 2 ^ 64 - 1

/-- `usize::saturating_add`. -/
def saturatingAdd (a b : ℕ) : ℕ := min (a + b) usizeMax

/-- `exceeds_retention_limits`. -/
def exceedsRetentionLimits (itemCount retainedTerminalBytes byteBudget : ℕ) : Bool :=
  decide (maxRetainedClosedItems < itemCount) ||
    (decide (0 < byteBudget) && decide (byteBudget < retainedTerminalBytes))

/-- `ClosedItem`: the ids of what was closed and of its owner. -/
inductive ClosedItem
  | window (windowId : ℕ)
  | tab (workspace tabIndex paneGroup : ℕ)
  | pane (paneId paneGroup : ℕ)
  deriving DecidableEq

/-- The item is a tab or a pane of the pane group. -/
def ClosedItem.ofPaneGroup (paneGroup : ℕ) : ClosedItem → Bool
  | .window _ => false
  | .tab _ _ group => group == paneGroup
  | .pane _ group => group == paneGroup

/-- `RetainedClosedItem`. -/
structure RetainedClosedItem where
  item : ClosedItem
  terminalBytes : ℕ
  deriving DecidableEq

/-- `UndoCloseSettings`. -/
structure UndoCloseSettings where
  enabled : Bool
  maximumRetainedTerminalBytes : ℕ

/-- What the stack asks the views: whether the owner of a tab or of a pane still exists, whether the
pane group can show the pane again, and how the views change when an item is restored or
discarded. -/
structure Views (ω : Type) where
  workspaceExists : ω → ℕ → Bool
  paneGroupExists : ω → ℕ → Bool
  restoreClosedPane : ω → ℕ → ℕ → Bool
  afterRestore : ω → ClosedItem → ω
  afterDiscard : ω → ClosedItem → ω

/-- Whether `undo_close` restores an item that it pops. -/
def Views.restores {ω : Type} (views : Views ω) (w : ω) : ClosedItem → Bool
  | .window _ => true
  | .tab workspace _ _ => views.workspaceExists w workspace
  | .pane paneId paneGroup =>
    views.paneGroupExists w paneGroup && views.restoreClosedPane w paneGroup paneId

/-- `UndoCloseStack`, the settings and the views; and all items that were ever closed, restored and
discarded. -/
structure State (ω : Type) where
  stack : List RetainedClosedItem
  retainedTerminalBytes : ℕ
  settings : UndoCloseSettings
  world : ω
  closed : List ClosedItem
  restored : List ClosedItem
  discarded : List ClosedItem

namespace State

variable {ω : Type}

/-- `UndoCloseStack::new`. -/
def new (settings : UndoCloseSettings) (world : ω) : State ω := ⟨[], 0, settings, world, [], [], []⟩

variable (views : Views ω)

/-- `ClosedItem::discard`. -/
def discard (s : State ω) (item : ClosedItem) : State ω :=
  { s with world := views.afterDiscard s.world item, discarded := s.discarded ++ [item] }

/-- An item is restored. -/
def restore (s : State ω) (item : ClosedItem) : State ω :=
  { s with world := views.afterRestore s.world item, restored := s.restored ++ [item] }

/-- `remove_and_discard`, at a position in the stack. -/
def removeAndDiscard (s : State ω) (index : ℕ) : State ω :=
  match s.stack[index]? with
  | some retained =>
    { s with
        stack := s.stack.eraseIdx index
        retainedTerminalBytes := s.retainedTerminalBytes - retained.terminalBytes }.discard
      views retained.item
  | none => s

/-- `pop_item`. -/
def popItem (s : State ω) : Option (ClosedItem × State ω) :=
  match s.stack.getLast? with
  | some retained => some (retained.item,
      { s with
          stack := s.stack.dropLast
          retainedTerminalBytes := s.retainedTerminalBytes - retained.terminalBytes })
  | none => none

/-- The loops that discard the oldest item while the stack is not empty and exceeds its limits: at
most `turns` turns. -/
def removeWhile (exceeds : ℕ → ℕ → Bool) : ℕ → State ω → State ω
  | 0, s => s
  | turns + 1, s =>
    if !s.stack.isEmpty && exceeds s.stack.length s.retainedTerminalBytes then
      removeWhile exceeds turns (s.removeAndDiscard views 0)
    else s

/-- `trim_to_limits`. -/
def trimToLimits (s : State ω) : State ω :=
  removeWhile views
    (fun items bytes =>
      exceedsRetentionLimits items bytes s.settings.maximumRetainedTerminalBytes)
    s.stack.length s

/-- The loop of `push_item`, for one more item of `terminalBytes`. -/
def makeRoom (s : State ω) (terminalBytes : ℕ) : State ω :=
  removeWhile views
    (fun items bytes =>
      exceedsRetentionLimits (items + 1) (saturatingAdd bytes terminalBytes)
        s.settings.maximumRetainedTerminalBytes)
    s.stack.length s

/-- `push_item`, with the estimated memory of the item. -/
def pushItem (s : State ω) (item : ClosedItem) (terminalBytes : ℕ) : State ω :=
  let byteBudget := s.settings.maximumRetainedTerminalBytes
  if !s.settings.enabled then s.discard views item
  else if 0 < byteBudget ∧ byteBudget < terminalBytes then s.discard views item
  else
    let s := s.makeRoom views terminalBytes
    { s with
      retainedTerminalBytes := saturatingAdd s.retainedTerminalBytes terminalBytes
      stack := s.stack ++ [⟨item, terminalBytes⟩] }

/-- The loop of `undo_close`: at most `turns` turns. -/
def undoTurns : ℕ → State ω → State ω
  | 0, s => s
  | turns + 1, s =>
    match s.popItem with
    | none => s
    | some (item, s) =>
      if views.restores s.world item then s.restore views item
      else undoTurns turns (s.discard views item)

/-- `undo_close`. -/
def undoClose (s : State ω) : State ω := undoTurns views s.stack.length s

/-- `discard_pane_group_parent`. -/
def discardPaneGroupParent (s : State ω) (paneGroup : ℕ) : State ω :=
  match s.stack.findIdx? fun retained => retained.item.ofPaneGroup paneGroup with
  | some pos => s.removeAndDiscard views pos
  | none => s

/-- `handle_settings_event` for `UndoCloseEnabled`. -/
def handleUndoCloseEnabled (s : State ω) : State ω :=
  if !s.settings.enabled then
    s.stack.foldl (fun s retained => s.discard views retained.item)
      { s with retainedTerminalBytes := 0, stack := [] }
  else s

end State

/-- What happens: something is closed, the user undoes a close, a pane group is discarded early, a
setting changes, or the views change by themselves. -/
inductive Event (ω : Type)
  | close (item : ClosedItem) (terminalBytes : ℕ)
  | undoClose
  | discardPaneGroupParent (paneGroup : ℕ)
  | setEnabled (enabled : Bool)
  | setGracePeriod
  | setMaximumRetainedTerminalBytes (bytes : ℕ)
  | changeViews (world : ω)

/-- One event. -/
def State.step {ω : Type} (views : Views ω) (s : State ω) : Event ω → State ω
  | .close item terminalBytes =>
    { s with closed := s.closed ++ [item] }.pushItem views item terminalBytes
  | .undoClose => s.undoClose views
  | .discardPaneGroupParent paneGroup => s.discardPaneGroupParent views paneGroup
  | .setEnabled enabled =>
    { s with settings := { s.settings with enabled := enabled } }.handleUndoCloseEnabled views
  | .setGracePeriod => s
  | .setMaximumRetainedTerminalBytes bytes =>
    { s with settings := { s.settings with maximumRetainedTerminalBytes := bytes } }.trimToLimits
      views
  | .changeViews world => { s with world := world }

/-- The state after events. -/
def run {ω : Type} (views : Views ω) (settings : UndoCloseSettings) (world : ω)
    (events : List (Event ω)) : State ω :=
  events.foldl (State.step views) (State.new settings world)

end UndoClose

end Clinch
