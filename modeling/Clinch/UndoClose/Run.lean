import Clinch.Along
import Clinch.UndoClose.Stack

/-!
# What the undo-close stack keeps

Every event keeps the byte counter, the limits and the account of what was closed. Undoing restores
the item that was closed last among those that still can be restored. Discarding a pane group early
removes one item of it only.

* `Kept`: the counter is the sum of the stacked items, and every item was closed as often as it was
  restored or discarded or is stacked; some items may be in the hands of an operation;
* `Limited`: the limits;
* `kept_step`, `limited_step`: every event keeps them;
* `Undone`, `undone_undoClose`: what `undo_close` does;
* `discardPaneGroupParent_iff`: when no item of the pane group is left;
* `meets_iff`: the runs in which every event does what it should.
-/

set_option autoImplicit false

namespace Clinch

namespace UndoClose

variable {ω : Type} (views : Views ω) {s : State ω} {item : ClosedItem} {bytes : ℕ}
  {pending : List ClosedItem}

/-- The bytes of stacked items. -/
def stackedBytes (stack : List RetainedClosedItem) : ℕ :=
  (stack.map RetainedClosedItem.terminalBytes).sum

/-- The stacked items. -/
def stackedItems (stack : List RetainedClosedItem) : List ClosedItem :=
  stack.map RetainedClosedItem.item

/-- The counter is the sum of the stacked items, and every item was closed as often as it was
restored or discarded, or is stacked or pending. -/
structure Kept (pending : List ClosedItem) (s : State ω) : Prop where
  bytes : s.retainedTerminalBytes = stackedBytes s.stack
  accounted : ∀ item, s.restored.count item + s.discarded.count item +
    (stackedItems s.stack).count item + pending.count item = s.closed.count item

/-- The stack is within the limits. -/
structure Limited (s : State ω) : Prop where
  items : s.stack.length ≤ maxRetainedClosedItems
  bytes : 0 < s.settings.maximumRetainedTerminalBytes →
    stackedBytes s.stack ≤ s.settings.maximumRetainedTerminalBytes

theorem exceedsRetentionLimits_eq_false {items budget : ℕ} :
    exceedsRetentionLimits items bytes budget = false ↔
      items ≤ maxRetainedClosedItems ∧ (0 < budget → bytes ≤ budget) := by
  simp [exceedsRetentionLimits]

theorem stackedBytes_append (a b : List RetainedClosedItem) :
    stackedBytes (a ++ b) = stackedBytes a + stackedBytes b := by
  rw [stackedBytes, List.map_append, List.sum_append, stackedBytes, stackedBytes]

theorem stackedBytes_cons (retained : RetainedClosedItem) (stack : List RetainedClosedItem) :
    stackedBytes (retained :: stack) = retained.terminalBytes + stackedBytes stack := List.sum_cons

/-! ## The account -/

namespace Kept

theorem new (settings : UndoCloseSettings) (world : ω) : Kept [] (State.new settings world) :=
  ⟨rfl, fun _ => rfl⟩

/-- An item is closed. -/
theorem close (h : Kept [] s) (item : ClosedItem) :
    Kept [item] { s with closed := s.closed ++ [item] } where
  bytes := h.bytes
  accounted := by
    intro x
    have hx := h.accounted x
    simp only [List.count_append, List.count_nil] at hx ⊢
    omega

theorem discard (h : Kept (item :: pending) s) : Kept pending (s.discard views item) where
  bytes := h.bytes
  accounted := by
    intro x
    have hx := h.accounted x
    simp only [State.discard, List.count_append, List.count_cons, List.count_nil] at hx ⊢
    omega

theorem restore (h : Kept (item :: pending) s) : Kept pending (s.restore views item) where
  bytes := h.bytes
  accounted := by
    intro x
    have hx := h.accounted x
    simp only [State.restore, List.count_append, List.count_cons, List.count_nil] at hx ⊢
    omega

/-- An item is taken out of the stack. -/
theorem take {stack : List RetainedClosedItem} {retained : RetainedClosedItem} (h : Kept pending s)
    (hperm : (retained :: stack).Perm s.stack) :
    Kept (retained.item :: pending)
      { s with
        stack := stack
        retainedTerminalBytes := s.retainedTerminalBytes - retained.terminalBytes } where
  bytes := by
    have hsum : retained.terminalBytes + stackedBytes stack = stackedBytes s.stack := by
      rw [← stackedBytes_cons]
      exact (hperm.map _).sum_eq
    change s.retainedTerminalBytes - retained.terminalBytes = stackedBytes stack
    rw [h.bytes, ← hsum, Nat.add_sub_cancel_left]
  accounted := by
    intro x
    have hx := h.accounted x
    have hcount := (hperm.map RetainedClosedItem.item).count_eq x
    rw [List.map_cons, List.count_cons] at hcount
    simp only [stackedItems, List.count_cons] at hx ⊢
    omega

theorem removeAndDiscard (h : Kept pending s) (index : ℕ) :
    Kept pending (s.removeAndDiscard views index) := by
  rw [State.removeAndDiscard]
  split
  · rename_i retained hget
    obtain ⟨hlt, rfl⟩ := List.getElem?_eq_some_iff.mp hget
    exact (h.take (List.getElem_cons_eraseIdx_perm hlt)).discard views
  · exact h

theorem popItem {s' : State ω} (h : Kept pending s) (hpop : s.popItem = some (item, s')) :
    Kept (item :: pending) s' := by
  rw [State.popItem] at hpop
  split at hpop
  · rename_i retained hlast
    obtain ⟨stack, hstack⟩ := List.getLast?_eq_some_iff.mp hlast
    obtain ⟨rfl, rfl⟩ := Prod.mk.inj (Option.some.inj hpop)
    refine h.take ?_
    rw [hstack, List.dropLast_concat]
    exact (List.perm_append_singleton retained stack).symm
  · exact nomatch hpop

theorem removeWhile (h : Kept pending s) (exceeds : ℕ → ℕ → Bool) (turns : ℕ) :
    Kept pending (s.removeWhile views exceeds turns) := by
  induction turns generalizing s with
  | zero => exact h
  | succ turns ih =>
    rw [State.removeWhile]
    split
    · exact ih (h.removeAndDiscard views 0)
    · exact h

theorem undoTurns (h : Kept pending s) (turns : ℕ) : Kept pending (s.undoTurns views turns) := by
  induction turns generalizing s with
  | zero => exact h
  | succ turns ih =>
    rw [State.undoTurns]
    split
    · exact h
    · rename_i item s' hpop
      split
      · exact (h.popItem hpop).restore views
      · exact ih ((h.popItem hpop).discard views)

theorem discardPaneGroupParent (h : Kept pending s) (paneGroup : ℕ) :
    Kept pending (s.discardPaneGroupParent views paneGroup) := by
  rw [State.discardPaneGroupParent]
  split
  · exact h.removeAndDiscard views _
  · exact h

/-- All items are taken out of the stack. -/
theorem drain (h : Kept pending s) :
    Kept (stackedItems s.stack ++ pending) { s with retainedTerminalBytes := 0, stack := [] } where
  bytes := rfl
  accounted := by
    intro x
    have hx := h.accounted x
    simp only [stackedItems, List.map_nil, List.count_append, List.count_nil] at hx ⊢
    omega

theorem discards {stack : List RetainedClosedItem} (h : Kept (stackedItems stack ++ pending) s) :
    Kept pending (stack.foldl (fun s retained => s.discard views retained.item) s) := by
  induction stack generalizing s with
  | nil => exact h
  | cons retained stack ih =>
    have hfirst : Kept (retained.item :: (stackedItems stack ++ pending)) s := h
    exact ih (hfirst.discard views)

/-- An item is pushed whose bytes do not overflow the counter. -/
theorem push (h : Kept (item :: pending) s) (hfits : stackedBytes s.stack + bytes ≤ usizeMax) :
    Kept pending
      { s with
        retainedTerminalBytes := saturatingAdd s.retainedTerminalBytes bytes
        stack := s.stack ++ [⟨item, bytes⟩] } where
  bytes := by
    change saturatingAdd s.retainedTerminalBytes bytes = stackedBytes (s.stack ++ [⟨item, bytes⟩])
    rw [stackedBytes_append, h.bytes, saturatingAdd, Nat.min_eq_left hfits]
    rfl
  accounted := by
    intro x
    have hx := h.accounted x
    simp only [stackedItems, List.map_append, List.map_cons, List.map_nil, List.count_append,
      List.count_cons, List.count_nil] at hx ⊢
    omega

end Kept

/-! ## The loop -/

theorem removeAndDiscard_zero {retained : RetainedClosedItem} {stack : List RetainedClosedItem}
    (h : s.stack = retained :: stack) :
    (s.removeAndDiscard views 0).stack = stack ∧
      (s.removeAndDiscard views 0).settings = s.settings := by
  rw [State.removeAndDiscard, h]
  exact ⟨rfl, rfl⟩

/-- The loop leaves the newest items, and ends when the stack is empty or does not exceed the
limits. -/
theorem removeWhile_spec (exceeds : ℕ → ℕ → Bool) {turns : ℕ} (hturns : s.stack.length ≤ turns) :
    (s.removeWhile views exceeds turns).settings = s.settings ∧
      (s.removeWhile views exceeds turns).stack <:+ s.stack ∧
      ((s.removeWhile views exceeds turns).stack = [] ∨
        exceeds (s.removeWhile views exceeds turns).stack.length
          (s.removeWhile views exceeds turns).retainedTerminalBytes = false) := by
  induction turns generalizing s with
  | zero => exact ⟨rfl, List.suffix_rfl, Or.inl (List.eq_nil_of_length_eq_zero (Nat.le_zero.mp hturns))⟩
  | succ turns ih =>
    rw [State.removeWhile]
    cases hstack : s.stack with
    | nil =>
      rw [if_neg (by simp)]
      exact ⟨rfl, hstack ▸ List.suffix_rfl, Or.inl hstack⟩
    | cons retained stack =>
      have hne : s.stack.isEmpty = false := by
        rw [hstack]
        rfl
      rw [← hstack]
      by_cases hexceeds : exceeds s.stack.length s.retainedTerminalBytes = true
      · obtain ⟨hnext, hsettings⟩ := removeAndDiscard_zero views hstack
        have hlen : (s.removeAndDiscard views 0).stack.length ≤ turns := by
          rw [hstack, List.length_cons] at hturns
          rw [hnext]
          omega
        obtain ⟨hset, hsuffix, hend⟩ := ih hlen
        rw [if_pos (by rw [hne, hexceeds]; rfl)]
        refine ⟨hset.trans hsettings, hsuffix.trans ?_, hend⟩
        rw [hnext, hstack]
        exact List.suffix_cons retained stack
      · rw [if_neg (by simp [hexceeds])]
        exact ⟨rfl, List.suffix_rfl, Or.inr (by simpa using hexceeds)⟩

theorem stackedBytes_le_of_suffix {a b : List RetainedClosedItem} (h : a <:+ b) :
    stackedBytes a ≤ stackedBytes b := by
  obtain ⟨front, rfl⟩ := h
  rw [stackedBytes_append]
  exact Nat.le_add_left _ _

/-! ## The limits -/

theorem Limited.of_sublist {s' : State ω} (h : Limited s) (hstack : s'.stack.Sublist s.stack)
    (hsettings : s'.settings = s.settings) : Limited s' where
  items := hstack.length_le.trans h.items
  bytes := by
    intro hpos
    rw [hsettings] at hpos ⊢
    exact (hstack.map _).sum_le_sum (fun _ _ => Nat.zero_le _) |>.trans (h.bytes hpos)

theorem limited_nil (h : s.stack = []) : Limited s where
  items := by
    rw [h]
    exact Nat.zero_le _
  bytes := by
    intro _
    rw [h]
    exact Nat.zero_le _

theorem kept_trimToLimits (h : Kept pending s) : Kept pending (s.trimToLimits views) :=
  h.removeWhile views _ _

theorem limited_trimToLimits (h : Kept pending s) : Limited (s.trimToLimits views) := by
  have hkept := kept_trimToLimits views h
  obtain ⟨hsettings, -, hend⟩ := removeWhile_spec views (fun items bytes =>
    exceedsRetentionLimits items bytes s.settings.maximumRetainedTerminalBytes)
    (le_refl s.stack.length)
  rcases hend with hnil | hfine
  · exact limited_nil hnil
  · obtain ⟨hitems, hbytes⟩ := exceedsRetentionLimits_eq_false.mp hfine
    have hsame : (s.trimToLimits views).settings = s.settings := hsettings
    refine ⟨hitems, fun hpos => ?_⟩
    rw [← hkept.bytes]
    rw [hsame] at hpos ⊢
    exact hbytes hpos

/-- After the loop there is room for the item, or the stack is empty. -/
theorem makeRoom_spec (h : Kept pending s) (bytes : ℕ) :
    (s.makeRoom views bytes).settings = s.settings ∧ (s.makeRoom views bytes).stack <:+ s.stack ∧
      ((s.makeRoom views bytes).stack = [] ∨
        (s.makeRoom views bytes).stack.length + 1 ≤ maxRetainedClosedItems ∧
          (0 < s.settings.maximumRetainedTerminalBytes →
            saturatingAdd (stackedBytes (s.makeRoom views bytes).stack) bytes ≤
              s.settings.maximumRetainedTerminalBytes)) := by
  have hkept : Kept pending (s.makeRoom views bytes) := h.removeWhile views _ _
  obtain ⟨hsettings, hsuffix, hend⟩ := removeWhile_spec views (fun items bytes' =>
    exceedsRetentionLimits (items + 1) (saturatingAdd bytes' bytes)
      s.settings.maximumRetainedTerminalBytes) (le_refl s.stack.length)
  refine ⟨hsettings, hsuffix, hend.imp_right fun hfine => ?_⟩
  rw [← hkept.bytes]
  exact exceedsRetentionLimits_eq_false.mp hfine

theorem kept_pushItem (h : Kept (item :: pending) s)
    (hfits : stackedBytes s.stack + bytes ≤ usizeMax) :
    Kept pending (s.pushItem views item bytes) := by
  obtain ⟨-, hsuffix, -⟩ := makeRoom_spec views h bytes
  have hle := stackedBytes_le_of_suffix hsuffix
  have hroom : Kept (item :: pending) (s.makeRoom views bytes) := h.removeWhile views _ _
  rw [State.pushItem]
  split_ifs
  · exact h.discard views
  · exact h.discard views
  · exact hroom.push (by omega)

theorem limited_pushItem (h : Kept (item :: pending) s) (hlimited : Limited s)
    (hfits : stackedBytes s.stack + bytes ≤ usizeMax) :
    Limited (s.pushItem views item bytes) := by
  obtain ⟨hsettings, hsuffix, hend⟩ := makeRoom_spec views h bytes
  have hle := stackedBytes_le_of_suffix hsuffix
  rw [State.pushItem]
  split_ifs with _ hbudget
  · exact ⟨hlimited.items, hlimited.bytes⟩
  · exact ⟨hlimited.items, hlimited.bytes⟩
  · generalize s.makeRoom views bytes = s' at hsettings hend hle ⊢
    have hbytes : stackedBytes (s'.stack ++ [⟨item, bytes⟩]) = stackedBytes s'.stack + bytes :=
      stackedBytes_append _ _
    constructor
    · rw [List.length_append, List.length_singleton]
      rcases hend with hnil | ⟨hitems, -⟩
      · rw [hnil]
        decide
      · exact hitems
    · intro hpos
      simp only [hsettings] at hpos ⊢
      rw [hbytes]
      rcases hend with hnil | ⟨-, hsum⟩
      · have hzero : stackedBytes s'.stack = 0 := by
          rw [hnil]
          rfl
        omega
      · have hsum' := hsum hpos
        rwa [saturatingAdd, Nat.min_eq_left (by omega)] at hsum'

theorem kept_handleUndoCloseEnabled (h : Kept pending s) :
    Kept pending (s.handleUndoCloseEnabled views) := by
  rw [State.handleUndoCloseEnabled]
  split
  · exact Kept.discards views h.drain
  · exact h

theorem discards_stack (stack : List RetainedClosedItem) (s : State ω) :
    (stack.foldl (fun s retained => s.discard views retained.item) s).stack = s.stack := by
  induction stack generalizing s with
  | nil => rfl
  | cons retained stack ih => exact ih _

theorem limited_handleUndoCloseEnabled (hlimited : Limited s) :
    Limited (s.handleUndoCloseEnabled views) := by
  rw [State.handleUndoCloseEnabled]
  split
  · exact limited_nil (discards_stack views s.stack _)
  · exact hlimited

theorem removeAndDiscard_sublist (s : State ω) (index : ℕ) :
    (s.removeAndDiscard views index).stack.Sublist s.stack ∧
      (s.removeAndDiscard views index).settings = s.settings := by
  rw [State.removeAndDiscard]
  split
  · exact ⟨List.eraseIdx_sublist _ _, rfl⟩
  · exact ⟨List.Sublist.refl _, rfl⟩

theorem discardPaneGroupParent_sublist (s : State ω) (paneGroup : ℕ) :
    (s.discardPaneGroupParent views paneGroup).stack.Sublist s.stack ∧
      (s.discardPaneGroupParent views paneGroup).settings = s.settings := by
  rw [State.discardPaneGroupParent]
  split
  · exact removeAndDiscard_sublist views s _
  · exact ⟨List.Sublist.refl _, rfl⟩

theorem popItem_sublist {s' : State ω} (h : s.popItem = some (item, s')) :
    s'.stack.Sublist s.stack ∧ s'.settings = s.settings := by
  rw [State.popItem] at h
  split at h
  · obtain ⟨-, rfl⟩ := Prod.mk.inj (Option.some.inj h)
    exact ⟨List.dropLast_sublist _, rfl⟩
  · exact nomatch h

theorem undoTurns_sublist (s : State ω) (turns : ℕ) :
    (s.undoTurns views turns).stack.Sublist s.stack ∧
      (s.undoTurns views turns).settings = s.settings := by
  induction turns generalizing s with
  | zero => exact ⟨List.Sublist.refl _, rfl⟩
  | succ turns ih =>
    rw [State.undoTurns]
    split
    · exact ⟨List.Sublist.refl _, rfl⟩
    · rename_i item s' hpop
      obtain ⟨hstack, hsettings⟩ := popItem_sublist hpop
      split
      · exact ⟨hstack, hsettings⟩
      · obtain ⟨hstack', hsettings'⟩ := ih (s'.discard views item)
        exact ⟨hstack'.trans hstack, hsettings'.trans hsettings⟩

/-! ## Events -/

/-- The bytes of a closed item fit the counter, with those of the stack. -/
def Fits (s : State ω) : Event ω → Prop
  | .close _ terminalBytes => stackedBytes s.stack + terminalBytes ≤ usizeMax
  | _ => True

theorem kept_step (h : Kept [] s) {event : Event ω} (hfits : Fits s event) :
    Kept [] (s.step views event) := by
  cases event with
  | close item terminalBytes => exact kept_pushItem views (h.close item) hfits
  | undoClose => exact h.undoTurns views _
  | discardPaneGroupParent paneGroup => exact h.discardPaneGroupParent views paneGroup
  | setEnabled enabled => exact kept_handleUndoCloseEnabled views ⟨h.bytes, h.accounted⟩
  | setGracePeriod => exact h
  | setMaximumRetainedTerminalBytes bytes => exact kept_trimToLimits views ⟨h.bytes, h.accounted⟩
  | changeViews world => exact ⟨h.bytes, h.accounted⟩

theorem limited_step (h : Kept [] s) (hlimited : Limited s) {event : Event ω}
    (hfits : Fits s event) : Limited (s.step views event) := by
  cases event with
  | close item terminalBytes =>
    exact limited_pushItem views (h.close item) ⟨hlimited.items, hlimited.bytes⟩ hfits
  | undoClose =>
    obtain ⟨hstack, hsettings⟩ := undoTurns_sublist views s s.stack.length
    exact hlimited.of_sublist hstack hsettings
  | discardPaneGroupParent paneGroup =>
    obtain ⟨hstack, hsettings⟩ := discardPaneGroupParent_sublist views s paneGroup
    exact hlimited.of_sublist hstack hsettings
  | setEnabled enabled =>
    exact limited_handleUndoCloseEnabled views ⟨hlimited.items, hlimited.bytes⟩
  | setGracePeriod => exact hlimited
  | setMaximumRetainedTerminalBytes bytes => exact limited_trimToLimits views ⟨h.bytes, h.accounted⟩
  | changeViews world => exact ⟨hlimited.items, hlimited.bytes⟩

/-! ## Undoing -/

/-- The views after items were discarded. -/
def afterDiscards (w : ω) (items : List RetainedClosedItem) : ω :=
  items.foldl (fun w retained => views.afterDiscard w retained.item) w

/-- The items cannot be restored when their turn comes. -/
def Stale (w : ω) (items : List RetainedClosedItem) : Prop :=
  Along (afterDiscards views w) (fun w retained => views.restores w retained.item = false) items

/-- The items above the one that is restored are stale, and exactly these are discarded; or all items
are stale. -/
def Undone (s s' : State ω) : Prop :=
  (∃ below retained stale, s.stack = below ++ retained :: stale.reverse ∧
    Stale views s.world stale ∧
    views.restores (afterDiscards views s.world stale) retained.item = true ∧
    s'.stack = below ∧ s'.restored = s.restored ++ [retained.item] ∧
    s'.discarded = s.discarded ++ stackedItems stale) ∨
  (Stale views s.world s.stack.reverse ∧ s'.stack = [] ∧ s'.restored = s.restored ∧
    s'.discarded = s.discarded ++ stackedItems s.stack.reverse)

theorem stale_cons {w : ω} {retained : RetainedClosedItem} {items : List RetainedClosedItem}
    (h : views.restores w retained.item = false)
    (hitems : Stale views (views.afterDiscard w retained.item) items) :
    Stale views w (retained :: items) := along_cons.mpr ⟨h, hitems⟩

/-- A stale item at the top is discarded first. -/
theorem Undone.discard {s' s'' : State ω} {stack : List RetainedClosedItem}
    {retained : RetainedClosedItem} (hstack : s.stack = stack ++ [retained])
    (hstale : views.restores s.world retained.item = false) (hnext : s'.stack = stack)
    (hworld : s'.world = views.afterDiscard s.world retained.item)
    (hrestored : s'.restored = s.restored) (hdiscarded : s'.discarded = s.discarded ++ [retained.item])
    (h : Undone views s' s'') : Undone views s s'' := by
  have happend : ∀ items : List RetainedClosedItem, s'.discarded ++ stackedItems items =
      s.discarded ++ stackedItems (retained :: items) := by
    intro items
    rw [hdiscarded, List.append_assoc]
    rfl
  rcases h with ⟨below, found, stale, hsplit, hall, hfound, hbelow, hrest, hdisc⟩ |
    ⟨hall, hnil, hrest, hdisc⟩
  · refine Or.inl ⟨below, found, retained :: stale, ?_, ?_, ?_, hbelow, ?_, ?_⟩
    · rw [hstack, ← hnext, hsplit, List.reverse_cons, List.append_assoc]
      rfl
    · exact stale_cons views hstale (hworld ▸ hall)
    · rw [hworld] at hfound
      exact hfound
    · rw [hrest, hrestored]
    · rw [hdisc, happend]
  · have hreverse : s.stack.reverse = retained :: s'.stack.reverse := by
      rw [hstack, List.reverse_concat, hnext]
    refine Or.inr ⟨?_, hnil, hrest.trans hrestored, ?_⟩
    · rw [hreverse]
      exact stale_cons views hstale (hworld ▸ hall)
    · rw [hdisc, happend, hreverse]

theorem undone_undoTurns {turns : ℕ} (hturns : s.stack.length = turns) :
    Undone views s (s.undoTurns views turns) := by
  induction turns generalizing s with
  | zero =>
    have hnil := List.eq_nil_of_length_eq_zero hturns
    refine Or.inr ⟨?_, hnil, rfl, ?_⟩
    · rw [hnil]
      exact along_nil
    · rw [hnil]
      exact (List.append_nil _).symm
  | succ turns ih =>
    obtain ⟨stack, retained, hstack⟩ : ∃ stack retained, s.stack = stack ++ [retained] :=
      (List.eq_nil_or_concat' s.stack).resolve_left fun hnil => by simp [hnil] at hturns
    have hpop : s.popItem = some (retained.item,
        { s with
          stack := stack
          retainedTerminalBytes := s.retainedTerminalBytes - retained.terminalBytes }) := by
      rw [State.popItem, hstack, List.getLast?_concat, List.dropLast_concat]
    rw [State.undoTurns, hpop]
    simp only
    split
    · rename_i hrestores
      exact Or.inl ⟨stack, retained, [], hstack, along_nil, hrestores, rfl, rfl,
        (List.append_nil _).symm⟩
    · rename_i hstale
      have hlen : stack.length = turns := by
        rw [hstack, List.length_append] at hturns
        exact Nat.succ.inj hturns
      have hstale' : views.restores s.world retained.item = false := by simpa using hstale
      refine Undone.discard views hstack hstale' ?_ ?_ ?_ ?_ (ih ?_)
      · rfl
      · rfl
      · rfl
      · rfl
      · exact hlen

/-! ## Discarding a pane group -/

/-- The stack holds an item of the pane group. -/
def Holds (s : State ω) (paneGroup : ℕ) : Prop :=
  ∃ retained ∈ s.stack, retained.item.ofPaneGroup paneGroup = true

/-- The number of stacked items of the pane group. -/
def groupItems (s : State ω) (paneGroup : ℕ) : ℕ :=
  s.stack.countP fun retained => retained.item.ofPaneGroup paneGroup

theorem holds_iff (s : State ω) (paneGroup : ℕ) : Holds s paneGroup ↔ 0 < groupItems s paneGroup :=
  List.countP_pos_iff.symm

/-- One item of the pane group is removed, if there is any. -/
theorem groupItems_discardPaneGroupParent (s : State ω) (paneGroup : ℕ) :
    groupItems (s.discardPaneGroupParent views paneGroup) paneGroup =
      groupItems s paneGroup - 1 := by
  rw [State.discardPaneGroupParent]
  split
  · rename_i pos hpos
    obtain ⟨hlt, hgroup, -⟩ := List.findIdx?_eq_some_iff_getElem.mp hpos
    have hstack : (s.removeAndDiscard views pos).stack = s.stack.eraseIdx pos := by
      rw [State.removeAndDiscard, List.getElem?_eq_getElem hlt]
      rfl
    have hcount := (List.getElem_cons_eraseIdx_perm hlt).countP_eq
      fun retained => retained.item.ofPaneGroup paneGroup
    rw [List.countP_cons, if_pos hgroup] at hcount
    rw [groupItems, hstack, groupItems]
    omega
  · rename_i hnone
    have hzero : groupItems s paneGroup = 0 := by
      rw [groupItems, List.countP_eq_zero]
      intro retained hmem
      simpa using List.findIdx?_eq_none_iff.mp hnone retained hmem
    rw [hzero]

/-- No item of the pane group is left if and only if there was at most one. -/
theorem discardPaneGroupParent_iff (s : State ω) (paneGroup : ℕ) :
    ¬ Holds (s.discardPaneGroupParent views paneGroup) paneGroup ↔ groupItems s paneGroup ≤ 1 := by
  rw [holds_iff, groupItems_discardPaneGroupParent]
  omega

/-! ## Runs -/

/-- What an event should do: keep the counter, the account and the limits; undo the last close; and
leave no item of a pane group that is discarded. -/
def Meets (s : State ω) (event : Event ω) : Prop :=
  Kept [] (s.step views event) ∧ Limited (s.step views event) ∧
    match event with
    | .undoClose => Undone views s (s.step views event)
    | .discardPaneGroupParent paneGroup => ¬ Holds (s.step views event) paneGroup
    | _ => True

/-- A pane group that is discarded early has at most one item in the stack. -/
def Single (s : State ω) : Event ω → Prop
  | .discardPaneGroupParent paneGroup => groupItems s paneGroup ≤ 1
  | _ => True

theorem meets_step_iff (h : Kept [] s) (hlimited : Limited s) {event : Event ω}
    (hfits : Fits s event) : Meets views s event ↔ Single s event := by
  have hkept := kept_step views h hfits
  have hlimited' := limited_step views h hlimited hfits
  cases event with
  | undoClose => exact iff_of_true ⟨hkept, hlimited', undone_undoTurns views rfl⟩ trivial
  | discardPaneGroupParent paneGroup =>
    exact ⟨fun hmeets => (discardPaneGroupParent_iff views s paneGroup).mp hmeets.2.2,
      fun hsingle => ⟨hkept, hlimited', (discardPaneGroupParent_iff views s paneGroup).mpr hsingle⟩⟩
  | close item terminalBytes => exact iff_of_true ⟨hkept, hlimited', trivial⟩ trivial
  | setEnabled enabled => exact iff_of_true ⟨hkept, hlimited', trivial⟩ trivial
  | setGracePeriod => exact iff_of_true ⟨hkept, hlimited', trivial⟩ trivial
  | setMaximumRetainedTerminalBytes bytes =>
    exact iff_of_true ⟨hkept, hlimited', trivial⟩ trivial
  | changeViews world => exact iff_of_true ⟨hkept, hlimited', trivial⟩ trivial

variable {settings : UndoCloseSettings} {world : ω} {events : List (Event ω)}

/-- Every state that is reached keeps the counter, the account and the limits. -/
theorem kept_run (hfits : Along (run views settings world) Fits events)
    {done : List (Event ω)} (hdone : done <+: events) :
    Kept [] (run views settings world done) ∧ Limited (run views settings world done) := by
  refine prefix_induction
    (Q := fun done => Kept [] (run views settings world done) ∧
      Limited (run views settings world done))
    ⟨Kept.new settings world, limited_nil rfl⟩ ?_ hdone
  rintro done event hprefix ⟨hkept, hlimited⟩
  have hstep : run views settings world (done ++ [event]) =
      (run views settings world done).step views event := List.foldl_concat ..
  rw [hstep]
  exact ⟨kept_step views hkept (hfits done event hprefix),
    limited_step views hkept hlimited (hfits done event hprefix)⟩

/-- **The runs in which the undo-close stack keeps its bounds and its owners.** When the retained
sizes fit the counter, every event of a run does what it should if and only if every pane group that
was discarded early had at most one item in the stack. -/
theorem meets_iff (settings : UndoCloseSettings) (world : ω) (events : List (Event ω))
    (hfits : Along (run views settings world) Fits events) :
    Along (run views settings world) (Meets views) events ↔
      Along (run views settings world) Single events := by
  have hiff : ∀ done event, done ++ [event] <+: events →
      (Meets views (run views settings world done) event ↔
        Single (run views settings world done) event) := by
    intro done event hprefix
    obtain ⟨hkept, hlimited⟩ := kept_run views hfits ((List.prefix_append _ _).trans hprefix)
    exact meets_step_iff views hkept hlimited (hfits done event hprefix)
  exact forall₃_congr hiff

/-- All owners exist, and nothing changes them. -/
def steadyViews : Views Unit :=
  ⟨fun _ _ => true, fun _ _ => true, fun _ _ _ => true, fun w _ => w, fun w _ => w⟩

/-- A tab and a window are closed and the window is opened again. -/
theorem meets_reopened :
    Along (run steadyViews ⟨true, 100⟩ ()) (Meets steadyViews)
      ([] ++ [.close (.tab 1 0 7) 60] ++ [.close (.window 2) 30] ++ [.undoClose]) := by
  refine (meets_iff steadyViews ⟨true, 100⟩ () _ (((along_nil.concat ?_).concat ?_).concat ?_)).mpr
    (((along_nil.concat trivial).concat trivial).concat trivial)
  · exact Nat.le_of_ble_eq_true rfl
  · exact Nat.le_of_ble_eq_true rfl
  · trivial

/-- Two panes of one pane group are closed, and the group is discarded: a pane of it is left. -/
theorem two_panes_left :
    ¬ ∀ (views : Views Unit) (settings : UndoCloseSettings) (events : List (Event Unit)),
      Along (run views settings ()) Fits events →
      Along (run views settings ()) (Meets views) events := by
  intro hall
  have hfits : Along (run steadyViews ⟨true, 0⟩ ()) Fits
      ([] ++ [.close (.pane 1 7) 10] ++ [.close (.pane 2 7) 10] ++ [.discardPaneGroupParent 7]) := by
    refine ((along_nil.concat ?_).concat ?_).concat ?_
    · exact Nat.le_of_ble_eq_true rfl
    · exact Nat.le_of_ble_eq_true rfl
    · trivial
  have hmeets := hall steadyViews ⟨true, 0⟩ _ hfits _ _ (List.prefix_refl _)
  exact hmeets.2.2 ⟨⟨.pane 2 7, 10⟩, by decide, rfl⟩

end UndoClose

end Clinch
