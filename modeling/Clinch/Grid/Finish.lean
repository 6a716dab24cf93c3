import Clinch.Grid.Screen

/-!
# Finishing a block

`truncate_to_cursor_rows` of `app/src/terminal/model/grid/grid_handler.rs`. When a block is finished, rows
of the flat storage are put back above the screen, as many as there are below the cursor, and what is below
the cursor is dropped.

* `ordered_run`: the rows stay stored from the bottom, as the rows put back have to be;
* `truncateToCursorRows`;
* **`finish_run`**: the rows up to the cursor are kept under those put back, and the cursor is on the last.
-/

set_option autoImplicit false

namespace Clinch

/-! ## The order of the rows -/

namespace Storage

variable {s : Storage} {order : Bool}

/-- If it returns, the rows are stored in this order. -/
abbrev Ordered (order : Bool) (x : Result Storage) : Prop := Safe True (fun s => s.isSequential = order) x

theorem ordered_modify (h : s.isSequential = order) (i : ℕ) (f : Row → Result Row) :
    Ordered order (s.modify i f) :=
  (Safe.any _).bind fun _ _ => (Safe.any _).bind fun _ _ => (Safe.any _).bind fun _ _ => .ok h

theorem ordered_modifyLine (h : s.isSequential = order) (row : ℕ) (f : Row → Result Row) :
    Ordered order (s.modifyLine row f) :=
  (Safe.any _).bind fun _ _ => ordered_modify h _ f

theorem ordered_swap (h : s.isSequential = order) (i j : ℕ) : Ordered order (s.swap i j) :=
  (Safe.any _).bind fun _ _ => (Safe.any _).bind fun _ _ => (Safe.any _).bind fun _ _ =>
    (Safe.any _).bind fun _ _ => .ok h

theorem ordered_swapLines (h : s.isSequential = order) (i j : ℕ) : Ordered order (s.swapLines i j) :=
  (Safe.any _).bind fun _ _ => (Safe.any _).bind fun _ _ => ordered_swap h _ _

theorem ordered_moveBottom (h : s.isSequential = order) (c : ℤ) : Ordered order (s.moveBottom c) := by
  rw [moveBottom]
  refine (Safe.any _).bind fun _ _ => ?_
  split_ifs
  · exact fun _ => trivial
  · exact .ok h

theorem ordered_shrinkLines (h : s.isSequential = order) (n : ℕ) : Ordered order (s.shrinkLines n) := by
  rw [shrinkLines]
  refine (Safe.any _).bind fun _ _ => .ok ?_
  split_ifs <;> exact h

theorem isSequential_initializeRows (s : Storage) (n columns : ℕ) :
    (s.initializeRows n columns).isSequential = s.isSequential := by
  rw [initializeRows]
  split_ifs <;> rfl

end Storage

namespace GridStorage

open Storage

variable {g : GridStorage} {order : Bool}

/-- If it returns, the rows of the grid are stored in this order. -/
abbrev Ordered (order : Bool) (x : Result GridStorage) : Prop :=
  Safe True (fun g => g.raw.isSequential = order) x

theorem ordered_resetRows {raw : Storage} (h : raw.isSequential = order) (template : Cell)
    (start stop : ℕ) : Storage.Ordered order (resetRows raw template start stop) :=
  Safe.foldlM (fun _ _ hraw => ordered_modify hraw _ _) _ h

theorem ordered_resetLines {raw : Storage} (h : raw.isSequential = order) (template : Cell)
    (start stop : ℕ) : Storage.Ordered order (resetLines raw template start stop) :=
  Safe.foldlM (fun _ _ hraw => ordered_modifyLine hraw _ _) _ h

theorem ordered_swapFixed {raw : Storage} (h : raw.isSequential = order) (rows d i : ℕ) :
    Storage.Ordered order (swapFixed rows d raw i) :=
  (Safe.any _).bind fun _ _ => (Safe.any _).bind fun _ _ => ordered_swap h _ _

theorem ordered_increaseScrollLimit (h : g.raw.isSequential = order) (count : ℕ) :
    Ordered order (g.increaseScrollLimit count) := by
  rw [increaseScrollLimit]
  refine (Safe.any _).bind fun _ _ => (Safe.any _).bind fun room _ => .ok ?_
  split_ifs
  · exact (isSequential_initializeRows ..).trans h
  · exact h

theorem ordered_scrollDown (h : g.raw.isSequential = order) (start stop d : ℕ) :
    Ordered order (g.scrollDown start stop d) := by
  rw [GridStorage.scrollDown]
  refine (Safe.any _).bind fun length _ => ?_
  split_ifs
  · exact (ordered_resetLines h _ _ _).bind fun _ hraw => .ok hraw
  · refine (Safe.any _).bind fun fixedLines _ => ?_
    refine (Safe.foldlM (fun _ _ hraw => ordered_swapFixed hraw _ _ _) _ h).bind fun _ hraw => ?_
    refine (ordered_moveBottom hraw _).bind fun _ hraw => ?_
    refine (ordered_resetRows hraw _ _ _).bind fun _ hraw => ?_
    exact (Safe.foldlM (fun _ _ hraw => ordered_swap hraw _ _) _ hraw).bind fun _ hraw => .ok hraw
  · refine (Safe.foldlM (fun _ _ hraw => ordered_swapLines hraw _ _) _ h).bind fun _ hraw => ?_
    exact (ordered_resetLines hraw _ _ _).bind fun _ hraw => .ok hraw

theorem ordered_scrollUp (h : g.raw.isSequential = order) (start stop d : ℕ) :
    Ordered order (g.scrollUp start stop d) := by
  rw [GridStorage.scrollUp]
  refine (Safe.any _).bind fun length _ => ?_
  split_ifs
  · exact (ordered_resetLines h _ _ _).bind fun _ hraw => .ok hraw
  · refine (Safe.any _).bind fun history _ => ?_
    refine (ordered_increaseScrollLimit h d).bind fun g' hg' => ?_
    refine (Safe.foldlM (fun _ _ hraw => ordered_swap hraw _ _) _ hg').bind fun _ hraw => ?_
    refine (ordered_moveBottom hraw _).bind fun _ hraw => ?_
    refine (Safe.any _).bind fun _ _ => (ordered_resetRows hraw _ _ _).bind fun _ hraw => ?_
    refine (Safe.any _).bind fun fixedLines _ => ?_
    refine (Safe.foldlM (fun _ _ hraw => ordered_swapFixed hraw _ _ _) _ hraw).bind fun _ hraw => ?_
    refine (Safe.any _).bind fun _ _ => .ok ?_
    split_ifs <;> exact hraw

theorem ordered_reset (h : g.raw.isSequential = order) : Ordered order g.reset := by
  rw [GridStorage.reset, GridStorage.clearHistory]
  refine Safe.bind (Q := fun g => g.raw.isSequential = order) ?_ fun g' hg' => ?_
  · refine (Safe.any _).bind fun _ _ => ?_
    exact (ordered_shrinkLines h _).bind fun _ hraw => .ok hraw
  · exact (ordered_resetRows hg' _ _ _).bind fun _ hraw => .ok hraw

theorem ordered_modifyCursorCell (h : g.raw.isSequential = order) (f : Cell → Cell) :
    Ordered order (g.modifyCursorCell f) :=
  (Safe.any _).bind fun _ _ => (ordered_modify h _ _).bind fun _ hraw => .ok hraw

end GridStorage

/-! ## Putting rows back -/

namespace Storage

variable {s : Storage} {l rows : List Row} {n : ℕ}

/-- The rows are stored from the bottom. -/
theorem Holds.rezero (h : s.Holds l) (hs : s.isSequential = false) :
    s.rezero = ⟨l.reverse, 0, l.length, l.length, false, s.maxCacheSize⟩ := by
  have hcontent := h.content
  rw [Storage.content, hs, if_neg Bool.false_ne_true] at hcontent
  have hinner : s.inner.rotate s.bottomRow = l.reverse := by rw [← hcontent, List.reverse_reverse]
  rw [Storage.rezero, hinner, h.full.visibleLines, h.full.len, h.length, hs]

/-- The rows put back are above the others. -/
theorem Holds.pushFromScrollback (h : s.Holds l) (hs : s.isSequential = false) (rows : List Row) :
    s.pushFromScrollback rows =
      ⟨(rows ++ l).reverse, 0, l.length, (rows ++ l).length, false, s.maxCacheSize⟩ := by
  have hlen : s.len = l.length := by rw [h.full.len, h.length]
  rw [Storage.pushFromScrollback, h.rezero hs]
  dsimp only
  rw [hs, if_neg Bool.false_ne_true, List.take_of_length_le (by rw [List.length_reverse, hlen]),
    List.reverse_append, List.length_append, hlen, Nat.add_comm]

theorem truncateTo_rezero (s : Storage) (n : ℕ) : s.rezero.truncateTo n = s.truncateTo n := by
  simp only [truncateTo, truncateUnusedRows, Storage.rezero, List.rotate_zero]

/-- The rows at the bottom are dropped. -/
theorem truncateTo_reverse (l : List Row) (visibleLines maxCacheSize : ℕ) (hn : n ≤ l.length) :
    truncateTo ⟨l.reverse, 0, visibleLines, l.length, false, maxCacheSize⟩ n =
      ⟨(l.take n).reverse, 0, if n < l.length then min visibleLines n else visibleLines, n, false,
        maxCacheSize⟩ := by
  rw [truncateTo]
  split_ifs with hlt
  · simp only [truncateUnusedRows, rezero, List.rotate_zero]
    rw [List.reverse_take, List.take_of_length_le (by simp; omega)]
  · obtain rfl : n = l.length := le_antisymm hn (not_lt.mp hlt)
    simp only [truncateUnusedRows, rezero, List.rotate_zero]
    rw [List.take_of_length_le (by simp), List.take_length]

theorem holds_reverse {l : List Row} (hl : 0 < l.length) (maxCacheSize : ℕ) :
    Holds ⟨l.reverse, 0, l.length, l.length, false, maxCacheSize⟩ l := by
  have hlen : l.reverse.length = l.length := List.length_reverse
  refine ⟨⟨hlen.symm, hlen.symm, hlen.symm ▸ hl⟩, ?_⟩
  rw [Storage.content, if_neg Bool.false_ne_true, List.rotate_zero, List.reverse_reverse]

end Storage

namespace GridStorage

/-- The rows of the flat storage are put back. -/
def pushFromScrollback (g : GridStorage) (rows : List Row) : Result GridStorage := do
  if 0 < rows.length then
    debugAssert (decide (g.raw.len = g.rows))
    return { g with raw := g.raw.pushFromScrollback rows }
  else return g

variable {g : GridStorage} {l popped : List Row} {raw : Storage}

/-- The ring with rows put back above it, of which the screen shows the last ones. -/
structure Extended (g : GridStorage) (popped l : List Row) : Prop where
  rezero : g.raw.rezero =
    ⟨(popped ++ l).reverse, 0, l.length, (popped ++ l).length, false, g.raw.maxCacheSize⟩
  rows : g.rows = l.length

theorem Shows.pushFromScrollback (h : g.Shows l) (hseq : g.raw.isSequential = false)
    (popped : List Row) :
    ∃ raw, g.pushFromScrollback popped = .ok { g with raw := raw } ∧
      Extended { g with raw := raw } popped l := by
  rw [GridStorage.pushFromScrollback]
  split_ifs with hpos
  · rw [debugAssert_ok (decide_eq_true (by rw [h.raw.full.len, h.raw.length, h.rows])), ok_bind,
      h.raw.pushFromScrollback hseq]
    refine ⟨_, rfl, ?_, h.rows⟩
    rw [Storage.rezero, List.rotate_zero]
  · obtain rfl : popped = [] := List.eq_nil_of_length_eq_zero (by omega)
    exact ⟨g.raw, rfl, h.raw.rezero hseq, h.rows⟩

theorem Extended.historySize (h : g.Extended popped l) : g.historySize = .ok popped.length := by
  have hlen : g.raw.len = (popped ++ l).length := congrArg Storage.len h.rezero
  rw [GridStorage.historySize, h.rows, hlen, List.length_append, checkedSub_ok (Nat.le_add_left _ _),
    Nat.add_sub_cancel]

/-- The rows up to the cursor are kept. -/
theorem Extended.truncateToCursorRows (h : g.Extended popped l)
    (htarget : popped.length + (g.cursor.point.row + 1) ≤ l.length) :
    ∃ g', g.truncateToCursorRows = .ok g' ∧
      g'.raw.Holds (popped ++ l.take (g.cursor.point.row + 1)) ∧
      g'.rows = popped.length + (g.cursor.point.row + 1) ∧
      g'.cursor.point = ⟨popped.length + g.cursor.point.row, g.cursor.point.col⟩ := by
  have hrows := h.rows
  have hkept : (popped ++ l).take (g.cursor.point.row + popped.length + 1) =
      popped ++ l.take (g.cursor.point.row + 1) := by
    rw [show g.cursor.point.row + popped.length + 1 = popped.length + (g.cursor.point.row + 1) by omega,
      List.take_length_add_append]
  have hlen : (popped ++ l.take (g.cursor.point.row + 1)).length =
      g.cursor.point.row + popped.length + 1 := by
    rw [List.length_append, List.length_take]
    omega
  have hvisible : (if g.cursor.point.row + popped.length + 1 < (popped ++ l).length then
      min l.length (g.cursor.point.row + popped.length + 1) else l.length) =
        g.cursor.point.row + popped.length + 1 := by
    rw [List.length_append]
    split_ifs <;> omega
  have hraw : g.raw.truncateTo (g.cursor.point.row + popped.length + 1) =
      ⟨(popped ++ l.take (g.cursor.point.row + 1)).reverse, 0, g.cursor.point.row + popped.length + 1,
        g.cursor.point.row + popped.length + 1, false, g.raw.maxCacheSize⟩ := by
    rw [← Storage.truncateTo_rezero, h.rezero,
      Storage.truncateTo_reverse _ _ _ (by rw [List.length_append]; omega), hvisible, hkept]
  have hmin : min g.rows (g.cursor.point.row + popped.length + 1) =
      g.cursor.point.row + popped.length + 1 := by
    omega
  have hholds := Storage.holds_reverse (l := popped ++ l.take (g.cursor.point.row + 1))
    (by rw [hlen]; omega) g.raw.maxCacheSize
  rw [hlen] at hholds
  have hcursor : g.rowsToCursor = .ok (g.cursor.point.row + popped.length) := by
    rw [rowsToCursor, h.historySize, ok_bind]
    rfl
  have hcursor' : ∀ raw : Storage, raw.len = g.cursor.point.row + popped.length + 1 →
      rowsToCursor { g with raw := raw, rows := g.cursor.point.row + popped.length + 1 } =
        .ok g.cursor.point.row := by
    intro raw hlen
    rw [rowsToCursor, GridStorage.historySize, hlen, checkedSub_ok le_rfl, ok_bind, Nat.sub_self]
    rfl
  rw [GridStorage.truncateToCursorRows, hcursor, ok_bind]
  refine ⟨{ g with
    cursor := { g.cursor with point := ⟨popped.length + g.cursor.point.row, g.cursor.point.col⟩ }
    raw := _
    rows := g.cursor.point.row + popped.length + 1 }, ?_, hholds, by simp only; omega, rfl⟩
  dsimp only
  rw [hraw, hmin, hcursor' _ rfl, ok_bind, Nat.add_sub_cancel_left,
    Nat.add_comm g.cursor.point.row popped.length]
  rfl

end GridStorage

namespace GridHandler

/-- `truncate_to_cursor_rows`. `popRows` is `pop_rows` of the flat storage. -/
def truncateToCursorRows (h : GridHandler) (popRows : ℕ → List Row) : Result GridHandler := do
  debugAssert (decide ((← h.grid.historySize) = 0))
  let rowsToPush := popRows (h.grid.rows - (h.grid.cursor.point.row + 1))
  let grid ← h.grid.pushFromScrollback rowsToPush
  debugAssert (decide ((← grid.historySize) = rowsToPush.length))
  let grid ← grid.truncateToCursorRows
  debugAssert (decide ((← grid.historySize) = 0))
  return { h with
    grid := grid
    flatStorage := h.flatStorage.take (h.flatStorage.length - rowsToPush.length) }

variable {h : GridHandler} {l : List Row}

/-- Of the rows put back and those of the screen, those up to the cursor are kept. -/
theorem Shows.truncateToCursorRows (hs : h.Shows l) (hseq : h.grid.raw.isSequential = false)
    {popRows : ℕ → List Row} {popped : List Row}
    (hpop : popRows (h.grid.rows - (h.grid.cursor.point.row + 1)) = popped)
    (hlen : popped.length ≤ h.grid.rows - (h.grid.cursor.point.row + 1)) :
    ∃ h', h.truncateToCursorRows popRows = .ok h' ∧
      h'.grid.raw.Holds (popped ++ l.take (h.grid.cursor.point.row + 1)) ∧
      h'.grid.rows = popped.length + (h.grid.cursor.point.row + 1) ∧
      h'.grid.cursor.point = ⟨popped.length + h.grid.cursor.point.row, h.grid.cursor.point.col⟩ ∧
      h'.flatStorage = h.flatStorage.take (h.flatStorage.length - popped.length) := by
  have hrows := hs.grid.rows
  have hrow := hs.cursor.1
  have htarget : popped.length + (h.grid.cursor.point.row + 1) ≤ l.length := by omega
  obtain ⟨raw, hpush, hextended⟩ := hs.grid.pushFromScrollback hseq popped
  obtain ⟨g, htruncate, hholds, hrows', hpoint⟩ := hextended.truncateToCursorRows htarget
  have hhistory : g.historySize = .ok 0 := by
    have hkept : (popped ++ l.take (h.grid.cursor.point.row + 1)).length = g.rows := by
      rw [hrows', List.length_append, List.length_take, min_eq_left (Nat.succ_le_of_lt hrow)]
    have hlen' : g.raw.len = g.rows := by rw [hholds.full.len, hholds.length, ← hkept]
    rw [GridStorage.historySize, hlen', checkedSub_ok le_rfl, Nat.sub_self]
  rw [GridHandler.truncateToCursorRows, hs.grid.historySize, ok_bind,
    debugAssert_ok (decide_eq_true rfl), ok_bind, hpop]
  dsimp only
  rw [hpush, ok_bind, hextended.historySize, ok_bind,
    debugAssert_ok (decide_eq_true rfl), ok_bind, htruncate, ok_bind, hhistory, ok_bind,
    debugAssert_ok (decide_eq_true rfl), ok_bind]
  exact ⟨_, rfl, hholds, hrows', hpoint, rfl⟩

/-! ## Steps and runs -/

/-- If it returns, the rows of the grid are stored in this order. -/
abbrev Ordered (order : Bool) (x : Result GridHandler) : Prop :=
  Safe True (fun h => h.grid.raw.isSequential = order) x

variable {order : Bool}

theorem ordered_scrollUpRelative (horder : h.grid.raw.isSequential = order) (start n : ℕ) :
    Ordered order (h.scrollUpRelative start n) :=
  (Safe.any _).bind fun _ _ => (Safe.any _).bind fun _ _ =>
    (GridStorage.ordered_scrollUp horder _ _ _).bind fun _ hgrid => .ok hgrid

theorem ordered_scrollDownRelative (horder : h.grid.raw.isSequential = order) (start n : ℕ) :
    Ordered order (h.scrollDownRelative start n) :=
  (Safe.any _).bind fun _ _ => (Safe.any _).bind fun _ _ =>
    (GridStorage.ordered_scrollDown horder _ _ _).bind fun _ hgrid => .ok hgrid

theorem ordered_goto (horder : h.grid.raw.isSequential = order) (row col : ℕ) :
    Ordered order (h.goto row col) :=
  (Safe.any _).bind fun _ _ => .ok horder

theorem ordered_step (horder : h.grid.raw.isSequential = order) (a : GridAction) :
    Ordered order (h.step a) := by
  cases a with
  | scrollUp lines => exact ordered_scrollUpRelative horder _ _
  | scrollDown lines => exact ordered_scrollDownRelative horder _ _
  | insertBlankLines lines =>
    rw [step, insertBlankLines]
    split_ifs
    · exact ordered_scrollDownRelative horder _ _
    · exact .ok horder
  | deleteLines lines =>
    rw [step, deleteLines]
    refine (Safe.any _).bind fun _ _ => ?_
    dsimp only
    split_ifs
    · exact ordered_scrollUpRelative horder _ _
    · exact .ok horder
  | linefeed =>
    rw [step, linefeed]
    split_ifs
    · exact ordered_scrollUpRelative horder _ _
    · exact .ok horder
    · exact .ok horder
  | reverseIndex =>
    rw [step, reverseIndex]
    split_ifs
    · exact ordered_scrollDownRelative horder _ _
    · exact .ok horder
  | goto row col =>
    exact (Safe.any _).bind fun _ _ => (Safe.any _).bind fun _ _ => ordered_goto horder _ _
  | setScrollingRegion top bottom =>
    rw [step, setScrollingRegion]
    split_ifs
    · exact .ok horder
    · refine (Safe.any _).bind fun start _ => ordered_goto ?_ 0 0
      exact horder
  | resetState => exact (GridStorage.ordered_reset horder).bind fun _ hgrid => .ok hgrid
  | changeCursorCell f =>
    exact (GridStorage.ordered_modifyCursorCell horder f).bind fun _ hgrid => .ok hgrid
  | carriageReturn | setOrigin _ | setBackground _ | saveCursorPosition | restoreCursorPosition =>
    exact .ok horder

theorem ordered_run (horder : h.grid.raw.isSequential = order) (actions : List GridAction) :
    Ordered order (h.run actions) :=
  Safe.foldlM (fun _ a horder => ordered_step horder a) actions horder

theorem ordered_new (rows columns : ℕ) (isAltScreen : Bool) :
    Ordered order (new rows columns isAltScreen order) := by
  rw [new, GridStorage.new, Storage.withCapacity, Storage.withRows]
  refine Safe.bind (Q := fun g => g.raw.isSequential = order) ?_ fun _ hgrid => .ok hgrid
  refine Safe.bind (Q := fun s => s.isSequential = order) ?_ fun _ hraw => .ok hraw
  exact (Safe.any _).bind fun _ _ => .ok rfl

/-- **A finished block keeps what is above the cursor.** Whatever escape sequences ran, the rows of the
screen up to the cursor are kept under those that are put back from the flat storage, and the cursor is on
the last of them. -/
theorem finish_run {rows columns : ℕ} (hrows : 0 < rows) (hcolumns : 0 < columns) (isAltScreen : Bool)
    (actions : List GridAction) (popRows : ℕ → List Row) (hpop : ∀ n, (popRows n).length ≤ n) :
    ∃ h h', (do
      let h ← new rows columns isAltScreen false
      h.run actions) = .ok h ∧
      h.truncateToCursorRows popRows = .ok h' ∧
      h'.flatStorage = h.flatStorage.take
        (h.flatStorage.length - (popRows (h.grid.rows - (h.grid.cursor.point.row + 1))).length) ∧
      h'.grid.raw.content = popRows (h.grid.rows - (h.grid.cursor.point.row + 1)) ++
        h.grid.raw.content.take (h.grid.cursor.point.row + 1) ∧
      h'.grid.raw.content.length = h'.grid.rows ∧
      h'.grid.cursor.point.row + 1 = h'.grid.rows ∧
      h'.grid.cursor.point.col = h.grid.cursor.point.col := by
  obtain ⟨h, hnew, ⟨l, hs⟩, -⟩ := displays_new hrows hcolumns isAltScreen false
  obtain ⟨h', hrun, ⟨l', hs'⟩, -⟩ := displays_run actions hs
  have horder : h'.grid.raw.isSequential = false :=
    (ordered_run ((ordered_new rows columns isAltScreen).of_eq_ok hnew) actions).of_eq_ok hrun
  obtain ⟨h'', hfinish, hholds, hrows', hpoint, hflat⟩ := hs'.truncateToCursorRows horder rfl (hpop _)
  refine ⟨h', h'', by rw [hnew, ok_bind, hrun], hfinish, hflat, ?_, ?_, ?_, ?_⟩
  · rw [hholds.content, hs'.grid.raw.content]
  · rw [hholds.content, hrows', List.length_append, List.length_take,
      min_eq_left (Nat.succ_le_of_lt hs'.cursor.1)]
  · rw [hpoint, hrows', Nat.add_assoc]
  · rw [hpoint]

theorem finish_run_small : ∃ h h', (do
      let h ← new 3 2 false false
      h.run [.linefeed]) = .ok h ∧
      h.truncateToCursorRows (fun _ => []) = .ok h' ∧
      h'.flatStorage = h.flatStorage.take (h.flatStorage.length - 0) ∧
      h'.grid.raw.content = [] ++ h.grid.raw.content.take (h.grid.cursor.point.row + 1) ∧
      h'.grid.raw.content.length = h'.grid.rows ∧
      h'.grid.cursor.point.row + 1 = h'.grid.rows ∧
      h'.grid.cursor.point.col = h.grid.cursor.point.col :=
  finish_run (by decide) (by decide) false [.linefeed] (fun _ => []) fun n => Nat.zero_le n

end GridHandler

end Clinch
