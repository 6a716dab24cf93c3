import Clinch.Grid.GridStorage

/-!
# Scrolling by escape sequences

`app/src/terminal/model/grid/ansi_handler.rs` and the dispatch of `app/src/terminal/model/ansi/mod.rs`, as
far as they move rows. The rows that leave the main screen are given to the flat storage first.

* `GridHandler`, its handlers;
* `GridAction`, `step`, `run`: what the escape sequences ask for, with the parameters as they come in.
-/

set_option autoImplicit false

namespace Clinch

/-- The part of `GridHandler` and of its `ansi_handler::State` that scrolling reads. Of the flat storage
it has the rows that were pushed. -/
structure GridHandler where
  grid : GridStorage
  flatStorage : List Row
  regionStart : ℕ
  regionEnd : ℕ
  isAltScreen : Bool
  /-- `TermMode::ORIGIN`. -/
  origin : Bool
  deriving DecidableEq

/-- What the escape sequences ask for; a parameter is `none` when it is missing. -/
inductive GridAction
  | scrollUp (lines : Option ℕ)
  | scrollDown (lines : Option ℕ)
  | insertBlankLines (lines : Option ℕ)
  | deleteLines (lines : Option ℕ)
  | linefeed
  | carriageReturn
  | reverseIndex
  | goto (row col : Option ℕ)
  | setScrollingRegion (top bottom : Option ℕ)
  | setOrigin (isSet : Bool)
  | setBackground (color : Color)
  | saveCursorPosition
  | restoreCursorPosition
  | resetState
  /-- A change of the cell under the cursor, as `input` makes it. -/
  | changeCursorCell (f : Cell → Cell)

/-- `next_param_or`. -/
def nextParamOr (default : ℕ) (param : Option ℕ) : ℕ := (param.filter (· ≠ 0)).getD default

theorem nextParamOr_pos {n : ℕ} (h : 0 < n) (param : Option ℕ) : 0 < nextParamOr n param := by
  rw [nextParamOr]
  cases hparam : param.filter (· ≠ 0) with
  | none => exact h
  | some m => simpa [Nat.pos_iff_ne_zero] using (Option.filter_eq_some_iff.mp hparam).2

namespace GridHandler

/-- `new`: the grid has no scrollback of its own. -/
def new (rows columns : ℕ) (isAltScreen isSequential : Bool) : Result GridHandler := do
  let grid ← GridStorage.new rows columns 0 isSequential
  return ⟨grid, [], 0, rows, isAltScreen, false⟩

/-- `update_cursor` and `move_cursor_forward`. -/
def updateCursor (h : GridHandler) (f : GridCursor → GridCursor) : GridHandler :=
  { h with grid := { h.grid with cursor := f h.grid.cursor } }

/-- `goto`. -/
def goto (h : GridHandler) (row col : ℕ) : Result GridHandler := do
  let yOffset := if h.origin then h.regionStart else 0
  let maxY ← checkedSub (if h.origin then h.regionEnd else h.grid.rows) 1
  return h.updateCursor fun cursor =>
    { cursor with point := ⟨min (row + yOffset) maxY, min col (h.grid.columns - 1)⟩ }

/-- The rows that `scroll_region_up` gives to the flat storage. -/
def leavingRows (h : GridHandler) (start stop lines : ℕ) : Result (List Row) :=
  if h.isAltScreen then .ok []
  else (List.range' start (min stop (start + lines) - start)).mapM h.grid.raw.getLine

/-- `scroll_region_up`. -/
def scrollRegionUp (h : GridHandler) (start stop lines : ℕ) : Result GridHandler := do
  let pushed ← h.leavingRows start stop lines
  let grid ← h.grid.scrollUp start stop lines
  return { h with grid := grid, flatStorage := h.flatStorage ++ pushed }

/-- `scroll_up_relative`. -/
def scrollUpRelative (h : GridHandler) (originRow lines : ℕ) : Result GridHandler := do
  let lines := min lines (← checkedSub h.regionEnd h.regionStart)
  h.scrollRegionUp originRow h.regionEnd lines

/-- `scroll_down_relative`. -/
def scrollDownRelative (h : GridHandler) (originRow lines : ℕ) : Result GridHandler := do
  let lines := min lines (← checkedSub h.regionEnd h.regionStart)
  let lines := min lines (← checkedSub h.regionEnd originRow)
  let grid ← h.grid.scrollDown originRow h.regionEnd lines
  return { h with grid := grid }

/-- `scroll_up`. -/
def scrollUp (h : GridHandler) (lines : ℕ) : Result GridHandler :=
  h.scrollUpRelative h.regionStart lines

/-- `scroll_down`. -/
def scrollDown (h : GridHandler) (lines : ℕ) : Result GridHandler :=
  h.scrollDownRelative h.regionStart lines

/-- `insert_blank_lines`. -/
def insertBlankLines (h : GridHandler) (lines : ℕ) : Result GridHandler :=
  let origin := h.grid.cursor.point.row
  if h.regionStart ≤ origin ∧ origin < h.regionEnd then h.scrollDownRelative origin lines else .ok h

/-- `delete_lines`. -/
def deleteLines (h : GridHandler) (lines : ℕ) : Result GridHandler := do
  let origin := h.grid.cursor.point.row
  let lines := min (← checkedSub h.grid.rows origin) lines
  if 0 < lines ∧ h.regionStart ≤ origin ∧ origin < h.regionEnd then h.scrollUpRelative origin lines
  else return h

/-- `linefeed`. -/
def linefeed (h : GridHandler) : Result GridHandler :=
  let next := h.grid.cursor.point.row + 1
  if next = h.regionEnd then h.scrollUp 1
  else if next < h.grid.rows then
    .ok (h.updateCursor fun cursor => { cursor with point := ⟨next, cursor.point.col⟩ })
  else .ok h

/-- `carriage_return`. -/
def carriageReturn (h : GridHandler) : GridHandler :=
  h.updateCursor fun cursor => { cursor with point := ⟨cursor.point.row, 0⟩ }

/-- `reverse_index`. -/
def reverseIndex (h : GridHandler) : Result GridHandler :=
  if h.grid.cursor.point.row = h.regionStart then h.scrollDown 1
  else .ok (h.updateCursor fun cursor => { cursor with point := ⟨cursor.point.row - 1, cursor.point.col⟩ })

/-- `set_scrolling_region`. -/
def setScrollingRegion (h : GridHandler) (top : ℕ) (bottom : Option ℕ) : Result GridHandler := do
  let bottom := bottom.getD h.grid.rows
  if bottom ≤ top then return h
  else
    let start ← checkedSub top 1
    { h with regionStart := min start h.grid.rows, regionEnd := min bottom h.grid.rows }.goto 0 0

/-- `reset_state`. -/
def resetState (h : GridHandler) : Result GridHandler := do
  let grid ← h.grid.reset
  return { h with grid := grid, flatStorage := [], regionStart := 0, regionEnd := grid.rows }

/-- What an escape sequence does. -/
def step (h : GridHandler) : GridAction → Result GridHandler
  | .scrollUp lines => h.scrollUp (nextParamOr 1 lines)
  | .scrollDown lines => h.scrollDown (nextParamOr 1 lines)
  | .insertBlankLines lines => h.insertBlankLines (nextParamOr 1 lines)
  | .deleteLines lines => h.deleteLines (nextParamOr 1 lines)
  | .linefeed => h.linefeed
  | .carriageReturn => .ok h.carriageReturn
  | .reverseIndex => h.reverseIndex
  | .goto row col => do
    let y ← checkedSub (nextParamOr 1 row) 1
    let x ← checkedSub (nextParamOr 1 col) 1
    h.goto y x
  | .setScrollingRegion top bottom => h.setScrollingRegion (nextParamOr 1 top) (bottom.filter (· ≠ 0))
  | .setOrigin isSet => .ok { h with origin := isSet }
  | .setBackground color =>
    .ok (h.updateCursor fun cursor => { cursor with template := { cursor.template with bg := color } })
  | .saveCursorPosition => .ok { h with grid := { h.grid with savedCursor := h.grid.cursor } }
  | .restoreCursorPosition => .ok (h.updateCursor fun _ => h.grid.savedCursor)
  | .resetState => h.resetState
  | .changeCursorCell f => do
    let grid ← h.grid.modifyCursorCell f
    return { h with grid := grid }

/-- What a list of escape sequences does. -/
def run (h : GridHandler) (actions : List GridAction) : Result GridHandler := actions.foldlM step h

end GridHandler

end Clinch
