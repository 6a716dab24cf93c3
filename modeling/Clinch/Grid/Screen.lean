import Clinch.Grid.GridHandler

/-!
# The screen

What the ring, the exchanges and the recycled rows are for: a list of lines, of which a region is shifted.

* `Screen`, `Screen.step`: the lines, and what escape sequences do to them;
* `GridHandler.screen`: the lines that a handler shows;
* **`scroll_run`**: a handler that runs escape sequences never panics, and shows what they do to the
  screen, whichever way the ring is stored.
-/

set_option autoImplicit false

namespace Clinch

open Region

/-- The lines on the screen, the lines that left it at the top, and what moves them. -/
structure Screen where
  lines : List (List Cell)
  history : List (List Cell)
  width : ℕ
  regionStart : ℕ
  regionEnd : ℕ
  cursor : GridCursor
  savedCursor : GridCursor
  isAltScreen : Bool
  origin : Bool

namespace Screen

/-- A blank line of a color. -/
def blank (s : Screen) (bg : Color) : List Cell := List.replicate s.width (Cell.ofColor bg)

def new (rows columns : ℕ) (isAltScreen : Bool) : Screen :=
  ⟨List.replicate rows (List.replicate columns Cell.default), [], columns, 0, rows, .default, .default,
    isAltScreen, false⟩

/-- The lines from `start` to the end of the region go up by `n`, those that leave it into the history. -/
def shiftUp (s : Screen) (start n : ℕ) : Screen :=
  let n := min n (s.regionEnd - start)
  { s with
    lines := Region.scrollUp start s.regionEnd n (s.blank s.cursor.template.bg) s.lines
    history := if s.isAltScreen then s.history else s.history ++ (s.lines.drop start).take n }

/-- The lines from `start` to the end of the region go down by `n`. -/
def shiftDown (s : Screen) (start n : ℕ) : Screen :=
  { s with
    lines := Region.scrollDown start s.regionEnd (min n (s.regionEnd - start))
      (s.blank s.cursor.template.bg) s.lines }

theorem shiftUp_congr {s : Screen} {start n m : ℕ}
    (h : min n (s.regionEnd - start) = min m (s.regionEnd - start)) :
    s.shiftUp start n = s.shiftUp start m := by
  rw [shiftUp, shiftUp, h]

theorem shiftDown_congr {s : Screen} {start n m : ℕ}
    (h : min n (s.regionEnd - start) = min m (s.regionEnd - start)) :
    s.shiftDown start n = s.shiftDown start m := by
  rw [shiftDown, shiftDown, h]

/-- The cursor is moved. -/
def moveTo (s : Screen) (row col : ℕ) : Screen := { s with cursor := { s.cursor with point := ⟨row, col⟩ } }

/-- The cursor is moved to a point that counts from the region in origin mode, as far as it goes. -/
def goto (s : Screen) (row col : ℕ) : Screen :=
  if s.origin then s.moveTo (min (row + s.regionStart) (s.regionEnd - 1)) (min col (s.width - 1))
  else s.moveTo (min row (s.lines.length - 1)) (min col (s.width - 1))

/-- The cursor is on a line of the region. -/
def InRegion (s : Screen) : Prop :=
  s.regionStart ≤ s.cursor.point.row ∧ s.cursor.point.row < s.regionEnd

instance (s : Screen) : Decidable s.InRegion := inferInstanceAs (Decidable (_ ∧ _))

/-- What an escape sequence does. -/
def step (s : Screen) : GridAction → Screen
  | .scrollUp lines => s.shiftUp s.regionStart (nextParamOr 1 lines)
  | .scrollDown lines => s.shiftDown s.regionStart (nextParamOr 1 lines)
  | .insertBlankLines lines =>
    if s.InRegion then s.shiftDown s.cursor.point.row (nextParamOr 1 lines) else s
  | .deleteLines lines =>
    if s.InRegion then s.shiftUp s.cursor.point.row (nextParamOr 1 lines) else s
  | .linefeed =>
    if s.cursor.point.row + 1 = s.regionEnd then s.shiftUp s.regionStart 1
    else if s.cursor.point.row + 1 < s.lines.length then
      s.moveTo (s.cursor.point.row + 1) s.cursor.point.col
    else s
  | .carriageReturn => s.moveTo s.cursor.point.row 0
  | .reverseIndex =>
    if s.cursor.point.row = s.regionStart then s.shiftDown s.regionStart 1
    else s.moveTo (s.cursor.point.row - 1) s.cursor.point.col
  | .goto row col => s.goto (nextParamOr 1 row - 1) (nextParamOr 1 col - 1)
  | .setScrollingRegion top bottom =>
    let top := nextParamOr 1 top
    let bottom := (bottom.filter (· ≠ 0)).getD s.lines.length
    if bottom ≤ top then s
    else
      { s with
        regionStart := min (top - 1) s.lines.length
        regionEnd := min bottom s.lines.length }.goto 0 0
  | .setOrigin isSet => { s with origin := isSet }
  | .setBackground color =>
    { s with cursor := { s.cursor with template := { s.cursor.template with bg := color } } }
  | .saveCursorPosition => { s with savedCursor := s.cursor }
  | .restoreCursorPosition => { s with cursor := s.savedCursor }
  | .resetState => { new s.lines.length s.width s.isAltScreen with origin := s.origin }
  | .changeCursorCell f =>
    { s with lines := s.lines.modify s.cursor.point.row (fun line => line.modify s.cursor.point.col f) }

/-- What a list of escape sequences does. -/
def run (s : Screen) (actions : List GridAction) : Screen := actions.foldl step s

end Screen

namespace GridHandler

/-- The lines that the handler shows. -/
def screen (h : GridHandler) : Screen :=
  ⟨h.grid.raw.content.map Row.inner, h.flatStorage.map Row.inner, h.grid.columns, h.regionStart,
    h.regionEnd, h.grid.cursor, h.grid.savedCursor, h.isAltScreen, h.origin⟩

/-! ## The invariant -/

/-- The cursor is in the grid. -/
def Inside (rows columns : ℕ) (point : VisiblePoint) : Prop := point.row < rows ∧ point.col < columns

/-- The grid shows these rows, and region and cursors are inside. -/
structure Shows (h : GridHandler) (l : List Row) : Prop where
  grid : h.grid.Shows l
  start_le : h.regionStart ≤ h.regionEnd
  end_le : h.regionEnd ≤ l.length
  end_pos : 0 < h.regionEnd
  cursor : Inside l.length h.grid.columns h.grid.cursor.point
  savedCursor : Inside l.length h.grid.columns h.grid.savedCursor.point

/-- The handler is ready, and this is what it shows. -/
def Displays (s : Screen) (h : GridHandler) : Prop := (∃ l, h.Shows l) ∧ h.screen = s

variable {h : GridHandler} {l : List Row} {start n row col : ℕ}

theorem Shows.screen_eq (hs : h.Shows l) : h.screen =
    ⟨l.map Row.inner, h.flatStorage.map Row.inner, h.grid.columns, h.regionStart, h.regionEnd,
      h.grid.cursor, h.grid.savedCursor, h.isAltScreen, h.origin⟩ := by
  rw [screen, hs.grid.raw.content]

theorem Shows.displays (hs : h.Shows l) : Displays h.screen h := ⟨⟨l, hs⟩, rfl⟩

/-- Other rows, as many. -/
theorem Shows.put (hs : h.Shows l) {raw : Storage} {l' : List Row} (hraw : raw.Holds l')
    (hclean : GridStorage.Clean h.grid.columns l') (hlen : l'.length = l.length) (n : ℕ)
    (flatStorage : List Row) :
    Shows { h with grid := { h.grid with raw := raw, numLinesTruncated := n }
                   flatStorage := flatStorage } l' :=
  ⟨hs.grid.put hraw hclean hlen, hs.start_le, hlen ▸ hs.end_le, hs.end_pos, hlen ▸ hs.cursor,
    hlen ▸ hs.savedCursor⟩

theorem Shows.updateCursor (hs : h.Shows l) {f : GridCursor → GridCursor}
    (hf : Inside l.length h.grid.columns (f h.grid.cursor).point) : (h.updateCursor f).Shows l :=
  ⟨⟨hs.grid.raw, hs.grid.clean, hs.grid.columns, hs.grid.rows, hs.grid.limit⟩, hs.start_le, hs.end_le,
    hs.end_pos, hf, hs.savedCursor⟩

theorem clean_scrollUp {columns stop d : ℕ} {bg : Color} (h : GridStorage.Clean columns l) :
    GridStorage.Clean columns (Region.scrollUp start stop d (Row.blank columns bg) l) := by
  intro row hrow
  simp only [Region.scrollUp, List.mem_append] at hrow
  rcases hrow with ((hrow | hrow) | hrow) | hrow
  · exact h row (List.mem_of_mem_take hrow)
  · exact h row (List.mem_of_mem_drop (List.mem_of_mem_take hrow))
  · rw [List.eq_of_mem_replicate hrow]
    exact ⟨Row.tidy_blank columns bg, GridStorage.len_blank columns bg⟩
  · exact h row (List.mem_of_mem_drop hrow)

theorem clean_scrollDown {columns stop d : ℕ} {bg : Color} (h : GridStorage.Clean columns l) :
    GridStorage.Clean columns (Region.scrollDown start stop d (Row.blank columns bg) l) := by
  intro row hrow
  simp only [Region.scrollDown, List.mem_append] at hrow
  rcases hrow with ((hrow | hrow) | hrow) | hrow
  · exact h row (List.mem_of_mem_take hrow)
  · rw [List.eq_of_mem_replicate hrow]
    exact ⟨Row.tidy_blank columns bg, GridStorage.len_blank columns bg⟩
  · exact h row (List.mem_of_mem_drop (List.mem_of_mem_take hrow))
  · exact h row (List.mem_of_mem_drop hrow)

/-! ## Scrolling -/

/-- The rows that leave the screen are those given to the flat storage. -/
theorem mapM_getLine {s : Storage} (hs : s.Holds l) {d : ℕ} (hd : start + d ≤ l.length) :
    (List.range' start d).mapM s.getLine = .ok ((l.drop start).take d) := by
  refine mapM_eq_ok.mpr ?_
  have hlen : ((l.drop start).take d).length = d := by simp; omega
  refine List.forall₂_iff_get.mpr ⟨by rw [List.length_range', hlen], fun i h1 h2 => ?_⟩
  refine hs.getLine ?_
  rw [List.length_range'] at h1
  simp only [List.get_eq_getElem, List.getElem_range', List.getElem_take, List.getElem_drop, one_mul]
  exact List.getElem?_eq_getElem (by omega)

theorem displays_scrollRegionUp (hs : h.Shows l) (hstart : start ≤ h.regionEnd)
    (hn : n ≤ h.regionEnd - start ∨ start ≠ 0) :
    Returns (Displays (h.screen.shiftUp start n)) (h.scrollRegionUp start h.regionEnd n) := by
  have hend := hs.end_le
  obtain ⟨raw, hraw, hgrid⟩ := hs.grid.scrollUp hstart hend hn
  have hshows := hs.put hraw (clean_scrollUp hs.grid.clean) (length_scrollUp hstart hend)
    (h.grid.numLinesTruncated + if h.regionEnd - start ≤ n ∧ start ≠ 0 then 0 else n)
  have hlines : min h.regionEnd (start + n) - start = min n (h.regionEnd - start) := by omega
  have hleaving : h.leavingRows start h.regionEnd n =
      .ok (if h.isAltScreen then [] else (l.drop start).take (min n (h.regionEnd - start))) := by
    rw [leavingRows, hlines]
    split
    · rfl
    · exact mapM_getLine hs.grid.raw (by omega)
  rw [scrollRegionUp, hleaving, ok_bind, hgrid, ok_bind]
  refine .ok ⟨⟨_, hshows _⟩, ?_⟩
  rw [(hshows _).screen_eq, hs.screen_eq]
  simp only [Screen.shiftUp, map_scrollUp, List.map_append]
  congr 1
  split
  · exact List.append_nil _
  · rw [List.map_take, List.map_drop]

theorem displays_scrollDown (hs : h.Shows l) (hstart : start ≤ h.regionEnd) (n : ℕ) :
    Returns (Displays (h.screen.shiftDown start n)) (do
      let grid ← h.grid.scrollDown start h.regionEnd n
      return { h with grid := grid }) := by
  have hend := hs.end_le
  obtain ⟨raw, hraw, hgrid⟩ := hs.grid.scrollDown hstart hend n
  have hshows := hs.put hraw (clean_scrollDown hs.grid.clean) (length_scrollDown hstart hend)
    h.grid.numLinesTruncated h.flatStorage
  rw [hgrid, ok_bind]
  refine .ok ⟨⟨_, hshows⟩, ?_⟩
  rw [hshows.screen_eq, hs.screen_eq]
  simp only [Screen.shiftDown, map_scrollDown]
  rfl

theorem displays_scrollUpRelative (hs : h.Shows l) (hstart : h.regionStart ≤ start)
    (hstart' : start ≤ h.regionEnd) (n : ℕ) :
    Returns (Displays (h.screen.shiftUp start n)) (h.scrollUpRelative start n) := by
  rw [scrollUpRelative, checkedSub_ok hs.start_le, ok_bind]
  have hshift : h.screen.shiftUp start n =
      h.screen.shiftUp start (min n (h.regionEnd - h.regionStart)) :=
    Screen.shiftUp_congr (show min n (h.regionEnd - start) =
      min (min n (h.regionEnd - h.regionStart)) (h.regionEnd - start) by omega)
  rw [hshift]
  exact displays_scrollRegionUp hs hstart' (by omega)

theorem displays_scrollDownRelative (hs : h.Shows l) (hstart : h.regionStart ≤ start)
    (hstart' : start ≤ h.regionEnd) (n : ℕ) :
    Returns (Displays (h.screen.shiftDown start n)) (h.scrollDownRelative start n) := by
  rw [scrollDownRelative, checkedSub_ok hs.start_le, ok_bind, checkedSub_ok hstart', ok_bind]
  have hshift : h.screen.shiftDown start n =
      h.screen.shiftDown start (min (min n (h.regionEnd - h.regionStart)) (h.regionEnd - start)) :=
    Screen.shiftDown_congr (show min n (h.regionEnd - start) =
      min (min (min n (h.regionEnd - h.regionStart)) (h.regionEnd - start)) (h.regionEnd - start) by omega)
  rw [hshift]
  exact displays_scrollDown hs hstart' _

/-! ## Steps and runs -/

theorem displays_moveTo (hs : h.Shows l) (hpoint : Inside l.length h.grid.columns ⟨row, col⟩) :
    Displays (h.screen.moveTo row col)
      (h.updateCursor fun cursor => { cursor with point := ⟨row, col⟩ }) :=
  ⟨⟨l, hs.updateCursor hpoint⟩, rfl⟩

theorem length_lines (hs : h.Shows l) : h.screen.lines.length = l.length := by
  rw [hs.screen_eq, List.length_map]

theorem displays_goto (hs : h.Shows l) (row col : ℕ) :
    Returns (Displays (h.screen.goto row col)) (h.goto row col) := by
  have hrows := hs.grid.rows
  have hcolumns := hs.grid.columns
  have hpos := hs.end_pos
  have hend := hs.end_le
  have hlen := length_lines hs
  rw [goto, Screen.goto]
  by_cases horigin : h.origin = true
  · have hscreen : h.screen.origin = true := horigin
    rw [if_pos horigin, if_pos horigin, if_pos hscreen, checkedSub_ok hpos]
    have hinside : Inside l.length h.grid.columns
        ⟨min (row + h.regionStart) (h.regionEnd - 1), min col (h.grid.columns - 1)⟩ := by
      constructor <;> simp only <;> omega
    exact .ok (displays_moveTo hs hinside)
  · have hscreen : ¬ h.screen.origin = true := horigin
    rw [if_neg horigin, if_neg horigin, if_neg hscreen, checkedSub_ok (by omega), hlen, ← hrows]
    have hinside : Inside l.length h.grid.columns
        ⟨min row (h.grid.rows - 1), min col (h.grid.columns - 1)⟩ := by
      constructor <;> simp only <;> omega
    exact .ok (displays_moveTo hs hinside)

/-- **A step shows what the escape sequence does to the screen.** -/
theorem displays_step (hs : h.Shows l) (a : GridAction) :
    Returns (Displays (h.screen.step a)) (h.step a) := by
  have hrows := hs.grid.rows
  have hlen := length_lines hs
  have hend := hs.end_le
  have hcursor := hs.cursor
  cases a with
  | scrollUp lines => exact displays_scrollUpRelative hs le_rfl hs.start_le _
  | scrollDown lines => exact displays_scrollDownRelative hs le_rfl hs.start_le _
  | insertBlankLines lines =>
    rw [step, Screen.step, insertBlankLines]
    by_cases hin : h.regionStart ≤ h.grid.cursor.point.row ∧ h.grid.cursor.point.row < h.regionEnd
    · rw [if_pos hin, if_pos (show h.screen.InRegion from hin)]
      exact displays_scrollDownRelative hs hin.1 hin.2.le _
    · rw [if_neg hin, if_neg (show ¬ h.screen.InRegion from hin)]
      exact .ok hs.displays
  | deleteLines lines =>
    have hpos : 0 < nextParamOr 1 lines := nextParamOr_pos Nat.one_pos lines
    have hrow : h.grid.cursor.point.row < l.length := hcursor.1
    rw [step, Screen.step, deleteLines, checkedSub_ok (by omega), ok_bind]
    dsimp only
    by_cases hin : h.regionStart ≤ h.grid.cursor.point.row ∧ h.grid.cursor.point.row < h.regionEnd
    · rw [if_pos (show h.screen.InRegion from hin), if_pos ⟨by omega, hin⟩]
      have hshift : h.screen.shiftUp h.grid.cursor.point.row (nextParamOr 1 lines) =
          h.screen.shiftUp h.grid.cursor.point.row
            (min (h.grid.rows - h.grid.cursor.point.row) (nextParamOr 1 lines)) :=
        Screen.shiftUp_congr (show min (nextParamOr 1 lines) (h.regionEnd - h.grid.cursor.point.row) =
          min (min (h.grid.rows - h.grid.cursor.point.row) (nextParamOr 1 lines))
            (h.regionEnd - h.grid.cursor.point.row) by omega)
      have hgoal := displays_scrollUpRelative hs hin.1 hin.2.le
        (min (h.grid.rows - h.grid.cursor.point.row) (nextParamOr 1 lines))
      rw [← hshift] at hgoal
      exact hgoal
    · rw [if_neg (show ¬ h.screen.InRegion from hin), if_neg fun hand => hin hand.2]
      exact .ok hs.displays
  | linefeed =>
    rw [step, Screen.step, linefeed, hlen, ← hrows]
    by_cases hnext : h.grid.cursor.point.row + 1 = h.regionEnd
    · rw [if_pos hnext, if_pos (show h.screen.cursor.point.row + 1 = h.screen.regionEnd from hnext)]
      exact displays_scrollUpRelative hs le_rfl hs.start_le _
    · rw [if_neg hnext, if_neg (show ¬ h.screen.cursor.point.row + 1 = h.screen.regionEnd from hnext)]
      by_cases hlt : h.grid.cursor.point.row + 1 < h.grid.rows
      · rw [if_pos hlt, if_pos (show h.screen.cursor.point.row + 1 < h.grid.rows from hlt)]
        exact .ok (displays_moveTo hs ⟨hrows ▸ hlt, hcursor.2⟩)
      · rw [if_neg hlt, if_neg (show ¬ h.screen.cursor.point.row + 1 < h.grid.rows from hlt)]
        exact .ok hs.displays
  | carriageReturn => exact .ok (displays_moveTo hs ⟨hcursor.1, hs.grid.columns⟩)
  | reverseIndex =>
    rw [step, Screen.step, reverseIndex]
    by_cases htop : h.grid.cursor.point.row = h.regionStart
    · rw [if_pos htop, if_pos (show h.screen.cursor.point.row = h.screen.regionStart from htop)]
      exact displays_scrollDownRelative hs le_rfl hs.start_le _
    · rw [if_neg htop, if_neg (show ¬ h.screen.cursor.point.row = h.screen.regionStart from htop)]
      exact .ok (displays_moveTo hs ⟨(Nat.sub_le _ _).trans_lt hcursor.1, hcursor.2⟩)
  | goto row col =>
    have hrow : 0 < nextParamOr 1 row := nextParamOr_pos Nat.one_pos row
    have hcol : 0 < nextParamOr 1 col := nextParamOr_pos Nat.one_pos col
    rw [step, Screen.step, checkedSub_ok hrow, ok_bind, checkedSub_ok hcol, ok_bind]
    exact displays_goto hs _ _
  | setScrollingRegion top bottom =>
    have htop : 0 < nextParamOr 1 top := nextParamOr_pos Nat.one_pos top
    rw [step, Screen.step, setScrollingRegion, hlen, ← hrows]
    by_cases hle : (bottom.filter (· ≠ 0)).getD h.grid.rows ≤ nextParamOr 1 top
    · rw [if_pos hle, if_pos hle]
      exact .ok hs.displays
    · rw [if_neg hle, if_neg hle, checkedSub_ok htop, ok_bind]
      have hpos := hs.grid.raw.pos
      have hshows : Shows { h with
          regionStart := min (nextParamOr 1 top - 1) h.grid.rows
          regionEnd := min ((bottom.filter (· ≠ 0)).getD h.grid.rows) h.grid.rows } l := by
        refine ⟨hs.grid, ?_, (min_le_right _ _).trans hrows.le, ?_, hs.cursor, hs.savedCursor⟩
        · simp only
          omega
        · simp only
          omega
      exact displays_goto hshows 0 0
  | setOrigin isSet =>
    exact .ok ⟨⟨l, hs.grid, hs.start_le, hs.end_le, hs.end_pos, hcursor, hs.savedCursor⟩, rfl⟩
  | setBackground color => exact .ok ⟨⟨l, hs.updateCursor hcursor⟩, rfl⟩
  | saveCursorPosition =>
    refine .ok ⟨⟨l, ⟨?_, hs.start_le, hs.end_le, hs.end_pos, hcursor, hcursor⟩⟩, rfl⟩
    exact ⟨hs.grid.raw, hs.grid.clean, hs.grid.columns, hrows, hs.grid.limit⟩
  | restoreCursorPosition => exact .ok ⟨⟨l, hs.updateCursor hs.savedCursor⟩, rfl⟩
  | resetState =>
    obtain ⟨raw, hraw, hreset⟩ := hs.grid.reset
    have hpos := hs.grid.raw.pos
    have hshows : Shows { h with
        grid := { h.grid with raw := raw, cursor := .default, savedCursor := .default }
        flatStorage := [], regionStart := 0, regionEnd := h.grid.rows }
        (List.replicate l.length (Row.blank h.grid.columns Cell.default.bg)) := by
      have hlen' : (List.replicate l.length (Row.blank h.grid.columns Cell.default.bg)).length =
          l.length := List.length_replicate
      refine ⟨⟨hraw, fun row hrow => ?_, hs.grid.columns, hrows.trans hlen'.symm, hs.grid.limit⟩,
        Nat.zero_le _, (hrows.trans hlen'.symm).le, hrows ▸ hpos, ?_, ?_⟩
      · rw [List.eq_of_mem_replicate hrow]
        exact ⟨Row.tidy_blank _ _, GridStorage.len_blank _ _⟩
      · exact ⟨hlen'.symm ▸ hpos, hs.grid.columns⟩
      · exact ⟨hlen'.symm ▸ hpos, hs.grid.columns⟩
    rw [step, Screen.step, resetState, hreset, ok_bind]
    refine .ok ⟨⟨_, hshows⟩, ?_⟩
    rw [hshows.screen_eq, hlen, ← hrows]
    simp only [List.map_replicate, List.map_nil]
    rfl
  | changeCursorCell f =>
    obtain ⟨raw, l', hraw, hclean, hmap, hchange⟩ :=
      hs.grid.modifyCursorCell hcursor.1 hcursor.2 f
    have hlen' : l'.length = l.length := by
      have := congrArg List.length hmap
      simpa using this
    have hshows := hs.put hraw hclean hlen' h.grid.numLinesTruncated
      h.flatStorage
    rw [step, Screen.step, hchange, ok_bind]
    refine .ok ⟨⟨_, hshows⟩, ?_⟩
    rw [hshows.screen_eq, hs.screen_eq, hmap]

theorem displays_run (actions : List GridAction) (hs : h.Shows l) :
    Returns (Displays (h.screen.run actions)) (h.run actions) := by
  induction actions generalizing h l with
  | nil => exact .ok hs.displays
  | cons a actions ih =>
    rw [run, List.foldlM_cons]
    refine (displays_step hs a).bind fun h' hdisplays => ?_
    obtain ⟨⟨l', hs'⟩, hscreen⟩ := hdisplays
    have hrun : h.screen.run (a :: actions) = h'.screen.run actions := by
      rw [hscreen]
      rfl
    rw [hrun]
    exact ih hs'

theorem displays_new {rows columns : ℕ} (hrows : 0 < rows) (hcolumns : 0 < columns)
    (isAltScreen isSequential : Bool) :
    Returns (Displays (Screen.new rows columns isAltScreen))
      (new rows columns isAltScreen isSequential) := by
  have hlen : (List.replicate rows (Row.new columns)).length = rows := List.length_replicate
  obtain ⟨raw, hraw, hholds⟩ := Storage.holds_withRows (List.replicate rows (Row.new columns))
    (by rw [hlen]; exact hrows) isSequential
  rw [hlen] at hraw
  rw [List.reverse_replicate, ite_self] at hholds
  rw [new, GridStorage.new, Storage.withCapacity, hraw]
  have hinside : Inside (List.replicate rows (Row.new columns)).length columns ⟨0, 0⟩ :=
    ⟨hlen.symm ▸ hrows, hcolumns⟩
  have hshows : Shows ⟨⟨.default, .default, raw, columns, rows, 0, 0⟩, [], 0, rows, isAltScreen, false⟩
      (List.replicate rows (Row.new columns)) := by
    refine ⟨⟨hholds, fun row hrow => ?_, hcolumns, hlen.symm, rfl⟩, Nat.zero_le _, hlen.ge, hrows, hinside,
      hinside⟩
    rw [List.eq_of_mem_replicate hrow]
    exact ⟨Row.new_eq_blank columns ▸ Row.tidy_blank columns _, GridStorage.len_blank _ _⟩
  refine .ok ⟨⟨_, hshows⟩, ?_⟩
  rw [hshows.screen_eq, List.map_replicate]
  rfl

end GridHandler

end Clinch
