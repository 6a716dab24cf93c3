import Clinch.Grid.Storage

/-!
# The grid

`app/src/terminal/model/grid/grid_storage.rs`. A grid without a scrollback of its own, as
`GridHandler` makes it, has all its rows on the screen.

* `GridStorage`, `scrollUp`, `scrollDown`: what is outside a region is exchanged out of the way of a
  rotation of the ring, and back;
* `Shows`: the grid shows these rows;
* **`Shows.scrollUp`**, **`Shows.scrollDown`**: a region is shifted and nothing else.
-/

set_option autoImplicit false

namespace Clinch

open Region

/-- `VisiblePoint`. -/
structure VisiblePoint where
  row : ℕ
  col : ℕ
  deriving DecidableEq

/-- `grid_storage::Cursor`. -/
structure GridCursor where
  point : VisiblePoint
  template : Cell
  deriving DecidableEq

/-- `Cursor::default`. -/
def GridCursor.default : GridCursor := ⟨⟨0, 0⟩, Cell.default⟩

/-- `GridStorage`. -/
structure GridStorage where
  cursor : GridCursor
  savedCursor : GridCursor
  raw : Storage
  columns : ℕ
  rows : ℕ
  maxScrollLimit : ℕ
  numLinesTruncated : ℕ
  deriving DecidableEq

namespace GridStorage

/-- `new`. -/
def new (rows columns maxScrollLimit : ℕ) (isSequential : Bool) : Result GridStorage := do
  let raw ← Storage.withCapacity rows columns isSequential
  return ⟨.default, .default, raw, columns, rows, maxScrollLimit, 0⟩

/-- `history_size`. -/
def historySize (g : GridStorage) : Result ℕ := checkedSub g.raw.len g.rows

/-- `increase_scroll_limit`. -/
def increaseScrollLimit (g : GridStorage) (count : ℕ) : Result GridStorage := do
  let room ← checkedSub g.maxScrollLimit (← g.historySize)
  return if min count room ≠ 0 then
    { g with raw := g.raw.initializeRows (min count room) g.columns } else g

/-- The rows of the grid from one index up to another are reset. -/
def resetRows (raw : Storage) (template : Cell) (start stop : ℕ) : Result Storage :=
  (List.range' start (stop - start)).foldlM (fun raw i => raw.modify i (·.reset template)) raw

/-- The lines of the screen from one up to another are reset. -/
def resetLines (raw : Storage) (template : Cell) (start stop : ℕ) : Result Storage :=
  (List.range' start (stop - start)).foldlM (fun raw i => raw.modifyLine i (·.reset template)) raw

/-- A row at the bottom of the screen is exchanged with the one `distance` above. -/
def swapFixed (visibleRows distance : ℕ) (raw : Storage) (i : ℕ) : Result Storage := do
  let index ← checkedSub visibleRows (i + 1)
  raw.swap index (← checkedSub index distance)

/-- `scroll_down`. -/
def scrollDown (g : GridStorage) (start stop distance : ℕ) : Result GridStorage := do
  let length ← checkedSub stop start
  if length ≤ distance then
    let raw ← resetLines g.raw g.cursor.template start stop
    return { g with raw := raw }
  else if g.maxScrollLimit = 0 then
    -- The rows below the region go up, the ring is turned back, and the rows above it go up.
    let fixedLines ← checkedSub g.rows stop
    let raw ← (List.range fixedLines).reverse.foldlM (swapFixed g.rows distance) g.raw
    let raw ← raw.retract distance
    let raw ← resetRows raw g.cursor.template 0 distance
    let raw ← (List.range start).foldlM (fun raw i => raw.swap i (i + distance)) raw
    return { g with raw := raw }
  else
    let raw ← (List.range' (start + distance) (stop - (start + distance))).reverse.foldlM
      (fun raw line => raw.swapLines line (line - distance)) g.raw
    let raw ← resetLines raw g.cursor.template start (start + distance)
    return { g with raw := raw }

/-- `scroll_up`. -/
def scrollUp (g : GridStorage) (start stop distance : ℕ) : Result GridStorage := do
  let length ← checkedSub stop start
  if length ≤ distance ∧ start ≠ 0 then
    let raw ← resetLines g.raw g.cursor.template start stop
    return { g with raw := raw }
  else
    let numLinesToTruncate := (← g.historySize) + distance - g.maxScrollLimit
    let g ← g.increaseScrollLimit distance
    -- The rows above the region go down, the ring is turned, and the rows below it go down.
    let raw ← (List.range start).reverse.foldlM (fun raw i => raw.swap i (i + distance)) g.raw
    let raw ← raw.extend distance
    let raw ← resetRows raw g.cursor.template (← checkedSub raw.len distance) raw.len
    let fixedLines ← checkedSub g.rows stop
    let raw ← (List.range fixedLines).foldlM (swapFixed g.rows distance) raw
    let g := { g with raw := raw }
    return if g.maxScrollLimit = (← g.historySize) then
      { g with numLinesTruncated := g.numLinesTruncated + numLinesToTruncate } else g

/-- `clear_history`. -/
def clearHistory (g : GridStorage) : Result GridStorage := do
  let raw ← g.raw.shrinkLines (← g.historySize)
  return { g with raw := raw }

/-- `reset`. -/
def reset (g : GridStorage) : Result GridStorage := do
  let g ← g.clearHistory
  let raw ← resetRows g.raw Cell.default 0 g.raw.len
  return { g with raw := raw, cursor := .default, savedCursor := .default }

/-- `rows_to_cursor`. -/
def rowsToCursor (g : GridStorage) : Result ℕ := do
  return g.cursor.point.row + (← g.historySize)

/-- `truncate_to_cursor_rows`. -/
def truncateToCursorRows (g : GridStorage) : Result GridStorage := do
  let cursorAbsoluteRow ← g.rowsToCursor
  let rowsToInclude := cursorAbsoluteRow + 1
  let g := { g with raw := g.raw.truncateTo rowsToInclude, rows := min g.rows rowsToInclude }
  let cursorPositionShift := cursorAbsoluteRow - (← g.rowsToCursor)
  let point := g.cursor.point
  return { g with cursor := { g.cursor with point := ⟨point.row + cursorPositionShift, point.col⟩ } }

/-- The point that `cursor_cell` changes: the cursor, or the last cell when it is outside the grid. -/
def cursorCellPoint (g : GridStorage) : Result VisiblePoint := do
  let row := (← g.historySize) + g.cursor.point.row
  return if g.raw.len ≤ row ∨ g.columns ≤ g.cursor.point.col then ⟨g.raw.len - 1, g.columns - 1⟩
    else ⟨row, g.cursor.point.col⟩

/-- `cursor_cell`: change the cell under the cursor. -/
def modifyCursorCell (g : GridStorage) (f : Cell → Cell) : Result GridStorage := do
  let point ← g.cursorCellPoint
  let raw ← g.raw.modify point.row (fun row => row.indexMut point.col f)
  return { g with raw := raw }

/-! ## Loops over the rows -/

variable {g : GridStorage} {s : Storage} {l : List Row} {ns : List ℕ} {columns start stop d : ℕ}
  {template : Cell}

/-- A loop whose turns change the rows of a full ring. -/
theorem holds_foldlM {P : List Row → Prop} {f : Storage → ℕ → Result Storage}
    {step : List Row → ℕ → List Row}
    (hstep : ∀ s l i, i ∈ ns → P l → s.Holds l →
      P (step l i) ∧ Returns (fun s' => s'.Holds (step l i)) (f s i))
    (hP : P l) (h : s.Holds l) :
    P (ns.foldl step l) ∧ Returns (fun s' => s'.Holds (ns.foldl step l)) (ns.foldlM f s) := by
  induction ns generalizing s l with
  | nil => exact ⟨hP, .ok h⟩
  | cons i ns ih =>
    obtain ⟨hP', s', hs', h'⟩ := hstep s l i List.mem_cons_self hP h
    rw [List.foldl_cons, List.foldlM_cons, hs', ok_bind]
    exact ih (fun s l j hj => hstep s l j (List.mem_cons_of_mem i hj)) hP' h'

/-- The rows are tidy and as long as the grid is wide. -/
def Clean (columns : ℕ) (l : List Row) : Prop := ∀ row ∈ l, row.Tidy ∧ row.len = columns

theorem reset_clean (h : Clean columns l) (hcolumns : 0 < columns) {i : ℕ} {row : Row}
    (hrow : l[i]? = some row) : row.reset template = .ok (Row.blank columns template.bg) := by
  obtain ⟨htidy, hlen⟩ := h row (List.mem_of_getElem? hrow)
  rw [Row.reset_eq htidy (by omega), hlen]

theorem len_blank (columns : ℕ) (bg : Color) : (Row.blank columns bg).len = columns :=
  List.length_replicate

theorem Clean.set (h : Clean columns l) (i : ℕ) (bg : Color) :
    Clean columns (l.set i (Row.blank columns bg)) := by
  intro row hrow
  rcases List.mem_or_eq_of_mem_set hrow with hrow | rfl
  · exact h row hrow
  · exact ⟨Row.tidy_blank columns bg, len_blank columns bg⟩

theorem Clean.fill (h : Clean columns l) (start n : ℕ) (bg : Color) :
    Clean columns (Region.fill start n (Row.blank columns bg) l) := by
  induction n with
  | zero => exact h
  | succ n ih =>
    rw [Region.fill_succ]
    exact ih.set _ _

theorem holds_resetRows (template : Cell) (start stop : ℕ) (h : s.Holds l) (hclean : Clean columns l)
    (hcolumns : 0 < columns) (hstop : stop ≤ l.length) :
    Returns (fun s' => s'.Holds (Region.fill start (stop - start) (Row.blank columns template.bg) l))
      (resetRows s template start stop) := by
  refine (holds_foldlM (P := fun l' => Clean columns l' ∧ l'.length = l.length)
    (fun s l' i hi hP h => ⟨⟨hP.1.set _ _, (List.length_set ..).trans hP.2⟩, ?_⟩)
    ⟨hclean, rfl⟩ h).2
  have hi' := List.mem_range'_1.mp hi
  have hrow : l'[i]? = some l'[i] := List.getElem?_eq_getElem (by omega)
  exact h.modify hrow (reset_clean hP.1 hcolumns hrow)

theorem holds_resetLines (template : Cell) (start stop : ℕ) (h : s.Holds l) (hclean : Clean columns l)
    (hcolumns : 0 < columns) (hstop : stop ≤ l.length) :
    Returns (fun s' => s'.Holds (Region.fill start (stop - start) (Row.blank columns template.bg) l))
      (resetLines s template start stop) := by
  refine (holds_foldlM (P := fun l' => Clean columns l' ∧ l'.length = l.length)
    (fun s l' i hi hP h => ⟨⟨hP.1.set _ _, (List.length_set ..).trans hP.2⟩, ?_⟩)
    ⟨hclean, rfl⟩ h).2
  have hi' := List.mem_range'_1.mp hi
  have hrow : l'[i]? = some l'[i] := List.getElem?_eq_getElem (by omega)
  exact h.modifyLine hrow (reset_clean hP.1 hcolumns hrow)

/-- The rows above a region are carried down. -/
theorem holds_swapUp (start d : ℕ) (h : s.Holds l) (hd : start + d ≤ l.length) :
    Returns (fun s' => s'.Holds (Region.moveUp 0 start d l))
      ((List.range start).reverse.foldlM (fun raw i => raw.swap i (i + d)) s) := by
  rw [List.range_eq_range']
  refine (holds_foldlM (P := fun l' => l'.length = l.length)
    (fun s l' i hi hP h => ⟨(length_swapAt ..).trans hP, ?_⟩) rfl h).2
  have hi' := List.mem_range'_1.mp (List.mem_reverse.mp hi)
  exact h.swap (by omega) (by omega)

/-- The rows above a region are carried up. -/
theorem holds_swapDown (start d : ℕ) (h : s.Holds l) (hd : start + d ≤ l.length) :
    Returns (fun s' => s'.Holds (Region.moveDown 0 start d l))
      ((List.range start).foldlM (fun raw i => raw.swap i (i + d)) s) := by
  rw [List.range_eq_range']
  refine (holds_foldlM (P := fun l' => l'.length = l.length)
    (fun s l' i hi hP h => ⟨(length_swapAt ..).trans hP, ?_⟩) rfl h).2
  have hi' := List.mem_range'_1.mp hi
  exact h.swap (by omega) (by omega)

theorem swapFixed_ok {n i : ℕ} (h : s.Holds l) (hn : n = l.length) (hi : i + d < n) :
    Returns (fun s' => s'.Holds (swapAt l (n - (i + 1) - d) (n - (i + 1) - d + d)))
      (swapFixed n d s i) := by
  rw [swapFixed, checkedSub_ok (by omega), ok_bind, checkedSub_ok (by omega), ok_bind, swapAt_comm,
    Nat.sub_add_cancel (by omega)]
  exact h.swap (by omega) (by omega)

/-- The last places, counted from the end. -/
theorem map_range_sub {n : ℕ} (hd : d ≤ stop) (hstop : stop ≤ n) :
    (List.range (n - stop)).map (fun i => n - (i + 1) - d) =
      (List.range' (stop - d) (n - stop)).reverse := by
  refine List.ext_getElem? fun k => ?_
  by_cases hk : k < n - stop
  · rw [List.getElem?_map, List.getElem?_range hk, List.getElem?_reverse (by simpa using hk),
      List.length_range', List.getElem?_range' (by omega)]
    simp only [Option.map_some, Option.some.injEq]
    omega
  · rw [List.getElem?_eq_none (by simp; omega), List.getElem?_eq_none (by simp; omega)]

/-- The rows below a region are carried down. -/
theorem holds_swapFixedUp (d stop : ℕ) (h : s.Holds l) (hd : d ≤ stop) (hstop : stop ≤ l.length) {n : ℕ}
    (hn : n = l.length) :
    Returns (fun s' => s'.Holds (Region.moveUp (stop - d) (n - stop) d l))
      ((List.range (n - stop)).foldlM (swapFixed n d) s) := by
  rw [Region.moveUp, ← map_range_sub hd (by omega), List.foldl_map]
  refine (holds_foldlM (P := fun l' => l'.length = l.length)
    (fun s l' i hi hP h => ⟨(length_swapAt ..).trans hP, ?_⟩) rfl h).2
  have hi' := List.mem_range.mp hi
  exact swapFixed_ok h (by omega) (by omega)

/-- The rows below a region are carried up. -/
theorem holds_swapFixedDown (d stop : ℕ) (h : s.Holds l) (hd : d ≤ stop) (hstop : stop ≤ l.length) {n : ℕ}
    (hn : n = l.length) :
    Returns (fun s' => s'.Holds (Region.moveDown (stop - d) (n - stop) d l))
      ((List.range (n - stop)).reverse.foldlM (swapFixed n d) s) := by
  have hmap := congrArg List.reverse (map_range_sub hd (hstop.trans hn.ge))
  rw [List.reverse_reverse, ← List.map_reverse] at hmap
  rw [Region.moveDown, ← hmap, List.foldl_map]
  refine (holds_foldlM (P := fun l' => l'.length = l.length)
    (fun s l' i hi hP h => ⟨(length_swapAt ..).trans hP, ?_⟩) rfl h).2
  have hi' := List.mem_range.mp (List.mem_reverse.mp hi)
  exact swapFixed_ok h (by omega) (by omega)

/-! ## A grid without a scrollback of its own -/

/-- The grid shows these rows. -/
structure Shows (g : GridStorage) (l : List Row) : Prop where
  raw : g.raw.Holds l
  clean : Clean g.columns l
  columns : 0 < g.columns
  rows : g.rows = l.length
  limit : g.maxScrollLimit = 0

theorem Shows.historySize (h : g.Shows l) : g.historySize = .ok 0 := by
  rw [GridStorage.historySize, checkedSub_ok (by rw [h.rows, h.raw.full.len, h.raw.length]), h.rows,
    h.raw.full.len, h.raw.length, Nat.sub_self]

/-- Other rows, as many. -/
theorem Shows.put (h : g.Shows l) {raw : Storage} {l' : List Row} (hraw : raw.Holds l')
    (hclean : Clean g.columns l') (hlen : l'.length = l.length) {n : ℕ} :
    Shows { g with raw := raw, numLinesTruncated := n } l' :=
  ⟨hraw, hclean, h.columns, h.rows.trans hlen.symm, h.limit⟩

theorem Clean.moveUp (h : Clean columns l) (a n d : ℕ) : Clean columns (Region.moveUp a n d l) :=
  fun row hrow => h row (mem_of_mem_moveUp hrow)

theorem Clean.moveDown (h : Clean columns l) (a n d : ℕ) : Clean columns (Region.moveDown a n d l) :=
  fun row hrow => h row (mem_of_mem_moveDown hrow)

theorem Clean.rotate (h : Clean columns l) (n : ℕ) : Clean columns (l.rotate n) :=
  fun row hrow => h row (List.mem_rotate.mp hrow)

/-- A region that is scrolled away. -/
theorem fill_region (hse : start ≤ stop) (hstop : stop ≤ l.length) (hd : stop - start ≤ d) (row : Row) :
    Region.fill start (stop - start) row l = Region.scrollUp start stop (min d (stop - start)) row l ∧
    Region.fill start (stop - start) row l = Region.scrollDown start stop (min d (stop - start)) row l := by
  rw [min_eq_right hd]
  constructor
  · refine List.ext_getElem? fun k => ?_
    rw [getElem?_fill (by omega), getElem?_scrollUp hse hstop le_rfl]
    split_ifs <;> first | rfl | omega
  · refine List.ext_getElem? fun k => ?_
    rw [getElem?_fill (by omega), getElem?_scrollDown hse hstop le_rfl]
    split_ifs <;> first | rfl | omega

/-- **The rows of the region go up, and nothing else changes**; the rows that leave it count as
truncated, unless it is cleared at once. -/
theorem Shows.scrollUp (h : g.Shows l) (hse : start ≤ stop) (hstop : stop ≤ l.length)
    (hd : d ≤ stop - start ∨ start ≠ 0) :
    ∃ raw, raw.Holds (Region.scrollUp start stop (min d (stop - start))
        (Row.blank g.columns g.cursor.template.bg) l) ∧
      g.scrollUp start stop d = .ok { g with
        raw := raw
        numLinesTruncated := g.numLinesTruncated + if stop - start ≤ d ∧ start ≠ 0 then 0 else d } := by
  rw [GridStorage.scrollUp, checkedSub_ok hse, ok_bind]
  by_cases hall : stop - start ≤ d ∧ start ≠ 0
  · obtain ⟨raw, hraw, hholds⟩ :=
      holds_resetLines g.cursor.template start stop h.raw h.clean h.columns hstop
    rw [(fill_region hse hstop hall.1 _).1] at hholds
    refine ⟨raw, hholds, ?_⟩
    rw [if_pos hall, if_pos hall, hraw, ok_bind]
    rfl
  · have hd' : d ≤ stop - start := by omega
    have hsame : g.increaseScrollLimit d = .ok g := by
      rw [increaseScrollLimit, h.historySize, ok_bind, h.limit, checkedSub_ok le_rfl, ok_bind,
        if_neg (by omega)]
      rfl
    rw [if_neg hall, if_neg hall, h.historySize, ok_bind, hsame, ok_bind, min_eq_left hd']
    obtain ⟨raw₁, hraw₁, h₁⟩ := holds_swapUp start d h.raw (by omega)
    obtain ⟨raw₂, hraw₂, h₂⟩ := h₁.extend (c := d) (by rw [length_moveUp]; omega)
    have hlen₂ : ((Region.moveUp 0 start d l).rotate d).length = l.length := by
      rw [List.length_rotate, length_moveUp]
    have hraw : raw₂.len = l.length := by rw [h₂.full.len, h₂.length, hlen₂]
    obtain ⟨raw₃, hraw₃, h₃⟩ := holds_resetRows g.cursor.template (l.length - d) l.length h₂
      ((h.clean.moveUp 0 start d).rotate d) h.columns hlen₂.ge
    rw [Nat.sub_sub_self (by omega)] at h₃
    have hlen₃ : (Region.fill (l.length - d) d (Row.blank g.columns g.cursor.template.bg)
        ((Region.moveUp 0 start d l).rotate d)).length = l.length := by rw [length_fill, hlen₂]
    obtain ⟨raw₄, hraw₄, h₄⟩ := holds_swapFixedUp d stop h₃ (by omega) (by omega)
      (h.rows.trans hlen₃.symm)
    rw [h.rows, scrollUp_of_rotate hse hstop hd'] at h₄
    refine ⟨raw₄, h₄, ?_⟩
    have hshows : Shows { g with raw := raw₄ } (Region.scrollUp start stop d
        (Row.blank g.columns g.cursor.template.bg) l) := by
      refine ⟨h₄, ?_, h.columns, h.rows.trans (length_scrollUp hse hstop).symm, h.limit⟩
      rw [← scrollUp_of_rotate hse hstop hd']
      exact (((h.clean.moveUp 0 start d).rotate d).fill _ _ _).moveUp _ _ _
    rw [hraw₁, ok_bind, hraw₂, ok_bind, hraw, checkedSub_ok (by omega), ok_bind, hraw₃, ok_bind,
      checkedSub_ok (h.rows ▸ hstop), ok_bind, hraw₄, ok_bind]
    dsimp only
    rw [hshows.historySize, ok_bind, if_pos h.limit, h.limit, Nat.zero_add, Nat.sub_zero]
    rfl

/-- **The rows of the region go down, and nothing else changes.** -/
theorem Shows.scrollDown (h : g.Shows l) (hse : start ≤ stop) (hstop : stop ≤ l.length) (d : ℕ) :
    ∃ raw, raw.Holds (Region.scrollDown start stop (min d (stop - start))
        (Row.blank g.columns g.cursor.template.bg) l) ∧
      g.scrollDown start stop d = .ok { g with raw := raw } := by
  rw [GridStorage.scrollDown, checkedSub_ok hse, ok_bind]
  by_cases hall : stop - start ≤ d
  · obtain ⟨raw, hraw, hholds⟩ :=
      holds_resetLines g.cursor.template start stop h.raw h.clean h.columns hstop
    rw [(fill_region hse hstop hall _).2] at hholds
    refine ⟨raw, hholds, ?_⟩
    rw [if_pos hall, hraw, ok_bind]
    rfl
  · have hd' : d ≤ stop - start := by omega
    rw [if_neg hall, if_pos h.limit, min_eq_left hd']
    obtain ⟨raw₁, hraw₁, h₁⟩ := holds_swapFixedDown d stop h.raw (by omega) hstop h.rows
    rw [h.rows] at h₁
    have hlen₁ : (Region.moveDown (stop - d) (l.length - stop) d l).length = l.length := length_moveDown ..
    obtain ⟨raw₂, hraw₂, h₂⟩ := h₁.retract (c := d) (by rw [hlen₁]; omega)
    rw [hlen₁] at h₂
    obtain ⟨raw₃, hraw₃, h₃⟩ := holds_resetRows g.cursor.template 0 d h₂
      ((h.clean.moveDown _ _ d).rotate _) h.columns (by rw [List.length_rotate, hlen₁]; omega)
    rw [Nat.sub_zero] at h₃
    obtain ⟨raw₄, hraw₄, h₄⟩ := holds_swapDown start d h₃
      (by rw [length_fill, List.length_rotate, hlen₁]; omega)
    rw [scrollDown_of_rotate hse hstop hd'] at h₄
    refine ⟨raw₄, h₄, ?_⟩
    rw [checkedSub_ok (h.rows ▸ hstop), ok_bind, hraw₁, ok_bind, hraw₂, ok_bind, hraw₃, ok_bind, hraw₄,
      ok_bind]
    rfl

/-- The grid is cleared. -/
theorem Shows.reset (h : g.Shows l) :
    ∃ raw, raw.Holds (List.replicate l.length (Row.blank g.columns Cell.default.bg)) ∧
      g.reset = .ok { g with raw := raw, cursor := .default, savedCursor := .default } := by
  have hclear : g.clearHistory = .ok g := by
    rw [clearHistory, h.historySize, ok_bind, h.raw.shrinkLines_zero]
    rfl
  have hlen : g.raw.len = l.length := by rw [h.raw.full.len, h.raw.length]
  obtain ⟨raw, hraw, hholds⟩ := holds_resetRows .default 0 l.length h.raw h.clean h.columns le_rfl
  have hfill : Region.fill 0 (l.length - 0) (Row.blank g.columns Cell.default.bg) l =
      List.replicate l.length (Row.blank g.columns Cell.default.bg) := by
    refine List.ext_getElem? fun k => ?_
    rw [getElem?_fill (by omega), List.getElem?_replicate]
    split_ifs
    · rfl
    · omega
    · omega
    · exact List.getElem?_eq_none (by omega)
  rw [hfill] at hholds
  refine ⟨raw, hholds, ?_⟩
  rw [GridStorage.reset, hclear, ok_bind, hlen, hraw, ok_bind]
  rfl

theorem tidy_indexMut {row row' : Row} {i : ℕ} {f : Cell → Cell} (h : row.Tidy)
    (hrow : row.indexMut i f = .ok row') : row'.Tidy ∧ row'.len = row.len := by
  obtain ⟨hi, rfl⟩ := Row.indexMut_ok hrow
  obtain ⟨hocc, bg, hbg⟩ := h
  have hlen : (row.inner.modify i f).length = row.len := List.length_modify ..
  refine ⟨⟨?_, bg, fun cell hcell => ?_⟩, hlen⟩
  · rw [Row.len, hlen]
    exact max_le hocc hi
  · refine hbg cell ?_
    obtain ⟨k, hk⟩ := List.mem_iff_getElem?.mp hcell
    have hne : i ≠ max row.occ (i + 1) + k := by omega
    have hsub : row.occ + (max row.occ (i + 1) + k - row.occ) = max row.occ (i + 1) + k := by omega
    refine List.mem_iff_getElem?.mpr ⟨max row.occ (i + 1) + k - row.occ, ?_⟩
    rw [List.getElem?_drop, hsub]
    simpa [List.getElem?_drop, List.getElem?_modify, hne] using hk

theorem Shows.cursorCellPoint (h : g.Shows l) (hrow : g.cursor.point.row < l.length)
    (hcol : g.cursor.point.col < g.columns) : g.cursorCellPoint = .ok g.cursor.point := by
  have hlen : g.raw.len = l.length := by rw [h.raw.full.len, h.raw.length]
  rw [GridStorage.cursorCellPoint, h.historySize, ok_bind]
  dsimp only
  rw [Nat.zero_add, hlen, if_neg (by omega)]
  rfl

/-- The cell under a cursor that is in the grid. -/
theorem Shows.modifyCursorCell (h : g.Shows l) (hrow : g.cursor.point.row < l.length)
    (hcol : g.cursor.point.col < g.columns) (f : Cell → Cell) :
    ∃ raw l', raw.Holds l' ∧ Clean g.columns l' ∧
      l'.map Row.inner =
        (l.map Row.inner).modify g.cursor.point.row (fun line => line.modify g.cursor.point.col f) ∧
      g.modifyCursorCell f = .ok { g with raw := raw } := by
  have hget : l[g.cursor.point.row]? = some l[g.cursor.point.row] := List.getElem?_eq_getElem hrow
  obtain ⟨htidy, hcolumns⟩ := h.clean _ (List.getElem_mem hrow)
  have hindex : l[g.cursor.point.row].indexMut g.cursor.point.col f =
      .ok ⟨l[g.cursor.point.row].inner.modify g.cursor.point.col f,
        max l[g.cursor.point.row].occ (g.cursor.point.col + 1)⟩ := if_pos (by rw [hcolumns]; exact hcol)
  obtain ⟨raw, hraw, hholds⟩ := h.raw.modify (f := fun row => row.indexMut g.cursor.point.col f) hget hindex
  refine ⟨raw, _, hholds, fun row hmem => ?_, ?_, ?_⟩
  · rcases List.mem_or_eq_of_mem_set hmem with hmem | rfl
    · exact h.clean row hmem
    · obtain ⟨htidy', hlen'⟩ := tidy_indexMut htidy hindex
      exact ⟨htidy', hlen'.trans hcolumns⟩
  · refine List.ext_getElem? fun k => ?_
    rw [List.map_set, List.getElem?_set, List.getElem?_modify, List.getElem?_map]
    by_cases hk : g.cursor.point.row = k
    · simp [← hk, hrow]
    · simp [hk]
  · rw [GridStorage.modifyCursorCell, h.cursorCellPoint hrow hcol, ok_bind, hraw, ok_bind]
    rfl

end GridStorage

end Clinch
