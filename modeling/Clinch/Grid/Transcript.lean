import Clinch.Grid.Screen

/-!
# The transcript

Output that only prints leaves a transcript: all lines that were ever begun, of which the screen is the
end. The lines above the screen are in the flat storage.

* `Transcript`, `Transcript.step`: lines are only added at the end, and changed only on the screen;
* `GridAction.Prints`: what a printing program asks for;
* **`transcript_run`**: flat storage and ring together are the transcript, no line lost and none twice.
-/

set_option autoImplicit false

namespace Clinch

open Region

/-- All lines that were begun, of which the last ones are on the screen. -/
structure Transcript where
  lines : List (List Cell)
  width : ℕ
  height : ℕ
  cursor : GridCursor
  savedCursor : GridCursor

namespace Transcript

def new (rows columns : ℕ) : Transcript :=
  ⟨List.replicate rows (List.replicate columns Cell.default), columns, rows, .default, .default⟩

/-- New lines are begun at the end. -/
def append (t : Transcript) (n : ℕ) : Transcript :=
  { t with
    lines := t.lines ++
      List.replicate (min n t.height) (List.replicate t.width (Cell.ofColor t.cursor.template.bg)) }

def moveTo (t : Transcript) (row col : ℕ) : Transcript :=
  { t with cursor := { t.cursor with point := ⟨row, col⟩ } }

/-- What a printing program asks for. -/
def step (t : Transcript) : GridAction → Transcript
  | .scrollUp lines => t.append (nextParamOr 1 lines)
  | .linefeed =>
    if t.cursor.point.row + 1 = t.height then t.append 1
    else if t.cursor.point.row + 1 < t.height then t.moveTo (t.cursor.point.row + 1) t.cursor.point.col
    else t
  | .carriageReturn => t.moveTo t.cursor.point.row 0
  | .goto row col =>
    t.moveTo (min (nextParamOr 1 row - 1) (t.height - 1)) (min (nextParamOr 1 col - 1) (t.width - 1))
  | .setBackground color =>
    { t with cursor := { t.cursor with template := { t.cursor.template with bg := color } } }
  | .saveCursorPosition => { t with savedCursor := t.cursor }
  | .restoreCursorPosition => { t with cursor := t.savedCursor }
  | .changeCursorCell f =>
    { t with
      lines := t.lines.modify (t.lines.length - t.height + t.cursor.point.row)
        (fun line => line.modify t.cursor.point.col f) }
  | _ => t

def run (t : Transcript) (actions : List GridAction) : Transcript := actions.foldl step t

theorem height_run (actions : List GridAction) (t : Transcript) : (t.run actions).height = t.height := by
  induction actions generalizing t with
  | nil => rfl
  | cons a actions ih =>
    refine (ih (t.step a)).trans ?_
    cases a with
    | linefeed =>
      rw [step]
      split_ifs <;> rfl
    | _ => rfl

end Transcript

/-- The action neither moves lines down, nor changes the region that moves, nor clears the screen. -/
def GridAction.Prints : GridAction → Prop
  | .scrollDown _ | .insertBlankLines _ | .deleteLines _ | .reverseIndex | .setScrollingRegion _ _
  | .resetState => False
  | _ => True

namespace Screen

variable {s : Screen} {t : Transcript} {a : GridAction} {n : ℕ}

/-- The screen is the end of the transcript. -/
structure Ends (s : Screen) (t : Transcript) : Prop where
  lines : s.history ++ s.lines = t.lines
  width : s.width = t.width
  height : s.lines.length = t.height
  regionStart : s.regionStart = 0
  regionEnd : s.regionEnd = t.height
  cursor : s.cursor = t.cursor
  savedCursor : s.savedCursor = t.savedCursor
  isAltScreen : s.isAltScreen = false

theorem Ends.shiftUp (h : s.Ends t) (n : ℕ) : (s.shiftUp s.regionStart n).Ends (t.append n) := by
  have hheight := h.height
  have hregion : s.regionEnd - s.regionStart = t.height := by rw [h.regionStart, h.regionEnd, Nat.sub_zero]
  have hscroll : Region.scrollUp 0 s.regionEnd (min n t.height) (s.blank s.cursor.template.bg) s.lines =
      s.lines.drop (min n t.height) ++
        List.replicate (min n t.height) (s.blank s.cursor.template.bg) := by
    rw [Region.scrollUp, h.regionEnd, List.take_zero, List.nil_append, Nat.zero_add, Nat.sub_zero,
      Nat.sub_zero, List.drop_eq_nil_of_le hheight.le, List.append_nil, min_assoc, min_self,
      List.take_of_length_le (by rw [List.length_drop, hheight])]
  rw [Screen.shiftUp, hregion]
  refine ⟨?_, h.width, ?_, h.regionStart, h.regionEnd, h.cursor, h.savedCursor, h.isAltScreen⟩
  · dsimp only
    rw [h.isAltScreen, if_neg Bool.false_ne_true, h.regionStart, hscroll, List.drop_zero,
      List.append_assoc, ← List.append_assoc (s.lines.take _), List.take_append_drop,
      ← List.append_assoc, h.lines, blank, h.width, h.cursor]
    rfl
  · dsimp only
    rw [h.regionStart, length_scrollUp (Nat.zero_le _) (by rw [h.regionEnd, hheight])]
    exact hheight

theorem Ends.moveTo (h : s.Ends t) (row col : ℕ) : (s.moveTo row col).Ends (t.moveTo row col) := by
  refine ⟨h.lines, h.width, h.height, h.regionStart, h.regionEnd, ?_, h.savedCursor, h.isAltScreen⟩
  rw [Screen.moveTo, Transcript.moveTo, h.cursor]

theorem modify_append_length {α : Type} (l l' : List α) (i : ℕ) (f : α → α) :
    (l ++ l').modify (l.length + i) f = l ++ l'.modify i f := by
  induction l with
  | nil => rw [List.length_nil, Nat.zero_add, List.nil_append, List.nil_append]
  | cons x l ih =>
    rw [List.length_cons, Nat.add_right_comm, List.cons_append, List.modify_succ_cons, ih,
      List.cons_append]

/-- A step of a printing program. -/
theorem Ends.step (h : s.Ends t) (ha : a.Prints) : (s.step a).Ends (t.step a) := by
  have hheight := h.height
  cases a with
  | scrollUp lines => exact h.shiftUp _
  | linefeed =>
    rw [Screen.step, Transcript.step, h.cursor, h.regionEnd, hheight]
    split_ifs
    · exact h.shiftUp 1
    · exact h.moveTo _ _
    · exact h
  | carriageReturn =>
    rw [Screen.step, Transcript.step, h.cursor]
    exact h.moveTo _ _
  | goto row col =>
    rw [Screen.step, Transcript.step, Screen.goto, h.regionStart, h.regionEnd, hheight, h.width,
      Nat.add_zero, ite_self]
    exact h.moveTo _ _
  | setOrigin isSet =>
    exact ⟨h.lines, h.width, h.height, h.regionStart, h.regionEnd, h.cursor, h.savedCursor,
      h.isAltScreen⟩
  | setBackground color =>
    refine ⟨h.lines, h.width, h.height, h.regionStart, h.regionEnd, ?_, h.savedCursor, h.isAltScreen⟩
    rw [Screen.step, Transcript.step, h.cursor]
  | saveCursorPosition =>
    exact ⟨h.lines, h.width, h.height, h.regionStart, h.regionEnd, h.cursor, h.cursor, h.isAltScreen⟩
  | restoreCursorPosition =>
    exact ⟨h.lines, h.width, h.height, h.regionStart, h.regionEnd, h.savedCursor, h.savedCursor,
      h.isAltScreen⟩
  | changeCursorCell f =>
    refine ⟨?_, h.width, ?_, h.regionStart, h.regionEnd, h.cursor, h.savedCursor, h.isAltScreen⟩
    · have hlen : t.lines.length - t.height = s.history.length := by
        rw [← h.lines, List.length_append, hheight, Nat.add_sub_cancel]
      rw [Screen.step, Transcript.step, hlen, ← h.lines, modify_append_length, h.cursor]
    · exact (List.length_modify ..).trans hheight
  | scrollDown _ | insertBlankLines _ | deleteLines _ | reverseIndex | setScrollingRegion _ _
  | resetState => exact ha.elim

theorem ends_run {actions : List GridAction} (h : s.Ends t) (ha : ∀ a ∈ actions, a.Prints) :
    (s.run actions).Ends (t.run actions) := by
  induction actions generalizing s t with
  | nil => exact h
  | cons a actions ih =>
    exact ih (h.step (ha a List.mem_cons_self)) fun b hb => ha b (List.mem_cons_of_mem a hb)

end Screen

namespace GridHandler

/-- **No line is lost and none is twice.** When a program prints on the main screen, the rows given to the
flat storage and the rows of the ring are, one behind the other, all lines that were begun. -/
theorem transcript_run {rows columns : ℕ} (hrows : 0 < rows) (hcolumns : 0 < columns) (isSequential : Bool)
    (actions : List GridAction) (hprints : ∀ a ∈ actions, a.Prints) :
    ∃ h, (do
      let h ← new rows columns false isSequential
      h.run actions) = .ok h ∧
      (h.flatStorage ++ h.grid.raw.content).map Row.inner =
        ((Transcript.new rows columns).run actions).lines ∧
      h.grid.raw.content.length = rows := by
  obtain ⟨h, hnew, ⟨l, hs⟩, hscreen⟩ := displays_new hrows hcolumns false isSequential
  obtain ⟨h', hrun, -, hscreen'⟩ := displays_run actions hs
  have hends : (Screen.new rows columns false).Ends (Transcript.new rows columns) :=
    ⟨rfl, rfl, List.length_replicate, rfl, rfl, rfl, rfl, rfl⟩
  have hends' := Screen.ends_run hends hprints
  rw [← hscreen, ← hscreen'] at hends'
  have hheight : ((Transcript.new rows columns).run actions).height = rows := Transcript.height_run actions _
  refine ⟨h', by rw [hnew, ok_bind, hrun], ?_, ?_⟩
  · rw [List.map_append]
    exact hends'.lines
  · rw [← List.length_map (f := Row.inner), ← hheight]
    exact hends'.height

theorem transcript_run_small : ∃ h, (do
      let h ← new 2 3 false false
      h.run [.linefeed, .linefeed]) = .ok h ∧
    (h.flatStorage ++ h.grid.raw.content).map Row.inner =
      ((Transcript.new 2 3).run [.linefeed, .linefeed]).lines ∧
    h.grid.raw.content.length = 2 := by
  refine transcript_run (by decide) (by decide) false [.linefeed, .linefeed] fun a ha => ?_
  have ha' : a = .linefeed := by simpa using ha
  exact ha' ▸ trivial

end GridHandler

end Clinch
