import Clinch.BufferText.Point
import Clinch.SumTree.Slices

/-!
# Summaries of text

`app/src/editor/view/model/buffer/text.rs`: a run is a newline or some characters of one width, and a
text summary counts its characters, bytes and lines and finds its longest line.

* `TextSummary`, its addition and `WellFormed`; `TextSummary.assoc`;
* `RunSummary`: the summaries of runs form a monoid;
* `Run`, `CharOffset`, `ByteOffset`, and the dimensions of a text;
* `exact_textSummary`, ..: they add up.
-/

set_option autoImplicit false

namespace Clinch.BufferText

/-- `TextSummary`. -/
@[ext] structure TextSummary where
  chars : ℕ
  bytes : ℕ
  lines : Point
  firstLineLen : ℕ
  rightmostPoint : Point
deriving DecidableEq, Repr

namespace TextSummary

instance : Zero TextSummary := ⟨⟨0, 0, 0, 0, 0⟩⟩

/-- The longest line of two texts, one after the other. -/
def joinRightmost (self other : TextSummary) : Point :=
  let joinedLineLen := self.lines.column + other.firstLineLen
  let rightmostPoint :=
    if joinedLineLen > self.rightmostPoint.column then ⟨self.lines.row, joinedLineLen⟩
    else self.rightmostPoint
  if other.rightmostPoint.column > rightmostPoint.column then self.lines + other.rightmostPoint
  else rightmostPoint

/-- `AddAssign`. -/
instance : Add TextSummary :=
  ⟨fun self other =>
    { chars := self.chars + other.chars
      bytes := self.bytes + other.bytes
      lines := self.lines + other.lines
      firstLineLen :=
        if self.lines.row = 0 then self.firstLineLen + other.firstLineLen else self.firstLineLen
      rightmostPoint := self.joinRightmost other }⟩

/-- The summary of some text: the longest line, the first one of its length, is no shorter than the
first and the last line. -/
structure WellFormed (s : TextSummary) : Prop where
  firstLine : s.lines.row = 0 → s.firstLineLen = s.lines.column
  first_le : s.firstLineLen ≤ s.rightmostPoint.column
  last_le : s.lines.column ≤ s.rightmostPoint.column
  rightmost_first : s.rightmostPoint.row = 0 ↔ s.rightmostPoint.column = s.firstLineLen
  row_le : s.rightmostPoint.row ≤ s.lines.row

variable {a b c : TextSummary}

@[simp] theorem add_chars : (a + b).chars = a.chars + b.chars := rfl

@[simp] theorem add_bytes : (a + b).bytes = a.bytes + b.bytes := rfl

@[simp] theorem add_lines : (a + b).lines = a.lines + b.lines := rfl

theorem add_firstLineLen : (a + b).firstLineLen =
    if a.lines.row = 0 then a.firstLineLen + b.firstLineLen else a.firstLineLen := rfl

/-- The longest line of two texts is one of theirs, or the joined line. -/
theorem add_longest (hb : b.rightmostPoint.row = 0 → b.rightmostPoint.column = b.firstLineLen) :
    (a + b).rightmostPoint.column =
      max (max a.rightmostPoint.column (a.lines.column + b.firstLineLen))
        b.rightmostPoint.column := by
  change (a.joinRightmost b).column = _
  simp only [joinRightmost]
  split <;> split <;> simp only [Point.add_column, gt_iff_lt] at * <;> grind

theorem add_rightmostPoint_column (hb : b.WellFormed) : (a + b).rightmostPoint.column =
    max (max a.rightmostPoint.column (a.lines.column + b.firstLineLen))
      b.rightmostPoint.column := add_longest hb.rightmost_first.mp

theorem add_rightmostPoint_row : (a + b).rightmostPoint.row =
    if max a.rightmostPoint.column (a.lines.column + b.firstLineLen) < b.rightmostPoint.column then
      a.lines.row + b.rightmostPoint.row
    else if a.rightmostPoint.column < a.lines.column + b.firstLineLen then a.lines.row
    else a.rightmostPoint.row := by
  change (a.joinRightmost b).row = _
  simp only [joinRightmost]
  split <;> split <;> simp only [Point.add_row, gt_iff_lt] at * <;> grind

theorem WellFormed.add (ha : a.WellFormed) (hb : b.WellFormed) : (a + b).WellFormed := by
  obtain ⟨a₁, a₂, a₃, a₄, a₅⟩ := ha
  obtain ⟨b₁, b₂, b₃, b₄, b₅⟩ := id hb
  constructor
  · simp only [add_lines, add_firstLineLen, Point.add_row, Point.add_column]
    grind
  · rw [add_rightmostPoint_column hb, add_firstLineLen]
    grind
  · rw [add_rightmostPoint_column hb, add_lines, Point.add_column]
    grind
  · rw [add_rightmostPoint_column hb, add_rightmostPoint_row, add_firstLineLen]
    grind
  · rw [add_rightmostPoint_row, add_lines, Point.add_row]
    grind

/-! ### The longest of some lines -/

/-- The first of the longest of two lines. -/
def longer (p q : Point) : Point := if p.column < q.column then q else p

/-- The line of a text that is behind `n` other lines. -/
def below (n : ℕ) (p : Point) : Point := ⟨n + p.row, p.column⟩

theorem longer_assoc (p q r : Point) : longer (longer p q) r = longer p (longer q r) := by
  unfold longer
  grind

theorem longer_absorb {p q : Point} (h : q.column ≤ p.column) : longer p q = p :=
  if_neg (Nat.not_lt.2 h)

/-- A line that is replaced by a longer one. -/
theorem longer_row (p : Point) (n : ℕ) {k l : ℕ} (h : k ≤ l) :
    longer (longer p ⟨n, k⟩) ⟨n, l⟩ = longer p ⟨n, l⟩ := by
  have hrow : longer ⟨n, k⟩ ⟨n, l⟩ = ⟨n, l⟩ := by
    unfold longer
    split
    · rfl
    · exact Point.ext rfl (by simp_all; omega)
  rw [longer_assoc, hrow]

/-- A line that is not longer than a line before it. -/
theorem longer_longer_absorb (p : Point) {q r : Point} (h : r.column ≤ q.column) :
    longer (longer p q) r = longer p q := by
  rw [longer_assoc, longer_absorb h]

theorem below_longer (n : ℕ) (p q : Point) :
    below n (longer p q) = longer (below n p) (below n q) :=
  apply_ite (below n) _ _ _

theorem below_below (m n : ℕ) (p : Point) : below m (below n p) = below (m + n) p :=
  Point.ext (Nat.add_assoc m n p.row).symm rfl

/-- **The longest line of two texts**: one of the first, the joined line, or one of the second. -/
theorem add_rightmostPoint (hb : b.WellFormed) : (a + b).rightmostPoint =
    longer (longer a.rightmostPoint ⟨a.lines.row, a.lines.column + b.firstLineLen⟩)
      (below a.lines.row b.rightmostPoint) := by
  have hfirst := hb.rightmost_first.mp
  ext
  · rw [add_rightmostPoint_row]
    unfold longer below
    grind
  · rw [add_rightmostPoint_column hb]
    unfold longer below
    grind

theorem assoc (hb : b.WellFormed) (hc : c.WellFormed) : a + b + c = a + (b + c) := by
  have hrightmost : (a + b + c).rightmostPoint = (a + (b + c)).rightmostPoint := by
    rw [add_rightmostPoint hc, add_rightmostPoint hb, add_rightmostPoint (hb.add hc),
      add_rightmostPoint hc, below_longer, below_longer, below_below, add_lines, add_firstLineLen,
      Point.add_row, Point.add_column]
    by_cases hrow : b.lines.row = 0
    · -- the only line of `b` is joined with a line of `a` and with one of `c`
      have hlen := hb.firstLine hrow
      have hrightmost : b.rightmostPoint.row = 0 := Nat.le_zero.1 (hrow ▸ hb.row_le)
      have hbelow : below a.lines.row b.rightmostPoint = ⟨a.lines.row, b.firstLineLen⟩ :=
        Point.ext (congrArg (a.lines.row + ·) hrightmost) (hb.rightmost_first.mp hrightmost)
      have hjoined : below a.lines.row ⟨0, b.firstLineLen + c.firstLineLen⟩ =
          ⟨a.lines.row, b.firstLineLen + c.firstLineLen⟩ := rfl
      rw [if_pos hrow, if_pos hrow, hbelow, hrow, Nat.add_zero, ← hlen, hjoined]
      simp only [← longer_assoc]
      congr 1
      have hleft : b.firstLineLen ≤ a.lines.column + b.firstLineLen := Nat.le_add_left _ _
      have hright : b.firstLineLen + c.firstLineLen ≤
          a.lines.column + (b.firstLineLen + c.firstLineLen) := Nat.le_add_left _ _
      rw [longer_longer_absorb a.rightmostPoint hleft,
        longer_row _ _ (Nat.le_add_right _ c.firstLineLen), Nat.add_assoc,
        longer_longer_absorb a.rightmostPoint ((Nat.le_add_right _ _).trans hright),
        longer_longer_absorb a.rightmostPoint hright]
    · rw [if_neg hrow, if_neg hrow, longer_assoc, longer_assoc, longer_assoc]
      simp only [below, longer_assoc]
  have hlines : (a + b + c).lines = (a + (b + c)).lines := add_assoc a.lines b.lines c.lines
  ext
  · exact Nat.add_assoc _ _ _
  · exact Nat.add_assoc _ _ _
  · exact congrArg Point.row hlines
  · exact congrArg Point.column hlines
  · simp only [add_firstLineLen, add_lines, Point.add_row]
    grind
  · exact congrArg Point.row hrightmost
  · exact congrArg Point.column hrightmost

theorem zero_wellFormed : (0 : TextSummary).WellFormed :=
  ⟨fun _ => rfl, le_rfl, le_rfl, iff_of_true rfl rfl, le_rfl⟩

theorem empty_add (ha : a.WellFormed) : 0 + a = a := by
  have h₁ := ha.first_le
  have h₂ := ha.rightmost_first
  have hrow : (0 + a).rightmostPoint.row = if 0 + a.firstLineLen < a.rightmostPoint.column then
      0 + a.rightmostPoint.row else 0 := by
    rw [add_rightmostPoint_row, show (0 : TextSummary).rightmostPoint.column = 0 from rfl,
      show (0 : TextSummary).lines = 0 from rfl, Point.zero_column, Point.zero_row, Nat.zero_max,
      show (0 : TextSummary).rightmostPoint.row = 0 from rfl, ite_self]
  have hcolumn : (0 + a).rightmostPoint.column =
      max (max 0 (0 + a.firstLineLen)) a.rightmostPoint.column := add_rightmostPoint_column ha
  ext
  · exact Nat.zero_add _
  · exact Nat.zero_add _
  · exact congrArg Point.row (zero_add a.lines)
  · exact congrArg Point.column (zero_add a.lines)
  · exact Nat.zero_add _
  · rw [hrow]
    split <;> omega
  · rw [hcolumn]
    omega

theorem add_empty (ha : a.WellFormed) : a + 0 = a := by
  have h₁ := ha.last_le
  have hrow : (a + 0).rightmostPoint.row = if a.rightmostPoint.column < a.lines.column + 0 then
      a.lines.row else a.rightmostPoint.row := by
    rw [add_rightmostPoint_row]
    exact if_neg (Nat.not_lt_zero _)
  have hcolumn : (a + 0).rightmostPoint.column =
      max (max a.rightmostPoint.column (a.lines.column + 0)) 0 :=
    add_rightmostPoint_column zero_wellFormed
  ext
  · rfl
  · rfl
  · exact congrArg Point.row (add_zero a.lines)
  · exact congrArg Point.column (add_zero a.lines)
  · exact ite_self _
  · rw [hrow, if_neg (by omega)]
  · rw [hcolumn]
    omega

end TextSummary

/-- The summaries of runs. -/
abbrev RunSummary := { s : TextSummary // s.WellFormed }

instance : Zero RunSummary := ⟨⟨0, TextSummary.zero_wellFormed⟩⟩

instance : Add RunSummary := ⟨fun a b => ⟨a.1 + b.1, a.2.add b.2⟩⟩

instance : AddMonoid RunSummary where
  add_assoc a b c := Subtype.ext (TextSummary.assoc b.2 c.2)
  zero_add a := Subtype.ext (TextSummary.empty_add a.2)
  add_zero a := Subtype.ext (TextSummary.add_empty a.2)
  nsmul := nsmulRec

/-- `Run`. -/
inductive Run
  | newline
  | chars (len charSize : ℕ)
deriving DecidableEq, Repr

namespace Run

/-- `Item::summary` of a run. -/
def textSummary : Run → TextSummary
  | .newline =>
    { chars := 1
      bytes := 1
      lines := ⟨1, 0⟩
      firstLineLen := 0
      rightmostPoint := ⟨0, 0⟩ }
  | .chars len charSize =>
    { chars := len
      bytes := len * charSize
      lines := ⟨0, len⟩
      firstLineLen := len
      rightmostPoint := ⟨0, len⟩ }

theorem textSummary_wellFormed (run : Run) : run.textSummary.WellFormed := by
  cases run with
  | newline => exact ⟨fun h => (nomatch h), le_rfl, le_rfl, iff_of_true rfl rfl, Nat.zero_le _⟩
  | chars len charSize => exact ⟨fun _ => rfl, le_rfl, le_rfl, iff_of_true rfl rfl, le_rfl⟩

/-- `Run::char_size`. -/
def charSize : Run → ℕ
  | .newline => 1
  | .chars _ charSize => charSize

end Run

instance : Item Run RunSummary := ⟨fun run => ⟨run.textSummary, run.textSummary_wellFormed⟩⟩

/-! ## The dimensions of a text -/

/-- `CharOffset`, as a dimension. -/
@[ext] structure CharOffset where
  asUsize : ℕ

/-- `ByteOffset`, as a dimension. -/
@[ext] structure ByteOffset where
  asUsize : ℕ

instance : LinearOrder CharOffset := LinearOrder.lift' CharOffset.asUsize fun _ _ => CharOffset.ext

instance : LinearOrder ByteOffset := LinearOrder.lift' ByteOffset.asUsize fun _ _ => ByteOffset.ext

instance : Dimension TextSummary RunSummary := ⟨0, fun d s => d + s.1⟩

instance : Dimension Point RunSummary := ⟨0, fun d s => d + s.1.lines⟩

instance : Dimension CharOffset RunSummary := ⟨⟨0⟩, fun d s => ⟨d.asUsize + s.1.chars⟩⟩

instance : Dimension ByteOffset RunSummary := ⟨⟨0⟩, fun d s => ⟨d.asUsize + s.1.bytes⟩⟩

/-- The sum over some runs. -/
def summaryOf (runs : List Run) : TextSummary := (runs.map Item.summary : List RunSummary).sum.1

theorem summaryOf_wellFormed (runs : List Run) : (summaryOf runs).WellFormed := Subtype.property _

@[simp] theorem summaryOf_nil : summaryOf [] = 0 := rfl

@[simp] theorem summaryOf_cons (run : Run) (runs : List Run) :
    summaryOf (run :: runs) = run.textSummary + summaryOf runs := rfl

theorem summaryOf_append (xs ys : List Run) :
    summaryOf (xs ++ ys) = summaryOf xs + summaryOf ys := by
  rw [summaryOf, List.map_append, List.sum_append]
  rfl

theorem exact_textSummary : ExactDimension Run TextSummary :=
  .of_add (fun _ a b => TextSummary.assoc a.2 b.2) (TextSummary.empty_add TextSummary.zero_wellFormed)

theorem exact_point : ExactDimension Run Point := .of_add (fun _ _ _ => add_assoc _ _ _) rfl

theorem exact_charOffset : ExactDimension Run CharOffset :=
  .of_add (fun _ _ _ => CharOffset.ext (Nat.add_assoc _ _ _)) rfl

theorem exact_byteOffset : ExactDimension Run ByteOffset :=
  .of_add (fun _ _ _ => ByteOffset.ext (Nat.add_assoc _ _ _)) rfl

variable (runs : List Run)

theorem measure_textSummary : measure TextSummary runs = summaryOf runs :=
  (exact_textSummary.measure_eq runs).trans (TextSummary.empty_add (summaryOf_wellFormed runs))

theorem measure_point : measure Point runs = (summaryOf runs).lines :=
  (exact_point.measure_eq runs).trans (zero_add _)

theorem measure_charOffset : measure CharOffset runs = ⟨(summaryOf runs).chars⟩ :=
  (exact_charOffset.measure_eq runs).trans (CharOffset.ext (Nat.zero_add _))

theorem measure_byteOffset : measure ByteOffset runs = ⟨(summaryOf runs).bytes⟩ :=
  (exact_byteOffset.measure_eq runs).trans (ByteOffset.ext (Nat.zero_add _))

end Clinch.BufferText
