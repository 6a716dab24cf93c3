import Clinch.BufferText.Summary

/-!
# The text of a buffer

`app/src/editor/view/model/buffer/text.rs`: a text is a range of a shared string, with a sum tree of
the runs of the whole string. Every query seeks a cursor over the runs and takes the start of the
range away. A string is the list of its characters.

* `runsFrom`, `Text`, `Text.from`, `slice`, `asStr`;
* `absPointForOffset`, `absByteOffsetForOffset`: positions in the whole string;
* `len`, `byteLen`, `lines`, `lineLen`, `rightmostPoint`, `summary`;
* `pointForOffset`, `offsetForPoint`, `byteOffsetForPoint`, `charOffsetForByteOffset`.
-/

set_option autoImplicit false

namespace Clinch.BufferText

open SumTree

/-- The loop of `Text::from`: the runs of the characters, after `runChars` characters of the size
`runCharSize`. -/
def runsFrom : List Char → ℕ → ℕ → List Run
  | [], runCharSize, runChars => if runChars ≠ 0 then [.chars runChars runCharSize] else []
  | ch :: chars, runCharSize, runChars =>
    let chSize := ch.utf8Size
    let finished := runChars ≠ 0 ∧ (ch = '\n' ∨ runCharSize ≠ chSize)
    let runs := if finished then [.chars runChars runCharSize] else []
    let runChars := if finished then 0 else runChars
    if ch = '\n' then runs ++ .newline :: runsFrom chars chSize runChars
    else runs ++ runsFrom chars chSize (runChars + 1)

/-- `Text`; `start..stop` is its range. -/
structure Text where
  text : List Char
  runs : SumTree Run RunSummary
  start : ℕ
  stop : ℕ

/-- `Bound`. -/
inductive Bound
  | included (n : ℕ)
  | excluded (n : ℕ)
  | unbounded

/-- The characters between two byte offsets, as `&text[lo..hi]` finds them. -/
def charsAtByte : List Char → ℕ → Option ℕ
  | _, 0 => some 0
  | [], _ + 1 => none
  | ch :: chars, byte + 1 =>
    if ch.utf8Size ≤ byte + 1 then (charsAtByte chars (byte + 1 - ch.utf8Size)).map (· + 1) else none

/-- `&text[lo..hi]`: both ends are on character boundaries. -/
def strSlice (text : List Char) (lo hi : ℕ) : Result (List Char) :=
  match charsAtByte text lo, charsAtByte text hi with
  | some i, some j => if i ≤ j then .ok ((text.take j).drop i) else .error .bounds
  | _, _ => .error .bounds

/-- Integer division. -/
def checkedDiv (a b : ℕ) : Result ℕ := if b = 0 then .error .assert else .ok (a / b)

/-- `Sub` of points. -/
def Point.checkedSub (p q : Point) : Result Point := do
  debugAssert (q ≤ p)
  return p - q

/-- `Iterator::max_by_key(|p| p.column)`: the last one of the largest. -/
def maxByColumn : List Point → Option Point
  | [] => none
  | p :: points => some (points.foldl (fun best p => if best.column ≤ p.column then p else best) p)

namespace Text

/-- `From<String>`. -/
def «from» (text : List Char) : Result Text := do
  let tree ← SumTree.new.extend (runsFrom text 0 0)
  return { text, runs := tree, start := 0, stop := text.length }

/-- The start of a range of the text, in the whole string. -/
def rangeStart (self : Text) : Bound → Result ℕ
  | .included start => .ok (min (self.start + start) self.stop)
  | .excluded _ => .error .assert
  | .unbounded => .ok self.start

/-- The end of a range of the text, in the whole string. -/
def rangeEnd (self : Text) : Bound → ℕ
  | .included stop => min (self.start + stop + 1) self.stop
  | .excluded stop => min (self.start + stop) self.stop
  | .unbounded => self.stop

/-- `slice`. -/
def slice (self : Text) (lo hi : Bound) : Result Text := do
  return { self with start := ← self.rangeStart lo, stop := self.rangeEnd hi }

/-- `abs_point_for_offset`. -/
def absPointForOffset (self : Text) (offset : ℕ) : Result Point := do
  let cursor : Cursor Run RunSummary CharOffset TextSummary := .new self.runs
  let (cursor, _) ← cursor.seek ⟨offset⟩ .right
  let overshoot ← checkedSub offset cursor.start.chars
  return cursor.start.lines + ⟨0, overshoot⟩

/-- `abs_byte_offset_for_offset`. -/
def absByteOffsetForOffset (self : Text) (offset : ℕ) : Result ℕ := do
  let cursor : Cursor Run RunSummary CharOffset TextSummary := .new self.runs
  let (cursor, _) ← cursor.seek ⟨offset⟩ .right
  let overshoot ← checkedSub offset cursor.start.chars
  return cursor.start.bytes + overshoot * (← cursor.item).elim 0 Run.charSize

/-- `&self[..]`. -/
def asStr (self : Text) : Result (List Char) := do
  let byteStart ← self.absByteOffsetForOffset self.start
  let byteEnd ← self.absByteOffsetForOffset self.stop
  strSlice self.text byteStart byteEnd

def len (self : Text) : Result ℕ := checkedSub self.stop self.start

def byteLen (self : Text) : Result ℕ := do return ((← self.asStr).map Char.utf8Size).sum

def lines (self : Text) : Result Point := do
  (← self.absPointForOffset self.stop).checkedSub (← self.absPointForOffset self.start)

def lineLen (self : Text) (row : ℕ) : Result ℕ := do
  let cursor : Cursor Run RunSummary CharOffset Point := .new self.runs
  let (cursor, _) ← cursor.seek ⟨self.start⟩ .right
  let absoluteRow := cursor.start.row + row
  let cursor : Cursor Run RunSummary Point CharOffset := .new self.runs
  let (cursor, _) ← cursor.seek ⟨absoluteRow, 0⟩ .right
  let prefixLen := self.start - cursor.start.asUsize
  let (cursor, lineLen) ← cursor.summaryTo CharOffset ⟨absoluteRow + 1, 0⟩ .left
  let suffixLen := cursor.start.asUsize - self.stop
  return lineLen.asUsize - prefixLen - suffixLen

/-- The longest line that is neither the first nor the last one. -/
def rightmostMiddle (self : Text) (lines : Point) : Result Point := do
  let cursor : Cursor Run RunSummary CharOffset Point := .new self.runs
  let (cursor, _) ← cursor.seek ⟨self.start⟩ .right
  let absoluteStartRow := cursor.start.row
  let cursor : Cursor Run RunSummary Point CharOffset := .new self.runs
  let (cursor, _) ← cursor.seek ⟨absoluteStartRow + 1, 0⟩ .right
  let (_, summary) ← cursor.summaryTo TextSummary ⟨absoluteStartRow + lines.row, 0⟩ .left
  return ⟨1, 0⟩ + summary.rightmostPoint

def rightmostPoint (self : Text) : Result Point := do
  let lines ← self.lines
  let first ← if lines.row > 0 then (self.lineLen 0).map fun len => [⟨0, len⟩] else .ok []
  let middle ← if lines.row > 1 then (self.rightmostMiddle lines).map fun p => [p] else .ok []
  unwrap (maxByColumn (lines :: first ++ middle))

def pointForOffset (self : Text) (offset : ℕ) : Result Point := do
  (← self.absPointForOffset (self.start + offset)).checkedSub
    (← self.absPointForOffset self.start)

def offsetForPoint (self : Text) (point : Point) : Result ℕ := do
  let cursor : Cursor Run RunSummary Point TextSummary := .new self.runs
  let absPoint := (← self.absPointForOffset self.start) + point
  let (cursor, _) ← cursor.seek absPoint .right
  let overshoot ← absPoint.checkedSub cursor.start.lines
  let absOffset := cursor.start.chars + overshoot.column
  checkedSub absOffset self.start

def byteOffsetForPoint (self : Text) (point : Point) : Result ℕ := do
  let characterOffset ← self.offsetForPoint point
  let numBytesToPoint ← self.absByteOffsetForOffset (characterOffset + self.start)
  let numBytesToStart ← self.absByteOffsetForOffset self.start
  checkedSub numBytesToPoint numBytesToStart

def summary (self : Text) : Result TextSummary := do
  return {
    chars := ← checkedSub self.stop self.start
    bytes := ← checkedSub (← self.absByteOffsetForOffset self.stop)
      (← self.absByteOffsetForOffset self.start)
    lines := ← (← self.absPointForOffset self.stop).checkedSub
      (← self.absPointForOffset self.start)
    firstLineLen := ← self.lineLen 0
    rightmostPoint := ← self.rightmostPoint }

def charOffsetForByteOffset (self : Text) (byteOffset : ℕ) : Result ℕ := do
  let cursor : Cursor Run RunSummary ByteOffset TextSummary := .new self.runs
  let absByteOffset := (← self.absByteOffsetForOffset self.start) + byteOffset
  let (cursor, _) ← cursor.seek ⟨absByteOffset⟩ .right
  let overshoot ← checkedSub absByteOffset cursor.start.bytes
  let absoluteChars := cursor.start.chars +
    (← checkedDiv overshoot ((← cursor.item).elim 1 Run.charSize))
  checkedSub absoluteChars self.start

end Text

end Clinch.BufferText
