import Mathlib

/-!
# Cells

`model/grid/cell.rs` and `model/grid/cell_type.rs`.

* `Flags`: the bit flags of a cell;
* `Color`, `Cell`: a cell of the grid, its content and its attributes;
* `CellType`: what a cell is to a double-width character.
-/

set_option autoImplicit false

namespace Clinch

/-! ## Flags -/

/-- The bits of `Flags`. -/
inductive Flag where
  | inverse
  | bold
  | italic
  | underline
  | wrapline
  | wideChar
  | wideCharSpacer
  | dim
  | hidden
  | strikeout
  | leadingWideCharSpacer
  | doubleUnderline
  | hasCursor
  deriving DecidableEq

/-- All the bits, the lowest first. -/
def Flag.all : List Flag :=
  [.inverse, .bold, .italic, .underline, .wrapline, .wideChar, .wideCharSpacer, .dim, .hidden,
    .strikeout, .leadingWideCharSpacer, .doubleUnderline, .hasCursor]

theorem Flag.mem_all (f : Flag) : f ∈ Flag.all := by
  cases f <;> decide

/-- `Flags`: a set of bits. -/
@[ext] structure Flags where
  has : Flag → Bool

namespace Flags

theorem eq_iff {a b : Flags} : (∀ f ∈ Flag.all, a.has f = b.has f) ↔ a = b := by
  constructor
  · intro h
    ext f
    exact h f (Flag.mem_all f)
  · rintro rfl f _
    rfl

instance : DecidableEq Flags := fun _ _ => decidable_of_iff _ eq_iff

/-- `Flags::empty`. -/
def empty : Flags := ⟨fun _ => false⟩

/-- The union of the given bits. -/
def ofBits (bits : List Flag) : Flags := ⟨fun f => decide (f ∈ bits)⟩

/-- `insert`. -/
def insert (flags : Flags) (f : Flag) : Flags := ⟨fun g => decide (g = f) || flags.has g⟩

/-- `remove`. -/
def remove (flags : Flags) (f : Flag) : Flags := ⟨fun g => !decide (g = f) && flags.has g⟩

/-- `intersects` with the union of the given bits. -/
def intersects (flags : Flags) (bits : List Flag) : Bool := bits.any flags.has

/-- `&`. -/
def inter (a b : Flags) : Flags := ⟨fun f => a.has f && b.has f⟩

@[simp] theorem has_empty (f : Flag) : empty.has f = false := rfl

@[simp] theorem has_insert (flags : Flags) (f g : Flag) :
    (flags.insert f).has g = (decide (g = f) || flags.has g) := rfl

@[simp] theorem has_inter (a b : Flags) (f : Flag) :
    (a.inter b).has f = (a.has f && b.has f) := rfl

theorem inter_idem (a b : Flags) : (a.inter b).inter b = a.inter b := by
  ext f
  simp

end Flags

/-! ## Cells -/

/-- `NamedColor`. -/
inductive NamedColor where
  | black | red | green | yellow | blue | magenta | cyan | white
  | brightBlack | brightRed | brightGreen | brightYellow
  | brightBlue | brightMagenta | brightCyan | brightWhite
  | foreground | background | cursor
  | dimBlack | dimRed | dimGreen | dimYellow | dimBlue | dimMagenta | dimCyan | dimWhite
  | brightForeground | dimForeground
  deriving DecidableEq

/-- `Color`. -/
inductive Color where
  | named (color : NamedColor)
  | spec (r g b a : UInt8)
  | indexed (i : UInt8)
  deriving DecidableEq

/-- `DEFAULT_CHAR`, the content of a cell that was never written. -/
def defaultChar : Char := '\x00'

/-- `MAX_GRAPHEME_BYTES`. -/
def maxGraphemeBytes : ℕ := 256

/-- `cell::EndOfPromptMarker`. -/
structure EndOfPromptMarker where
  hasExtraTrailingNewline : Bool
  deriving DecidableEq

/-- `CellExtra`; a string is the list of its characters. -/
structure CellExtra where
  cellWithZeroWidth : Option (List Char)
  endOfPrompt : Option EndOfPromptMarker
  deriving DecidableEq

/-- `Cell`. -/
structure Cell where
  c : Char
  fg : Color
  bg : Color
  flags : Flags
  extra : Option CellExtra
  deriving DecidableEq

namespace Cell

/-- `Cell::default`. -/
def default : Cell :=
  ⟨defaultChar, .named .foreground, .named .background, Flags.empty, none⟩

/-- `From<Color>`: a blank cell of a color. -/
def ofColor (color : Color) : Cell := { default with bg := color }

/-- `ResetDiscriminant::discriminant`. -/
def discriminant (cell : Cell) : Color := cell.bg

/-- `Cell::reset`. -/
def reset (_ template : Cell) : Cell := { default with bg := template.bg }

/-- `raw_content`. -/
def rawContent (cell : Cell) : List Char :=
  (cell.extra.bind CellExtra.cellWithZeroWidth).getD [cell.c]

/-- The number of bytes of a string. -/
def textLen (text : List Char) : ℕ := (text.map Char.utf8Size).sum

/-- `push_zerowidth`: no more characters once the cell holds `MAX_GRAPHEME_BYTES`. -/
def pushZerowidth (cell : Cell) (c : Char) : Cell :=
  let base := if cell.c = defaultChar then ' ' else cell.c
  let extra := cell.extra.getD ⟨none, none⟩
  match extra.cellWithZeroWidth with
  | some zerowidth =>
    if maxGraphemeBytes < textLen zerowidth + c.utf8Size then
      { cell with c := base, extra := some extra }
    else
      { cell with c := base, extra := some { extra with cellWithZeroWidth := zerowidth ++ [c] } }
  | none => { cell with c := base, extra := some { extra with cellWithZeroWidth := [base, c] } }

/-- `end_of_prompt_marker`. -/
def endOfPromptMarker (cell : Cell) : Option EndOfPromptMarker :=
  cell.extra.bind CellExtra.endOfPrompt

/-- `is_end_of_prompt`. -/
def isEndOfPrompt (cell : Cell) : Bool := cell.endOfPromptMarker.isSome

/-- `mark_end_of_prompt`. -/
def markEndOfPrompt (cell : Cell) (hasExtraTrailingNewline : Bool) : Cell :=
  let extra := cell.extra.getD ⟨none, none⟩
  { cell with extra := some { extra with endOfPrompt := some ⟨hasExtraTrailingNewline⟩ } }

/-- `is_empty`. -/
def isEmpty (cell : Cell) : Bool :=
  decide (cell.c = defaultChar) && decide (cell.bg = .named .background) &&
    decide (cell.fg = .named .foreground) &&
    !cell.flags.intersects [.inverse, .underline, .doubleUnderline, .strikeout, .wrapline,
      .wideCharSpacer, .leadingWideCharSpacer, .hasCursor]

@[simp] theorem flags_pushZerowidth (cell : Cell) (c : Char) :
    (cell.pushZerowidth c).flags = cell.flags := by
  unfold pushZerowidth
  dsimp only
  split
  · split
    · rfl
    · rfl
  · rfl

@[simp] theorem flags_markEndOfPrompt (cell : Cell) (b : Bool) :
    (cell.markEndOfPrompt b).flags = cell.flags := rfl

end Cell

/-! ## The type of a cell -/

/-- `CellType`. -/
inductive CellType where
  | regularChar
  | wideChar
  | wideCharSpacer
  | leadingWideCharSpacer
  deriving DecidableEq

/-- `From<&Cell>` for `CellType`. -/
def CellType.ofCell (cell : Cell) : CellType :=
  if !cell.flags.intersects [.wideChar, .wideCharSpacer, .leadingWideCharSpacer] then .regularChar
  else if cell.flags.intersects [.wideChar] then .wideChar
  else if cell.flags.intersects [.wideCharSpacer] then .wideCharSpacer
  else .leadingWideCharSpacer

end Clinch
