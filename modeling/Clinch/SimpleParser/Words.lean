import Clinch.SimpleParser.Tiling
import Clinch.SimpleParser.Parser

/-!
# Shell words

A word is written as a list of pieces: plain characters, which neither separate, group, redirect nor
quote, escaped characters, and texts in single or double quotes. No piece starts a substitution or
continues a line.

* `Piece`, `Word`, `CommandLine`: what is written, and what it stands for after quote removal;
* `lost`: the number of characters of a source that no token has, `lost_eq_zero`;
* `Heard`: a text is read, but for the lost characters.
-/

set_option autoImplicit false

namespace Clinch.SimpleParser

inductive Piece
  | plain (c : Char)
  | escaped (c : Char)
  | single (text : List Char)
  | double (text : List Char)
deriving DecidableEq

variable (escapeChar : EscapeChar)

/-- A text between double quotes: no unescaped double quote or backtick, no unescaped `$(`, and no
escaped line break. -/
def doubleText : List Char → Bool
  | [] => true
  | [c] => !escapeChar.isChar c && c ≠ '"' && c ≠ '`'
  | c :: d :: text =>
    if escapeChar.isChar c then d ≠ '\n' && doubleText text
    else c ≠ '"' && c ≠ '`' && !(c = '$' && d = '(') && doubleText (d :: text)

/-- The characters that lose their escape character between double quotes. -/
def unescapedInDouble (d : Char) : Bool := d = '$' || d = '`' || d = '"' || escapeChar.isChar d

def doubleValue : List Char → List Char
  | [] => []
  | [c] => [c]
  | c :: d :: text =>
    if escapeChar.isChar c then
      (if unescapedInDouble escapeChar d then [d] else [c, d]) ++ doubleValue text
    else c :: doubleValue (d :: text)

namespace Piece

def Valid : Piece → Prop
  | plain c => isRaw escapeChar false c = true ∨ c = '$'
  | escaped c => c ≠ '\n'
  | single text => quote ∉ text
  | double text => doubleText escapeChar text = true

instance : (piece : Piece) → Decidable (piece.Valid escapeChar)
  | plain _ => inferInstanceAs (Decidable (_ ∨ _))
  | escaped _ => inferInstanceAs (Decidable (_ ≠ _))
  | single _ => inferInstanceAs (Decidable (¬ _))
  | double _ => inferInstanceAs (Decidable (_ = _))

def written : Piece → List Char
  | plain c => [c]
  | escaped c => [escapeChar.char, c]
  | single text => quote :: text ++ [quote]
  | double text => '"' :: text ++ ['"']

/-- What the piece stands for. The escape character is kept before `~`, and at the start of the name
of a command. -/
def value (atStart : Bool) : Piece → List Char
  | plain c => [c]
  | escaped c => if c = '~' || atStart then [escapeChar.char, c] else [c]
  | single text => text
  | double text => doubleValue escapeChar text

end Piece

def writtenAll (pieces : List Piece) : List Char := pieces.flatMap (Piece.written escapeChar)

def valueOf (atStart : Bool) : List Piece → List Char
  | [] => []
  | piece :: pieces => piece.value escapeChar atStart ++ valueOf false pieces

structure Word where
  pieces : List Piece
  nonempty : pieces ≠ []
  valid : ∀ piece ∈ pieces, piece.Valid escapeChar

/-- A command with its arguments, each after a blank, and with blanks around. -/
structure CommandLine where
  lead : List Char
  name : Word escapeChar
  args : List (List Char × Word escapeChar)
  trail : List Char
  lead_blank : ∀ c ∈ lead, isBlank c = true
  args_blank : ∀ arg ∈ args, arg.1 ≠ [] ∧ ∀ c ∈ arg.1, isBlank c = true
  trail_blank : ∀ c ∈ trail, isBlank c = true

variable {escapeChar}

def writtenArgs (args : List (List Char × Word escapeChar)) : List Char :=
  args.flatMap fun arg => arg.1 ++ writtenAll escapeChar arg.2.pieces

/-- The values of the arguments, with their spans from a position. -/
def expectedArgs : ℕ → List (List Char × Word escapeChar) → List (List Char × Span)
  | _, [] => []
  | p, (blank, word) :: args =>
    let stop := p + width blank + width (writtenAll escapeChar word.pieces)
    (valueOf escapeChar false word.pieces, ⟨p + width blank, stop⟩) :: expectedArgs stop args

namespace CommandLine

def written (line : CommandLine escapeChar) : List Char :=
  line.lead ++ (writtenAll escapeChar line.name.pieces ++ (writtenArgs line.args ++ line.trail))

/-- The words after quote removal, with the spans of the words as written. -/
def expected (line : CommandLine escapeChar) : List (List Char × Span) :=
  let stop := width line.lead + width (writtenAll escapeChar line.name.pieces)
  (valueOf escapeChar true line.name.pieces, ⟨width line.lead, stop⟩) ::
    expectedArgs stop line.args

/-- The parser returns one command, whose parts have the values and the spans of the words. -/
def ReadBack (line : CommandLine escapeChar) (result : ParsedResult) : Prop :=
  ∃ parts span, result.commands = [⟨.new parts, span⟩] ∧
    parts.map (fun part => (part.item.value, part.span)) = line.expected

end CommandLine

/-! ## Lost characters -/

/-- The characters that are consumed for a token but are not in it. -/
def Lexeme.lost (l : Lexeme) : ℕ := l.chars.length - l.token.asStr.length

def lost (escapeChar : EscapeChar) (source : List Char) : ℕ :=
  ((lexemes escapeChar false source).map Lexeme.lost).sum

theorem lost_eq_zero (source : List Char) :
    lost escapeChar source = 0 ↔ swallows escapeChar source = false := by
  rw [← full_iff false, lost, List.sum_eq_zero_iff]
  constructor
  · intro h l hl
    have hprefix := prefix_of_mem hl
    have hlost := h l.lost (List.mem_map_of_mem hl)
    unfold Lexeme.lost at hlost
    exact hprefix.eq_of_length_le (by omega)
  · intro h n hn
    obtain ⟨l, hl, rfl⟩ := List.mem_map.1 hn
    rw [Lexeme.lost, show l.token.asStr = l.chars from h l hl, Nat.sub_self]

/-- A text is read as a value, with that many characters lost. -/
structure Heard (n : ℕ) (text value : List Char) : Prop where
  length : value.length + n = text.length
  eq : n = 0 → value = text

namespace Heard

variable {n m : ℕ} {text value text' value' : List Char}

theorem rfl' : Heard 0 text text := ⟨rfl, fun _ => rfl⟩

theorem append (h : Heard n text value) (h' : Heard m text' value') :
    Heard (n + m) (text ++ text') (value ++ value') := by
  refine ⟨?_, fun e => ?_⟩
  · have h := h.length
    have h' := h'.length
    simp only [List.length_append]
    omega
  · rw [h.eq (by omega), h'.eq (by omega)]

/-- The value is the text if nothing is lost, and only then. -/
theorem eq_iff (h : Heard n text value) : value = text ↔ n = 0 := by
  refine ⟨fun e => ?_, h.eq⟩
  have hlen := h.length
  rw [e] at hlen
  omega

end Heard

end Clinch.SimpleParser
