import Clinch.Whitespace

/-!
# The lexer of the simple parser

`crates/warp_completer/src/parsers/simple/lexer.rs` and `token.rs`. A position is a number of bytes.
The fuel bounds the calls; `lexFuel` is enough for a source.

* `Span`, `Span.slice`, `Token`, `Token.asStr`;
* `Lexer`, `step`, `peek`, `classifyNext`, `next`, `lex`;
* `slice_append`, `dropBytes_append`.
-/

set_option autoImplicit false

namespace Clinch.SimpleParser

/-- The number of bytes of a text. -/
def width (text : List Char) : ℕ := (text.map Char.utf8Size).sum

/-- `&text[n..]`. -/
def dropBytes : ℕ → List Char → List Char
  | 0, text => text
  | _ + 1, [] => []
  | n + 1, c :: text => dropBytes (n + 1 - c.utf8Size) text

/-- `&text[..n]`. -/
def takeBytes : ℕ → List Char → List Char
  | 0, _ => []
  | _ + 1, [] => []
  | n + 1, c :: text => c :: takeBytes (n + 1 - c.utf8Size) text

structure Span where
  start : ℕ
  stop : ℕ
deriving DecidableEq

namespace Span

/-- `until`. -/
def upTo (span other : Span) : Span := ⟨span.start, other.stop⟩

def slice (span : Span) (source : List Char) : List Char :=
  takeBytes (span.stop - span.start) (dropBytes span.start source)

end Span

structure Spanned (α : Type) where
  item : α
  span : Span
deriving DecidableEq

inductive EscapeChar
  | backslash
  | backtick
deriving DecidableEq

def EscapeChar.char : EscapeChar → Char
  | backslash => '\\'
  | backtick => '`'

def EscapeChar.isChar (escapeChar : EscapeChar) (c : Char) : Bool := c = escapeChar.char

inductive Token
  | literal (value : List Char)
  | whitespace (value : List Char)
  | pipe
  | logicalOr
  | ampersand
  | logicalAnd
  | semicolon
  | newline
  | backtick
  | openParen
  | closeParen
  | openCurly
  | closeCurly
  | dollar
  | singleQuote
  | doubleQuote
  | escapeChar (value : List Char)
  | redirectInput
  | redirectOutput
deriving DecidableEq

/-- The apostrophe. -/
def quote : Char := Char.ofNat 39

def Token.asStr : Token → List Char
  | literal value | whitespace value | escapeChar value => value
  | pipe => ['|']
  | logicalOr => ['|', '|']
  | ampersand => ['&']
  | logicalAnd => ['&', '&']
  | semicolon => [';']
  | newline => ['\n']
  | backtick => ['`']
  | openParen => ['(']
  | closeParen => [')']
  | openCurly => ['\x7b']
  | closeCurly => ['\x7d']
  | dollar => ['$']
  | singleQuote => [quote]
  | doubleQuote => ['"']
  | redirectInput => ['<']
  | redirectOutput => ['>']

inductive Classified
  | token (token : Spanned Token)
  | raw (chr : Spanned Char)
  | escaped (escapeChar : Spanned Token) (nextToken : Option (Spanned Token))

structure Lexer where
  source : List Char
  escapeChar : EscapeChar
  pos : ℕ
  queued : Option Classified
  parseQuotesAsLiterals : Bool

namespace Lexer

/-- `Lexer::new`. -/
def new (source : List Char) (escapeChar : EscapeChar) (parseQuotesAsLiterals : Bool) : Lexer :=
  ⟨source, escapeChar, 0, none, parseQuotesAsLiterals⟩

def peek (lexer : Lexer) : Option (Span × Char) :=
  match dropBytes lexer.pos lexer.source with
  | [] => none
  | chr :: _ => some (⟨lexer.pos, lexer.pos + chr.utf8Size⟩, chr)

def step (lexer : Lexer) : Option ((Span × Char) × Lexer) :=
  lexer.peek.map fun (span, chr) => ((span, chr), { lexer with pos := span.stop })

/-- The token of a character that is one by itself. -/
def single (parseQuotesAsLiterals : Bool) (chr : Char) : Option Token :=
  match chr with
  | ';' => some .semicolon
  | '\n' => some .newline
  | '(' => some .openParen
  | ')' => some .closeParen
  | '\x7b' => some .openCurly
  | '\x7d' => some .closeCurly
  | '$' => some .dollar
  | '"' => if parseQuotesAsLiterals then none else some .doubleQuote
  | '<' => some .redirectInput
  | '>' => some .redirectOutput
  | chr => if chr = quote && !parseQuotesAsLiterals then some .singleQuote else none

/-- The rest of a run of whitespace. -/
def whitespaceRun : ℕ → Span → Lexer → Span × Lexer
  | 0, span, lexer => (span, lexer)
  | fuel + 1, span, lexer =>
    match lexer.peek with
    | some (nextSpan, nextChr) =>
      if isWhitespace nextChr && nextChr ≠ '\n' then
        whitespaceRun fuel (span.upTo nextSpan) { lexer with pos := nextSpan.stop }
      else (span, lexer)
    | none => (span, lexer)

mutual

/-- The arms of the operators of one or two equal characters. -/
def operator (fuel : ℕ) (chr : Char) (twice once : Token) (span : Span) (lexer : Lexer) :
    Option Classified × Lexer :=
  match fuel with
  | 0 => (none, lexer)
  | fuel + 1 =>
    match lexer.peek with
    | some (next, c) =>
      if c = chr then
        -- the token is dropped, and it can be longer than one character
        let (_, lexer) := lexer.next fuel
        (some (.token ⟨twice, span.upTo next⟩), lexer)
      else (some (.token ⟨once, span⟩), lexer)
    | none => (some (.token ⟨once, span⟩), lexer)

def classifyNext (lexer : Lexer) (fuel : ℕ) : Option Classified × Lexer :=
  match fuel with
  | 0 => (none, lexer)
  | fuel + 1 =>
    match lexer.queued with
    | some classified => (some classified, { lexer with queued := none })
    | none =>
      match lexer.step with
      | none => (none, lexer)
      | some ((span, chr), lexer) =>
        if chr = '|' then operator fuel '|' .logicalOr .pipe span lexer
        else if chr = '&' then operator fuel '&' .logicalAnd .ampersand span lexer
        else match single lexer.parseQuotesAsLiterals chr with
        | some token => (some (.token ⟨token, span⟩), lexer)
        | none =>
          if lexer.escapeChar.isChar chr then
            let escapeChar : Spanned Token := ⟨.escapeChar (span.slice lexer.source), span⟩
            match lexer.step with
            | none => (some (.escaped escapeChar none), lexer)
            | some ((span, _), stepped) =>
              let (token, _) := (Lexer.new (span.slice lexer.source) lexer.escapeChar
                lexer.parseQuotesAsLiterals).next fuel
              let nextToken := token.map fun token => { token with
                span := ⟨token.span.start + lexer.pos, token.span.stop + lexer.pos⟩ }
              (some (.escaped escapeChar nextToken), stepped)
          else if chr = '`' then (some (.token ⟨.backtick, span⟩), lexer)
          else if isWhitespace chr then
            let (span, lexer) := whitespaceRun fuel span lexer
            (some (.token ⟨.whitespace (span.slice lexer.source), span⟩), lexer)
          else (some (.raw ⟨chr, span⟩), lexer)

/-- The loop of `next` over the characters of a literal. -/
def rawRun (fuel : ℕ) (span : Span) (lexer : Lexer) : Span × Lexer :=
  match fuel with
  | 0 => (span, lexer)
  | fuel + 1 =>
    match lexer.classifyNext fuel with
    | (some (.raw chr), lexer) => rawRun fuel (span.upTo chr.span) lexer
    | (other, lexer) => (span, { lexer with queued := other })

def next (lexer : Lexer) (fuel : ℕ) : Option (Spanned Token) × Lexer :=
  match fuel with
  | 0 => (none, lexer)
  | fuel + 1 =>
    match lexer.classifyNext fuel with
    | (none, lexer) => (none, lexer)
    | (some (.token t), lexer) => (some t, lexer)
    | (some (.escaped escapeChar nextToken), lexer) =>
      (some escapeChar, { lexer with queued := nextToken.map .token })
    | (some (.raw chr), lexer) =>
      let (span, lexer) := rawRun fuel chr.span lexer
      (some ⟨.literal (span.slice lexer.source), span⟩, lexer)

end

/-- The tokens of the iterator. -/
def collect (fuel : ℕ) : ℕ → Lexer → List (Spanned Token)
  | 0, _ => []
  | n + 1, lexer =>
    match lexer.next fuel with
    | (none, _) => []
    | (some token, lexer) => token :: collect fuel n lexer

end Lexer

/-- Enough fuel for a call. -/
def lexFuel (source : List Char) : ℕ := 3 * source.length + 3

/-- The tokens of a source. -/
def lex (source : List Char) (escapeChar : EscapeChar) (parseQuotesAsLiterals : Bool) :
    List (Spanned Token) :=
  (Lexer.new source escapeChar parseQuotesAsLiterals).collect (lexFuel source) source.length

/-! ## Slices -/

@[simp] theorem width_nil : width [] = 0 := rfl

@[simp] theorem width_cons (c : Char) (text : List Char) :
    width (c :: text) = c.utf8Size + width text := by
  simp [width]

@[simp] theorem width_append (a b : List Char) : width (a ++ b) = width a + width b := by
  simp [width]

theorem dropBytes_zero (text : List Char) : dropBytes 0 text = text := by
  cases text <;> rfl

theorem dropBytes_append (a b : List Char) : dropBytes (width a) (a ++ b) = b := by
  induction a with
  | nil => exact dropBytes_zero b
  | cons c a ih =>
    have hpos := c.utf8Size_pos
    rw [width_cons, List.cons_append]
    obtain ⟨n, hn⟩ : ∃ n, c.utf8Size + width a = n + 1 := ⟨c.utf8Size + width a - 1, by omega⟩
    rw [hn, dropBytes, ← hn, Nat.add_sub_cancel_left, ih]

theorem takeBytes_append (a b : List Char) : takeBytes (width a) (a ++ b) = a := by
  induction a with
  | nil => cases b <;> rfl
  | cons c a ih =>
    have hpos := c.utf8Size_pos
    rw [width_cons, List.cons_append]
    obtain ⟨n, hn⟩ : ∃ n, c.utf8Size + width a = n + 1 := ⟨c.utf8Size + width a - 1, by omega⟩
    rw [hn, takeBytes, ← hn, Nat.add_sub_cancel_left, ih]

/-- A slice between two characters. -/
theorem slice_append (a b c : List Char) :
    Span.slice ⟨width a, width a + width b⟩ (a ++ (b ++ c)) = b := by
  unfold Span.slice
  rw [dropBytes_append, Nat.add_sub_cancel_left, takeBytes_append]

end Clinch.SimpleParser
