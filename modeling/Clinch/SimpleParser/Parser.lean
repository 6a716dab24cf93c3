import Clinch.SimpleParser.Lexer

/-!
# The simple parser

`crates/warp_completer/src/parsers/simple/parser.rs` and `iter.rs`. The tokens that are still to be
read are a list, of which the first two can be peeked at. The fuel bounds the calls and the rounds
of the loops; `parseFuel` is what `parse` starts with.

* `Part`, `Command`, `Part.value`;
* `ParserInput`, `Parser`, `PartBuilder`;
* `parseCommandList`, `parseCommand`, `parsePart`, `parseBacktickedSubshell`,
  `parseDollarSubshell`, `parseDoubleQuotedPart`, `parseSingleQuotedPart`, `parse`.
-/

set_option autoImplicit false

namespace Clinch.SimpleParser

mutual

inductive Part
  | literal (value : List Char)
  | openSubshell (commands : List (Spanned Command))
  | closedSubshell (commands : List (Spanned Command))
  | concatenated (parts : List (Spanned Part))

inductive Command
  | new (parts : List (Spanned Part))

end

def Command.parts : Command → List (Spanned Part)
  | new parts => parts

mutual

/-- `Display` of a part. -/
def Part.value : Part → List Char
  | .literal value => value
  | .openSubshell _ => "$(...)".toList
  | .closedSubshell _ => "$(...)".toList
  | .concatenated parts => valueAll parts

def valueAll : List (Spanned Part) → List Char
  | [] => []
  | ⟨part, _⟩ :: parts => part.value ++ valueAll parts

end

/-! ## The input -/

structure ParserInput where
  tokens : List (Spanned Token)
  pos : ℕ
  offset : ℕ

namespace ParserInput

/-- `ParserInput::new`. -/
def new (tokens : List (Spanned Token)) : ParserInput := ⟨tokens, 0, 0⟩

/-- `next`, without the token. -/
def advance (input : ParserInput) : ParserInput :=
  match input.tokens with
  | [] => input
  | token :: tokens => { input with tokens, pos := input.offset + token.span.stop }

def peek (input : ParserInput) : Option Token := input.tokens.head?.map (·.item)

def peekpeek (input : ParserInput) : Option Token := input.tokens.tail.head?.map (·.item)

def isBacktick (token : Spanned Token) : Bool := token.item = .backtick

/-- The input up to the next backtick, and the input from there. -/
def untilBacktick (input : ParserInput) : ParserInput × ParserInput :=
  let buffer := input.tokens.takeWhile fun token => !isBacktick token
  ({ input with tokens := buffer },
    { input with
      tokens := input.tokens.dropWhile fun token => !isBacktick token
      pos := (buffer.getLast?.map fun token => input.offset + token.span.stop).getD input.pos })

end ParserInput

/-! ## The builder of a part -/

structure PartBuilder where
  start : ℕ
  buffer : List Char
  bufferStart : ℕ
  subParts : List (Spanned Part)

namespace PartBuilder

def new (start : ℕ) : PartBuilder := ⟨start, [], start, []⟩

/-- The literal of the buffer, if there is one. -/
def flush (builder : PartBuilder) (stop : ℕ) : List (Spanned Part) :=
  if builder.buffer.isEmpty then builder.subParts
  else builder.subParts ++ [⟨.literal builder.buffer, ⟨builder.bufferStart, stop⟩⟩]

def addPart (builder : PartBuilder) (part : Spanned Part) : PartBuilder where
  start := builder.start
  buffer := []
  bufferStart := part.span.stop
  subParts := builder.flush part.span.start ++
    match part.item with
    | .concatenated inner => inner
    | _ => [part]

def addRaw (builder : PartBuilder) (value : List Char) : PartBuilder :=
  { builder with buffer := builder.buffer ++ value }

def complete (builder : PartBuilder) (stop : ℕ) : Spanned Part :=
  match builder.flush stop with
  | [] => ⟨.literal [], ⟨builder.start, stop⟩⟩
  | [part] => part
  | parts => ⟨.concatenated parts, ⟨builder.start, stop⟩⟩

def isEmpty (builder : PartBuilder) : Bool := builder.buffer.isEmpty && builder.subParts.isEmpty

end PartBuilder

/-! ## The parser -/

structure Parser where
  input : ParserInput
  containsRedirection : Bool

def isValidCommandSeparator : Token → Bool
  | .pipe | .logicalOr | .ampersand | .logicalAnd | .semicolon | .newline => true
  | _ => false

def isCommandTerminator (token : Token) : Bool :=
  isValidCommandSeparator token ||
    match token with
    | .openParen | .closeParen | .openCurly | .closeCurly => true
    | _ => false

namespace Parser

/-- `Parser::with_tokens`. -/
def withTokens (input : ParserInput) : Parser := ⟨input, false⟩

/-- `self.tokens.next()`. -/
def advance (parser : Parser) : Parser := { parser with input := parser.input.advance }

def peek (parser : Parser) : Option Token := parser.input.peek

def pos (parser : Parser) : ℕ := parser.input.pos

def redirected (parser : Parser) : Parser := { parser with containsRedirection := true }

def skipFrom (offset : ℕ) : List (Spanned Token) → ℕ → List (Spanned Token) × ℕ
  | ⟨.whitespace _, span⟩ :: tokens, _ => skipFrom offset tokens (offset + span.stop)
  | tokens, pos => (tokens, pos)

def skipWhitespace (parser : Parser) : Parser :=
  let (tokens, pos) := skipFrom parser.input.offset parser.input.tokens parser.input.pos
  { parser with input := { parser.input with tokens, pos } }

/-- The loop of a single-quoted part. -/
def singleQuoted (offset : ℕ) : List (Spanned Token) → ℕ → List Char →
    List Char × List (Spanned Token) × ℕ
  | [], pos, buffer => (buffer, [], pos)
  | token :: tokens, _, buffer =>
    if token.item = .singleQuote then (buffer, tokens, offset + token.span.stop)
    else singleQuoted offset tokens (offset + token.span.stop) (buffer ++ token.item.asStr)

def parseSingleQuotedPart (parser : Parser) : Spanned Part × Parser :=
  let start := parser.pos
  let parser := parser.advance
  let (buffer, tokens, pos) :=
    singleQuoted parser.input.offset parser.input.tokens parser.input.pos []
  (⟨.literal buffer, ⟨start, pos⟩⟩, { parser with input := { parser.input with tokens, pos } })

/-- The token after an escape character outside of quotes. -/
def escapedPart (firstPart : Bool) (escapeChar : List Char) (builder : PartBuilder) :
    Option Token → PartBuilder
  | none => builder.addRaw escapeChar
  | some .newline => builder
  | some (.literal ['~']) => (builder.addRaw escapeChar).addRaw ['~']
  | some token =>
    (if firstPart && builder.isEmpty then builder.addRaw escapeChar else builder).addRaw token.asStr

/-- The token after an escape character in double quotes. -/
def escapedDouble (escapeChar : List Char) (builder : PartBuilder) : Option Token → PartBuilder
  | some .newline => builder
  | some .dollar => builder.addRaw Token.dollar.asStr
  | some .backtick => builder.addRaw Token.backtick.asStr
  | some .doubleQuote => builder.addRaw Token.doubleQuote.asStr
  | some (.escapeChar value) => builder.addRaw value
  | some token => (builder.addRaw escapeChar).addRaw token.asStr
  | none => builder.addRaw escapeChar

mutual

/-- `parse_command_list`, with the commands so far. -/
def parseCommandList (fuel : ℕ) (delimiter : Option Token) (commands : List (Spanned Command))
    (parser : Parser) : List (Spanned Command) × Parser :=
  match fuel with
  | 0 => (commands, parser)
  | fuel + 1 =>
    let parser := parser.skipWhitespace
    if delimiter.isSome && delimiter = parser.peek then (commands, parser)
    else match parser.peek with
      | some .openParen =>
        let (nested, parser) := parseCommandList fuel (some .closeParen) [] parser.advance
        parseCommandList fuel delimiter (commands ++ nested) parser
      | some .openCurly =>
        let (nested, parser) := parseCommandList fuel (some .closeCurly) [] parser.advance
        parseCommandList fuel delimiter (commands ++ nested) parser
      | some .closeParen | some .closeCurly =>
        parseCommandList fuel delimiter commands parser.advance
      | some .redirectInput | some .redirectOutput =>
        parseCommandList fuel delimiter commands parser.redirected.advance
      | some t =>
        if isValidCommandSeparator t then parseCommandList fuel delimiter commands parser.advance
        else
          let (command, parser) := parseCommand fuel parser.pos [] parser
          parseCommandList fuel delimiter (commands ++ [command]) parser
      | none => (commands, parser)

/-- `parse_command`, from its start, with the parts so far. -/
def parseCommand (fuel : ℕ) (start : ℕ) (parts : List (Spanned Part)) (parser : Parser) :
    Spanned Command × Parser :=
  match fuel with
  | 0 => (⟨.new parts, ⟨start, parser.pos⟩⟩, parser)
  | fuel + 1 =>
    let parser := parser.skipWhitespace
    match parser.peek with
    | none => (⟨.new parts, ⟨start, parser.pos⟩⟩, parser)
    | some .redirectInput | some .redirectOutput =>
      parseCommand fuel start parts parser.redirected.advance
    | some t =>
      if isCommandTerminator t then (⟨.new parts, ⟨start, parser.pos⟩⟩, parser)
      else
        let (part, parser) := parsePart fuel parts.isEmpty (.new parser.pos) parser
        parseCommand fuel start (parts ++ [part]) parser

/-- `parse_part`, with the builder so far. -/
def parsePart (fuel : ℕ) (firstPart : Bool) (builder : PartBuilder) (parser : Parser) :
    Spanned Part × Parser :=
  match fuel with
  | 0 => (builder.complete parser.pos, parser)
  | fuel + 1 =>
    match parser.peek with
    | none => (builder.complete parser.pos, parser)
    | some (.whitespace _) => (builder.complete parser.pos, parser)
    | some .redirectInput | some .redirectOutput =>
      parsePart fuel firstPart builder parser.redirected.advance
    | some .doubleQuote =>
      let (part, parser) := parseDoubleQuotedPart fuel (.new parser.pos) parser.advance
      parsePart fuel firstPart (builder.addPart part) parser
    | some .singleQuote =>
      let (part, parser) := parseSingleQuotedPart parser
      parsePart fuel firstPart (builder.addPart part) parser
    | some .backtick =>
      let (part, parser) := parseBacktickedSubshell fuel parser
      parsePart fuel firstPart (builder.addPart part) parser
    | some .dollar =>
      if parser.input.peekpeek = some .openParen then
        let (part, parser) := parseDollarSubshell fuel parser
        parsePart fuel firstPart (builder.addPart part) parser
      else parsePart fuel firstPart (builder.addRaw Token.dollar.asStr) parser.advance
    | some (.escapeChar c) =>
      let parser := parser.advance
      parsePart fuel firstPart (escapedPart firstPart c builder parser.peek) parser.advance
    | some t =>
      if isCommandTerminator t then (builder.complete parser.pos, parser)
      else parsePart fuel firstPart (builder.addRaw t.asStr) parser.advance

def parseBacktickedSubshell (fuel : ℕ) (parser : Parser) : Spanned Part × Parser :=
  match fuel with
  | 0 => (⟨.literal [], ⟨parser.pos, parser.pos⟩⟩, parser)
  | fuel + 1 =>
    let start := parser.pos
    let (inner, input) := parser.advance.input.untilBacktick
    let parser := { parser with input }
    -- the redirections that the inner parser finds are not kept
    let (commands, _) := parseCommandList fuel none [] (.withTokens inner)
    match parser.peek with
    | none => (⟨.openSubshell commands, ⟨start, parser.pos⟩⟩, parser)
    | some _ => (⟨.closedSubshell commands, ⟨start, parser.advance.pos⟩⟩, parser.advance)

def parseDollarSubshell (fuel : ℕ) (parser : Parser) : Spanned Part × Parser :=
  match fuel with
  | 0 => (⟨.literal [], ⟨parser.pos, parser.pos⟩⟩, parser)
  | fuel + 1 =>
    let start := parser.pos
    let (commands, parser) :=
      parseCommandList fuel (some .closeParen) [] parser.advance.advance
    match parser.peek with
    | none => (⟨.openSubshell commands, ⟨start, parser.pos⟩⟩, parser)
    | some _ => (⟨.closedSubshell commands, ⟨start, parser.advance.pos⟩⟩, parser.advance)

/-- The loop of `parse_double_quoted_part`, after the opening quote. -/
def parseDoubleQuotedPart (fuel : ℕ) (builder : PartBuilder) (parser : Parser) :
    Spanned Part × Parser :=
  match fuel with
  | 0 => (builder.complete parser.pos, parser)
  | fuel + 1 =>
    match parser.peek with
    | none => (builder.complete parser.pos, parser)
    | some .doubleQuote => (builder.complete parser.advance.pos, parser.advance)
    | some (.escapeChar c) =>
      let parser := parser.advance
      parseDoubleQuotedPart fuel (escapedDouble c builder parser.peek) parser.advance
    | some .backtick =>
      let (part, parser) := parseBacktickedSubshell fuel parser
      parseDoubleQuotedPart fuel (builder.addPart part) parser
    | some .dollar =>
      if parser.input.peekpeek = some .openParen then
        let (part, parser) := parseDollarSubshell fuel parser
        parseDoubleQuotedPart fuel (builder.addPart part) parser
      else parseDoubleQuotedPart fuel (builder.addRaw Token.dollar.asStr) parser.advance
    | some t => parseDoubleQuotedPart fuel (builder.addRaw t.asStr) parser.advance

end

end Parser

structure ParsedResult where
  commands : List (Spanned Command)
  containsRedirection : Bool

/-- The fuel of `parse`: four for each token. -/
def parseFuel (tokens : List (Spanned Token)) : ℕ := 4 * tokens.length + 4

def parse (tokens : List (Spanned Token)) : ParsedResult :=
  let (commands, parser) :=
    Parser.parseCommandList (parseFuel tokens) none [] (.withTokens (.new tokens))
  ⟨commands, parser.containsRedirection⟩

end Clinch.SimpleParser
