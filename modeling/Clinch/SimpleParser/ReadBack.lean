import Clinch.SimpleParser.Rounds

/-!
# Words are read back

* `round_pieces`, **`parsePart_pieces`**: a word is heard;
* `lexemes_blank`, `skip_to_word`: the blanks between words;
* `parseCommand_args`, `parse_line`: a line is one command, whose words are heard;
* **`words_iff`**: what the lexer swallows is all that goes wrong.
-/

set_option autoImplicit false

namespace Clinch.SimpleParser

variable {escapeChar : EscapeChar} {c : Char} {p p' pos fuel : ℕ} {b firstPart : Bool}

/-! ## Words -/

theorem isRaw_of_single {t : Token} (h : Lexer.single false c = some t) :
    isRaw escapeChar false c = false := by simp [isRaw, h]

theorem isRaw_of_blank (h : isBlank c = true) : isRaw escapeChar false c = false := by
  have hspace : isWhitespace c = true := (Bool.and_eq_true_iff.1 h).1
  simp [isRaw, hspace]

theorem isRaw_of_isChar (h : escapeChar.isChar c = true) : isRaw escapeChar false c = false := by
  simp [isRaw, h]

theorem isChar_char : escapeChar.isChar escapeChar.char = true := decide_eq_true rfl

/-- A piece starts with a character of its own, unless it is plain. -/
theorem written_cases {piece : Piece} (h : piece.Valid escapeChar) :
    (∃ d, piece = .plain d ∧ isRaw escapeChar false d = true) ∨
    ∃ d text, piece.written escapeChar = d :: text ∧ isRaw escapeChar false d = false ∧
      d ≠ '(' := by
  cases piece with
  | plain d =>
    rcases h with h | rfl
    · exact .inl ⟨d, rfl, h⟩
    · exact .inr ⟨_, _, rfl, isRaw_of_single (t := .dollar) rfl, by decide⟩
  | escaped d =>
    exact .inr ⟨_, _, rfl, isRaw_of_isChar isChar_char, by cases escapeChar <;> decide⟩
  | single text => exact .inr ⟨_, _, rfl, isRaw_of_single (t := .singleQuote) rfl, by decide⟩
  | double text => exact .inr ⟨_, _, rfl, isRaw_of_single (t := .doubleQuote) rfl, by decide⟩

theorem head_written {pieces : List Piece} (hvalid : ∀ piece ∈ pieces, piece.Valid escapeChar)
    {after : List Char} (hafter : ∀ d ∈ after.head?, isBlank d = true) :
    (writtenAll escapeChar pieces ++ after).head? ≠ some '(' := by
  cases pieces with
  | nil =>
    intro h
    exact absurd (hafter '(' h) (by decide)
  | cons piece pieces =>
    rcases written_cases (hvalid piece List.mem_cons_self) with
      ⟨d, rfl, hd⟩ | ⟨d, text, hwritten, -, hd⟩
    · rintro ⟨⟩
      exact absurd hd (by cases escapeChar <;> decide)
    · rw [writtenAll, List.flatMap_cons, hwritten]
      intro h
      exact hd (Option.some.inj h)

/-- The plain pieces at the start of a word are one run. -/
theorem plain_run {pieces : List Piece} (hvalid : ∀ piece ∈ pieces, piece.Valid escapeChar)
    {after : List Char} (hafter : ∀ d ∈ after.head?, isBlank d = true) :
    ∃ (run : List Char) (pieces' : List Piece), (∀ d ∈ run, isRaw escapeChar false d = true) ∧
      pieces = run.map .plain ++ pieces' ∧
      ∀ d ∈ (writtenAll escapeChar pieces' ++ after).head?, isRaw escapeChar false d = false := by
  induction pieces with
  | nil => exact ⟨[], [], by simp, rfl, fun d hd => isRaw_of_blank (hafter d hd)⟩
  | cons piece pieces ih =>
    obtain ⟨hpiece, htail⟩ := List.forall_mem_cons.1 hvalid
    rcases written_cases hpiece with ⟨d, rfl, hd⟩ | ⟨d, text, hwritten, hd, -⟩
    · obtain ⟨run, pieces', hrun, rfl, hhead⟩ := ih htail
      exact ⟨d :: run, pieces', List.forall_mem_cons.2 ⟨hd, hrun⟩, rfl, hhead⟩
    · refine ⟨[], piece :: pieces, by simp, rfl, ?_⟩
      rw [writtenAll, List.flatMap_cons, hwritten]
      rintro _ ⟨⟩
      exact hd

theorem writtenAll_append (a a' : List Piece) :
    writtenAll escapeChar (a ++ a') = writtenAll escapeChar a ++ writtenAll escapeChar a' :=
  List.flatMap_append

theorem writtenAll_plain (run : List Char) : writtenAll escapeChar (run.map .plain) = run := by
  induction run with
  | nil => rfl
  | cons d run ih => rw [List.map_cons, writtenAll, List.flatMap_cons, ← writtenAll, ih]; rfl

theorem valueOf_plain (run : List Char) (pieces : List Piece) :
    valueOf escapeChar false (run.map .plain ++ pieces) =
      run ++ valueOf escapeChar false pieces := by
  induction run with
  | nil => rfl
  | cons d run ih => rw [List.map_cons, List.cons_append, valueOf, ih]; rfl

/-- The first round of a word, and the pieces that are left. -/
theorem round_pieces {builder : PartBuilder} (hok : builder.Ok p) {piece : Piece}
    {pieces : List Piece} (hvalid : ∀ piece' ∈ piece :: pieces, piece'.Valid escapeChar)
    {after : List Char} (hafter : ∀ d ∈ after.head?, isBlank d = true)
    (hfuel : (lexemes escapeChar false
      (writtenAll escapeChar (piece :: pieces) ++ after)).length < fuel + 1) :
    ∃ done pieces' meant n v builder', piece :: pieces = done ++ pieces' ∧ done ≠ [] ∧
      valueOf escapeChar (firstPart && builder.isEmpty) (piece :: pieces) =
        meant ++ valueOf escapeChar false pieces' ∧
      Round escapeChar firstPart b fuel p builder (writtenAll escapeChar done) meant
        (writtenAll escapeChar pieces' ++ after) n v builder' := by
  obtain ⟨hpiece, htail⟩ := List.forall_mem_cons.1 hvalid
  have hone : writtenAll escapeChar [piece] = piece.written escapeChar := by
    simp [writtenAll]
  rw [show piece :: pieces = [piece] ++ pieces from rfl, writtenAll_append, hone,
    List.append_assoc] at hfuel
  cases piece with
  | plain d =>
    rcases hpiece with hd | rfl
    · obtain ⟨run, pieces', hrun, rfl, hhead⟩ := plain_run htail hafter
      have hwritten : writtenAll escapeChar (.plain d :: run.map .plain) = d :: run :=
        writtenAll_plain (d :: run)
      refine ⟨.plain d :: run.map .plain, pieces', d :: run, 0, d :: run, builder.addRaw (d :: run),
        rfl, by simp, ?_, ?_⟩
      · rw [valueOf, valueOf_plain]
        rfl
      · rw [hwritten]
        exact round_raw hok (List.forall_mem_cons.2 ⟨hd, hrun⟩) hhead
    · refine ⟨[.plain '$'], pieces, ['$'], 0, ['$'], builder.addRaw ['$'], rfl, by simp, rfl, ?_⟩
      rw [hone]
      exact round_dollar hok (head_written htail hafter)
  | escaped d =>
    let v := (Piece.escaped d).value escapeChar (firstPart && builder.isEmpty)
    refine ⟨[.escaped d], pieces, v, 0, v, builder.addRaw v, rfl, by simp, rfl, ?_⟩
    rw [hone]
    exact round_escape hok isChar_char hpiece
  | single text =>
    obtain ⟨n, v, builder', hround⟩ := @round_single escapeChar p fuel b firstPart builder
      (writtenAll escapeChar pieces ++ after) text hok hpiece
    refine ⟨[.single text], pieces, text, n, v, builder', rfl, by simp, rfl, ?_⟩
    rw [hone]
    exact hround
  | double text =>
    obtain ⟨n, v, builder', hround⟩ := @round_double escapeChar p fuel b firstPart builder
      (writtenAll escapeChar pieces ++ after) text hok hpiece hfuel
    refine ⟨[.double text], pieces, _, n, v, builder', rfl, by simp, rfl, ?_⟩
    rw [hone]
    exact hround

/-! ## Blanks -/

theorem blank_spec (h : isBlank c = true) :
    escapeChar.isChar c = false ∧ sameRun escapeChar false c = isBlank ∧
      ∀ run, tokenOf false c run = .whitespace (c :: run) := by
  have hspace : isWhitespace c = true := (Bool.and_eq_true_iff.1 h).1
  have hne : ∀ d, isBlank d = false → c ≠ d := by
    rintro d hd rfl
    exact absurd (h.symm.trans hd) (by decide)
  have hpipe := hne '|' rfl
  have hamp := hne '&' rfl
  have htick := hne '`' rfl
  have hsingle : Lexer.single false c = none := by
    cases hsingle : Lexer.single false c with
    | none => rfl
    | some t => exact absurd (h.symm.trans (single_eq_some hsingle).1) (by decide)
  refine ⟨?_, ?_, fun run => ?_⟩
  · cases escapeChar with
    | backslash => exact decide_eq_false (hne '\\' rfl)
    | backtick => exact decide_eq_false htick
  · funext d
    simp [sameRun, hpipe, hamp, h, isRaw_of_blank h]
  · simp [tokenOf, hpipe, hamp, hsingle, htick, hspace]

/-- Blanks are one token. -/
theorem lexemes_blank {blank rest : List Char} (hne : blank ≠ [])
    (hblank : ∀ d ∈ blank, isBlank d = true) (hrest : ∀ d ∈ rest.head?, isBlank d = false) :
    lexemes escapeChar false (blank ++ rest) =
      ⟨.whitespace blank, blank⟩ :: lexemes escapeChar false rest := by
  obtain ⟨c, run, rfl⟩ := List.exists_cons_of_ne_nil hne
  obtain ⟨hc, hrun⟩ := List.forall_mem_cons.1 hblank
  obtain ⟨hesc, hsame, htoken⟩ := @blank_spec escapeChar c hc
  have hstop : rest.takeWhile isBlank = [] ∧ rest.dropWhile isBlank = rest := by
    cases rest with
    | nil => exact ⟨rfl, rfl⟩
    | cons d rest => simp [hrest d rfl]
  have htake : (run ++ rest).takeWhile isBlank = run := by
    rw [List.takeWhile_append_of_pos hrun, hstop.1, List.append_nil]
  have hdrop : (run ++ rest).dropWhile isBlank = rest := by
    rw [List.dropWhile_append_of_pos hrun, hstop.2]
  rw [List.cons_append, lexemes_run hesc, hsame, htake, hdrop, htoken]

/-- A token a word starts with. -/
def startsWord : Token → Bool
  | .literal _ | .dollar | .escapeChar _ | .singleQuote | .doubleQuote => true
  | _ => false

theorem lexemes_word (word : Word escapeChar) (after : List Char) :
    ∃ l ls, lexemes escapeChar false (writtenAll escapeChar word.pieces ++ after) = l :: ls ∧
      startsWord l.token = true := by
  obtain ⟨pieces, hne, hvalid⟩ := word
  obtain ⟨piece, pieces, rfl⟩ := List.exists_cons_of_ne_nil hne
  have hpiece := hvalid piece List.mem_cons_self
  rw [writtenAll, List.flatMap_cons, List.append_assoc]
  generalize pieces.flatMap (Piece.written escapeChar) ++ after = rest
  cases piece with
  | plain d =>
    rcases hpiece with hd | rfl
    · refine ⟨_, _, lexemes_run (raw_spec hd).2.2.2.1 rest, ?_⟩
      rw [tokenOf_of_raw hd]
      rfl
    · exact ⟨_, _, lexemes_single rfl rest, rfl⟩
  | escaped d => exact ⟨_, _, lexemes_escape isChar_char rest, rfl⟩
  | single text => exact ⟨_, _, lexemes_quote (text ++ [quote] ++ rest), rfl⟩
  | double text => exact ⟨_, _, lexemes_double (text ++ ['"'] ++ rest), rfl⟩

/-- **A word is heard, in a part with the span of the word.** -/
theorem parsePart_pieces {builder : PartBuilder} (hok : builder.Ok p) {pieces : List Piece}
    (hvalid : ∀ piece ∈ pieces, piece.Valid escapeChar) {after : List Char}
    (hafter : ∀ d ∈ after.head?, isBlank d = true)
    (hfuel : (lexemes escapeChar false (writtenAll escapeChar pieces ++ after)).length < fuel) :
    ∃ n v part,
      Heard n (valueOf escapeChar (firstPart && builder.isEmpty) pieces) v ∧
      lost escapeChar (writtenAll escapeChar pieces ++ after) = n + lost escapeChar after ∧
      (lexemes escapeChar false after).length ≤
        (lexemes escapeChar false (writtenAll escapeChar pieces ++ after)).length ∧
      part.item.value = builder.value ++ v ∧
      part.span = ⟨builder.start, p + width (writtenAll escapeChar pieces)⟩ ∧
      Parser.parsePart fuel firstPart builder (.before
          (place p (lexemes escapeChar false (writtenAll escapeChar pieces ++ after))) p b) =
        (part, .before
          (place (p + width (writtenAll escapeChar pieces)) (lexemes escapeChar false after))
          (p + width (writtenAll escapeChar pieces)) b) := by
  induction hn : pieces.length using Nat.strong_induction_on generalizing pieces builder p fuel with
  | _ k ih =>
    obtain ⟨fuel, rfl⟩ : ∃ n, fuel = n + 1 := ⟨fuel - 1, by omega⟩
    cases pieces with
    | nil =>
      refine ⟨0, [], builder.complete p, .rfl', ?_, le_rfl, ?_, ?_, ?_⟩
      · exact (Nat.zero_add _).symm
      · rw [(PartBuilder.complete_eq hok).1, List.append_nil]
      · exact (PartBuilder.complete_eq hok).2
      · cases after with
        | nil =>
          rw [writtenAll, List.flatMap_nil, List.nil_append, lexemes_nil]
          rfl
        | cons d after =>
          have hd := @blank_spec escapeChar d (hafter d rfl)
          rw [writtenAll, List.flatMap_nil, List.nil_append, lexemes_run hd.1, hd.2.2]
          rfl
    | cons piece pieces =>
      obtain ⟨done, pieces', meant, n, v, builder', hsplit, hdone, hvalue, hround⟩ :=
        @round_pieces escapeChar p fuel b firstPart builder hok piece pieces hvalid after hafter
          hfuel
      have hlen : pieces'.length < k := by
        have hpos := List.length_pos_iff.2 hdone
        have hlen := congrArg List.length hsplit
        rw [List.length_append] at hlen
        omega
      rw [hsplit] at hvalid hfuel ⊢
      rw [writtenAll_append, List.append_assoc] at hfuel ⊢
      have hfuel' := hround.length
      obtain ⟨n', v', part, hheard, hlost, hlen', hpart, hspan, hread⟩ :=
        @ih _ hlen _ fuel _ hround.ok pieces'
          (fun piece hp => hvalid piece (List.mem_append_right done hp)) (by omega) rfl
      rw [hround.isEmpty, Bool.and_false] at hheard
      refine ⟨n + n', v ++ v', part, ?_, ?_, ?_, ?_, ?_, ?_⟩
      · rw [← hsplit, hvalue]
        exact hround.heard.append hheard
      · rw [hround.lost, hlost, Nat.add_assoc]
      · omega
      · rw [hpart, hround.value, List.append_assoc]
      · rw [hspan, hround.start, width_append, Nat.add_assoc]
      · rw [hround.read, hread, width_append, Nat.add_assoc]

/-! ## The command -/

section Command

variable {t : Token} {span : Span} {tokens : List (Spanned Token)} {parts : List (Spanned Part)}
  {start : ℕ}

theorem skip_word (h : startsWord t = true) :
    (Parser.before (⟨t, span⟩ :: tokens) pos b).skipWhitespace =
      .before (⟨t, span⟩ :: tokens) pos b := by
  cases t with
  | whitespace value => exact nomatch h
  | _ => rfl

theorem skip_blank (h : startsWord t = true) (value : List Char) (span' : Span) :
    (Parser.before (⟨.whitespace value, span'⟩ :: ⟨t, span⟩ :: tokens) pos b).skipWhitespace =
      .before (⟨t, span⟩ :: tokens) (0 + span'.stop) b :=
  (skip_word h : (Parser.before (⟨t, span⟩ :: tokens) (0 + span'.stop) b).skipWhitespace = _)

theorem parseCommand_word {parser : Parser} (h : startsWord t = true)
    (hskip : parser.skipWhitespace = .before (⟨t, span⟩ :: tokens) pos b) {part : Spanned Part}
    {parser' : Parser} (hfirst : parts.isEmpty = firstPart)
    (hpart : Parser.parsePart fuel firstPart (.new pos) (.before (⟨t, span⟩ :: tokens) pos b) =
      (part, parser')) :
    Parser.parseCommand (fuel + 1) start parts parser =
      Parser.parseCommand fuel start (parts ++ [part]) parser' := by
  have hround : Parser.parseCommand (fuel + 1) start parts parser =
      Parser.parseCommand fuel start
        (parts ++ [(Parser.parsePart fuel parts.isEmpty (.new pos)
          (.before (⟨t, span⟩ :: tokens) pos b)).1])
        (Parser.parsePart fuel parts.isEmpty (.new pos)
          (.before (⟨t, span⟩ :: tokens) pos b)).2 := by
    rw [Parser.parseCommand, hskip]
    cases t with
    | literal value => rfl
    | dollar => rfl
    | escapeChar value => rfl
    | singleQuote => rfl
    | doubleQuote => rfl
    | _ => exact nomatch h
  rw [hround, hfirst, hpart]

theorem parseCommandList_word {parser : Parser} (h : startsWord t = true)
    (hskip : parser.skipWhitespace = .before (⟨t, span⟩ :: tokens) pos b)
    {command : Spanned Command} {parser' : Parser}
    (hcommand : Parser.parseCommand fuel pos [] (.before (⟨t, span⟩ :: tokens) pos b) =
      (command, parser')) :
    Parser.parseCommandList (fuel + 1) none [] parser =
      Parser.parseCommandList fuel none [command] parser' := by
  have hround : Parser.parseCommandList (fuel + 1) none [] parser =
      Parser.parseCommandList fuel none
        [(Parser.parseCommand fuel pos [] (.before (⟨t, span⟩ :: tokens) pos b)).1]
        (Parser.parseCommand fuel pos [] (.before (⟨t, span⟩ :: tokens) pos b)).2 := by
    rw [Parser.parseCommandList, hskip]
    cases t with
    | literal value => rfl
    | dollar => rfl
    | escapeChar value => rfl
    | singleQuote => rfl
    | doubleQuote => rfl
    | _ => exact nomatch h
  rw [hround, hcommand]

end Command

theorem head_word (word : Word escapeChar) (after : List Char) :
    ∀ d ∈ (writtenAll escapeChar word.pieces ++ after).head?, isBlank d = false := by
  intro d hd
  obtain ⟨l, ls, hlex, hstart⟩ := lexemes_word word after
  cases hblank : isBlank d with
  | false => rfl
  | true =>
    obtain ⟨cs, hcs⟩ := List.head?_eq_some_iff.1 hd
    have hspec := @blank_spec escapeChar d hblank
    rw [hcs, lexemes_run hspec.1, hspec.2.2] at hlex
    rw [← (List.cons.inj hlex).1] at hstart
    exact nomatch hstart

/-- The blanks before a word are skipped. -/
theorem skip_to_word {blank : List Char} (hblank : ∀ d ∈ blank, isBlank d = true)
    (word : Word escapeChar) (after : List Char) :
    ∃ t span tokens, startsWord t = true ∧
      place (p + width blank)
          (lexemes escapeChar false (writtenAll escapeChar word.pieces ++ after)) =
        ⟨t, span⟩ :: tokens ∧
      (Parser.before (place p (lexemes escapeChar false
          (blank ++ (writtenAll escapeChar word.pieces ++ after)))) p b).skipWhitespace =
        .before (⟨t, span⟩ :: tokens) (p + width blank) b := by
  obtain ⟨l, ls, hlex, hstart⟩ := lexemes_word word after
  refine ⟨l.token, ⟨p + width blank, p + width blank + width l.token.asStr⟩,
    place (p + width blank + width l.chars) ls, hstart, ?_, ?_⟩
  · rw [hlex]
    rfl
  · cases blank with
    | nil =>
      rw [List.nil_append, hlex]
      exact skip_word hstart
    | cons d blank =>
      rw [lexemes_blank (by simp) hblank (head_word word after), hlex]
      simp only [place, Lexeme.placed]
      rw [skip_blank hstart]
      simp [Token.asStr]

theorem head_blank {blank rest : List Char} (hne : blank ≠ [])
    (hblank : ∀ d ∈ blank, isBlank d = true) :
    ∀ d ∈ (blank ++ rest).head?, isBlank d = true := by
  obtain ⟨c, blank, rfl⟩ := List.exists_cons_of_ne_nil hne
  rintro d ⟨⟩
  exact hblank c List.mem_cons_self

theorem lost_blank {blank rest : List Char} (hne : blank ≠ [])
    (hblank : ∀ d ∈ blank, isBlank d = true) (hrest : ∀ d ∈ rest.head?, isBlank d = false) :
    lost escapeChar (blank ++ rest) = lost escapeChar rest := by
  rw [lost_cons (lexemes_blank hne hblank hrest)]
  simp [Lexeme.lost, Token.asStr]

theorem head_args {trail : List Char} (htrail : ∀ d ∈ trail, isBlank d = true)
    (args : List (List Char × Word escapeChar))
    (hargs : ∀ arg ∈ args, arg.1 ≠ [] ∧ ∀ d ∈ arg.1, isBlank d = true) :
    ∀ d ∈ (writtenArgs args ++ trail).head?, isBlank d = true := by
  cases args with
  | nil => exact fun d hd => htrail d (List.mem_of_head? hd)
  | cons arg args =>
    have harg := hargs arg List.mem_cons_self
    rw [writtenArgs, List.flatMap_cons, List.append_assoc, List.append_assoc]
    exact head_blank harg.1 harg.2

/-- The arguments after the parts that are already there. -/
theorem parseCommand_args {trail : List Char} (htrail : ∀ d ∈ trail, isBlank d = true)
    (args : List (List Char × Word escapeChar))
    (hargs : ∀ arg ∈ args, arg.1 ≠ [] ∧ ∀ d ∈ arg.1, isBlank d = true)
    (parts : List (Spanned Part)) (hparts : parts ≠ []) (start p : ℕ)
    (hfuel : (lexemes escapeChar false (writtenArgs args ++ trail)).length < fuel) :
    ∃ parts' span stop, (parts'.map (fun part => (part.item.value, part.span)) =
        expectedArgs p args ↔ lost escapeChar (writtenArgs args ++ trail) = 0) ∧
      Parser.parseCommand fuel start parts
          (.before (place p (lexemes escapeChar false (writtenArgs args ++ trail))) p b) =
        (⟨.new (parts ++ parts'), span⟩, .before [] stop b) := by
  induction args generalizing parts p fuel with
  | nil =>
    obtain ⟨fuel, rfl⟩ : ∃ n, fuel = n + 1 := ⟨fuel - 1, by omega⟩
    cases trail with
    | nil =>
      refine ⟨[], ⟨start, p⟩, p, iff_of_true rfl ?_, ?_⟩
      · rw [writtenArgs, List.flatMap_nil, List.nil_append, lost, lexemes_nil]
        rfl
      · rw [writtenArgs, List.flatMap_nil, List.nil_append, lexemes_nil, List.append_nil]
        rfl
    | cons d trail =>
      have hlex := @lexemes_blank escapeChar (d :: trail) [] (by simp) htrail (fun _ h => by cases h)
      rw [List.append_nil, lexemes_nil] at hlex
      refine ⟨[], ⟨start, 0 + (p + width (d :: trail))⟩, 0 + (p + width (d :: trail)),
        iff_of_true rfl ?_, ?_⟩
      · rw [writtenArgs, List.flatMap_nil, List.nil_append, lost, hlex]
        simp [Lexeme.lost, Token.asStr]
      · rw [writtenArgs, List.flatMap_nil, List.nil_append, hlex, List.append_nil]
        rfl
  | cons arg args ih =>
    obtain ⟨blank, word⟩ := arg
    obtain ⟨⟨hne, hblank⟩, hargs⟩ := List.forall_mem_cons.1 hargs
    obtain ⟨fuel, rfl⟩ : ∃ n, fuel = n + 1 := ⟨fuel - 1, by omega⟩
    have hwritten : writtenArgs ((blank, word) :: args) ++ trail =
        blank ++ (writtenAll escapeChar word.pieces ++ (writtenArgs args ++ trail)) := by
      simp [writtenArgs]
    obtain ⟨t, span, tokens, hstart, hplace, hskip⟩ :=
      @skip_to_word escapeChar p b blank hblank word (writtenArgs args ++ trail)
    have hafter := head_args htrail args hargs
    have hlex := @lexemes_blank escapeChar blank _ hne hblank
      (head_word word (writtenArgs args ++ trail))
    rw [hwritten, hlex, List.length_cons] at hfuel
    obtain ⟨n, v, part, hheard, hlost, hlen, hvalue, hspan, hread⟩ :=
      @parsePart_pieces escapeChar _ fuel b false _ (PartBuilder.ok_new (p + width blank))
        word.pieces word.valid _ hafter (by omega)
    obtain ⟨parts', span', stop, hexpected, hrest⟩ :=
      @ih fuel hargs (parts ++ [part]) (by simp)
        (p + width blank + width (writtenAll escapeChar word.pieces)) (by omega)
    rw [hplace] at hread
    refine ⟨part :: parts', span', stop, ?_, ?_⟩
    · rw [hwritten, lost_blank hne hblank (head_word word _), hlost, List.map_cons, expectedArgs,
        List.cons_eq_cons, hexpected, Prod.mk.injEq, hspan, hvalue, Nat.add_eq_zero_iff]
      have hempty : (PartBuilder.new (p + width blank)).value = [] := rfl
      rw [hempty, List.nil_append]
      exact and_congr_left fun _ => (and_iff_left rfl).trans hheard.eq_iff
    · rw [hwritten, parseCommand_word hstart hskip (by simpa using hparts) hread, hrest]
      simp

theorem lost_lead {lead : List Char} (hlead : ∀ d ∈ lead, isBlank d = true)
    (word : Word escapeChar) (after : List Char) :
    lost escapeChar (lead ++ (writtenAll escapeChar word.pieces ++ after)) =
        lost escapeChar (writtenAll escapeChar word.pieces ++ after) ∧
      (lexemes escapeChar false (writtenAll escapeChar word.pieces ++ after)).length ≤
        (lexemes escapeChar false
          (lead ++ (writtenAll escapeChar word.pieces ++ after))).length := by
  cases lead with
  | nil => exact ⟨rfl, le_rfl⟩
  | cons d lead =>
    refine ⟨lost_blank (by simp) hlead (head_word word after), ?_⟩
    rw [lexemes_blank (by simp) hlead (head_word word after), List.length_cons]
    omega

theorem length_place (ls : List Lexeme) (p : ℕ) : (place p ls).length = ls.length := by
  induction ls generalizing p with
  | nil => rfl
  | cons l ls ih => rw [place, List.length_cons, List.length_cons, ih]

/-- The line is one command, whose words are heard. -/
theorem parse_line (line : CommandLine escapeChar) :
    ∃ parts span, (parse (lex line.written escapeChar false)).commands = [⟨.new parts, span⟩] ∧
      (parts.map (fun part => (part.item.value, part.span)) = line.expected ↔
        lost escapeChar line.written = 0) := by
  obtain ⟨hlost, hlen⟩ := lost_lead line.lead_blank line.name (writtenArgs line.args ++ line.trail)
  obtain ⟨t, span, tokens, hstart, hplace, hskip⟩ :=
    @skip_to_word escapeChar 0 false line.lead line.lead_blank line.name
      (writtenArgs line.args ++ line.trail)
  obtain ⟨fuel, hfuel⟩ : ∃ n, parseFuel (lex line.written escapeChar false) = n + 3 := ⟨_, rfl⟩
  have hlength : (lexemes escapeChar false line.written).length < fuel + 1 := by
    unfold parseFuel at hfuel
    rw [lex_eq, length_place] at hfuel
    omega
  have hwritten : line.written = line.lead ++ (writtenAll escapeChar line.name.pieces ++
    (writtenArgs line.args ++ line.trail)) := rfl
  rw [← hwritten] at hlen hlost hskip
  obtain ⟨n, v, part, hheard, hname, hshort, hvalue, hspan, hread⟩ :=
    @parsePart_pieces escapeChar _ (fuel + 1) false true _
      (PartBuilder.ok_new (0 + width line.lead)) line.name.pieces line.name.valid _
      (head_args line.trail_blank line.args line.args_blank)
      (by omega)
  obtain ⟨parts', span', stop, hexpected, hrest⟩ :=
    @parseCommand_args escapeChar (fuel + 1) false line.trail line.trail_blank line.args
      line.args_blank [part] (by simp) (0 + width line.lead)
      (0 + width line.lead + width (writtenAll escapeChar line.name.pieces)) (by omega)
  rw [hplace] at hread
  have hcommand : Parser.parseCommand (fuel + 2) (0 + width line.lead) []
      (.before (⟨t, span⟩ :: tokens) (0 + width line.lead) false) = _ :=
    parseCommand_word hstart (skip_word hstart) rfl hread
  rw [List.nil_append, hrest] at hcommand
  refine ⟨part :: parts', span', ?_, ?_⟩
  · have hparse : (parse (lex line.written escapeChar false)).commands =
        (Parser.parseCommandList (fuel + 3) none []
          (.before (place 0 (lexemes escapeChar false line.written)) 0 false)).1 := by
      rw [← lex_eq, ← hfuel]
      rfl
    rw [hparse, parseCommandList_word hstart hskip hcommand]
    rfl
  · rw [hlost, hname, List.map_cons, CommandLine.expected]
    rw [Nat.zero_add] at hexpected hspan
    rw [List.cons_eq_cons, hexpected, Prod.mk.injEq, hspan, hvalue, Nat.add_eq_zero_iff]
    have hempty : (PartBuilder.new (0 + width line.lead)).value = [] := rfl
    rw [hempty, List.nil_append]
    exact and_congr_left fun _ => (and_iff_left rfl).trans hheard.eq_iff

/-- **A command is read back unless an operator is swallowed.** -/
theorem readBack_iff (line : CommandLine escapeChar) :
    line.ReadBack (parse (lex line.written escapeChar false)) ↔
      swallows escapeChar line.written = false := by
  obtain ⟨parts, span, hcommands, hexpected⟩ := parse_line line
  rw [← lost_eq_zero, ← hexpected]
  constructor
  · rintro ⟨parts', span', hcommands', hexpected'⟩
    rw [hcommands] at hcommands'
    have hparts := congrArg Spanned.item (List.cons.inj hcommands').1
    obtain rfl := Command.new.inj hparts
    exact hexpected'
  · exact fun h => ⟨parts, span, hcommands, h⟩

/-- **The tokens tile the source, and words are read back, exactly when no operator is
swallowed.** -/
theorem words_iff (escapeChar : EscapeChar) :
    (∀ (source : List Char) (lit : Bool),
      Tiles (lex source escapeChar lit) source ↔ swallows escapeChar source = false) ∧
    ∀ line : CommandLine escapeChar,
      line.ReadBack (parse (lex line.written escapeChar false)) ↔
        swallows escapeChar line.written = false :=
  ⟨fun source => tiles_iff source escapeChar, readBack_iff⟩

/-- `x '|||'`. -/
def pipes : CommandLine .backslash where
  lead := []
  name := ⟨[.plain 'x'], by simp, by simpa using .inl rfl⟩
  args := [([' '], ⟨[.single ['|', '|', '|']], by simp, by decide⟩)]
  trail := []
  lead_blank := by simp
  args_blank := by
    intro arg h
    obtain rfl := List.mem_singleton.1 h
    exact ⟨by simp, fun c hc => List.mem_singleton.1 hc ▸ rfl⟩
  trail_blank := by simp

/-- Of three pipes only two are read. -/
theorem pipes_swallowed :
    ¬ Tiles (lex ['|', '|', '|'] .backslash false) ['|', '|', '|'] ∧
      ¬ pipes.ReadBack (parse (lex pipes.written .backslash false)) := by
  constructor
  · intro h
    exact absurd (show 2 = 3 from h.chained.2) (by decide)
  · rintro ⟨parts, span, hcommands, hexpected⟩
    have hparse : (parse (lex pipes.written .backslash false)).commands =
        [⟨.new [⟨.literal ['x'], ⟨0, 1⟩⟩, ⟨.literal ['|', '|'], ⟨2, 7⟩⟩], ⟨0, 7⟩⟩] := by cbv
    obtain rfl := Command.new.inj
      (congrArg Spanned.item (List.cons.inj (hparse.symm.trans hcommands)).1)
    have hvalue := congrArg (fun e : List (List Char × Span) => e.map Prod.fst) hexpected
    exact absurd hvalue (by decide)

end Clinch.SimpleParser
