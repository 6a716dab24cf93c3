import Clinch.SimpleParser.Quoted

/-!
# Rounds of the loop of a part

* `PartBuilder.Ok`, `PartBuilder.value`: the builder at a position, and what it holds;
* `Round`: one round reads some of the source, and adds what it stands for;
* `round_raw`, `round_dollar`, `round_escape`, **`round_single`**, **`round_double`**.
-/

set_option autoImplicit false

namespace Clinch.SimpleParser

variable {escapeChar : EscapeChar} {c : Char} {p p' pos fuel : ℕ} {b firstPart : Bool}

/-! ## The builder -/

namespace PartBuilder

variable {builder : PartBuilder} {v : List Char}

/-- What the builder holds. -/
def value (builder : PartBuilder) : List Char := valueAll builder.subParts ++ builder.buffer

/-- The spans of the builder at a position. -/
structure Ok (builder : PartBuilder) (p : ℕ) : Prop where
  bufferStart : builder.subParts = [] → builder.bufferStart = builder.start
  empty : builder.subParts = [] → builder.buffer = [] → p = builder.start
  one : ∀ part, builder.subParts = [part] → builder.buffer = [] →
    part.span = ⟨builder.start, p⟩

theorem ok_new (p : ℕ) : Ok (new p) p := ⟨fun _ => rfl, fun _ _ => rfl, fun _ e => nomatch e⟩

theorem valueAll_append (a a' : List (Spanned Part)) :
    valueAll (a ++ a') = valueAll a ++ valueAll a' := by
  induction a with
  | nil => rfl
  | cons part a ih =>
    obtain ⟨part, span⟩ := part
    rw [List.cons_append, valueAll, valueAll, ih, List.append_assoc]

theorem valueAll_flush (stop : ℕ) : valueAll (builder.flush stop) = builder.value := by
  unfold flush value
  cases hbuffer : builder.buffer with
  | nil => simp
  | cons d buffer =>
    rw [if_neg (by simp), valueAll_append]
    simp [valueAll, Part.value]

theorem complete_eq (h : Ok builder p) :
    (builder.complete p).item.value = builder.value ∧
      (builder.complete p).span = ⟨builder.start, p⟩ := by
  rw [← valueAll_flush p]
  unfold complete
  have hone : ∀ part, builder.flush p = [part] → part.span = ⟨builder.start, p⟩ := by
    intro part hpart
    unfold flush at hpart
    split at hpart
    · rename_i hbuffer
      exact h.one part hpart (List.isEmpty_iff.1 hbuffer)
    · obtain ⟨hsub, rfl⟩ : builder.subParts = [] ∧ _ = part := by
        cases hsub : builder.subParts with
        | nil => exact ⟨rfl, by simpa [hsub] using hpart⟩
        | cons x l => simp [hsub] at hpart
      rw [h.bufferStart hsub]
  cases hflush : builder.flush p with
  | nil => exact ⟨rfl, rfl⟩
  | cons part parts =>
    cases parts with
    | nil =>
      refine ⟨?_, hone part hflush⟩
      obtain ⟨part, span⟩ := part
      simp [valueAll]
    | cons part' parts => exact ⟨rfl, rfl⟩

theorem addRaw_ok (h : Ok builder p) (hv : v ≠ []) : Ok (builder.addRaw v) p' := by
  refine ⟨h.bufferStart, fun _ e => ?_, fun _ _ e => ?_⟩
  · exact absurd (List.append_eq_nil_iff.1 e).2 hv
  · exact absurd (List.append_eq_nil_iff.1 e).2 hv

theorem value_addRaw : (builder.addRaw v).value = builder.value ++ v := by
  simp [value, addRaw]

theorem isEmpty_addRaw (hv : v ≠ []) : (builder.addRaw v).isEmpty = false := by
  simp [isEmpty, addRaw, hv]

theorem addPart_ok (h : Ok builder p) : Ok (builder.addPart ⟨.literal v, ⟨p, p'⟩⟩) p' := by
  refine ⟨fun e => ?_, fun e => ?_, fun part e _ => ?_⟩
  · exact absurd (List.append_eq_nil_iff.1 e).2 (by simp)
  · exact absurd (List.append_eq_nil_iff.1 e).2 (by simp)
  · have e : builder.flush p ++ [⟨.literal v, ⟨p, p'⟩⟩] = [part] := e
    cases hflush : builder.flush p with
    | cons x l => simp [hflush] at e
    | nil =>
      rw [hflush, List.nil_append] at e
      obtain rfl := List.head_eq_of_cons_eq e
      unfold flush at hflush
      split at hflush
      · rename_i hbuffer
        have hstart := h.empty hflush (List.isEmpty_iff.1 hbuffer)
        rw [hstart]
        rfl
      · simp at hflush

theorem value_addPart (span : Span) :
    (builder.addPart ⟨.literal v, span⟩).value = builder.value ++ v := by
  unfold value addPart
  rw [valueAll_append, valueAll_flush]
  simp [valueAll, Part.value, value]

theorem isEmpty_addPart (span : Span) : (builder.addPart ⟨.literal v, span⟩).isEmpty = false := by
  simp [isEmpty, addPart]

end PartBuilder

/-! ## One round of the loop of a part -/

section Round

variable {span span' : Span} {t : Token} {tokens : List (Spanned Token)} {builder : PartBuilder}

theorem parsePart_literal (v : List Char) :
    Parser.parsePart (fuel + 1) firstPart builder (.before (⟨.literal v, span⟩ :: tokens) pos b) =
      Parser.parsePart fuel firstPart (builder.addRaw v) (.before tokens (0 + span.stop) b) := rfl

theorem parsePart_dollar (h : tokens.head?.map (·.item) ≠ some .openParen) :
    Parser.parsePart (fuel + 1) firstPart builder (.before (⟨.dollar, span⟩ :: tokens) pos b) =
      Parser.parsePart fuel firstPart (builder.addRaw Token.dollar.asStr)
        (.before tokens (0 + span.stop) b) :=
  if_neg h

theorem parsePart_escape (v : List Char) :
    Parser.parsePart (fuel + 1) firstPart builder
        (.before (⟨.escapeChar v, span⟩ :: ⟨t, span'⟩ :: tokens) pos b) =
      Parser.parsePart fuel firstPart (Parser.escapedPart firstPart v builder (some t))
        (.before tokens (0 + span'.stop) b) := rfl

theorem parsePart_single {v : List Char} {rest : List (Spanned Token)} {stop : ℕ}
    (h : Parser.singleQuoted 0 tokens (0 + span.stop) [] = (v, rest, stop)) :
    Parser.parsePart (fuel + 1) firstPart builder (.before (⟨.singleQuote, span⟩ :: tokens) pos b) =
      Parser.parsePart fuel firstPart (builder.addPart ⟨.literal v, ⟨pos, stop⟩⟩)
        (.before rest stop b) := by
  have hround : Parser.parsePart (fuel + 1) firstPart builder
        (.before (⟨.singleQuote, span⟩ :: tokens) pos b) =
      Parser.parsePart fuel firstPart
        (builder.addPart ⟨.literal (Parser.singleQuoted 0 tokens (0 + span.stop) []).1,
          ⟨pos, (Parser.singleQuoted 0 tokens (0 + span.stop) []).2.2⟩⟩)
        (.before (Parser.singleQuoted 0 tokens (0 + span.stop) []).2.1
          (Parser.singleQuoted 0 tokens (0 + span.stop) []).2.2 b) := rfl
  rw [hround, h]

theorem parsePart_double {part : Spanned Part} {parser : Parser}
    (h : Parser.parseDoubleQuotedPart fuel (.new pos) (.before tokens (0 + span.stop) b) =
      (part, parser)) :
    Parser.parsePart (fuel + 1) firstPart builder (.before (⟨.doubleQuote, span⟩ :: tokens) pos b) =
      Parser.parsePart fuel firstPart (builder.addPart part) parser := by
  have hround : Parser.parsePart (fuel + 1) firstPart builder
        (.before (⟨.doubleQuote, span⟩ :: tokens) pos b) =
      Parser.parsePart fuel firstPart
        (builder.addPart
          (Parser.parseDoubleQuotedPart fuel (.new pos) (.before tokens (0 + span.stop) b)).1)
        (Parser.parseDoubleQuotedPart fuel (.new pos) (.before tokens (0 + span.stop) b)).2 := rfl
  rw [hround, h]

/-- What is added for a character after the escape character. -/
theorem escapedPart_eq {d : Char} (hd : d ≠ '\n') :
    Parser.escapedPart firstPart [c] builder (some (charToken escapeChar false d)) =
      builder.addRaw (if d = '~' || (firstPart && builder.isEmpty) then [c, d] else [d]) := by
  have htext := @asStr_charToken escapeChar false d
  by_cases htilde : d = '~'
  · subst htilde
    have htoken : charToken escapeChar false '~' = .literal ['~'] := by
      cases escapeChar <;> decide
    rw [htoken]
    simp [Parser.escapedPart]
  · have hgeneral : Parser.escapedPart firstPart [c] builder (some (charToken escapeChar false d)) =
        (if firstPart && builder.isEmpty then builder.addRaw [c] else builder).addRaw
          (charToken escapeChar false d).asStr := by
      unfold Parser.escapedPart
      split
      · rename_i h; exact nomatch h
      · rename_i h
        rw [Option.some.inj h] at htext
        exact absurd (List.cons.inj htext).1.symm hd
      · rename_i h
        rw [Option.some.inj h] at htext
        exact absurd (List.cons.inj htext).1.symm htilde
      · rename_i h
        rw [Option.some.inj h]
    rw [hgeneral, htext]
    simp only [htilde, decide_false, Bool.false_or]
    split
    · simp
    · rfl

end Round

/-- One round of the loop of a part reads some of the source, and adds what it stands for. -/
structure Round (escapeChar : EscapeChar) (firstPart b : Bool) (fuel p : ℕ) (builder : PartBuilder)
    (written meant rest : List Char) (n : ℕ) (v : List Char) (builder' : PartBuilder) : Prop where
  heard : Heard n meant v
  lost : lost escapeChar (written ++ rest) = n + lost escapeChar rest
  length : (lexemes escapeChar false rest).length <
    (lexemes escapeChar false (written ++ rest)).length
  ok : builder'.Ok (p + width written)
  value : builder'.value = builder.value ++ v
  start : builder'.start = builder.start
  isEmpty : builder'.isEmpty = false
  read : Parser.parsePart (fuel + 1) firstPart builder
      (.before (place p (lexemes escapeChar false (written ++ rest))) p b) =
    Parser.parsePart fuel firstPart builder'
      (.before (place (p + width written) (lexemes escapeChar false rest)) (p + width written) b)

section

variable {builder : PartBuilder} {rest text : List Char}

theorem round_raw (hok : builder.Ok p) {run : List Char}
    (hraw : ∀ d ∈ c :: run, isRaw escapeChar false d = true)
    (hrest : ∀ d ∈ rest.head?, isRaw escapeChar false d = false) :
    Round escapeChar firstPart b fuel p builder (c :: run) (c :: run) rest 0 (c :: run)
      (builder.addRaw (c :: run)) := by
  have hc := hraw c List.mem_cons_self
  have hstop : rest.takeWhile (isRaw escapeChar false) = [] ∧
      rest.dropWhile (isRaw escapeChar false) = rest := by
    cases rest with
    | nil => exact ⟨rfl, rfl⟩
    | cons d rest => simp [hrest d rfl]
  have htake : (run ++ rest).takeWhile (isRaw escapeChar false) = run := by
    rw [List.takeWhile_append_of_pos fun d hd => hraw d (List.mem_cons_of_mem c hd), hstop.1,
      List.append_nil]
  have hdrop : (run ++ rest).dropWhile (isRaw escapeChar false) = rest := by
    rw [List.dropWhile_append_of_pos fun d hd => hraw d (List.mem_cons_of_mem c hd), hstop.2]
  have hlex : lexemes escapeChar false (c :: run ++ rest) =
      ⟨.literal (c :: run), c :: run⟩ :: lexemes escapeChar false rest := by
    rw [List.cons_append, lexemes_run (raw_spec hc).2.2.2.1, sameRun_of_raw hc, tokenOf_of_raw hc,
      htake, hdrop]
  have htext : (Token.literal (c :: run)).asStr = c :: run := rfl
  refine ⟨.rfl', ?_, ?_, PartBuilder.addRaw_ok hok (by simp), PartBuilder.value_addRaw, rfl,
    PartBuilder.isEmpty_addRaw (by simp), ?_⟩
  · rw [lost_cons hlex]
    simp [Lexeme.lost, htext]
  · rw [hlex]
    simp
  · rw [hlex]
    simp only [place, Lexeme.placed, parsePart_literal, htext, Nat.zero_add]

theorem round_dollar (hok : builder.Ok p) (hrest : rest.head? ≠ some '(') :
    Round escapeChar firstPart b fuel p builder ['$'] ['$'] rest 0 ['$']
      (builder.addRaw ['$']) := by
  have hlex : lexemes escapeChar false (['$'] ++ rest) =
      ⟨.dollar, ['$']⟩ :: lexemes escapeChar false rest := lexemes_single rfl rest
  have htext : Token.dollar.asStr = ['$'] := rfl
  refine ⟨.rfl', ?_, ?_, PartBuilder.addRaw_ok hok (by simp), PartBuilder.value_addRaw, rfl,
    PartBuilder.isEmpty_addRaw (by simp), ?_⟩
  · rw [lost_cons hlex]
    rfl
  · rw [hlex]
    simp
  · rw [hlex]
    simp only [place, Lexeme.placed, htext]
    rw [parsePart_dollar (peek_ne_openParen hrest _), htext, Nat.zero_add]

theorem round_escape (hok : builder.Ok p) (hc : escapeChar.isChar c = true) {d : Char}
    (hd : d ≠ '\n') :
    Round escapeChar firstPart b fuel p builder [c, d]
      (if d = '~' || (firstPart && builder.isEmpty) then [c, d] else [d]) rest 0
      (if d = '~' || (firstPart && builder.isEmpty) then [c, d] else [d])
      (builder.addRaw (if d = '~' || (firstPart && builder.isEmpty) then [c, d] else [d])) := by
  have hlex : lexemes escapeChar false ([c, d] ++ rest) =
      ⟨.escapeChar [c], [c]⟩ :: ⟨charToken escapeChar false d, [d]⟩ ::
        lexemes escapeChar false rest := lexemes_escape hc rest
  have hne : (if d = '~' || (firstPart && builder.isEmpty) then [c, d] else [d]) ≠ [] := by
    split <;> simp
  refine ⟨.rfl', ?_, ?_, PartBuilder.addRaw_ok hok hne, PartBuilder.value_addRaw, rfl,
    PartBuilder.isEmpty_addRaw hne, ?_⟩
  · rw [Nat.zero_add]
    exact lost_escape hc d rest
  · rw [hlex]
    simp only [List.length_cons]
    omega
  · rw [hlex]
    simp only [place, Lexeme.placed]
    rw [parsePart_escape, escapedPart_eq hd, asStr_charToken]
    simp [Nat.add_assoc]

theorem round_single (hok : builder.Ok p) (h : quote ∉ text) :
    ∃ n v builder', Round escapeChar firstPart b fuel p builder (quote :: text ++ [quote]) text
      rest n v builder' := by
  have hlex : lexemes escapeChar false (quote :: (text ++ quote :: rest)) =
      ⟨.singleQuote, [quote]⟩ :: lexemes escapeChar false (text ++ quote :: rest) :=
    lexemes_quote _
  have hassoc : quote :: text ++ [quote] ++ rest = quote :: (text ++ quote :: rest) := by simp
  have hsize : quote.utf8Size = 1 := rfl
  obtain ⟨n, value, hheard, hlost, hlen, hread⟩ := @singleQuoted_eq escapeChar text h rest
    (p + width [quote]) (0 + (p + width Token.singleQuote.asStr)) []
  have hstop : p + width [quote] + width text + 1 = p + width (quote :: text ++ [quote]) := by
    simp [hsize]
    omega
  rw [hstop] at hread
  refine ⟨n, value, _, hheard, ?_, ?_, PartBuilder.addPart_ok hok (v := value),
    PartBuilder.value_addPart _, rfl, PartBuilder.isEmpty_addPart _, ?_⟩
  · rw [hassoc, lost_cons hlex, hlost]
    simp [Lexeme.lost, Token.asStr]
  · rw [hassoc, hlex]
    simp only [List.length_cons]
    omega
  · rw [hassoc, hlex]
    simp only [place, Lexeme.placed]
    rw [parsePart_single hread]
    rfl

theorem round_double (hok : builder.Ok p) (h : doubleText escapeChar text = true)
    (hfuel : (lexemes escapeChar false ('"' :: text ++ ['"'] ++ rest)).length < fuel + 1) :
    ∃ n v builder', Round escapeChar firstPart b fuel p builder ('"' :: text ++ ['"'])
      (doubleValue escapeChar text) rest n v builder' := by
  have hlex : lexemes escapeChar false ('"' :: (text ++ '"' :: rest)) =
      ⟨.doubleQuote, ['"']⟩ :: lexemes escapeChar false (text ++ '"' :: rest) :=
    lexemes_double _
  have hassoc : '"' :: text ++ ['"'] ++ rest = '"' :: (text ++ '"' :: rest) := by simp
  have hsize : '"'.utf8Size = 1 := rfl
  rw [hassoc, hlex, List.length_cons] at hfuel
  obtain ⟨n, value, hheard, hlost, hlen, hread⟩ := parseDouble_eq (b := b) h rest
    (p + width ['"']) (0 + (p + width Token.doubleQuote.asStr)) (.new p)
    (Nat.lt_of_succ_lt_succ hfuel)
  have hstop : p + width ['"'] + width text + 1 = p + width ('"' :: text ++ ['"']) := by
    simp [hsize]
    omega
  rw [hstop] at hread
  have hpart : ((PartBuilder.new p).addRaw value).complete (p + width ('"' :: text ++ ['"'])) =
      ⟨.literal value, ⟨p, p + width ('"' :: text ++ ['"'])⟩⟩ := by
    cases value with
    | nil => rfl
    | cons d value => rfl
  rw [hpart] at hread
  refine ⟨n, value, _, hheard, ?_, ?_, PartBuilder.addPart_ok hok (v := value),
    PartBuilder.value_addPart _, rfl, PartBuilder.isEmpty_addPart _, ?_⟩
  · rw [hassoc, lost_cons hlex, hlost]
    simp [Lexeme.lost, Token.asStr]
  · rw [hassoc, hlex]
    simp only [List.length_cons]
    omega
  · rw [hassoc, hlex]
    simp only [place, Lexeme.placed]
    rw [parsePart_double hread]

end

end Clinch.SimpleParser
