import Clinch.SimpleParser.Words

/-!
# Quoted texts are read back

* `lexemes_single`, `run_quoted`: the first lexeme of a text before a closing quote;
* **`singleQuoted_eq`**: a text in single quotes is heard;
* `escapedDouble_eq`, **`parseDouble_eq`**: a text in double quotes is heard.
-/

set_option autoImplicit false

namespace Clinch.SimpleParser

variable {escapeChar : EscapeChar} {c : Char} {rest : List Char} {p pos fuel : ℕ} {b : Bool}

theorem lost_cons {source : List Char} {l : Lexeme}
    (h : lexemes escapeChar false source = l :: lexemes escapeChar false rest) :
    lost escapeChar source = l.lost + lost escapeChar rest := by
  unfold lost
  rw [h, List.map_cons, List.sum_cons]

theorem lost_escape (h : escapeChar.isChar c = true) (d : Char) (cs : List Char) :
    lost escapeChar (c :: d :: cs) = lost escapeChar cs := by
  unfold lost
  rw [lexemes_escape h, List.map_cons, List.map_cons, List.sum_cons, List.sum_cons]
  have htext : (Token.escapeChar [c]).asStr = [c] := rfl
  simp [Lexeme.lost, asStr_charToken, htext]

/-- The token of a run is heard as the run. -/
theorem heard_tokenOf (cs : List Char) :
    Heard
      (Lexeme.lost ⟨tokenOf false c (cs.takeWhile (sameRun escapeChar false c)),
        c :: cs.takeWhile (sameRun escapeChar false c)⟩)
      (c :: cs.takeWhile (sameRun escapeChar false c))
      (tokenOf false c (cs.takeWhile (sameRun escapeChar false c))).asStr := by
  have hprefix : (tokenOf false c (cs.takeWhile (sameRun escapeChar false c))).asStr <+:
      c :: cs.takeWhile (sameRun escapeChar false c) := by
    rw [asStr_tokenOf]
    refine (List.prefix_cons_inj c).2 ?_
    split
    · exact List.take_prefix 1 _
    · exact List.prefix_refl _
  have hlen := hprefix.length_le
  refine ⟨?_, fun h => ?_⟩
  · simp only [Lexeme.lost]
    omega
  · simp only [Lexeme.lost] at h
    exact hprefix.eq_of_length_le (by omega)

theorem tokenOf_ne {t : Token} (h : t.asStr.head? ≠ some c) (cs : List Char) :
    tokenOf false c (cs.takeWhile (sameRun escapeChar false c)) ≠ t := by
  rintro rfl
  rw [asStr_tokenOf] at h
  exact h rfl

theorem single_ne_escapeChar (value : List Char) :
    Lexer.single false c ≠ some (.escapeChar value) := by
  unfold Lexer.single
  split
  all_goals simp

theorem tokenOf_ne_escapeChar (run value : List Char) :
    tokenOf false c run ≠ .escapeChar value := by
  unfold tokenOf
  split
  · split <;> simp
  split
  · split <;> simp
  cases h : Lexer.single false c with
  | some token =>
    rintro rfl
    exact single_ne_escapeChar value h
  | none =>
    simp only
    split
    · simp
    · split <;> simp

theorem charToken_ne {t : Token} {d : Char} (h : t.asStr.head? ≠ some d) :
    charToken escapeChar false d ≠ t := by
  rintro rfl
  rw [asStr_charToken] at h
  exact h rfl

/-- A run ends before a token of one character. -/
theorem sameRun_single {q : Char} {t : Token} (h : Lexer.single false q = some t) (hc : c ≠ q) :
    sameRun escapeChar false c q = false := by
  have hblank := (single_eq_some h).1
  have hraw : isRaw escapeChar false q = false := by simp [isRaw, h]
  unfold sameRun
  split
  · exact decide_eq_false (Ne.symm hc)
  · rw [hblank, hraw, Bool.and_false, Bool.and_false, Bool.or_false]

/-- A character that is a token by itself. -/
theorem lexemes_single {t : Token} (h : Lexer.single false c = some t) (rest : List Char) :
    lexemes escapeChar false (c :: rest) = ⟨t, [c]⟩ :: lexemes escapeChar false rest := by
  have hrun := takeWhile_none (sameRun_of_single escapeChar h) rest
  obtain ⟨-, -, hpipe, hamp, -⟩ := single_eq_some h
  have htoken : tokenOf false c [] = t := by simp [tokenOf, hpipe, hamp, h]
  rw [lexemes_run (isChar_of_single h), hrun.1, hrun.2, htoken]

theorem lexemes_quote (rest : List Char) : lexemes escapeChar false (quote :: rest) =
    ⟨.singleQuote, [quote]⟩ :: lexemes escapeChar false rest :=
  lexemes_single rfl rest

theorem lexemes_double (rest : List Char) : lexemes escapeChar false ('"' :: rest) =
    ⟨.doubleQuote, ['"']⟩ :: lexemes escapeChar false rest :=
  lexemes_single rfl rest

/-- A run ends before a closing quote. -/
theorem takeWhile_quote {q : Char} {f : Char → Bool} (hq : f q = false) (text rest : List Char) :
    (text ++ q :: rest).takeWhile f = text.takeWhile f ∧
      (text ++ q :: rest).dropWhile f = text.dropWhile f ++ q :: rest := by
  induction text with
  | nil => simp [hq]
  | cons d text ih => by_cases hd : f d = true <;> simp [hd, ih]

/-- The first run of a text that is followed by a quote. -/
theorem run_quoted {q : Char} (hc : escapeChar.isChar c = false)
    (hq : sameRun escapeChar false c q = false) (cs rest : List Char) :
    ∃ token run cs', cs = run ++ cs' ∧ (∀ d ∈ run, sameRun escapeChar false c d = true) ∧
      cs' = cs.dropWhile (sameRun escapeChar false c) ∧
      Heard (Lexeme.lost ⟨token, c :: run⟩) (c :: run) token.asStr ∧
      token.asStr.head? = some c ∧ (∀ value, token ≠ .escapeChar value) ∧
      lexemes escapeChar false (c :: cs ++ q :: rest) =
        ⟨token, c :: run⟩ :: lexemes escapeChar false (cs' ++ q :: rest) := by
  have hrun := takeWhile_quote hq cs rest
  refine ⟨_, _, _, List.takeWhile_append_dropWhile.symm, fun d hd => List.mem_takeWhile_imp hd, rfl,
    heard_tokenOf cs, ?_, tokenOf_ne_escapeChar _, ?_⟩
  · rw [asStr_tokenOf]
    rfl
  · rw [List.cons_append, lexemes_run hc, hrun.1, hrun.2]

/-- **The text between single quotes is heard.** -/
theorem singleQuoted_eq {text : List Char} (h : quote ∉ text) (rest : List Char) (p pos : ℕ)
    (buffer : List Char) :
    ∃ n value, Heard n text value ∧
      lost escapeChar (text ++ quote :: rest) = n + lost escapeChar rest ∧
      (lexemes escapeChar false rest).length <
        (lexemes escapeChar false (text ++ quote :: rest)).length ∧
      Parser.singleQuoted 0 (place p (lexemes escapeChar false (text ++ quote :: rest))) pos
          buffer =
        (buffer ++ value, place (p + width text + 1) (lexemes escapeChar false rest),
          p + width text + 1) := by
  induction text using lexemes_induction escapeChar false generalizing p pos buffer with
  | nil =>
    refine ⟨0, [], .rfl', ?_, ?_, ?_⟩
    · unfold lost
      rw [List.nil_append, lexemes_quote]
      simp [Lexeme.lost, Token.asStr]
    · rw [List.nil_append, lexemes_quote]
      simp
    · rw [List.nil_append, lexemes_quote]
      simp [place, Parser.singleQuoted, Lexeme.placed, Token.asStr,
        show quote.utf8Size = 1 from rfl]
  | escape_nil c hc =>
    have hquote : charToken escapeChar false quote = .singleQuote := by
      cases escapeChar <;> rfl
    rw [List.singleton_append, lost_escape hc, lexemes_escape hc, hquote]
    refine ⟨0, [c], .rfl', (Nat.zero_add _).symm, ?_, ?_⟩
    · simp only [List.length_cons]
      omega
    · simp [place, Parser.singleQuoted, Lexeme.placed, Token.asStr,
        show quote.utf8Size = 1 from rfl]
  | escape c d cs hc ih =>
    have hd : d ≠ quote := fun e => h (by simp [e])
    have hne : charToken escapeChar false d ≠ .singleQuote :=
      charToken_ne (fun e => hd (Option.some.inj e).symm)
    obtain ⟨n, value, hheard, hlost, hlen, hread⟩ :=
      ih (fun hmem => h (List.mem_cons_of_mem c (List.mem_cons_of_mem d hmem)))
        (p + width [c] + width [d]) (0 + (p + width [c] + width [d])) (buffer ++ [c] ++ [d])
    refine ⟨n, c :: d :: value, ?_, ?_, ?_, ?_⟩
    · simpa using (Heard.rfl' : Heard 0 [c, d] [c, d]).append hheard
    · rw [List.cons_append, List.cons_append, lost_escape hc, hlost]
    · rw [List.cons_append, List.cons_append, lexemes_escape hc]
      simp only [List.length_cons]
      omega
    · have hesc : Token.escapeChar [c] ≠ .singleQuote := fun e => by cases e
      have htext : (Token.escapeChar [c]).asStr = [c] := rfl
      rw [List.cons_append, List.cons_append, lexemes_escape hc]
      simp only [place, Parser.singleQuoted, Lexeme.placed, if_neg hesc, if_neg hne, htext,
        asStr_charToken, hread]
      simp [Nat.add_assoc]
  | run c cs hc ih =>
    have hne : c ≠ quote := fun e => h (by simp [e])
    obtain ⟨token, run, cs', hcs, -, hdrop, htoken, hfirst, -, hlex⟩ :=
      run_quoted hc (sameRun_single rfl hne) cs rest
    rw [← hdrop] at ih
    subst hcs
    have hquote : token ≠ .singleQuote := by
      rintro rfl
      exact hne (Option.some.inj hfirst).symm
    obtain ⟨n, value, hheard, hlost, hlen, hread⟩ :=
      ih (fun hmem => h (List.mem_cons_of_mem c (List.mem_append_right run hmem)))
        (p + width (c :: run)) (0 + (p + width token.asStr)) (buffer ++ token.asStr)
    refine ⟨Lexeme.lost ⟨token, c :: run⟩ + n, token.asStr ++ value, ?_, ?_, ?_, ?_⟩
    · exact htoken.append hheard
    · rw [lost_cons hlex, hlost, Nat.add_assoc]
    · rw [hlex]
      simp only [List.length_cons]
      omega
    · rw [hlex]
      simp only [place, Parser.singleQuoted, Lexeme.placed, if_neg hquote, hread]
      simp [Nat.add_assoc]

/-! ## Double quotes -/

@[simp] theorem addRaw_addRaw (builder : PartBuilder) (a a' : List Char) :
    (builder.addRaw a).addRaw a' = builder.addRaw (a ++ a') := by
  simp [PartBuilder.addRaw]

/-- The parser before some tokens. -/
def Parser.before (tokens : List (Spanned Token)) (pos : ℕ) (containsRedirection : Bool) : Parser :=
  ⟨⟨tokens, pos, 0⟩, containsRedirection⟩

theorem parseDouble_raw {t : Token} {span : Span} {tokens : List (Spanned Token)}
    (hfirst : t.asStr.head? = some c) (hesc : ∀ value, t ≠ .escapeChar value) (hquote : c ≠ '"')
    (htick : c ≠ '`') (hdollar : c ≠ '$') (builder : PartBuilder) :
    Parser.parseDoubleQuotedPart (fuel + 1) builder (.before (⟨t, span⟩ :: tokens) pos b) =
      Parser.parseDoubleQuotedPart fuel (builder.addRaw t.asStr)
        (.before tokens (0 + span.stop) b) := by
  cases t with
  | doubleQuote => exact absurd (Option.some.inj hfirst).symm hquote
  | backtick => exact absurd (Option.some.inj hfirst).symm htick
  | dollar => exact absurd (Option.some.inj hfirst).symm hdollar
  | escapeChar value => exact absurd rfl (hesc value)
  | _ => rfl

theorem parseDouble_dollar {span : Span} {tokens : List (Spanned Token)}
    (h : tokens.head?.map (·.item) ≠ some .openParen) (builder : PartBuilder) :
    Parser.parseDoubleQuotedPart (fuel + 1) builder (.before (⟨.dollar, span⟩ :: tokens) pos b) =
      Parser.parseDoubleQuotedPart fuel (builder.addRaw Token.dollar.asStr)
        (.before tokens (0 + span.stop) b) :=
  if_neg h

theorem parseDouble_close {span : Span} {tokens : List (Spanned Token)} (builder : PartBuilder) :
    Parser.parseDoubleQuotedPart (fuel + 1) builder
        (.before (⟨.doubleQuote, span⟩ :: tokens) pos b) =
      (builder.complete (0 + span.stop), .before tokens (0 + span.stop) b) := rfl

theorem parseDouble_escape {value : List Char} {span span' : Span} {t : Token}
    {tokens : List (Spanned Token)} (builder : PartBuilder) :
    Parser.parseDoubleQuotedPart (fuel + 1) builder
        (.before (⟨.escapeChar value, span⟩ :: ⟨t, span'⟩ :: tokens) pos b) =
      Parser.parseDoubleQuotedPart fuel (Parser.escapedDouble value builder (some t))
        (.before tokens (0 + span'.stop) b) := rfl

theorem not_isChar_of_sameRun (hc : escapeChar.isChar c = false) {d : Char}
    (h : sameRun escapeChar false c d = true) : escapeChar.isChar d = false := by
  by_cases hop : c = '|' ∨ c = '&'
  · have hd : d = c := by rcases hop with rfl | rfl <;> exact of_decide_eq_true h
    rw [hd, hc]
  · exact (sameRun_plain (not_or.1 hop).1 (not_or.1 hop).2 hc h).1

theorem doubleText_cons (hc : escapeChar.isChar c = false) {text : List Char}
    (h : doubleText escapeChar (c :: text) = true) :
    doubleText escapeChar text = true ∧ c ≠ '"' ∧ c ≠ '`' ∧ (c = '$' → text.head? ≠ some '(') := by
  cases text with
  | nil => simp_all [doubleText]
  | cons d text =>
    simp only [doubleText, hc, Bool.false_eq_true, if_false, Bool.and_eq_true, decide_eq_true_eq,
      Bool.not_eq_true', Bool.and_eq_false_iff, decide_eq_false_iff_not] at h
    obtain ⟨⟨⟨hquote, htick⟩, hparen⟩, htext⟩ := h
    refine ⟨htext, hquote, htick, fun hc e => ?_⟩
    exact hparen.elim (fun h => h hc) (fun h => h (Option.some.inj e))

theorem doubleText_append (run : List Char) {text : List Char}
    (hrun : ∀ d ∈ run, escapeChar.isChar d = false)
    (h : doubleText escapeChar (run ++ text) = true) : doubleText escapeChar text = true := by
  induction run with
  | nil => exact h
  | cons d run ih =>
    exact ih (fun e he => hrun e (List.mem_cons_of_mem d he))
      (doubleText_cons (hrun d List.mem_cons_self) h).1

theorem doubleValue_append (run : List Char) (hrun : ∀ d ∈ run, escapeChar.isChar d = false)
    (text : List Char) :
    doubleValue escapeChar (run ++ text) = run ++ doubleValue escapeChar text := by
  induction run with
  | nil => rfl
  | cons d run ih =>
    have hd := hrun d List.mem_cons_self
    rw [List.cons_append, List.cons_append,
      ← ih fun e he => hrun e (List.mem_cons_of_mem d he)]
    cases run ++ text with
    | nil => rfl
    | cons e cs => simp [doubleValue, hd]

/-- The first token has the first character. -/
theorem head_lexemes (cs : List Char) :
    ∃ l ls, lexemes escapeChar false (c :: cs) = l :: ls ∧ l.token.asStr.head? = some c := by
  cases hc : escapeChar.isChar c with
  | false => exact ⟨_, _, lexemes_run hc cs, by rw [asStr_tokenOf]; rfl⟩
  | true =>
    cases cs with
    | nil => exact ⟨_, _, lexemes_escape_nil hc, rfl⟩
    | cons d cs => exact ⟨_, _, lexemes_escape hc cs, rfl⟩

theorem peek_ne_openParen {source : List Char} (h : source.head? ≠ some '(') (p : ℕ) :
    (place p (lexemes escapeChar false source)).head?.map (·.item) ≠ some .openParen := by
  cases source with
  | nil =>
    rw [lexemes_nil]
    exact fun e => nomatch e
  | cons c cs =>
    obtain ⟨l, ls, hlex, hfirst⟩ := @head_lexemes escapeChar c cs
    rw [hlex]
    intro e
    have htoken : l.token = .openParen := Option.some.inj e
    rw [htoken] at hfirst
    exact h hfirst.symm

/-- What is added for a character after the escape character. -/
theorem escapedDouble_eq {d : Char} (hd : d ≠ '\n') (builder : PartBuilder) :
    Parser.escapedDouble [c] builder (some (charToken escapeChar false d)) =
      builder.addRaw (if unescapedInDouble escapeChar d then [d] else [c, d]) := by
  have htext := @asStr_charToken escapeChar false d
  cases hesc : escapeChar.isChar d with
  | true => simp [charToken, hesc, Parser.escapedDouble, unescapedInDouble]
  | false =>
    rw [charToken, hesc] at htext ⊢
    simp only [Bool.false_eq_true, if_false] at htext ⊢
    by_cases hspecial : unescapedInDouble escapeChar d = true
    · rw [if_pos hspecial]
      simp only [unescapedInDouble, hesc, Bool.or_false, Bool.or_eq_true, decide_eq_true_eq]
        at hspecial
      rcases hspecial with (rfl | rfl) | rfl <;> rfl
    · rw [if_neg hspecial]
      simp only [unescapedInDouble, hesc, Bool.or_false, Bool.or_eq_true, decide_eq_true_eq,
        not_or] at hspecial
      obtain ⟨⟨hdollar, htick⟩, hquote⟩ := hspecial
      have hne := tokenOf_ne_escapeChar (c := d) []
      revert htext hne
      cases tokenOf false d [] with
      | newline => exact fun htext _ => absurd (List.cons.inj htext).1.symm hd
      | dollar => exact fun htext _ => absurd (List.cons.inj htext).1.symm hdollar
      | backtick => exact fun htext _ => absurd (List.cons.inj htext).1.symm htick
      | doubleQuote => exact fun htext _ => absurd (List.cons.inj htext).1.symm hquote
      | escapeChar value => exact fun _ hne => absurd rfl (hne value)
      | _ =>
        intro htext _
        simp only [Parser.escapedDouble, PartBuilder.addRaw, htext, List.append_assoc]
        rfl

/-- **The text between double quotes is heard.** -/
theorem parseDouble_eq {text : List Char} (h : doubleText escapeChar text = true)
    (rest : List Char) (p pos : ℕ) (builder : PartBuilder)
    (hfuel : (lexemes escapeChar false (text ++ '"' :: rest)).length < fuel) :
    ∃ n value, Heard n (doubleValue escapeChar text) value ∧
      lost escapeChar (text ++ '"' :: rest) = n + lost escapeChar rest ∧
      (lexemes escapeChar false rest).length <
        (lexemes escapeChar false (text ++ '"' :: rest)).length ∧
      Parser.parseDoubleQuotedPart fuel builder
          (.before (place p (lexemes escapeChar false (text ++ '"' :: rest))) pos b) =
        ((builder.addRaw value).complete (p + width text + 1),
          .before (place (p + width text + 1) (lexemes escapeChar false rest))
            (p + width text + 1) b) := by
  obtain ⟨fuel, rfl⟩ : ∃ n, fuel = n + 1 := ⟨fuel - 1, by omega⟩
  induction text using lexemes_induction escapeChar false generalizing p pos builder fuel with
  | nil =>
    refine ⟨0, [], .rfl', ?_, ?_, ?_⟩
    · rw [List.nil_append, lost_cons (lexemes_double rest)]
      rfl
    · rw [List.nil_append, lexemes_double]
      simp
    · have hsize : '"'.utf8Size = 1 := rfl
      rw [List.nil_append, lexemes_double]
      simp only [place, Lexeme.placed, parseDouble_close]
      simp [Token.asStr, hsize, PartBuilder.addRaw]
  | escape_nil c hc => simp [doubleText, hc] at h
  | escape c d cs hc ih =>
    simp only [doubleText, hc, if_true, Bool.and_eq_true, decide_eq_true_eq] at h
    rw [List.cons_append, List.cons_append, lexemes_escape hc, lost_escape hc] at *
    obtain ⟨fuel, rfl⟩ : ∃ n, fuel = n + 1 := ⟨fuel - 1, by simp at hfuel; omega⟩
    obtain ⟨n, value, hheard, hlost, hlen, hread⟩ :=
      ih h.2 (p + width [c] + width [d])
        (0 + (p + width [c] + width (charToken escapeChar false d).asStr))
        (builder.addRaw (if unescapedInDouble escapeChar d then [d] else [c, d])) fuel
        (by simp at hfuel; omega)
    refine ⟨n, (if unescapedInDouble escapeChar d then [d] else [c, d]) ++ value, ?_, hlost, ?_, ?_⟩
    · simp only [doubleValue, hc, if_true]
      simpa using Heard.rfl'.append hheard
    · simp only [List.length_cons]
      omega
    · simp only [place, Lexeme.placed]
      rw [parseDouble_escape, escapedDouble_eq h.1, hread]
      simp [Nat.add_assoc]
  | run c cs hc ih =>
    obtain ⟨htext, hquote, htick, hparen⟩ := doubleText_cons hc h
    by_cases hdollar : c = '$'
    · subst hdollar
      have hdrop := (takeWhile_none
        (sameRun_of_single escapeChar (show Lexer.single false '$' = some .dollar from rfl)) cs).2
      have hlex : lexemes escapeChar false ('$' :: cs ++ '"' :: rest) =
          ⟨.dollar, ['$']⟩ :: lexemes escapeChar false (cs ++ '"' :: rest) := lexemes_single rfl _
      rw [hlex] at hfuel
      obtain ⟨fuel, rfl⟩ : ∃ n, fuel = n + 1 := ⟨fuel - 1, by simp at hfuel; omega⟩
      have hhead : (cs ++ '"' :: rest).head? ≠ some '(' := by
        cases cs with
        | nil => simp
        | cons d cs => exact hparen rfl
      rw [hdrop] at ih
      obtain ⟨n, value, hheard, hlost, hlen, hread⟩ :=
        ih htext (p + width ['$']) (0 + (p + width Token.dollar.asStr))
          (builder.addRaw Token.dollar.asStr) fuel (by simp at hfuel; omega)
      refine ⟨n, '$' :: value, ?_, ?_, ?_, ?_⟩
      · have hvalue := doubleValue_append ['$'] (by simpa using hc) cs
        rw [List.singleton_append, List.singleton_append] at hvalue
        rw [hvalue]
        simpa using (Heard.rfl' : Heard 0 ['$'] ['$']).append hheard
      · rw [lost_cons hlex, hlost]
        simp [Lexeme.lost, Token.asStr]
      · rw [hlex]
        simp only [List.length_cons]
        omega
      · rw [hlex]
        simp only [place, Lexeme.placed]
        rw [parseDouble_dollar (peek_ne_openParen hhead _), hread]
        simp [Nat.add_assoc, Token.asStr]
    · obtain ⟨token, run, cs', hcs, hsame, hdrop, htoken, hfirst, hesc, hlex⟩ :=
        run_quoted hc (sameRun_single (t := .doubleQuote) rfl hquote) cs rest
      have hrun : ∀ d ∈ c :: run, escapeChar.isChar d = false := by
        rintro d hd
        rcases List.mem_cons.1 hd with rfl | hd
        · exact hc
        · exact not_isChar_of_sameRun hc (hsame d hd)
      rw [← hdrop] at ih
      subst hcs
      rw [hlex] at hfuel
      obtain ⟨fuel, rfl⟩ : ∃ n, fuel = n + 1 := ⟨fuel - 1, by simp at hfuel; omega⟩
      obtain ⟨n, value, hheard, hlost, hlen, hread⟩ :=
        ih (doubleText_append (c :: run) hrun h) (p + width (c :: run))
          (0 + (p + width token.asStr)) (builder.addRaw token.asStr) fuel (by simp at hfuel; omega)
      refine ⟨Lexeme.lost ⟨token, c :: run⟩ + n, token.asStr ++ value, ?_, ?_, ?_, ?_⟩
      · have hvalue := doubleValue_append (c :: run) hrun cs'
        rw [List.cons_append] at hvalue
        rw [hvalue]
        exact htoken.append hheard
      · rw [lost_cons hlex, hlost, Nat.add_assoc]
      · rw [hlex]
        simp only [List.length_cons]
        omega
      · rw [hlex]
        simp only [place, Lexeme.placed]
        rw [parseDouble_raw hfirst hesc hquote htick hdollar, hread]
        simp [Nat.add_assoc]

end Clinch.SimpleParser
