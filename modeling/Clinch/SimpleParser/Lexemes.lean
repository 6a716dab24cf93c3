import Clinch.SimpleParser.Lexer

/-!
# Lexemes

A lexeme is a token with the characters that the lexer consumes for it. They are the text of the
token, but for an operator of three or more equal characters.

* `lexemes`: the lexemes of a source; `place`: their tokens with the spans the lexer gives them;
* `whitespaceRun_eq`, `operator_eq`: the runs of the lexer;
* **`classifyNext_token`**, `classifyNext_raw`, `classifyNext_escape`: one step of the lexer.
-/

set_option autoImplicit false

namespace Clinch.SimpleParser

structure Lexeme where
  token : Token
  chars : List Char
deriving DecidableEq

def isBlank (c : Char) : Bool := isWhitespace c && c ≠ '\n'

/-- A character of a literal. -/
def isRaw (escapeChar : EscapeChar) (lit : Bool) (c : Char) : Bool :=
  c ≠ '|' && c ≠ '&' && (Lexer.single lit c).isNone && !escapeChar.isChar c && c ≠ '`' &&
    !isWhitespace c

/-- The characters that are consumed together with the first one. -/
def sameRun (escapeChar : EscapeChar) (lit : Bool) (c d : Char) : Bool :=
  if c = '|' || c = '&' then d = c
  else (isBlank c && isBlank d) || (isRaw escapeChar lit c && isRaw escapeChar lit d)

/-- The token of a run of characters, of which the first is not the escape character. -/
def tokenOf (lit : Bool) (c : Char) (run : List Char) : Token :=
  if c = '|' then if run = [] then .pipe else .logicalOr
  else if c = '&' then if run = [] then .ampersand else .logicalAnd
  else match Lexer.single lit c with
    | some token => token
    | none =>
      if c = '`' then .backtick
      else if isWhitespace c then .whitespace (c :: run)
      else .literal (c :: run)

variable (escapeChar : EscapeChar) (lit : Bool)

/-- The token of a character after the escape character. -/
def charToken (d : Char) : Token :=
  if escapeChar.isChar d then .escapeChar [d] else tokenOf lit d []

/-- The lexemes of a source. -/
def lexemes : List Char → List Lexeme
  | [] => []
  | c :: cs =>
    if escapeChar.isChar c then
      match cs with
      | [] => [⟨.escapeChar [c], [c]⟩]
      | d :: cs => ⟨.escapeChar [c], [c]⟩ :: ⟨charToken escapeChar lit d, [d]⟩ :: lexemes cs
    else
      let run := cs.takeWhile (sameRun escapeChar lit c)
      ⟨tokenOf lit c run, c :: run⟩ :: lexemes (cs.dropWhile (sameRun escapeChar lit c))
  termination_by source => source.length
  decreasing_by
    · simp_wf
    · simp_wf
      exact List.length_dropWhile_le _ _

/-- The token of a lexeme at a position. -/
def Lexeme.placed (l : Lexeme) (p : ℕ) : Spanned Token :=
  ⟨l.token, ⟨p, p + width l.token.asStr⟩⟩

/-- The tokens of the lexemes from a position. -/
def place : ℕ → List Lexeme → List (Spanned Token)
  | _, [] => []
  | p, l :: ls => l.placed p :: place (p + width l.chars) ls

variable {escapeChar lit}

theorem lexemes_nil : lexemes escapeChar lit [] = [] := by rw [lexemes]

theorem lexemes_escape {c d : Char} (h : escapeChar.isChar c = true) (cs : List Char) :
    lexemes escapeChar lit (c :: d :: cs) =
      ⟨.escapeChar [c], [c]⟩ :: ⟨charToken escapeChar lit d, [d]⟩ ::
        lexemes escapeChar lit cs := by
  rw [lexemes, if_pos h]

theorem lexemes_escape_nil {c : Char} (h : escapeChar.isChar c = true) :
    lexemes escapeChar lit [c] = [⟨.escapeChar [c], [c]⟩] := by
  rw [lexemes.eq_def]
  exact if_pos h

theorem lexemes_run {c : Char} (h : escapeChar.isChar c = false) (cs : List Char) :
    lexemes escapeChar lit (c :: cs) =
      ⟨tokenOf lit c (cs.takeWhile (sameRun escapeChar lit c)),
        c :: cs.takeWhile (sameRun escapeChar lit c)⟩ ::
      lexemes escapeChar lit (cs.dropWhile (sameRun escapeChar lit c)) := by
  rw [lexemes.eq_def]
  exact if_neg (by simp [h])

/-- Induction over the lexemes of a source. -/
theorem lexemes_induction (escapeChar : EscapeChar) (lit : Bool) {motive : List Char → Prop}
    (nil : motive [])
    (escape_nil : ∀ c, escapeChar.isChar c = true → motive [c])
    (escape : ∀ c d cs, escapeChar.isChar c = true → motive cs → motive (c :: d :: cs))
    (run : ∀ c cs, escapeChar.isChar c = false →
      motive (cs.dropWhile (sameRun escapeChar lit c)) → motive (c :: cs)) (source : List Char) :
    motive source := by
  induction hn : source.length using Nat.strong_induction_on generalizing source with
  | _ n ih =>
    cases source with
    | nil => exact nil
    | cons c cs =>
      simp only [List.length_cons] at hn
      cases h : escapeChar.isChar c with
      | false =>
        have hlen := List.length_dropWhile_le (sameRun escapeChar lit c) cs
        exact run c cs h (ih _ (by omega) _ rfl)
      | true =>
        cases cs with
        | nil => exact escape_nil c h
        | cons d cs =>
          simp only [List.length_cons] at hn
          exact escape c d cs h (ih _ (by omega) _ rfl)

theorem chars_lexemes (escapeChar : EscapeChar) (lit : Bool) (source : List Char) :
    (lexemes escapeChar lit source).flatMap (·.chars) = source := by
  induction source using lexemes_induction escapeChar lit with
  | nil => rw [lexemes_nil]; rfl
  | escape_nil c h => rw [lexemes_escape_nil h]; rfl
  | escape c d cs h ih => rw [lexemes_escape h, List.flatMap_cons, List.flatMap_cons, ih]; rfl
  | run c cs h ih =>
    rw [lexemes_run h, List.flatMap_cons, ih, List.cons_append, List.takeWhile_append_dropWhile]

/-! ## One step of the lexer -/

/-- The lexer with some characters behind it. -/
def Lexer.between (escapeChar : EscapeChar) (lit : Bool) (done rest : List Char)
    (queued : Option Classified) : Lexer :=
  ⟨done ++ rest, escapeChar, width done, queued, lit⟩

variable {done rest : List Char} {queued : Option Classified} {fuel : ℕ} {c : Char}

theorem peek_nil : (Lexer.between escapeChar lit done [] queued).peek = none := by
  unfold Lexer.peek Lexer.between
  rw [dropBytes_append]

theorem peek_cons : (Lexer.between escapeChar lit done (c :: rest) queued).peek =
    some (⟨width done, width done + c.utf8Size⟩, c) := by
  unfold Lexer.peek Lexer.between
  rw [dropBytes_append]

theorem between_cons (a : List Char) :
    { Lexer.between escapeChar lit done (a ++ rest) queued with pos := width done + width a } =
      Lexer.between escapeChar lit (done ++ a) rest queued := by
  unfold Lexer.between
  rw [width_append, List.append_assoc]

theorem step_nil : (Lexer.between escapeChar lit done [] queued).step = none := by
  unfold Lexer.step
  rw [peek_nil]
  rfl

theorem step_cons : (Lexer.between escapeChar lit done (c :: rest) queued).step =
    some ((⟨width done, width done + c.utf8Size⟩, c),
      Lexer.between escapeChar lit (done ++ [c]) rest queued) := by
  unfold Lexer.step
  rw [peek_cons, ← between_cons [c]]
  simp

theorem slice_between (a b : List Char) :
    Span.slice ⟨width done, width done + width a⟩
      (Lexer.between escapeChar lit (done ++ a) b queued).source = a := by
  unfold Lexer.between
  rw [List.append_assoc, slice_append]

theorem whitespaceRun_eq {start : ℕ} (h : rest.length ≤ fuel) :
    Lexer.whitespaceRun fuel ⟨start, width done⟩ (Lexer.between escapeChar lit done rest none) =
      (⟨start, width (done ++ rest.takeWhile isBlank)⟩,
        Lexer.between escapeChar lit (done ++ rest.takeWhile isBlank) (rest.dropWhile isBlank)
          none) := by
  induction rest generalizing done fuel with
  | nil =>
    cases fuel with
    | zero => simp [Lexer.whitespaceRun]
    | succ fuel => simp [Lexer.whitespaceRun, peek_nil]
  | cons c rest ih =>
    obtain ⟨fuel, rfl⟩ : ∃ n, fuel = n + 1 := ⟨fuel - 1, by simp at h; omega⟩
    rw [Lexer.whitespaceRun, peek_cons]
    cases hc : isBlank c with
    | false =>
      have hc' : (isWhitespace c && c ≠ '\n') = false := hc
      simp only [hc', List.takeWhile_cons, List.dropWhile_cons, hc, Bool.false_eq_true, if_false,
        List.append_nil]
    | true =>
      have hc' : (isWhitespace c && c ≠ '\n') = true := hc
      simp only [hc', List.takeWhile_cons, List.dropWhile_cons, hc, if_true, Span.upTo]
      have hstep := @between_cons escapeChar lit done rest none [c]
      simp only [List.singleton_append, width_cons, width_nil, Nat.add_zero] at hstep
      rw [hstep]
      have hw : width done + c.utf8Size = width (done ++ [c]) := by simp
      rw [hw, ih (Nat.le_of_succ_le_succ h), List.append_assoc]
      rfl

/-- The two operators of one or two characters. -/
def IsOperator (c : Char) (twice once : Token) : Prop :=
  (c = '|' ∧ twice = .logicalOr ∧ once = .pipe) ∨
    (c = '&' ∧ twice = .logicalAnd ∧ once = .ampersand)

section Operator

variable {twice once : Token}

theorem classifyNext_operator (h : IsOperator c twice once) :
    (Lexer.between escapeChar lit done (c :: rest) none).classifyNext (fuel + 1) =
      Lexer.operator fuel c twice once ⟨width done, width done + 1⟩
        (Lexer.between escapeChar lit (done ++ [c]) rest none) := by
  have hqueued : (Lexer.between escapeChar lit done (c :: rest) none).queued = none := rfl
  rw [Lexer.classifyNext, hqueued]
  simp only [step_cons]
  rcases h with ⟨rfl, rfl, rfl⟩ | ⟨rfl, rfl, rfl⟩
  · rfl
  · rfl

/-- The whole run is consumed, whatever its length. -/
theorem operator_eq (h : IsOperator c twice once) (hfuel : 3 * rest.length < fuel) :
    Lexer.operator fuel c twice once ⟨width done, width done + 1⟩
        (Lexer.between escapeChar lit (done ++ [c]) rest none) =
      (some (.token (Lexeme.placed
          ⟨if rest.takeWhile (· = c) = [] then once else twice, c :: rest.takeWhile (· = c)⟩
          (width done))),
        Lexer.between escapeChar lit (done ++ c :: rest.takeWhile (· = c))
          (rest.dropWhile (· = c)) none) := by
  have honce : width once.asStr = 1 := by rcases h with ⟨-, -, rfl⟩ | ⟨-, -, rfl⟩ <;> rfl
  have htwice : width twice.asStr = 2 := by rcases h with ⟨-, rfl, -⟩ | ⟨-, rfl, -⟩ <;> rfl
  have hsize : c.utf8Size = 1 := by rcases h with ⟨rfl, -⟩ | ⟨rfl, -⟩ <;> rfl
  induction rest generalizing done fuel with
  | nil =>
    obtain ⟨fuel, rfl⟩ : ∃ n, fuel = n + 1 := ⟨fuel - 1, by omega⟩
    rw [Lexer.operator, peek_nil]
    simp [Lexeme.placed, honce]
  | cons d rest ih =>
    obtain ⟨fuel, rfl⟩ : ∃ n, fuel = n + 3 := ⟨fuel - 3, by simp at hfuel; omega⟩
    rw [Lexer.operator, peek_cons]
    by_cases hd : d = c
    · subst hd
      have hnext := @ih (done ++ [d]) fuel (by simp at hfuel; omega)
      simp only [if_true, Lexer.next, classifyNext_operator h, hnext]
      simp [Lexeme.placed, htwice, hsize, Span.upTo]
    · simp [hd, Lexeme.placed, honce]

end Operator

theorem single_eq_some {token : Token} (h : Lexer.single lit c = some token) :
    isBlank c = false ∧ token.asStr = [c] ∧ c ≠ '|' ∧ c ≠ '&' ∧ c ≠ '`' ∧ c ≠ '\\' := by
  unfold Lexer.single at h
  split at h
  all_goals
    first
    | (split at h <;> simp_all <;> subst h <;> decide)
    | (obtain rfl := Option.some.inj h; decide)

theorem isChar_of_single {token : Token} (h : Lexer.single lit c = some token) :
    escapeChar.isChar c = false := by
  obtain ⟨-, -, -, -, h₁, h₂⟩ := single_eq_some h
  cases escapeChar with
  | backslash => exact decide_eq_false h₂
  | backtick => exact decide_eq_false h₁

/-- A character that is a token by itself is alone in its run. -/
theorem sameRun_of_single (escapeChar : EscapeChar) {token : Token}
    (h : Lexer.single lit c = some token) (d : Char) :
    sameRun escapeChar lit c d = false := by
  obtain ⟨hblank, -, hpipe, hamp, -⟩ := single_eq_some h
  simp [sameRun, hpipe, hamp, hblank, isRaw, h]

theorem raw_spec (h : isRaw escapeChar lit c = true) :
    c ≠ '|' ∧ c ≠ '&' ∧ Lexer.single lit c = none ∧ escapeChar.isChar c = false ∧ c ≠ '`' ∧
      isWhitespace c = false := by
  simp only [isRaw, Bool.and_eq_true, decide_eq_true_eq, Option.isNone_iff_eq_none,
    Bool.not_eq_true'] at h
  obtain ⟨⟨⟨⟨⟨hpipe, hamp⟩, hsingle⟩, hesc⟩, htick⟩, hspace⟩ := h
  exact ⟨hpipe, hamp, hsingle, hesc, htick, hspace⟩

theorem sameRun_of_raw (h : isRaw escapeChar lit c = true) :
    sameRun escapeChar lit c = isRaw escapeChar lit := by
  obtain ⟨hpipe, hamp, -, -, -, hspace⟩ := raw_spec h
  funext d
  simp [sameRun, hpipe, hamp, isBlank, hspace, h]

theorem tokenOf_of_raw (h : isRaw escapeChar lit c = true) (run : List Char) :
    tokenOf lit c run = .literal (c :: run) := by
  obtain ⟨hpipe, hamp, hsingle, -, htick, hspace⟩ := raw_spec h
  simp [tokenOf, hpipe, hamp, hsingle, htick, hspace]

theorem takeWhile_none {p : Char → Bool} (h : ∀ d, p d = false) (l : List Char) :
    l.takeWhile p = [] ∧ l.dropWhile p = l := by
  cases l with
  | nil => exact ⟨rfl, rfl⟩
  | cons d l => simp [h d]

/-- The first lexeme of a source that starts with neither the escape character nor a literal. -/
theorem classifyNext_token (hesc : escapeChar.isChar c = false)
    (hraw : isRaw escapeChar lit c = false) (hfuel : 3 * rest.length + 1 < fuel) :
    (Lexer.between escapeChar lit done (c :: rest) none).classifyNext fuel =
      (some (.token (Lexeme.placed
          ⟨tokenOf lit c (rest.takeWhile (sameRun escapeChar lit c)),
            c :: rest.takeWhile (sameRun escapeChar lit c)⟩ (width done))),
        Lexer.between escapeChar lit (done ++ c :: rest.takeWhile (sameRun escapeChar lit c))
          (rest.dropWhile (sameRun escapeChar lit c)) none) := by
  obtain ⟨fuel, rfl⟩ : ∃ n, fuel = n + 1 := ⟨fuel - 1, by omega⟩
  have hqueued : (Lexer.between escapeChar lit done (c :: rest) none).queued = none := rfl
  by_cases hpipe : c = '|'
  · subst hpipe
    rw [classifyNext_operator (.inl ⟨rfl, rfl, rfl⟩),
      operator_eq (.inl ⟨rfl, rfl, rfl⟩) (by omega)]
    rfl
  by_cases hamp : c = '&'
  · subst hamp
    rw [classifyNext_operator (.inr ⟨rfl, rfl, rfl⟩),
      operator_eq (.inr ⟨rfl, rfl, rfl⟩) (by omega)]
    rfl
  have hlit : (Lexer.between escapeChar lit (done ++ [c]) rest none).parseQuotesAsLiterals = lit :=
    rfl
  have hchar : (Lexer.between escapeChar lit (done ++ [c]) rest none).escapeChar = escapeChar := rfl
  rw [Lexer.classifyNext, hqueued]
  simp only [step_cons, hlit, hchar, if_neg hpipe, if_neg hamp, hesc, Bool.false_eq_true, if_false]
  cases hsingle : Lexer.single lit c with
  | some token =>
    have hrun := takeWhile_none (sameRun_of_single escapeChar hsingle) rest
    have htext := (single_eq_some hsingle).2.1
    simp [hrun, tokenOf, hpipe, hamp, hsingle, Lexeme.placed, htext]
  | none =>
    simp only
    by_cases htick : c = '`'
    · subst htick
      have hrun := takeWhile_none (p := sameRun escapeChar lit '`')
        (fun d => by simp [sameRun, isBlank, hraw, show isWhitespace '`' = false from rfl]) rest
      rw [if_pos rfl, hrun.1, hrun.2]
      rfl
    · have hspace : isWhitespace c = true := by
        by_contra hspace
        simp [isRaw, hpipe, hamp, hsingle, hesc, htick, hspace] at hraw
      have hline : c ≠ '\n' := by
        rintro rfl
        exact nomatch hsingle
      have hblank : isBlank c = true := by simp [isBlank, hspace, hline]
      have hrun : sameRun escapeChar lit c = isBlank := by
        funext d
        simp [sameRun, hpipe, hamp, hblank, hraw]
      rw [if_neg htick, if_pos hspace]
      have hw : width done + c.utf8Size = width (done ++ [c]) := by simp
      rw [hw, whitespaceRun_eq (by omega), hrun, List.append_assoc, List.singleton_append]
      have hslice := @slice_between escapeChar lit done none (c :: rest.takeWhile isBlank)
        (rest.dropWhile isBlank)
      rw [width_append, hslice]
      simp [tokenOf, hpipe, hamp, hsingle, htick, hspace, Lexeme.placed, Token.asStr]

theorem classifyNext_raw (hraw : isRaw escapeChar lit c = true) :
    (Lexer.between escapeChar lit done (c :: rest) none).classifyNext (fuel + 1) =
      (some (.raw ⟨c, ⟨width done, width done + c.utf8Size⟩⟩),
        Lexer.between escapeChar lit (done ++ [c]) rest none) := by
  have hqueued : (Lexer.between escapeChar lit done (c :: rest) none).queued = none := rfl
  have hlit : (Lexer.between escapeChar lit (done ++ [c]) rest none).parseQuotesAsLiterals = lit :=
    rfl
  have hchar : (Lexer.between escapeChar lit (done ++ [c]) rest none).escapeChar = escapeChar := rfl
  obtain ⟨hpipe, hamp, hsingle, hesc, htick, hspace⟩ := raw_spec hraw
  rw [Lexer.classifyNext, hqueued]
  simp only [step_cons, hlit, hchar, if_neg hpipe, if_neg hamp, hsingle, hesc, if_neg htick, hspace,
    Bool.false_eq_true, if_false]

theorem classifyNext_nil (hfuel : 0 < fuel) :
    (Lexer.between escapeChar lit done [] none).classifyNext fuel =
      (none, Lexer.between escapeChar lit done [] none) := by
  obtain ⟨fuel, rfl⟩ : ∃ n, fuel = n + 1 := ⟨fuel - 1, by omega⟩
  have hqueued : (Lexer.between escapeChar lit done [] none).queued = none := rfl
  rw [Lexer.classifyNext, hqueued]
  simp only [step_nil]

/-- The text of the first token: an operator has at most two characters. -/
theorem asStr_tokenOf (cs : List Char) :
    (tokenOf lit c (cs.takeWhile (sameRun escapeChar lit c))).asStr =
      c :: (if c = '|' ∨ c = '&' then (cs.takeWhile (sameRun escapeChar lit c)).take 1
        else cs.takeWhile (sameRun escapeChar lit c)) := by
  have hop : ∀ c', sameRun escapeChar lit c = (fun d => decide (d = c')) →
      (cs.takeWhile (sameRun escapeChar lit c)).take 1 =
        if cs.takeWhile (sameRun escapeChar lit c) = [] then [] else [c'] := by
    intro c' h
    rw [h]
    cases cs with
    | nil => rfl
    | cons d cs => by_cases hd : d = c' <;> simp [hd]
  unfold tokenOf
  by_cases hpipe : c = '|'
  · subst hpipe
    rw [if_pos rfl, if_pos (Or.inl (Eq.refl '|') : '|' = '|' ∨ '|' = '&'), hop '|' rfl]
    by_cases hrun : cs.takeWhile (sameRun escapeChar lit '|') = [] <;> simp [hrun, Token.asStr]
  by_cases hamp : c = '&'
  · subst hamp
    rw [if_neg hpipe, if_pos rfl, if_pos (Or.inr (Eq.refl '&') : '&' = '|' ∨ '&' = '&'),
      hop '&' rfl]
    by_cases hrun : cs.takeWhile (sameRun escapeChar lit '&') = [] <;> simp [hrun, Token.asStr]
  rw [if_neg hpipe, if_neg hamp, if_neg (show ¬ (c = '|' ∨ c = '&') by simp [hpipe, hamp])]
  cases hsingle : Lexer.single lit c with
  | some token =>
    rw [(takeWhile_none (sameRun_of_single escapeChar hsingle) cs).1]
    exact (single_eq_some hsingle).2.1
  | none =>
    by_cases htick : c = '`'
    · subst htick
      have hrun := takeWhile_none (p := sameRun escapeChar lit '`')
        (fun d => by simp [sameRun, isBlank, isRaw, show isWhitespace '`' = false from rfl]) cs
      simp [hrun.1, Token.asStr]
    · simp only [if_neg htick]
      split <;> rfl

theorem asStr_charToken (d : Char) : (charToken escapeChar lit d).asStr = [d] := by
  unfold charToken
  split
  · rfl
  · exact (@asStr_tokenOf escapeChar lit d []).trans (by simp)

theorem single_of_isChar (h : escapeChar.isChar c = true) : Lexer.single lit c = none := by
  cases hsingle : Lexer.single lit c with
  | none => rfl
  | some token => exact absurd (h.symm.trans (isChar_of_single hsingle)) (by simp)

theorem ne_operator_of_isChar (h : escapeChar.isChar c = true) : c ≠ '|' ∧ c ≠ '&' := by
  cases escapeChar with
  | backslash => obtain rfl := of_decide_eq_true h; decide
  | backtick => obtain rfl := of_decide_eq_true h; decide

theorem classifyNext_escape_nil (hesc : escapeChar.isChar c = true) :
    (Lexer.between escapeChar lit done [c] none).classifyNext (fuel + 1) =
      (some (.escaped (Lexeme.placed ⟨.escapeChar [c], [c]⟩ (width done)) none),
        Lexer.between escapeChar lit (done ++ [c]) [] none) := by
  have hqueued : (Lexer.between escapeChar lit done [c] none).queued = none := rfl
  have hlit : (Lexer.between escapeChar lit (done ++ [c]) [] none).parseQuotesAsLiterals = lit :=
    rfl
  have hchar : (Lexer.between escapeChar lit (done ++ [c]) [] none).escapeChar = escapeChar := rfl
  have hslice := @slice_between escapeChar lit done none [c] []
  simp only [width_cons, width_nil, Nat.add_zero] at hslice
  rw [Lexer.classifyNext, hqueued]
  simp only [step_cons, hlit, hchar, if_neg (ne_operator_of_isChar hesc).1,
    if_neg (ne_operator_of_isChar hesc).2, single_of_isChar hesc, hesc, if_true, step_nil, hslice]
  simp [Lexeme.placed, Token.asStr]

/-- The lexer of one character. -/
theorem next_single (d : Char) (hfuel : 2 < fuel) :
    ((Lexer.new [d] escapeChar lit).next fuel).1 =
      some ⟨charToken escapeChar lit d, ⟨0, d.utf8Size⟩⟩ := by
  obtain ⟨fuel, rfl⟩ : ∃ n, fuel = n + 3 := ⟨fuel - 3, by omega⟩
  have hnew : Lexer.new [d] escapeChar lit = Lexer.between escapeChar lit [] [d] none := rfl
  have hwidth : width (charToken escapeChar lit d).asStr = d.utf8Size := by simp [asStr_charToken]
  rw [hnew, Lexer.next]
  cases hesc : escapeChar.isChar d with
  | true =>
    rw [classifyNext_escape_nil hesc]
    simp [Lexeme.placed, charToken, hesc, Token.asStr]
  | false =>
    cases hraw : isRaw escapeChar lit d with
    | false =>
      rw [classifyNext_token hesc hraw (by simp)]
      simp only [charToken, hesc, Bool.false_eq_true, if_false] at hwidth ⊢
      simp [Lexeme.placed, hwidth]
    | true =>
      have hslice := @slice_between escapeChar lit [] none [d] []
      simp only [width_cons, width_nil, Nat.add_zero, Nat.zero_add, List.nil_append] at hslice
      rw [classifyNext_raw hraw]
      simp only [Lexer.rawRun, classifyNext_nil (Nat.succ_pos _), width_nil, Nat.zero_add,
        List.nil_append]
      simp only [charToken, hesc, tokenOf_of_raw hraw, Bool.false_eq_true, if_false]
      congr 2
      exact congrArg Token.literal hslice

theorem classifyNext_escape (hesc : escapeChar.isChar c = true) (d : Char) (hfuel : 3 < fuel) :
    (Lexer.between escapeChar lit done (c :: d :: rest) none).classifyNext fuel =
      (some (.escaped (Lexeme.placed ⟨.escapeChar [c], [c]⟩ (width done))
          (some (Lexeme.placed ⟨charToken escapeChar lit d, [d]⟩ (width (done ++ [c]))))),
        Lexer.between escapeChar lit (done ++ [c, d]) rest none) := by
  obtain ⟨fuel, rfl⟩ : ∃ n, fuel = n + 1 := ⟨fuel - 1, by omega⟩
  have hqueued : (Lexer.between escapeChar lit done (c :: d :: rest) none).queued = none := rfl
  have hlit (rest : List Char) :
      (Lexer.between escapeChar lit (done ++ [c]) rest none).parseQuotesAsLiterals = lit := rfl
  have hchar (rest : List Char) :
      (Lexer.between escapeChar lit (done ++ [c]) rest none).escapeChar = escapeChar := rfl
  have hpos : (Lexer.between escapeChar lit (done ++ [c]) (d :: rest) none).pos =
      width (done ++ [c]) := rfl
  have hslice := @slice_between escapeChar lit done none [c] (d :: rest)
  have hslice' := @slice_between escapeChar lit (done ++ [c]) none [d] rest
  have hsource : (Lexer.between escapeChar lit (done ++ [c] ++ [d]) rest none).source =
      (Lexer.between escapeChar lit (done ++ [c]) (d :: rest) none).source := by
    simp [Lexer.between]
  rw [hsource] at hslice'
  simp only [width_cons, width_nil, Nat.add_zero] at hslice hslice'
  rw [Lexer.classifyNext, hqueued]
  simp only [step_cons, hlit, hchar, if_neg (ne_operator_of_isChar hesc).1,
    if_neg (ne_operator_of_isChar hesc).2, single_of_isChar hesc, hesc, if_true, hslice, hslice',
    next_single d (show 2 < fuel by omega), hpos]
  have htext : (Token.escapeChar [c]).asStr = [c] := rfl
  simp [Lexeme.placed, htext, asStr_charToken, Nat.add_comm, Nat.add_left_comm]

end Clinch.SimpleParser
