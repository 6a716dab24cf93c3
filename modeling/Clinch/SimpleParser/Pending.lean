import Clinch.SimpleParser.Lexemes

/-!
# The tokens of the lexer

* `Pending`: what the lexer still gives, with the queue;
* `rawRun_eq`, **`next_cons`**: the next token is the one of the next lexeme;
* **`lex_eq`**: the tokens of a source are those of its lexemes.
-/

set_option autoImplicit false

namespace Clinch.SimpleParser

variable {escapeChar : EscapeChar} {lit : Bool} {done rest : List Char} {fuel : ℕ} {c : Char}

/-- What the lexer of a source still gives: the lexemes from a position, of which the first may be
queued. -/
inductive Pending (escapeChar : EscapeChar) (lit : Bool) (source : List Char) :
    Lexer → ℕ → List Lexeme → Prop
  | scan (done rest : List Char) : done ++ rest = source →
    Pending escapeChar lit source (Lexer.between escapeChar lit done rest none) (width done)
      (lexemes escapeChar lit rest)
  | token (done rest : List Char) (l : Lexeme) : done ++ l.chars ++ rest = source →
    Pending escapeChar lit source
      (Lexer.between escapeChar lit (done ++ l.chars) rest (some (.token (l.placed (width done)))))
      (width done) (l :: lexemes escapeChar lit rest)
  | escapedNil (done : List Char) (l : Lexeme) : done ++ l.chars = source →
    Pending escapeChar lit source
      (Lexer.between escapeChar lit (done ++ l.chars) []
        (some (.escaped (l.placed (width done)) none)))
      (width done) [l]
  | escaped (done rest : List Char) (l l' : Lexeme) :
    done ++ l.chars ++ l'.chars ++ rest = source →
    Pending escapeChar lit source
      (Lexer.between escapeChar lit (done ++ l.chars ++ l'.chars) rest
        (some (.escaped (l.placed (width done)) (some (l'.placed (width (done ++ l.chars)))))))
      (width done) (l :: l' :: lexemes escapeChar lit rest)

variable {lexer : Lexer} {p : ℕ} {l : Lexeme} {ls : List Lexeme} {source : List Char}

/-- The next classified item, put into the queue. -/
theorem pending_queue (h : ∀ c ∈ rest.head?, isRaw escapeChar lit c = false)
    (hfuel : 3 * rest.length < fuel) :
    Pending escapeChar lit (done ++ rest)
      { ((Lexer.between escapeChar lit done rest none).classifyNext fuel).2 with
        queued := ((Lexer.between escapeChar lit done rest none).classifyNext fuel).1 }
      (width done) (lexemes escapeChar lit rest) := by
  cases rest with
  | nil =>
    rw [classifyNext_nil hfuel]
    exact .scan done [] rfl
  | cons c rest =>
    cases hesc : escapeChar.isChar c with
    | false =>
      rw [classifyNext_token hesc (h c rfl) (by simp at hfuel; omega), lexemes_run hesc]
      exact .token done _ ⟨_, c :: _⟩ (by simp)
    | true =>
      cases rest with
      | nil =>
        obtain ⟨fuel, rfl⟩ : ∃ n, fuel = n + 1 := ⟨fuel - 1, by omega⟩
        rw [classifyNext_escape_nil hesc, lexemes_escape_nil hesc]
        exact .escapedNil done ⟨_, [c]⟩ rfl
      | cons d rest =>
        rw [classifyNext_escape hesc d (by simp at hfuel; omega), lexemes_escape hesc]
        have h : Pending escapeChar lit _ _ _ _ := .escaped done rest
          ⟨.escapeChar [c], [c]⟩ ⟨charToken escapeChar lit d, [d]⟩
          (show done ++ [c] ++ [d] ++ rest = done ++ c :: d :: rest by simp)
        rw [List.append_assoc] at h
        exact h

/-- The loop over a literal ends at a character that is none of it. -/
theorem rawRun_stop {span : Span} (h : ∀ c ∈ rest.head?, isRaw escapeChar lit c = false)
    (hfuel : 3 * rest.length < fuel) :
    Lexer.rawRun (fuel + 1) span (Lexer.between escapeChar lit done rest none) =
      (span, { ((Lexer.between escapeChar lit done rest none).classifyNext fuel).2 with
        queued := ((Lexer.between escapeChar lit done rest none).classifyNext fuel).1 }) := by
  rw [Lexer.rawRun]
  cases rest with
  | nil => rw [classifyNext_nil hfuel]
  | cons c rest =>
    cases hesc : escapeChar.isChar c with
    | false => rw [classifyNext_token hesc (h c rfl) (by simp at hfuel; omega)]
    | true =>
      cases rest with
      | nil =>
        obtain ⟨fuel, rfl⟩ : ∃ n, fuel = n + 1 := ⟨fuel - 1, by omega⟩
        rw [classifyNext_escape_nil hesc]
      | cons d rest => rw [classifyNext_escape hesc d (by simp at hfuel; omega)]

theorem rawRun_eq {start : ℕ} (hfuel : 3 * rest.length + 1 < fuel) :
    ∃ lexer, Lexer.rawRun fuel ⟨start, width done⟩
        (Lexer.between escapeChar lit done rest none) =
      (⟨start, width (done ++ rest.takeWhile (isRaw escapeChar lit))⟩, lexer) ∧
      Pending escapeChar lit (done ++ rest) lexer
        (width (done ++ rest.takeWhile (isRaw escapeChar lit)))
        (lexemes escapeChar lit (rest.dropWhile (isRaw escapeChar lit))) := by
  obtain ⟨fuel, rfl⟩ : ∃ n, fuel = n + 1 := ⟨fuel - 1, by omega⟩
  induction rest generalizing done fuel with
  | nil =>
    simp only [List.takeWhile_nil, List.dropWhile_nil, List.append_nil]
    have h := @pending_queue escapeChar lit done [] fuel (fun _ h => nomatch h)
      (by simp at hfuel; omega)
    rw [List.append_nil] at h
    exact ⟨_, rawRun_stop (fun _ h => nomatch h) (by simp at hfuel; omega), h⟩
  | cons c rest ih =>
    cases hc : isRaw escapeChar lit c with
    | false =>
      have hhead : ∀ d ∈ (c :: rest).head?, isRaw escapeChar lit d = false := by
        rintro d ⟨⟩
        exact hc
      simp only [List.takeWhile_cons, List.dropWhile_cons, hc, Bool.false_eq_true, if_false,
        List.append_nil]
      exact ⟨_, rawRun_stop hhead (by omega), pending_queue hhead (by omega)⟩
    | true =>
      obtain ⟨fuel, rfl⟩ : ∃ n, fuel = n + 1 := ⟨fuel - 1, by simp at hfuel; omega⟩
      have h := @ih (done ++ [c]) fuel (by simp at hfuel; omega)
      rw [Lexer.rawRun, classifyNext_raw hc]
      simp only [List.takeWhile_cons, List.dropWhile_cons, hc, if_true, Span.upTo]
      simpa using h

theorem Pending.source_eq (h : Pending escapeChar lit source lexer p ls) :
    lexer.source = source := by
  cases h with
  | scan _ _ e => exact e
  | token _ _ _ e => exact e
  | escapedNil done l e => exact (List.append_nil _).trans e
  | escaped _ _ _ _ e => exact e

theorem next_nil (h : Pending escapeChar lit source lexer p []) (hfuel : 1 < fuel) :
    (lexer.next fuel).1 = none := by
  obtain ⟨fuel, rfl⟩ : ∃ n, fuel = n + 1 := ⟨fuel - 1, by omega⟩
  generalize hls : [] = ls at h
  cases h with
  | scan done rest h =>
    have hrest := chars_lexemes escapeChar lit rest
    rw [← hls, List.flatMap_nil] at hrest
    subst hrest
    rw [Lexer.next, classifyNext_nil (Nat.lt_of_succ_lt_succ hfuel)]
  | token => cases hls
  | escapedNil => cases hls
  | escaped => cases hls

/-- The literal at the start of a source. -/
theorem next_raw (hraw : isRaw escapeChar lit c = true)
    (hfuel : 3 * rest.length + 4 < fuel) :
    ((Lexer.between escapeChar lit done (c :: rest) none).next fuel).1 =
        some (Lexeme.placed ⟨.literal (c :: rest.takeWhile (isRaw escapeChar lit)),
          c :: rest.takeWhile (isRaw escapeChar lit)⟩ (width done)) ∧
      Pending escapeChar lit (done ++ c :: rest)
        ((Lexer.between escapeChar lit done (c :: rest) none).next fuel).2
        (width done + width (c :: rest.takeWhile (isRaw escapeChar lit)))
        (lexemes escapeChar lit (rest.dropWhile (isRaw escapeChar lit))) := by
  obtain ⟨fuel, rfl⟩ : ∃ n, fuel = n + 2 := ⟨fuel - 2, by omega⟩
  obtain ⟨lexer, hrun, hpending⟩ :=
    @rawRun_eq escapeChar lit (done ++ [c]) rest (fuel + 1) (width done) (by omega)
  have hsource : lexer.source =
      done ++ (c :: rest.takeWhile (isRaw escapeChar lit) ++
        rest.dropWhile (isRaw escapeChar lit)) := by
    rw [hpending.source_eq, List.cons_append, List.takeWhile_append_dropWhile, List.append_assoc]
    rfl
  have hw : width (done ++ [c]) = width done + c.utf8Size := by simp
  have hstop : width (done ++ [c] ++ rest.takeWhile (isRaw escapeChar lit)) =
      width done + width (c :: rest.takeWhile (isRaw escapeChar lit)) := by
    simp
  have hnext : (Lexer.between escapeChar lit done (c :: rest) none).next (fuel + 2) =
      (some (Lexeme.placed ⟨.literal (c :: rest.takeWhile (isRaw escapeChar lit)),
          c :: rest.takeWhile (isRaw escapeChar lit)⟩ (width done)), lexer) := by
    rw [Lexer.next, classifyNext_raw hraw]
    simp only [← hw, hrun]
    rw [hstop, hsource, slice_append]
    rfl
  rw [hnext]
  refine ⟨rfl, ?_⟩
  rw [hstop, List.append_assoc] at hpending
  exact hpending

/-- **The next token is the one of the next lexeme.** -/
theorem next_cons (h : Pending escapeChar lit source lexer p (l :: ls))
    (hfuel : 3 * source.length + 2 < fuel) :
    (lexer.next fuel).1 = some (l.placed p) ∧
      Pending escapeChar lit source (lexer.next fuel).2 (p + width l.chars) ls := by
  generalize hls : l :: ls = all at h
  cases h with
  | scan done rest h =>
    obtain ⟨fuel, rfl⟩ : ∃ n, fuel = n + 1 := ⟨fuel - 1, by omega⟩
    subst h
    simp only [List.length_append] at hfuel
    cases rest with
    | nil =>
      rw [lexemes_nil] at hls
      exact nomatch hls
    | cons c rest =>
      simp only [List.length_cons] at hfuel
      cases hesc : escapeChar.isChar c with
      | true =>
        cases rest with
        | nil =>
          obtain ⟨fuel, rfl⟩ : ∃ n, fuel = n + 1 := ⟨fuel - 1, by omega⟩
          rw [lexemes_escape_nil hesc] at hls
          obtain ⟨rfl, rfl⟩ := List.cons.inj hls
          rw [Lexer.next, classifyNext_escape_nil hesc]
          refine ⟨rfl, ?_⟩
          have h : Pending escapeChar lit _ _ _ _ := .scan (done ++ [c]) []
            (List.append_nil _)
          rw [width_append, lexemes_nil] at h
          exact h
        | cons d rest =>
          rw [lexemes_escape hesc] at hls
          obtain ⟨rfl, rfl⟩ := List.cons.inj hls
          rw [Lexer.next, classifyNext_escape hesc d (by omega)]
          refine ⟨rfl, ?_⟩
          have h : Pending escapeChar lit _ _ _ _ := .token (done ++ [c]) rest
            ⟨charToken escapeChar lit d, [d]⟩
            (show done ++ [c] ++ [d] ++ rest = done ++ c :: d :: rest by simp)
          rw [List.append_assoc done [c] [d], width_append] at h
          rw [width_append]
          exact h
      | false =>
        rw [lexemes_run hesc] at hls
        obtain ⟨rfl, rfl⟩ := List.cons.inj hls
        cases hraw : isRaw escapeChar lit c with
        | false =>
          rw [Lexer.next, classifyNext_token hesc hraw (by omega)]
          refine ⟨rfl, ?_⟩
          have h : Pending escapeChar lit _ _ _ _ := .scan
            (done ++ c :: rest.takeWhile (sameRun escapeChar lit c))
            (rest.dropWhile (sameRun escapeChar lit c))
            (show _ = done ++ c :: rest by
              rw [List.append_assoc, List.cons_append, List.takeWhile_append_dropWhile])
          rw [width_append] at h
          exact h
        | true =>
          rw [sameRun_of_raw hraw, tokenOf_of_raw hraw]
          exact next_raw hraw (by omega)
  | token done rest l' h =>
    obtain ⟨fuel, rfl⟩ : ∃ n, fuel = n + 2 := ⟨fuel - 2, by omega⟩
    obtain ⟨rfl, rfl⟩ := List.cons.inj hls
    refine ⟨rfl, ?_⟩
    have h : Pending escapeChar lit _ _ _ _ := .scan (done ++ l.chars) rest h
    rw [width_append] at h
    exact h
  | escapedNil done l' h =>
    obtain ⟨fuel, rfl⟩ : ∃ n, fuel = n + 2 := ⟨fuel - 2, by omega⟩
    obtain ⟨rfl, rfl⟩ := List.cons.inj hls
    refine ⟨rfl, ?_⟩
    have h : Pending escapeChar lit _ _ _ _ := .scan (done ++ l.chars) []
      ((List.append_nil _).trans h)
    rw [width_append, lexemes_nil] at h
    exact h
  | escaped done rest l' l'' h =>
    obtain ⟨fuel, rfl⟩ : ∃ n, fuel = n + 2 := ⟨fuel - 2, by omega⟩
    obtain ⟨rfl, rfl⟩ := List.cons.inj hls
    refine ⟨rfl, ?_⟩
    have h : Pending escapeChar lit _ _ _ _ := .token (done ++ l.chars) rest l'' h
    rw [width_append done l.chars] at h
    rw [width_append done l.chars]
    exact h

theorem collect_eq {n : ℕ} (h : Pending escapeChar lit source lexer p ls) (hn : ls.length ≤ n)
    (hfuel : 3 * source.length + 2 < fuel) : lexer.collect fuel n = place p ls := by
  induction n generalizing lexer p ls with
  | zero =>
    obtain rfl := List.length_eq_zero_iff.1 (Nat.le_zero.1 hn)
    rfl
  | succ n ih =>
    cases ls with
    | nil =>
      have hnext := next_nil h (show 1 < fuel by omega)
      rw [Lexer.collect, ← Prod.mk.eta (p := lexer.next fuel), hnext]
      rfl
    | cons l ls =>
      have hnext := next_cons h hfuel
      rw [Lexer.collect, ← Prod.mk.eta (p := lexer.next fuel), hnext.1]
      exact congrArg (l.placed p :: ·) (ih hnext.2 (Nat.le_of_succ_le_succ hn))

theorem length_lexemes_le (source : List Char) :
    (lexemes escapeChar lit source).length ≤ source.length := by
  induction source using lexemes_induction escapeChar lit with
  | nil => rw [lexemes_nil]; exact le_rfl
  | escape_nil c h => rw [lexemes_escape_nil h]; exact le_rfl
  | escape c d cs h ih =>
    rw [lexemes_escape h]
    simp only [List.length_cons]
    omega
  | run c cs h ih =>
    have hlen := List.length_dropWhile_le (sameRun escapeChar lit c) cs
    rw [lexemes_run h]
    simp only [List.length_cons]
    omega

/-- **The tokens of a source are those of its lexemes.** -/
theorem lex_eq (source : List Char) (escapeChar : EscapeChar) (lit : Bool) :
    lex source escapeChar lit = place 0 (lexemes escapeChar lit source) := by
  unfold lex lexFuel
  exact collect_eq (.scan [] source rfl) (length_lexemes_le source) (Nat.lt_succ_self _)

end Clinch.SimpleParser
