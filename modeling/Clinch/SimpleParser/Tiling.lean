import Clinch.SimpleParser.Pending

/-!
# When the tokens tile the source

* `Tiles`: each span starts where the one before it ends, and each text is the slice of its span;
* `swallows`: an operator of three or more characters;
* `full_iff`: when the texts are the characters that are consumed;
* **`tiles_iff`**.
-/

set_option autoImplicit false

namespace Clinch.SimpleParser

variable {escapeChar : EscapeChar} {lit : Bool} {c : Char} {source : List Char} {p : ℕ}
  {l : Lexeme} {ls : List Lexeme}

/-- Each span starts where the one before it ends, from a position to another. -/
def Chained : ℕ → List (Spanned Token) → ℕ → Prop
  | p, [], q => p = q
  | p, t :: ts, q => t.span.start = p ∧ Chained t.span.stop ts q

/-- The tokens tile the source. -/
structure Tiles (tokens : List (Spanned Token)) (source : List Char) : Prop where
  chained : Chained 0 tokens (width source)
  slice : ∀ t ∈ tokens, t.span.slice source = t.item.asStr

/-- Three successive characters are the same operator, and the first is not escaped. -/
def swallows (escapeChar : EscapeChar) : List Char → Bool
  | [] => false
  | [_] => false
  | c :: d :: cs =>
    if escapeChar.isChar c then swallows escapeChar cs
    else ((c = '|' || c = '&') && d = c && cs.head? = some c) || swallows escapeChar (d :: cs)

/-- The token has the characters that are consumed for it. -/
def Lexeme.Full (l : Lexeme) : Prop := l.token.asStr = l.chars

theorem swallows_append {run : List Char}
    (h : ∀ c ∈ run, escapeChar.isChar c = false ∧ c ≠ '|' ∧ c ≠ '&') (rest : List Char) :
    swallows escapeChar (run ++ rest) = swallows escapeChar rest := by
  induction run with
  | nil => rfl
  | cons c run ih =>
    have hc := h c List.mem_cons_self
    have ih := ih fun d hd => h d (List.mem_cons_of_mem c hd)
    rw [← ih, List.cons_append]
    cases run ++ rest with
    | nil => rfl
    | cons d cs => simp [swallows, hc]

theorem swallows_operator (hc : c = '|' ∨ c = '&') (cs : List Char) :
    swallows escapeChar (c :: cs) =
      (decide (1 < (cs.takeWhile (· = c)).length) ||
        swallows escapeChar (cs.dropWhile (· = c))) := by
  have hesc : escapeChar.isChar c = false := by
    cases h : escapeChar.isChar c with
    | false => rfl
    | true => exact absurd hc (not_or.2 (ne_operator_of_isChar h))
  induction cs with
  | nil => rfl
  | cons d cs ih =>
    by_cases hd : d = c
    · subst hd
      have hop : (decide (d = '|') || decide (d = '&')) = true := by simpa using hc
      simp only [swallows, hesc, Bool.false_eq_true, if_false, ih, hop, decide_true, Bool.true_and,
        List.takeWhile_cons, List.dropWhile_cons, if_true, List.length_cons]
      cases cs with
      | nil => simp
      | cons e cs => by_cases he : e = d <;> simp [he]
    · simp [swallows, hesc, hd]

theorem sameRun_plain (hpipe : c ≠ '|') (hamp : c ≠ '&') (hesc : escapeChar.isChar c = false)
    {d : Char} (h : sameRun escapeChar lit c d = true) :
    escapeChar.isChar d = false ∧ d ≠ '|' ∧ d ≠ '&' := by
  simp only [sameRun, hpipe, hamp, decide_false, Bool.or_self, Bool.false_eq_true, if_false,
    Bool.or_eq_true, Bool.and_eq_true] at h
  rcases h with h | h
  · have hd := h.2
    refine ⟨?_, ?_, ?_⟩
    · cases escapeChar with
      | backslash =>
        refine decide_eq_false ?_
        rintro rfl
        exact absurd hd (by decide)
      | backtick =>
        refine decide_eq_false ?_
        rintro rfl
        exact absurd hd (by decide)
    · rintro rfl
      exact absurd hd (by decide)
    · rintro rfl
      exact absurd hd (by decide)
  · obtain ⟨hpipe, hamp, -, hesc, -⟩ := raw_spec h.2
    exact ⟨hesc, hpipe, hamp⟩

/-- The texts are what is consumed, unless an operator is swallowed. -/
theorem full_iff (lit : Bool) (source : List Char) :
    (∀ l ∈ lexemes escapeChar lit source, l.Full) ↔ swallows escapeChar source = false := by
  induction source using lexemes_induction escapeChar lit with
  | nil =>
    rw [lexemes_nil]
    exact iff_of_true (fun _ h => nomatch h) rfl
  | escape_nil c h =>
    rw [lexemes_escape_nil h]
    refine iff_of_true ?_ rfl
    rintro l hl
    obtain rfl := List.mem_singleton.1 hl
    rfl
  | escape c d cs h ih =>
    rw [lexemes_escape h, List.forall_mem_cons, List.forall_mem_cons, ih]
    simp only [swallows, h, if_true]
    rw [and_iff_right (show Lexeme.Full ⟨.escapeChar [c], [c]⟩ from rfl),
      and_iff_right (show Lexeme.Full ⟨charToken escapeChar lit d, [d]⟩ from asStr_charToken d)]
  | run c cs h ih =>
    rw [lexemes_run h, List.forall_mem_cons, ih]
    by_cases hop : c = '|' ∨ c = '&'
    · have hrun : sameRun escapeChar lit c = (fun d => decide (d = c)) := by
        rcases hop with rfl | rfl <;> rfl
      rw [swallows_operator hop, Bool.or_eq_false_iff, hrun]
      refine and_congr ?_ Iff.rfl
      unfold Lexeme.Full
      rw [← hrun, asStr_tokenOf, if_pos hop, decide_eq_false_iff_not, not_lt, List.cons_eq_cons,
        List.take_eq_self_iff]
      simp
    · have hall : ∀ d ∈ c :: cs.takeWhile (sameRun escapeChar lit c),
          escapeChar.isChar d = false ∧ d ≠ '|' ∧ d ≠ '&' := by
        obtain ⟨hpipe, hamp⟩ := not_or.1 hop
        rintro d hd
        rcases List.mem_cons.1 hd with rfl | hd
        · exact ⟨h, hpipe, hamp⟩
        · exact sameRun_plain hpipe hamp h (List.mem_takeWhile_imp hd)
      have happend := swallows_append hall (cs.dropWhile (sameRun escapeChar lit c))
      rw [List.cons_append, List.takeWhile_append_dropWhile] at happend
      rw [happend]
      refine and_iff_right ?_
      unfold Lexeme.Full
      rw [asStr_tokenOf, if_neg hop]

/-- A token has no other characters than those that are consumed for it. -/
theorem prefix_of_mem (h : l ∈ lexemes escapeChar lit source) : l.token.asStr <+: l.chars := by
  induction source using lexemes_induction escapeChar lit with
  | nil => rw [lexemes_nil] at h; exact nomatch h
  | escape_nil c hc =>
    rw [lexemes_escape_nil hc] at h
    obtain rfl := List.mem_singleton.1 h
    exact List.prefix_refl _
  | escape c d cs hc ih =>
    rw [lexemes_escape hc] at h
    rcases List.mem_cons.1 h with rfl | h
    · exact List.prefix_refl _
    rcases List.mem_cons.1 h with rfl | h
    · rw [asStr_charToken]
    · exact ih h
  | run c cs hc ih =>
    rw [lexemes_run hc] at h
    rcases List.mem_cons.1 h with rfl | h
    · rw [asStr_tokenOf]
      refine (List.prefix_cons_inj c).2 ?_
      split
      · exact List.take_prefix 1 _
      · exact List.prefix_refl _
    · exact ih h

theorem eq_of_width_eq {a b : List Char} (h : a <+: b) (hw : width a = width b) : a = b := by
  obtain ⟨r, rfl⟩ := h
  cases r with
  | nil => rw [List.append_nil]
  | cons c r =>
    have hpos := c.utf8Size_pos
    simp only [width_append, width_cons] at hw
    omega

theorem start_eq_of_chained {q : ℕ}
    (h : Chained q (place p ls) (p + width (ls.flatMap (·.chars)))) : q = p := by
  cases ls with
  | nil => exact h
  | cons l ls => exact h.1.symm

theorem chained_place (p : ℕ) (ls : List Lexeme) :
    Chained p (place p ls) (p + width (ls.flatMap (·.chars))) ↔
    ∀ l ∈ ls, width l.token.asStr = width l.chars := by
  induction ls generalizing p with
  | nil => exact iff_of_true rfl (fun _ h => nomatch h)
  | cons l ls ih =>
    rw [List.forall_mem_cons, ← ih (p + width l.chars), List.flatMap_cons, width_append,
      ← Nat.add_assoc]
    constructor
    · intro h
      have hstart := start_eq_of_chained h.2
      refine ⟨Nat.add_left_cancel hstart, ?_⟩
      rw [← hstart]
      exact hstart ▸ h.2
    · intro h
      refine ⟨rfl, ?_⟩
      show Chained (p + width l.token.asStr) _ _
      rw [h.1]
      exact h.2

theorem slice_place (done : List Char) (h : ∀ l ∈ ls, l.Full) {t : Spanned Token}
    (ht : t ∈ place (width done) ls) :
    t.span.slice (done ++ ls.flatMap (·.chars)) = t.item.asStr := by
  induction ls generalizing done with
  | nil => exact nomatch ht
  | cons l ls ih =>
    obtain ⟨hl, h⟩ := List.forall_mem_cons.1 h
    rw [List.flatMap_cons]
    rcases List.mem_cons.1 ht with rfl | ht
    · show Span.slice ⟨width done, width done + width l.token.asStr⟩ _ = l.token.asStr
      rw [← show l.token.asStr = l.chars from hl, slice_append]
    · rw [← List.append_assoc]
      rw [← width_append] at ht
      exact ih _ h ht

/-- **The tokens tile the source unless an operator is swallowed.** -/
theorem tiles_iff (source : List Char) (escapeChar : EscapeChar) (lit : Bool) :
    Tiles (lex source escapeChar lit) source ↔ swallows escapeChar source = false := by
  have hsource := chars_lexemes escapeChar lit source
  have hchained := chained_place 0 (lexemes escapeChar lit source)
  rw [hsource, Nat.zero_add] at hchained
  rw [lex_eq, ← full_iff lit]
  constructor
  · intro h l hl
    exact eq_of_width_eq (prefix_of_mem hl) (hchained.1 h.chained l hl)
  · intro h
    refine ⟨hchained.2 fun l hl => congrArg width (h l hl), fun t ht => ?_⟩
    have hslice := slice_place [] h ht
    rw [List.nil_append, hsource] at hslice
    exact hslice

end Clinch.SimpleParser
