import Clinch.AgentResume.Line

/-!
# Typing a stored command

`shellWordSpans` cuts a line as the shell does, unless a double quote stands between double quotes or
white space that is no blank outside quotes.

* `Spelling.Spanned`: the words for which the two agree, `Spans`;
* `shellWordSpans_line`: the spans of a stored command are its words as they are written;
* **`readWords_commandToType`**: what is typed into zsh has the same words.
-/

set_option autoImplicit false

namespace Clinch.AgentResume

open ShellWords

/-- Scanning a text extends the current span by it. -/
def Spans (text : List Char) : Prop :=
  ∀ (start : Option (List Char)) (rest : List Char),
    shellWordSpansFrom start none (text ++ rest) =
      shellWordSpansFrom (some (start.getD [] ++ text)) none rest

theorem Spans.append {text₁ text₂ : List Char} (h₁ : Spans text₁) (h₂ : Spans text₂) :
    Spans (text₁ ++ text₂) := by
  intro start rest
  rw [List.append_assoc, h₁, h₂, Option.getD_some, List.append_assoc]

/-- The words that are one span. -/
def Spelling.Spanned : Spelling → Prop
  | .plain text => ∀ c ∈ text, isWhitespace c = false
  | .single _ => True
  | .double text => '"' ∉ text

instance : (spelling : Spelling) → Decidable (Spelling.Spanned spelling)
  | .plain _ => inferInstanceAs (Decidable (∀ _ ∈ _, _))
  | .single _ => inferInstanceAs (Decidable True)
  | .double _ => inferInstanceAs (Decidable (¬ _))

theorem spans_plain {text : List Char} (hne : text ≠ []) (hplain : ∀ c ∈ text, isPlain c = true)
    (hspace : ∀ c ∈ text, isWhitespace c = false) : Spans text := by
  induction text with
  | nil => exact absurd rfl hne
  | cons c text ih =>
    intro start rest
    have hquote : ¬ (c = '\'' || c = '"') = true := by
      have hc := hplain c List.mem_cons_self
      rw [Bool.or_eq_true, decide_eq_true_eq, decide_eq_true_eq, not_or]
      exact ⟨isPlain_not_special hc (by decide), isPlain_not_special hc (by decide)⟩
    rw [List.cons_append, shellWordSpansFrom, if_neg hquote,
      if_neg (by rw [hspace c List.mem_cons_self]; decide)]
    by_cases htext : text = []
    · subst htext
      rfl
    · rw [ih htext (fun d hd => hplain d (List.mem_cons_of_mem c hd))
        fun d hd => hspace d (List.mem_cons_of_mem c hd)]
      simp

theorem shellWordSpansFrom_quoted {quote : Char} {text : List Char} (h : quote ∉ text)
    (start rest : List Char) :
    shellWordSpansFrom (some start) (some quote) (text ++ quote :: rest) =
      shellWordSpansFrom (some (start ++ text ++ [quote])) none rest := by
  induction text generalizing start with
  | nil => simp [shellWordSpansFrom]
  | cons c text ih =>
    have hc : c ≠ quote := fun hc => h (hc ▸ List.mem_cons_self)
    rw [List.cons_append, shellWordSpansFrom, if_neg hc, ih fun hmem => h (List.mem_cons_of_mem c hmem)]
    simp

theorem spans_quoted {quote : Char} (hquote : quote = '\'' ∨ quote = '"') {text : List Char}
    (h : quote ∉ text) : Spans (quote :: text ++ [quote]) := by
  intro start rest
  rw [List.append_assoc, List.cons_append, shellWordSpansFrom, if_pos (by simpa using hquote)]
  have hscan := shellWordSpansFrom_quoted h (start.getD [] ++ [quote]) rest
  rw [List.singleton_append, hscan]
  simp

theorem Spelling.spans {spelling : Spelling} (hvalid : spelling.Valid)
    (hspanned : Spelling.Spanned spelling) (hne : spelling.text ≠ []) : Spans spelling.text := by
  cases spelling with
  | plain text => exact spans_plain hne hvalid hspanned
  | single text => exact spans_quoted (.inl rfl) hvalid
  | double text => exact spans_quoted (.inr rfl) hspanned

theorem isBlank_not_quote {c : Char} (h : isBlank c = true) : ¬ (c = '\'' || c = '"') = true := by
  rw [isBlank, Bool.or_eq_true, decide_eq_true_eq, decide_eq_true_eq] at h
  obtain rfl | rfl := h <;> decide

/-! ## The spans of a line -/

theorem shellWordSpansFrom_blanks {gap : List Char} (h : ∀ c ∈ gap, isBlank c = true)
    (rest : List Char) :
    shellWordSpansFrom none none (gap ++ rest) = shellWordSpansFrom none none rest := by
  induction gap with
  | nil => rfl
  | cons c gap ih =>
    have hc := h c List.mem_cons_self
    rw [List.cons_append, shellWordSpansFrom,
      if_neg (isBlank_not_quote hc), if_pos (isWhitespace_of_isBlank hc),
      ih fun d hd => h d (List.mem_cons_of_mem c hd)]
    cases shellWordSpansFrom none none rest <;> rfl

/-- A span ends at a blank. -/
theorem shellWordSpansFrom_span {gap : List Char} (hne : gap ≠ []) (h : ∀ c ∈ gap, isBlank c = true)
    (start rest : List Char) :
    shellWordSpansFrom (some start) none (gap ++ rest) =
      (start :: ·) <$> shellWordSpansFrom none none rest := by
  cases gap with
  | nil => exact absurd rfl hne
  | cons c gap =>
    have hc := h c List.mem_cons_self
    rw [List.cons_append, shellWordSpansFrom, if_neg (isBlank_not_quote hc),
      if_pos (isWhitespace_of_isBlank hc),
      shellWordSpansFrom_blanks fun d hd => h d (List.mem_cons_of_mem c hd)]
    rfl

theorem shellWordSpansFrom_line {items : List Spaced} (hspans : ∀ item ∈ items, Spans item.text)
    (hitems : ∀ item ∈ items, item.Valid) {trail : List Char}
    (htrail : ∀ c ∈ trail, isBlank c = true) (start : List Char) :
    shellWordSpansFrom (some start) none (Spaced.line items ++ trail) =
      some (start :: items.map Spaced.text) := by
  induction items generalizing start with
  | nil =>
    by_cases hempty : trail = []
    · subst hempty
      rfl
    · rw [Spaced.line, List.flatMap_nil, List.nil_append, ← List.append_nil trail,
        shellWordSpansFrom_span hempty htrail]
      rfl
  | cons item items ih =>
    have hitem := hitems item List.mem_cons_self
    have hrest := ih (fun other hother => hspans other (List.mem_cons_of_mem item hother))
      (fun other hother => hitems other (List.mem_cons_of_mem item hother)) item.text
    rw [Spaced.line] at hrest
    rw [Spaced.line, List.flatMap_cons, List.append_assoc, List.append_assoc,
      shellWordSpansFrom_span hitem.gap_ne hitem.gap_blank, hspans item List.mem_cons_self none,
      Option.getD_none, List.nil_append, hrest]
    rfl

/-- **The spans of a line are its words as they are written.** -/
theorem shellWordSpans_line {first : Spaced} {items : List Spaced}
    (hblank : ∀ c ∈ first.gap, isBlank c = true) (hspans : ∀ item ∈ first :: items, Spans item.text)
    (hitems : ∀ item ∈ items, item.Valid) {trail : List Char}
    (htrail : ∀ c ∈ trail, isBlank c = true) :
    shellWordSpans (Spaced.line (first :: items) ++ trail) = some ((first :: items).map Spaced.text) := by
  have hrest := shellWordSpansFrom_line
    (fun item hitem => hspans item (List.mem_cons_of_mem first hitem)) hitems htrail first.text
  rw [Spaced.line] at hrest
  rw [shellWordSpans, Spaced.line, List.flatMap_cons, List.append_assoc, List.append_assoc,
    shellWordSpansFrom_blanks hblank, hspans first List.mem_cons_self none, Option.getD_none,
    List.nil_append, hrest]
  rfl

/-! ## Quoting the arguments -/

theorem isPlain_of_plainArgument {word : List Char} (h : plainArgument word = true) :
    ∀ c ∈ word, isPlain c = true := by
  intro c hc
  have hplain := List.all_eq_true.1 h c hc
  rw [Bool.or_eq_true, List.contains_eq_mem, decide_eq_true_eq] at hplain
  obtain halnum | hmark := hplain
  · exact isPlain_of_isAlphanum halnum
  · exact List.all_eq_true.1 (show plainMarks.all isPlain = true from rfl) c hmark

theorem reads_single {text : List Char} (h : '\'' ∉ text) :
    Reads ('\'' :: text ++ ['\'']) (text.map .lit) :=
  @Spelling.reads (.single text) h (by simp [Spelling.text])

/-- Quoting a plain word leaves what it stands for. -/
theorem reads_quotedArgument {text : List Char} {word : Word} (hreads : Reads text word)
    (hplain : plainArgument text = true) :
    Reads ('\'' :: text ++ ['\'']) word := by
  have hchars := isPlain_of_plainArgument hplain
  have hword := hreads.unique (reads_plain hreads.text_ne hchars)
  have hquote : '\'' ∉ text := fun hmem => absurd (hchars _ hmem) (by decide)
  rw [hword]
  exact reads_single hquote

theorem forall₂_mapIdx {α β : Type} {R : α → β → Prop} {xs : List α} {ys : List β}
    (h : List.Forall₂ R xs ys) {f : ℕ → α → α} (hf : ∀ i x y, x ∈ xs → R x y → R (f i x) y) :
    List.Forall₂ R (xs.mapIdx f) ys := by
  induction h generalizing f with
  | nil => exact .nil
  | cons hhead _ ih =>
    rw [List.mapIdx_cons]
    exact .cons (hf 0 _ _ List.mem_cons_self hhead)
      (ih fun i x y hx => hf (i + 1) x y (List.mem_cons_of_mem _ hx))

/-- **A command typed into zsh has the words of the stored one.** -/
theorem readWords_commandToType {first : Spaced} {items : List Spaced}
    (hblank : ∀ c ∈ first.gap, isBlank c = true) (hitems : ∀ item ∈ items, item.Valid)
    (hreads : ∀ item ∈ first :: items, Reads item.text item.word)
    (hspans : ∀ item ∈ first :: items, Spans item.text) {trail : List Char}
    (htrail : ∀ c ∈ trail, isBlank c = true) :
    readWords (commandToType (Spaced.line (first :: items) ++ trail) .zsh) =
      some (nocorrectWord.map .lit :: (first :: items).map Spaced.word) := by
  have hnocorrect : Reads nocorrectWord (nocorrectWord.map .lit) := @Added.reads .nocorrect trivial
  have htexts : List.Forall₂ Reads ((first :: items).map Spaced.text) ((first :: items).map Spaced.word) := by
    rw [List.forall₂_map_left_iff, List.forall₂_map_right_iff, List.forall₂_same]
    exact hreads
  rw [commandToType, if_neg (by decide), withQuotedArguments, shellWordSpans_line hblank hspans hitems htrail]
  dsimp only
  split
  · rename_i hall
    rw [Option.getD_some, cons_joinSpaces (by simp)]
    refine readWords_joined hnocorrect (forall₂_mapIdx htexts fun i text word hmem hword => ?_)
    split
    · exact hword
    · rename_i hquote
      rw [not_or, Bool.not_eq_true] at hquote
      have hplain := List.all_eq_true.1 hall text hmem
      rw [hquote.2, Bool.or_false] at hplain
      exact reads_quotedArgument hword hplain
  · have hline := readWords_spaced hblank (hreads first List.mem_cons_self) hitems htrail
    have hcons : Spaced.line (first :: items) = first.gap ++ first.text ++ Spaced.line items :=
      List.flatMap_cons
    rw [readWords, ← hcons] at hline
    rw [Option.getD_none, readWords, hnocorrect none, Option.getD_none, List.nil_append, readFrom_bare,
      if_pos (show isBlank ' ' = true from rfl), hline]
    rfl

end Clinch.AgentResume
