import Mathlib

/-!
# Words of a shell

How a shell cuts a line into words and removes their quotes. A character of a word is either itself
or active: one the shell still acts on, such as `$` outside single quotes.

* `readWords`: the words of a line, when its quotes close;
* `Spelling`: a word as it is written, plain or in quotes;
* `Reads`: a text extends the current word by what it stands for, `Spelling.reads`;
* `readWords_spaced`: words between blanks are read one by one.
-/

set_option autoImplicit false

namespace Clinch.ShellWords

/-- A character of a word. -/
inductive Sym
  | lit (c : Char)
  | active (c : Char)
deriving DecidableEq, Repr

abbrev Word := List Sym

def isBlank (c : Char) : Bool := c = ' ' || c = '\t'

/-- The characters that do not stand for themselves outside quotes. -/
def special : List Char :=
  [' ', '\t', '\n', '\'', '"', '\\', '|', '&', ';', '<', '>', '(', ')', '$', '`', '*', '?', '[',
    ']', '{', '}', '~', '#', '!', '^']

def isPlain (c : Char) : Bool := !special.contains c

def bareSym (c : Char) : Sym := if isPlain c then .lit c else .active c

/-- Between double quotes a backslash, a substitution and a history expansion are active. -/
def doubleSym (c : Char) : Sym :=
  if ['$', '`', '\\', '!'].contains c then .active c else .lit c

inductive Mode
  | bare
  | escaped
  | single
  | double
  | doubleEscaped

/-- The current word with one more character. -/
def push (word : Option Word) (sym : Sym) : Option Word := some (word.getD [] ++ [sym])

/-- The words of a line from some place on, where `word` is the part already read of the current
one. -/
def readFrom : Mode → Option Word → List Char → Option (List Word)
  | .bare, word, [] => some word.toList
  | _, _, [] => none
  | .bare, word, c :: line =>
    if isBlank c then (word.toList ++ ·) <$> readFrom .bare none line
    else if c = '\'' then readFrom .single (some (word.getD [])) line
    else if c = '"' then readFrom .double (some (word.getD [])) line
    else if c = '\\' then readFrom .escaped word line
    else readFrom .bare (push word (bareSym c)) line
  | .escaped, word, c :: line =>
    -- an escaped line break joins two lines
    if c = '\n' then readFrom .bare word line else readFrom .bare (push word (.lit c)) line
  | .single, word, c :: line =>
    if c = '\'' then readFrom .bare word line else readFrom .single (push word (.lit c)) line
  | .double, word, c :: line =>
    if c = '"' then readFrom .bare word line
    else if c = '\\' then readFrom .doubleEscaped (push word (.active c)) line
    else readFrom .double (push word (doubleSym c)) line
  | .doubleEscaped, word, c :: line => readFrom .double (push word (.lit c)) line

section

variable (word : Option Word) (c : Char) (line : List Char)

theorem readFrom_bare_nil : readFrom .bare word [] = some word.toList := rfl

theorem readFrom_bare : readFrom .bare word (c :: line) =
    if isBlank c then (word.toList ++ ·) <$> readFrom .bare none line
    else if c = '\'' then readFrom .single (some (word.getD [])) line
    else if c = '"' then readFrom .double (some (word.getD [])) line
    else if c = '\\' then readFrom .escaped word line
    else readFrom .bare (push word (bareSym c)) line := rfl

theorem readFrom_inSingle : readFrom .single word (c :: line) =
    if c = '\'' then readFrom .bare word line else readFrom .single (push word (.lit c)) line := rfl

theorem readFrom_inDouble : readFrom .double word (c :: line) =
    if c = '"' then readFrom .bare word line
    else if c = '\\' then readFrom .doubleEscaped (push word (.active c)) line
    else readFrom .double (push word (doubleSym c)) line := rfl

theorem readFrom_doubleEscaped : readFrom .doubleEscaped word (c :: line) =
    readFrom .double (push word (.lit c)) line := rfl

end

def readWords (line : List Char) : Option (List Word) := readFrom .bare none line

/-- A text between double quotes: each double quote is escaped, and so is nothing at its end. -/
def doubleText : Bool → List Char → Bool
  | escaped, [] => !escaped
  | true, _ :: text => doubleText false text
  | false, c :: text => c ≠ '"' && doubleText (c = '\\') text

def doubleWord : Bool → List Char → Word
  | _, [] => []
  | true, c :: text => .lit c :: doubleWord false text
  | false, c :: text => doubleSym c :: doubleWord (c = '\\') text

/-- A word as it is written. -/
inductive Spelling
  | plain (text : List Char)
  | single (text : List Char)
  | double (text : List Char)
deriving DecidableEq

namespace Spelling

def text : Spelling → List Char
  | plain text => text
  | single text => '\'' :: text ++ ['\'']
  | double text => '"' :: text ++ ['"']

/-- What a spelling stands for. -/
def word : Spelling → Word
  | plain text => text.map .lit
  | single text => text.map .lit
  | double text => doubleWord false text

def Valid : Spelling → Prop
  | plain text => ∀ c ∈ text, isPlain c = true
  | single text => '\'' ∉ text
  | double text => doubleText false text = true

instance : (spelling : Spelling) → Decidable spelling.Valid
  | plain _ => inferInstanceAs (Decidable (∀ _ ∈ _, _))
  | single _ => inferInstanceAs (Decidable (¬ _))
  | double _ => inferInstanceAs (Decidable (_ = _))

end Spelling

/-! ## Reading -/

/-- Reading a text extends the current word by what it stands for. -/
def Reads (text : List Char) (word : Word) : Prop :=
  ∀ (current : Option Word) (rest : List Char),
    readFrom .bare current (text ++ rest) = readFrom .bare (some (current.getD [] ++ word)) rest

theorem Reads.append {text₁ text₂ : List Char} {word₁ word₂ : Word} (h₁ : Reads text₁ word₁)
    (h₂ : Reads text₂ word₂) : Reads (text₁ ++ text₂) (word₁ ++ word₂) := by
  intro current rest
  rw [List.append_assoc, h₁, h₂, Option.getD_some, List.append_assoc]

theorem isPlain_not_special {c d : Char} (h : isPlain c = true) (hd : d ∈ special) : c ≠ d := by
  rintro rfl
  simp [isPlain, hd] at h

theorem bareSym_of_isPlain {c : Char} (h : isPlain c = true) : bareSym c = .lit c := if_pos h

theorem isBlank_of_isPlain {c : Char} (h : isPlain c = true) : isBlank c = false := by
  have hspace := isPlain_not_special h (d := ' ') (by decide)
  have htab := isPlain_not_special h (d := '\t') (by decide)
  simp [isBlank, hspace, htab]

theorem readFrom_plain {c : Char} (h : isPlain c = true) (current : Option Word)
    (rest : List Char) : readFrom .bare current (c :: rest) = readFrom .bare (push current (.lit c)) rest := by
  rw [readFrom_bare, if_neg (by rw [isBlank_of_isPlain h]; decide),
    if_neg (isPlain_not_special h (by decide)), if_neg (isPlain_not_special h (by decide)),
    if_neg (isPlain_not_special h (by decide)), bareSym_of_isPlain h]

/-- Plain text stands for itself. -/
theorem reads_plain {text : List Char} (hne : text ≠ []) (h : ∀ c ∈ text, isPlain c = true) :
    Reads text (text.map .lit) := by
  induction text with
  | nil => exact absurd rfl hne
  | cons c text ih =>
    intro current rest
    rw [List.cons_append, readFrom_plain (h c List.mem_cons_self)]
    by_cases htext : text = []
    · subst htext
      rfl
    · rw [ih htext fun d hd => h d (List.mem_cons_of_mem c hd)]
      simp [push]

theorem readFrom_single {text : List Char} (h : '\'' ∉ text) (current : Word) (rest : List Char) :
    readFrom .single (some current) (text ++ '\'' :: rest) =
      readFrom .bare (some (current ++ text.map .lit)) rest := by
  induction text generalizing current with
  | nil => simp [readFrom_inSingle]
  | cons c text ih =>
    have hc : c ≠ '\'' := fun hc => h (hc ▸ List.mem_cons_self)
    rw [List.cons_append, readFrom_inSingle, if_neg hc, push, ih fun hmem => h (List.mem_cons_of_mem c hmem)]
    simp

/-- The two modes between double quotes. -/
def doubleMode (escaped : Bool) : Mode := if escaped then .doubleEscaped else .double

theorem readFrom_double {escaped : Bool} {text : List Char} (h : doubleText escaped text = true)
    (current : Word) (rest : List Char) :
    readFrom (doubleMode escaped) (some current) (text ++ '"' :: rest) =
      readFrom .bare (some (current ++ doubleWord escaped text)) rest := by
  fun_induction doubleText escaped text generalizing current with
  | case1 escaped =>
    cases escaped with
    | true => exact absurd h (by decide)
    | false => simp [doubleMode, readFrom_inDouble, doubleWord]
  | case2 c text ih =>
    have hstep := ih h (current ++ [.lit c])
    rw [doubleMode, if_pos rfl, List.cons_append, readFrom_doubleEscaped, push, Option.getD_some]
    rw [doubleMode, if_neg (by decide)] at hstep
    rw [hstep, doubleWord, List.append_assoc]
    rfl
  | case3 c text ih =>
    rw [Bool.and_eq_true, decide_eq_true_eq] at h
    have hstep := ih h.2 (current ++ [doubleSym c])
    have hword : current ++ doubleSym c :: doubleWord (c = '\\') text =
        current ++ [doubleSym c] ++ doubleWord (c = '\\') text := by simp
    rw [doubleMode, if_neg (by decide), List.cons_append, readFrom_inDouble, if_neg h.1, doubleWord,
      hword, ← hstep]
    by_cases hc : c = '\\'
    · subst hc
      rfl
    · rw [if_neg hc, doubleMode, if_neg (by simpa using hc)]
      rfl

/-- **A spelling is read as what it stands for.** -/
theorem Spelling.reads {spelling : Spelling} (h : spelling.Valid) (hne : spelling.text ≠ []) :
    Reads spelling.text spelling.word := by
  cases spelling with
  | plain text => exact reads_plain hne h
  | single text =>
    intro current rest
    rw [Spelling.text, List.append_assoc, List.cons_append, readFrom_bare, if_neg (by decide),
      if_pos rfl]
    exact readFrom_single h _ rest
  | double text =>
    intro current rest
    rw [Spelling.text, List.append_assoc, List.cons_append, readFrom_bare, if_neg (by decide),
      if_neg (by decide), if_pos rfl]
    exact readFrom_double h _ rest

theorem readFrom_blanks {gap : List Char} (h : ∀ c ∈ gap, isBlank c = true) (rest : List Char) :
    readFrom .bare none (gap ++ rest) = readFrom .bare none rest := by
  induction gap with
  | nil => rfl
  | cons c gap ih =>
    rw [List.cons_append, readFrom_bare, if_pos (h c List.mem_cons_self),
      ih fun d hd => h d (List.mem_cons_of_mem c hd)]
    cases readFrom .bare none rest <;> rfl

/-- A word ends at a blank. -/
theorem readFrom_word {gap : List Char} (hne : gap ≠ []) (h : ∀ c ∈ gap, isBlank c = true)
    (word : Word) (rest : List Char) :
    readFrom .bare (some word) (gap ++ rest) = (word :: ·) <$> readFrom .bare none rest := by
  cases gap with
  | nil => exact absurd rfl hne
  | cons c gap =>
    rw [List.cons_append, readFrom_bare, if_pos (h c List.mem_cons_self),
      readFrom_blanks fun d hd => h d (List.mem_cons_of_mem c hd)]
    rfl

/-! ## A line of words -/

/-- A text with the word it is read as, and the blanks in front of it. -/
structure Spaced where
  gap : List Char
  text : List Char
  word : Word

namespace Spaced

structure Valid (item : Spaced) : Prop where
  gap_ne : item.gap ≠ []
  gap_blank : ∀ c ∈ item.gap, isBlank c = true
  reads : Reads item.text item.word

def line (items : List Spaced) : List Char := items.flatMap fun item => item.gap ++ item.text

theorem blank_of_all {items : List Spaced} (h : (items.all fun item => item.gap.all isBlank) = true) :
    ∀ item ∈ items, ∀ c ∈ item.gap, isBlank c = true :=
  fun item hitem => List.all_eq_true.1 (List.all_eq_true.1 h item hitem)

theorem readFrom_line {items : List Spaced} (h : ∀ item ∈ items, item.Valid) {trail : List Char}
    (htrail : ∀ c ∈ trail, isBlank c = true) (word : Word) :
    readFrom .bare (some word) (line items ++ trail) = some (word :: items.map Spaced.word) := by
  induction items generalizing word with
  | nil =>
    by_cases hne : trail = []
    · subst hne
      rfl
    · rw [line, List.flatMap_nil, List.nil_append, ← List.append_nil trail, readFrom_word hne htrail]
      rfl
  | cons item items ih =>
    have hitem := h item List.mem_cons_self
    have hrest := ih (fun other hother => h other (List.mem_cons_of_mem item hother)) item.word
    rw [line, List.flatMap_cons, List.append_assoc, List.append_assoc,
      readFrom_word hitem.gap_ne hitem.gap_blank, hitem.reads none]
    rw [line] at hrest
    rw [Option.getD_none, List.nil_append, hrest]
    rfl

end Spaced

/-- **Words between blanks are read one by one.** -/
theorem readWords_spaced {lead text trail : List Char} {word : Word} {items : List Spaced}
    (hlead : ∀ c ∈ lead, isBlank c = true) (hreads : Reads text word)
    (h : ∀ item ∈ items, item.Valid) (htrail : ∀ c ∈ trail, isBlank c = true) :
    readWords (lead ++ text ++ Spaced.line items ++ trail) = some (word :: items.map Spaced.word) := by
  unfold readWords
  rw [List.append_assoc, List.append_assoc, readFrom_blanks hlead, hreads none,
    Option.getD_none, List.nil_append, Spaced.readFrom_line h htrail]

/-- Words with a space in front of each but the first. -/
theorem readWords_joined {text : List Char} {word : Word} (hreads : Reads text word)
    {texts : List (List Char)} {words : List Word} (h : List.Forall₂ Reads texts words) :
    readWords (text ++ texts.flatMap (' ' :: ·)) = some (word :: words) := by
  have hrest : ∀ current : Word, readFrom .bare (some current) (texts.flatMap (' ' :: ·)) =
      some (current :: words) := by
    induction h with
    | nil => exact fun current => rfl
    | cons hhead _ ih =>
      intro current
      rw [List.flatMap_cons, List.cons_append, readFrom_bare, if_pos (show isBlank ' ' = true from rfl),
        hhead none, Option.getD_none, List.nil_append, ih]
      rfl
  unfold readWords
  rw [hreads none, Option.getD_none, List.nil_append, hrest]

theorem Reads.text_ne {text : List Char} {word : Word} (h : Reads text word) : text ≠ [] := by
  rintro rfl
  exact absurd (h none []) (by simp [readFrom_bare_nil])

/-- What a text is read as is determined. -/
theorem Reads.unique {text : List Char} {word₁ word₂ : Word} (h₁ : Reads text word₁)
    (h₂ : Reads text word₂) : word₁ = word₂ := by
  have h := (h₁ none []).symm.trans (h₂ none [])
  simpa [readFrom_bare_nil] using h

end Clinch.ShellWords
