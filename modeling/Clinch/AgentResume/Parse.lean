import Clinch.AgentResume.Line

/-!
# Parsing a stored command

`parseLaunchCommand` cuts a stored command at white space, takes off single quotes and puts the
flags together again with single spaces.

* `singleSpaced`: the texts that come back, `joinSpaces_splitWhitespace`;
* `Stored.Kept`: the lines whose words come back;
* `Kept.withoutTypedPrefixes_eq`: the prefixes are taken off;
* **`Kept.parseLaunchCommand_eq`**: the agent, and the id and the flags put together again.
-/

set_option autoImplicit false

namespace Clinch.AgentResume

open ShellWords

/-- White space only as single spaces, none after the start or the end, where `spaced` says that
the text continues after a space. -/
def singleSpaced : Bool → List Char → Bool
  | spaced, [] => !spaced
  | spaced, c :: text =>
    if isWhitespace c then !spaced && c = ' ' && singleSpaced true text else singleSpaced false text

/-- **A single-spaced text comes back** when it is split at white space and joined, also when it
continues a word. -/
theorem joinSpaces_splitWhitespace_both (text : List Char) :
    (singleSpaced true text = true → joinSpaces (splitWhitespace text) = text ∧ text ≠ []) ∧
    (singleSpaced false text = true → ∀ word : List Char, word ≠ [] →
      (∀ c ∈ word, isWhitespace c = false) →
        joinSpaces (splitWhitespace (word ++ text)) = word ++ text) := by
  induction text with
  | nil =>
    refine ⟨fun h => absurd h (by decide), fun _ word hne hword => ?_⟩
    rw [List.append_nil, splitWhitespace_word hne hword]
    simp [joinSpaces]
  | cons c text ih =>
    by_cases hc : isWhitespace c = true
    · refine ⟨fun h => ?_, fun h word hne hword => ?_⟩
      · rw [singleSpaced, if_pos hc] at h
        exact absurd h (by simp)
      · rw [singleSpaced, if_pos hc, Bool.and_eq_true, Bool.and_eq_true, decide_eq_true_eq] at h
        obtain ⟨⟨-, rfl⟩, htext⟩ := h
        obtain ⟨hjoin, htextNe⟩ := ih.1 htext
        have hsplit : splitWhitespace text ≠ [] := by
          intro hnil
          rw [hnil] at hjoin
          exact htextNe hjoin.symm
        rw [splitWhitespace_append_cons hc, splitWhitespace_word hne hword, List.singleton_append,
          joinSpaces_cons hsplit, hjoin]
    · rw [Bool.not_eq_true] at hc
      refine ⟨fun h => ⟨?_, List.cons_ne_nil c text⟩, fun h word hne hword => ?_⟩
      · rw [singleSpaced, hc] at h
        exact ih.2 h [c] (List.cons_ne_nil c []) (by simpa using hc)
      · rw [singleSpaced, hc] at h
        have hjoin := ih.2 h (word ++ [c]) (by simp) fun d hd => by
          rw [List.mem_append, List.mem_singleton] at hd
          obtain hd | rfl := hd
          · exact hword d hd
          · exact hc
        rwa [List.append_assoc, List.singleton_append] at hjoin

theorem joinSpaces_splitWhitespace {text : List Char} (h : singleSpaced true text = true) :
    joinSpaces (splitWhitespace text) = text := ((joinSpaces_splitWhitespace_both text).1 h).1

theorem flatMap_splitWhitespace {text : List Char} (h : singleSpaced true text = true) :
    (splitWhitespace text).flatMap (' ' :: ·) = ' ' :: text := by
  have hjoin := joinSpaces_splitWhitespace h
  rw [← cons_joinSpaces, hjoin]
  intro hnil
  rw [hnil] at hjoin
  exact ((joinSpaces_splitWhitespace_both text).1 h).2 hjoin.symm

theorem flagsText_eq {words : List (List Char)} (h : ∀ word ∈ words, word ≠ []) :
    (if joinSpaces words = [] then [] else ' ' :: joinSpaces words) = words.flatMap (' ' :: ·) := by
  cases words with
  | nil => rfl
  | cons word words =>
    have hcons := cons_joinSpaces (List.cons_ne_nil word words)
    split
    · rename_i hnil
      rw [hnil, List.flatMap_cons] at hcons
      have hword : word = [] := by
        have hlen := congrArg List.length hcons
        rw [List.length_append, List.length_cons, List.length_cons] at hlen
        exact List.eq_nil_of_length_eq_zero (by simp at hlen; omega)
      exact absurd hword (h word List.mem_cons_self)
    · exact hcons

/-! ## Lines that are kept -/

/-- The text of an id once its single quotes are taken off. -/
def keptId : Spelling → List Char
  | .plain text => text
  | .single text => text
  | .double text => '"' :: text ++ ['"']

/-- The ids that stand for the same word without their single quotes. -/
def KeptId : Spelling → Prop
  | .plain text => ∀ c ∈ text, isWhitespace c = false
  | .single text => text ≠ [] ∧ ∀ c ∈ text, isPlain c = true ∧ isWhitespace c = false
  -- a single quote in front of the first space would be taken off
  | .double text => singleSpaced true ('"' :: text ++ ['"']) = true ∧
      (' ' ∈ text → (text.takeWhile (· ≠ ' ')).getLast? ≠ some '\'')

instance : (spelling : Spelling) → Decidable (KeptId spelling)
  | .plain _ => inferInstanceAs (Decidable (∀ _ ∈ _, _))
  | .single _ => inferInstanceAs (Decidable (_ ∧ ∀ _ ∈ _, _))
  | .double _ => inferInstanceAs (Decidable (_ ∧ _))

/-- The stored commands whose words survive being parsed. -/
structure Stored.Kept (line : Stored) (provider : AgentResumeProvider) : Prop where
  nocorrect_first : ∀ a ∈ line.added.tail, a.2 ≠ .nocorrect
  nocorrect_space : line.added.head?.map Prod.snd = some .nocorrect →
    (line.items.tail.head?.map Spaced.gap).bind List.head? = some ' '
  assignment_space : ∀ a ∈ line.added, ∀ c ∈ a.2.text, isWhitespace c = false
  launcher_space : line.agentGap.head? = some ' '
  agent : line.agent = .plain provider.asStr ∨ line.agent = .single provider.asStr
  id : KeptId line.id
  flags : ∀ flag ∈ line.flags, singleSpaced true flag.2.text = true

/-! ## Prefixes -/

theorem splitOnce_append {p : Char → Bool} {word : List Char} (hword : ∀ c ∈ word, p c = false)
    {c : Char} (hc : p c = true) (rest : List Char) :
    splitOnce p (word ++ c :: rest) = some (word, rest) := by
  have hword' : ∀ d ∈ word, (!p d) = true := fun d hd => by rw [hword d hd]; rfl
  unfold splitOnce
  rw [List.dropWhile_append_of_pos hword', List.takeWhile_append_of_pos hword',
    List.dropWhile_cons_of_neg (by rw [hc]; decide), List.takeWhile_cons_of_neg (by rw [hc]; decide),
    List.append_nil]

theorem isShellAssignment_of_isName {name : List Char} (h : Added.isName name = true)
    (value : List Char) : isShellAssignment (name ++ '=' :: value) = true := by
  have hname : ∀ c ∈ name, decide (c = '=') = false := by
    intro c hc
    simp only [Added.isName, Bool.and_eq_true, List.all_eq_true] at h
    have halnum := h.2 c hc
    rw [decide_eq_false_iff_not]
    rintro rfl
    exact absurd halnum (by decide)
  rw [isShellAssignment, splitOnce_append hname (by decide)]
  exact h

theorem trimStart_gap {gap : List Char} (h : ∀ c ∈ gap, isBlank c = true) (text : List Char) :
    trimStart (gap ++ text) = trimStart text :=
  List.dropWhile_append_of_pos fun c hc => isWhitespace_of_isBlank (h c hc)

theorem trimStart_word {word : List Char} (hne : word ≠ [])
    (h : ∀ c ∈ word, isWhitespace c = false) (rest : List Char) :
    trimStart (word ++ rest) = word ++ rest := by
  cases word with
  | nil => exact absurd rfl hne
  | cons c word =>
    rw [trimStart, List.cons_append,
      List.dropWhile_cons_of_neg (by rw [h c List.mem_cons_self]; decide)]

/-- A text goes on with a blank. -/
def StartsBlank (text : List Char) : Prop := ∃ c rest, text = c :: rest ∧ isBlank c = true

theorem withoutAssignments_assignment {word : List Char} (hword : ∀ c ∈ word, isWhitespace c = false)
    (hassignment : isShellAssignment word = true) {rest : List Char} (hrest : StartsBlank rest) :
    withoutAssignments (word ++ rest) = withoutAssignments (trimStart rest) := by
  obtain ⟨c, rest, rfl, hc⟩ := hrest
  have hsplit := splitOnce_append hword (isWhitespace_of_isBlank hc) rest
  have htrim : trimStart (c :: rest) = trimStart rest :=
    @trimStart_gap [c] (by simpa using hc) rest
  rw [htrim, withoutAssignments.eq_def]
  split
  · rename_i hnone
    rw [hnone] at hsplit
    cases hsplit
  · rename_i word' after hsome
    rw [hsome] at hsplit
    cases hsplit
    rw [if_pos hassignment]

theorem withoutAssignments_command {word : List Char} (hword : ∀ c ∈ word, isWhitespace c = false)
    (hassignment : isShellAssignment word = false) {rest : List Char} (hrest : StartsBlank rest) :
    withoutAssignments (word ++ rest) = word ++ rest := by
  obtain ⟨c, rest, rfl, hc⟩ := hrest
  have hsplit := splitOnce_append hword (isWhitespace_of_isBlank hc) rest
  rw [withoutAssignments.eq_def]
  split
  · rfl
  · rename_i word' after hsome
    rw [hsome] at hsplit
    cases hsplit
    rw [hassignment]
    rfl

theorem nocorrectWord_space : ∀ c ∈ nocorrectWord, isWhitespace c = false :=
  isWhitespace_of_all rfl

/-- A line whose first word is not `nocorrect`. -/
theorem withoutNocorrect_other {word : List Char} (hne : word ≠ [])
    (hword : ∀ c ∈ word, isWhitespace c = false) (hother : word ≠ nocorrectWord)
    {gap : List Char} (hblank : ∀ c ∈ gap, isBlank c = true) {rest : List Char}
    (hrest : StartsBlank rest) :
    withoutNocorrect (gap ++ word ++ rest) = trimStart (gap ++ word ++ rest) := by
  obtain ⟨c, rest, rfl, hc⟩ := hrest
  have htrim : trimStart (gap ++ word ++ c :: rest) = word ++ c :: rest := by
    rw [List.append_assoc, trimStart_gap hblank, trimStart_word hne hword]
  rw [withoutNocorrect, htrim]
  split
  · rename_i after hdrop
    obtain ⟨start, heq, hstart⟩ := List.dropPrefix?_eq_some_iff.1 hdrop
    rw [eq_of_beq hstart, List.append_assoc, List.singleton_append] at heq
    -- both cut the line at its first white space
    have hfirst := splitOnce_append hword (isWhitespace_of_isBlank hc) rest
    rw [heq, splitOnce_append nocorrectWord_space (c := ' ') rfl] at hfirst
    cases hfirst
    exact absurd rfl hother
  · rfl

theorem withoutNocorrect_nocorrect {gap : List Char} (hblank : ∀ c ∈ gap, isBlank c = true)
    (rest : List Char) :
    withoutNocorrect (gap ++ nocorrectWord ++ ' ' :: rest) = trimStart (' ' :: rest) := by
  have htrim : trimStart (gap ++ nocorrectWord ++ ' ' :: rest) = nocorrectWord ++ [' '] ++ rest := by
    rw [List.append_assoc, trimStart_gap hblank]
    rfl
  rw [withoutNocorrect, htrim, List.dropPrefix?_append_of_beq _ (by simp)]
  exact (List.dropWhile_cons_of_pos rfl).symm

theorem startsBlank_line {items : List Spaced} (hne : items ≠ [])
    (hgap : ∀ item ∈ items, item.gap ≠ []) (hblank : ∀ item ∈ items, ∀ c ∈ item.gap, isBlank c = true)
    (trail : List Char) : StartsBlank (Spaced.line items ++ trail) := by
  cases items with
  | nil => exact absurd rfl hne
  | cons item items =>
    have hitem := hgap item List.mem_cons_self
    have hchars := hblank item List.mem_cons_self
    obtain ⟨gap, text, word⟩ := item
    cases gap with
    | nil => exact absurd rfl hitem
    | cons c gap => exact ⟨c, _, rfl, hchars c List.mem_cons_self⟩

/-- **The assignments in front of a command are taken off.** -/
theorem withoutAssignments_line {added : List (List Char × Added)} {command : Spaced} {items : List Spaced}
    {trail : List Char} (hvalid : ∀ a ∈ added, a.2.Valid) (hother : ∀ a ∈ added, a.2 ≠ .nocorrect)
    (hspace : ∀ a ∈ added, ∀ c ∈ a.2.text, isWhitespace c = false)
    (hcommand : command.text ≠ []) (hcommandSpace : ∀ c ∈ command.text, isWhitespace c = false)
    (hcommandOther : isShellAssignment command.text = false) (hitems : items ≠ [])
    (hblank : ∀ item ∈ added.map Stored.addedItem ++ command :: items, ∀ c ∈ item.gap, isBlank c = true)
    (hgap : ∀ item ∈ (added.map Stored.addedItem ++ command :: items).tail, item.gap ≠ []) :
    withoutAssignments
        (trimStart (Spaced.line (added.map Stored.addedItem ++ command :: items) ++ trail)) =
      command.text ++ (Spaced.line items ++ trail) := by
  induction added with
  | nil =>
    have hrest := startsBlank_line hitems hgap
      (fun item hitem => hblank item (List.mem_cons_of_mem command hitem)) trail
    have hline : Spaced.line (command :: items) = command.gap ++ command.text ++ Spaced.line items :=
      List.flatMap_cons
    rw [List.map_nil, List.nil_append, hline, List.append_assoc, List.append_assoc,
      trimStart_gap (hblank command List.mem_cons_self), trimStart_word hcommand hcommandSpace,
      withoutAssignments_command hcommandSpace hcommandOther hrest]
  | cons a added ih =>
    have hmem := List.mem_cons_self (a := a) (l := added)
    have htail : (added.map Stored.addedItem ++ command :: items) ≠ [] := by simp
    have hline : Spaced.line ((a :: added).map Stored.addedItem ++ command :: items) =
        a.1 ++ a.2.text ++ Spaced.line (added.map Stored.addedItem ++ command :: items) :=
      List.flatMap_cons
    have hrest := startsBlank_line htail hgap
      (fun item hitem => hblank item (List.mem_cons_of_mem _ hitem)) trail
    have ha : isShellAssignment a.2.text = true := by
      have ha := hvalid a hmem
      have hne := hother a hmem
      cases hadded : a.2 with
      | nocorrect => exact absurd hadded hne
      | assignment name value =>
        rw [hadded] at ha
        exact isShellAssignment_of_isName ha.1 value.text
    rw [hline, List.append_assoc, List.append_assoc,
      @trimStart_gap a.1 (hblank (Stored.addedItem a) List.mem_cons_self),
      trimStart_word (Added.reads (hvalid a hmem)).text_ne (hspace a hmem),
      withoutAssignments_assignment (hspace a hmem) ha hrest]
    exact ih (fun b hb => hvalid b (List.mem_cons_of_mem a hb))
      (fun b hb => hother b (List.mem_cons_of_mem a hb))
      (fun b hb => hspace b (List.mem_cons_of_mem a hb))
      (fun item hitem => hblank item (List.mem_cons_of_mem _ hitem))
      (fun item hitem => hgap item (List.mem_of_mem_tail hitem))

/-- The assignment is no `nocorrect`. -/
theorem Added.text_ne_nocorrect {added : Added} (h : added ≠ .nocorrect) : added.text ≠ nocorrectWord := by
  cases added with
  | nocorrect => exact absurd rfl h
  | assignment name value =>
    intro heq
    have hmem : '=' ∈ nocorrectWord := heq ▸ List.mem_append_right name List.mem_cons_self
    exact absurd hmem (by decide)

/-- The first character of what follows a word is that of the next gap. -/
theorem line_of_gap {items : List Spaced} {c : Char}
    (h : (items.head?.map Spaced.gap).bind List.head? = some c) (trail : List Char) :
    ∃ rest, Spaced.line items ++ trail = c :: rest := by
  cases items with
  | nil => cases h
  | cons item items =>
    obtain ⟨gap, text, word⟩ := item
    cases gap with
    | nil => cases h
    | cons d gap =>
      obtain rfl := Option.some.inj h
      exact ⟨_, rfl⟩

/-- **What is added in front of a command is taken off.** -/
theorem withoutTypedPrefixes_line {added : List (List Char × Added)} {command : Spaced}
    {items : List Spaced} {trail : List Char} (hvalid : ∀ a ∈ added, a.2.Valid)
    (hfirst : ∀ a ∈ added.tail, a.2 ≠ .nocorrect)
    (hsecond : added.head?.map Prod.snd = some .nocorrect →
      ((added.map Stored.addedItem ++ command :: items).tail.head?.map Spaced.gap).bind List.head? =
        some ' ')
    (hspace : ∀ a ∈ added, ∀ c ∈ a.2.text, isWhitespace c = false)
    (hcommand : command.text ≠ []) (hcommandSpace : ∀ c ∈ command.text, isWhitespace c = false)
    (hcommandOther : isShellAssignment command.text = false)
    (hcommandNe : command.text ≠ nocorrectWord) (hitems : items ≠ [])
    (hblank : ∀ item ∈ added.map Stored.addedItem ++ command :: items, ∀ c ∈ item.gap, isBlank c = true)
    (hgap : ∀ item ∈ (added.map Stored.addedItem ++ command :: items).tail, item.gap ≠ []) :
    withoutTypedPrefixes (Spaced.line (added.map Stored.addedItem ++ command :: items) ++ trail) =
      command.text ++ (Spaced.line items ++ trail) := by
  unfold withoutTypedPrefixes
  cases added with
  | nil =>
    have hrest := startsBlank_line hitems hgap
      (fun item hitem => hblank item (List.mem_cons_of_mem command hitem)) trail
    have hline : Spaced.line (command :: items) = command.gap ++ command.text ++ Spaced.line items :=
      List.flatMap_cons
    have hnocorrect := withoutNocorrect_other hcommand hcommandSpace hcommandNe
      (hblank command List.mem_cons_self) hrest
    rw [← List.append_assoc, ← hline] at hnocorrect
    rw [List.map_nil, List.nil_append, hnocorrect]
    exact @withoutAssignments_line [] command items trail (by simp) (by simp) (by simp) hcommand hcommandSpace
      hcommandOther hitems hblank hgap
  | cons a added =>
    have hmem := List.mem_cons_self (a := a) (l := added)
    have htail : (added.map Stored.addedItem ++ command :: items) ≠ [] := by simp
    have hline : Spaced.line ((a :: added).map Stored.addedItem ++ command :: items) =
        a.1 ++ a.2.text ++ Spaced.line (added.map Stored.addedItem ++ command :: items) :=
      List.flatMap_cons
    have hrest := startsBlank_line htail hgap
      (fun item hitem => hblank item (List.mem_cons_of_mem _ hitem)) trail
    by_cases ha : a.2 = .nocorrect
    · have hspaceNext := hsecond (by rw [List.head?_cons, Option.map_some, ha])
      obtain ⟨rest, hnext⟩ := line_of_gap hspaceNext trail
      rw [hline, ha, List.append_assoc]
      have hnocorrect := withoutNocorrect_nocorrect (hblank (Stored.addedItem a) List.mem_cons_self) rest
      rw [← hnext] at hnocorrect
      rw [show Added.nocorrect.text = nocorrectWord from rfl]
      have hresult := @withoutAssignments_line added command items trail
        (fun b hb => hvalid b (List.mem_cons_of_mem a hb)) hfirst
        (fun b hb => hspace b (List.mem_cons_of_mem a hb)) hcommand hcommandSpace hcommandOther
        hitems (fun item hitem => hblank item (List.mem_cons_of_mem _ hitem))
        (fun item hitem => hgap item (List.mem_of_mem_tail hitem))
      rw [← hresult]
      exact congrArg withoutAssignments hnocorrect
    · have hnocorrect := withoutNocorrect_other (Added.reads (hvalid a hmem)).text_ne (hspace a hmem)
        (Added.text_ne_nocorrect ha) (hblank (Stored.addedItem a) List.mem_cons_self) hrest
      rw [← List.append_assoc] at hnocorrect
      rw [hline]
      refine (congrArg withoutAssignments hnocorrect).trans ?_
      have hother : ∀ b ∈ a :: added, b.2 ≠ .nocorrect := by
        intro b hb
        obtain rfl | hb := List.mem_cons.1 hb
        · exact ha
        · exact hfirst b hb
      exact withoutAssignments_line hvalid hother hspace hcommand hcommandSpace hcommandOther hitems
        hblank hgap

/-! ## Words -/

theorem trimMatches_of_ends {c : Char} {text : List Char} (hhead : text.head? ≠ some c)
    (hlast : text.getLast? ≠ some c) : trimMatches c text = text := by
  unfold trimMatches
  have hdrop : text.dropWhile (· = c) = text := dropWhile_of_head? fun d hd => by
    rw [decide_eq_false_iff_not]
    rintro rfl
    exact hhead hd
  have hdropLast : text.reverse.dropWhile (· = c) = text.reverse := dropWhile_of_head? fun d hd => by
    rw [decide_eq_false_iff_not]
    rintro rfl
    exact hlast (by rwa [List.head?_reverse] at hd)
  rw [hdrop, hdropLast, List.reverse_reverse]

theorem trimMatches_quoted {c : Char} {text : List Char} (hne : text ≠ []) (h : c ∉ text) :
    trimMatches c (c :: text ++ [c]) = text := by
  have hmem : ∀ d ∈ text, decide (d = c) = false := by
    intro d hd
    rw [decide_eq_false_iff_not]
    rintro rfl
    exact h hd
  have hdrop : (c :: text ++ [c]).dropWhile (· = c) = text ++ [c] := by
    rw [List.cons_append, List.dropWhile_cons_of_pos (by simp)]
    refine dropWhile_of_head? fun d hd => hmem d ?_
    rw [List.head?_append_of_ne_nil _ hne] at hd
    exact List.mem_of_head? hd
  have hdropLast : (text ++ [c]).reverse.dropWhile (· = c) = text.reverse := by
    rw [List.reverse_append, List.reverse_singleton, List.singleton_append,
      List.dropWhile_cons_of_pos (by simp)]
    refine dropWhile_of_head? fun d hd => hmem d ?_
    exact List.mem_reverse.1 (List.mem_of_head? hd)
  rw [trimMatches, hdrop, hdropLast, List.reverse_reverse]

theorem splitWhitespace_line {items : List Spaced} (hgap : ∀ item ∈ items, item.gap ≠ [])
    (hblank : ∀ item ∈ items, ∀ c ∈ item.gap, isBlank c = true) {trail : List Char}
    (htrail : ∀ c ∈ trail, isBlank c = true) :
    splitWhitespace (Spaced.line items ++ trail) =
      items.flatMap fun item => splitWhitespace item.text := by
  induction items with
  | nil =>
    rw [Spaced.line, List.flatMap_nil, List.nil_append, List.flatMap_nil, ← List.append_nil trail,
      splitWhitespace_gap fun c hc => isWhitespace_of_isBlank (htrail c hc), splitWhitespace_nil]
  | cons item items ih =>
    have hrest := ih (fun other hother => hgap other (List.mem_cons_of_mem item hother))
      fun other hother => hblank other (List.mem_cons_of_mem item hother)
    have hstart : ∀ c, (Spaced.line items ++ trail).head? = some c → isWhitespace c = true := by
      intro c hc
      by_cases hitems : items = []
      · subst hitems
        exact isWhitespace_of_isBlank (htrail c (List.mem_of_head? hc))
      · obtain ⟨d, rest, heq, hd⟩ := startsBlank_line hitems
          (fun other hother => hgap other (List.mem_cons_of_mem item hother))
          (fun other hother => hblank other (List.mem_cons_of_mem item hother)) trail
        rw [heq] at hc
        obtain rfl := Option.some.inj hc
        exact isWhitespace_of_isBlank hd
    have hline : Spaced.line (item :: items) = item.gap ++ item.text ++ Spaced.line items :=
      List.flatMap_cons
    rw [hline, List.append_assoc, List.append_assoc,
      splitWhitespace_gap fun c hc => isWhitespace_of_isBlank (hblank item List.mem_cons_self c hc),
      splitWhitespace_append hstart, hrest, List.flatMap_cons]

theorem isWhitespace_of_singleSpaced {spaced : Bool} {text : List Char}
    (h : singleSpaced spaced text = true) : ∀ c ∈ text, isWhitespace c = true → c = ' ' := by
  induction text generalizing spaced with
  | nil => exact fun c hc => absurd hc (List.not_mem_nil)
  | cons d text ih =>
    intro c hc hwhite
    rw [singleSpaced] at h
    split at h
    · rw [Bool.and_eq_true, Bool.and_eq_true, decide_eq_true_eq] at h
      obtain rfl | hc := List.mem_cons.1 hc
      · exact h.1.2
      · exact ih h.2 c hc hwhite
    · rename_i hd
      obtain rfl | hc := List.mem_cons.1 hc
      · exact absurd hwhite hd
      · exact ih h c hc hwhite

/-- An id in double quotes is not touched: no single quote is taken off its first piece. -/
theorem keptId_double {text : List Char} (h : KeptId (.double text)) :
    ∃ first words, splitWhitespace ('"' :: text ++ ['"']) = first :: words ∧
      trimMatches '\'' first ++ words.flatMap (' ' :: ·) = '"' :: text ++ ['"'] := by
  obtain ⟨hsingle, hlast⟩ := h
  have hjoin := joinSpaces_splitWhitespace hsingle
  have hspace := isWhitespace_of_singleSpaced hsingle
  by_cases hmem : ' ' ∈ text
  · -- the first piece ends in front of the first space
    obtain ⟨start, rest, rfl, hstart⟩ := List.eq_append_cons_of_mem hmem
    have htake : (start ++ ' ' :: rest).takeWhile (· ≠ ' ') = start := by
      rw [List.takeWhile_append_of_pos fun c hc => by
        rw [decide_eq_true_eq]
        rintro rfl
        exact hstart hc]
      simp
    have hfirst : ∀ c ∈ '"' :: start, isWhitespace c = false := by
      intro c hc
      rw [Bool.eq_false_iff]
      intro hwhite
      have hmemAll : c ∈ '"' :: (start ++ ' ' :: rest) ++ ['"'] := by
        simp only [List.mem_append, List.mem_cons] at hc ⊢
        tauto
      obtain rfl := hspace c hmemAll hwhite
      obtain hc | hc := List.mem_cons.1 hc
      · exact absurd hc (by decide)
      · exact hstart hc
    have hsplit : splitWhitespace ('"' :: (start ++ ' ' :: rest) ++ ['"']) =
        ('"' :: start) :: splitWhitespace (rest ++ ['"']) := by
      have hcut := splitWhitespace_append_cons (c := ' ') rfl ('"' :: start) (rest ++ ['"'])
      rw [splitWhitespace_word (List.cons_ne_nil _ _) hfirst] at hcut
      simpa using hcut
    refine ⟨_, _, hsplit, ?_⟩
    have hends : trimMatches '\'' ('"' :: start) = '"' :: start := by
      refine trimMatches_of_ends (by simp) ?_
      have hquote := hlast hmem
      rw [htake] at hquote
      rw [List.getLast?_cons]
      cases hlastStart : start.getLast? with
      | none => simp
      | some c =>
        rw [hlastStart] at hquote
        simpa using hquote
    rw [hsplit] at hjoin
    have hwords : splitWhitespace (rest ++ ['"']) ≠ [] := by
      intro hnil
      rw [hnil] at hjoin
      have hlen := congrArg List.length hjoin
      simp [joinSpaces] at hlen
    rw [hends, ← cons_joinSpaces hwords, ← joinSpaces_cons hwords, hjoin]
  · refine ⟨'"' :: text ++ ['"'], [], splitWhitespace_word (by simp) ?_, ?_⟩
    · intro c hc
      rw [Bool.eq_false_iff]
      intro hwhite
      obtain rfl := hspace c hc hwhite
      rw [List.mem_append, List.mem_cons, List.mem_singleton] at hc
      obtain (hc | hc) | hc := hc
      · exact absurd hc (by decide)
      · exact hmem hc
      · exact absurd hc (by decide)
    · have hquote : ('"' :: text ++ ['"']).getLast? ≠ some '\'' := by
        rw [List.getLast?_append]
        simp
      rw [List.flatMap_nil, List.append_nil, trimMatches_of_ends (by simp) hquote]

/-- The words of a kept id, put together again. -/
theorem keptId_eq {id : Spelling} (hvalid : id.Valid) (hne : id.text ≠ []) (h : KeptId id) :
    ∃ first words, splitWhitespace id.text = first :: words ∧
      trimMatches '\'' first ++ words.flatMap (' ' :: ·) = keptId id := by
  cases id with
  | plain text =>
    have hquote : '\'' ∉ text := fun hmem => absurd (hvalid _ hmem) (by decide)
    refine ⟨text, [], splitWhitespace_word hne h, ?_⟩
    rw [List.flatMap_nil, List.append_nil, trimMatches_of_ends]
    · rfl
    · exact fun hhead => hquote (List.mem_of_head? hhead)
    · exact fun hlast => hquote (List.mem_of_getLast? hlast)
  | single text =>
    obtain ⟨htext, hchars⟩ := h
    refine ⟨'\'' :: text ++ ['\''], [], splitWhitespace_word hne ?_, ?_⟩
    · intro c hc
      rw [Spelling.text, List.mem_append, List.mem_cons, List.mem_singleton] at hc
      obtain (rfl | hc) | rfl := hc
      · rfl
      · exact (hchars c hc).2
      · rfl
    · rw [List.flatMap_nil, List.append_nil, trimMatches_quoted htext hvalid]
      rfl
  | double text => exact keptId_double h

namespace CommandLine

variable (line : CommandLine)

/-- The words from the agent on. -/
def arguments : List Spaced :=
  ⟨line.agentGap, line.agent.text, line.agent.word⟩ :: ⟨line.idGap, line.id.text, line.id.word⟩ ::
    line.flags.map Stored.flagItem

theorem withoutTypedPrefixes_eq {provider : AgentResumeProvider} (h : line.Kept provider) :
    withoutTypedPrefixes line.text =
      line.launcher.text ++ (Spaced.line line.arguments ++ line.trail) :=
  withoutTypedPrefixes_line line.added_valid h.nocorrect_first h.nocorrect_space h.assignment_space
    line.launcher.text_ne line.launcher.isWhitespace (by cases line.launcher <;> rfl)
    line.launcher.text_ne_nocorrect (List.cons_ne_nil _ _) line.gap_blank line.gap_ne

theorem launcher_dropped {rest : List Char} :
    ((line.launcher.text ++ ' ' :: rest).dropPrefix? (clinchResumeLauncher ++ [' '])).or
      ((line.launcher.text ++ ' ' :: rest).dropPrefix? (legacyWarpResumeLauncher ++ [' '])) =
        some rest := by
  have hcut : line.launcher.text ++ ' ' :: rest = line.launcher.text ++ [' '] ++ rest := by simp
  rw [hcut]
  cases line.launcher with
  | clinch =>
    rw [List.dropPrefix?_append_of_beq rest (by simp [Launcher.text])]
    rfl
  | warp =>
    have hother : (Launcher.warp.text ++ [' '] ++ rest).dropPrefix? (clinchResumeLauncher ++ [' ']) =
        none := rfl
    rw [hother, List.dropPrefix?_append_of_beq rest (by simp [Launcher.text])]
    rfl

theorem mem_tail_of_arguments {item : Spaced} (h : item ∈ line.arguments) : item ∈ line.items.tail := by
  have hitems : line.items = line.added.map Stored.addedItem ++
      ⟨line.launcherGap, line.launcher.text, line.launcher.text.map .lit⟩ :: line.arguments := rfl
  rw [hitems]
  cases line.added with
  | nil => exact h
  | cons a added => exact List.mem_append_right _ (List.mem_cons_of_mem _ h)

theorem argument_gap_ne : ∀ item ∈ line.arguments, item.gap ≠ [] :=
  fun item hitem => line.gap_ne item (line.mem_tail_of_arguments hitem)

theorem argument_gap_blank : ∀ item ∈ line.arguments, ∀ c ∈ item.gap, isBlank c = true :=
  fun item hitem => line.gap_blank item (List.mem_of_mem_tail (line.mem_tail_of_arguments hitem))

theorem flatMap_flags {provider : AgentResumeProvider} (h : line.Kept provider) :
    ((line.flags.map Stored.flagItem).flatMap fun item => splitWhitespace item.text).flatMap
        (' ' :: ·) =
      (line.flags.map fun flag => flag.2.text).flatMap (' ' :: ·) := by
  rw [List.flatMap_assoc, List.flatMap_map, List.flatMap_map]
  exact List.flatMap_congr fun flag hflag => flatMap_splitWhitespace (h.flags flag hflag)

/-- **The agent is recognized, and the id and the flags are put together again.** -/
theorem parseLaunchCommand_eq {provider : AgentResumeProvider} (h : line.Kept provider) :
    ∃ id flags, parseLaunchCommand line.text = some ⟨provider.asStr, id, flags⟩ ∧
      id ++ flags =
        keptId line.id ++ (line.flags.map fun flag => flag.2.text).flatMap (' ' :: ·) := by
  obtain ⟨first, words, hid, hkept⟩ := keptId_eq line.id_valid.1 line.id_valid.2 h.id
  have hwords := splitWhitespace_line line.argument_gap_ne line.argument_gap_blank line.trail_blank
  obtain ⟨rest, hrest⟩ := @line_of_gap line.arguments ' ' h.launcher_space line.trail
  have hspace : splitWhitespace (' ' :: rest) = splitWhitespace rest :=
    @splitWhitespace_gap [' '] (fun c hc => List.mem_singleton.1 hc ▸ rfl) rest
  have hagent : splitWhitespace line.agent.text = [line.agent.text] ∧
      trimMatches '\'' line.agent.text = provider.asStr := by
    obtain hagent | hagent := h.agent <;> rw [hagent] <;> cases provider <;> exact ⟨rfl, rfl⟩
  have hsplit : splitWhitespace rest = line.agent.text :: first ::
      (words ++ (line.flags.map Stored.flagItem).flatMap fun item => splitWhitespace item.text) := by
    rw [← hspace, ← hrest, hwords, arguments, List.flatMap_cons, List.flatMap_cons, hagent.1, hid]
    rfl
  have hflags := flagsText_eq fun word hword => ne_nil_of_mem_splitWhitespace
    (hsplit ▸ List.mem_cons_of_mem _ (List.mem_cons_of_mem _ hword))
  refine ⟨trimMatches '\'' first,
    (words ++ (line.flags.map Stored.flagItem).flatMap fun item =>
      splitWhitespace item.text).flatMap (' ' :: ·), ?_, ?_⟩
  · rw [parseLaunchCommand, line.withoutTypedPrefixes_eq h, hrest, line.launcher_dropped]
    dsimp only
    rw [hsplit]
    dsimp only
    rw [hagent.2, hflags]
  · rw [List.flatMap_append, line.flatMap_flags h, ← List.append_assoc, hkept]

end CommandLine

end Clinch.AgentResume
