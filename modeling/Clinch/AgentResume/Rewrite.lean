import Clinch.AgentResume.Parse
import Clinch.AgentResume.Typed

/-!
# Rewriting a stored command

* `CommandLine.readWords_text`: a stored command stands for its words;
* `Kept.fork`, `Kept.reopen`: the fork command and the command that reopens a conversation have the
  provider's words around the stored id and flags;
* `remote_words`: a remote resume command is three plain words;
* **`words_kept`**: what becomes of the words, over all stored commands.
-/

set_option autoImplicit false

namespace Clinch.AgentResume

open ShellWords

/-- A word without quotes. -/
def litWord (text : List Char) : Word := text.map .lit

variable (appId : List Char)

/-- What a fork command should say. -/
def forkWords : AgentResumeProvider → Word → List Word → List Word
  | .claude, id, flags =>
    litWord AgentResumeProvider.claude.asStr :: litWord resumeOption :: id ::
      (flags ++ [litWord forkSessionOption])
  | .codex, id, flags =>
    litWord (AgentResumeProvider.codex.launchCommandPrefixFor appId true) :: litWord forkWord :: id :: flags

/-- What the command that reopens a conversation should say. -/
def reopenWords : AgentResumeProvider → Word → List Word → List Word
  | .claude, id, flags =>
    litWord AgentResumeProvider.claude.asStr :: litWord resumeOption :: id :: flags
  | .codex, id, flags =>
    litWord (AgentResumeProvider.codex.launchCommandPrefixFor appId true) :: litWord resumeWord :: id ::
      flags

/-- A conversation that is reopened through the copy its bridge names. -/
def Bridged (provider : AgentResumeProvider) (bridge : Option (List Char)) (localResumable : Bool) :
    Prop :=
  provider = .claude ∧ localResumable = false ∧ ∃ id, bridge = some id ∧ bridgeStart <+: id

theorem reads_lit {text : List Char} (hne : text ≠ []) (h : text.all isPlain = true) :
    Reads text (litWord text) := reads_plain hne (List.all_eq_true.1 h)

theorem reads_asStr (provider : AgentResumeProvider) : Reads provider.asStr (litWord provider.asStr) := by
  cases provider <;> exact reads_lit (by decide) rfl

theorem reads_launchCommandPrefixFor (provider : AgentResumeProvider) (isLocal : Bool) :
    Reads (provider.launchCommandPrefixFor appId isLocal)
      (litWord (provider.launchCommandPrefixFor appId isLocal)) := by
  unfold AgentResumeProvider.launchCommandPrefixFor
  split
  · exact reads_lit (by decide) rfl
  · exact reads_asStr provider

theorem reads_resumeOption : Reads resumeOption (litWord resumeOption) := reads_lit (by decide) rfl

theorem reads_keptId {id : Spelling} (hvalid : id.Valid) (hne : id.text ≠ []) (h : KeptId id) :
    Reads (keptId id) id.word := by
  cases id with
  | plain text => exact reads_plain hne hvalid
  | single text => exact reads_plain h.1 fun c hc => (h.2 c hc).1
  | double text => exact Spelling.reads hvalid hne

namespace CommandLine

variable {appId} (line : CommandLine)

/-- The quoted words of a line. -/
def spellings : List Spelling :=
  line.added.filterMap (fun a => match a.2 with
    | .nocorrect => none
    | .assignment _ value => some value) ++
    line.agent :: line.id :: line.flags.map Prod.snd

theorem spans_added {a : List Char × Added} (ha : a ∈ line.added)
    (h : ∀ spelling ∈ line.spellings, Spelling.Spanned spelling) : Spans a.2.text := by
  have hvalid := line.added_valid a ha
  obtain ⟨gap, added⟩ := a
  cases added with
  | nocorrect =>
    exact @spans_plain nocorrectWord (by decide) (List.all_eq_true.1 rfl) (isWhitespace_of_all rfl)
  | assignment name value =>
    have hvalue : Spelling.Spanned value :=
      h value (List.mem_append_left _ (List.mem_filterMap.2 ⟨_, ha, rfl⟩))
    have hname : Spans (name ++ ['=']) := by
      refine spans_plain (by simp) (fun c hc => ?_) (fun c hc => ?_)
      all_goals obtain halnum | rfl | rfl := Added.name_char hvalid.1 c hc
      · exact isPlain_of_isAlphanum halnum
      · decide
      · decide
      · exact isWhitespace_of_isAlphanum halnum
      · rfl
      · rfl
    by_cases hempty : value.text = []
    · simpa [Added.text, hempty] using hname
    · simpa [Added.text] using hname.append (Spelling.spans hvalid.2 hvalue hempty)

theorem spans (h : ∀ spelling ∈ line.spellings, Spelling.Spanned spelling) :
    ∀ item ∈ line.items, Spans item.text := by
  intro item hitem
  have hspelling : ∀ spelling ∈ line.agent :: line.id :: line.flags.map Prod.snd,
      Spelling.Spanned spelling := fun spelling hmem => h spelling (List.mem_append_right _ hmem)
  rw [Stored.items, List.mem_append, List.mem_map] at hitem
  simp only [List.mem_cons, List.mem_map] at hitem
  obtain ⟨a, ha, rfl⟩ | rfl | rfl | rfl | ⟨flag, hflag, rfl⟩ := hitem
  · exact line.spans_added ha h
  · exact spans_plain line.launcher.text_ne line.launcher.isPlain line.launcher.isWhitespace
  · exact Spelling.spans line.agent_valid.1 (hspelling _ List.mem_cons_self) line.agent_valid.2
  · exact Spelling.spans line.id_valid.1 (hspelling _ (List.mem_cons_of_mem _ List.mem_cons_self))
      line.id_valid.2
  · exact Spelling.spans (line.flags_valid flag hflag).1
      (hspelling _ (List.mem_cons_of_mem _ (List.mem_cons_of_mem _ (List.mem_map_of_mem hflag))))
      (line.flags_valid flag hflag).2

/-- The first word, and the words after it. -/
theorem exists_items : ∃ first items, line.items = first :: items ∧
    (∀ c ∈ first.gap, isBlank c = true) ∧ ∀ item ∈ items, item.Valid := by
  have hblank := line.gap_blank
  have hgap := line.gap_ne
  have hreads := line.reads
  have hne : line.items ≠ [] := by simp [Stored.items]
  obtain ⟨first, items, hitems⟩ := List.exists_cons_of_ne_nil hne
  rw [hitems] at hblank hgap hreads
  refine ⟨first, items, hitems, hblank first List.mem_cons_self, fun item hitem => ?_⟩
  exact ⟨hgap item hitem, hblank item (List.mem_cons_of_mem first hitem),
    hreads item (List.mem_cons_of_mem first hitem)⟩

/-- **A stored command stands for its words.** -/
theorem readWords_text : readWords line.text = some line.words := by
  obtain ⟨first, items, hitems, hblank, hvalid⟩ := line.exists_items
  have hfirst := line.reads first (hitems ▸ List.mem_cons_self)
  have hread := readWords_spaced hblank hfirst hvalid line.trail_blank
  have hcons : Spaced.line (first :: items) = first.gap ++ first.text ++ Spaced.line items :=
    List.flatMap_cons
  rwa [Stored.text, Stored.words, hitems, hcons]

/-- **What is typed into zsh.** -/
theorem readWords_typed (h : ∀ spelling ∈ line.spellings, Spelling.Spanned spelling) :
    readWords (commandToType line.text .zsh) = some (litWord nocorrectWord :: line.words) := by
  obtain ⟨first, items, hitems, hblank, hvalid⟩ := line.exists_items
  have hreads := line.reads
  have hspans := line.spans h
  rw [hitems] at hreads hspans
  rw [Stored.text, Stored.words, hitems]
  exact readWords_commandToType hblank hvalid hreads hspans line.trail_blank

theorem reads_flags : List.Forall₂ Reads (line.flags.map fun flag => flag.2.text) line.flagWords := by
  rw [Stored.flagWords, List.forall₂_map_left_iff, List.forall₂_map_right_iff, List.forall₂_same]
  exact fun flag hflag => Spelling.reads (line.flags_valid flag hflag).1 (line.flags_valid flag hflag).2

end CommandLine

/-- A command put together from a program, an option, an id with its flags and further words. -/
theorem readWords_rewritten {program option id flags kept : List Char} {word : Word}
    {texts last : List (List Char)} {words lastWords : List Word}
    (hprogram : Reads program (litWord program)) (hoption : Reads option (litWord option))
    (hid : Reads kept word) (hflags : List.Forall₂ Reads texts words)
    (hkept : id ++ flags = kept ++ texts.flatMap (' ' :: ·))
    (hlast : List.Forall₂ Reads last lastWords) :
    readWords (program ++ ' ' :: option ++ ' ' :: id ++ flags ++ last.flatMap (' ' :: ·)) =
      some (litWord program :: litWord option :: word :: (words ++ lastWords)) := by
  have htext : program ++ ' ' :: option ++ ' ' :: id ++ flags ++ last.flatMap (' ' :: ·) =
      program ++ (option :: kept :: (texts ++ last)).flatMap (' ' :: ·) := by
    calc program ++ ' ' :: option ++ ' ' :: id ++ flags ++ last.flatMap (' ' :: ·)
        = program ++ ' ' :: option ++ ' ' :: (id ++ flags) ++ last.flatMap (' ' :: ·) := by simp
      _ = program ++ ' ' :: option ++ ' ' :: (kept ++ texts.flatMap (' ' :: ·)) ++
            last.flatMap (' ' :: ·) := by rw [hkept]
      _ = program ++ (option :: kept :: (texts ++ last)).flatMap (' ' :: ·) := by simp
  rw [htext]
  exact readWords_joined hprogram (.cons hoption (.cons hid (List.rel_append hflags hlast)))

variable {appId}

/-- **The fork command.** -/
theorem Stored.Kept.fork {line : CommandLine} {provider : AgentResumeProvider}
    (h : line.Kept provider) :
    ∃ fork, deriveForkCommand appId line.text = some fork ∧
      readWords fork = some (forkWords appId provider line.id.word line.flagWords) := by
  obtain ⟨id, flags, hparse, hkept⟩ := line.parseLaunchCommand_eq h
  have hid := reads_keptId line.id_valid.1 line.id_valid.2 h.id
  have hflags := line.reads_flags
  unfold deriveForkCommand
  rw [hparse]
  cases provider with
  | claude =>
    refine ⟨_, if_pos rfl, ?_⟩
    have hfork : Reads forkSessionOption (litWord forkSessionOption) := reads_lit (by decide) rfl
    have hread := readWords_rewritten (reads_asStr .claude) reads_resumeOption hid hflags hkept
      (.cons hfork .nil)
    rwa [List.flatMap_singleton] at hread
  | codex =>
    refine ⟨_, (if_neg (by decide)).trans (if_pos rfl), ?_⟩
    have hword : Reads forkWord (litWord forkWord) := reads_lit (by decide) rfl
    have hread := readWords_rewritten (reads_launchCommandPrefixFor appId .codex true) hword hid hflags
      hkept .nil
    rwa [List.flatMap_nil, List.append_nil, List.append_nil] at hread

/-- **The command that reopens a conversation**, if not through its bridge. -/
theorem Stored.Kept.reopen {line : CommandLine} {provider : AgentResumeProvider}
    (h : line.Kept provider) :
    ∃ launch, parseLaunchCommand line.text = some launch ∧ ∀ bridge localResumable,
      ¬ Bridged provider bridge localResumable →
        ∃ reopened, (AgentConversation.ofLaunch launch bridge localResumable).reopenCommand appId =
            some reopened ∧
          readWords reopened = some (reopenWords appId provider line.id.word line.flagWords) := by
  obtain ⟨id, flags, hparse, hkept⟩ := line.parseLaunchCommand_eq h
  have hid := reads_keptId line.id_valid.1 line.id_valid.2 h.id
  have hflags := line.reads_flags
  refine ⟨_, hparse, fun bridge localResumable hbridged => ?_⟩
  unfold AgentConversation.reopenCommand AgentConversation.ofLaunch
  cases provider with
  | claude =>
    have hread := readWords_rewritten (reads_asStr .claude) reads_resumeOption hid hflags hkept .nil
    rw [List.flatMap_nil, List.append_nil, List.append_nil] at hread
    refine ⟨_, ?_, hread⟩
    dsimp only
    rw [if_pos rfl]
    cases localResumable with
    | true => rfl
    | false =>
      cases bridge with
      | none => rfl
      | some bridge =>
        have hstart : ¬ bridgeStart.isPrefixOf bridge = true := fun hstart =>
          hbridged ⟨rfl, rfl, bridge, rfl, List.isPrefixOf_iff_prefix.1 hstart⟩
        dsimp only
        rw [if_neg (by decide), if_neg hstart]
  | codex =>
    have hword : Reads resumeWord (litWord resumeWord) := reads_lit (by decide) rfl
    have hread := readWords_rewritten (reads_launchCommandPrefixFor appId .codex true) hword hid hflags
      hkept .nil
    rw [List.flatMap_nil, List.append_nil, List.append_nil] at hread
    have hother : AgentResumeProvider.codex.asStr ≠ AgentResumeProvider.claude.asStr := by decide
    exact ⟨_, (if_neg hother).trans (if_pos rfl), hread⟩

/-! ## Remote resume commands -/

theorem isPlain_of_isSafeSessionId {id : List Char} (h : isSafeSessionId id = true) :
    id ≠ [] ∧ ∀ c ∈ id, isPlain c = true := by
  rw [isSafeSessionId, Bool.and_eq_true, decide_eq_true_eq, List.all_eq_true] at h
  refine ⟨h.1, fun c hc => ?_⟩
  have hchar := h.2 c hc
  rw [Bool.or_eq_true, decide_eq_true_eq] at hchar
  obtain halnum | rfl := hchar
  · exact isPlain_of_isAlphanum halnum
  · decide

/-- **A remote resume command is three plain words.** -/
theorem remote_words {provider : AgentResumeProvider} {text command : List Char}
    (h : buildRemoteResumeCommand provider text = some command) :
    (∀ c ∈ trimChars text, isPlain c = true) ∧
      readWords command =
        some [litWord clinchResumeLauncher, litWord provider.asStr, litWord (trimChars text)] := by
  unfold buildRemoteResumeCommand at h
  dsimp only at h
  split at h
  · cases h
  · rename_i hsafe
    obtain rfl := Option.some.inj h
    rw [not_or, Bool.not_eq_false] at hsafe
    obtain ⟨hne, hplain⟩ := isPlain_of_isSafeSessionId hsafe.2
    refine ⟨hplain, ?_⟩
    have hlauncher : Reads clinchResumeLauncher (litWord clinchResumeLauncher) :=
      reads_lit (by decide) rfl
    have hread := readWords_joined hlauncher
      (.cons (reads_asStr provider) (.cons (reads_plain hne hplain) .nil))
    simpa [litWord] using hread

/-- **The words of a stored command are kept** by what is typed, by a fork, by a conversation that
is reopened, and by a remote command. -/
theorem words_kept (appId : List Char) :
    (∀ line : CommandLine, (∀ spelling ∈ line.spellings, Spelling.Spanned spelling) →
      readWords line.text = some line.words ∧
      readWords (commandToType line.text .zsh) = some (litWord nocorrectWord :: line.words)) ∧
    (∀ (line : CommandLine) (provider : AgentResumeProvider), line.Kept provider →
      (∃ fork, deriveForkCommand appId line.text = some fork ∧
        readWords fork = some (forkWords appId provider line.id.word line.flagWords)) ∧
      ∃ launch, parseLaunchCommand line.text = some launch ∧ ∀ bridge localResumable,
        ¬ Bridged provider bridge localResumable →
          ∃ reopened, (AgentConversation.ofLaunch launch bridge localResumable).reopenCommand appId =
              some reopened ∧
            readWords reopened = some (reopenWords appId provider line.id.word line.flagWords)) ∧
    ∀ (provider : AgentResumeProvider) (text command : List Char),
      buildRemoteResumeCommand provider text = some command →
        ∃ id, (∀ c ∈ id, isPlain c = true) ∧ readWords command =
          some [litWord clinchResumeLauncher, litWord provider.asStr, litWord id] := by
  refine ⟨fun line h => ⟨line.readWords_text, line.readWords_typed h⟩,
    fun line provider h => ⟨h.fork, h.reopen⟩, fun provider text command h => ?_⟩
  obtain ⟨hplain, hread⟩ := remote_words h
  exact ⟨trimChars text, hplain, hread⟩

/-- `nocorrect A='=' clinch_agent_resume_launch 'claude' "x y" 'a b'`. -/
def quotedLine : CommandLine where
  added := [([], .nocorrect), ([' '], .assignment ['A'] (.single ['=']))]
  launcherGap := ['\t']
  launcher := .clinch
  agentGap := [' ']
  agent := .single ['c', 'l', 'a', 'u', 'd', 'e']
  idGap := [' ', ' ']
  id := .double ['x', ' ', 'y']
  flags := [([' '], .single ['a', ' ', 'b'])]
  trail := []
  added_valid := by decide
  agent_valid := by decide
  id_valid := by decide
  flags_valid := by decide
  gap_blank := Spaced.blank_of_all rfl
  gap_ne := by decide
  trail_blank := by simp

theorem quotedLine_kept :
    readWords (commandToType quotedLine.text .zsh) =
        some (litWord nocorrectWord :: quotedLine.words) ∧
      (∃ fork, deriveForkCommand [] quotedLine.text = some fork ∧
        readWords fork = some (forkWords [] .claude quotedLine.id.word quotedLine.flagWords)) ∧
      ∃ id, (∀ c ∈ id, isPlain c = true) ∧
        readWords (clinchResumeLauncher ++ [' ', 'c', 'o', 'd', 'e', 'x', ' ', '7']) =
          some [litWord clinchResumeLauncher, litWord AgentResumeProvider.codex.asStr, litWord id] := by
  have hkept := words_kept []
  have hspace : (quotedLine.added.all fun a => a.2.text.all fun c => !isWhitespace c) = true := rfl
  have hflags : (quotedLine.flags.all fun flag => singleSpaced true flag.2.text) = true := rfl
  refine ⟨(hkept.1 quotedLine (by decide)).2, (hkept.2.1 quotedLine .claude ?_).1,
    hkept.2.2 .codex ['7'] _ rfl⟩
  exact
    { nocorrect_first := by decide
      nocorrect_space := fun _ => rfl
      assignment_space := fun a ha => isWhitespace_of_all (List.all_eq_true.1 hspace a ha)
      launcher_space := rfl
      agent := .inr rfl
      id := ⟨rfl, by decide⟩
      flags := List.all_eq_true.1 hflags }

/-- `clinch_agent_resume_launch claude x 'a  b'`, with two spaces in the flag. -/
def spacedLine : CommandLine where
  added := []
  launcherGap := []
  launcher := .clinch
  agentGap := [' ']
  agent := .plain ['c', 'l', 'a', 'u', 'd', 'e']
  idGap := [' ']
  id := .plain ['x']
  flags := [([' '], .single ['a', ' ', ' ', 'b'])]
  trail := []
  added_valid := by simp
  agent_valid := ⟨List.all_eq_true.1 rfl, by decide⟩
  id_valid := ⟨List.all_eq_true.1 rfl, by decide⟩
  flags_valid := by decide
  gap_blank := Spaced.blank_of_all rfl
  gap_ne := by decide
  trail_blank := by simp

/-- A fork loses one of two quoted spaces, and a bridge takes the place of the session id. -/
theorem spacedLine_lost :
    (¬ ∃ fork, deriveForkCommand [] spacedLine.text = some fork ∧
      readWords fork = some (forkWords [] .claude spacedLine.id.word spacedLine.flagWords)) ∧
    ∃ launch, parseLaunchCommand spacedLine.text = some launch ∧
      ¬ ∃ reopened,
        (AgentConversation.ofLaunch launch (some bridgeStart) false).reopenCommand [] = some reopened ∧
          ∃ flags, readWords reopened = some (reopenWords [] .claude spacedLine.id.word flags) := by
  have hparse : parseLaunchCommand spacedLine.text = some
      ⟨['c', 'l', 'a', 'u', 'd', 'e'], ['x'], [' ', '\'', 'a', ' ', 'b', '\'']⟩ := by cbv
  refine ⟨?_, _, hparse, ?_⟩
  · rintro ⟨fork, hfork, hread⟩
    rw [deriveForkCommand, hparse] at hfork
    obtain rfl := Option.some.inj hfork
    have hflag := congrArg (fun words => words.bind (·[3]?)) hread
    exact absurd hflag (by cbv; decide)
  · rintro ⟨reopened, hreopened, flags, hread⟩
    obtain rfl := Option.some.inj hreopened
    have hsecond := congrArg (fun words => words.bind (·[1]?)) hread
    exact absurd hsecond (by cbv; decide)

end Clinch.AgentResume
