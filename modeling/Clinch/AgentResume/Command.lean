import Clinch.Whitespace
import Clinch.Utf8

/-!
# Agent resume commands

A pane's restore command, `clinch_agent_resume_launch <agent> <id> [flags…]`, and what is made of it:

* `parseLaunchCommand`: the agent, the session id and the flags of a stored command;
* `deriveForkCommand`, `AgentConversation.reopenCommand`: the provider's own command;
* `commandToType`: the text typed into a shell to run a command;
* `buildRemoteResumeCommand`: the restore command of a session id that comes from a remote client.
-/

set_option autoImplicit false

namespace Clinch.AgentResume

/-! ## Fixed texts -/

def nocorrectWord : List Char := ['n', 'o', 'c', 'o', 'r', 'r', 'e', 'c', 't']

def clinchResumeLauncher : List Char :=
  ['c', 'l', 'i', 'n', 'c', 'h', '_', 'a', 'g', 'e', 'n', 't', '_', 'r', 'e', 's', 'u', 'm', 'e',
    '_', 'l', 'a', 'u', 'n', 'c', 'h']

def legacyWarpResumeLauncher : List Char :=
  ['w', 'a', 'r', 'p', '_', 'a', 'g', 'e', 'n', 't', '_', 'r', 'e', 's', 'u', 'm', 'e', '_', 'l',
    'a', 'u', 'n', 'c', 'h']

def clinchCodexLaunch : List Char :=
  ['c', 'l', 'i', 'n', 'c', 'h', '_', 'c', 'o', 'd', 'e', 'x', '_', 'l', 'a', 'u', 'n', 'c', 'h']

def resumeWord : List Char := ['r', 'e', 's', 'u', 'm', 'e']

def forkWord : List Char := ['f', 'o', 'r', 'k']

def resumeOption : List Char := ['-', '-', 'r', 'e', 's', 'u', 'm', 'e']

def teleportOption : List Char := ['-', '-', 't', 'e', 'l', 'e', 'p', 'o', 'r', 't']

def forkSessionOption : List Char :=
  ['-', '-', 'f', 'o', 'r', 'k', '-', 's', 'e', 's', 's', 'i', 'o', 'n']

def bridgeStart : List Char := ['s', 'e', 's', 's', 'i', 'o', 'n', '_']

/-- The applications that have the Codex launcher. -/
def runtimeAppIds : List (List Char) :=
  [['s', 'h', '.', 'c', 'l', 'i', 'n', 'c', 'h', '.', 'C', 'l', 'i', 'n', 'c', 'h'],
    ['s', 'h', '.', 'c', 'l', 'i', 'n', 'c', 'h', '.', 'C', 'l', 'i', 'n', 'c', 'h', 'D', 'e', 'v']]

/-! ## Providers -/

inductive AgentResumeProvider
  | claude
  | codex
deriving DecidableEq

def appIdEnablesRuntime (appId : List Char) : Bool := runtimeAppIds.contains appId

namespace AgentResumeProvider

def asStr : AgentResumeProvider → List Char
  | claude => ['c', 'l', 'a', 'u', 'd', 'e']
  | codex => ['c', 'o', 'd', 'e', 'x']

def launchCommandPrefixFor (provider : AgentResumeProvider) (appId : List Char) (isLocal : Bool) :
    List Char :=
  if isLocal && provider = codex && appIdEnablesRuntime appId then clinchCodexLaunch
  else provider.asStr

end AgentResumeProvider

/-- What a session id is made of. -/
def isSafeSessionId (sessionId : List Char) : Bool :=
  sessionId ≠ [] && sessionId.all fun c => c.isAlphanum || c = '-'

def buildRemoteResumeCommand (provider : AgentResumeProvider) (durableSessionId : List Char) :
    Option (List Char) :=
  let durableSessionId := trimChars durableSessionId
  if 256 < (utf8 durableSessionId).length ∨ isSafeSessionId durableSessionId = false then none
  else some (clinchResumeLauncher ++ ' ' :: provider.asStr ++ ' ' :: durableSessionId)

/-! ## Words of a stored command -/

/-- `str::trim_start`. -/
def trimStart (text : List Char) : List Char := text.dropWhile isWhitespace

/-- `str::split_once`, at the first character that satisfies `p`. -/
def splitOnce (p : Char → Bool) (text : List Char) : Option (List Char × List Char) :=
  match text.dropWhile (fun c => !p c) with
  | [] => none
  | _ :: after => some (text.takeWhile fun c => !p c, after)

/-- `str::trim_matches`. -/
def trimMatches (c : Char) (text : List Char) : List Char :=
  ((text.dropWhile (· = c)).reverse.dropWhile (· = c)).reverse

theorem splitOnce_length {p : Char → Bool} {text word after : List Char}
    (h : splitOnce p text = some (word, after)) : after.length < text.length := by
  unfold splitOnce at h
  split at h
  · cases h
  · rename_i c after' hdrop
    cases h
    have hsuffix : text.dropWhile (fun c => !p c) <:+ text := List.dropWhile_suffix _
    have hlen := hsuffix.length_le
    rw [hdrop, List.length_cons] at hlen
    omega

/-- A command line without zsh's `nocorrect`. -/
def withoutNocorrect (command : List Char) : List Char :=
  let command := trimStart command
  match command.dropPrefix? (nocorrectWord ++ [' ']) with
  | some rest => trimStart rest
  | none => command

def isShellAssignment (word : List Char) : Bool :=
  match splitOnce (· = '=') word with
  | none => false
  | some (name, _) =>
    name ≠ [] && !(name.head?.any Char.isDigit) && name.all fun c => c.isAlphanum || c = '_'

/-- The command line after its leading assignments. -/
def withoutAssignments (rest : List Char) : List Char :=
  match _h : splitOnce isWhitespace rest with
  | none => rest
  | some (word, after) =>
    if isShellAssignment word then withoutAssignments (trimStart after) else rest
termination_by rest.length
decreasing_by
  have hlen := splitOnce_length _h
  have htrim : (trimStart after).length ≤ after.length := (List.dropWhile_suffix _).length_le
  omega

/-- A command line without what is added around a stored command when it is typed. -/
def withoutTypedPrefixes (command : List Char) : List Char :=
  withoutAssignments (withoutNocorrect command)

/-- `join(" ")`. -/
def joinSpaces (words : List (List Char)) : List Char := List.intercalate [' '] words

/-- A stored resume command split into its parts. `flags` has a leading space when there are any. -/
structure LaunchCommand where
  agent : List Char
  id : List Char
  flags : List Char
deriving DecidableEq

def parseLaunchCommand (command : List Char) : Option LaunchCommand :=
  let command := withoutTypedPrefixes command
  match (command.dropPrefix? (clinchResumeLauncher ++ [' '])).or
      (command.dropPrefix? (legacyWarpResumeLauncher ++ [' '])) with
  | none => none
  | some rest =>
    match splitWhitespace rest with
    | agent :: id :: parts =>
      let flags := joinSpaces parts
      some
        { agent := trimMatches '\'' agent
          id := trimMatches '\'' id
          flags := if flags = [] then [] else ' ' :: flags }
    | _ => none

variable (appId : List Char)

/-- The command that forks a stored command's session. -/
def deriveForkCommand (command : List Char) : Option (List Char) :=
  match parseLaunchCommand command with
  | none => none
  | some ⟨agent, id, flags⟩ =>
    if agent = AgentResumeProvider.claude.asStr then
      some (AgentResumeProvider.claude.asStr ++ ' ' :: resumeOption ++ ' ' :: id ++ flags ++
        ' ' :: forkSessionOption)
    else if agent = AgentResumeProvider.codex.asStr then
      some (AgentResumeProvider.codex.launchCommandPrefixFor appId true ++ ' ' :: forkWord ++
        ' ' :: id ++ flags)
    else none

/-- A past conversation: what its command is made from. -/
structure AgentConversation where
  agent : List Char
  sessionId : List Char
  bridge : Option (List Char)
  localResumable : Bool
  flags : List Char

namespace AgentConversation

/-- The conversation that a journal write of a stored command leads to. -/
def ofLaunch (launch : LaunchCommand) (bridge : Option (List Char)) (localResumable : Bool) :
    AgentConversation :=
  ⟨launch.agent, launch.id, bridge, localResumable, launch.flags⟩

def reopenCommand (conversation : AgentConversation) : Option (List Char) :=
  let ⟨agent, sessionId, bridge, localResumable, flags⟩ := conversation
  let resumed := AgentResumeProvider.claude.asStr ++ ' ' :: resumeOption ++ ' ' :: sessionId ++ flags
  if agent = AgentResumeProvider.claude.asStr then
    if localResumable then some resumed
    else match bridge with
      | some bridge =>
        if bridgeStart.isPrefixOf bridge then
          some (AgentResumeProvider.claude.asStr ++ ' ' :: teleportOption ++ ' ' :: bridge ++ flags)
        else some resumed
      | none => some resumed
  else if agent = AgentResumeProvider.codex.asStr then
    some (AgentResumeProvider.codex.launchCommandPrefixFor appId true ++ ' ' :: resumeWord ++
      ' ' :: sessionId ++ flags)
  else none

end AgentConversation

/-! ## Typing a command -/

inductive ShellType
  | zsh
  | bash
  | fish
  | powerShell
deriving DecidableEq

/-- The words of a command line with their quotes, where `start` is the current word so far. -/
def shellWordSpansFrom : Option (List Char) → Option Char → List Char → Option (List (List Char))
  | _, some _, [] => none
  | start, none, [] => some start.toList
  | start, some quote, c :: command =>
    shellWordSpansFrom (some (start.getD [] ++ [c])) (if c = quote then none else some quote) command
  | start, none, c :: command =>
    if c = '\'' || c = '"' then
      shellWordSpansFrom (some (start.getD [] ++ [c])) (some c) command
    else if isWhitespace c then
      (start.toList ++ ·) <$> shellWordSpansFrom none none command
    else shellWordSpansFrom (some (start.getD [] ++ [c])) none command

def shellWordSpans (command : List Char) : Option (List (List Char)) :=
  shellWordSpansFrom none none command

def plainMarks : List Char := ['_', '-', '.', '/', ':', '=', ',', '@', '%', '+']

def plainArgument (word : List Char) : Bool :=
  word.all fun c => c.isAlphanum || plainMarks.contains c

def alreadyQuoted (word : List Char) : Bool := word.any fun c => c = '\'' || c = '"'

/-- A command with its arguments in single quotes, or `none` if a word could mean something to the
shell. -/
def withQuotedArguments (command : List Char) : Option (List Char) :=
  match shellWordSpans command with
  | none => none
  | some words =>
    if words.all fun word => plainArgument word || alreadyQuoted word then
      let programIndex := (words.takeWhile isShellAssignment).length
      some (joinSpaces (words.mapIdx fun index word =>
        if index ≤ programIndex ∨ alreadyQuoted word then word else '\'' :: word ++ ['\'']))
    else none

def commandToType (command : List Char) (shellType : ShellType) : List Char :=
  if shellType ≠ .zsh then command
  else nocorrectWord ++ ' ' :: (withQuotedArguments command).getD command

end Clinch.AgentResume
