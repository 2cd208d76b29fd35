import Agenomic.Connector.Hook

/-!
# Installing the hooks

The hooks are installed into a settings file that the developer has. In the JSON settings of one
runtime they are entries beside the developer's own, found again by what their command says; in the
TOML file of the other they are one block between two markers.

This module has the two changes as they are planned; what they keep is proved behind it.
-/

namespace Agenomic.Connector

open Redact

namespace HooksInstall

/-! ## The command of a hook -/

/-- Where the connector and what runs it are, and the socket of the daemon. -/
structure Install where
  execPath : JsText
  packageDir : JsText
  socket : JsText

variable (env : Install)

def mark : JsText := js "agenomic-connector"

def hookWord : JsText := js " hook "

/-- A shell word in quotes. -/
def shellQuote (s : JsText) : JsText :=
  js "'" ++ s.flatMap (fun u => if u = 39 then js "'\\''" else [u]) ++ js "'"

def failModeName : Hook.FailMode → String
  | .closed => "closed"
  | .open => "open"
  | .local => "local"

def Install.bin : JsText := env.packageDir ++ js "/bin/agenomic-connector.mjs"

def hookCommand (runtime : Hook.Runtime) (failMode : Hook.FailMode) (deadlineMs : Nat) : JsText :=
  shellQuote env.execPath ++ js " " ++ shellQuote env.bin ++ js " hook " ++ js runtime.name
    ++ js " --fail " ++ js (failModeName failMode) ++ js " --deadline " ++ js (toString deadlineMs)
    ++ js " --socket " ++ shellQuote env.socket

/-! ## Members of an object -/

def names (members : Members) : List JsText := members.map Prod.fst

/-- `delete object.name`. -/
def deleteMember (name : JsText) (members : Members) : Members :=
  members.filter fun m => m.1 != name

/-! ## The settings of Claude Code -/

def claudeEvents : List JsText :=
  [js "SessionStart", js "UserPromptSubmit", js "PreToolUse", js "PostToolUse",
    js "PostToolUseFailure", js "SubagentStart", js "SubagentStop", js "Stop", js "SessionEnd"]

def includes (word s : JsText) : Bool := decide (word <:+: s)

def isOurs (hook : JsValue) : Bool :=
  match hook.member "command" with
  | some (.string command) => includes mark command && includes hookWord command
  | _ => false

/-- An entry without the hooks of this tool; an entry that has no hook left is dropped. -/
def withoutOurs (entry : JsValue) : Option JsValue :=
  match entry with
  | .object members =>
      match members.lookup (js "hooks") with
      | some (.array hooks) =>
          if hooks.any isOurs then
            let others := hooks.filter fun hook => !isOurs hook
            if others.isEmpty then none
            else some (.object (JsValue.setMember (js "hooks") (.array others) members))
          else some entry
      | _ => some entry
  | _ => some entry

def isPre (event : JsText) : Bool := event == js "PreToolUse"

/-- The entry that is installed for an event. -/
def ownEntry (failMode : Hook.FailMode) (event : JsText) : JsValue :=
  let matcher : Members :=
    if isPre event || (js "PostToolUse").isPrefixOf event then [(js "matcher", .string (js "*"))]
    else []
  let command := hookCommand env .claudeCode failMode (if isPre event then 590000 else 10000)
  .object (matcher ++ [(js "hooks", .array [.object
    [ (js "type", .string (js "command")), (js "command", .string command),
      (js "timeout", .number (if isPre event then js "600" else js "15")) ]])])

/-- The items of an array, and none of anything else. -/
def itemsOf : Option JsValue → List JsValue
  | some (.array items) => items
  | _ => []

/-- The entries of an event; no entries are no member. -/
def setEvent (event : JsText) (entries : List JsValue) (hooks : Members) : Members :=
  if entries.isEmpty then deleteMember event hooks
  else JsValue.setMember event (.array entries) hooks

/-- What is put behind the other entries of an event. -/
def installed (failMode : Hook.FailMode) (install : Bool) (event : JsText) : List JsValue :=
  if install then [ownEntry env failMode event] else []

def planEvent (failMode : Hook.FailMode) (install : Bool) (hooks : Members) (event : JsText) :
    Members :=
  let others := (itemsOf (hooks.lookup event)).filterMap withoutOurs
  setEvent event (others ++ installed env failMode install event) hooks

def planEvents (failMode : Hook.FailMode) (install : Bool) (hooks : Members) : Members :=
  claudeEvents.foldl (planEvent env failMode install) hooks

/-- `settings.hooks ??= {}`; nothing for a member that is no object. -/
def hooksOf (settings : Members) : Option Members :=
  match settings.lookup (js "hooks") with
  | none => some []
  | some .null => some []
  | some (.object hooks) => some hooks
  | some _ => none

/-- The settings with the hooks installed or removed. -/
def planClaude (failMode : Hook.FailMode) (install : Bool) (settings : Members) : Option Members :=
  (hooksOf settings).map fun hooks =>
    let hooks := planEvents env failMode install hooks
    if hooks.isEmpty then deleteMember (js "hooks") settings
    else JsValue.setMember (js "hooks") (.object hooks) settings

/-! ## The configuration of Codex -/

def codexEvents : List JsText :=
  [js "SessionStart", js "UserPromptSubmit", js "PreToolUse", js "PostToolUse", js "Stop",
    js "SessionEnd"]

def blockStart : JsText :=
  js "# >>> agenomic-connector hooks (managed; remove with "
    ++ js "\x60agenomic-connector hooks uninstall\x60)"

def blockEnd : JsText := js "# <<< agenomic-connector hooks"

/-- A text before the first occurrence of a word, and from there on. -/
def breakAt (word : JsText) : JsText → Option (JsText × JsText)
  | [] => if word = [] then some ([], []) else none
  | u :: rest =>
      if word.isPrefixOf (u :: rest) then some ([], u :: rest)
      else (breakAt word rest).map fun p => (u :: p.1, p.2)

def isNewline (u : UInt16) : Bool := u == 10

/-- A text without the newlines it ends with. -/
def dropNewlines (s : JsText) : JsText := (s.reverse.dropWhile isNewline).reverse

/-- The newlines a text ends with become one. -/
def oneNewline (s : JsText) : JsText :=
  if s.getLast? = some 10 then dropNewlines s ++ js "\n" else s

def noOnlyNewlines (s : JsText) : JsText := if s.all isNewline then [] else s

/-- The text without the block; nothing if the block does not end. -/
def stripBlock (text : JsText) : Option JsText :=
  match breakAt blockStart text with
  | none => some text
  | some (head, rest) =>
      (breakAt blockEnd rest).map fun p =>
        noOnlyNewlines (oneNewline head ++ (p.2.drop blockEnd.length).dropWhile isNewline)

def codexPreToolCommand (failMode : Hook.FailMode) (timeoutSec : Nat) : JsText :=
  hookCommand env .codex failMode (max 1000 ((timeoutSec - 10) * 1000))

def joinLines (lines : List JsText) : JsText := (js "\n").intercalate lines

def codexEvent (failMode : Hook.FailMode) (timeoutSec : Nat) (event : JsText) : List JsText :=
  let pre := isPre event
  let command :=
    if pre then codexPreToolCommand env failMode timeoutSec
    else hookCommand env .codex failMode 10000
  [js "[[hooks." ++ event ++ js "]]"]
    ++ (if pre || event == js "PostToolUse" then [js "matcher = \"*\""] else [])
    ++ [ js "[[hooks." ++ event ++ js ".hooks]]", js "type = \"command\"",
         js "command = " ++ JsValue.quote command,
         js "timeout = " ++ js (toString (if pre then timeoutSec else 30)) ]

/-- The lines of the block between its markers. -/
def blockLines (failMode : Hook.FailMode) (timeoutSec : Nat) (trust : List (JsText × JsText)) :
    List JsText :=
  codexEvents.flatMap (codexEvent env failMode timeoutSec)
    ++ trust.flatMap fun t =>
      [ js "[hooks.state." ++ JsValue.quote t.1 ++ js "]",
        js "trusted_hash = " ++ JsValue.quote t.2 ]

def codexBlock (failMode : Hook.FailMode) (timeoutSec : Nat) (trust : List (JsText × JsText)) :
    JsText :=
  joinLines ([blockStart] ++ blockLines env failMode timeoutSec trust ++ [blockEnd, []])

/-- The lines of a text, for the anchors of a pattern. -/
def linesOf (text : JsText) : List JsText := text.splitOnP isLineEnd

/-- A line declares a table of hooks. -/
def definesHooksTable (text : JsText) : Bool :=
  (linesOf text).any fun line => trim line == js "[hooks]"

/-- The text with the block installed or removed; nothing if the file has to be fixed by hand. -/
def planCodex (failMode : Hook.FailMode) (install : Bool) (trust : List (JsText × JsText))
    (timeoutSec : Nat) (before : JsText) : Option JsText := do
  let after ← stripBlock before
  if definesHooksTable after then none
  else if install then
    let joined := if after ≠ [] ∧ after.getLast? ≠ some 10 then after ++ js "\n" else after
    some (joined ++ (if after ≠ [] then js "\n" else [])
      ++ codexBlock env failMode timeoutSec trust)
  else some after

end HooksInstall

end Agenomic.Connector
