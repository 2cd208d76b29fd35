import Agenomic.Prompt.Validate

/-!
# Rendering

A content is validated and its variables are bound, each to a given value, to its
partial, or to no messages; then the tokens of its templates are replaced. A chat gives
messages, with lists of messages in the places of its placeholders and a history behind
them.
-/

namespace Agenomic.Prompt

open Lib Value

def renderedPromptSchema : String := "agenomic.rendered_prompt/v1"

def maxRenderedCodePoints : Nat := 4194304

def messageRoles : List String := ["system", "user", "assistant", "tool"]

inductive SecretPolicy where
  | off
  | error
  deriving DecidableEq, Repr

structure RenderOptions where
  strict : Bool := true
  history : Option (List Value) := none
  allowDuplicateSystem : Bool := false
  secretPolicy : SecretPolicy := .off

structure Rendered where
  kind : String
  text : Option String
  messages : Option (List Value)
  expandedTemplate : Value
  renderedDocument : Value
  renderedHash : String
  contentDigest : String
  warnings : List Issue

structure RenderError where
  errors : List Issue
  deriving DecidableEq

namespace RenderError

def of (issue : Issue) : RenderError := ⟨[issue]⟩

def reason (e : RenderError) : String := (e.errors.head?.map Issue.code).getD "prompt_render_error"

end RenderError

inductive Method where
  | any
  | text
  | messages
  deriving DecidableEq, Repr

/-! ## Values -/

def checkMessageValue (item : Value) (path : String) (variableName : Option String) :
    Except Issue Unit :=
  let fail path := .error { (Issue.new "invalid_message_value").valueAt path with
    variableName := variableName }
  match item with
  | .object members =>
      match lookup "role" members, lookup "content" members with
      | some role, some content =>
          if role.asStr.any (· ∈ messageRoles) = false then fail (path ++ "/role")
          else if content.isString || (asArray content).isSome || decide (content = .null) then .ok ()
          else fail (path ++ "/content")
      | _, _ => fail path
  | _ => fail path

/-- The messages of a list, one by one. -/
def checkMessages (path : String) (variableName : Option String) :
    List (Value × Nat) → Except Issue Unit
  | [] => .ok ()
  | (item, index) :: rest => do
      checkMessageValue item (pointer path (toString index)) variableName
      checkMessages path variableName rest

def checkValue (varType : String) (value : Value) (path name : String) : Except Issue Unit :=
  let issue code := ((Issue.new code).var name).valueAt path
  if varType = "string" then
    match value with
    | .string text => (checkAjsString text path).mapError fun e => issue e.reason
    | _ => .error (issue "type_mismatch")
  else if varType = "integer" then
    match value with
    | .number n => ((ajsInteger n).map fun _ => ()).mapError issue
    | _ => .error (issue "type_mismatch")
  else if varType = "boolean" then
    if (asBool value).isSome then .ok () else .error (issue "type_mismatch")
  else if varType = "json" then
    (checkAjs path 0 value).mapError fun e => ((Issue.new e.reason).var name).valueAt e.valuePath
  else
    match value with
    | .array items => checkMessages path (some name) items.zipIdx
    | _ => .error (issue "placeholder_not_list")

def renderScalar (varType : String) (value : Value) : List Char :=
  match value with
  | .string text => if varType = "string" then text.toList else canonicalChars value
  | .number n =>
      if varType = "integer" then ((ajsInteger n).toOption.map Json.writeNumber).getD []
      else canonicalChars value
  | .bool flag =>
      if varType = "boolean" then (if flag then "true".toList else "false".toList)
      else canonicalChars value
  | other => canonicalChars other

def messageCodePoints (message : Value) : Nat :=
  match message.get "content" with
  | some (.string text) => text.toList.length
  | some other => other.write.length
  | none => 0

/-! ## Binding -/

/-- The value that is given to a variable. -/
def chooseValue (given partials : Members) (name : String) (declaration : Value) : Option Value :=
  match lookup name given with
  | some value => some value
  | none =>
      match lookup name partials with
      | some value => some value
      | none =>
          if (declarationType declaration).getD "" = "messages"
              ∧ declarationRequired declaration = false then some (.array [])
          else none

/-- Bind one declared variable after the other. -/
def bindValues (given partials : Members) : Members → Except Issue Members
  | [] => .ok []
  | (name, declaration) :: rest =>
      match chooseValue given partials name declaration with
      | none => .error ((Issue.new "missing_variable").var name)
      | some value => do
          checkValue ((declarationType declaration).getD "") value (pointer "/variables" name) name
          let more ← bindValues given partials rest
          .ok ((name, value) :: more)

/-- The first variable that is not declared. -/
def unknownVariables (declared given : Members) : List String :=
  (sortedKeys given).filter fun name => (lookup name declared).isNone

variable (p : Primitives)

/-- The first text of a value that looks like a secret. -/
def secretIn (name : String) (value : Value) : Option Issue :=
  (walkStrings (pointer "/variables" name) value).findSome? fun (text, path) =>
    (scan p text).head?.map fun finding =>
      { ((Issue.new "secret_in_variables").var name).valueAt path with
        pattern := some finding.pattern }

/-- The first variable with a secret. -/
def secretInVariables (declared values : Members) : Option Issue :=
  (sortByName declared).findSome? fun (name, declaration) =>
    if declarationType declaration = some "string" ∨ declarationType declaration = some "json" then
      (lookup name values).bind (secretIn p name)
    else none

variable {p}

/-! ## Tokens and entries -/

/-- A token as it is rendered. -/
def renderToken (declared values : Members) : Expanded → List Char
  | .literal text => text
  | .var name _ =>
      match lookup name values with
      | none => []
      | some value => renderScalar (((lookup name declared).bind declarationType).getD "") value

def renderTokens (declared values : Members) (tokens : List Expanded) : List Char :=
  tokens.flatMap (renderToken declared values)

/-- The expanded template at a path. -/
def tokensAt (expanded : Expansions) (path : String) : List Expanded :=
  (lookup path expanded).getD []

/-- What one entry of a chat gives. -/
structure RenderedEntry where
  messages : List Value
  document : Value
  expanded : Value
  size : Nat
  systemContent : Option String

/-- The messages of a variable. -/
def messagesOf (values : Members) (name : String) : List Value :=
  ((lookup name values).bind asArray).getD []

def renderEntry (declared values : Members) (expanded : Expansions) (entry : Value × Nat) :
    RenderedEntry :=
  match entry.1.get "role" with
  | some role =>
      let tokens := tokensAt expanded (contentPath entry.2)
      let rendered := String.ofList (renderTokens declared values tokens)
      let message : Value := .object [("content", .string rendered), ("role", role)]
      { messages := [message]
        document := message
        expanded := .object
          [("content", .string (String.ofList (expandedSource tokens))), ("role", role)]
        size := rendered.toList.length
        systemContent := if role.asStr = some "system" then some rendered else none }
  | none =>
      let name := placeholderName entry.1
      let items := messagesOf values name
      { messages := items
        document := .object
          [("count", .number (.int items.length)), ("placeholder", .string name)]
        expanded := .object
          [ ("optional", (entry.1.get "optional").getD (.bool false)),
            ("placeholder", .string name) ]
        size := (items.map messageCodePoints).sum
        systemContent := none }

/-- A system message that a template of the chat renders too. -/
def duplicatesSystem (systemContents : List String) (item : Value) : Bool :=
  decide (strAt item "role" = some "system")
    && (strAt item "content").any (· ∈ systemContents)

/-- The first message of a list that repeats a system message. -/
def duplicateAt (systemContents : List String) (path : String) (items : List Value) :
    Option Issue :=
  items.zipIdx.findSome? fun (item, index) =>
    if duplicatesSystem systemContents item then
      some ((Issue.new "duplicate_system_message").valueAt (pointer path (toString index)))
    else none

/-- The first message that repeats a system message, in the variables and in the history. -/
def duplicateSystem (systemContents : List String) (values : Members) (entries history : List Value) :
    Option Issue :=
  (entries.findSome? fun entry =>
    match strAt entry "placeholder" with
    | none => none
    | some name =>
        duplicateAt systemContents (pointer "/variables" name) (messagesOf values name)).or
    (duplicateAt systemContents "/history" history)

/-! ## The result -/

/-- The parts of a result that depend on the kind of the content. -/
structure RenderedParts where
  kind : String
  text : Option String
  messages : Option (List Value)
  document : Value
  expanded : Value
  size : Nat

def renderText (declared values : Members) (expanded : Expansions) : RenderedParts :=
  let tokens := tokensAt expanded "/body"
  let text := String.ofList (renderTokens declared values tokens)
  { kind := "text"
    text := some text
    messages := none
    document := .null
    expanded := .string (String.ofList (expandedSource tokens))
    size := text.toList.length }

def renderChat (declared values : Members) (expanded : Expansions) (entries history : List Value) :
    RenderedParts :=
  let rendered := entries.zipIdx.map (renderEntry declared values expanded)
  { kind := "chat"
    text := none
    messages := some (rendered.flatMap RenderedEntry.messages ++ history)
    document := .array (rendered.map RenderedEntry.document)
    expanded := .array (rendered.map RenderedEntry.expanded)
    size := (rendered.map RenderedEntry.size).sum + (history.map messageCodePoints).sum }

/-- The system messages that the templates render. -/
def systemContentsOf (declared values : Members) (expanded : Expansions) (entries : List Value) :
    List String :=
  entries.zipIdx.filterMap fun entry => (renderEntry declared values expanded entry).systemContent

def documentOf (parts : RenderedParts) (contentDigest : String) (historyCount : Nat) : Value :=
  .object
    [ ("content_digest", .string contentDigest), ("history_count", .number (.int historyCount)),
      ("kind", .string parts.kind), ("messages", parts.document),
      ("schema", .string renderedPromptSchema), ("text", optString parts.text) ]

/-- The history is for chats without placeholders. -/
def checkHistory (isChat : Bool) (entries : List Value) : Option (List Value) → Except Issue Unit
  | none => .ok ()
  | some history =>
      if isChat = false then .error (Issue.new "history_not_supported")
      else if entries.any fun entry => (entry.get "placeholder").isSome then
        .error (Issue.new "history_conflict")
      else checkMessages "/history" none history.zipIdx

/-- The outcome of a check that finds an issue or none. -/
def failWith : Option Issue → Except Issue Unit
  | none => .ok ()
  | some issue => .error issue

/-- In strict mode every given variable is declared. -/
def checkUnknown (strict : Bool) (unknown : List String) : Except Issue Unit :=
  if strict then failWith (unknown.head?.map fun name => (Issue.new "unknown_variable").var name)
  else .ok ()

/-- Unless it is allowed, no message repeats a system message. -/
def checkDuplicates (allowed : Bool) (systemContents : List String) (values : Members)
    (entries history : List Value) : Except Issue Unit :=
  if allowed then .ok () else failWith (duplicateSystem systemContents values entries history)

variable (p)

/-- Under the policy for it, no variable holds a secret. -/
def checkSecrets (policy : SecretPolicy) (declared values : Members) : Except Issue Unit :=
  match policy with
  | .off => .ok ()
  | .error => failWith (secretInVariables p declared values)

/-- The last steps: the size, and the digest of what was rendered. -/
def finishRender (parts : RenderedParts) (contentDigest : String) (historyCount : Nat)
    (warnings : List Issue) : Except Issue Rendered :=
  if maxRenderedCodePoints < parts.size then .error (Issue.new "rendered_output_too_large")
  else
    let document := documentOf parts contentDigest historyCount
    match promptDigest p document with
    | .error e => .error (Issue.fromAjs e)
    | .ok hash =>
        .ok
          { kind := parts.kind
            text := parts.text
            messages := parts.messages
            expandedTemplate := parts.expanded
            renderedDocument := document
            renderedHash := hash
            contentDigest := contentDigest
            warnings := warnings }

/-- Render a content that was validated. -/
def renderValidated (content : Value) (given : Members) (o : RenderOptions)
    (report : ValidationReport) : Except Issue Rendered := do
  let isChat := decide (strAt content "kind" = some "chat")
  let declared := membersAt content "variables"
  let entries := entriesOf content
  let history := o.history.getD []
  let unknown := unknownVariables declared given
  let warnings := report.warnings ++ unknown.map fun name => (Issue.new "strict_disabled").var name
  let digest := report.contentDigest.getD ""
  checkUnknown o.strict unknown
  let values ← bindValues given (membersAt content "partials") (sortByName declared)
  checkSecrets p o.secretPolicy declared values
  checkHistory isChat entries o.history
  if isChat = false then
    finishRender p (renderText declared values report.expanded) digest history.length warnings
  else do
    checkDuplicates o.allowDuplicateSystem
      (systemContentsOf declared values report.expanded entries) values entries history
    finishRender p (renderChat declared values report.expanded entries history) digest
      history.length warnings

def renderAs (method : Method) (content : Value) (given : Members) (fragments : FragmentSource)
    (o : RenderOptions) : Except RenderError Rendered :=
  let report := validate p content fragments
  let isChat := decide (strAt content "kind" = some "chat")
  if report.errors ≠ [] then .error ⟨report.errors⟩
  else if method = .text ∧ isChat = true ∨ method = .messages ∧ isChat = false then
    .error (RenderError.of (Issue.new "kind_mismatch"))
  else (renderValidated p content given o report).mapError RenderError.of

def render (content : Value) (given : Members) (fragments : FragmentSource) (o : RenderOptions) :
    Except RenderError Rendered :=
  renderAs p .any content given fragments o

end Agenomic.Prompt
