import Agenomic.Prompt.Refs
import Agenomic.Prompt.Template

/-!
# Prompt contents

A content is a document with a body: one template, or a chat of templates and of
placeholders for messages. Here are the checks that look at a content alone: its
members, its declarations, its limits and the entries of a chat.
-/

namespace Agenomic.Prompt

open Lib Value

structure Issue where
  code : String
  fault : Option String := none
  variableName : Option String := none
  valuePath : Option String := none
  path : Option String := none
  offset : Option Nat := none
  line : Option Nat := none
  column : Option Nat := none
  pattern : Option String := none
  fragment : Option String := none
  deriving DecidableEq, Repr

namespace Issue

def new (code : String) : Issue := { code }

def var (i : Issue) (name : String) : Issue := { i with variableName := some name }

def valueAt (i : Issue) (valuePath : String) : Issue := { i with valuePath := some valuePath }

def inFragment (i : Issue) (key : Option String) : Issue := { i with fragment := key }

def withSyntax (i : Issue) (e : SyntaxError) : Issue :=
  { i with
    fault := some e.reason
    offset := some e.offset
    line := some e.line
    column := some e.column }

def fromAjs (e : AjsError) : Issue := (new e.reason).valueAt e.valuePath

end Issue

def Issue.at (i : Issue) (path : String) : Issue := { i with path := some path }

/-! ## Templates -/

def contentSchema : String := "agenomic.prompt_content/v1"

def templateFormat : String := "agenomic-fstring/v1"

def rendererVersion : String := "1"

def maxContentBytes : Nat := 262144

def maxTemplateCodePoints : Nat := 65536

def maxMessages : Nat := 256

def maxVariables : Nat := 128

def maxFragments : Nat := 32

def contentMembers : List String :=
  [ "schema", "template_format", "renderer_version", "kind", "body", "variables", "partials",
    "output_contract", "fragments" ]

def variableTypes : List String := ["string", "integer", "boolean", "json", "messages"]

def templateRoles : List String := ["system", "user", "assistant"]

/-- A member that is a text. -/
def strAt (v : Value) (key : String) : Option String := (v.get key).bind asStr

def asBool : Value → Option Bool
  | .bool b => some b
  | _ => none

def asArray : Value → Option (List Value)
  | .array items => some items
  | _ => none

/-- The entries of a chat; none when the body is no list. -/
def entriesOf (content : Value) : List Value := ((content.get "body").bind asArray).getD []

structure Template where
  path : String
  text : Option String

/-- The path of an entry of a chat. -/
def entryPath (index : Nat) : String := "/body/" ++ String.ofList (decimal index)

/-- The path of the template of an entry. -/
def contentPath (index : Nat) : String := entryPath index ++ "/content"

/-- The template of an entry that has a role. -/
def entryTemplate (entry : Value × Nat) : Option Template :=
  match entry.1 with
  | .object members =>
      if (lookup "role" members).isSome then
        some ⟨contentPath entry.2, (lookup "content" members).bind asStr⟩
      else none
  | _ => none

def contentTemplates (content : Value) : List Template :=
  match content.get "body" with
  | none => []
  | some body =>
      if strAt content "kind" = some "text" then [⟨"/body", body.asStr⟩]
      else match body with
        | .array entries => entries.zipIdx.filterMap entryTemplate
        | _ => []

/-! ## Shape -/

/-- The checks of one declaration. -/
def checkDeclaration (name : String) (declaration : Value) : List Issue :=
  let path := pointer "/variables" name
  if isName name = false then [(Issue.new "invalid_variable_name").at path]
  else match declaration with
    | .object members =>
        (["type", "required"].filterMap fun member =>
          if (lookup member members).isSome then none
          else some ((Issue.new "missing_field").at (pointer path member)))
        ++ ((sortedKeys members).filterMap fun member =>
          if member ≠ "type" ∧ member ≠ "required" then
            some ((Issue.new "unknown_field").at (pointer path member))
          else none)
        ++ (match lookup "type" members with
          | none => []
          | some varType =>
              if varType.asStr.any (· ∈ variableTypes) then []
              else [(Issue.new "invalid_variable_type").at (pointer path "type")])
        ++ (match lookup "required" members with
          | none => []
          | some required =>
              if (asBool required).isSome then []
              else [(Issue.new "invalid_field_type").at (pointer path "required")])
    | _ => [(Issue.new "invalid_field_type").at path]

def checkDeclarations (declared : Members) : List Issue :=
  (if maxVariables < declared.length then [(Issue.new "too_many_variables").at "/variables"] else [])
    ++ (sortByName declared).flatMap fun (name, declaration) => checkDeclaration name declaration

/-- The kind and the body go together. -/
def checkBody (kind body : Option Value) : List Issue :=
  if kind.bind asStr = some "text" then
    match body with
    | some (.string _) => []
    | _ => [(Issue.new "invalid_body").at "/body"]
  else if kind.bind asStr = some "chat" then
    match body with
    | some (.array entries) =>
        if entries = [] then [(Issue.new "empty_chat").at "/body"]
        else if maxMessages < entries.length then [(Issue.new "too_many_messages").at "/body"]
        else []
    | _ => [(Issue.new "invalid_body").at "/body"]
  else [(Issue.new "invalid_field_type").at "/kind"]

/-- The members that are missing, and those that do not belong. -/
def checkStructure (members : Members) : List Issue :=
  (contentMembers.filterMap fun member =>
    if (lookup member members).isSome then none
    else some ((Issue.new "missing_field").at s!"/{member}"))
  ++ (sortedKeys members).filterMap fun key =>
    if key ∈ contentMembers then none else some ((Issue.new "unknown_field").at (pointer "" key))

/-- The values of the members. -/
def checkContentMembers (content : Value) : List Issue :=
  (if strAt content "template_format" = some templateFormat then []
    else [(Issue.new "unsupported_template_format").at "/template_format"])
  ++ (if strAt content "renderer_version" = some rendererVersion then []
    else [(Issue.new "unsupported_renderer_version").at "/renderer_version"])
  ++ checkBody (content.get "kind") (content.get "body")
  ++ (match content.objectAt "variables" with
    | some declared => checkDeclarations declared
    | none => [(Issue.new "invalid_field_type").at "/variables"])
  ++ (if (content.objectAt "partials").isSome then []
    else [(Issue.new "invalid_field_type").at "/partials"])
  ++ (match content.objectAt "fragments" with
    | some fragments =>
        if maxFragments < fragments.length then [(Issue.new "too_many_fragments").at "/fragments"]
        else []
    | none => [(Issue.new "invalid_field_type").at "/fragments"])

def checkContentShape (content : Value) : List Issue :=
  match content with
  | .object members =>
      match lookup "schema" members with
      | none => [(Issue.new "missing_field").at "/schema"]
      | some schema =>
          if schema.asStr ≠ some contentSchema then [(Issue.new "unsupported_schema").at "/schema"]
          else match ensureAjs content with
            | .error e => [Issue.fromAjs e]
            | .ok () =>
                if checkStructure members ≠ [] then checkStructure members
                else checkContentMembers content
  | _ => [(Issue.new "invalid_field_type").at ""]

/-! ## Limits, entries and secrets -/

/-- The length of a canonical text in bytes. -/
def canonicalBytes (v : Value) : Nat := (utf8Encode (canonicalChars v)).length

def checkLimits (content : Value) : List Issue :=
  ((contentTemplates content).filterMap fun template =>
    if template.text.any fun text => maxTemplateCodePoints < text.toList.length then
      some ((Issue.new "template_too_large").at template.path)
    else none)
  ++ (if maxContentBytes < canonicalBytes content then [(Issue.new "content_too_large").at ""]
    else [])

def entryIssue (entry : Value) (path : String) : Option Issue :=
  let invalid path := some ((Issue.new "invalid_message_entry").at path)
  match entry with
  | .object members =>
      let hasRole := (lookup "role" members).isSome
      let hasPlaceholder := (lookup "placeholder" members).isSome
      if hasRole && hasPlaceholder then invalid path
      else if hasRole then
        if members.length ≠ 2 ∨ lookup "content" members = none then invalid path
        else if ((lookup "role" members).bind asStr).getD "" ∉ templateRoles then
          some ((Issue.new "unsupported_role").at (path ++ "/role"))
        else match lookup "content" members with
          | some (.string _) => none
          | some (.array _) =>
              some ((Issue.new "unsupported_content_block").at (path ++ "/content"))
          | _ => invalid (path ++ "/content")
      else if hasPlaceholder then
        if members.length ≠ 2 ∨ lookup "optional" members = none then invalid path
        else if ((lookup "placeholder" members).bind asStr).any isName = false then
          invalid (path ++ "/placeholder")
        else if ((lookup "optional" members).bind asBool).isSome = false then
          invalid (path ++ "/optional")
        else none
      else invalid path
  | _ => invalid path

def checkChatEntries (content : Value) : List Issue :=
  if strAt content "kind" = some "chat" then
    (entriesOf content).zipIdx.filterMap fun (entry, index) => entryIssue entry (entryPath index)
  else []

mutual

/-- The texts in a value, each with its path. -/
def walkStrings (path : String) : Value → List (String × String)
  | .string text => [(text, path)]
  | .array items => walkItems path 0 items
  | .object members => ((sortByName (walkMembers path members)).map Prod.snd).flatten
  | _ => []

def walkItems (path : String) (index : Nat) : List Value → List (String × String)
  | [] => []
  | x :: xs => walkStrings (pointer path (toString index)) x ++ walkItems path (index + 1) xs

def walkMembers (path : String) : Members → List (String × List (String × String))
  | [] => []
  | (k, v) :: fs => (k, walkStrings (pointer path k) v) :: walkMembers path fs

end

structure ContentSecretFinding where
  pattern : String
  path : String
  offset : Nat
  length : Nat
  deriving DecidableEq, Repr

/-- The texts of the templates that are scanned, with their paths. -/
def templateTexts (content : Value) : List (String × String) :=
  if strAt content "kind" = some "text" then
    match content.get "body" with
    | some (.string body) => [(body, "/body")]
    | _ => []
  else if strAt content "kind" = some "chat" then
    (entriesOf content).zipIdx.filterMap fun (entry, index) =>
      (strAt entry "content").map fun text => (text, contentPath index)
  else []

/-- The other texts that are scanned, with their paths. -/
def otherTexts (content : Value) : List (String × String) :=
  ((sortByName (membersAt content "partials")).filterMap fun (name, value) =>
    value.asStr.map fun text => (text, pointer "/partials" name))
  ++ (match content.get "output_contract" with
    | none => []
    | some .null => []
    | some contract => walkStrings "/output_contract" contract)

def scanContentSecrets (p : Primitives) (content : Value) : List ContentSecretFinding :=
  (templateTexts content ++ otherTexts content).flatMap fun (text, path) =>
    (scan p text).map fun finding => ⟨finding.pattern, path, finding.offset, finding.length⟩

end Agenomic.Prompt
