import Agenomic.Prompt.Expand

/-!
# Validation

`run` checks a content in stages, and stops behind the first stage that found errors:
its shape, its limits, its entries, its templates, its pins, their expansion, the use of
variables, which of them are required, the partials, the contract of the output, and
secrets. The report of a content without errors holds its expanded templates.
-/

namespace Agenomic.Prompt

open Lib Value

def maxOutputContractBytes : Nat := 65536

def maxOutputContractDepth : Nat := 32

def declarationType (declaration : Value) : Option String := strAt declaration "type"

/-- Whether a variable is required. -/
def declarationRequired (declaration : Value) : Bool :=
  ((declaration.get "required").bind asBool).getD false

/-! ## The use of variables -/

/-- The expanded templates, by their paths. -/
abbrev Expansions := List (String × List Expanded)

/-- The names that tokens use. -/
def usedNames (tokens : List Expanded) : List String :=
  tokens.filterMap fun
    | .literal _ => none
    | .var name _ => some name

def checkToken (path : String) (declared : Members) : Expanded → List Issue
  | .literal _ => []
  | .var name fragmentType =>
      match lookup name declared with
      | none => [((Issue.new "undeclared_variable").at path).var name]
      | some declaration =>
          if declarationType declaration = some "messages" then
            [((Issue.new "messages_outside_placeholder").at path).var name]
          else match fragmentType with
            | none => []
            | some (key, type) =>
                if same type (declaration.get "type") then []
                else [(((Issue.new "fragment_variable_type_mismatch").at path).var name).inFragment
                  (some key)]

def checkTokens (tokens : List Expanded) (path : String) (declared : Members) : List Issue :=
  tokens.flatMap (checkToken path declared)

/-- The name of the variable of a placeholder. -/
def placeholderName (entry : Value) : String := (strAt entry "placeholder").getD ""

def hasRole (entry : Value) : Bool := (entry.get "role").isSome

/-- The variable of a placeholder. -/
def checkPlaceholder (declared : Members) (path : String) (name : String) : List Issue :=
  match lookup name declared with
  | none => [((Issue.new "undeclared_variable").at path).var name]
  | some declaration =>
      if declarationType declaration ≠ some "messages" then
        [((Issue.new "placeholder_type_mismatch").at path).var name]
      else []

/-- The use of variables in the entries of a chat, behind the placeholders seen so far. -/
def checkEntriesUse (declared : Members) (expanded : Expansions) (seen : List String) :
    List (Value × Nat) → List Issue
  | [] => []
  | (entry, index) :: rest =>
      if hasRole entry then
        (match lookup (contentPath index) expanded with
          | none => []
          | some tokens => checkTokens tokens (contentPath index) declared)
        ++ checkEntriesUse declared expanded seen rest
      else
        let path := entryPath index
        let name := placeholderName entry
        checkPlaceholder declared path name
        ++ (if name ∈ seen then [((Issue.new "duplicate_placeholder").at path).var name] else [])
        ++ checkEntriesUse declared expanded (name :: seen) rest

/-- The placeholders of a chat: where they stand, their variables, and whether they are
optional. -/
def placeholderEntries (content : Value) : List (Nat × String × Bool) :=
  if strAt content "kind" = some "text" then []
  else (entriesOf content).zipIdx.filterMap fun (entry, index) =>
    if hasRole entry then none
    else some (index, placeholderName entry, ((entry.get "optional").bind asBool).getD false)

/-- The names that the templates use. -/
def usedVariables (content : Value) (expanded : Expansions) : List String :=
  if strAt content "kind" = some "text" then usedNames ((lookup "/body" expanded).getD [])
  else (entriesOf content).zipIdx.flatMap fun (entry, index) =>
    if hasRole entry then usedNames ((lookup (contentPath index) expanded).getD []) else []

def checkVariableUse (content : Value) (declared : Members) (expanded : Expansions) : List Issue :=
  if strAt content "kind" = some "text" then
    (match lookup "/body" expanded with
      | none => []
      | some tokens => checkTokens tokens "/body" declared)
    ++ (sortByName declared).filterMap fun (name, declaration) =>
      if declarationType declaration = some "messages" then
        some (((Issue.new "messages_outside_placeholder").at (pointer "/variables" name)).var name)
      else none
  else checkEntriesUse declared expanded [] (entriesOf content).zipIdx

/-! ## Required variables and partials -/

/-- A placeholder is optional when its variable is not required. -/
def checkPlaceholderRequired (declared : Members) (entry : Nat × String × Bool) : Option Issue :=
  let required := ((lookup entry.2.1 declared).map declarationRequired).getD false
  if required = entry.2.2 then
    some (((Issue.new "placeholder_required_mismatch").at (entryPath entry.1)).var entry.2.1)
  else none

/-- A variable has a partial when it is not required. -/
def checkDeclaredRequired (partials : Members) (name : String) (declaration : Value) : List Issue :=
  if declarationType declaration = some "messages" then []
  else
    let required := declarationRequired declaration
    let hasPartial := (lookup name partials).isSome
    let path := pointer "/variables" name
    (if hasPartial && required then [((Issue.new "partial_required_mismatch").at path).var name]
      else [])
    ++ (if !hasPartial && !required then
        [((Issue.new "optional_without_partial").at path).var name]
      else [])

def checkRequired (declared partials : Members) (entries : List (Nat × String × Bool)) :
    List Issue :=
  entries.filterMap (checkPlaceholderRequired declared)
    ++ (sortByName declared).flatMap fun (name, declaration) =>
      checkDeclaredRequired partials name declaration

/-- A scalar fits the type of a variable. -/
def scalarFits (varType : Option String) (value : Value) : Bool :=
  if varType = some "string" then value.isString
  else if varType = some "integer" then (asNumber value).isSome
  else if varType = some "boolean" then (asBool value).isSome
  else decide (varType = some "json")

def checkPartial (declared : Members) (name : String) (value : Value) : List Issue :=
  let issue code := [((Issue.new code).at (pointer "/partials" name)).var name]
  match lookup name declared with
  | none => issue "partial_for_unknown_variable"
  | some declaration =>
      if declarationType declaration = some "messages" then issue "partial_for_messages_variable"
      else if (asArray value).isSome || value.isObject then issue "partial_not_scalar"
      else if scalarFits (declarationType declaration) value then []
      else issue "partial_type_mismatch"

def checkPartials (declared partials : Members) : List Issue :=
  (sortByName partials).flatMap fun (name, value) => checkPartial declared name value

/-! ## The contract of the output -/

mutual

def jsonDepth : Value → Nat
  | .array items => 1 + itemsDepth items
  | .object members => 1 + membersDepth members
  | _ => 0

def itemsDepth : List Value → Nat
  | [] => 0
  | x :: xs => max (jsonDepth x) (itemsDepth xs)

def membersDepth : Members → Nat
  | [] => 0
  | (_, v) :: fs => max (jsonDepth v) (membersDepth fs)

end

def outputContractValid (contract : Value) : Bool :=
  match contract with
  | .object members =>
      decide (members.length = 2)
      && decide ((lookup "type" members).bind asStr = some "json_schema")
      && (lookup "json_schema" members).any fun schema =>
        schema.isObject && decide (canonicalBytes schema ≤ maxOutputContractBytes)
          && decide (jsonDepth schema ≤ maxOutputContractDepth)
  | _ => false

def checkOutputContract (content : Value) : List Issue :=
  let contract := orNull (content.get "output_contract")
  if contract = .null ∨ outputContractValid contract then []
  else [(Issue.new "output_contract_invalid").at "/output_contract"]

/-! ## The report -/

structure VariableSummary where
  declared : List String
  referenced : List String
  placeholders : List String

structure ValidationReport where
  errors : List Issue
  warnings : List Issue := []
  secretFindings : List ContentSecretFinding := []
  summary : Option VariableSummary := none
  contentDigest : Option String := none
  expanded : Expansions := []

namespace ValidationReport

def ok (r : ValidationReport) : Bool := decide (r.errors = [])

/-- Stop with errors, when there are some. -/
def stopWith (errors warnings : List Issue) (findings : List ContentSecretFinding)
    (next : ValidationReport) : ValidationReport :=
  if errors = [] then next
  else { errors := errors, warnings := warnings, secretFindings := findings }

end ValidationReport

open ValidationReport (stopWith)

/-- The names of a set in UTF-16 order. -/
def nameSet (names : List String) : List String :=
  (names.dedup.insertionSort fun a b => Ledger.utf16Le a b = true)

/-- A template and what is read from it. -/
abbrev ReadTemplate := Template × Except SyntaxError (List Token)

def readTemplate (t : Template) : ReadTemplate := (t, tokenize (t.text.getD ""))

/-- The errors of the templates. -/
def syntaxErrors (templates : List ReadTemplate) : List Issue :=
  templates.filterMap fun (t, tokens) =>
    match tokens with
    | .ok _ => none
    | .error e => some (((Issue.new "syntax_error").at t.path).withSyntax e)

/-- The tokens of a template that could be read. -/
def readTokens (t : ReadTemplate) : List Token := (t.2.toOption).getD []

variable (p : Primitives) (v : Validator)

/-- Expand the templates, one by one. -/
def expandTemplates (fragments : Option Members) :
    List ReadTemplate → Nat → Except Issue Expansions
  | [], _ => .ok []
  | t :: rest, budget => do
      let out ← expand p v t.1.path maxFragmentDepth (readTokens t) fragments [] none budget
      let more ← expandTemplates fragments rest out.2
      .ok ((t.1.path, out.1) :: more)

/-- The names of the fragments that are included. -/
def includedNames (templates : List ReadTemplate) : List String :=
  templates.flatMap fun t => (readTokens t).filterMap fun
    | .inclusion name _ => some name
    | _ => none

def unusedFragments (fragments : Members) (templates : List ReadTemplate) : List Issue :=
  (sortedKeys fragments).filterMap fun name =>
    if name ∈ includedNames templates then none
    else some ((Issue.new "fragment_unused").at (pointer "/fragments" name))

def unusedVariables (declared : Members) (used placeholders : List String) : List Issue :=
  (sortedKeys declared).filterMap fun name =>
    if name ∈ used ∨ name ∈ placeholders then none
    else some (((Issue.new "variable_unused").at (pointer "/variables" name)).var name)

def secretNames (declared : Members) : List Issue :=
  (sortedKeys declared).filterMap fun name =>
    if secretShapedKey name then
      some (((Issue.new "secret_shaped_variable_name").at (pointer "/variables" name)).var name)
    else none

/-- The errors that secrets in a content are. -/
def secretErrors (findings : List ContentSecretFinding) : List Issue :=
  findings.map fun finding =>
    { (Issue.new "secret_detected").at finding.path with
      pattern := some finding.pattern
      offset := some finding.offset }

def contentKindFor (promptKind : String) : Option String :=
  if promptKind = "text" ∨ promptKind = "fragment" then some "text"
  else if promptKind = "chat" then some "chat"
  else none

def checkKind (content : Value) : Option String → List Issue
  | none => []
  | some kind =>
      if strAt content "kind" = contentKindFor kind then []
      else [(Issue.new "prompt_kind_mismatch").at "/kind"]

/-- The stages behind the expansion. -/
def runExpanded (content : Value) (promptKind : Option String)
    (findings : List ContentSecretFinding) (warnings : List Issue) (expanded : Expansions) :
    ValidationReport :=
  let declared := membersAt content "variables"
  let partials := membersAt content "partials"
  let used := usedVariables content expanded
  let placeholders := (placeholderEntries content).map fun entry => entry.2.1
  stopWith (checkVariableUse content declared expanded) warnings findings <|
  let warnings := warnings ++ unusedVariables declared used placeholders
  stopWith (checkRequired declared partials (placeholderEntries content)) warnings findings <|
  stopWith (checkPartials declared partials) warnings findings <|
  stopWith (checkOutputContract content) warnings findings <|
  let warnings := warnings ++ secretNames declared
  stopWith (secretErrors findings) warnings findings <|
  stopWith (checkKind content promptKind) warnings findings
    { errors := []
      warnings := warnings
      secretFindings := findings
      summary := some ⟨nameSet (declared.map Prod.fst), nameSet used, nameSet placeholders⟩
      contentDigest := (promptDigest p content).toOption
      expanded := expanded }

def Validator.run (content : Value) (promptKind : Option String) : ValidationReport :=
  stopWith (checkContentShape content) [] [] <|
  stopWith (checkLimits content) [] [] <|
  let findings := scanContentSecrets p content
  stopWith (checkChatEntries content) [] findings <|
  let templates := (contentTemplates content).map readTemplate
  stopWith (syntaxErrors templates) [] findings <|
  let fragments := content.objectAt "fragments"
  stopWith (checkPins p v (fragments.getD [])) [] findings <|
  match expandTemplates p v fragments templates 0 with
  | .error issue => { errors := [issue], secretFindings := findings }
  | .ok expanded =>
      runExpanded p content promptKind findings (unusedFragments (fragments.getD []) templates)
        expanded

def validate (content : Value) (fragments : FragmentSource) : ValidationReport :=
  Validator.run p ⟨fragments, false⟩ content none

end Agenomic.Prompt
