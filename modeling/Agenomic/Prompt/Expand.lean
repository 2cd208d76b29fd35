import Agenomic.Prompt.Content
import Agenomic.Prompt.Subset

/-!
# Expansion

The fragments that a template includes are put in its place, down to a bounded depth
and with a bounded number of inclusions. What comes out has no inclusions, and its
pieces of text are merged.
-/

namespace Agenomic.Prompt

open Lib Value

def maxFragmentDepth : Nat := 8

def maxFragmentExpansions : Nat := 256

def maxExpandedCodePoints : Nat := 1048576

/-! ## Pins -/

def asNumber : Value → Option Number
  | .number n => some n
  | _ => none

/-- An integer of the subset. -/
def asAjsInteger (v : Value) : Option Int := (asNumber v).bind fun n => (ajsInteger n).toOption

/-- What a pin of a fragment refers to. -/
def pinKey (pin : Value) : Option (String × Nat) := do
  let members ← pin.asObject.filter fun members => members.length = 3
  let promptId ← (lookup "prompt_id" members).bind asStr
  let version ← (lookup "version" members).bind asAjsInteger
  let digest ← (lookup "content_digest" members).bind asStr
  if isPromptId promptId ∧ isSha256Digest digest ∧ 1 ≤ version ∧ version ≤ maxVersion then
    some (promptId, version.toNat)
  else none

def pinDigest (pin : Value) : Option String := strAt pin "content_digest"

def fragmentKindIssue (entry : VersionEntry) (path key : String) : Option Issue :=
  let issue code := some (((Issue.new code).at path).inFragment (some key))
  if entry.promptKind.any (· ≠ "fragment") then issue "fragment_not_fragment"
  else if strAt entry.content "kind" ≠ some "text" then issue "fragment_not_text"
  else if entry.content.objectAt "partials" ≠ some [] then issue "fragment_has_partials"
  else if entry.content.get "output_contract" ≠ some .null then
    issue "fragment_has_output_contract"
  else none

structure Validator where
  source : FragmentSource
  tolerateUnresolved : Bool

variable (p : Primitives) (v : Validator)

/-- The content of an entry has the digest of the pin. -/
def entryMatches (entry : VersionEntry) (pin : Value) : Bool :=
  decide ((promptDigest p entry.content).toOption = pinDigest pin)

def checkPin (name : String) (pin : Value) : List Issue :=
  let path := pointer "/fragments" name
  match (pinKey pin).filter fun _ => isName name with
  | none => [(Issue.new "invalid_fragment_pin").at path]
  | some (promptId, version) =>
      let refKey := versionKey promptId version
      match v.source promptId version with
      | none =>
          if v.tolerateUnresolved then []
          else [((Issue.new "fragment_not_found").at path).inFragment (some refKey)]
      | some entry =>
          if entryMatches p entry pin then (fragmentKindIssue entry path refKey).toList
          else [((Issue.new "fragment_digest_mismatch").at path).inFragment (some refKey)]

def checkPins (fragments : Members) : List Issue :=
  (sortByName fragments).flatMap fun (name, pin) => checkPin p v name pin

/-! ## Expanded templates -/

inductive Expanded where
  | literal (text : List Char)
  | var (name : String) (fragmentType : Option (String × Option Value))
  deriving DecidableEq

/-- Put one piece behind others. -/
def pushMerged (out : List Expanded) (token : Expanded) : List Expanded :=
  match token with
  | .literal [] => out
  | .literal text =>
      match out.getLast? with
      | some (.literal last) => out.dropLast ++ [.literal (last ++ text)]
      | _ => out ++ [.literal text]
  | other => out ++ [other]

def mergeLiterals (tokens : List Expanded) : List Expanded := tokens.foldl pushMerged []

/-- A token without what is known of where it came from. -/
def Expanded.token : Expanded → Token
  | .literal text => .literal text
  | .var name _ => .var name 0

def expandedSource (tokens : List Expanded) : List Char := source (tokens.map Expanded.token)

/-- Where tokens come from: the reference of a fragment, and its variables. -/
abbrev Origin := Option (String × Option Members)

/-- The type that a fragment gives to a variable. -/
def fragmentTypeOf (origin : Origin) (name : String) : Option (String × Option Value) :=
  origin.bind fun (key, declared) => declared.bind fun declared =>
    (lookup name declared).map fun declaration => (key, declaration.get "type")

/-- How tokens are expanded, with the fragments they may include, the references that are open,
their origin, and the number of inclusions so far. -/
abbrev Expand := List Token → Option Members → List String → Origin → Nat →
  Except Issue (List Expanded × Nat)

variable (path : String)

/-- Expand one inclusion; `inner` expands the fragment, unless the depth is reached. -/
def expandInclusion (inner : Option Expand) (fragments : Option Members) (stack : List String)
    (origin : Origin) (name : String) (offset budget : Nat) :
    Except Issue (List Expanded × Nat) :=
  let originKey := origin.map Prod.fst
  match fragments.bind (lookup name) with
  | none => .error
      { ((Issue.new "fragment_not_declared").at path).inFragment originKey with
        offset := some offset }
  | some pin =>
      match pinKey pin with
      | none => .error (((Issue.new "invalid_fragment_pin").at path).inFragment originKey)
      | some (promptId, version) =>
          let key := versionKey promptId version
          let fail code : Except Issue (List Expanded × Nat) :=
            .error (((Issue.new code).at path).inFragment (some key))
          if key ∈ stack then fail "fragment_cycle"
          else match inner with
          | none => fail "fragment_depth_exceeded"
          | some inner =>
              if maxFragmentExpansions < budget + 1 then fail "fragment_expansion_limit"
              else match v.source promptId version with
              | none =>
                  if v.tolerateUnresolved then .ok ([], budget + 1) else fail "fragment_not_found"
              | some entry =>
                  if entryMatches p entry pin = false then fail "fragment_digest_mismatch"
                  else match fragmentKindIssue entry path key with
                  | some issue => .error issue
                  | none =>
                      match tokenize ((strAt entry.content "body").getD "") with
                      | .error e => .error
                          ((((Issue.new "syntax_error").at path).withSyntax e).inFragment (some key))
                      | .ok tokens =>
                          inner tokens (entry.content.objectAt "fragments") (key :: stack)
                            (some (key, entry.content.objectAt "variables")) (budget + 1)

/-- Expand one token. -/
def expandToken (inner : Option Expand) (fragments : Option Members) (stack : List String)
    (origin : Origin) (budget : Nat) : Token → Except Issue (List Expanded × Nat)
  | .literal text => .ok ([.literal text], budget)
  | .var name _ => .ok ([.var name (fragmentTypeOf origin name)], budget)
  | .inclusion name offset =>
      expandInclusion p v path inner fragments stack origin name offset budget

/-- Expand tokens one by one. -/
def expandTokens (inner : Option Expand) (fragments : Option Members) (stack : List String)
    (origin : Origin) : List Token → Nat → Except Issue (List Expanded × Nat)
  | [], budget => .ok ([], budget)
  | token :: rest, budget => do
      let first ← expandToken p v path inner fragments stack origin budget token
      let more ← expandTokens inner fragments stack origin rest first.2
      .ok (first.1 ++ more.1, more.2)

/-- Merge what was expanded, and check its size. -/
def finishExpansion (out : List Expanded × Nat) : Except Issue (List Expanded × Nat) :=
  let merged := mergeLiterals out.1
  if maxExpandedCodePoints < (expandedSource merged).length then
    .error ((Issue.new "expanded_template_too_large").at path)
  else .ok (merged, out.2)

/-- Expand tokens, with so many levels of fragments below them. -/
def expand : Nat → Expand
  | 0 => fun tokens fragments stack origin budget => do
      let out ← expandTokens p v path none fragments stack origin tokens budget
      finishExpansion path out
  | depth + 1 => fun tokens fragments stack origin budget => do
      let out ← expandTokens p v path (some (expand depth)) fragments stack origin tokens budget
      finishExpansion path out

end Agenomic.Prompt
