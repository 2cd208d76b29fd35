import Agenomic.Prompt.Canonical

/-!
# Names, references and the sources of fragments

A prompt is referred to by its id and a version, and a source hands out the versions it
knows. Names of variables and fragments are ASCII words.
-/

namespace Agenomic.Prompt

open Lib

/-! ## Secrets

Texts are scanned for values that look like secrets, with a fixed set of regular
expressions; names are checked for words that secrets are called by.
-/

/-- The patterns and their ids. -/
def patterns : List (String × String) :=
  [ ("bearer_token", "(?-u:\\b)(?i-u:bearer)[\\t\\n\\x0B\\x0C\\r ]+[A-Za-z0-9\\-_.=+/]\x7b20,\x7d"),
    ("private_key_block", "-----BEGIN [A-Z ]*PRIVATE KEY-----"),
    ("openai_key", "(?-u:\\b)sk-[A-Za-z0-9\\-_]\x7b20,\x7d"),
    ("stripe_key", "(?-u:\\b)[sr]k_(?:live|test)_[A-Za-z0-9]\x7b16,\x7d"),
    ("aws_access_key", "(?-u:\\b)AKIA[0-9A-Z]\x7b16\x7d(?-u:\\b)"),
    ("github_token", "(?-u:\\b)gh[pousr]_[A-Za-z0-9]\x7b36,\x7d"),
    ("huggingface_token", "(?-u:\\b)hf_[A-Za-z0-9]\x7b20,\x7d"),
    ("slack_token", "(?-u:\\b)xox[baprs]-[A-Za-z0-9\\-]\x7b10,\x7d"),
    ("google_api_key", "(?-u:\\b)AIza[0-9A-Za-z\\-_]\x7b35\x7d"),
    ("jwt", "(?-u:\\b)eyJ[A-Za-z0-9_\\-]\x7b10,\x7d\\.[A-Za-z0-9_\\-]\x7b10,\x7d"
      ++ "\\.[A-Za-z0-9_\\-]\x7b10,\x7d"),
    ("agenomic_api_key", "(?-u:\\b)agm_[A-Za-z0-9]\x7b24,\x7d") ]

structure SecretFinding where
  pattern : String
  offset : Nat
  length : Nat
  deriving DecidableEq, Repr

variable (p : Primitives)

/-- The findings in a text, by their places and then by the order of the patterns. -/
def scan (text : String) : List SecretFinding :=
  let found : List (Nat × SecretFinding) :=
    patterns.zipIdx.flatMap fun (pattern, order) =>
      (p.findIter pattern.2 text).map fun hit => (order, ⟨pattern.1, hit.1, hit.2⟩)
  (found.insertionSort fun a b =>
    a.2.offset < b.2.offset ∨ (a.2.offset = b.2.offset ∧ a.1 ≤ b.1)).map Prod.snd

def secretTokens : List String :=
  [ "secret", "password", "passwd", "token", "credential", "credentials", "authorization",
    "cookie" ]

def secretSuffixes : List String :=
  [ "apikey", "secret", "password", "passwd", "token", "credential", "credentials",
    "authorization", "cookie", "privatekey", "accesskey", "clientsecret" ]

def secretKeyEndings : List String := ["_api_key", "_private_key", "_access_key", "_client_secret"]

def secretShapedKey (key : String) : Bool :=
  let normalized := key.toList.map fun c => if c.isAlphanum then c.toLower else '_'
  let tokens := (normalized.splitOn '_').filter (· ≠ [])
  let collapsed := tokens.flatten
  tokens.any (fun token => String.ofList token ∈ secretTokens)
    || secretSuffixes.any (fun suffix => suffix.toList.isSuffixOf collapsed)
    || decide (normalized = "apikey".toList)
    || secretKeyEndings.any (fun ending => ending.toList.isSuffixOf normalized)

end Agenomic.Prompt

namespace Agenomic.Prompt

open Lib

/-! ## Names -/

def isPromptId (text : String) : Bool :=
  decide ((utf8Encode text.toList).length ≤ 64) &&
  match stripPrefix? "prm_" text with
  | none => false
  | some rest => (rest.toList.splitOnP fun c => c = '_' ∨ c = '-').all fun segment =>
      segment ≠ [] && segment.all fun c => c.isLower || c.isDigit

/-- A letter, a digit or an underscore. -/
def isNameChar (c : Char) : Bool := c.isAlphanum || c = '_'

def isName (text : String) : Bool :=
  match text.toList with
  | [] => false
  | c :: rest => decide (rest.length < 64) && (c.isAlpha || c = '_') && rest.all isNameChar

def isSha256Digest (text : String) : Bool :=
  match stripPrefix? "sha256:" text with
  | none => false
  | some hex => decide (hex.toList.length = 64)
      && hex.toList.all fun c => c.isDigit || decide ('a' ≤ c ∧ c ≤ 'f')

/-! ## Versions -/

def maxVersion : Nat := 2147483647

/-- A version in decimal, without leading zeros. -/
def parseVersion (text : String) : Option Nat :=
  let digits := text.toList
  if 1 ≤ digits.length ∧ digits.length ≤ 10 ∧ digits.head? ≠ some '0'
      ∧ digits.all Char.isDigit = true ∧ ofDecimal digits ≤ maxVersion then
    some (ofDecimal digits)
  else none

def versionKey (promptId : String) (version : Nat) : String :=
  promptId ++ ":" ++ String.ofList (decimal version)

/-! ## Sources -/

structure VersionEntry where
  promptKind : Option String
  content : Value

/-- What a version of a prompt is, where it is known. -/
abbrev FragmentSource := String → Nat → Option VersionEntry

def noFragments : FragmentSource := fun _ _ => none

end Agenomic.Prompt
