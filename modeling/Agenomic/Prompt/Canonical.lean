import Agenomic.Prompt.Value

/-!
# The JSON subset and digests

Documents are digested in a canonical text, and only within a subset of JSON: numbers
are integers of at most 53 bits, strings hold no NUL, and nesting is bounded. An
integral double is in the subset, and is printed as an integer in the canonical text.
-/

namespace Agenomic.Prompt

open Lib Value

def maxSafeInteger : Int := 9007199254740991

def maxJsonDepth : Nat := 64

structure AjsError where
  reason : String
  valuePath : String
  deriving DecidableEq, Repr

/-- Named pieces in the UTF-16 order of their names. -/
def sortByName {α : Type} (pieces : List (String × α)) : List (String × α) :=
  pieces.insertionSort fun a b => Ledger.utf16Le a.1 b.1 = true

/-- The names of an object in UTF-16 order. -/
def sortedKeys (members : Members) : List String := (sortByName members).map Prod.fst

/-- A number in the canonical text. -/
def canonicalNumber : Number → List Char
  | .int n => Json.writeNumber n
  | .float value text =>
      if value.den = 1 ∧ |value| < 9007199254740992 then Json.writeNumber value.num
      else text.toList

mutual

def canonicalChars : Value → List Char
  | .null => "null".toList
  | .bool true => "true".toList
  | .bool false => "false".toList
  | .number n => canonicalNumber n
  | .string s => Json.writeString s
  | .array items => '[' :: (Ledger.joinComma (canonicalItems items) ++ [']'])
  | .object members =>
      '{' :: (Ledger.joinComma ((sortByName (canonicalMembers members)).map fun p =>
        Json.writeString p.1 ++ ':' :: p.2) ++ ['}'])

def canonicalItems : List Value → List (List Char)
  | [] => []
  | x :: xs => canonicalChars x :: canonicalItems xs

def canonicalMembers : Members → List (String × List Char)
  | [] => []
  | (k, v) :: fs => (k, canonicalChars v) :: canonicalMembers fs

end

/-- Why a number is outside the subset. -/
def ajsInteger : Number → Except String Int
  | .int n => if |n| ≤ maxSafeInteger then .ok n else .error "integer_out_of_range"
  | .float value _ =>
      if value.den = 1 then
        if |value.num| ≤ maxSafeInteger then .ok value.num else .error "integer_out_of_range"
      else .error "float_not_allowed"

def checkAjsString (s path : String) : Except AjsError Unit :=
  if Char.ofNat 0 ∈ s.toList then .error ⟨"nul_character", path⟩ else .ok ()

/-- The value of an optional member. -/
def orNull (v : Option Value) : Value := v.getD .null

/-- A text, when there is one. -/
def optString (s : Option String) : Value := (s.map Value.string).getD .null

/-- The members of an object that is a member; none when it is not there. -/
def membersAt (v : Value) (key : String) : Members := (v.objectAt key).getD []

/-- A step of a JSON pointer. -/
def pointer (base key : String) : String :=
  base ++ "/" ++ String.ofList (key.toList.flatMap fun c =>
    if c = '~' then ['~', '0'] else if c = '/' then ['~', '1'] else [c])

/-- The first error of a sequence of checks. -/
def firstError : List (Except AjsError Unit) → Except AjsError Unit
  | [] => .ok ()
  | .ok () :: rest => firstError rest
  | .error e :: _ => .error e

mutual

/-- Check a value of the subset at a path and a depth. -/
def checkAjs (path : String) (depth : Nat) : Value → Except AjsError Unit
  | .null => .ok ()
  | .bool _ => .ok ()
  | .number n =>
      match ajsInteger n with
      | .ok _ => .ok ()
      | .error reason => .error ⟨reason, path⟩
  | .string s => checkAjsString s path
  | .array items =>
      if maxJsonDepth < depth + 1 then .error ⟨"json_too_deep", path⟩
      else firstError (checkAjsItems path (depth + 1) 0 items)
  | .object members =>
      if maxJsonDepth < depth + 1 then .error ⟨"json_too_deep", path⟩
      else firstError ((sortByName (checkAjsMembers path (depth + 1) members)).map Prod.snd)

def checkAjsItems (path : String) (depth index : Nat) : List Value → List (Except AjsError Unit)
  | [] => []
  | x :: xs => checkAjs (pointer path (toString index)) depth x
      :: checkAjsItems path depth (index + 1) xs

def checkAjsMembers (path : String) (depth : Nat) :
    Members → List (String × Except AjsError Unit)
  | [] => []
  | (k, v) :: fs =>
      (k, do
        checkAjsString k (pointer path k)
        checkAjs (pointer path k) depth v) :: checkAjsMembers path depth fs

end

def ensureAjs (value : Value) : Except AjsError Unit := checkAjs "" 0 value

/-- What is taken from other libraries: hashes, signatures, base64, time stamps, and the places
and lengths of the matches of a regular expression in a text. -/
structure Primitives where
  sha256 : Bytes → Bytes
  blake3 : Bytes → Bytes
  VerifyingKey : Type
  verifyStrict : VerifyingKey → Bytes → Bytes → Bool
  base64Decode : String → Option Bytes
  parseTimestamp : String → Option Int
  findIter : String → String → List (Nat × Nat)

variable (p : Primitives)

def sha256Prefixed (bytes : Bytes) : String :=
  "sha256:" ++ String.ofList (hexEncode (p.sha256 bytes))

/-- The digest of a document. -/
def promptDigest (value : Value) : Except AjsError String := do
  ensureAjs value
  .ok (sha256Prefixed p (utf8Encode (canonicalChars value)))

theorem promptDigest_ne_empty {v : Value} {digest : String} (h : promptDigest p v = .ok digest) :
    digest ≠ "" := by
  unfold promptDigest at h
  cases hajs : ensureAjs v with
  | error e =>
      rw [hajs] at h
      cases h
  | ok u =>
      rw [hajs] at h
      cases h
      intro hempty
      have hchars := congrArg String.toList hempty
      unfold sha256Prefixed at hchars
      rw [String.toList_append] at hchars
      exact absurd hchars (by simp)

end Agenomic.Prompt
