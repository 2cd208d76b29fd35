import Agenomic.Prompt.Value

/-!
# What the gate looks for in arguments

The texts in the arguments of a tool call are scanned for personal data and for
credentials; its paths are checked for steps out of the working tree and for fragments
that are protected.
-/

namespace Agenomic.Gate

open Lib Prompt

/-! ## Personal data -/

inductive PiiKind where
  | email
  | creditCard
  | ssn
  | secret
  deriving DecidableEq, Repr

def PiiKind.label : PiiKind → String
  | .email => "email"
  | .creditCard => "credit_card"
  | .ssn => "ssn"
  | .secret => "secret"

mutual

/-- The texts in a value. -/
def stringLeaves : Value → List String
  | .string s => [s]
  | .array items => itemLeaves items
  | .object members => memberLeaves members
  | _ => []

def itemLeaves : List Value → List String
  | [] => []
  | v :: rest => stringLeaves v ++ itemLeaves rest

def memberLeaves : Members → List String
  | [] => []
  | (_, v) :: rest => stringLeaves v ++ memberLeaves rest

end

def tokenIsEmail (token : List Char) : Bool :=
  let localPart := token.takeWhile (· ≠ '@')
  match token.dropWhile (· ≠ '@') with
  | [] => false
  | _ :: domain =>
      if '@' ∈ domain then false
      else if localPart = [] ∨ domain = [] then false
      else if '.' ∉ domain then false
      else
        let tld := (domain.reverse.takeWhile (· ≠ '.')).reverse
        if tld.length < 2 ∨ tld.all Char.isAlpha = false then false
        else
          localPart.all (fun c => c.isAlphanum || c ∈ ['.', '_', '%', '+', '-'])
            && domain.all (fun c => c.isAlphanum || c ∈ ['.', '-'])

def hasEmail (s : List Char) : Bool :=
  (s.splitOnP fun c => isWhiteSpace c || c ∈ [',', ';', '<', '>']).any tokenIsEmail

/-- Three digits, two digits and four digits. -/
def tokenIsSsn (token : List Char) : Bool :=
  decide (token.length = 11) && decide (token[3]? = some '-') && decide (token[6]? = some '-')
    && (token.take 3).all Char.isDigit && ((token.drop 4).take 2).all Char.isDigit
    && (token.drop 7).all Char.isDigit

def hasSsn (s : List Char) : Bool := (s.splitOnP fun c => !(c.isDigit || c = '-')).any tokenIsSsn

/-- The sum of the digits from the right, every second one doubled. -/
def luhnSum : Bool → List Char → Nat
  | _, [] => 0
  | alt, c :: rest =>
      let v := digitValue c
      let w := if alt then (if 9 < v * 2 then v * 2 - 9 else v * 2) else v
      w + luhnSum (!alt) rest

def luhnOk (digits : List Char) : Bool := decide (luhnSum false digits.reverse % 10 = 0)

def runIsCard (run : List Char) : Bool :=
  let digits := run.filter Char.isDigit
  decide (13 ≤ digits.length) && decide (digits.length ≤ 19) && luhnOk digits

def hasCreditCard (s : List Char) : Bool :=
  (s.splitOnP fun c => !(c.isDigit || c = ' ' || c = '-')).any runIsCard

def secretPrefixes : List String :=
  [ "sk-", "sk_live_", "sk_test_", "rk_live_", "AKIA", "ASIA", "ghp_", "gho_", "ghs_",
    "github_pat_", "xoxb-", "xoxp-", "xoxa-", "AIza", "ya29.", "glpat-", "AGENOMIC_SECRET" ]

def hasSecret (s : List Char) : Bool :=
  if "-----BEGIN".toList <:+: s ∧ "PRIVATE KEY".toList <:+: s then true
  else (s.splitOnP fun c => isWhiteSpace c || c = '"' || c = Char.ofNat 39).any fun t =>
    secretPrefixes.any fun start =>
      start.toList.isPrefixOf t && decide (start.toList.length + 8 < (utf8Encode t).length)

/-- What a text holds, the strongest finding first. -/
def classify (s : String) : Option PiiKind :=
  if hasSecret s.toList then some .secret
  else if hasCreditCard s.toList then some .creditCard
  else if hasSsn s.toList then some .ssn
  else if hasEmail s.toList then some .email
  else none

/-- The first finding in the texts of a value. -/
def scanPii (value : Value) : Option PiiKind := (stringLeaves value).findSome? classify

/-! ## Paths -/

/-- A step out of the working tree. -/
def hasTraversal (path : String) : Bool :=
  (path.toList.splitOnP fun c => c = '/' || c = '\\').contains ['.', '.']

/-- The first protected fragment in a path. -/
def matchesProtected (path : String) (fragments : List String) : Option String :=
  fragments.find? fun f => decide (f ≠ "") && decide (f.toList <:+: path.toList)

/-- More fragments protect no less. -/
theorem matchesProtected_mono {path : String} {fragments more : List String}
    (hsub : ∀ f ∈ fragments, f ∈ more) (h : (matchesProtected path fragments).isSome = true) :
    (matchesProtected path more).isSome = true := by
  unfold matchesProtected at h ⊢
  rw [List.find?_isSome] at h ⊢
  obtain ⟨f, hf, hmatch⟩ := h
  exact ⟨f, hsub f hf, hmatch⟩

/-! ## Texts under keys -/

/-- The text that a value is, or the texts that are its items. -/
def pushStrings : Value → List String
  | .string s => [s]
  | .array items => items.filterMap Value.asStr
  | _ => []

/-- A text that a value is. -/
def pushString : Value → List String
  | .string s => [s]
  | _ => []

mutual

/-- What `push` takes from the values under some keys, anywhere in a value. -/
def underKeys (push : Value → List String) (keys : List String) : Value → List String
  | .array items => itemsUnderKeys push keys items
  | .object members => membersUnderKeys push keys members
  | _ => []

def itemsUnderKeys (push : Value → List String) (keys : List String) : List Value → List String
  | [] => []
  | v :: rest => underKeys push keys v ++ itemsUnderKeys push keys rest

def membersUnderKeys (push : Value → List String) (keys : List String) : Members → List String
  | [] => []
  | (k, v) :: rest =>
      (if k ∈ keys then push v else []) ++ underKeys push keys v
        ++ membersUnderKeys push keys rest

end

mutual

/-- A text that stands under some key is a text of the value. -/
theorem underKeys_subset (keys : List String) :
    ∀ v : Value, ∀ s ∈ underKeys pushString keys v, s ∈ stringLeaves v
  | .array items, s, h => by
      unfold underKeys at h
      unfold stringLeaves
      exact itemsUnderKeys_subset keys items s h
  | .object members, s, h => by
      unfold underKeys at h
      unfold stringLeaves
      exact membersUnderKeys_subset keys members s h
  | .null, s, h => by
      unfold underKeys at h
      exact absurd h List.not_mem_nil
  | .bool _, s, h => by
      unfold underKeys at h
      exact absurd h List.not_mem_nil
  | .number _, s, h => by
      unfold underKeys at h
      exact absurd h List.not_mem_nil
  | .string _, s, h => by
      unfold underKeys at h
      exact absurd h List.not_mem_nil

theorem itemsUnderKeys_subset (keys : List String) :
    ∀ items : List Value, ∀ s ∈ itemsUnderKeys pushString keys items, s ∈ itemLeaves items
  | [], s, h => absurd h List.not_mem_nil
  | v :: rest, s, h => by
      unfold itemsUnderKeys at h
      unfold itemLeaves
      rcases List.mem_append.mp h with h | h
      · exact List.mem_append_left _ (underKeys_subset keys v s h)
      · exact List.mem_append_right _ (itemsUnderKeys_subset keys rest s h)

theorem membersUnderKeys_subset (keys : List String) :
    ∀ members : Members, ∀ s ∈ membersUnderKeys pushString keys members, s ∈ memberLeaves members
  | [], s, h => absurd h List.not_mem_nil
  | (k, v) :: rest, s, h => by
      unfold membersUnderKeys at h
      unfold memberLeaves
      rcases List.mem_append.mp h with h | h
      · refine List.mem_append_left _ ?_
        rcases List.mem_append.mp h with h | h
        · -- What is pushed is the value itself, when it is a text.
          by_cases hk : k ∈ keys
          · rw [if_pos hk] at h
            cases v with
            | string t => exact h
            | null => exact absurd h List.not_mem_nil
            | bool b => exact absurd h List.not_mem_nil
            | number n => exact absurd h List.not_mem_nil
            | array items => exact absurd h List.not_mem_nil
            | object ms => exact absurd h List.not_mem_nil
          · rw [if_neg hk] at h
            exact absurd h List.not_mem_nil
        · exact underKeys_subset keys v s h
      · exact List.mem_append_right _ (membersUnderKeys_subset keys rest s h)

end

end Agenomic.Gate
