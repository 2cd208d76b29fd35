import Agenomic.Prompt.Bundle

/-!
# YAML documents

A document is a tree whose mappings keep the order of their entries and may have any
value as a key. Two documents are the same (`same`) when they differ at most in the
order of these entries and in how doubles are printed. Turned into JSON a document
loses its tags, its keys become texts, and what has no counterpart becomes null.
-/

namespace Agenomic.Diff

open Agenomic.Prompt (Value Members Number)

inductive YamlNumber where
  | int (n : Int)
  | float (value : ℚ) (text : String)
  | infinite (negative : Bool)
  | nan
  deriving DecidableEq, Repr

inductive Yaml where
  | null
  | bool (b : Bool)
  | number (n : YamlNumber)
  | string (s : String)
  | sequence (items : List Yaml)
  | mapping (entries : List (Yaml × Yaml))
  /-- A value under a tag, which is written with its exclamation mark. -/
  | tagged (tag : String) (value : Yaml)
  deriving Inhabited

/-- Equality of numbers: an integer is no double, and what is no number is itself. -/
def YamlNumber.same : YamlNumber → YamlNumber → Bool
  | .int n, .int m => n == m
  | .float v _, .float w _ => v == w
  | .infinite s, .infinite t => s == t
  | .nan, .nan => true
  | _, _ => false

/-- The text of a number. -/
def YamlNumber.text : YamlNumber → String
  | .int n => toString n
  | .float _ text => text
  | .infinite negative => if negative then "-.inf" else ".inf"
  | .nan => ".nan"

namespace Yaml

/-! ## Equality -/

mutual

/-- Equality of documents. -/
def same : Yaml → Yaml → Bool
  | .null, .null => true
  | .bool b, .bool c => b == c
  | .number n, .number m => n.same m
  | .string s, .string t => s == t
  | .sequence xs, .sequence ys => sameItems xs ys
  | .mapping es, .mapping fs => es.length == fs.length && sameEntries es fs
  | .tagged t v, .tagged u w => t == u && same v w
  | _, _ => false

def sameItems : List Yaml → List Yaml → Bool
  | [], [] => true
  | x :: xs, y :: ys => same x y && sameItems xs ys
  | _, _ => false

/-- Every entry of the first is one of the second. -/
def sameEntries : List (Yaml × Yaml) → List (Yaml × Yaml) → Bool
  | [], _ => true
  | (k, v) :: rest, fs => (fs.any fun f => same k f.1 && same v f.2) && sameEntries rest fs

end

/-- Equality of documents that may be missing. -/
def sameOption : Option Yaml → Option Yaml → Bool
  | none, none => true
  | some v, some w => same v w
  | _, _ => false

/-! ## Access -/

/-- The value below all tags. -/
def untag : Yaml → Yaml
  | .tagged _ v => v.untag
  | v => v

/-- The entry of a mapping under a text. -/
def get (v : Yaml) (key : String) : Option Yaml :=
  match v.untag with
  | .mapping entries => (entries.find? fun e => e.1.same (.string key)).map (·.2)
  | _ => none

def asStr (v : Yaml) : Option String :=
  match v.untag with
  | .string s => some s
  | _ => none

def asSequence (v : Yaml) : Option (List Yaml) :=
  match v.untag with
  | .sequence items => some items
  | _ => none

/-! ## JSON -/

/-- The text a key becomes; the others are refused. -/
def keyText : Yaml → Option String
  | .string s => some s
  | .bool b => some (if b then "true" else "false")
  | .number (.int n) => some (YamlNumber.text (.int n))
  | .number (.float v text) => some (YamlNumber.text (.float v text))
  | _ => none

mutual

/-- The JSON a document turns into, nothing where a key is refused. -/
def toJson : Yaml → Option Value
  | .null => some .null
  | .bool b => some (.bool b)
  | .number (.int n) => some (.number (.int n))
  | .number (.float v text) => some (.number (.float v text))
  | .number _ => some .null
  | .string s => some (.string s)
  | .sequence items => (toJsonItems items).map .array
  | .mapping entries => (toJsonEntries entries []).map .object
  | .tagged tag v => (toJson v).map fun w => .object [(tag, w)]

def toJsonItems : List Yaml → Option (List Value)
  | [] => some []
  | x :: xs => do
      let v ← toJson x
      let vs ← toJsonItems xs
      return v :: vs

/-- The entries one after the other; a text that comes again replaces its member. -/
def toJsonEntries : List (Yaml × Yaml) → Members → Option Members
  | [], done => some done
  | (k, v) :: rest, done => do
      let key ← keyText k
      let w ← toJson v
      toJsonEntries rest (Prompt.PromptError.insertMember key w done)

end

/-- The JSON a document turns into, null where it has none. -/
def jsonOrNull (v : Yaml) : Value := v.toJson.getD .null

end Yaml

end Agenomic.Diff
