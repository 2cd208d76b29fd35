import Agenomic.Diff.Yaml
import Agenomic.Lib.Quoted

/-!
# Block documents

Documents as they are written out by hand: mappings in block style with plain keys,
sequences of scalars, and scalars that stand plain or between quotation marks. `text`
is the document as written and `value` what it stands for.

How plain scalars are resolved, which characters may stand in a quoted one and which of
them break a line differs between readers, and is given as a `Reader`; `Lawful` says what
all of them do.
-/

namespace Agenomic.Os

open Lib
open Diff (Yaml YamlNumber)

/-- What a plain scalar is resolved to. -/
inductive Resolved where
  | null
  | bool (b : Bool)
  | number (n : YamlNumber)
  | text
  deriving DecidableEq

structure Reader where
  resolve : String → Resolved
  /-- The characters that may stand in a quoted scalar. -/
  accepts : Char → Bool
  /-- The characters that end a line. -/
  isBreak : Char → Bool

-- The membership test below takes this instance by its name.
local instance lawfulText : LawfulBEq (List Char) := inferInstance

/-- A text of letters, dashes and underscores that stands neither for null nor for a boolean
in any version of the format. -/
def isWord (t : String) : Bool :=
  t ≠ "" && t.toList.all (fun c => c.isAlpha || c = '-' || c = '_')
    && !(t.toList.map Char.toLower) ∈ ["null".toList, "true".toList, "false".toList,
      "yes".toList, "no".toList, "on".toList, "off".toList, ['y'], ['n'], ['-']]

/-- What readers agree on; a number has a digit or a dot, so a word is none. -/
structure Reader.Lawful (r : Reader) : Prop where
  word : ∀ t, isWord t = true → r.resolve t = .text
  accepts : ∀ c, ' ' ≤ c → c ≤ '~' → r.accepts c = true
  breaks : Quoted.BreaksLines r.isBreak

/-- The document a plain scalar stands for. -/
def Reader.plain (r : Reader) (t : String) : Yaml :=
  match r.resolve t with
  | .null => .null
  | .bool b => .bool b
  | .number n => .number n
  | .text => .string t

/-! ## Scalars -/

/-- A scalar as it is written. -/
inductive Token where
  | plain (text : String)
  /-- With what stands between the quotation marks. -/
  | quoted (inner : String)

namespace Token

def text : Token → String
  | .plain t => t
  | .quoted inner => "\"" ++ inner ++ "\""

/-- What a scalar stands for behind a key. -/
def value (r : Reader) : Token → Option Yaml
  | .plain t => some (r.plain t)
  | .quoted inner =>
      (Quoted.read r.accepts r.isBreak inner.toList).map fun cs => .string (String.ofList cs)

/-- What a scalar stands for behind a dash; one more dash opens a sequence inside, with
nothing in its only item. -/
def itemValue (r : Reader) (t : Token) : Option Yaml :=
  match t with
  | .plain "-" => some (.sequence [.null])
  | t => t.value r

end Token

/-! ## Documents -/

/-- What follows a key. -/
inductive Block where
  | scalar (token : Token) (comment : String)
  | items (tokens : List Token)
  | entries (blocks : List (String × Block))

abbrev Document := List (String × Block)

def indent (n : Nat) : String := String.ofList (List.replicate n ' ')

mutual

/-- The lines of a block behind a key. -/
def Block.lines (n : Nat) (key : String) : Block → List String
  | .scalar t comment => [key ++ " " ++ t.text ++ comment]
  | .items [] => [key ++ " []"]
  | .items (t :: ts) => key :: (t :: ts).map fun t => indent (n + 2) ++ "- " ++ t.text
  | .entries blocks => key :: entryLines (n + 2) blocks

def entryLines (n : Nat) : List (String × Block) → List String
  | [] => []
  | (key, block) :: rest => block.lines n (indent n ++ key ++ ":") ++ entryLines n rest

end

/-- Lines, each with its line feed. -/
def writeLines (lines : List String) : String := String.join (lines.map (· ++ "\n"))

def Document.text (doc : Document) : String := writeLines (entryLines 0 doc)

mutual

/-- What a block stands for; nothing if it cannot be read. -/
def Block.value (r : Reader) : Block → Option Yaml
  | .scalar t _ => t.value r
  | .items tokens => (tokens.mapM (Token.itemValue r)).map .sequence
  | .entries blocks => (entryValues r blocks).map .mapping

def entryValues (r : Reader) : List (String × Block) → Option (List (Yaml × Yaml))
  | [] => some []
  | (key, block) :: rest => do
      let v ← block.value r
      let entries ← entryValues r rest
      return (r.plain key, v) :: entries

end

def Document.value (r : Reader) (doc : Document) : Option Yaml := (entryValues r doc).map .mapping

/-- A parser takes a document for what it stands for. -/
def Reads (r : Reader) (fromStr : String → Except String Yaml) (doc : Document) : Prop :=
  (fromStr doc.text).toOption = doc.value r

theorem Reader.Lawful.plain_word {r : Reader} (hr : r.Lawful) {t : String}
    (ht : isWord t = true) : r.plain t = .string t := by
  rw [Reader.plain, hr.word t ht]

end Agenomic.Os
