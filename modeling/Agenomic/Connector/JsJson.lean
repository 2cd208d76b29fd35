import Agenomic.Connector.Redact

/-!
# JSON in scripts

Values as a script reads and writes them. A number keeps the literal it was read from: what the
double it stands for prints as is left to `showNumber`. A member that is given twice has the last
value at the place of the first, and members are written with the array indices in front.
-/

namespace Agenomic.Connector

open Redact

inductive JsValue where
  | null
  | bool (b : Bool)
  | number (literal : JsText)
  | string (s : JsText)
  | array (items : List JsValue)
  | object (members : List (JsText × JsValue))

abbrev Members := List (JsText × JsValue)

namespace JsValue

/-- `value?.name`. -/
def member (name : String) : JsValue → Option JsValue
  | .object members => members.lookup (js name)
  | _ => none

/-- `object.name = value`. -/
def setMember (name : JsText) (value : JsValue) : Members → Members
  | [] => [(name, value)]
  | (k, v) :: rest => if k = name then (k, value) :: rest else (k, v) :: setMember name value rest

/-! ## Reading -/

def isWhite (u : UInt16) : Bool := u == 32 || u == 9 || u == 10 || u == 13

def skipWhite (s : JsText) : JsText := s.dropWhile isWhite

def hexDigit (u : UInt16) : Option UInt16 :=
  if isDigit u then some (u - 48)
  else if between 97 102 u then some (u - 87)
  else if between 65 70 u then some (u - 55)
  else none

def hex4 (a b c d : UInt16) : Option UInt16 := do
  let a ← hexDigit a
  let b ← hexDigit b
  let c ← hexDigit c
  let d ← hexDigit d
  some (4096 * a + 256 * b + 16 * c + d)

/-- The units behind a backslash, and what they stand for. -/
def escapes : List (UInt16 × UInt16) :=
  [(34, 34), (92, 92), (47, 47), (98, 8), (102, 12), (110, 10), (114, 13), (116, 9)]

/-- The rest of a string, behind its opening quote. -/
def readString : JsText → Option (JsText × JsText)
  | [] => none
  | u :: rest =>
      if u = 34 then some ([], rest)
      else if u = 92 then
        match rest with
        | [] => none
        | e :: rest =>
            if e = 117 then
              match rest with
              | a :: b :: c :: d :: rest =>
                  match hex4 a b c d with
                  | some x => (readString rest).map fun p => (x :: p.1, p.2)
                  | none => none
              | _ => none
            else
              match escapes.lookup e with
              | some x => (readString rest).map fun p => (x :: p.1, p.2)
              | none => none
      else if u < 32 then none
      else (readString rest).map fun p => (u :: p.1, p.2)

/-- One or more digits. -/
def readDigits (s : JsText) : Option (JsText × JsText) :=
  if s.takeWhile isDigit = [] then none else some (s.takeWhile isDigit, s.dropWhile isDigit)

def readFraction : JsText → Option (JsText × JsText)
  | 46 :: rest => (readDigits rest).map fun p => (46 :: p.1, p.2)
  | s => some ([], s)

def readExponent : JsText → Option (JsText × JsText)
  | [] => some ([], [])
  | e :: rest =>
      if e = 101 ∨ e = 69 then
        match rest with
        | 43 :: rest => (readDigits rest).map fun p => (e :: 43 :: p.1, p.2)
        | 45 :: rest => (readDigits rest).map fun p => (e :: 45 :: p.1, p.2)
        | rest => (readDigits rest).map fun p => (e :: p.1, p.2)
      else some ([], e :: rest)

/-- A number without its sign. -/
def readUnsigned (s : JsText) : Option (JsText × JsText) := do
  let (whole, s) ← readDigits s
  if 1 < whole.length ∧ whole.head? = some 48 then none
  let (fraction, s) ← readFraction s
  let (exponent, s) ← readExponent s
  some (whole ++ fraction ++ exponent, s)

def readNumber : JsText → Option (JsText × JsText)
  | 45 :: rest => (readUnsigned rest).map fun p => (45 :: p.1, p.2)
  | s => readUnsigned s

def readWord (word : String) (value : JsValue) (s : JsText) : Option (JsValue × JsText) :=
  if (js word).isPrefixOf s then some (value, s.drop (js word).length) else none

/-- What stands behind a delimiter, if it comes next. -/
def behind (delimiter : UInt16) (s : JsText) : Option JsText :=
  match skipWhite s with
  | [] => none
  | u :: rest => if u = delimiter then some rest else none

mutual

/-- A value at the front of a text. -/
def readValue : Nat → JsText → Option (JsValue × JsText)
  | 0, _ => none
  | fuel + 1, s =>
      match skipWhite s with
      | [] => none
      | u :: rest =>
          if u = 34 then (readString rest).map fun p => (.string p.1, p.2)
          else if u = 91 then
            match behind 93 rest with
            | some rest => some (.array [], rest)
            | none => (readItems fuel rest).map fun p => (.array p.1, p.2)
          else if u = 123 then
            match behind 125 rest with
            | some rest => some (.object [], rest)
            | none => (readMembers fuel [] rest).map fun p => (.object p.1, p.2)
          else if u = 110 then readWord "null" .null (u :: rest)
          else if u = 116 then readWord "true" (.bool true) (u :: rest)
          else if u = 102 then readWord "false" (.bool false) (u :: rest)
          else (readNumber (u :: rest)).map fun p => (.number p.1, p.2)

/-- The items of an array from one of them on. -/
def readItems : Nat → JsText → Option (List JsValue × JsText)
  | 0, _ => none
  | fuel + 1, s => do
      let (item, s) ← readValue fuel s
      match behind 44 s with
      | some rest => (readItems fuel rest).map fun p => (item :: p.1, p.2)
      | none => (behind 93 s).map fun rest => ([item], rest)

/-- The members of an object from one of them on, behind those read so far. -/
def readMembers : Nat → Members → JsText → Option (Members × JsText)
  | 0, _, _ => none
  | fuel + 1, members, s => do
      let s ← behind 34 s
      let (name, s) ← readString s
      let s ← behind 58 s
      let (value, s) ← readValue fuel s
      let members := setMember name value members
      match behind 44 s with
      | some rest => readMembers fuel members rest
      | none => (behind 125 s).map fun rest => (members, rest)

end

/-- `JSON.parse`; no value stands for the error it throws. -/
def parse (s : JsText) : Option JsValue :=
  match readValue (s.length + 1) s with
  | some (value, rest) => if skipWhite rest = [] then some value else none
  | none => none

/-! ## What compact text reads as -/

/-- A unit that stands for itself in a string. -/
def isPlain (u : UInt16) : Bool := u != 34 && u != 92 && !(u < 32)

theorem readString_plain (rest : JsText) : ∀ {units : JsText}, units.all isPlain = true →
    readString (units ++ 34 :: rest) = some (units, rest)
  | [], _ => by
      rw [List.nil_append, readString.eq_def]
      rfl
  | u :: units, h => by
      rw [List.all_cons, Bool.and_eq_true] at h
      obtain ⟨hu, hunits⟩ := h
      simp only [isPlain, Bool.and_eq_true, bne_iff_ne, Bool.not_eq_true', decide_eq_false_iff_not]
        at hu
      rw [List.cons_append, readString.eq_def]
      dsimp only
      rw [if_neg hu.1.1, if_neg hu.1.2, if_neg hu.2, readString_plain rest hunits]
      rfl

theorem behind_self {u : UInt16} (s : JsText) (h : isWhite u = false) :
    behind u (u :: s) = some s := by
  unfold behind skipWhite
  rw [List.dropWhile_cons_of_neg (by rw [h]; decide)]
  exact if_pos rfl

theorem behind_ne {u v : UInt16} (s : JsText) (h : isWhite v = false) (hne : v ≠ u) :
    behind u (v :: s) = none := by
  unfold behind skipWhite
  rw [List.dropWhile_cons_of_neg (by rw [h]; decide)]
  exact if_neg hne

theorem readValue_string (fuel : Nat) {units : JsText} (rest : JsText)
    (h : units.all isPlain = true) :
    readValue (fuel + 1) (34 :: (units ++ 34 :: rest)) = some (.string units, rest) := by
  have hskip : skipWhite (34 :: (units ++ 34 :: rest)) = 34 :: (units ++ 34 :: rest) := rfl
  rw [readValue, hskip]
  dsimp only
  rw [if_pos rfl, readString_plain rest h]
  rfl

theorem readValue_object {fuel : Nat} {s rest : JsText} {members : Members}
    (h : readMembers fuel [] (34 :: s) = some (members, rest)) :
    readValue (fuel + 1) (123 :: 34 :: s) = some (.object members, rest) := by
  have hskip : skipWhite (123 :: 34 :: s) = 123 :: 34 :: s := rfl
  rw [readValue, hskip]
  dsimp only
  rw [if_neg (by decide), if_neg (by decide), if_pos rfl, behind_ne s (by decide) (by decide)]
  dsimp only
  rw [h]
  rfl

/-- One member, up to what stands behind its value. -/
theorem readMembers_member {fuel : Nat} {name s rest : JsText} {members : Members}
    {value : JsValue} (hname : name.all isPlain = true)
    (h : readValue fuel s = some (value, rest)) :
    readMembers (fuel + 1) members (34 :: (name ++ 34 :: 58 :: s))
      = match behind 44 rest with
        | some rest => readMembers fuel (setMember name value members) rest
        | none => (behind 125 rest).map fun rest => (setMember name value members, rest) := by
  rw [readMembers, behind_self _ (by decide)]
  simp only [Option.bind_eq_bind, Option.bind_some, readString_plain _ hname,
    behind_self s (show isWhite 58 = false by decide), h]

theorem readMembers_last {fuel : Nat} {name s rest : JsText} {members : Members} {value : JsValue}
    (hname : name.all isPlain = true) (h : readValue fuel s = some (value, 125 :: rest)) :
    readMembers (fuel + 1) members (34 :: (name ++ 34 :: 58 :: s))
      = some (setMember name value members, rest) := by
  rw [readMembers_member hname h, behind_ne rest (by decide) (by decide),
    behind_self rest (by decide)]
  rfl

theorem readMembers_more {fuel : Nat} {name s rest : JsText} {members : Members} {value : JsValue}
    (hname : name.all isPlain = true) (h : readValue fuel s = some (value, 44 :: rest)) :
    readMembers (fuel + 1) members (34 :: (name ++ 34 :: 58 :: s))
      = readMembers fuel (setMember name value members) rest := by
  rw [readMembers_member hname h, behind_self rest (by decide)]

/-- White space behind a value does not count. -/
theorem parse_append_white {s gap : JsText} {value : JsValue}
    (h : readValue ((s ++ gap).length + 1) (s ++ gap) = some (value, gap))
    (hgap : gap.all isWhite = true) : parse (s ++ gap) = some value := by
  have hskip : skipWhite gap = [] := by
    rw [skipWhite, List.dropWhile_eq_nil_iff]
    exact fun u hu => List.all_eq_true.mp hgap u hu
  unfold parse
  rw [h]
  dsimp only
  rw [if_pos hskip]

/-! ## Writing -/

def hexUnit (n : UInt16) : UInt16 := if n < 10 then 48 + n else 87 + n

/-- A unit as an escape with four digits. -/
def escapeUnit (u : UInt16) : JsText :=
  js "\\u" ++ [hexUnit (u / 4096), hexUnit (u / 256 % 16), hexUnit (u / 16 % 16), hexUnit (u % 16)]

def isLeading : UInt16 → Bool := between 55296 56319

def isTrailing : UInt16 → Bool := between 56320 57343

def quoteUnit (u : UInt16) : JsText :=
  if u = 34 ∨ u = 92 then [92, u]
  else
    match (escapes.drop 3).find? (fun e => e.2 == u) with
    | some (e, _) => [92, e]
    | none => if u < 32 || isLeading u || isTrailing u then escapeUnit u else [u]

/-- The units of a string literal; a surrogate stands alone only as an escape. -/
def quoteUnits : JsText → JsText
  | [] => []
  | [u] => quoteUnit u
  | u :: v :: rest =>
      if isLeading u && isTrailing v then u :: v :: quoteUnits rest
      else quoteUnit u ++ quoteUnits (v :: rest)

def quote (s : JsText) : JsText := 34 :: quoteUnits s ++ [34]

/-- The number a name stands for as an index of an array. -/
def arrayIndex (name : JsText) : Option Nat :=
  let n := name.foldl (fun n u => 10 * n + (u.toNat - 48)) 0
  if name ≠ [] ∧ name.all isDigit ∧ (1 < name.length → name.head? ≠ some 48) ∧ n < 2 ^ 32 - 1 then
    some n
  else none

/-- The members in the order they are enumerated. -/
def enumerated {α : Type} (members : List (JsText × α)) : List (JsText × α) :=
  (members.filter fun m => (arrayIndex m.1).isSome).insertionSort
      (fun a b => (arrayIndex a.1).getD 0 ≤ (arrayIndex b.1).getD 0)
    ++ members.filter fun m => (arrayIndex m.1).isNone

mutual

/-- `JSON.stringify`. -/
def stringify (showNumber : JsText → JsText) : JsValue → JsText
  | .null => js "null"
  | .bool true => js "true"
  | .bool false => js "false"
  | .number literal => showNumber literal
  | .string s => quote s
  | .array items => js "[" ++ (js ",").intercalate (stringifyItems showNumber items) ++ js "]"
  | .object members =>
      let parts := (enumerated (stringifyMembers showNumber members)).map fun m =>
        quote m.1 ++ js ":" ++ m.2
      js "\x7b" ++ (js ",").intercalate parts ++ js "\x7d"

def stringifyItems (showNumber : JsText → JsText) : List JsValue → List JsText
  | [] => []
  | item :: rest => stringify showNumber item :: stringifyItems showNumber rest

def stringifyMembers (showNumber : JsText → JsText) : Members → List (JsText × JsText)
  | [] => []
  | (name, value) :: rest =>
      (name, stringify showNumber value) :: stringifyMembers showNumber rest

end

theorem stringify_object_ne_nil (showNumber : JsText → JsText) (members : Members) :
    (JsValue.object members).stringify showNumber ≠ [] := by
  intro h
  unfold stringify at h
  have hopen : js "\x7b" = [] := (List.append_eq_nil_iff.mp (List.append_eq_nil_iff.mp h).1).1
  exact absurd hopen (by decide)

example : (parse (js "\x7b\"b\": [1.50, \"\\u0041\\n\"], \"1\": null, \"b\": -2e3\x7d")).map
      (stringify id)
    = some (js "\x7b\"1\":null,\"b\":-2e3\x7d") := by decide +kernel

end JsValue

end Agenomic.Connector
