import Agenomic.Lib.Text

/-!
# JSON text, and why it can be read back

A JSON value with integer numbers, the compact writer and the reader. The writer
escapes exactly the quote, the backslash and the control characters; the reader
takes the whole grammar: white space between tokens, every escape, surrogate
pairs.

**`parse_write`** says the reader undoes the writer, so two values with the same
text are the same value (`write_injective`). Its proof follows the writer: each
piece of text reads back whatever stands behind it, as long as nothing that could
continue a number does.
-/

namespace Lib

/-- A JSON value. Objects keep their fields in the order they were given. -/
inductive Json where
  | null
  | bool (b : Bool)
  | num (n : Int)
  | str (s : String)
  | arr (items : List Json)
  | obj (fields : List (String × Json))
  deriving Inhabited

namespace Json

/-! ## The writer -/

/-- One character inside a string literal. -/
def escapeChar (c : Char) : List Char :=
  if c = '"' then ['\\', '"']
  else if c = '\\' then ['\\', '\\']
  else if c.toNat = 8 then ['\\', 'b']
  else if c.toNat = 9 then ['\\', 't']
  else if c.toNat = 10 then ['\\', 'n']
  else if c.toNat = 12 then ['\\', 'f']
  else if c.toNat = 13 then ['\\', 'r']
  else if c.toNat < 32 then
    ['\\', 'u', '0', '0', hexDigit (c.toNat / 16), hexDigit (c.toNat % 16)]
  else [c]

/-- A string literal. -/
def writeString (s : String) : List Char := '"' :: (s.toList.flatMap escapeChar ++ ['"'])

/-- An integer. -/
def writeNumber (n : Int) : List Char :=
  if n < 0 then '-' :: decimal n.natAbs else decimal n.natAbs

mutual

/-- The compact text of a value. -/
def write : Json → List Char
  | .null => ['n', 'u', 'l', 'l']
  | .bool true => ['t', 'r', 'u', 'e']
  | .bool false => ['f', 'a', 'l', 's', 'e']
  | .num n => writeNumber n
  | .str s => writeString s
  | .arr items => '[' :: writeItems items
  | .obj fields => '{' :: writeFields fields

/-- The items of an array, behind its bracket. -/
def writeItems : List Json → List Char
  | [] => [']']
  | x :: xs => write x ++ writeItemsTail xs

/-- The items of an array behind its first. -/
def writeItemsTail : List Json → List Char
  | [] => [']']
  | x :: xs => ',' :: (write x ++ writeItemsTail xs)

/-- The fields of an object, behind its brace. -/
def writeFields : List (String × Json) → List Char
  | [] => ['}']
  | (k, v) :: fs => writeString k ++ ':' :: (write v ++ writeFieldsTail fs)

/-- The fields of an object behind its first. -/
def writeFieldsTail : List (String × Json) → List Char
  | [] => ['}']
  | (k, v) :: fs => ',' :: (writeString k ++ ':' :: (write v ++ writeFieldsTail fs))

end

/-! ## The reader -/

/-- Skip white space between tokens. -/
def skipSpace : List Char → List Char
  | [] => []
  | c :: cs => if c = ' ' ∨ c = '\n' ∨ c = '\t' ∨ c = '\r' then skipSpace cs else c :: cs

/-- The number four hex digits spell. -/
def hex4 (a b c d : Char) : Option Nat := do
  let a ← hexValue a
  let b ← hexValue b
  let c ← hexValue c
  let d ← hexValue d
  some (4096 * a + 256 * b + 16 * c + d)

/-- The character a one-letter escape stands for. -/
def simpleEscape (e : Char) : Option Char :=
  if e = '"' then some '"'
  else if e = '\\' then some '\\'
  else if e = '/' then some '/'
  else if e = 'b' then some (Char.ofNat 8)
  else if e = 'f' then some (Char.ofNat 12)
  else if e = 'n' then some '\n'
  else if e = 'r' then some '\r'
  else if e = 't' then some '\t'
  else none

/-- One escape, behind its backslash. -/
def parseEscape : List Char → Option (Char × List Char)
  | 'u' :: h1 :: h2 :: h3 :: h4 :: rest =>
      match hex4 h1 h2 h3 h4 with
      | none => none
      | some n =>
          if 55296 ≤ n ∧ n ≤ 56319 then
            -- a leading surrogate stands only before a trailing one
            match rest with
            | '\\' :: 'u' :: l1 :: l2 :: l3 :: l4 :: rest =>
                match hex4 l1 l2 l3 l4 with
                | none => none
                | some m =>
                    if 56320 ≤ m ∧ m ≤ 57343 then
                      some (Char.ofNat (65536 + 1024 * (n - 55296) + (m - 56320)), rest)
                    else none
            | _ => none
          else if 56320 ≤ n ∧ n ≤ 57343 then none
          else some (Char.ofNat n, rest)
  | e :: rest => (simpleEscape e).map fun x => (x, rest)
  | [] => none

/-- The rest of a string literal, behind its opening quote. -/
def parseStringBody : Nat → List Char → Option (List Char × List Char)
  | 0, _ => none
  | _ + 1, [] => none
  | fuel + 1, c :: rest =>
      if c = '"' then some ([], rest)
      else if c = '\\' then
        match parseEscape rest with
        | none => none
        | some (x, rest) => (parseStringBody fuel rest).map fun p => (x :: p.1, p.2)
      else if c.toNat < 32 then none
      else (parseStringBody fuel rest).map fun p => (c :: p.1, p.2)

/-- A character that would carry a number on. -/
def continuesNumber (c : Char) : Bool := c.isDigit || c == '.' || c == 'e' || c == 'E'

/-- A natural number without leading zeros. -/
def parseNat (cs : List Char) : Option (Nat × List Char) :=
  let ds := cs.takeWhile Char.isDigit
  let rest := cs.dropWhile Char.isDigit
  if ds = [] ∨ (1 < ds.length ∧ ds.head? = some '0') ∨ rest.head?.any continuesNumber then none
  else some (ofDecimal ds, rest)

mutual

/-- One value at the front of a text. -/
def parseValue : Nat → List Char → Option (Json × List Char)
  | 0, _ => none
  | fuel + 1, cs =>
      match skipSpace cs with
      | [] => none
      | c :: rest =>
          if c = '"' then (parseStringBody fuel rest).map fun p => (.str (String.ofList p.1), p.2)
          else if c = '[' then (parseItems fuel rest).map fun p => (.arr p.1, p.2)
          else if c = '{' then (parseFields fuel rest).map fun p => (.obj p.1, p.2)
          else if c = '-' then
            match parseNat rest with
            | some (n, rest) => if n = 0 then none else some (.num (-(n : Int)), rest)
            | none => none
          else if c.isDigit then (parseNat (c :: rest)).map fun p => (.num p.1, p.2)
          else if (c :: rest).take 4 = ['n', 'u', 'l', 'l'] then some (.null, rest.drop 3)
          else if (c :: rest).take 4 = ['t', 'r', 'u', 'e'] then some (.bool true, rest.drop 3)
          else if (c :: rest).take 5 = ['f', 'a', 'l', 's', 'e'] then some (.bool false, rest.drop 4)
          else none

/-- The items of an array, behind its bracket. -/
def parseItems : Nat → List Char → Option (List Json × List Char)
  | 0, _ => none
  | fuel + 1, cs =>
      match skipSpace cs with
      | ']' :: rest => some ([], rest)
      | cs => do
          let (x, rest) ← parseValue fuel cs
          let (xs, rest) ← parseItemsTail fuel rest
          some (x :: xs, rest)

/-- The items of an array behind its first. -/
def parseItemsTail : Nat → List Char → Option (List Json × List Char)
  | 0, _ => none
  | fuel + 1, cs =>
      match skipSpace cs with
      | ']' :: rest => some ([], rest)
      | ',' :: rest => do
          let (x, rest) ← parseValue fuel rest
          let (xs, rest) ← parseItemsTail fuel rest
          some (x :: xs, rest)
      | _ => none

/-- One field of an object, from its key. -/
def parseField : Nat → List Char → Option ((String × Json) × List Char)
  | 0, _ => none
  | fuel + 1, cs =>
      match skipSpace cs with
      | '"' :: rest => do
          let (k, rest) ← parseStringBody fuel rest
          match skipSpace rest with
          | ':' :: rest => do
              let (v, rest) ← parseValue fuel rest
              some ((String.ofList k, v), rest)
          | _ => none
      | _ => none

/-- The fields of an object, behind its brace. -/
def parseFields : Nat → List Char → Option (List (String × Json) × List Char)
  | 0, _ => none
  | fuel + 1, cs =>
      match skipSpace cs with
      | '}' :: rest => some ([], rest)
      | cs => do
          let (f, rest) ← parseField fuel cs
          let (fs, rest) ← parseFieldsTail fuel rest
          some (f :: fs, rest)

/-- The fields of an object behind its first. -/
def parseFieldsTail : Nat → List Char → Option (List (String × Json) × List Char)
  | 0, _ => none
  | fuel + 1, cs =>
      match skipSpace cs with
      | '}' :: rest => some ([], rest)
      | ',' :: rest => do
          let (f, rest) ← parseField fuel rest
          let (fs, rest) ← parseFieldsTail fuel rest
          some (f :: fs, rest)
      | _ => none

end

/-- Read a whole text as one value. -/
def parse (cs : List Char) : Option Json :=
  match parseValue (cs.length + 1) cs with
  | some (v, rest) => if skipSpace rest = [] then some v else none
  | none => none

/-! ## Strings read back -/

theorem parseStringBody_escapeChar (n : Nat) (c : Char) (rest : List Char) :
    parseStringBody (n + 1) (escapeChar c ++ rest)
      = (parseStringBody n rest).map fun p => (c :: p.1, p.2) := by
  have hchar : ∀ k, c.toNat = k → c = Char.ofNat k := fun k h => by
    rw [← h, Char.ofNat_toNat]
  unfold escapeChar
  split
  · rename_i h; subst h; rfl
  split
  · rename_i h; subst h; rfl
  split
  · rename_i h; rw [hchar _ h]; rfl
  split
  · rename_i h; rw [hchar _ h]; rfl
  split
  · rename_i h; rw [hchar _ h]; rfl
  split
  · rename_i h; rw [hchar _ h]; rfl
  split
  · rename_i h; rw [hchar _ h]; rfl
  split
  · -- a control character without a short escape
    rename_i h
    have h1 := hexValue_hexDigit (d := c.toNat / 16) (by omega)
    have h2 := hexValue_hexDigit (d := c.toNat % 16) (by omega)
    have h4 : hex4 '0' '0' (hexDigit (c.toNat / 16)) (hexDigit (c.toNat % 16)) = some c.toNat := by
      have h0 : hexValue '0' = some 0 := by decide
      unfold hex4
      rw [h0, h1, h2]
      simp only [Option.bind_eq_bind, Option.bind_some]
      congr 1
      omega
    have hesc : parseEscape ('u' :: '0' :: '0' :: hexDigit (c.toNat / 16) :: hexDigit (c.toNat % 16)
        :: rest) = some (c, rest) := by
      simp only [parseEscape, h4]
      rw [if_neg (by omega), if_neg (by omega), Char.ofNat_toNat]
    simp only [List.cons_append, List.nil_append]
    rw [parseStringBody, if_neg (by decide), if_pos rfl, hesc]
  · rename_i hq hb _ _ _ _ _ hc
    simp only [List.cons_append, List.nil_append]
    rw [parseStringBody, if_neg hq, if_neg hb, if_neg hc]

theorem parseStringBody_escaped : ∀ (cs : List Char) (n : Nat) (rest : List Char), cs.length < n →
    parseStringBody n (cs.flatMap escapeChar ++ '"' :: rest) = some (cs, rest)
  | _, 0, _, h => absurd h (Nat.not_lt_zero _)
  | [], _ + 1, _, _ => rfl
  | c :: cs, n + 1, rest, h => by
      have ih := parseStringBody_escaped cs n rest (by rw [List.length_cons] at h; omega)
      rw [List.flatMap_cons, List.append_assoc, parseStringBody_escapeChar, ih]
      rfl

/-- A literal is longer than the text it spells. -/
theorem lt_writeString_length (s : String) : s.toList.length + 1 < (writeString s).length := by
  have hesc : ∀ c, 1 ≤ (escapeChar c).length := by
    intro c; unfold escapeChar; repeat' split
    all_goals simp
  have hall : ∀ cs : List Char, cs.length ≤ (cs.flatMap escapeChar).length := by
    intro cs
    induction cs with
    | nil => exact Nat.le_refl _
    | cons c cs ih =>
        have := hesc c
        rw [List.flatMap_cons, List.length_append, List.length_cons]
        omega
  have := hall s.toList
  simp only [writeString, List.length_cons, List.length_append, List.length_nil]
  omega

/-! ## Numbers read back -/

theorem takeWhile_append_of_all {p : Char → Bool} {ds r : List Char} (hd : ∀ c ∈ ds, p c = true)
    (hr : r.head?.any p = false) :
    (ds ++ r).takeWhile p = ds ∧ (ds ++ r).dropWhile p = r := by
  induction ds with
  | nil =>
      cases r with
      | nil => exact ⟨rfl, rfl⟩
      | cons c r =>
          have : p c = false := by simpa using hr
          simp [this]
  | cons d ds ih =>
      have h1 := hd d List.mem_cons_self
      obtain ⟨h2, h3⟩ := ih fun c hc => hd c (List.mem_cons_of_mem _ hc)
      simp [h1, h2, h3]

theorem decimal_head_ne_zero {n : Nat} (h : 0 < n) : (decimal n).head? ≠ some '0' := by
  induction n using Nat.strongRecOn with
  | ind n ih =>
      rcases Nat.lt_or_ge n 10 with hlt | hge
      · rw [decimal_small hlt]
        intro hd
        have hd0 : digit n = digit 0 := Option.some.inj hd
        have := congrArg digitValue hd0
        rw [digitValue_digit hlt, digitValue_digit (by decide)] at this
        omega
      · rw [decimal_step hge, List.head?_append_of_ne_nil _ (decimal_ne_nil _)]
        exact ih (n / 10) (by omega) (by omega)

theorem parseNat_decimal (n : Nat) {rest : List Char} (h : rest.head?.any continuesNumber = false) :
    parseNat (decimal n ++ rest) = some (n, rest) := by
  have hdig : rest.head?.any Char.isDigit = false := by
    cases rest with
    | nil => rfl
    | cons c r =>
        simp only [List.head?_cons, Option.any_some, continuesNumber, Bool.or_eq_false_iff] at h ⊢
        exact h.1.1.1
  obtain ⟨htake, hdrop⟩ := takeWhile_append_of_all (fun c hc => decimal_isDigit (n := n) hc) hdig
  unfold parseNat
  dsimp only
  rw [htake, hdrop, if_neg, ofDecimal_decimal]
  rintro (hnil | ⟨hlen, hzero⟩ | hcont)
  · exact decimal_ne_nil n hnil
  · rcases Nat.eq_zero_or_pos n with rfl | hpos
    · rw [decimal_small (by decide)] at hlen
      exact absurd hlen (by decide)
    · exact decimal_head_ne_zero hpos hzero
  · rw [h] at hcont; cases hcont

/-- The first character of a numeral. -/
theorem decimal_head (n : Nat) : ∃ d ds, decimal n = d :: ds ∧ d.isDigit = true := by
  cases hd : decimal n with
  | nil => exact absurd hd (decimal_ne_nil n)
  | cons d ds => exact ⟨d, ds, rfl, decimal_isDigit (n := n) (by rw [hd]; exact List.mem_cons_self)⟩

theorem digit_ne_of_isDigit {d : Char} (hd : d.isDigit = true) :
    d ≠ '"' ∧ d ≠ '[' ∧ d ≠ '{' ∧ d ≠ '-' ∧ d ≠ ' ' ∧ d ≠ '\n' ∧ d ≠ '\t' ∧ d ≠ '\r'
      ∧ d ≠ ']' ∧ d ≠ '}' := by
  refine ⟨?_, ?_, ?_, ?_, ?_, ?_, ?_, ?_, ?_, ?_⟩ <;> (rintro rfl; revert hd; decide)

/-! ## Values read back -/

theorem skipSpace_cons {c : Char} (h : c ≠ ' ' ∧ c ≠ '\n' ∧ c ≠ '\t' ∧ c ≠ '\r') (cs : List Char) :
    skipSpace (c :: cs) = c :: cs := by
  rw [skipSpace, if_neg]
  rintro (h1 | h1 | h1 | h1)
  · exact h.1 h1
  · exact h.2.1 h1
  · exact h.2.2.1 h1
  · exact h.2.2.2 h1

/-- The text of a value starts with a token that is no white space and closes nothing. -/
theorem write_head (v : Json) : ∃ c cs, write v = c :: cs ∧ (∀ r, skipSpace (c :: r) = c :: r)
    ∧ c ≠ ']' ∧ c ≠ '}' := by
  cases v with
  | null => exact ⟨'n', _, rfl, fun r => rfl, by decide, by decide⟩
  | bool b => cases b
              · exact ⟨'f', _, rfl, fun r => rfl, by decide, by decide⟩
              · exact ⟨'t', _, rfl, fun r => rfl, by decide, by decide⟩
  | num n =>
      by_cases hn : n < 0
      · exact ⟨'-', _, by rw [write, writeNumber, if_pos hn], fun r => rfl, by decide, by decide⟩
      · obtain ⟨d, ds, hd, hdig⟩ := decimal_head n.natAbs
        obtain ⟨-, -, -, -, h5, h6, h7, h8, h9, h10⟩ := digit_ne_of_isDigit hdig
        exact ⟨d, ds, by rw [write, writeNumber, if_neg hn, hd],
          fun r => skipSpace_cons ⟨h5, h6, h7, h8⟩ r, h9, h10⟩
  | str s => exact ⟨'"', _, rfl, fun r => rfl, by decide, by decide⟩
  | arr xs => exact ⟨'[', _, rfl, fun r => rfl, by decide, by decide⟩
  | obj fs => exact ⟨'{', _, rfl, fun r => rfl, by decide, by decide⟩

theorem writeItemsTail_head (xs : List Json) (r : List Char) :
    (writeItemsTail xs ++ r).head?.any continuesNumber = false := by
  cases xs <;> rfl

theorem writeFieldsTail_head (fs : List (String × Json)) (r : List Char) :
    (writeFieldsTail fs ++ r).head?.any continuesNumber = false := by
  rcases fs with _ | ⟨⟨k, v⟩, fs⟩ <;> rfl

mutual

theorem parseValue_write : ∀ (v : Json) (n : Nat) (r : List Char), (write v).length ≤ n →
    r.head?.any continuesNumber = false → parseValue n (write v ++ r) = some (v, r)
  | .null, 0, _, h, _ => absurd h (by simp [write])
  | .null, _ + 1, _, _, _ => rfl
  | .bool true, 0, _, h, _ => absurd h (by simp [write])
  | .bool true, _ + 1, _, _, _ => rfl
  | .bool false, 0, _, h, _ => absurd h (by simp [write])
  | .bool false, _ + 1, _, _, _ => rfl
  | .num i, 0, _, h, _ => by
      obtain ⟨c, cs, hc, -⟩ := write_head (.num i)
      rw [hc] at h
      exact absurd h (by simp)
  | .num i, n + 1, r, _, hr => by
      by_cases hi : i < 0
      · rw [write, writeNumber, if_pos hi, List.cons_append, parseValue]
        simp only [skipSpace_cons (c := '-') (by decide), Char.reduceEq, ↓reduceIte,
          parseNat_decimal _ hr]
        rw [if_neg (by omega)]
        congr 3
        omega
      · obtain ⟨d, ds, hd, hdig⟩ := decimal_head i.natAbs
        obtain ⟨h1, h2, h3, h4, h5, h6, h7, h8, -, -⟩ := digit_ne_of_isDigit hdig
        have hn := parseNat_decimal i.natAbs hr
        rw [write, writeNumber, if_neg hi, hd, List.cons_append, parseValue]
        rw [hd, List.cons_append] at hn
        simp only [skipSpace_cons ⟨h5, h6, h7, h8⟩, h1, h2, h3, h4, hdig, ↓reduceIte, hn,
          Option.map_some]
        congr 3
        omega
  | .str s, 0, _, h, _ => absurd h (by simp [write, writeString])
  | .str s, n + 1, r, h, _ => by
      have hlen := lt_writeString_length s
      have hs := parseStringBody_escaped s.toList n r (by rw [write] at h; omega)
      rw [write, writeString, List.cons_append, List.append_assoc, parseValue]
      simp only [skipSpace_cons (c := '"') (by decide), ↓reduceIte, List.singleton_append,
        hs, Option.map_some, String.ofList_toList]
  | .arr xs, 0, _, h, _ => absurd h (by simp [write])
  | .arr xs, n + 1, r, h, _ => by
      have hxs := parseItems_write xs n r (by rw [write, List.length_cons] at h; omega)
      rw [write, List.cons_append, parseValue]
      simp only [skipSpace_cons (c := '[') (by decide), Char.reduceEq, ↓reduceIte, hxs,
        Option.map_some]
  | .obj fs, 0, _, h, _ => absurd h (by simp [write])
  | .obj fs, n + 1, r, h, _ => by
      have hfs := parseFields_write fs n r (by rw [write, List.length_cons] at h; omega)
      rw [write, List.cons_append, parseValue]
      simp only [skipSpace_cons (c := '{') (by decide), Char.reduceEq, ↓reduceIte, hfs,
        Option.map_some]

theorem parseItems_write : ∀ (xs : List Json) (n : Nat) (r : List Char),
    (writeItems xs).length ≤ n → parseItems n (writeItems xs ++ r) = some (xs, r)
  | [], 0, _, h => absurd h (by simp [writeItems])
  | [], _ + 1, _, _ => rfl
  | x :: xs, 0, _, h => by
      obtain ⟨c, cs, hc, -⟩ := write_head x
      rw [writeItems, hc] at h
      exact absurd h (by simp)
  | x :: xs, n + 1, r, h => by
      obtain ⟨c, cs, hc, hskip, hne, -⟩ := write_head x
      rw [writeItems, List.length_append] at h
      have hpos : 0 < (write x).length := by rw [hc]; simp
      have hpos' : 0 < (writeItemsTail xs).length := by cases xs <;> simp [writeItemsTail]
      have hx := parseValue_write x n (writeItemsTail xs ++ r) (by omega)
        (writeItemsTail_head xs r)
      have hxs := parseItemsTail_write xs n r (by omega)
      rw [writeItems, List.append_assoc, parseItems]
      rw [hc, List.cons_append] at hx ⊢
      rw [hskip]
      split
      · rename_i heq; injection heq with heq; exact absurd heq hne
      · simp only [hx, hxs, Option.bind_eq_bind, Option.bind_some]

theorem parseItemsTail_write : ∀ (xs : List Json) (n : Nat) (r : List Char),
    (writeItemsTail xs).length ≤ n → parseItemsTail n (writeItemsTail xs ++ r) = some (xs, r)
  | [], 0, _, h => absurd h (by simp [writeItemsTail])
  | [], _ + 1, _, _ => rfl
  | x :: xs, 0, _, h => absurd h (by simp [writeItemsTail])
  | x :: xs, n + 1, r, h => by
      rw [writeItemsTail, List.length_cons, List.length_append] at h
      have hx := parseValue_write x n (writeItemsTail xs ++ r) (by omega)
        (writeItemsTail_head xs r)
      have hxs := parseItemsTail_write xs n r (by omega)
      rw [writeItemsTail, List.cons_append, List.append_assoc, parseItemsTail,
        skipSpace_cons (c := ',') (by decide)]
      simp only [hx, hxs, Option.bind_eq_bind, Option.bind_some]

theorem parseField_write : ∀ (k : String) (v : Json) (n : Nat) (r : List Char),
    (writeString k).length + (write v).length < n → r.head?.any continuesNumber = false →
    parseField n (writeString k ++ ':' :: (write v ++ r)) = some ((k, v), r)
  | _, _, 0, _, h, _ => absurd h (Nat.not_lt_zero _)
  | k, v, n + 1, r, h, hr => by
      have hlen := lt_writeString_length k
      have hv := parseValue_write v n r (by omega) hr
      have hk := parseStringBody_escaped k.toList n (':' :: (write v ++ r)) (by omega)
      rw [writeString, List.cons_append, List.append_assoc, parseField,
        skipSpace_cons (c := '"') (by decide)]
      simp only [List.singleton_append, hk, Option.bind_eq_bind,
        Option.bind_some, skipSpace_cons (c := ':') (by decide), hv, String.ofList_toList]

theorem parseFields_write : ∀ (fs : List (String × Json)) (n : Nat) (r : List Char),
    (writeFields fs).length ≤ n → parseFields n (writeFields fs ++ r) = some (fs, r)
  | [], 0, _, h => absurd h (by simp [writeFields])
  | [], _ + 1, _, _ => rfl
  | (k, v) :: fs, 0, _, h => absurd h (by simp [writeFields, writeString])
  | (k, v) :: fs, n + 1, r, h => by
      rw [writeFields, List.length_append, List.length_cons, List.length_append] at h
      have hk : 0 < (writeString k).length := by simp [writeString]
      have hpos' : 0 < (writeFieldsTail fs).length := by cases fs <;> simp [writeFieldsTail]
      have hf := parseField_write k v n (writeFieldsTail fs ++ r) (by omega)
        (writeFieldsTail_head fs r)
      have hfs := parseFieldsTail_write fs n r (by omega)
      rw [writeFields, List.append_assoc, List.cons_append, List.append_assoc, parseFields]
      rw [writeString, List.cons_append] at hf ⊢
      rw [skipSpace_cons (c := '"') (by decide)]
      split
      · rename_i heq; injection heq with heq; exact absurd heq (by decide)
      · simp only [hf, hfs, Option.bind_eq_bind, Option.bind_some]

theorem parseFieldsTail_write : ∀ (fs : List (String × Json)) (n : Nat) (r : List Char),
    (writeFieldsTail fs).length ≤ n → parseFieldsTail n (writeFieldsTail fs ++ r) = some (fs, r)
  | [], 0, _, h => absurd h (by simp [writeFieldsTail])
  | [], _ + 1, _, _ => rfl
  | (k, v) :: fs, 0, _, h => absurd h (by simp [writeFieldsTail])
  | (k, v) :: fs, n + 1, r, h => by
      rw [writeFieldsTail, List.length_cons, List.length_append, List.length_cons,
        List.length_append] at h
      have hf := parseField_write k v n (writeFieldsTail fs ++ r) (by omega)
        (writeFieldsTail_head fs r)
      have hfs := parseFieldsTail_write fs n r (by omega)
      rw [writeFieldsTail, List.cons_append, List.append_assoc, List.cons_append,
        List.append_assoc, parseFieldsTail, skipSpace_cons (c := ',') (by decide)]
      simp only [hf, hfs, Option.bind_eq_bind, Option.bind_some]

end

/-- **The reader undoes the writer.** -/
theorem parse_write (v : Json) : parse (write v) = some v := by
  have h := parseValue_write v ((write v).length + 1) [] (by omega) rfl
  rw [List.append_nil] at h
  unfold parse
  rw [h]
  rfl

/-! ## Compact text stands on one line -/

theorem escapeChar_printable {c x : Char} (h : x ∈ escapeChar c) : 32 ≤ x.toNat := by
  have hhex : ∀ d, d < 16 → 32 ≤ (hexDigit d).toNat := by decide
  unfold escapeChar at h
  repeat' split at h
  case isFalse.isFalse.isFalse.isFalse.isFalse.isFalse.isFalse.isTrue hc =>
    simp only [List.mem_cons, List.not_mem_nil, or_false] at h
    rcases h with rfl | rfl | rfl | rfl | rfl | rfl
    any_goals decide
    · exact hhex _ (by omega)
    · exact hhex _ (by omega)
  case isFalse.isFalse.isFalse.isFalse.isFalse.isFalse.isFalse.isFalse hc =>
    rw [List.mem_singleton.mp h]
    omega
  all_goals
    simp only [List.mem_cons, List.not_mem_nil, or_false] at h
    rcases h with rfl | rfl <;> decide

theorem writeString_printable {s : String} {x : Char} (h : x ∈ writeString s) : 32 ≤ x.toNat := by
  simp only [writeString, List.mem_cons, List.mem_append, List.mem_flatMap, List.not_mem_nil,
    or_false] at h
  rcases h with rfl | ⟨c, -, hx⟩ | rfl
  · decide
  · exact escapeChar_printable hx
  · decide

theorem writeNumber_printable {n : Int} {x : Char} (h : x ∈ writeNumber n) : 32 ≤ x.toNat := by
  have hdigit : ∀ c ∈ decimal n.natAbs, 32 ≤ c.toNat := fun c hc => by
    have := decimal_isDigit hc
    rw [Char.isDigit, Bool.and_eq_true, decide_eq_true_eq, decide_eq_true_eq] at this
    exact le_trans (by decide : 32 ≤ (48 : UInt32).toNat) this.1
  unfold writeNumber at h
  split at h
  · rcases List.mem_cons.mp h with rfl | h
    · decide
    · exact hdigit x h
  · exact hdigit x h

mutual

/-- The compact text of a value holds no control character, so it stands on one line. -/
theorem write_printable : ∀ (v : Json) {x : Char}, x ∈ write v → 32 ≤ x.toNat
  | .null, x, h => by
      simp only [write, List.mem_cons, List.not_mem_nil, or_false] at h
      rcases h with rfl | rfl | rfl | rfl <;> decide
  | .bool true, x, h => by
      simp only [write, List.mem_cons, List.not_mem_nil, or_false] at h
      rcases h with rfl | rfl | rfl | rfl <;> decide
  | .bool false, x, h => by
      simp only [write, List.mem_cons, List.not_mem_nil, or_false] at h
      rcases h with rfl | rfl | rfl | rfl | rfl <;> decide
  | .num _, _, h => writeNumber_printable h
  | .str _, _, h => writeString_printable h
  | .arr xs, x, h => by
      rcases List.mem_cons.mp h with rfl | h
      · decide
      · exact writeItems_printable xs h
  | .obj fs, x, h => by
      rcases List.mem_cons.mp h with rfl | h
      · decide
      · exact writeFields_printable fs h

theorem writeItems_printable : ∀ (xs : List Json) {x : Char}, x ∈ writeItems xs → 32 ≤ x.toNat
  | [], x, h => by rw [List.mem_singleton.mp h]; decide
  | v :: xs, x, h => by
      rcases List.mem_append.mp h with h | h
      · exact write_printable v h
      · exact writeItemsTail_printable xs h

theorem writeItemsTail_printable : ∀ (xs : List Json) {x : Char}, x ∈ writeItemsTail xs →
    32 ≤ x.toNat
  | [], x, h => by rw [List.mem_singleton.mp h]; decide
  | v :: xs, x, h => by
      rcases List.mem_cons.mp h with rfl | h
      · decide
      rcases List.mem_append.mp h with h | h
      · exact write_printable v h
      · exact writeItemsTail_printable xs h

theorem writeFields_printable : ∀ (fs : List (String × Json)) {x : Char}, x ∈ writeFields fs →
    32 ≤ x.toNat
  | [], x, h => by rw [List.mem_singleton.mp h]; decide
  | (k, v) :: fs, x, h => by
      rcases List.mem_append.mp h with h | h
      · exact writeString_printable h
      rcases List.mem_cons.mp h with rfl | h
      · decide
      rcases List.mem_append.mp h with h | h
      · exact write_printable v h
      · exact writeFieldsTail_printable fs h

theorem writeFieldsTail_printable : ∀ (fs : List (String × Json)) {x : Char},
    x ∈ writeFieldsTail fs → 32 ≤ x.toNat
  | [], x, h => by rw [List.mem_singleton.mp h]; decide
  | (k, v) :: fs, x, h => by
      rcases List.mem_cons.mp h with rfl | h
      · decide
      rcases List.mem_append.mp h with h | h
      · exact writeString_printable h
      rcases List.mem_cons.mp h with rfl | h
      · decide
      rcases List.mem_append.mp h with h | h
      · exact write_printable v h
      · exact writeFieldsTail_printable fs h

end

/-! ## Objects spread over lines -/

/-- The fields of an object behind its first, each on a line of its own. -/
def writePrettyTail : List (String × Json) → List Char
  | [] => ['\n', '}']
  | (k, v) :: fs =>
      ',' :: '\n' :: ' ' :: ' ' :: (writeString k ++ ':' :: ' ' :: (write v ++ writePrettyTail fs))

/-- The pretty text of an object whose members hold neither objects nor arrays. -/
def writePretty : List (String × Json) → List Char
  | [] => ['{', '}']
  | (k, v) :: fs =>
      '{' :: '\n' :: ' ' :: ' ' :: (writeString k ++ ':' :: ' ' :: (write v ++ writePrettyTail fs))

theorem parseValue_space (n : Nat) (cs : List Char) :
    parseValue n (' ' :: cs) = parseValue n cs := by
  cases n with
  | zero => rfl
  | succ n => rw [parseValue, parseValue]; rfl

/-- A field reads back with a space behind its colon. -/
theorem parseField_pretty {k : String} {v : Json} {n : Nat} {r : List Char}
    (h : (writeString k).length + (write v).length < n)
    (hr : r.head?.any continuesNumber = false) :
    parseField n ('\n' :: ' ' :: ' ' :: (writeString k ++ ':' :: ' ' :: (write v ++ r)))
      = some ((k, v), r) := by
  obtain ⟨n, rfl⟩ : ∃ m, n = m + 1 := ⟨n - 1, by omega⟩
  have hlen := lt_writeString_length k
  have hv := parseValue_write v n r (by omega) hr
  have hk := parseStringBody_escaped k.toList n (':' :: ' ' :: (write v ++ r)) (by omega)
  have hskip : ∀ cs, skipSpace ('\n' :: ' ' :: ' ' :: '"' :: cs) = '"' :: cs := fun _ => rfl
  rw [writeString, List.cons_append, List.append_assoc, parseField, hskip]
  simp only [List.singleton_append, hk, Option.bind_eq_bind, Option.bind_some,
    skipSpace_cons (c := ':') (by decide), parseValue_space, hv, String.ofList_toList]

theorem writePrettyTail_head (fs : List (String × Json)) :
    (writePrettyTail fs).head?.any continuesNumber = false := by
  rcases fs with _ | ⟨⟨k, v⟩, fs⟩ <;> rfl

theorem parseFieldsTail_pretty : ∀ (fs : List (String × Json)) (n : Nat),
    (writePrettyTail fs).length ≤ n → parseFieldsTail n (writePrettyTail fs) = some (fs, [])
  | [], 0, h => absurd h (by simp [writePrettyTail])
  | [], _ + 1, _ => rfl
  | (k, v) :: fs, 0, h => absurd h (by simp [writePrettyTail])
  | (k, v) :: fs, n + 1, h => by
      simp only [writePrettyTail, List.length_cons, List.length_append] at h
      have hf := parseField_pretty (k := k) (v := v) (n := n) (by omega) (writePrettyTail_head fs)
      have hfs := parseFieldsTail_pretty fs n (by omega)
      rw [writePrettyTail, parseFieldsTail, skipSpace_cons (c := ',') (by decide)]
      simp only [hf, hfs, Option.bind_eq_bind, Option.bind_some]

/-- **The reader undoes the pretty writer.** -/
theorem parse_writePretty (fs : List (String × Json)) : parse (writePretty fs) = some (.obj fs) := by
  rcases fs with _ | ⟨⟨k, v⟩, fs⟩
  · rfl
  obtain ⟨n, hn⟩ : ∃ n, (writePretty ((k, v) :: fs)).length = n + 1 :=
    ⟨(writePretty ((k, v) :: fs)).length - 1, by rw [writePretty, List.length_cons]; omega⟩
  have hlen := hn
  simp only [writePretty, List.length_cons, List.length_append] at hlen
  have hf := parseField_pretty (k := k) (v := v) (n := n) (by omega) (writePrettyTail_head fs)
  have hfs := parseFieldsTail_pretty fs n (by omega)
  have hskip : ∀ cs, skipSpace ('\n' :: ' ' :: ' ' :: '"' :: cs) = '"' :: cs := fun _ => rfl
  have hfields : parseFields (n + 1) ('\n' :: ' ' :: ' ' :: (writeString k ++ ':' :: ' '
      :: (write v ++ writePrettyTail fs))) = some ((k, v) :: fs, []) := by
    have hskipped : skipSpace ('\n' :: ' ' :: ' ' :: (writeString k ++ ':' :: ' '
        :: (write v ++ writePrettyTail fs))) = writeString k ++ ':' :: ' '
        :: (write v ++ writePrettyTail fs) := by rw [writeString, List.cons_append, hskip]
    have hspace : parseField n (writeString k ++ ':' :: ' ' :: (write v ++ writePrettyTail fs))
        = some ((k, v), writePrettyTail fs) := by
      rw [← hf]
      cases n with
      | zero => rfl
      | succ n =>
          rw [parseField, parseField, hskipped, writeString, List.cons_append,
            skipSpace_cons (c := '"') (by decide)]
    rw [parseFields, hskipped]
    split
    · rename_i heq
      rw [writeString, List.cons_append] at heq
      injection heq with heq; exact absurd heq (by decide)
    · simp only [hspace, hfs, Option.bind_eq_bind, Option.bind_some]
  rw [parse, hn, writePretty]
  simp only [parseValue, skipSpace_cons (c := '{') (by decide), Char.reduceEq, ↓reduceIte, hfields,
    Option.map_some]
  rfl

/-- Two values with the same text are the same value. -/
theorem write_injective {v w : Json} (h : write v = write w) : v = w := by
  have := congrArg parse h
  rw [parse_write, parse_write] at this
  exact Option.some.inj this

end Json

end Lib
