import Agenomic.Lib.JsonObject

/-!
# JSON spread over lines

The pretty writer puts every item and every field on a line of its own, two columns
deeper than what holds it; an empty array or object stays on one line. The reader
takes the white space for what it is: **`parse_pretty`**.

`listOf` reads an array of records back, each by its own reader.
-/

namespace Lib

namespace Json

/-- A line feed, and the white space in front of what stands so deep. -/
def newline (depth : Nat) : List Char := '\n' :: List.replicate depth ' '

mutual

/-- The text of a value whose line starts at a depth. -/
def prettyAt (depth : Nat) : Json → List Char
  | .null => ['n', 'u', 'l', 'l']
  | .bool true => ['t', 'r', 'u', 'e']
  | .bool false => ['f', 'a', 'l', 's', 'e']
  | .num n => writeNumber n
  | .str s => writeString s
  | .arr [] => ['[', ']']
  | .arr (x :: xs) =>
      '[' :: (newline (depth + 2) ++ (prettyAt (depth + 2) x ++ prettyItems depth xs))
  | .obj [] => ['{', '}']
  | .obj ((k, v) :: fs) =>
      '{' :: (newline (depth + 2) ++ (writeString k ++ ':' :: ' '
        :: (prettyAt (depth + 2) v ++ prettyFields depth fs)))

/-- The items of an array behind its first, and its end. -/
def prettyItems (depth : Nat) : List Json → List Char
  | [] => newline depth ++ [']']
  | x :: xs => ',' :: (newline (depth + 2) ++ (prettyAt (depth + 2) x ++ prettyItems depth xs))

/-- The fields of an object behind its first, and its end. -/
def prettyFields (depth : Nat) : List (String × Json) → List Char
  | [] => newline depth ++ ['}']
  | (k, v) :: fs =>
      ',' :: (newline (depth + 2) ++ (writeString k ++ ':' :: ' '
        :: (prettyAt (depth + 2) v ++ prettyFields depth fs)))

end

/-- The pretty text of a value. -/
def pretty (v : Json) : List Char := prettyAt 0 v

/-! ## White space is skipped -/

theorem skipSpace_newline (depth : Nat) (cs : List Char) :
    skipSpace (newline depth ++ cs) = skipSpace cs := by
  have hblank : ∀ k, skipSpace (List.replicate k ' ' ++ cs) = skipSpace cs := by
    intro k
    induction k with
    | zero => rfl
    | succ k ih => rw [List.replicate_succ, List.cons_append, skipSpace, if_pos (.inl rfl), ih]
  rw [newline, List.cons_append, skipSpace, if_pos (.inr (.inl rfl)), hblank]

theorem parseValue_newline (n depth : Nat) (cs : List Char) :
    parseValue n (newline depth ++ cs) = parseValue n cs := by
  cases n with
  | zero => rfl
  | succ n => rw [parseValue, parseValue, skipSpace_newline]

theorem parseField_newline (n depth : Nat) (cs : List Char) :
    parseField n (newline depth ++ cs) = parseField n cs := by
  cases n with
  | zero => rfl
  | succ n => rw [parseField, parseField, skipSpace_newline]

/-- The text of a value starts with a token that is no white space and closes nothing. -/
theorem prettyAt_head (depth : Nat) (v : Json) : ∃ c cs, prettyAt depth v = c :: cs
    ∧ (∀ r, skipSpace (c :: r) = c :: r) ∧ c ≠ ']' := by
  match v with
  | .null => exact ⟨'n', _, rfl, fun r => rfl, by decide⟩
  | .bool true => exact ⟨'t', _, rfl, fun r => rfl, by decide⟩
  | .bool false => exact ⟨'f', _, rfl, fun r => rfl, by decide⟩
  | .num n =>
      obtain ⟨c, cs, hc, hskip, hne, -⟩ := write_head (.num n)
      exact ⟨c, cs, by rw [prettyAt, ← hc, write], hskip, hne⟩
  | .str s => exact ⟨'"', _, rfl, fun r => rfl, by decide⟩
  | .arr [] => exact ⟨'[', _, rfl, fun r => rfl, by decide⟩
  | .arr (x :: xs) => exact ⟨'[', _, by rw [prettyAt], fun r => rfl, by decide⟩
  | .obj [] => exact ⟨'{', _, rfl, fun r => rfl, by decide⟩
  | .obj ((k, v) :: fs) => exact ⟨'{', _, by rw [prettyAt], fun r => rfl, by decide⟩

theorem prettyItems_head (depth : Nat) (xs : List Json) (r : List Char) :
    (prettyItems depth xs ++ r).head?.any continuesNumber = false := by
  cases xs <;> rw [prettyItems] <;> rfl

theorem prettyFields_head (depth : Nat) (fs : List (String × Json)) (r : List Char) :
    (prettyFields depth fs ++ r).head?.any continuesNumber = false := by
  rcases fs with _ | ⟨⟨k, v⟩, fs⟩ <;> rw [prettyFields] <;> rfl

/-! ## Values read back -/

/-- A scalar has the same text in both forms. -/
theorem prettyAt_scalar {depth n : Nat} {v : Json} {r : List Char} (h : prettyAt depth v = write v)
    (hn : (prettyAt depth v).length ≤ n) (hr : r.head?.any continuesNumber = false) :
    parseValue n (prettyAt depth v ++ r) = some (v, r) := by
  rw [h] at hn ⊢
  exact parseValue_write v n r hn hr

mutual

theorem parseValue_pretty : ∀ (v : Json) (depth n : Nat) (r : List Char),
    (prettyAt depth v).length ≤ n → r.head?.any continuesNumber = false →
    parseValue n (prettyAt depth v ++ r) = some (v, r)
  | .null, _, _, _, h, hr => prettyAt_scalar rfl h hr
  | .bool true, _, _, _, h, hr => prettyAt_scalar rfl h hr
  | .bool false, _, _, _, h, hr => prettyAt_scalar rfl h hr
  | .num _, _, _, _, h, hr => prettyAt_scalar (by rw [prettyAt, write]) h hr
  | .str _, _, _, _, h, hr => prettyAt_scalar (by rw [prettyAt, write]) h hr
  | .arr [], _, _, _, h, hr => prettyAt_scalar rfl h hr
  | .obj [], _, _, _, h, hr => prettyAt_scalar rfl h hr
  | .arr (x :: xs), depth, n, r, h, _ => by
      rw [prettyAt, List.length_cons, List.length_append, List.length_append] at h
      obtain ⟨n, rfl⟩ : ∃ m, n = m + 2 := by
        obtain ⟨c, cs, hc, -⟩ := prettyAt_head (depth + 2) x
        rw [hc, List.length_cons] at h
        exact ⟨n - 2, by omega⟩
      have hnl : 0 < (newline (depth + 2)).length := Nat.succ_pos _
      have hx := parseValue_pretty x (depth + 2) n (prettyItems depth xs ++ r) (by omega)
        (prettyItems_head depth xs r)
      have hxs := parseItemsTail_pretty xs depth n r (by omega)
      obtain ⟨c, cs, hc, hskip, hne⟩ := prettyAt_head (depth + 2) x
      have hitems : parseItems (n + 1) (newline (depth + 2) ++ (prettyAt (depth + 2) x
          ++ (prettyItems depth xs ++ r))) = some (x :: xs, r) := by
        rw [parseItems, skipSpace_newline]
        rw [hc, List.cons_append] at hx ⊢
        rw [hskip]
        split
        · rename_i heq; injection heq with heq; exact absurd heq hne
        · simp only [hx, hxs, Option.bind_eq_bind, Option.bind_some]
      rw [prettyAt, List.cons_append, List.append_assoc, List.append_assoc, parseValue]
      simp only [skipSpace_cons (c := '[') (by decide), Char.reduceEq, ↓reduceIte, hitems,
        Option.map_some]
  | .obj ((k, v) :: fs), depth, n, r, h, _ => by
      rw [prettyAt, List.length_cons, List.length_append, List.length_append, List.length_cons,
        List.length_cons, List.length_append] at h
      have hk := lt_writeString_length k
      have hnl : 0 < (newline (depth + 2)).length := Nat.succ_pos _
      obtain ⟨n, rfl⟩ : ∃ m, n = m + 2 := ⟨n - 2, by omega⟩
      have hf := parseField_prettyAt k v (depth + 2) n (prettyFields depth fs ++ r) (by omega)
        (prettyFields_head depth fs r)
      have hfs := parseFieldsTail_prettyAt fs depth n r (by omega)
      have hfields : parseFields (n + 1) (newline (depth + 2) ++ (writeString k ++ ':' :: ' '
          :: (prettyAt (depth + 2) v ++ (prettyFields depth fs ++ r))))
          = some ((k, v) :: fs, r) := by
        rw [parseFields, skipSpace_newline]
        rw [writeString, List.cons_append] at hf ⊢
        rw [skipSpace_cons (c := '"') (by decide)]
        split
        · rename_i heq; injection heq with heq; exact absurd heq (by decide)
        · simp only [hf, hfs, Option.bind_eq_bind, Option.bind_some]
      rw [prettyAt, List.cons_append, List.append_assoc, List.append_assoc, List.cons_append,
        List.cons_append, List.append_assoc, parseValue]
      simp only [skipSpace_cons (c := '{') (by decide), Char.reduceEq, ↓reduceIte, hfields,
        Option.map_some]

theorem parseItemsTail_pretty : ∀ (xs : List Json) (depth n : Nat) (r : List Char),
    (prettyItems depth xs).length ≤ n → parseItemsTail n (prettyItems depth xs ++ r) = some (xs, r)
  | [], depth, n, r, h => by
      rw [prettyItems, List.length_append, List.length_singleton] at h
      obtain ⟨n, rfl⟩ : ∃ m, n = m + 1 := ⟨n - 1, by omega⟩
      rw [prettyItems, List.append_assoc, parseItemsTail, skipSpace_newline, List.singleton_append,
        skipSpace_cons (c := ']') (by decide)]
      rfl
  | x :: xs, depth, n, r, h => by
      rw [prettyItems, List.length_cons, List.length_append, List.length_append] at h
      obtain ⟨n, rfl⟩ : ∃ m, n = m + 1 := ⟨n - 1, by omega⟩
      have hx := parseValue_pretty x (depth + 2) n (prettyItems depth xs ++ r) (by omega)
        (prettyItems_head depth xs r)
      have hxs := parseItemsTail_pretty xs depth n r (by omega)
      rw [prettyItems, List.cons_append, List.append_assoc, List.append_assoc, parseItemsTail,
        skipSpace_cons (c := ',') (by decide)]
      simp only [parseValue_newline, hx, hxs, Option.bind_eq_bind, Option.bind_some]

theorem parseField_prettyAt : ∀ (k : String) (v : Json) (depth n : Nat) (r : List Char),
    (writeString k).length + (prettyAt depth v).length < n →
    r.head?.any continuesNumber = false →
    parseField n (writeString k ++ ':' :: ' ' :: (prettyAt depth v ++ r)) = some ((k, v), r)
  | k, v, depth, n, r, h, hr => by
      obtain ⟨n, rfl⟩ : ∃ m, n = m + 1 := ⟨n - 1, by omega⟩
      have hlen := lt_writeString_length k
      have hv := parseValue_pretty v depth n r (by omega) hr
      have hk := parseStringBody_escaped k.toList n (':' :: ' ' :: (prettyAt depth v ++ r))
        (by omega)
      rw [writeString, List.cons_append, List.append_assoc, parseField,
        skipSpace_cons (c := '"') (by decide)]
      simp only [List.singleton_append, hk, Option.bind_eq_bind, Option.bind_some,
        skipSpace_cons (c := ':') (by decide), parseValue_space, hv, String.ofList_toList]

theorem parseFieldsTail_prettyAt : ∀ (fs : List (String × Json)) (depth n : Nat) (r : List Char),
    (prettyFields depth fs).length ≤ n →
    parseFieldsTail n (prettyFields depth fs ++ r) = some (fs, r)
  | [], depth, n, r, h => by
      rw [prettyFields, List.length_append, List.length_singleton] at h
      obtain ⟨n, rfl⟩ : ∃ m, n = m + 1 := ⟨n - 1, by omega⟩
      rw [prettyFields, List.append_assoc, parseFieldsTail, skipSpace_newline,
        List.singleton_append, skipSpace_cons (c := '}') (by decide)]
      rfl
  | (k, v) :: fs, depth, n, r, h => by
      rw [prettyFields, List.length_cons, List.length_append, List.length_append, List.length_cons,
        List.length_cons, List.length_append] at h
      obtain ⟨n, rfl⟩ : ∃ m, n = m + 1 := ⟨n - 1, by omega⟩
      have hf := parseField_prettyAt k v (depth + 2) n (prettyFields depth fs ++ r) (by omega)
        (prettyFields_head depth fs r)
      have hfs := parseFieldsTail_prettyAt fs depth n r (by omega)
      rw [prettyFields, List.cons_append, List.append_assoc, List.append_assoc, List.cons_append,
        List.cons_append, List.append_assoc, parseFieldsTail, skipSpace_cons (c := ',') (by decide)]
      simp only [parseField_newline, hf, hfs, Option.bind_eq_bind, Option.bind_some]

end

/-- **The reader undoes the pretty writer.** -/
theorem parse_pretty (v : Json) : parse (pretty v) = some v := by
  have h := parseValue_pretty v 0 ((pretty v).length + 1) [] (Nat.le_succ _) rfl
  rw [List.append_nil] at h
  rw [parse, pretty]
  rw [pretty] at h
  rw [h]
  rfl

/-! ## Arrays of records -/

variable {α : Type}

/-- The items of an array. -/
def items : Json → Option (List Json)
  | .arr xs => some xs
  | _ => none

/-- An array read item by item. -/
def listOf (ofValue : Json → Option α) (v : Json) : Option (List α) := do
  let xs ← items v
  xs.mapM ofValue

theorem listOf_map {ofValue : Json → Option α} {toValue : α → Json}
    (h : ∀ a, ofValue (toValue a) = some a) (as : List α) :
    listOf ofValue (.arr (as.map toValue)) = some as := by
  rw [listOf, items]
  show (as.map toValue).mapM ofValue = some as
  induction as with
  | nil => rfl
  | cons a as ih =>
      rw [List.map_cons, List.mapM_cons, h, ih]
      rfl

/-- An array that must be there. -/
def getList (k : String) (ofValue : Json → Option α) (fs : Fields) : Option (List α) := do
  let v ← lookup k fs
  listOf ofValue v

theorem getList_of_lookup {k : String} {ofValue : Json → Option α} {toValue : α → Json}
    {as : List α} {fs : Fields} (h : ∀ a, ofValue (toValue a) = some a)
    (hl : lookup k fs = some (.arr (as.map toValue))) : getList k ofValue fs = some as := by
  rw [getList, hl]
  exact listOf_map h as

/-- A text as a value of its own. -/
def asStr : Json → Option String
  | .str s => some s
  | _ => none

end Json

end Lib
