import Agenomic.Ledger.CanonicalIdentity
import Agenomic.Prompt.Subset

/-!
# Two encoders, one canonical text

Prompts are digested over a canonical text that is written by an encoder of their own:
it pushes onto the text written so far, escapes strings by its own table, and looks the
members of an object up in the order of its sorted names. `writeValue` is that encoder
step by step, and it writes `canonicalChars` (`writeValue_eq`).

**`canonicalJson_agrees`**: over integers it writes what the ledger writes, so a prompt
digest and a payload hash speak of the same bytes.
-/

namespace Agenomic.Prompt

open Lib Value

/-! ## The encoder -/

/-- A number in lower-case hexadecimal, in at least so many digits. -/
def hexPadded (width n : Nat) : List Char :=
  let digits := Nat.toDigits 16 n
  List.replicate (width - digits.length) '0' ++ digits

/-- Push a character of a string. -/
def pushChar (out : List Char) (ch : Char) : List Char :=
  if ch = '"' then out ++ ['\\', '"']
  else if ch = '\\' then out ++ ['\\', '\\']
  else if ch = Char.ofNat 8 then out ++ ['\\', 'b']
  else if ch = '\t' then out ++ ['\\', 't']
  else if ch = '\n' then out ++ ['\\', 'n']
  else if ch = Char.ofNat 12 then out ++ ['\\', 'f']
  else if ch = '\r' then out ++ ['\\', 'r']
  else if ch.toNat < 32 then out ++ '\\' :: 'u' :: hexPadded 4 ch.toNat
  else out ++ [ch]

def writeString (text : String) (out : List Char) : List Char :=
  text.toList.foldl pushChar (out ++ ['"']) ++ ['"']

def writeNumber (number : Number) (out : List Char) : List Char := out ++ canonicalNumber number

/-- A comma in front of everything but the first. -/
def pushComma (index : Nat) (out : List Char) : List Char :=
  if 0 < index then out ++ [','] else out

/-- Write members in the order of some keys, each looked up among the writers of the members. -/
def writeKeys (writers : List (String × (List Char → List Char))) :
    Nat → List String → List Char → List Char
  | _, [], out => out
  | index, key :: keys, out =>
      let out := writeString key (pushComma index out) ++ [':']
      writeKeys writers (index + 1) keys (((lookup key writers).getD id) out)

mutual

def writeValue : Value → List Char → List Char
  | .null, out => out ++ "null".toList
  | .bool flag, out => out ++ (if flag then "true" else "false").toList
  | .number n, out => writeNumber n out
  | .string text, out => writeString text out
  | .array items, out => writeArray 0 items (out ++ ['[']) ++ [']']
  | .object map, out => writeKeys (memberWriters map) 0 (sortedKeys map) (out ++ ['{']) ++ ['}']

/-- Write the items of an array, counted from an index. -/
def writeArray : Nat → List Value → List Char → List Char
  | _, [], out => out
  | index, item :: items, out => writeArray (index + 1) items (writeValue item (pushComma index out))

/-- What writes each member of an object. -/
def memberWriters : Members → List (String × (List Char → List Char))
  | [] => []
  | (key, value) :: map => (key, writeValue value) :: memberWriters map

end

def canonicalJson (value : Value) : List Char := writeValue value []

/-! ## Strings -/

theorem hexPadded_control {n : Nat} (h : n < 32) :
    hexPadded 4 n = ['0', '0', hexDigit (n / 16), hexDigit (n % 16)] := by
  revert n
  decide

/-- The two tables escape every character alike. -/
theorem pushChar_eq (out : List Char) (ch : Char) : pushChar out ch = out ++ Json.escapeChar ch := by
  have h8 : ch = Char.ofNat 8 ↔ ch.toNat = 8 := Char.toNat_inj.symm
  have h9 : ch = '\t' ↔ ch.toNat = 9 := Char.toNat_inj.symm
  have h10 : ch = '\n' ↔ ch.toNat = 10 := Char.toNat_inj.symm
  have h12 : ch = Char.ofNat 12 ↔ ch.toNat = 12 := Char.toNat_inj.symm
  have h13 : ch = '\r' ↔ ch.toNat = 13 := Char.toNat_inj.symm
  unfold pushChar Json.escapeChar
  simp only [h8, h9, h10, h12, h13]
  by_cases hcontrol : ch.toNat < 32
  · rw [if_pos hcontrol, if_pos hcontrol, hexPadded_control hcontrol]
    repeat' split
    all_goals rfl
  · rw [if_neg hcontrol, if_neg hcontrol]
    repeat' split
    all_goals rfl

theorem writeString_eq (text : String) (out : List Char) :
    writeString text out = out ++ Json.writeString text := by
  have hfold : ∀ (cs out : List Char), cs.foldl pushChar out = out ++ cs.flatMap Json.escapeChar := by
    intro cs
    induction cs with
    | nil => exact fun out => (List.append_nil out).symm
    | cons c cs ih =>
        intro out
        rw [List.foldl_cons, ih, pushChar_eq, List.append_assoc, List.flatMap_cons]
  unfold writeString Json.writeString
  rw [hfold, List.append_assoc, List.append_assoc, List.singleton_append]

/-! ## Values -/

mutual

/-- The members of every object have different names. -/
def DistinctNames : Value → Prop
  | .array items => DistinctNamesItems items
  | .object members => (members.map Prod.fst).Nodup ∧ DistinctNamesMembers members
  | _ => True

def DistinctNamesItems : List Value → Prop
  | [] => True
  | x :: xs => DistinctNames x ∧ DistinctNamesItems xs

def DistinctNamesMembers : Members → Prop
  | [] => True
  | (_, v) :: ms => DistinctNames v ∧ DistinctNamesMembers ms

end

/-- A comma in front of each, unless it is the first. -/
theorem pushComma_flatMap (index : Nat) (out x : List Char) (xs : List (List Char)) :
    pushComma index out ++ x ++ xs.flatMap (fun y => ',' :: y)
      = out ++ if 0 < index then (x :: xs).flatMap fun y => ',' :: y
          else Ledger.joinComma (x :: xs) := by
  unfold pushComma
  by_cases hindex : 0 < index
  · rw [if_pos hindex, if_pos hindex, List.flatMap_cons]
    simp
  · rw [if_neg hindex, if_neg hindex, Ledger.joinComma, List.append_assoc]

/-- The pieces of an object are written in the order of the keys. -/
theorem writeKeys_eq {writers : List (String × (List Char → List Char))}
    {pieces : List (String × List Char)} : ∀ (index : Nat) (out : List Char),
    (∀ p ∈ pieces, ∀ out, ((lookup p.1 writers).getD id) out = out ++ p.2) →
      writeKeys writers index (pieces.map Prod.fst) out
        = out ++ if 0 < index then
            (pieces.map fun p => Json.writeString p.1 ++ ':' :: p.2).flatMap fun y => ',' :: y
          else Ledger.joinComma (pieces.map fun p => Json.writeString p.1 ++ ':' :: p.2) := by
  induction pieces with
  | nil =>
      intro index out _
      rw [List.map_nil, List.map_nil, writeKeys, List.flatMap_nil, Ledger.joinComma, ite_self,
        List.append_nil]
  | cons p pieces ih =>
      intro index out hpieces
      obtain ⟨hp, hrest⟩ := List.forall_mem_cons.mp hpieces
      rw [List.map_cons, writeKeys, ih (index + 1) _ hrest, if_pos (Nat.succ_pos index), hp,
        writeString_eq, List.map_cons, ← pushComma_flatMap]
      simp

theorem lookup_memberWriters (key : String) (map : Members) :
    lookup key (memberWriters map) = (lookup key map).map writeValue := by
  induction map with
  | nil => rfl
  | cons m map ih =>
      obtain ⟨k, v⟩ := m
      rw [memberWriters, lookup, lookup, ih]
      by_cases hk : k = key
      · rw [if_pos hk, if_pos hk]
        rfl
      · rw [if_neg hk, if_neg hk]

theorem canonicalMembers_map (map : Members) :
    canonicalMembers map = map.map fun m => (m.1, canonicalChars m.2) := by
  induction map with
  | nil => rfl
  | cons m map ih => rw [canonicalMembers, ih, List.map_cons]

theorem sortByName_map {α β : Type} (f : String → α → β) (ms : List (String × α)) :
    sortByName (ms.map fun m => (m.1, f m.1 m.2)) = (sortByName ms).map fun m => (m.1, f m.1 m.2) := by
  let f' : String × α → String × β := fun m => (m.1, f m.1 m.2)
  exact (List.map_insertionSort (fun a b : String × α => Ledger.utf16Le a.1 b.1 = true)
    (fun a b : String × β => Ledger.utf16Le a.1 b.1 = true) f' ms fun _ _ _ _ => Iff.rfl).symm

mutual

/-- **The encoder writes the canonical text** behind what is written already. -/
theorem writeValue_eq : ∀ (v : Value) (out : List Char), DistinctNames v →
    writeValue v out = out ++ canonicalChars v
  | .null, _, _ => rfl
  | .bool true, _, _ => rfl
  | .bool false, _, _ => rfl
  | .number _, _, _ => rfl
  | .string text, out, _ => writeString_eq text out
  | .array items, out, h => by
      rw [writeValue, writeArray_eq items 0 _ h, canonicalChars, if_neg (Nat.lt_irrefl 0)]
      simp
  | .object map, out, h => by
      have hpieces : ∀ p ∈ sortByName (canonicalMembers map), ∀ out,
          ((lookup p.1 (memberWriters map)).getD id) out = out ++ p.2 := by
        intro p hp out
        rw [mem_sortByName, canonicalMembers_map] at hp
        obtain ⟨m, hm, rfl⟩ := List.mem_map.mp hp
        rw [lookup_memberWriters, lookup_of_mem h.1 hm]
        exact writeMember_eq map h.2 m hm out
      have hkeys : sortedKeys map = (sortByName (canonicalMembers map)).map Prod.fst := by
        rw [canonicalMembers_map, sortByName_map fun _ => canonicalChars, List.map_map]
        rfl
      rw [writeValue, hkeys, writeKeys_eq 0 _ hpieces, canonicalChars, if_neg (Nat.lt_irrefl 0)]
      simp

theorem writeArray_eq : ∀ (items : List Value) (index : Nat) (out : List Char),
    DistinctNamesItems items → writeArray index items out
      = out ++ if 0 < index then (canonicalItems items).flatMap fun y => ',' :: y
        else Ledger.joinComma (canonicalItems items)
  | [], index, out, _ => by
      rw [writeArray, canonicalItems, List.flatMap_nil, Ledger.joinComma, ite_self, List.append_nil]
  | item :: items, index, out, h => by
      rw [writeArray, writeValue_eq item _ h.1, writeArray_eq items (index + 1) _ h.2,
        if_pos (Nat.succ_pos index), canonicalItems, ← pushComma_flatMap]

theorem writeMember_eq : ∀ (map : Members), DistinctNamesMembers map → ∀ m ∈ map,
    ∀ out, writeValue m.2 out = out ++ canonicalChars m.2
  | [], _, _, hm, _ => absurd hm List.not_mem_nil
  | (_, v) :: map, h, m, hm, out => by
      rcases List.mem_cons.mp hm with rfl | hm
      · exact writeValue_eq v out h.1
      · exact writeMember_eq map h.2 m hm out

end

/-! ## The ledger's values -/

mutual

/-- A value of the ledger as a document. -/
def ofJson : Json → Value
  | .null => .null
  | .bool b => .bool b
  | .num n => .number (.int n)
  | .str s => .string s
  | .arr items => .array (ofJsonItems items)
  | .obj fields => .object (ofJsonFields fields)

def ofJsonItems : List Json → List Value
  | [] => []
  | x :: xs => ofJson x :: ofJsonItems xs

def ofJsonFields : List (String × Json) → Members
  | [] => []
  | (k, v) :: fs => (k, ofJson v) :: ofJsonFields fs

end

theorem names_ofJsonFields (fs : List (String × Json)) :
    (ofJsonFields fs).map Prod.fst = Json.keys fs := by
  induction fs with
  | nil => rfl
  | cons f fs ih => exact congrArg (f.1 :: ·) ih

mutual

theorem distinctNames_ofJson : ∀ v : Json, Ledger.Distinct v → DistinctNames (ofJson v)
  | .null, _ => trivial
  | .bool _, _ => trivial
  | .num _, _ => trivial
  | .str _, _ => trivial
  | .arr xs, h => distinctNamesItems_ofJson xs h
  | .obj fs, h => by
      rw [ofJson, DistinctNames, names_ofJsonFields]
      exact ⟨h.1, distinctNamesMembers_ofJson fs h.2⟩

theorem distinctNamesItems_ofJson : ∀ xs : List Json, Ledger.DistinctItems xs →
    DistinctNamesItems (ofJsonItems xs)
  | [], _ => trivial
  | x :: xs, h => ⟨distinctNames_ofJson x h.1, distinctNamesItems_ofJson xs h.2⟩

theorem distinctNamesMembers_ofJson : ∀ fs : List (String × Json), Ledger.DistinctFields fs →
    DistinctNamesMembers (ofJsonFields fs)
  | [], _ => trivial
  | (_, v) :: fs, h => ⟨distinctNames_ofJson v h.1, distinctNamesMembers_ofJson fs h.2⟩

end

theorem names_writeCanonicalFields (fs : List (String × Json)) :
    (Ledger.writeCanonicalFields fs).map Prod.fst = Json.keys fs := by
  induction fs with
  | nil => rfl
  | cons f fs ih => exact congrArg (f.1 :: ·) ih

/-- The two ways to sort pieces agree, when their names are different. -/
theorem sortByName_eq_sortPieces {pieces : List (String × List Char)}
    (h : (pieces.map Prod.fst).Nodup) : sortByName pieces = Ledger.sortPieces pieces := by
  have hmerge := List.mergeSort_perm pieces fun a b => Ledger.utf16Le a.1 b.1
  have hinsertion : (sortByName pieces).Pairwise fun a b => Ledger.utf16Le a.1 b.1 = true := by
    have : Std.Total fun a b : String × List Char => Ledger.utf16Le a.1 b.1 = true :=
      ⟨fun a b => Bool.or_eq_true_iff.mp (Ledger.utf16Le_total a.1 b.1)⟩
    have : IsTrans (String × List Char) fun a b => Ledger.utf16Le a.1 b.1 = true :=
      ⟨fun a b d => Ledger.utf16Le_trans a.1 b.1 d.1⟩
    exact List.pairwise_insertionSort _ pieces
  refine Ledger.eq_of_perm_sorted ?_ ((sortByName_perm pieces).trans hmerge.symm) hinsertion
    (Ledger.pairwise_mergeSort_names pieces)
  exact ((sortByName_perm pieces).map Prod.fst).nodup_iff.mpr h

mutual

/-- Values are written alike. -/
theorem canonicalChars_ofJson : ∀ v : Json, Ledger.Distinct v →
    canonicalChars (ofJson v) = Ledger.writeCanonical v
  | .null, _ => rfl
  | .bool true, _ => rfl
  | .bool false, _ => rfl
  | .num _, _ => rfl
  | .str _, _ => rfl
  | .arr xs, h => by
      rw [ofJson, canonicalChars, Ledger.writeCanonical, canonicalItems_ofJson xs h]
  | .obj fs, h => by
      rw [ofJson, canonicalChars, Ledger.writeCanonical, canonicalMembers_ofJson fs h.2,
        sortByName_eq_sortPieces]
      rw [names_writeCanonicalFields]
      exact h.1

theorem canonicalItems_ofJson : ∀ xs : List Json, Ledger.DistinctItems xs →
    canonicalItems (ofJsonItems xs) = Ledger.writeCanonicalItems xs
  | [], _ => rfl
  | x :: xs, h => by
      rw [ofJsonItems, canonicalItems, Ledger.writeCanonicalItems, canonicalChars_ofJson x h.1,
        canonicalItems_ofJson xs h.2]

theorem canonicalMembers_ofJson : ∀ fs : List (String × Json), Ledger.DistinctFields fs →
    canonicalMembers (ofJsonFields fs) = Ledger.writeCanonicalFields fs
  | [], _ => rfl
  | (k, v) :: fs, h => by
      rw [ofJsonFields, canonicalMembers, Ledger.writeCanonicalFields, canonicalChars_ofJson v h.1,
        canonicalMembers_ofJson fs h.2]

end

/-- **The two canonical encoders agree**: over integers, prompts are written as the ledger writes
them, character by character. -/
theorem canonicalJson_agrees (v : Ledger.JsonValue) :
    canonicalJson (ofJson v.1) = Ledger.canonicalJson v.1 := by
  unfold canonicalJson Ledger.canonicalJson
  rw [writeValue_eq _ _ (distinctNames_ofJson v.1 v.2), List.nil_append,
    canonicalChars_ofJson v.1 v.2]

end Agenomic.Prompt
