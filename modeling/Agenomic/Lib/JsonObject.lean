import Agenomic.Lib.Json
import Agenomic.Lib.Lines

/-!
# JSON objects as records

A record becomes an object with one field per member, some of them left out when
they are absent; a reader looks the members up by name. As long as the names are
distinct, looking a name up does not depend on the order of the fields
(`lookup_perm`), which is what lets a canonical encoding sort them. A record whose
members are read back by name can stand on a line of a log (`lineFormat`).
-/

namespace Lib

namespace Json

/-- The fields of an object, in the order they stand. -/
abbrev Fields := List (String × Json)

/-- The value of the first field with a name. -/
def lookup (k : String) : Fields → Option Json
  | [] => none
  | (k', v) :: fs => if k' = k then some v else lookup k fs

/-- A field that is left out when its value is absent. -/
def optField (k : String) : Option Json → Fields
  | none => []
  | some v => [(k, v)]

/-- The names of the fields. -/
def keys (fs : Fields) : List String := fs.map Prod.fst

/-- No known name stands twice. -/
def distinctKeys (known : List String) (fs : Fields) : Bool :=
  known.all fun k => (keys fs).count k ≤ 1

/-- The members of an object in which no known name stands twice. -/
def members (known : List String) : Json → Option Fields
  | .obj fs => if distinctKeys known fs then some fs else none
  | _ => none

@[simp] theorem lookup_nil (k : String) : lookup k [] = none := rfl

@[simp] theorem lookup_cons (k k' : String) (v : Json) (fs : Fields) :
    lookup k ((k', v) :: fs) = if k' = k then some v else lookup k fs := rfl

@[simp] theorem lookup_append (k : String) (fs gs : Fields) :
    lookup k (fs ++ gs) = (lookup k fs).or (lookup k gs) := by
  induction fs with
  | nil => rfl
  | cons f fs ih =>
      obtain ⟨k', v⟩ := f
      simp only [List.cons_append, lookup_cons]
      split
      · rfl
      · exact ih

@[simp] theorem lookup_optField (k k' : String) (o : Option Json) :
    lookup k (optField k' o) = if k' = k then o else none := by
  cases o <;> simp [optField]

/-- Dropping other names changes nothing for a name that is kept. -/
theorem lookup_filter {k : String} {p : String → Bool} (hk : p k = true) (fs : Fields) :
    lookup k (fs.filter fun f => p f.1) = lookup k fs := by
  induction fs with
  | nil => rfl
  | cons f fs ih =>
      obtain ⟨k', v⟩ := f
      rw [List.filter_cons]
      dsimp only
      cases hp : p k' with
      | true => rw [if_pos rfl, lookup_cons, lookup_cons, ih]
      | false =>
          have hne : k' ≠ k := by rintro rfl; rw [hk] at hp; cases hp
          rw [if_neg Bool.false_ne_true, lookup_cons, if_neg hne, ih]

theorem keys_optField_sublist (k : String) (o : Option Json) :
    (keys (optField k o)).Sublist [k] := by
  cases o
  · exact List.nil_sublist _
  · exact List.Sublist.refl _

@[simp] theorem keys_append (fs gs : Fields) : keys (fs ++ gs) = keys fs ++ keys gs := by
  simp [keys]

@[simp] theorem keys_cons (f : String × Json) (fs : Fields) :
    keys (f :: fs) = f.1 :: keys fs := rfl

@[simp] theorem keys_nil : keys [] = [] := rfl

/-- A name is found exactly where it stands. -/
theorem lookup_eq_some_iff {k : String} {v : Json} : ∀ {fs : Fields}, (keys fs).Nodup →
    (lookup k fs = some v ↔ (k, v) ∈ fs)
  | [], _ => by simp
  | (k', v') :: fs, hnd => by
      rw [keys_cons, List.nodup_cons] at hnd
      rw [lookup_cons, List.mem_cons]
      split
      · rename_i h
        subst h
        constructor
        · intro hv; cases hv; exact Or.inl rfl
        · rintro (hv | hv)
          · cases hv; rfl
          · exact absurd (List.mem_map.mpr ⟨_, hv, rfl⟩) hnd.1
      · rename_i h
        rw [lookup_eq_some_iff hnd.2]
        constructor
        · exact Or.inr
        · rintro (hv | hv)
          · cases hv; exact absurd rfl h
          · exact hv

/-- **Distinct names are found wherever their fields stand.** -/
theorem lookup_perm {fs gs : Fields} (h : fs.Perm gs) (hnd : (keys fs).Nodup) (k : String) :
    lookup k fs = lookup k gs := by
  have hnd' : (keys gs).Nodup := (h.map Prod.fst).nodup_iff.mp hnd
  cases hf : lookup k fs with
  | some v =>
      rw [lookup_eq_some_iff hnd] at hf
      exact ((lookup_eq_some_iff hnd').mpr (h.mem_iff.mp hf)).symm
  | none =>
      cases hg : lookup k gs with
      | none => rfl
      | some v =>
          rw [lookup_eq_some_iff hnd'] at hg
          rw [(lookup_eq_some_iff hnd).mpr (h.mem_iff.mpr hg)] at hf
          cases hf

/-! ## Typed members -/

/-- A text that may be absent: a missing field and a null both mean it is. -/
def getOptStr (k : String) (fs : Fields) : Option (Option String) :=
  match lookup k fs with
  | none => some none
  | some .null => some none
  | some (.str s) => some (some s)
  | some _ => none

/-- A text that must be there. -/
def getStr (k : String) (fs : Fields) : Option String :=
  match lookup k fs with
  | some (.str s) => some s
  | _ => none

/-- An unsigned number that may be absent. -/
def getOptNat (k : String) (fs : Fields) : Option (Option Nat) :=
  match lookup k fs with
  | none => some none
  | some .null => some none
  | some (.num n) => if 0 ≤ n then some (some n.toNat) else none
  | some _ => none

/-- An unsigned number that must be there. -/
def getNat (k : String) (fs : Fields) : Option Nat :=
  match lookup k fs with
  | some (.num n) => if 0 ≤ n then some n.toNat else none
  | _ => none

/-- The value of a text that may be absent. -/
def ofOptStr (o : Option String) : Option Json := o.map .str

/-- The value of a number that may be absent. -/
def ofOptNat (o : Option Nat) : Option Json := o.map fun n => .num n

/-- An absent value written out as null. -/
def orNull (o : Option Json) : Json := o.getD .null

theorem getStr_of_lookup {k s : String} {fs : Fields} (h : lookup k fs = some (.str s)) :
    getStr k fs = some s := by
  rw [getStr, h]

theorem getNat_of_lookup {k : String} {n : Nat} {fs : Fields} (h : lookup k fs = some (.num n)) :
    getNat k fs = some n := by
  rw [getNat, h]
  simp

theorem getOptStr_of_lookup {k : String} {o : Option String} {fs : Fields}
    (h : lookup k fs = ofOptStr o) : getOptStr k fs = some o := by
  rw [getOptStr, h]
  cases o <;> rfl

theorem getOptNat_of_lookup {k : String} {o : Option Nat} {fs : Fields}
    (h : lookup k fs = ofOptNat o) : getOptNat k fs = some o := by
  rw [getOptNat, h]
  cases o <;> simp [ofOptNat]

theorem getOptStr_of_lookup_null {k : String} {o : Option String} {fs : Fields}
    (h : lookup k fs = some (orNull (ofOptStr o))) : getOptStr k fs = some o := by
  rw [getOptStr, h]
  cases o <;> rfl

theorem getOptNat_of_lookup_null {k : String} {o : Option Nat} {fs : Fields}
    (h : lookup k fs = some (orNull (ofOptNat o))) : getOptNat k fs = some o := by
  rw [getOptNat, h]
  cases o <;> simp [ofOptNat, orNull]

/-- Names that stand in a duplicate-free order stand at most once. -/
theorem distinctKeys_of_nodup {known : List String} {fs : Fields} (h : (keys fs).Nodup) :
    distinctKeys known fs = true := by
  rw [distinctKeys, List.all_eq_true]
  intro k _
  exact decide_eq_true (List.nodup_iff_count_le_one.mp h k)

theorem members_obj {known : List String} {fs : Fields} (h : (keys fs).Nodup) :
    members known (.obj fs) = some fs := by
  rw [members, if_pos (distinctKeys_of_nodup h)]

/-! ## Records on lines -/

variable {α : Type}

/-- A record read back from the text of its object. -/
def parseRecord (known : List String) (ofFields : Fields → Option α) (text : List Char) :
    Option α := do
  let fs ← members known (← parse text)
  ofFields fs

/-- Records written as compact objects, one on a line. -/
def lineFormat (toFields : α → Fields) (known : List String) (ofFields : Fields → Option α)
    (hkeys : ∀ a, (keys (toFields a)).Nodup) (hback : ∀ a, ofFields (toFields a) = some a) :
    LineFormat α where
  write a := (obj (toFields a)).write
  parse := parseRecord known ofFields
  parse_write a := by
    simp only [parseRecord, parse_write, Option.bind_eq_bind, Option.bind_some,
      members_obj (hkeys a), hback]
  noBreak a c hc := by
    have := write_printable _ hc
    constructor <;> (rintro rfl; revert this; decide)
  notBlank a := by
    rw [write]
    rfl

end Json

end Lib
