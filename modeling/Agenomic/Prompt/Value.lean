import Agenomic.Ledger.Canonical

/-!
# JSON documents

A document is a tree whose numbers are integers or doubles; a double is known here by
its exact value and by the text it is printed as. Objects keep their members sorted by
name. Two values are the same (`same`) when they differ at most in how their doubles
are printed, as the two zeros do.
-/

namespace Agenomic.Prompt

open Lib

inductive Number where
  | int (n : Int)
  | float (value : ℚ) (text : String)
  deriving DecidableEq, Repr

inductive Value where
  | null
  | bool (b : Bool)
  | number (n : Number)
  | string (s : String)
  | array (items : List Value)
  | object (members : List (String × Value))
  deriving Inhabited

/-- The members of an object. -/
abbrev Members := List (String × Value)

namespace Value

/-! ## Equality -/

mutual

def beq : Value → Value → Bool
  | .null, .null => true
  | .bool b, .bool c => b == c
  | .number n, .number m => n == m
  | .string s, .string t => s == t
  | .array xs, .array ys => beqItems xs ys
  | .object fs, .object gs => beqMembers fs gs
  | _, _ => false

def beqItems : List Value → List Value → Bool
  | [], [] => true
  | x :: xs, y :: ys => beq x y && beqItems xs ys
  | _, _ => false

def beqMembers : Members → Members → Bool
  | [], [] => true
  | (k, v) :: fs, (l, w) :: gs => k == l && beq v w && beqMembers fs gs
  | _, _ => false

end

mutual

theorem beq_iff : ∀ v w : Value, beq v w = true ↔ v = w
  | .null, w => by cases w <;> simp [beq]
  | .bool _, w => by cases w <;> simp [beq]
  | .number _, w => by cases w <;> simp [beq]
  | .string _, w => by cases w <;> simp [beq]
  | .array xs, w => by
      cases w with
      | array ys => simp [beq, beqItems_iff xs ys]
      | _ => simp [beq]
  | .object fs, w => by
      cases w with
      | object gs => simp [beq, beqMembers_iff fs gs]
      | _ => simp [beq]

theorem beqItems_iff : ∀ xs ys : List Value, beqItems xs ys = true ↔ xs = ys
  | [], [] => by simp [beqItems]
  | [], _ :: _ => by simp [beqItems]
  | _ :: _, [] => by simp [beqItems]
  | x :: xs, y :: ys => by simp [beqItems, beq_iff x y, beqItems_iff xs ys]

theorem beqMembers_iff : ∀ fs gs : Members, beqMembers fs gs = true ↔ fs = gs
  | [], [] => by simp [beqMembers]
  | [], _ :: _ => by simp [beqMembers]
  | _ :: _, [] => by simp [beqMembers]
  | (k, v) :: fs, (l, w) :: gs => by
      simp [beqMembers, beq_iff v w, beqMembers_iff fs gs]

end

instance : DecidableEq Value := fun v w => decidable_of_iff _ (beq_iff v w)

mutual

/-- Forget how doubles are printed. -/
def norm : Value → Value
  | .number (.float value _) => .number (.float value "")
  | .array items => .array (normItems items)
  | .object members => .object (normMembers members)
  | v => v

def normItems : List Value → List Value
  | [] => []
  | x :: xs => norm x :: normItems xs

def normMembers : Members → Members
  | [] => []
  | (k, v) :: fs => (k, norm v) :: normMembers fs

end

/-- Equality of values. -/
def same (v w : Option Value) : Bool := decide (v.map norm = w.map norm)

theorem same_iff {v w : Option Value} : same v w = true ↔ v.map norm = w.map norm :=
  decide_eq_true_iff

theorem same_string {s : String} {v : Option Value} :
    same (some (.string s)) v = true ↔ v = some (.string s) := by
  rw [same_iff]
  constructor
  · intro h
    cases v with
    | none => cases h
    | some v =>
        have hnorm : norm v = .string s := (Option.some.inj h).symm
        cases v with
        | string t => exact congrArg some hnorm
        | null => cases hnorm
        | bool b => cases hnorm
        | number n => cases n <;> cases hnorm
        | array items => cases hnorm
        | object members => cases hnorm
  · rintro rfl
    rfl

/-! ## Access -/

/-- The first member of a name. -/
def lookup {α : Type} (key : String) : List (String × α) → Option α
  | [] => none
  | (k, v) :: rest => if k = key then some v else lookup key rest

/-- A member of an object. -/
def get (v : Value) (key : String) : Option Value :=
  match v with
  | .object members => lookup key members
  | _ => none

def asStr : Value → Option String
  | .string s => some s
  | _ => none

def asObject : Value → Option Members
  | .object members => some members
  | _ => none

/-- An integer that fits in 64 unsigned bits. -/
def asU64 : Value → Option Nat
  | .number (.int n) => if 0 ≤ n ∧ n < 18446744073709551616 then some n.toNat else none
  | _ => none

def isObject (v : Value) : Bool := v.asObject.isSome

def isString (v : Value) : Bool := v.asStr.isSome

/-- An object that is a member. -/
def objectAt (v : Value) (key : String) : Option Members := (v.get key).bind asObject

theorem lookup_mem {α : Type} {key : String} {v : α} :
    ∀ {ms : List (String × α)}, lookup key ms = some v → (key, v) ∈ ms
  | [], h => nomatch h
  | (k, w) :: rest, h => by
      unfold lookup at h
      by_cases hk : k = key
      · rw [if_pos hk] at h
        cases h
        rw [hk]
        exact List.mem_cons_self
      · rw [if_neg hk] at h
        exact List.mem_cons_of_mem _ (lookup_mem h)

/-- The name of a member is found. -/
theorem lookup_isSome {α : Type} {key : String} {v : α} :
    ∀ {ms : List (String × α)}, (key, v) ∈ ms → ∃ w, lookup key ms = some w
  | [], h => absurd h List.not_mem_nil
  | (k, u) :: rest, h => by
      unfold lookup
      by_cases hk : k = key
      · exact ⟨u, if_pos hk⟩
      · rw [if_neg hk]
        rcases List.mem_cons.mp h with heq | hmem
        · cases heq
          exact absurd rfl hk
        · exact lookup_isSome hmem

/-- Members of different names are all found. -/
theorem lookup_of_mem {α : Type} {key : String} {v : α} : ∀ {ms : List (String × α)},
    (ms.map Prod.fst).Nodup → (key, v) ∈ ms → lookup key ms = some v
  | [], _, h => absurd h List.not_mem_nil
  | (k, w) :: rest, hnd, h => by
      obtain ⟨hk, hrest⟩ := List.nodup_cons.mp hnd
      unfold lookup
      rcases List.mem_cons.mp h with heq | hmem
      · cases heq
        rw [if_pos rfl]
      · rw [if_neg]
        · exact lookup_of_mem hrest hmem
        · rintro rfl
          exact hk (List.mem_map.mpr ⟨(k, v), hmem, rfl⟩)

/-- Among members of different names, what is found is what is there. -/
theorem lookup_eq_some_iff {α : Type} {key : String} {v : α} {ms : List (String × α)}
    (h : (ms.map Prod.fst).Nodup) : lookup key ms = some v ↔ (key, v) ∈ ms :=
  ⟨lookup_mem, lookup_of_mem h⟩

/-- The order of members of different names does not matter. -/
theorem lookup_perm {α : Type} {ms ms' : List (String × α)} (hperm : ms'.Perm ms)
    (h : (ms.map Prod.fst).Nodup) (key : String) : lookup key ms' = lookup key ms := by
  have h' : (ms'.map Prod.fst).Nodup := (hperm.map Prod.fst).nodup_iff.mpr h
  apply Option.ext
  intro v
  rw [lookup_eq_some_iff h', lookup_eq_some_iff h, hperm.mem_iff]

theorem lookup_map {α β : Type} (f : String → α → β) (key : String) (ms : List (String × α)) :
    lookup key (ms.map fun m => (m.1, f m.1 m.2)) = (lookup key ms).map (f key) := by
  induction ms with
  | nil => rfl
  | cons m rest ih =>
      rw [List.map_cons]
      unfold lookup
      by_cases hkey : m.1 = key
      · rw [if_pos hkey, if_pos hkey, hkey]
        rfl
      · rw [if_neg hkey, if_neg hkey, ih]

/-! ## Values in memory -/

mutual

/-- A value in memory: the members of an object are sorted by name, without repetition, and a
list is shorter than an address space. -/
def WellFormed : Value → Prop
  | .array items => items.length < 2 ^ 53 ∧ WellFormedItems items
  | .object members => (members.map Prod.fst).Pairwise (· < ·) ∧ WellFormedMembers members
  | _ => True

def WellFormedItems : List Value → Prop
  | [] => True
  | x :: xs => WellFormed x ∧ WellFormedItems xs

def WellFormedMembers : Members → Prop
  | [] => True
  | (_, v) :: fs => WellFormed v ∧ WellFormedMembers fs

end

theorem wellFormed_of_mem {key : String} {v : Value} : ∀ {ms : Members}, WellFormedMembers ms →
    (key, v) ∈ ms → v.WellFormed
  | [], _, h => absurd h List.not_mem_nil
  | (k, w) :: rest, hs, h => by
      rcases List.mem_cons.mp h with heq | hmem
      · cases heq
        exact hs.1
      · exact wellFormed_of_mem hs.2 hmem

theorem WellFormed.get {v w : Value} {key : String} (h : v.WellFormed) (hw : v.get key = some w) :
    w.WellFormed := by
  cases v with
  | object members => exact wellFormed_of_mem h.2 (lookup_mem hw)
  | null => cases hw
  | bool b => cases hw
  | number n => cases hw
  | string s => cases hw
  | array items => cases hw

/-- The names of an object are different. -/
theorem WellFormed.nodup {v : Value} {ms : Members} (h : v.WellFormed)
    (hv : v.asObject = some ms) : (ms.map Prod.fst).Nodup := by
  cases v with
  | object members =>
      cases hv
      exact h.1.imp fun hlt heq => absurd (heq ▸ hlt) (lt_irrefl _)
  | null => cases hv
  | bool b => cases hv
  | number n => cases hv
  | string s => cases hv
  | array items => cases hv

/-! ## Text -/

/-- A number as it is printed. -/
def numberString : Number → List Char
  | .int n => Json.writeNumber n
  | .float _ text => text.toList

mutual

/-- The compact text of a value. -/
def write : Value → List Char
  | .null => "null".toList
  | .bool true => "true".toList
  | .bool false => "false".toList
  | .number n => numberString n
  | .string s => Json.writeString s
  | .array items => '[' :: (Ledger.joinComma (writeItems items) ++ [']'])
  | .object members => '{' :: (Ledger.joinComma (writeMembers members) ++ ['}'])

def writeItems : List Value → List (List Char)
  | [] => []
  | x :: xs => write x :: writeItems xs

def writeMembers : Members → List (List Char)
  | [] => []
  | (k, v) :: fs => (Json.writeString k ++ ':' :: write v) :: writeMembers fs

end

end Value

/-- A value as a program holds it. -/
abbrev Document := { v : Value // v.WellFormed }

/-- The members of an object as a program holds them. -/
abbrev Map := { ms : Members // (Value.object ms).WellFormed }

end Agenomic.Prompt
