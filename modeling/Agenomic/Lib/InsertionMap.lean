import Mathlib

/-!
# Maps that keep the order of insertion

A list of entries whose keys do not repeat. Setting a key that is there replaces its entry
where it stands, setting another one puts it behind the rest. Looking up after a change is
all that its users need to know (`get_set`, `get_delete`).
-/

namespace Lib

/-- A map listed in the order in which its keys were set first. -/
structure InsertionMap (κ β : Type) where
  entries : List (κ × β)
  nodup : (entries.map Prod.fst).Nodup

namespace InsertionMap

variable {κ β : Type} [DecidableEq κ]

instance : Inhabited (InsertionMap κ β) := ⟨[], List.nodup_nil⟩

def empty : InsertionMap κ β := ⟨[], List.nodup_nil⟩

def keys (m : InsertionMap κ β) : List κ := m.entries.map Prod.fst

/-- What a list of entries holds at a key. -/
def find (k : κ) : List (κ × β) → Option β
  | [] => none
  | e :: rest => if e.1 = k then some e.2 else find k rest

def get (m : InsertionMap κ β) (k : κ) : Option β := find k m.entries

def has (m : InsertionMap κ β) (k : κ) : Bool := decide (k ∈ m.keys)

/-- The entries with the one of a key replaced, or behind the rest. -/
def setEntries (k : κ) (v : β) : List (κ × β) → List (κ × β)
  | [] => [(k, v)]
  | e :: rest => if e.1 = k then (k, v) :: rest else e :: setEntries k v rest

theorem mem_keys_setEntries {k k' : κ} {v : β} {es : List (κ × β)} :
    k' ∈ (setEntries k v es).map Prod.fst ↔ k' = k ∨ k' ∈ es.map Prod.fst := by
  induction es with
  | nil => simp [setEntries]
  | cons e rest ih =>
      unfold setEntries
      by_cases he : e.1 = k
      · rw [if_pos he]
        simp [he]
      · rw [if_neg he, List.map_cons, List.mem_cons, ih, List.map_cons, List.mem_cons]
        exact or_left_comm

theorem nodup_setEntries (k : κ) (v : β) {es : List (κ × β)} (h : (es.map Prod.fst).Nodup) :
    ((setEntries k v es).map Prod.fst).Nodup := by
  induction es with
  | nil => exact List.nodup_singleton k
  | cons e rest ih =>
      rw [List.map_cons, List.nodup_cons] at h
      unfold setEntries
      by_cases he : e.1 = k
      · rw [if_pos he, List.map_cons, List.nodup_cons, ← he]
        exact h
      · rw [if_neg he, List.map_cons, List.nodup_cons, mem_keys_setEntries]
        exact ⟨fun hmem => hmem.elim he h.1, ih h.2⟩

def set (m : InsertionMap κ β) (k : κ) (v : β) : InsertionMap κ β :=
  ⟨setEntries k v m.entries, nodup_setEntries k v m.nodup⟩

def delete (m : InsertionMap κ β) (k : κ) : InsertionMap κ β :=
  ⟨m.entries.filter fun e => decide (e.1 ≠ k),
    m.nodup.sublist (List.filter_sublist.map Prod.fst)⟩

/-! ## Looking up -/

@[simp] theorem get_empty (k : κ) : (empty : InsertionMap κ β).get k = none := rfl

theorem find_setEntries (k k' : κ) (v : β) (es : List (κ × β)) :
    find k' (setEntries k v es) = if k' = k then some v else find k' es := by
  induction es with
  | nil =>
      by_cases hk : k' = k
      · simp [setEntries, find, hk]
      · simp [setEntries, find, hk, Ne.symm hk]
  | cons e rest ih =>
      unfold setEntries
      by_cases he : e.1 = k
      · rw [if_pos he]
        unfold find
        by_cases hk : k' = k
        · simp [hk]
        · simp [he, hk, Ne.symm hk]
      · rw [if_neg he]
        unfold find
        rw [ih]
        by_cases hk : k' = k
        · simp [hk, he]
        · simp [hk]

theorem get_set (m : InsertionMap κ β) (k k' : κ) (v : β) :
    (m.set k v).get k' = if k' = k then some v else m.get k' := find_setEntries k k' v m.entries

@[simp] theorem get_set_self (m : InsertionMap κ β) (k : κ) (v : β) : (m.set k v).get k = some v := by
  rw [get_set, if_pos rfl]

theorem get_set_of_ne {k k' : κ} (m : InsertionMap κ β) (v : β) (h : k' ≠ k) :
    (m.set k v).get k' = m.get k' := by rw [get_set, if_neg h]

theorem get_delete (m : InsertionMap κ β) (k k' : κ) :
    (m.delete k).get k' = if k' = k then none else m.get k' := by
  unfold get delete
  dsimp only
  induction m.entries with
  | nil => simp [find]
  | cons e rest ih =>
      rw [List.filter_cons]
      by_cases he : e.1 = k
      · rw [if_neg (by simp [he]), ih]
        by_cases hk : k' = k
        · simp [hk]
        · simp [find, he, hk, Ne.symm hk]
      · rw [if_pos (by simp [he])]
        unfold find
        rw [ih]
        by_cases hk : k' = k
        · simp [hk, he]
        · simp [hk]

theorem get_delete_of_ne {k k' : κ} (m : InsertionMap κ β) (h : k' ≠ k) :
    (m.delete k).get k' = m.get k' := by rw [get_delete, if_neg h]

/-- An entry is what is found under its key. -/
theorem mem_entries_iff {m : InsertionMap κ β} {k : κ} {v : β} :
    (k, v) ∈ m.entries ↔ m.get k = some v := by
  obtain ⟨es, hnodup⟩ := m
  unfold get
  dsimp only
  induction es with
  | nil => simp [find]
  | cons e rest ih =>
      rw [List.map_cons, List.nodup_cons] at hnodup
      unfold find
      rw [List.mem_cons, ih hnodup.2]
      by_cases hk : e.1 = k
      · have hrest : find k rest ≠ some v := by
          intro hfind
          refine hnodup.1 ?_
          rw [hk]
          exact List.mem_map.mpr ⟨(k, v), (ih hnodup.2).mpr hfind, rfl⟩
        rw [if_pos hk, or_iff_left hrest, Option.some.injEq, Prod.ext_iff]
        exact ⟨fun h => h.2.symm, fun h => ⟨hk.symm, h.symm⟩⟩
      · rw [if_neg hk]
        refine or_iff_right fun h => hk ?_
        rw [← h]

theorem mem_keys_iff {m : InsertionMap κ β} {k : κ} : k ∈ m.keys ↔ ∃ v, m.get k = some v := by
  unfold keys
  rw [List.mem_map]
  constructor
  · rintro ⟨⟨k', v⟩, hmem, rfl⟩
    exact ⟨v, mem_entries_iff.mp hmem⟩
  · rintro ⟨v, h⟩
    exact ⟨(k, v), mem_entries_iff.mpr h, rfl⟩

theorem has_iff {m : InsertionMap κ β} {k : κ} : m.has k = true ↔ ∃ v, m.get k = some v := by
  unfold has
  rw [decide_eq_true_iff, mem_keys_iff]

end InsertionMap

end Lib
