import Mathlib

/-!
# Hash chains

Items that each link the hash of the item before. When a hash binds the content of
an item, and the content includes the link, the hash of the last item binds the
content of all of them (**`head_pins_history`**): two chains with the same head are
compared from the head back, and the genesis link, which no item hashes to, ends
both at once.

`Linked` asks for the links only; how an item is hashed and what of it the hash
covers are parameters.
-/

namespace Lib

variable {ε κ η : Type*}

/-- A hash that determines the content it covers, and the link with it. -/
structure HashChain (ε κ η : Type*) where
  hash : ε → η
  prev : ε → η
  content : ε → κ
  genesis : η
  content_of_hash : ∀ {a b}, hash a = hash b → content a = content b
  prev_of_content : ∀ {a b}, content a = content b → prev a = prev b
  hash_ne_genesis : ∀ a, hash a ≠ genesis

namespace HashChain

variable (C : HashChain ε κ η)

/-- Every item links the one before it, the first one `h`. -/
def Linked : η → List ε → Prop
  | _, [] => True
  | h, a :: as => C.prev a = h ∧ Linked (C.hash a) as

/-- The hash of the last item, `h` when there is none. -/
def head (h : η) (as : List ε) : η := (as.getLast?.map C.hash).getD h

variable {C}

@[simp] theorem head_nil (h : η) : C.head h [] = h := rfl

@[simp] theorem head_snoc (h : η) (as : List ε) (a : ε) : C.head h (as ++ [a]) = C.hash a := by
  rw [head, List.getLast?_concat]
  rfl

theorem linked_snoc {h : η} {as : List ε} {a : ε} :
    C.Linked h (as ++ [a]) ↔ C.Linked h as ∧ C.prev a = C.head h as := by
  induction as generalizing h with
  | nil =>
      rw [List.nil_append, head_nil]
      constructor
      · rintro ⟨hp, -⟩; exact ⟨trivial, hp⟩
      · rintro ⟨-, hp⟩; exact ⟨hp, trivial⟩
  | cons b as ih =>
      have hhead : C.head h (b :: as) = C.head (C.hash b) as := by
        cases as with
        | nil => rfl
        | cons b' as =>
            rw [head, head, List.getLast?_cons_cons, List.getLast?_cons]
            rfl
      rw [List.cons_append, hhead]
      constructor
      · rintro ⟨hp, hl⟩
        obtain ⟨hl, hlast⟩ := ih.mp hl
        exact ⟨⟨hp, hl⟩, hlast⟩
      · rintro ⟨⟨hp, hl⟩, hlast⟩
        exact ⟨hp, ih.mpr ⟨hl, hlast⟩⟩

/-- **The head of a chain pins the content of every item in it.** -/
theorem head_pins_history {as bs : List ε} (ha : C.Linked C.genesis as)
    (hb : C.Linked C.genesis bs) (h : C.head C.genesis as = C.head C.genesis bs) :
    as.map C.content = bs.map C.content := by
  induction as using List.reverseRecOn generalizing bs with
  | nil =>
      cases bs using List.reverseRecOn with
      | nil => rfl
      | append_singleton bs b =>
          rw [head_nil, head_snoc] at h
          exact absurd h.symm (C.hash_ne_genesis b)
  | append_singleton as a ih =>
      cases bs using List.reverseRecOn with
      | nil =>
          rw [head_nil, head_snoc] at h
          exact absurd h (C.hash_ne_genesis a)
      | append_singleton bs b =>
          rw [head_snoc, head_snoc] at h
          obtain ⟨hla, hpa⟩ := linked_snoc.mp ha
          obtain ⟨hlb, hpb⟩ := linked_snoc.mp hb
          have hcontent := C.content_of_hash h
          have hprev := C.prev_of_content hcontent
          rw [hpa, hpb] at hprev
          rw [List.map_append, List.map_append, ih hla hlb hprev, List.map_singleton,
            List.map_singleton, hcontent]

end HashChain

end Lib
