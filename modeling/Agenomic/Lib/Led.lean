import Mathlib

/-!
# Elements that lead a list

`Led p q l`: every element of `l` with `p` is, or comes after, one with `q`. Whether a
list is led is read off its parts (**`led_append`**, **`led_cons`**).
-/

namespace Lib

variable {α : Type*} {p q : α → Prop} {l l' : List α} {x : α}

/-- Every element with `p` is, or comes after, one with `q`. -/
def Led (p q : α → Prop) (l : List α) : Prop :=
  ∀ before x after, l = before ++ x :: after → p x → ∃ y ∈ before ++ [x], q y

theorem led_nil : Led p q ([] : List α) := by
  intro before x after h
  exact absurd h.symm (List.append_ne_nil_of_right_ne_nil _ (List.cons_ne_nil x after))

theorem led_cons : Led p q (x :: l) ↔ (p x → q x) ∧ (q x ∨ Led p q l) := by
  constructor
  · intro h
    refine ⟨?_, ?_⟩
    · intro hp
      obtain ⟨y, hy, hq⟩ := h [] x l rfl hp
      rw [List.mem_singleton.mp hy] at hq
      exact hq
    · by_cases hx : q x
      · exact .inl hx
      · refine .inr ?_
        intro before z after hl hp
        obtain ⟨y, hy, hq⟩ := h (x :: before) z after (by rw [hl]; rfl) hp
        rcases List.mem_cons.mp hy with heq | hmem
        · rw [heq] at hq
          exact absurd hq hx
        · exact ⟨y, hmem, hq⟩
  · rintro ⟨hhead, htail⟩ before z after hl hp
    cases before with
    | nil =>
        obtain ⟨hxz, -⟩ := List.cons.inj hl
        rw [hxz] at hhead
        exact ⟨z, List.mem_singleton_self z, hhead hp⟩
    | cons w before =>
        obtain ⟨hxw, hrest⟩ := List.cons.inj hl
        rcases htail with hx | hled
        · rw [← hxw]
          exact ⟨x, List.mem_cons_self, hx⟩
        · obtain ⟨y, hy, hq⟩ := hled before z after hrest hp
          exact ⟨y, List.mem_cons_of_mem w hy, hq⟩

instance decidableLed [DecidablePred p] [DecidablePred q] : ∀ l, Decidable (Led p q l)
  | [] => .isTrue led_nil
  | _ :: l =>
      have := decidableLed l
      decidable_of_iff _ led_cons.symm

theorem led_append : Led p q (l ++ l') ↔ Led p q l ∧ ((∃ y ∈ l, q y) ∨ Led p q l') := by
  induction l with
  | nil =>
      refine ⟨fun h => ⟨led_nil, .inr h⟩, ?_⟩
      rintro ⟨-, ⟨y, hy, -⟩ | h⟩
      · cases hy
      · exact h
  | cons x l ih =>
      rw [List.cons_append, led_cons, led_cons, ih, List.exists_mem_cons_iff, and_assoc, or_assoc,
        ← or_and_left]

theorem led_singleton : Led p q [x] ↔ (p x → q x) := by
  rw [led_cons]
  exact ⟨fun h => h.1, fun h => ⟨h, .inr led_nil⟩⟩

/-- An element is repeated where it stands. -/
theorem Led.repeat (h : Led p q (l ++ x :: l')) (n : Nat) :
    Led p q (l ++ (List.replicate n x ++ x :: l')) := by
  induction n with
  | zero => exact h
  | succ n ih =>
      rw [List.replicate_succ, List.cons_append]
      rw [led_append, led_cons] at h ⊢
      rw [led_append] at ih
      obtain ⟨hl, hmem | ⟨hx, -⟩⟩ := h
      · exact ⟨hl, .inl hmem⟩
      · rcases ih.2 with hmem | hrest
        · exact ⟨hl, .inl hmem⟩
        · exact ⟨hl, .inr ⟨hx, .inr hrest⟩⟩

/-- What lies between two overlapping led lists, and they, is led. -/
theorem Led.glue {l₁ l₂ l₃ : List α} (h : Led p q (l₁ ++ l₂)) (h' : Led p q (l₂ ++ l₃)) :
    Led p q (l₁ ++ l₂ ++ l₃) := by
  rw [List.append_assoc, led_append]
  rw [led_append] at h
  obtain ⟨hl, hmem | -⟩ := h
  · exact ⟨hl, .inl hmem⟩
  · exact ⟨hl, .inr h'⟩

end Lib
