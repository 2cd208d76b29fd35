import Mathlib.Data.List.Basic

/-!
# Splitting at the first separator

A list is split at the first of its values that is the separator: the part in front has no
separator, the part behind may have more (**`splitFirst_eq_some_iff`**).
-/

namespace Lib

variable {α : Type} [DecidableEq α] {a : α}

/-- What stands in front of the first `a`, and what stands behind it. -/
def splitFirst (a : α) : List α → Option (List α × List α)
  | [] => none
  | b :: rest =>
      if b = a then some ([], rest)
      else (splitFirst a rest).map fun parts => (b :: parts.1, parts.2)

@[simp] theorem splitFirst_append : ∀ {before : List α} (after : List α), a ∉ before →
    splitFirst a (before ++ a :: after) = some (before, after)
  | [], after, _ => by
      rw [List.nil_append, splitFirst, if_pos rfl]
  | b :: before, after, h => by
      rw [List.cons_append, splitFirst, if_neg (List.ne_of_not_mem_cons h).symm,
        splitFirst_append after (List.not_mem_of_not_mem_cons h)]
      rfl

theorem splitFirst_eq_none_iff : ∀ {xs : List α}, splitFirst a xs = none ↔ a ∉ xs
  | [] => by
      unfold splitFirst
      simp
  | b :: rest => by
      unfold splitFirst
      by_cases h : b = a
      · rw [if_pos h, h]
        simp
      · rw [if_neg h, Option.map_eq_none_iff, splitFirst_eq_none_iff, List.mem_cons, not_or]
        constructor
        · intro hrest
          exact ⟨Ne.symm h, hrest⟩
        · intro hrest
          exact hrest.2

/-- **Splitting** finds the first separator. -/
theorem splitFirst_eq_some_iff {xs before after : List α} :
    splitFirst a xs = some (before, after) ↔ a ∉ before ∧ xs = before ++ a :: after := by
  constructor
  · intro h
    by_cases hmem : a ∈ xs
    · obtain ⟨before', after', heq, hnot⟩ := List.eq_append_cons_of_mem hmem
      rw [heq, splitFirst_append after' hnot] at h
      cases h
      exact ⟨hnot, heq⟩
    · rw [splitFirst_eq_none_iff.mpr hmem] at h
      cases h
  · intro ⟨hnot, heq⟩
    rw [heq, splitFirst_append after hnot]

/-- Two lists with a separator are equal exactly when their parts around the first one are. -/
theorem append_cons_inj_of_notMem_left {x y s t : List α} (hx : a ∉ x) (hy : a ∉ y) :
    x ++ a :: s = y ++ a :: t ↔ x = y ∧ s = t := by
  constructor
  · intro h
    have hsplit := splitFirst_append s hx
    rw [h, splitFirst_append t hy] at hsplit
    cases hsplit
    exact ⟨rfl, rfl⟩
  · intro ⟨hxy, hst⟩
    rw [hxy, hst]

/-- The parts of a list split at some values have none of them. -/
theorem forall_of_mem_splitOnP {β : Type} {q : β → Bool} {p : List β} : ∀ {l : List β},
    p ∈ l.splitOnP q → ∀ x ∈ p, q x = false
  | [], h => by
      rw [List.splitOnP_nil, List.mem_singleton] at h
      rw [h]
      exact fun x hx => absurd hx List.not_mem_nil
  | b :: rest, h => by
      have ih : ∀ p ∈ rest.splitOnP q, ∀ x ∈ p, q x = false := fun p hp =>
        forall_of_mem_splitOnP hp
      rw [List.splitOnP_cons_eq_if_modifyHead] at h
      by_cases hb : q b = true
      · rw [if_pos hb] at h
        rcases List.mem_cons.mp h with rfl | h
        · exact fun x hx => absurd hx List.not_mem_nil
        · exact ih p h
      · rw [if_neg hb] at h
        cases hparts : rest.splitOnP q with
        | nil => exact absurd hparts (List.splitOnP_ne_nil q rest)
        | cons first more =>
            rw [hparts, List.modifyHead_cons] at h
            rw [hparts] at ih
            rcases List.mem_cons.mp h with rfl | h
            · intro x hx
              rcases List.mem_cons.mp hx with rfl | hx
              · exact Bool.not_eq_true _ ▸ hb
              · exact ih first List.mem_cons_self x hx
            · exact ih p (List.mem_cons_of_mem _ h)

/-- The parts of a split list have no separator. -/
theorem notMem_of_mem_splitOn {p l : List α} (h : p ∈ l.splitOn a) : a ∉ p := by
  intro ha
  rw [List.splitOn_eq_splitOnP] at h
  exact absurd (forall_of_mem_splitOnP h a ha) (by simp)

end Lib
