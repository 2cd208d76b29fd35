import Mathlib.Data.List.Destutter
import Mathlib.Data.List.Sort

/-!
# Sorting and dropping repeats

`sortDedup`: a list in order, each of its values once. By a linear order what is left
stands in strict order, and a list that already does is left as it is. Sorting alone is
stable: what is left out before it may as well be left out after it.
-/

namespace Lib

variable {α : Type} [DecidableEq α]

theorem mem_destutter'_ne {x : α} : ∀ (l : List α) (a : α),
    x ∈ l.destutter' (· ≠ ·) a ↔ x = a ∨ x ∈ l
  | [], a => by rw [List.destutter'_nil, List.mem_singleton]; simp
  | b :: rest, a => by
      by_cases hab : a = b
      · -- The second of two equal neighbours is dropped.
        rw [List.destutter'_cons_neg (R := (· ≠ ·)) rest (by simpa using hab),
          mem_destutter'_ne rest a, hab, List.mem_cons]
        tauto
      · rw [List.destutter'_cons_pos (R := (· ≠ ·)) rest hab, List.mem_cons,
          mem_destutter'_ne rest b, List.mem_cons]

/-- Dropping equal neighbours loses no value. -/
theorem mem_destutter_ne {x : α} : ∀ l : List α, x ∈ l.destutter (· ≠ ·) ↔ x ∈ l
  | [] => by rw [List.destutter_nil]
  | a :: rest => by rw [List.destutter_cons', mem_destutter'_ne, List.mem_cons]

/-- A list in order, with equal neighbours dropped. -/
def sortDedup (le : α → α → Prop) [DecidableRel le] (l : List α) : List α :=
  (l.insertionSort le).destutter (· ≠ ·)

@[simp] theorem mem_sortDedup {le : α → α → Prop} [DecidableRel le] {l : List α} {x : α} :
    x ∈ sortDedup le l ↔ x ∈ l := by
  rw [sortDedup, mem_destutter_ne, (List.perm_insertionSort le l).mem_iff]

theorem sortDedup_eq_nil {le : α → α → Prop} [DecidableRel le] {l : List α} :
    sortDedup le l = [] ↔ l = [] := by
  simp only [List.eq_nil_iff_forall_not_mem, mem_sortDedup]

/-! ## By a linear order -/

section Order

variable {β : Type} [LinearOrder β]

/-- What is left stands in strict order. -/
theorem pairwise_lt_sortDedup (l : List β) : (sortDedup (· ≤ ·) l).Pairwise (· < ·) := by
  have hsorted : (l.insertionSort (· ≤ ·)).Pairwise (· ≤ ·) := List.pairwise_insertionSort _ l
  have hle : (sortDedup (· ≤ ·) l).Pairwise (· ≤ ·) :=
    hsorted.sublist (List.destutter_sublist _ _)
  have hne : (sortDedup (· ≤ ·) l).Nodup := by
    rw [sortDedup, hsorted.destutter_eq_dedup]
    exact List.nodup_dedup _
  exact hle.imp₂ (fun a b => lt_of_le_of_ne) hne

theorem sortDedup_of_pairwise_lt {l : List β} (h : l.Pairwise (· < ·)) :
    sortDedup (· ≤ ·) l = l := by
  have hsort : l.insertionSort (· ≤ ·) = l := (h.imp le_of_lt).insertionSort_eq
  rw [sortDedup, hsort, List.destutter_of_isChain]
  exact (h.imp ne_of_lt).isChain

/-- What is left depends on the values alone. -/
theorem sortDedup_congr {l l' : List β} (h : ∀ x, x ∈ l ↔ x ∈ l') :
    sortDedup (· ≤ ·) l = sortDedup (· ≤ ·) l' := by
  have hl := pairwise_lt_sortDedup l
  have hl' := pairwise_lt_sortDedup l'
  refine List.Perm.eq_of_pairwise (fun a b _ _ hab hba => absurd hba hab.asymm) hl hl' ?_
  refine (List.perm_ext_iff_of_nodup (hl.imp ne_of_lt) (hl'.imp ne_of_lt)).mpr ?_
  intro x
  rw [mem_sortDedup, mem_sortDedup, h]

end Order

/-! ## Stability -/

section Stable

variable {γ : Type} {r : γ → γ → Prop} [DecidableRel r] [IsTrans γ r]

theorem filter_orderedInsert (p : γ → Bool) (a : γ) : ∀ {l : List γ}, l.Pairwise r →
    (l.orderedInsert r a).filter p
      = if p a then (l.filter p).orderedInsert r a else l.filter p
  | [], _ => by
      rw [List.orderedInsert_nil, List.filter_cons]
      rfl
  | b :: rest, h => by
      rw [List.pairwise_cons] at h
      rw [List.orderedInsert_cons]
      by_cases hab : r a b
      · rw [if_pos hab, List.filter_cons]
        by_cases ha : p a = true
        · -- What is left of the list has nothing before the new value.
          rw [if_pos ha, if_pos ha]
          cases hrest : (b :: rest).filter p with
          | nil => rfl
          | cons c rest' =>
              have hc : c ∈ b :: rest := List.mem_of_mem_filter (hrest ▸ List.mem_cons_self)
              have hac : r a c := by
                rcases List.mem_cons.mp hc with rfl | hmem
                · exact hab
                · exact IsTrans.trans _ _ _ hab (h.1 c hmem)
              rw [List.orderedInsert_cons, if_pos hac]
        · rw [if_neg ha, if_neg ha]
      · rw [if_neg hab, List.filter_cons, filter_orderedInsert p a h.2, List.filter_cons]
        by_cases hb : p b = true
        · by_cases ha : p a = true
          · rw [if_pos hb, if_pos ha, if_pos hb, if_pos ha, List.orderedInsert_cons, if_neg hab]
          · rw [if_pos hb, if_neg ha, if_pos hb, if_neg ha]
        · rw [if_neg hb, if_neg hb]

/-- Sorting is stable under leaving values out. -/
theorem filter_insertionSort [Std.Total r] (p : γ → Bool) : ∀ l : List γ,
    (l.insertionSort r).filter p = (l.filter p).insertionSort r
  | [] => rfl
  | a :: rest => by
      rw [List.insertionSort_cons, filter_orderedInsert p a (List.pairwise_insertionSort r rest),
        filter_insertionSort p rest, List.filter_cons]
      by_cases ha : p a = true
      · rw [if_pos ha, if_pos ha, List.insertionSort_cons]
      · rw [if_neg ha, if_neg ha]

/-- A list that is in order already may be sorted first. -/
theorem insertionSort_append_insertionSort [Std.Total r] (l : List γ) : ∀ k : List γ,
    (k ++ l.insertionSort r).insertionSort r = (k ++ l).insertionSort r
  | [] => (List.pairwise_insertionSort r l).insertionSort_eq
  | a :: rest => by
      rw [List.cons_append, List.cons_append, List.insertionSort_cons, List.insertionSort_cons,
        insertionSort_append_insertionSort l rest]

/-- Sorting does not change which value of a class is the first. -/
theorem find?_insertionSort [Std.Total r] {p : γ → Bool}
    (h : ∀ a b, p a = true → p b = true → r a b) (l : List γ) :
    (l.insertionSort r).find? p = l.find? p := by
  rw [← List.head?_filter, ← List.head?_filter, filter_insertionSort]
  refine congrArg List.head? (List.Pairwise.insertionSort_eq ?_)
  refine List.pairwise_of_forall_mem_list fun a ha b hb => ?_
  exact h a b (List.mem_filter.mp ha).2 (List.mem_filter.mp hb).2

end Stable

/-! ## Leaving repeats out -/

section Repeats

variable {γ : Type} {same : γ → γ → Prop}

theorem pairwise_of_isChain {r : γ → γ → Prop} [IsTrans γ r]
    (hsame : ∀ a b, same a b ↔ r a b ∧ r b a) : ∀ {l : List γ},
    l.IsChain (fun a b => ¬ same a b) → l.Pairwise r → l.Pairwise fun a b => ¬ same a b
  | [], _, _ => List.Pairwise.nil
  | [_], _, _ => List.pairwise_singleton _ _
  | a :: b :: rest, hchain, hsorted => by
      rw [List.isChain_cons_cons] at hchain
      rw [List.pairwise_cons] at hsorted
      refine List.pairwise_cons.mpr ⟨fun c hc hac => ?_,
        pairwise_of_isChain hsame hchain.2 hsorted.2⟩
      -- what comes back to the class of the first comes by way of the second
      have hbc : r b c ∨ b = c := by
        rcases List.mem_cons.mp hc with rfl | hmem
        · exact .inr rfl
        · exact .inl ((List.pairwise_cons.mp hsorted.2).1 c hmem)
      have hba : r b a := by
        rcases hbc with hbc | rfl
        · exact IsTrans.trans _ _ _ hbc ((hsame a c).mp hac).2
        · exact ((hsame a b).mp hac).2
      exact hchain.1 ((hsame a b).mpr ⟨hsorted.1 b List.mem_cons_self, hba⟩)

variable [DecidableRel same]

theorem find?_destutter' {p : γ → Bool} (hp : ∀ a b, same a b → p a = p b) (l : List γ) (a : γ) :
    (l.destutter' (fun a b => ¬ same a b) a).find? p = (a :: l).find? p := by
  induction l generalizing a with
  | nil => rfl
  | cons b l ih =>
      rw [List.destutter'_cons]
      by_cases hab : same a b
      · rw [if_neg (not_not.mpr hab), ih, List.find?_cons, List.find?_cons, List.find?_cons,
          ← hp a b hab]
        cases p a <;> rfl
      · rw [if_pos hab, List.find?_cons, ih]
        rfl

/-- Leaving repeats out does not change which value of a class is the first. -/
theorem find?_destutter {p : γ → Bool} (hp : ∀ a b, same a b → p a = p b) (l : List γ) :
    (l.destutter fun a b => ¬ same a b).find? p = l.find? p := by
  cases l with
  | nil => rfl
  | cons a l => exact find?_destutter' hp l a

/-- In a sorted list no class is left twice. -/
theorem find?_of_mem_destutter {r : γ → γ → Prop} [IsTrans γ r]
    (hsame : ∀ a b, same a b ↔ r a b ∧ r b a) (hrefl : ∀ a, same a a) {l : List γ}
    (hsorted : l.Pairwise r) {t : γ} (ht : t ∈ l.destutter fun a b => ¬ same a b) :
    (l.destutter fun a b => ¬ same a b).find? (fun x => same t x) = some t := by
  have hpairwise := pairwise_of_isChain hsame (List.isChain_destutter (fun a b => ¬ same a b) l)
    (hsorted.sublist (List.destutter_sublist (fun a b => ¬ same a b) l))
  obtain ⟨before, after, hsplit⟩ := List.append_of_mem ht
  rw [List.find?_eq_some_iff_append]
  refine ⟨decide_eq_true (hrefl t), before, after, hsplit, fun x hx => ?_⟩
  rw [hsplit, List.pairwise_append] at hpairwise
  have hnot : ¬ same t x := fun h =>
    hpairwise.2.2 x hx t List.mem_cons_self ((hsame x t).mpr ((hsame t x).mp h).symm)
  rw [decide_eq_false hnot]
  rfl

end Repeats

end Lib
