import Mathlib.Algebra.Order.BigOperators.Group.List
import Mathlib.Algebra.Order.Field.Basic
import Mathlib.Tactic.Linarith
import Mathlib.Tactic.Positivity

/-!
# The largest and the mean of a list of scores

Scores over an ordered field, summed up by a weighted sum of the largest and the mean.
Raising a score raises both. One more score raises the largest, and raises the mean only
when it is not below it (`mean_le_mean_insert`).
-/

namespace Lib

theorem foldl_max_le_iff {α : Type} [LinearOrder α] {l : List α} {a b : α} :
    l.foldl max a ≤ b ↔ a ≤ b ∧ ∀ x ∈ l, x ≤ b := by
  induction l generalizing a with
  | nil => simp
  | cons x l ih =>
      rw [List.foldl_cons, ih, max_le_iff, List.forall_mem_cons, and_assoc]

variable {K : Type} [Field K] [LinearOrder K]

/-- A number, held between zero and one. -/
def clamp01 (x : K) : K := max 0 (min 1 x)

theorem clamp01_mono {x y : K} (h : x ≤ y) : clamp01 x ≤ clamp01 y :=
  max_le_max_left 0 (min_le_min_left 1 h)

theorem clamp01_nonneg (x : K) : 0 ≤ clamp01 x := le_max_left _ _

theorem clamp01_of_nonpos {x : K} (h : x ≤ 0) : clamp01 x = 0 :=
  max_eq_left ((min_le_right _ _).trans h)

/-- The largest score, and zero if none is above it. -/
def peak (l : List K) : K := l.foldl max 0

/-- The mean score, and zero if there is none. -/
def mean (l : List K) : K := l.sum / l.length

theorem peak_le_iff {l : List K} {b : K} : peak l ≤ b ↔ 0 ≤ b ∧ ∀ x ∈ l, x ≤ b :=
  foldl_max_le_iff

theorem peak_nonneg (l : List K) : 0 ≤ peak l := (peak_le_iff.mp le_rfl).1

theorem le_peak {l : List K} {x : K} (h : x ∈ l) : x ≤ peak l := (peak_le_iff.mp le_rfl).2 x h

/-- More scores have a higher peak. -/
theorem peak_le_peak_of_subset {l l' : List K} (h : l ⊆ l') : peak l ≤ peak l' :=
  peak_le_iff.mpr ⟨peak_nonneg l', fun _ hx => le_peak (h hx)⟩

/-- Higher scores have a higher peak. -/
theorem peak_le_peak_of_forall₂ {l l' : List K} (h : List.Forall₂ (· ≤ ·) l l') :
    peak l ≤ peak l' := by
  refine peak_le_iff.mpr ⟨peak_nonneg l', fun x hx => ?_⟩
  induction h with
  | nil => cases hx
  | cons hab _ ih =>
      rcases List.mem_cons.mp hx with rfl | hmem
      · exact hab.trans (le_peak List.mem_cons_self)
      · exact (ih hmem).trans (peak_le_peak_of_subset (List.subset_cons_self _ _))

variable [IsStrictOrderedRing K]

theorem mean_nonneg {l : List K} (h : ∀ x ∈ l, 0 ≤ x) : 0 ≤ mean l :=
  div_nonneg (List.sum_nonneg h) (Nat.cast_nonneg _)

/-- Higher scores have a higher mean. -/
theorem mean_le_mean_of_forall₂ {l l' : List K} (h : List.Forall₂ (· ≤ ·) l l') :
    mean l ≤ mean l' := by
  unfold mean
  rw [h.length_eq]
  exact div_le_div_of_nonneg_right (List.Forall₂.sum_le_sum h) (Nat.cast_nonneg _)

/-- **One more score that is not below the mean does not lower it.** -/
theorem mean_le_mean_insert {l₁ l₂ : List K} {x : K} (h : mean (l₁ ++ l₂) ≤ x) :
    mean (l₁ ++ l₂) ≤ mean (l₁ ++ x :: l₂) := by
  have hsum : (l₁ ++ x :: l₂).sum = x + (l₁ ++ l₂).sum := by
    rw [List.sum_append, List.sum_cons, List.sum_append, add_left_comm]
  have hlength : ((l₁ ++ x :: l₂).length : K) = (l₁ ++ l₂).length + 1 := by
    rw [List.length_append, List.length_cons, ← Nat.add_assoc, ← List.length_append, Nat.cast_add,
      Nat.cast_one]
  have hpos : (0 : K) < (l₁ ++ l₂).length + 1 := by positivity
  unfold mean at h ⊢
  rw [hsum, hlength, le_div_iff₀ hpos, mul_add, mul_one, add_comm x]
  refine add_le_add (le_of_eq ?_) h
  -- with no scores the sum is zero
  rcases eq_or_ne ((l₁ ++ l₂).length : K) 0 with hzero | hne
  · have hnil := List.length_eq_zero_iff.mp (Nat.cast_eq_zero.mp hzero)
    rw [hnil, List.sum_nil, zero_div, zero_mul]
  · exact div_mul_cancel₀ _ hne

/-- The largest score and the mean, weighted. -/
def blend (a b : K) (l : List K) : K := peak l * a + mean l * b

variable {a b : K} (ha : 0 ≤ a) (hb : 0 ≤ b)
include ha hb

theorem blend_nonneg {l : List K} (h : ∀ x ∈ l, 0 ≤ x) : 0 ≤ blend a b l :=
  add_nonneg (mul_nonneg (peak_nonneg l) ha) (mul_nonneg (mean_nonneg h) hb)

/-- Higher scores blend to more. -/
theorem blend_le_blend_of_forall₂ {l l' : List K} (h : List.Forall₂ (· ≤ ·) l l') :
    blend a b l ≤ blend a b l' :=
  add_le_add (mul_le_mul_of_nonneg_right (peak_le_peak_of_forall₂ h) ha)
    (mul_le_mul_of_nonneg_right (mean_le_mean_of_forall₂ h) hb)

/-- One more score that is not below the mean blends to more. -/
theorem blend_le_blend_insert {l₁ l₂ : List K} {x : K} (h : mean (l₁ ++ l₂) ≤ x) :
    blend a b (l₁ ++ l₂) ≤ blend a b (l₁ ++ x :: l₂) := by
  have hsubset : l₁ ++ l₂ ⊆ l₁ ++ x :: l₂ :=
    List.append_subset.mpr ⟨List.subset_append_left _ _,
      fun y hy => List.mem_append_right _ (List.mem_cons_of_mem _ hy)⟩
  exact add_le_add (mul_le_mul_of_nonneg_right (peak_le_peak_of_subset hsubset) ha)
    (mul_le_mul_of_nonneg_right (mean_le_mean_insert h) hb)

end Lib
