import Mathlib

/-!
# Worklists

A worklist holds items that wait to be expanded. An item is known by a key; one whose
key was seen before is dropped, and one that cannot be expanded leaves a gap. Two
items with the same key are not compared: only the first of them is expanded.

Three facts say what a search finds: it ends (`run_pending`), it covers what it is
given (`run_covers`), and every key it has seen is a gap or belongs to an item that
was expanded and whose successors are covered (`run_explored`).
-/

namespace Lib

variable {α κ : Type*} [DecidableEq κ]

structure Worklist (α κ : Type*) where
  pending : List α
  seen : List κ
  gaps : List κ

namespace Worklist

variable (key : α → κ) (expand : α → Option (List α))

/-- Take one item from the list. -/
def step (s : Worklist α κ) : Worklist α κ :=
  match s.pending with
  | [] => s
  | a :: rest =>
      if key a ∈ s.seen then { s with pending := rest }
      else match expand a with
        | none => ⟨rest, key a :: s.seen, key a :: s.gaps⟩
        | some next => ⟨next ++ rest, key a :: s.seen, s.gaps⟩

/-- Take so many items. -/
def run : Nat → Worklist α κ → Worklist α κ
  | 0, s => s
  | fuel + 1, s => run fuel (step key expand s)

/-! ## The end of a search -/

/-- The weight of the keys that have not been seen. -/
def unseen (known : List κ) (weight : κ → Nat) (seen : List κ) : Nat :=
  ((known.filter (· ∉ seen)).map weight).sum

theorem unseen_cons_le (known : List κ) (weight : κ → Nat) (k : κ) (seen : List κ) :
    unseen known weight (k :: seen) ≤ unseen known weight seen := by
  unfold unseen
  induction known with
  | nil => exact le_rfl
  | cons u rest ih =>
      by_cases hk : u ∈ k :: seen
      · rw [List.filter_cons_of_neg (by rw [decide_eq_true_iff]; exact not_not.mpr hk)]
        by_cases hs : u ∈ seen
        · rw [List.filter_cons_of_neg (by simpa using hs)]
          exact ih
        · rw [List.filter_cons_of_pos (by simpa using hs), List.map_cons, List.sum_cons]
          omega
      · have hs : u ∉ seen := fun h => hk (List.mem_cons_of_mem k h)
        rw [List.filter_cons_of_pos (by simpa using hk), List.filter_cons_of_pos (by simpa using hs),
          List.map_cons, List.map_cons, List.sum_cons, List.sum_cons]
        omega

theorem unseen_cons_add_le {known : List κ} (weight : κ → Nat) {k : κ} {seen : List κ}
    (hk : k ∈ known) (hseen : k ∉ seen) :
    unseen known weight (k :: seen) + weight k ≤ unseen known weight seen := by
  unfold unseen
  induction known with
  | nil => exact absurd hk List.not_mem_nil
  | cons u rest ih =>
      by_cases hu : u = k
      · subst hu
        have hrest := unseen_cons_le rest weight u seen
        unfold unseen at hrest
        rw [List.filter_cons_of_neg (by simp), List.filter_cons_of_pos (by simpa using hseen),
          List.map_cons, List.sum_cons]
        omega
      · have ih := ih ((List.mem_cons.mp hk).resolve_left fun h => hu h.symm)
        by_cases hs : u ∈ seen
        · rw [List.filter_cons_of_neg (by simp [hs]), List.filter_cons_of_neg (by simpa using hs)]
          exact ih
        · rw [List.filter_cons_of_pos (by simp [hs, hu]),
            List.filter_cons_of_pos (by simpa using hs), List.map_cons, List.map_cons,
            List.sum_cons, List.sum_cons]
          omega

theorem unseen_le (known : List κ) (weight : κ → Nat) (seen : List κ) :
    unseen known weight seen ≤ (known.map weight).sum :=
  List.Sublist.sum_le_sum (List.filter_sublist.map weight) fun _ _ => Nat.zero_le _

/-- What a search still has to do. -/
def work (known : List κ) (weight : κ → Nat) (s : Worklist α κ) : Nat :=
  s.pending.length + unseen known weight s.seen

variable {key expand}

/-- An item that expands has a known key, whose weight bounds its successors. -/
def Bounded (key : α → κ) (expand : α → Option (List α)) (known : List κ)
    (weight : κ → Nat) : Prop :=
  ∀ a next, expand a = some next → key a ∈ known ∧ next.length ≤ weight (key a)

theorem work_step {known : List κ} {weight : κ → Nat}
    (hb : Bounded key expand known weight) {s : Worklist α κ} (hne : s.pending ≠ []) :
    work known weight (step key expand s) + 1 ≤ work known weight s := by
  obtain ⟨pending, seen, gaps⟩ := s
  cases pending with
  | nil => exact absurd rfl hne
  | cons a rest =>
      unfold step work
      dsimp only
      by_cases hseen : key a ∈ seen
      · rw [if_pos hseen]
        dsimp only
        rw [List.length_cons]
        omega
      · rw [if_neg hseen]
        cases hexp : expand a with
        | none =>
            have hle := unseen_cons_le known weight (key a) seen
            dsimp only
            rw [List.length_cons]
            omega
        | some next =>
            obtain ⟨hmem, hlen⟩ := hb a next hexp
            have hle := unseen_cons_add_le weight hmem hseen
            dsimp only
            rw [List.length_cons, List.length_append]
            omega

theorem step_nil {s : Worklist α κ} (h : s.pending = []) : step key expand s = s := by
  unfold step
  rw [h]

theorem run_nil (fuel : Nat) {s : Worklist α κ} (h : s.pending = []) :
    run key expand fuel s = s := by
  induction fuel with
  | zero => rfl
  | succ fuel ih =>
      unfold run
      rw [step_nil h]
      exact ih

/-- **A search with enough fuel ends.** -/
theorem run_pending {known : List κ} {weight : κ → Nat}
    (hb : Bounded key expand known weight) {fuel : Nat} {s : Worklist α κ}
    (hfuel : work known weight s ≤ fuel) : (run key expand fuel s).pending = [] := by
  induction fuel generalizing s with
  | zero =>
      unfold work at hfuel
      exact List.length_eq_zero_iff.mp (by unfold run; omega)
  | succ fuel ih =>
      by_cases hne : s.pending = []
      · rw [run_nil _ hne]
        exact hne
      · have hwork := work_step hb hne
        unfold run
        exact ih (by omega)

/-! ## What a search finds -/

variable (key) in
/-- Every one of these items was seen or waits. -/
def Covers (s : Worklist α κ) (as : List α) : Prop := ∀ a ∈ as, key a ∈ s.seen ∨ a ∈ s.pending

theorem seen_subset_step (s : Worklist α κ) : s.seen ⊆ (step key expand s).seen := by
  obtain ⟨pending, seen, gaps⟩ := s
  intro k hk
  cases pending with
  | nil => exact hk
  | cons a rest =>
      unfold step
      dsimp only
      by_cases hseen : key a ∈ seen
      · rw [if_pos hseen]
        exact hk
      · rw [if_neg hseen]
        cases expand a with
        | none => exact List.mem_cons_of_mem _ hk
        | some next => exact List.mem_cons_of_mem _ hk

theorem gaps_subset_step (s : Worklist α κ) : s.gaps ⊆ (step key expand s).gaps := by
  obtain ⟨pending, seen, gaps⟩ := s
  intro k hk
  cases pending with
  | nil => exact hk
  | cons a rest =>
      unfold step
      dsimp only
      by_cases hseen : key a ∈ seen
      · rw [if_pos hseen]
        exact hk
      · rw [if_neg hseen]
        cases expand a with
        | none => exact List.mem_cons_of_mem _ hk
        | some next => exact hk

theorem Covers.step {s : Worklist α κ} {as : List α} (h : Covers key s as) :
    Covers key (step key expand s) as := by
  obtain ⟨pending, seen, gaps⟩ := s
  cases pending with
  | nil => exact h
  | cons b rest =>
      intro a ha
      unfold Worklist.step
      dsimp only
      by_cases hseen : key b ∈ seen
      · rw [if_pos hseen]
        rcases h a ha with hin | hpend
        · exact .inl hin
        · rcases List.mem_cons.mp hpend with rfl | hrest
          · exact .inl hseen
          · exact .inr hrest
      · rw [if_neg hseen]
        cases expand b with
        | none =>
            rcases h a ha with hin | hpend
            · exact .inl (List.mem_cons_of_mem _ hin)
            · rcases List.mem_cons.mp hpend with rfl | hrest
              · exact .inl List.mem_cons_self
              · exact .inr hrest
        | some next =>
            rcases h a ha with hin | hpend
            · exact .inl (List.mem_cons_of_mem _ hin)
            · rcases List.mem_cons.mp hpend with rfl | hrest
              · exact .inl List.mem_cons_self
              · exact .inr (List.mem_append_right _ hrest)

variable (key expand) in
/-- Every key that was seen is a gap or was expanded, from an item of a certain origin. -/
structure Explored (origin : α → Prop) (s : Worklist α κ) : Prop where
  pending : ∀ a ∈ s.pending, origin a
  seen : ∀ k ∈ s.seen, k ∈ s.gaps ∨ ∃ a next, origin a ∧ key a = k ∧ expand a = some next
    ∧ Covers key s next

theorem Explored.step {origin : α → Prop}
    (horigin : ∀ a next, origin a → expand a = some next → ∀ b ∈ next, origin b)
    {s : Worklist α κ} (h : Explored key expand origin s) :
    Explored key expand origin (step key expand s) := by
  have hold : ∀ k ∈ s.seen, (k ∈ (Worklist.step key expand s).gaps ∨ ∃ a next, origin a ∧ key a = k
      ∧ expand a = some next ∧ Covers key (Worklist.step key expand s) next) := by
    intro k hk
    rcases h.seen k hk with hgap | ⟨a, next, ha, hkey, hexp, hcov⟩
    · exact .inl (gaps_subset_step s hgap)
    · exact .inr ⟨a, next, ha, hkey, hexp, hcov.step⟩
  obtain ⟨pending, seen, gaps⟩ := s
  cases pending with
  | nil => exact h
  | cons b rest =>
      have hb : origin b := h.pending b List.mem_cons_self
      have hrest : ∀ a ∈ rest, origin a := fun a ha => h.pending a (List.mem_cons_of_mem _ ha)
      unfold Worklist.step at hold ⊢
      dsimp only at hold ⊢
      by_cases hseen : key b ∈ seen
      · rw [if_pos hseen] at hold ⊢
        exact ⟨hrest, hold⟩
      · rw [if_neg hseen] at hold ⊢
        cases hexp : expand b with
        | none =>
            rw [hexp] at hold
            refine ⟨hrest, fun k hk => ?_⟩
            rcases List.mem_cons.mp hk with rfl | hk
            · exact .inl List.mem_cons_self
            · exact hold k hk
        | some next =>
            rw [hexp] at hold
            refine ⟨fun a ha => ?_, fun k hk => ?_⟩
            · rcases List.mem_append.mp ha with ha | ha
              · exact horigin b next hb hexp a ha
              · exact hrest a ha
            · rcases List.mem_cons.mp hk with rfl | hk
              · exact .inr ⟨b, next, hb, rfl, hexp, fun a ha => .inr (List.mem_append_left _ ha)⟩
              · exact hold k hk

/-- **What is covered at the start is covered at the end.** -/
theorem run_covers (fuel : Nat) {s : Worklist α κ} {as : List α} (h : Covers key s as) :
    Covers key (run key expand fuel s) as := by
  induction fuel generalizing s with
  | zero => exact h
  | succ fuel ih => exact ih h.step

theorem run_seen (fuel : Nat) (s : Worklist α κ) : s.seen ⊆ (run key expand fuel s).seen := by
  induction fuel generalizing s with
  | zero => exact List.Subset.refl _
  | succ fuel ih => exact List.Subset.trans (seen_subset_step s) (ih _)

theorem run_gaps (fuel : Nat) (s : Worklist α κ) : s.gaps ⊆ (run key expand fuel s).gaps := by
  induction fuel generalizing s with
  | zero => exact List.Subset.refl _
  | succ fuel ih => exact List.Subset.trans (gaps_subset_step s) (ih _)

/-- **Every key that a search has seen is a gap or was expanded.** -/
theorem run_explored (fuel : Nat) {origin : α → Prop}
    (horigin : ∀ a next, origin a → expand a = some next → ∀ b ∈ next, origin b)
    {s : Worklist α κ} (h : Explored key expand origin s) :
    Explored key expand origin (run key expand fuel s) := by
  induction fuel generalizing s with
  | zero => exact h
  | succ fuel ih => exact ih (h.step horigin)

end Worklist

end Lib
