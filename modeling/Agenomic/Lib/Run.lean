import Mathlib

/-!
# Runs of a machine

A machine takes a state and an operation to the next state; a run is a list of
operations. An invariant that every admissible operation preserves holds after
every run of admissible operations (**`run_invariant`**), where whether an
operation is admissible may depend on the state it finds.
-/

namespace Lib

variable {σ ι : Type*} (step : σ → ι → σ)

/-- The state after a run. -/
def run (s : σ) (ops : List ι) : σ := ops.foldl step s

/-- Every operation of a run meets a condition in the state before it. -/
def Along (p : σ → ι → Prop) : σ → List ι → Prop
  | _, [] => True
  | s, op :: ops => p s op ∧ Along p (step s op) ops

@[simp] theorem run_nil (s : σ) : run step s [] = s := rfl

@[simp] theorem run_cons (s : σ) (op : ι) (ops : List ι) :
    run step s (op :: ops) = run step (step s op) ops := rfl

theorem run_append (s : σ) (ops ops' : List ι) :
    run step s (ops ++ ops') = run step (run step s ops) ops' := List.foldl_append

variable {step}

instance decidableAlong {p : σ → ι → Prop} [∀ s op, Decidable (p s op)] :
    ∀ s ops, Decidable (Along step p s ops)
  | _, [] => .isTrue trivial
  | s, op :: ops =>
      have : Decidable (Along step p (step s op) ops) := decidableAlong (step s op) ops
      inferInstanceAs (Decidable (_ ∧ _))

theorem Along.append {p : σ → ι → Prop} : ∀ {ops ops' : List ι} {s : σ}, Along step p s ops →
    Along step p (run step s ops) ops' → Along step p s (ops ++ ops')
  | [], _, _, _, h' => h'
  | _ :: _, _, _, h, h' => ⟨h.1, h.2.append h'⟩

theorem Along.of_append {p : σ → ι → Prop} : ∀ {ops ops' : List ι} {s : σ},
    Along step p s (ops ++ ops') → Along step p s ops
  | [], _, _, _ => trivial
  | _ :: _, _, _, h => ⟨h.1, h.2.of_append⟩

theorem Along.and {p q : σ → ι → Prop} : ∀ {ops : List ι} {s : σ}, Along step p s ops →
    Along step q s ops → Along step (fun s op => p s op ∧ q s op) s ops
  | [], _, _, _ => trivial
  | _ :: _, _, h, h' => ⟨⟨h.1, h'.1⟩, h.2.and h'.2⟩

/-- **What every admissible operation preserves holds after every run of admissible operations.** -/
theorem run_invariant {p : σ → ι → Prop} (inv : σ → Prop)
    (hstep : ∀ s op, inv s → p s op → inv (step s op)) {ops : List ι} {s : σ} (hs : inv s)
    (h : Along step p s ops) : inv (run step s ops) := by
  induction ops generalizing s with
  | nil => exact hs
  | cons op ops ih => exact ih (hstep s op hs h.1) h.2

/-- The same for an invariant that looks back at the operations so far. -/
theorem run_history {p : σ → ι → Prop} (inv : List ι → σ → Prop)
    (hstep : ∀ past s op, inv past s → p s op → inv (past ++ [op]) (step s op)) {ops : List ι}
    {s : σ} (hs : inv [] s) (h : Along step p s ops) : inv ops (run step s ops) := by
  suffices hrun : ∀ past s, inv past s → Along step p s ops → inv (past ++ ops) (run step s ops) from
    hrun [] s hs h
  clear hs h
  induction ops with
  | nil =>
      intro past s hs _
      rw [List.append_nil]
      exact hs
  | cons op ops ih =>
      intro past s hs h
      have hnext := ih (past ++ [op]) (step s op) (hstep past s op hs h.1) h.2
      rw [List.append_assoc] at hnext
      exact hnext

/-- **A property stands behind every operation of a run exactly when a condition is met before
every operation**, where each operation brings the property exactly under its condition, and the
condition keeps an invariant. -/
theorem along_iff {inv : σ → Prop} {p q : σ → ι → Prop}
    (hkeep : ∀ s op, inv s → p s op → inv (step s op)) (hiff : ∀ s op, inv s → (q s op ↔ p s op)) :
    ∀ {ops : List ι} {s : σ}, inv s → (Along step q s ops ↔ Along step p s ops)
  | [], _, _ => Iff.rfl
  | op :: ops, s, hs => by
      constructor
      · intro h
        have hp := (hiff s op hs).mp h.1
        exact ⟨hp, (along_iff hkeep hiff (hkeep s op hs hp)).mp h.2⟩
      · intro h
        exact ⟨(hiff s op hs).mpr h.1, (along_iff hkeep hiff (hkeep s op hs h.1)).mpr h.2⟩

end Lib
