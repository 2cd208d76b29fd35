import Mathlib.Data.List.Basic
import Mathlib.Data.List.Infix

/-!
# Sending in order

Elements with a key wait in a list, new ones behind the others and with higher keys. Batches are
sent from the front; what was sent may wait on and be sent again, and what waits may be given up
anywhere. Then each element is sent for the first time behind those with lower keys that were
sent at all (`InOrder.first`), which every such step preserves (**`InOrder.send`**,
`InOrder.sublist`, `InOrder.push`).
-/

namespace Lib

variable {α : Type} {key : α → Nat}

/-- What was sent, and what waits. -/
structure InOrder (key : α → Nat) (sent waiting : List α) : Prop where
  sorted : waiting.Pairwise fun a b => key a < key b
  /-- What waits in front of something that was sent was sent itself. -/
  caughtUp : ∀ b ∈ sent, ∀ a ∈ waiting, key a < key b → a ∈ sent
  /-- What was sent at all, with a lower key, was sent before. -/
  first : ∀ before b after, sent = before ++ b :: after →
    ∀ a ∈ sent, key a < key b → a ∈ before

namespace InOrder

variable {sent waiting : List α}

theorem nil : InOrder key [] [] :=
  ⟨.nil, fun b hb => absurd hb List.not_mem_nil, fun before b after h => by simp at h⟩

/-- Giving up what waits. -/
theorem sublist (h : InOrder key sent waiting) {kept : List α} (hkept : kept.Sublist waiting) :
    InOrder key sent kept :=
  ⟨h.sorted.sublist hkept, fun b hb a ha => h.caughtUp b hb a (hkept.subset ha), h.first⟩

/-- A new element waits behind the others. -/
theorem push (h : InOrder key sent waiting) {a : α} (hsent : ∀ b ∈ sent, key b < key a)
    (hwaiting : ∀ b ∈ waiting, key b < key a) : InOrder key sent (waiting ++ [a]) := by
  refine ⟨?_, fun b hb a' ha' hlt => ?_, h.first⟩
  · rw [List.pairwise_append]
    refine ⟨h.sorted, List.pairwise_singleton _ a, fun b hb a' ha' => ?_⟩
    rw [List.mem_singleton.mp ha']
    exact hwaiting b hb
  · rcases List.mem_append.mp ha' with ha' | ha'
    · exact h.caughtUp b hb a' ha' hlt
    · rw [List.mem_singleton.mp ha'] at hlt
      exact absurd hlt (hsent b hb).asymm

/-- **Sending a batch** from the front. It goes on waiting until it is given up. -/
theorem send {batch rest : List α} (h : InOrder key sent (batch ++ rest)) :
    InOrder key (sent ++ batch) (batch ++ rest) := by
  obtain ⟨hbatch, -, hbehind⟩ := List.pairwise_append.mp h.sorted
  have hfirst : ∀ before b after, batch = before ++ b :: after →
      ∀ a ∈ sent ++ batch, key a < key b → a ∈ sent ++ before := by
    intro before b after hsplit a ha hlt
    rcases List.mem_append.mp ha with ha | ha
    · exact List.mem_append_left _ ha
    rw [hsplit] at ha hbatch
    rcases List.mem_append.mp ha with ha | ha
    · exact List.mem_append_right _ ha
    obtain ⟨-, hafter, -⟩ := List.pairwise_append.mp hbatch
    rcases List.mem_cons.mp ha with rfl | ha
    · exact absurd hlt (Nat.lt_irrefl _)
    · exact absurd hlt ((List.pairwise_cons.mp hafter).1 a ha).asymm
  refine ⟨h.sorted, fun b hb a ha hlt => ?_, fun before b after hsplit a ha hlt => ?_⟩
  · rcases List.mem_append.mp hb with hb | hb
    · exact List.mem_append_left _ (h.caughtUp b hb a ha hlt)
    rcases List.mem_append.mp ha with ha | ha
    · exact List.mem_append_right _ ha
    · exact absurd hlt (hbehind b hb a ha).asymm
  · rcases List.append_eq_append_iff.mp hsplit with ⟨mid, rfl, hbatch'⟩ | ⟨mid, hsent, hmid⟩
    · exact hfirst mid b after hbatch' a ha hlt
    cases mid with
    | nil =>
        rw [List.append_nil] at hsent
        rw [← hsent]
        have hmem := hfirst [] b after hmid.symm a ha hlt
        rw [List.append_nil] at hmem
        exact hmem
    | cons b' mid =>
        obtain ⟨rfl, hafter⟩ := List.cons.inj hmid
        have hb : b ∈ sent := by
          rw [hsent]
          exact List.mem_append_right _ List.mem_cons_self
        refine h.first before b mid hsent a ?_ hlt
        rcases List.mem_append.mp ha with ha | ha
        · exact ha
        · exact h.caughtUp b hb a (List.mem_append_left _ ha) hlt

end InOrder

end Lib
