import Mathlib

/-!
# A log with a watermark

What a write-ahead log is for, with nothing said about how: entries get the
positions 1, 2, 3, … in the order they are appended, a watermark moves forward
over those that were applied, and what is pending is the rest, in order.
-/

namespace Lib

/-- Entries and how many of them are applied. -/
structure PlainLog (α : Type) where
  entries : List α
  watermark : Nat

namespace PlainLog

variable {α : Type}

def empty : PlainLog α := ⟨[], 0⟩

/-- The entries with their positions. -/
def numbered (log : PlainLog α) : List (Nat × α) := log.entries.mapIdx fun i a => (i + 1, a)

/-- The position of the next entry. -/
def next (log : PlainLog α) : Nat := log.entries.length + 1

def append (log : PlainLog α) (a : α) : PlainLog α := { log with entries := log.entries ++ [a] }

/-- Move the watermark. -/
def mark (log : PlainLog α) (n : Nat) : PlainLog α := { log with watermark := n }

/-- The entries above the watermark. -/
def pending (log : PlainLog α) : List (Nat × α) := log.numbered.drop log.watermark

@[simp] theorem numbered_length (log : PlainLog α) : log.numbered.length = log.entries.length := by
  simp [numbered]

theorem numbered_append (log : PlainLog α) (a : α) :
    (log.append a).numbered = log.numbered ++ [(log.next, a)] := by
  simp [numbered, append, next, List.mapIdx_append]

theorem numbered_getElem? (log : PlainLog α) (i : Nat) :
    log.numbered[i]? = log.entries[i]?.map fun a => (i + 1, a) := by
  simp [numbered]

/-- Positions count up. -/
theorem numbered_pairwise (log : PlainLog α) :
    log.numbered.Pairwise fun p q => p.1 < q.1 := by
  rw [List.pairwise_iff_getElem]
  intro i j hi hj hij
  simp only [numbered, List.getElem_mapIdx]
  omega

/-- A position is where its entry stands. -/
theorem mem_numbered {log : PlainLog α} {p : Nat × α} (h : p ∈ log.numbered) :
    0 < p.1 ∧ p.1 ≤ log.entries.length := by
  rw [numbered, List.mem_mapIdx] at h
  obtain ⟨i, hi, rfl⟩ := h
  exact ⟨Nat.succ_pos i, hi⟩

/-- Dropping a prefix keeps the entries above a position. -/
theorem drop_numbered (log : PlainLog α) (n : Nat) :
    log.numbered.drop n = log.numbered.filter fun p => n < p.1 := by
  obtain ⟨entries, w⟩ := log
  induction entries using List.reverseRecOn with
  | nil => simp [numbered]
  | append_singleton as a ih =>
      have hsnoc : (PlainLog.mk (as ++ [a]) w).numbered
          = (PlainLog.mk as w).numbered ++ [(as.length + 1, a)] :=
        numbered_append ⟨as, w⟩ a
      rw [hsnoc, List.filter_append, ← ih, List.drop_append, numbered_length]
      congr 1
      rw [List.filter_singleton]
      by_cases h : n < as.length + 1
      · have h0 : n - as.length = 0 := by omega
        rw [h0, List.drop_zero, decide_eq_true h]
        rfl
      · have h1 : 0 < n - as.length := by omega
        rw [decide_eq_false h, List.drop_of_length_le (by simp; omega)]
        rfl

theorem pending_eq_filter (log : PlainLog α) :
    log.pending = log.numbered.filter fun p => log.watermark < p.1 := log.drop_numbered _

/-- A new entry joins what is pending. -/
theorem pending_append {log : PlainLog α} (h : log.watermark ≤ log.entries.length) (a : α) :
    (log.append a).pending = log.pending ++ [(log.next, a)] := by
  have hlt : log.watermark < log.next := Nat.lt_succ_of_le h
  rw [pending_eq_filter, pending_eq_filter, numbered_append, List.filter_append,
    List.filter_singleton]
  show _ ++ (bif decide (log.watermark < log.next) then _ else _) = _
  rw [decide_eq_true hlt]
  rfl

/-- Moving the watermark forward drops what it passes. -/
theorem pending_mark {log : PlainLog α} {n : Nat} (h : log.watermark ≤ n) :
    (log.mark n).pending = log.pending.filter fun p => n < p.1 := by
  rw [pending_eq_filter, pending_eq_filter, List.filter_filter]
  refine List.filter_congr fun p _ => ?_
  show decide (n < p.1) = (decide (n < p.1) && decide (log.watermark < p.1))
  by_cases hp : n < p.1
  · rw [decide_eq_true hp, decide_eq_true (by omega : log.watermark < p.1)]
    rfl
  · rw [decide_eq_false hp]
    rfl

end PlainLog

end Lib
