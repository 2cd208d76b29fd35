import Agenomic.Ledger.PipelineRun
import Agenomic.Ledger.PipelineSeal

/-!
# The position in the WAL

The position is the last record dealt with: the last one applied in memory, or the one
under the persisted watermark. A seal of a record moves it there and nowhere else
(`Advanced.position`), and a scan of the WAL finds exactly the records behind it
(`scanned_eq`).
-/

namespace Agenomic.Ledger.Pipeline

open Lib

/-! ## What a seal does to the position -/

/-- What sealing the record at `walSeq` does to the WAL. -/
structure DiskAdvanced (w : World) (walSeq : Option Nat) (d : Disk) : Prop where
  records : d.wal.entries = w.disk.wal.entries
  watermark : d.wal.watermark = w.disk.wal.watermark
    ∨ ∃ seq, walSeq = some seq ∧ w.core.appliedWalSeq < seq ∧ d.wal.watermark = seq

/-- The record at `walSeq` is dealt with, and the flow of events is as it was. -/
structure Advanced (w : World) (walSeq : Option Nat) (w' : World) : Prop
    extends DiskAdvanced w walSeq w'.disk where
  applied : w'.core.appliedWalSeq = max w.core.appliedWalSeq (walSeq.getD 0)
  queue : w'.queue = w.queue
  queueDepth : w'.counters.queueDepth = w.counters.queueDepth
  walBacklog : w'.counters.walBacklog = w.counters.walBacklog

theorem DiskAdvanced.of_wal {w : World} {walSeq : Option Nat} {d : Disk}
    (h : d.wal = w.disk.wal) : DiskAdvanced w walSeq d := by
  refine ⟨?_, .inl ?_⟩
  · rw [h]
  · rw [h]

theorem Frame.finishedDisk {w w₁ : World} {walSeq : Option Nat} {d : Disk} (h : Frame w w₁)
    (hd : FinishedDisk w₁ walSeq d) : DiskAdvanced w walSeq d := by
  rcases hd.watermark with hsame | ⟨seq, hseq, hlt, hmark⟩
  · exact .of_wal (hsame.trans h.wal)
  · refine ⟨?_, .inr ⟨seq, hseq, h.applied ▸ hlt, ?_⟩⟩
    · rw [hmark, h.wal]
      rfl
    · rw [hmark]
      rfl

theorem Frame.finished {w w₁ w' : World} {walSeq : Option Nat} (h : Frame w w₁)
    (h' : Finished w₁ walSeq w') : Advanced w walSeq w' where
  toDiskAdvanced := h.finishedDisk h'.toDisk
  applied := by rw [h'.applied, h.applied]
  queue := h'.queue.trans h.queue
  queueDepth := by rw [h'.counters, h.queueDepth]
  walBacklog := by rw [h'.counters, h.walBacklog]

/-! ## The records behind the position -/

/-- The last record dealt with. -/
def position (core : Core) (d : Disk) : Nat := max core.appliedWalSeq d.wal.watermark

/-- The records behind a position. -/
def recordsAfter (d : Disk) (n : Nat) : List (Nat × LedgerEntryDraft) := d.wal.numbered.drop n

theorem recordsAfter_nil {d : Disk} {n : Nat} (h : d.wal.entries.length ≤ n) :
    recordsAfter d n = [] := by
  unfold recordsAfter
  rw [List.drop_eq_nil_iff, PlainLog.numbered_length]
  exact h

/-- A scan finds the records behind the position. -/
theorem scanned_eq (core : Core) (d : Disk) :
    (d.wal.pending.filter fun r => core.appliedWalSeq < r.1)
      = recordsAfter d (position core d) := by
  unfold recordsAfter position
  rw [PlainLog.pending_eq_filter, PlainLog.drop_numbered, List.filter_filter]
  refine List.filter_congr fun r _ => ?_
  by_cases happlied : core.appliedWalSeq < r.1 <;> by_cases hmark : d.wal.watermark < r.1 <;>
    simp [happlied, hmark]

/-- Where the position ends up when a record is dealt with. -/
theorem Advanced.position {w w' : World} {seq : Nat} (h : Advanced w (some seq) w') :
    seq ≤ position w'.core w'.disk
      ∧ position w'.core w'.disk ≤ max (position w.core w.disk) seq := by
  unfold Pipeline.position
  rw [h.applied, Option.getD_some]
  rcases h.watermark with hmark | ⟨seq', hseq', -, hmark⟩
  · rw [hmark]
    omega
  · cases hseq'
    rw [hmark]
    omega

end Agenomic.Ledger.Pipeline
