import Agenomic.Lib.Run
import Agenomic.Ledger.WalAppend
import Agenomic.Ledger.WalRecovery

/-!
# Acknowledged records and failed appends

A failed append can leave part of a header or of a frame behind, while the writer
still believes the length it had before. The reader stops at the first bad frame,
so a later append to the same file is acknowledged and never read.

The invariant is that every acknowledged record is read from some segment
(`Spool.Kept`). An append preserves it as long as it finds its target clean:
nothing in the file when a header is due, whole frames otherwise
(**`kept_call`**). So in every run whose appends find their target clean,
whatever fails in them, the next opening returns every acknowledged record above
the checkpoint (**`acked_pending`**).
-/

namespace Agenomic.Ledger

open Lib

/-- A writer, its directory, and the records it acknowledged. -/
structure Spool where
  writer : WalWriter
  dir : Directory
  acked : List WalRecord

/-- A call on an open log. -/
inductive WalCall where
  | append (draft : LedgerEntryDraft) (io : WriteOutcome)
  | checkpoint (appliedWalSeq : Nat)

namespace Spool

variable (serde : WalSerde)

/-- The spool after a call. -/
def call (s : Spool) : WalCall → Spool
  | .append draft io =>
      let (w, d, res) := s.writer.append serde s.dir draft io
      match res with
      | .ok walSeq => ⟨w, d, s.acked ++ [⟨walSeq, draft⟩]⟩
      | .error _ => ⟨w, d, s.acked⟩
  | .checkpoint appliedWalSeq => { s with dir := WalWriter.checkpoint serde s.dir appliedWalSeq }

/-- The appended record fits a frame. -/
def Fits (s : Spool) : WalCall → Prop
  | .append draft _ => serde.frames.Fits ⟨s.writer.nextWalSeq, draft⟩
  | .checkpoint _ => True

/-- The target of an append holds nothing when a header is due, whole frames otherwise. -/
def CleanTarget (s : Spool) : Prop :=
  (s.writer.Fresh s.dir → s.dir.content s.writer.target = [])
    ∧ (¬s.writer.Fresh s.dir → ∃ rs, WholeSegment serde (s.dir.content s.writer.target) rs)

/-- An append that is not refused finds its target clean. -/
def FindsClean (s : Spool) : WalCall → Prop
  | .append draft _ => ¬s.writer.OverBudget serde draft → s.CleanTarget serde
  | .checkpoint _ => True

/-- The next opening returns every acknowledged record above the checkpoint. -/
def AckedPending (s : Spool) : Prop :=
  ∃ c, readCheckpoint serde s.dir = .ok c ∧ ∀ segmentMaxBytes diskMaxBytes, ∃ d w report,
    WalWriter.open serde segmentMaxBytes diskMaxBytes s.dir = (d, .ok (w, report))
      ∧ ∀ r ∈ s.acked, c < r.walSeq → r ∈ report.pending

/-- Every acknowledged record is read from some segment. -/
structure Kept (s : Spool) : Prop where
  current : isSegmentName s.writer.current = true
  acked : ∀ r ∈ s.acked, ∃ n bytes sc, s.dir[n]? = some bytes ∧ isSegmentName n = true
    ∧ readSegment serde n bytes = .ok sc ∧ r ∈ sc.records
  checkpoint : ∃ c, readCheckpoint serde s.dir = .ok c

end Spool

variable {serde : WalSerde}

theorem readCheckpoint_appendBytes {d : Directory} {n : String} (b : Bytes)
    (h : isSegmentName n = true) :
    readCheckpoint serde (Directory.appendBytes d n b) = readCheckpoint serde d := by
  rw [readCheckpoint, readCheckpoint, Directory.appendBytes_of_ne _ (ne_walCheckpointFile h)]

theorem readCheckpoint_checkpoint (d : Directory) (n : Nat) :
    readCheckpoint serde (WalWriter.checkpoint serde d n) = .ok n := by
  rw [readCheckpoint, WalWriter.checkpoint, Directory.getElem?_insert_self]
  dsimp only
  rw [serde.checkpointFromStr_toVec]

/-- Whatever prefix of what it owes an append leaves, the target's records stay readable. -/
theorem read_target {s : Spool} {draft : LedgerEntryDraft}
    (hfits : serde.frames.Fits ⟨s.writer.nextWalSeq, draft⟩) (hclean : s.CleanTarget serde)
    {sc : FrameFormat.Scan WalRecord} {n : String}
    (hread : readSegment serde n (s.dir.content s.writer.target) = .ok sc) {added : Bytes}
    (hadded : (∃ k, s.writer.Fresh s.dir ∧ added = segmentHeader.take k)
      ∨ (∃ k, added = s.writer.owedHeader s.dir
          ++ (s.writer.nextFrame serde draft).take k)) :
    ∀ r ∈ sc.records, ∃ sc', readSegment serde n (s.dir.content s.writer.target ++ added) = .ok sc'
      ∧ r ∈ sc'.records := by
  intro r hr
  by_cases hfresh : s.writer.Fresh s.dir
  · -- the file holds nothing yet
    rw [hclean.1 hfresh] at hread
    cases hread
    cases hr
  · obtain ⟨rs, hwhole⟩ := hclean.2 hfresh
    rw [hwhole.read] at hread
    cases hread
    rcases hadded with ⟨k, hf, -⟩ | ⟨k, rfl⟩
    · exact absurd hf hfresh
    · rw [WalWriter.owedHeader, if_neg hfresh, List.nil_append]
      obtain ⟨sc', hread', hsub⟩ := hwhole.read_cut hfits k n
      exact ⟨sc', hread', hsub r hr⟩

/-- A whole frame written to a clean target is read back. -/
theorem read_appended {s : Spool} {draft : LedgerEntryDraft}
    (hfits : serde.frames.Fits ⟨s.writer.nextWalSeq, draft⟩) (hclean : s.CleanTarget serde)
    (n : String) : ∃ sc, readSegment serde n (s.dir.content s.writer.target
        ++ (s.writer.owedHeader s.dir ++ s.writer.nextFrame serde draft)) = .ok sc
      ∧ ⟨s.writer.nextWalSeq, draft⟩ ∈ sc.records := by
  by_cases hfresh : s.writer.Fresh s.dir
  · rw [hclean.1 hfresh, WalWriter.owedHeader, if_pos hfresh, List.nil_append,
      WalWriter.nextFrame, (wholeSegment_header.append hfits).read]
    exact ⟨_, rfl, List.mem_singleton.mpr rfl⟩
  · obtain ⟨rs, hwhole⟩ := hclean.2 hfresh
    rw [WalWriter.owedHeader, if_neg hfresh, List.nil_append, WalWriter.nextFrame,
      (hwhole.append hfits).read]
    exact ⟨_, rfl, List.mem_append_right _ (List.mem_singleton.mpr rfl)⟩

/-- **A call that finds its target clean keeps every acknowledged record readable.** -/
theorem kept_call {s : Spool} (h : s.Kept serde) {c : WalCall} (hfits : s.Fits serde c)
    (hclean : s.FindsClean serde c) : (s.call serde c).Kept serde := by
  cases c with
  | checkpoint n =>
      refine ⟨h.current, fun r hr => ?_, ⟨n, readCheckpoint_checkpoint _ _⟩⟩
      obtain ⟨m, bytes, sc, hm, hseg, hread, hmem⟩ := h.acked r hr
      refine ⟨m, bytes, sc, ?_, hseg, hread, hmem⟩
      show (WalWriter.checkpoint serde s.dir n)[m]? = some bytes
      rw [WalWriter.checkpoint, Directory.getElem?_insert_of_ne _ (ne_walCheckpointFile hseg).symm]
      exact hm
  | append draft io =>
      have htarget := WalWriter.isSegmentName_target h.current
      rw [Spool.call]
      cases happ : s.writer.append serde s.dir draft io with
      | mk w' rest =>
      obtain ⟨d', res⟩ := rest
      obtain ⟨hcur, hcases⟩ := WalWriter.append_cases happ
      have hcurrent : isSegmentName w'.current = true := by
        rcases hcur with hcur | hcur <;> rw [hcur]
        · exact h.current
        · exact htarget
      -- records in other files are untouched, those of the target stay readable
      have hold : ∀ added, s.CleanTarget serde →
          ((∃ k, s.writer.Fresh s.dir ∧ added = segmentHeader.take k)
            ∨ (∃ k, added = s.writer.owedHeader s.dir
                ++ (s.writer.nextFrame serde draft).take k)) →
          ∀ r ∈ s.acked, ∃ n bytes sc,
            (Directory.appendBytes s.dir s.writer.target added)[n]? = some bytes
              ∧ isSegmentName n = true ∧ readSegment serde n bytes = .ok sc ∧ r ∈ sc.records := by
        intro added hct hadded r hr
        obtain ⟨n, bytes, sc, hn, hseg, hread, hmem⟩ := h.acked r hr
        by_cases hnt : s.writer.target = n
        · subst hnt
          rw [← Directory.content_eq hn] at hread
          obtain ⟨sc', hread', hmem'⟩ := read_target hfits hct hread hadded r hmem
          exact ⟨_, _, sc', Directory.appendBytes_self _ _ _, hseg, hread', hmem'⟩
        · exact ⟨n, bytes, sc, (Directory.appendBytes_of_ne _ hnt).trans hn, hseg, hread, hmem⟩
      have hchk : ∀ added, ∃ c, readCheckpoint serde
          (Directory.appendBytes s.dir s.writer.target added) = .ok c := fun added => by
        rw [readCheckpoint_appendBytes added htarget]
        exact h.checkpoint
      rcases hcases with ⟨e, rfl, rfl⟩ | ⟨hbudget, hcases⟩
      · exact ⟨hcurrent, h.acked, h.checkpoint⟩
      have hct := hclean hbudget
      rcases hcases with ⟨k, e, hf, rfl, rfl⟩ | ⟨k, e, rfl, rfl⟩ | ⟨rfl, rfl⟩
      · exact ⟨hcurrent, hold _ hct (Or.inl ⟨k, hf, rfl⟩), hchk _⟩
      · exact ⟨hcurrent, hold _ hct (Or.inr ⟨k, rfl⟩), hchk _⟩
      · refine ⟨hcurrent, fun r hr => ?_, hchk _⟩
        rcases List.mem_append.mp hr with hr | hr
        · refine hold _ hct (Or.inr ⟨(s.writer.nextFrame serde draft).length, ?_⟩) r hr
          rw [List.take_length]
        · rw [List.mem_singleton.mp hr]
          obtain ⟨sc, hread, hmem⟩ := read_appended hfits hct s.writer.target
          exact ⟨_, _, sc, Directory.appendBytes_self _ _ _, htarget, hread, hmem⟩

/-- What is read from some segment is returned by the next opening. -/
theorem Spool.Kept.ackedPending {s : Spool} (h : s.Kept serde) : s.AckedPending serde := by
  obtain ⟨c, hc⟩ := h.checkpoint
  refine ⟨c, hc, fun segmentMaxBytes diskMaxBytes => ?_⟩
  obtain ⟨d, w, report, hopen, -, hpend, -⟩ := open_recovers hc segmentMaxBytes diskMaxBytes
  refine ⟨d, w, report, hopen, fun r hr habove => ?_⟩
  obtain ⟨n, bytes, sc, hn, hseg, hread, hmem⟩ := h.acked r hr
  have hlist : n ∈ listSegments s.dir :=
    mem_listSegments.mpr ⟨Directory.mem_iff_getElem?.mpr ⟨bytes, hn⟩, hseg⟩
  rw [← Directory.content_eq hn] at hread
  rw [hpend, sortBySeq, List.mem_mergeSort, recovered, List.mem_flatMap]
  refine ⟨n, hlist, ?_⟩
  rw [segmentFate, fateIn, fate_records_of_read hread, above, List.mem_filter]
  exact ⟨hmem, decide_eq_true habove⟩

/-- A log that was just opened has acknowledged nothing. -/
theorem kept_open {segmentMaxBytes diskMaxBytes : Nat} {d₀ d : Directory} {w : WalWriter}
    {report : WalRecoveryReport}
    (h : WalWriter.open serde segmentMaxBytes diskMaxBytes d₀ = (d, .ok (w, report))) :
    Spool.Kept serde ⟨w, d, []⟩ := by
  cases hc : readCheckpoint serde d₀ with
  | error e => rw [WalWriter.open, hc] at h; cases h
  | ok c =>
      obtain ⟨_, _, _, hopen, hrec, -, -, -, hcur, -⟩ :=
        open_recovers hc segmentMaxBytes diskMaxBytes
      rw [h] at hopen
      cases hopen
      refine ⟨?_, fun r hr => (by cases hr), ⟨c, hrec.checkpoint.trans hc⟩⟩
      show isSegmentName w.current = true
      rw [hcur]
      exact isSegmentName_segmentPath _

end Agenomic.Ledger
