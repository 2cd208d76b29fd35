import Agenomic.Ledger.WalSegments

/-!
# What an append does to the directory

An append either writes nothing or adds bytes to one file, its *target*: the
current segment, or the next one when the current one is full. What it adds is
some prefix of the header it owes and the frame (**`append_cases`**); it is
acknowledged only when all of it was written.
-/

namespace Agenomic.Ledger

open Lib

variable {serde : WalSerde}

namespace WalWriter

/-- The writer of a log that was empty when it was opened. -/
def first (segmentMaxBytes diskMaxBytes : Nat) : WalWriter where
  segmentMaxBytes := segmentMaxBytes
  diskMaxBytes := diskMaxBytes
  current := segmentPath 1
  currentLen := 0
  totalLen := 0
  nextWalSeq := 1

theorem readCheckpoint_empty : readCheckpoint serde ∅ = .ok 0 := by
  have hnone : (∅ : Directory)[walCheckpointFile]? = none := Std.ExtTreeMap.getElem?_empty
  rw [readCheckpoint, hnone]

theorem open_empty (serde : WalSerde) (segmentMaxBytes diskMaxBytes : Nat) :
    WalWriter.open serde segmentMaxBytes diskMaxBytes ∅
      = (∅, .ok (first segmentMaxBytes diskMaxBytes, ⟨[], [], 0, [], 0⟩)) := by
  have hlist : listSegments ∅ = [] := rfl
  have hcontent : (∅ : Directory).content (segmentPath 1) = [] := by
    rw [Directory.content, Std.ExtTreeMap.getElem?_empty]
    rfl
  have hsort : sortBySeq [] = [] := List.mergeSort_nil
  have hindex : max ((([] : List String).getLast?.map segmentIndex).getD 0) 1 = 1 := rfl
  rw [WalWriter.open, readCheckpoint_empty]
  simp only [hlist, recoverSegments, hsort, hindex, hcontent]
  rfl

/-- The writer behind the rotation an append starts with. -/
def rotated (w : WalWriter) : WalWriter :=
  if w.segmentMaxBytes ≤ w.currentLen then
    { w with current := segmentPath (segmentIndex w.current + 1), currentLen := 0 }
  else w

/-- The segment an append writes to. -/
def target (w : WalWriter) : String := w.rotated.current

/-- An append to its target starts with a header. -/
def Fresh (w : WalWriter) (d : Directory) : Prop :=
  w.rotated.current ∉ d ∨ w.rotated.currentLen = 0

instance (w : WalWriter) (d : Directory) : Decidable (w.Fresh d) :=
  inferInstanceAs (Decidable (_ ∨ _))

/-- The header an append owes. -/
def owedHeader (w : WalWriter) (d : Directory) : Bytes := if w.Fresh d then segmentHeader else []

/-- The frame an append writes. -/
def nextFrame (serde : WalSerde) (w : WalWriter) (draft : LedgerEntryDraft) : Bytes :=
  serde.frames.frame ⟨w.nextWalSeq, draft⟩

/-- The append is refused for want of disk budget. -/
def OverBudget (serde : WalSerde) (w : WalWriter) (draft : LedgerEntryDraft) : Prop :=
  w.diskMaxBytes < w.totalLen + (w.nextFrame serde draft).length

instance (w : WalWriter) (draft : LedgerEntryDraft) : Decidable (w.OverBudget serde draft) :=
  inferInstanceAs (Decidable (_ < _))

theorem appendFrame_cases {w w' : WalWriter} {d d' : Directory} {io : WriteOutcome} {frame : Bytes}
    {res : CliResult Nat} (h : w.appendFrame d io frame = (w', d', res)) :
    w'.current = w.current ∧
    ((∃ k e, d' = Directory.appendBytes d w.current (frame.take k) ∧ res = .error e)
      ∨ (∃ e, d' = Directory.appendBytes d w.current frame ∧ res = .error e)
      ∨ (d' = Directory.appendBytes d w.current frame ∧ res = .ok w.nextWalSeq)) := by
  rw [appendFrame] at h
  split at h
  · rename_i k hk
    cases h
    exact ⟨rfl, Or.inl ⟨k, _, rfl, rfl⟩⟩
  · dsimp only at h
    split at h
    · cases h
      exact ⟨rfl, Or.inr (Or.inr ⟨rfl, rfl⟩)⟩
    · cases h
      exact ⟨rfl, Or.inr (Or.inl ⟨_, rfl, rfl⟩)⟩

/-- What an append to an open segment does. -/
theorem appendRecord_cases {w w' : WalWriter} {d d' : Directory} {io : WriteOutcome}
    {frame : Bytes} {res : CliResult Nat} (h : w.appendRecord d io frame = (w', d', res)) :
    w'.current = w.current ∧
    ((∃ e, d' = d ∧ res = .error e)
      ∨ (∃ k e, (w.current ∉ d ∨ w.currentLen = 0)
          ∧ d' = Directory.appendBytes d w.current (segmentHeader.take k) ∧ res = .error e)
      ∨ (∃ k e, d' = Directory.appendBytes d w.current
          ((if w.current ∉ d ∨ w.currentLen = 0 then segmentHeader else []) ++ frame.take k)
          ∧ res = .error e)
      ∨ (d' = Directory.appendBytes d w.current
          ((if w.current ∉ d ∨ w.currentLen = 0 then segmentHeader else []) ++ frame)
          ∧ res = .ok w.nextWalSeq)) := by
  rw [appendRecord] at h
  split at h
  · cases h
    exact ⟨rfl, Or.inl ⟨_, rfl, rfl⟩⟩
  have hall : frame.take frame.length = frame := List.take_length
  split at h
  · rename_i hfresh
    split at h
    · rename_i k _
      cases h
      exact ⟨rfl, Or.inr (Or.inl ⟨k, _, hfresh, rfl, rfl⟩)⟩
    · obtain ⟨hcur, hcases⟩ := appendFrame_cases h
      refine ⟨hcur, Or.inr (Or.inr ?_)⟩
      rw [if_pos hfresh]
      rcases hcases with ⟨k, e, hd, he⟩ | ⟨e, hd, he⟩ | ⟨hd, hok⟩
      · exact Or.inl ⟨k, e, by rw [hd, Directory.appendBytes_append], he⟩
      · exact Or.inl ⟨frame.length, e, by rw [hd, Directory.appendBytes_append, hall], he⟩
      · exact Or.inr ⟨by rw [hd, Directory.appendBytes_append], hok⟩
  · rename_i hfresh
    obtain ⟨hcur, hcases⟩ := appendFrame_cases h
    refine ⟨hcur, Or.inr (Or.inr ?_)⟩
    simp only [if_neg hfresh, List.nil_append]
    rcases hcases with ⟨k, e, hd, he⟩ | ⟨e, hd, he⟩ | ⟨hd, hok⟩
    · exact Or.inl ⟨k, e, hd, he⟩
    · exact Or.inl ⟨frame.length, e, by rw [hall, hd], he⟩
    · exact Or.inr ⟨hd, hok⟩

theorem rotated_nextWalSeq (w : WalWriter) : w.rotated.nextWalSeq = w.nextWalSeq := by
  rw [rotated]
  split <;> rfl

/-- A rotation stays within 32-bit indices. -/
def RotationFits (w : WalWriter) : Prop :=
  w.segmentMaxBytes ≤ w.currentLen → segmentIndex w.current + 1 < 4294967296

/-- An append that is not refused writes through the rotated writer. -/
theorem append_write {w : WalWriter} {draft : LedgerEntryDraft}
    (hbudget : ¬w.OverBudget serde draft) (hrot : w.RotationFits) (d : Directory)
    (io : WriteOutcome) : w.append serde d draft io
      = w.rotated.appendRecord d io (w.nextFrame serde draft) := by
  have hle : ¬w.diskMaxBytes < w.totalLen + (serde.frames.frame ⟨w.nextWalSeq, draft⟩).length :=
    hbudget
  rw [append, rotated, if_neg hle, rotate]
  split
  · rename_i hfull
    rw [if_pos (hrot hfull)]
    rfl
  · rfl

/-- An append that is not refused may still fail to rotate. -/
theorem append_eq {w : WalWriter} {d : Directory} {draft : LedgerEntryDraft}
    (hbudget : ¬w.OverBudget serde draft) (io : WriteOutcome) :
    (∃ e, w.append serde d draft io = (w, d, .error e))
      ∨ w.append serde d draft io = w.rotated.appendRecord d io (w.nextFrame serde draft) := by
  have hle : ¬w.diskMaxBytes < w.totalLen + (serde.frames.frame ⟨w.nextWalSeq, draft⟩).length :=
    hbudget
  rw [append, rotated, if_neg hle, rotate]
  split
  · split
    · rename_i heq
      split at heq
      · cases heq
      · exact Or.inl ⟨_, rfl⟩
    · rename_i heq
      split at heq
      · cases heq; exact Or.inr rfl
      · cases heq
  · exact Or.inr rfl

/-- An append that is not accepted changes nothing. -/
theorem append_refused {w : WalWriter} {d : Directory} {draft : LedgerEntryDraft}
    (h : w.OverBudget serde draft ∨ ¬w.RotationFits) (io : WriteOutcome) :
    ∃ e, w.append serde d draft io = (w, d, .error e) := by
  by_cases hbudget : w.OverBudget serde draft
  · have hover : w.diskMaxBytes
        < w.totalLen + (serde.frames.frame ⟨w.nextWalSeq, draft⟩).length := hbudget
    rw [append, if_pos hover]
    exact ⟨_, rfl⟩
  · have hle : ¬w.diskMaxBytes
        < w.totalLen + (serde.frames.frame ⟨w.nextWalSeq, draft⟩).length := hbudget
    obtain ⟨hfull, hindex⟩ := Classical.not_imp.mp (h.resolve_left hbudget)
    rw [append, if_neg hle, if_pos hfull, rotate, if_neg hindex]
    exact ⟨_, rfl⟩

/-- The target of an append is a segment. -/
theorem isSegmentName_target {w : WalWriter} (h : isSegmentName w.current = true) :
    isSegmentName w.target = true := by
  unfold WalWriter.target WalWriter.rotated
  split
  · exact isSegmentName_segmentPath _
  · exact h

/-- **An append writes nothing, or a prefix of what it owes to its target.** -/
theorem append_cases {w w' : WalWriter} {d d' : Directory} {draft : LedgerEntryDraft}
    {io : WriteOutcome} {res : CliResult Nat}
    (h : w.append serde d draft io = (w', d', res)) :
    (w'.current = w.current ∨ w'.current = w.target) ∧
    ((∃ e, d' = d ∧ res = .error e)
      ∨ ¬w.OverBudget serde draft ∧
        ((∃ k e, w.Fresh d ∧ d' = Directory.appendBytes d w.target (segmentHeader.take k) ∧ res = .error e)
        ∨ (∃ k e, d' = Directory.appendBytes d w.target
            (w.owedHeader d ++ (w.nextFrame serde draft).take k) ∧ res = .error e)
        ∨ (d' = Directory.appendBytes d w.target (w.owedHeader d ++ w.nextFrame serde draft)
            ∧ res = .ok w.nextWalSeq))) := by
  by_cases hbudget : w.OverBudget serde draft
  · have hlt : w.diskMaxBytes < w.totalLen + (serde.frames.frame ⟨w.nextWalSeq, draft⟩).length :=
      hbudget
    rw [append, if_pos hlt] at h
    cases h
    exact ⟨Or.inl rfl, Or.inl ⟨_, rfl, rfl⟩⟩
  rcases append_eq (d := d) hbudget io with ⟨e, heq⟩ | heq
  · rw [heq] at h
    cases h
    exact ⟨Or.inl rfl, Or.inl ⟨e, rfl, rfl⟩⟩
  · rw [heq] at h
    obtain ⟨hcur, hcases⟩ := appendRecord_cases h
    rw [rotated_nextWalSeq] at hcases
    refine ⟨Or.inr hcur, ?_⟩
    rcases hcases with ⟨e, hd, he⟩ | hcases
    · exact Or.inl ⟨e, hd, he⟩
    · exact Or.inr ⟨hbudget, hcases⟩

/-- The writer behind an append that succeeds. -/
def appended (serde : WalSerde) (w : WalWriter) (d : Directory) (draft : LedgerEntryDraft) :
    WalWriter :=
  let frame := w.nextFrame serde draft
  { w.rotated with
    currentLen := (if w.Fresh d then headerLen else w.rotated.currentLen) + frame.length
    totalLen := w.totalLen + (w.owedHeader d).length + frame.length
    nextWalSeq := w.nextWalSeq + 1 }

/-- **An append whose calls all succeed writes what it owes and is acknowledged.** -/
theorem append_ok {w : WalWriter} {draft : LedgerEntryDraft} (hbudget : ¬w.OverBudget serde draft)
    (hrot : w.RotationFits) (d : Directory) :
    w.append serde d draft .ok = (w.appended serde d draft,
      Directory.appendBytes d w.target (w.owedHeader d ++ w.nextFrame serde draft), .ok w.nextWalSeq) := by
  have hseq := w.rotated_nextWalSeq
  have htotal : w.rotated.totalLen = w.totalLen := by
    rw [rotated]
    split <;> rfl
  rw [append_write hbudget hrot, appended, owedHeader, target]
  by_cases hfresh : w.Fresh d
  · rw [if_pos hfresh, if_pos hfresh, appendRecord]
    have hf : w.rotated.current ∉ d ∨ w.rotated.currentLen = 0 := hfresh
    rw [if_neg (by decide), if_pos hf]
    simp only [WriteOutcome.ok, appendFrame, if_true, Directory.appendBytes_append, hseq, htotal,
      segmentHeader_length]
  · rw [if_neg hfresh, if_neg hfresh, appendRecord]
    have hf : ¬(w.rotated.current ∉ d ∨ w.rotated.currentLen = 0) := hfresh
    rw [if_neg (by decide), if_neg hf]
    simp only [WriteOutcome.ok, appendFrame, if_true, hseq, htotal, List.nil_append,
      List.length_nil, Nat.add_zero]

/-- A new log takes what its budget has room for. -/
theorem not_overBudget_first {draft : LedgerEntryDraft} {m n : Nat}
    (h : (serde.frames.frame ⟨1, draft⟩).length ≤ n) : ¬(first m n).OverBudget serde draft := by
  have hframe : (first m n).nextFrame serde draft = serde.frames.frame ⟨1, draft⟩ := rfl
  rw [OverBudget, hframe, first]
  dsimp only
  omega

end WalWriter

theorem first_not_overBudget :
    ¬(WalWriter.first 1048576 1073741824).OverBudget serdeJson (draft 1) := by
  have h : (serdeJson.toVec ⟨1, draft 1⟩).length ≤ maxFrameLen :=
    fits_draft_one (by decide)
  have hbytes : serdeJson.frames.encode ⟨1, draft 1⟩ = serdeJson.toVec ⟨1, draft 1⟩ := rfl
  rw [maxFrameLen] at h
  refine WalWriter.not_overBudget_first ?_
  rw [serdeJson.frames.frame_length ⟨1, draft 1⟩, hbytes]
  omega

end Agenomic.Ledger
