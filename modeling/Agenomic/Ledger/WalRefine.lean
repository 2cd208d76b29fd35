import Agenomic.Lib.Run
import Agenomic.Ledger.WalLayout

/-!
# Without faults the log is a plain log

The writer and its directory simulate a log with a watermark (`Refines`): the
directory holds the log, and the current segment is the one no other segment
comes after. Appending, checkpointing and closing and opening again all keep the
relation (**`Refines.append`**, **`Refines.mark`**, **`Refines.reopen`**), so a run
returns the positions 1, 2, 3, … and always reads back exactly what is above the
watermark (**`plainBehaviour_run`**).

The relation needs segment names to sort like their indices, and they do only up
to eight digits. A run that rotates past index 99999999 reopens the wrong segment
and writes into the middle of another (**`not_plainBehaviour_lateRotation`**).
-/

namespace Agenomic.Ledger

open Lib

/-- The first index whose name has nine digits. -/
def indexLimit : Nat := 100000000

/-- The writer and its directory simulate the log. -/
structure Refines (serde : WalSerde) (w : WalWriter) (d : Directory)
    (log : PlainLog LedgerEntryDraft) : Prop where
  layout : Layout serde d log
  index : ∃ i, 1 ≤ i ∧ i < indexLimit ∧ w.current = segmentPath i
    ∧ ∀ n ∈ listSegments d, ∃ j, j ≤ i ∧ n = segmentPath j
  currentLen : w.currentLen = (d.content w.current).length
  next : w.nextWalSeq = log.next

/-- A rotation stays within eight digits. -/
def RotatesEarly (w : WalWriter) : Prop :=
  w.segmentMaxBytes ≤ w.currentLen → segmentIndex w.current + 1 < indexLimit

variable {serde : WalSerde} {w : WalWriter} {d : Directory} {log : PlainLog LedgerEntryDraft}

theorem segmentPath_injective {i j : Nat} (hi : i < 4294967296) (hj : j < 4294967296)
    (h : segmentPath i = segmentPath j) : i = j := by
  rw [← segmentIndex_segmentPath hi, h, segmentIndex_segmentPath hj]

theorem content_of_not_mem {n : String} (h : n ∉ d) : d.content n = [] := by
  rw [Directory.content, Std.ExtTreeMap.getElem?_eq_none h]
  rfl

/-- Behind a rotation the relation still holds: the next segment does not exist yet. -/
theorem Refines.rotated (h : Refines serde w d log) (hrot : RotatesEarly w) :
    Refines serde w.rotated d log := by
  rw [WalWriter.rotated]
  split
  · rename_i hfull
    obtain ⟨i, hi1, hi, hcur, hall⟩ := h.index
    have hidx : segmentIndex w.current = i := by
      rw [hcur, segmentIndex_segmentPath (Nat.lt_trans hi (by decide))]
    have hlt := hrot hfull
    rw [hidx] at hlt ⊢
    refine ⟨h.layout, ⟨i + 1, Nat.succ_pos i, hlt, rfl, fun n hn => ?_⟩, ?_, h.next⟩
    · obtain ⟨j, hj, hname⟩ := hall n hn
      exact ⟨j, Nat.le_succ_of_le hj, hname⟩
    · have hnot : segmentPath (i + 1) ∉ d := by
        intro hmem
        obtain ⟨j, hj, hname⟩ :=
          hall _ (mem_listSegments.mpr ⟨hmem, isSegmentName_segmentPath _⟩)
        rw [indexLimit] at hlt
        have heq := segmentPath_injective (by omega) (by omega) hname
        omega
      show 0 = (d.content (segmentPath (i + 1))).length
      rw [content_of_not_mem hnot]
      rfl
  · exact h

theorem RotatesEarly.rotationFits (hrot : RotatesEarly w) : w.RotationFits :=
  fun hfull => Nat.lt_trans (hrot hfull) (by decide)

/-- A header is due exactly when the target is missing. -/
theorem Refines.fresh_iff (h : Refines serde w d log) (hrot : RotatesEarly w) :
    w.Fresh d ↔ w.target ∉ d := by
  have hr := h.rotated hrot
  constructor
  · rintro (hmiss | hzero)
    · exact hmiss
    · intro hmem
      obtain ⟨i, -, -, hcur, -⟩ := hr.index
      have hseg : isSegmentName w.target = true := by
        rw [WalWriter.target, hcur]
        exact isSegmentName_segmentPath i
      obtain ⟨hd, rest, hbytes, hh, -⟩ :=
        hr.layout.whole w.target (mem_listSegments.mpr ⟨hmem, hseg⟩)
      have hlen := hr.currentLen
      rw [hzero, ← WalWriter.target, hbytes, List.length_append, hh.length, headerLen] at hlen
      omega
  · exact Or.inl

/-- **An append returns the next position and adds the entry.** -/
theorem Refines.append (h : Refines serde w d log) {draft : LedgerEntryDraft}
    (hbudget : ¬w.OverBudget serde draft) (hfits : serde.frames.Fits ⟨log.next, draft⟩)
    (hrot : RotatesEarly w) :
    w.append serde d draft .ok = (w.appended serde d draft,
        Directory.appendBytes d w.target (w.owedHeader d ++ w.nextFrame serde draft), .ok log.next)
      ∧ Refines serde (w.appended serde d draft) (Directory.appendBytes d w.target
          (w.owedHeader d ++ w.nextFrame serde draft)) (log.append draft) := by
  have hr := h.rotated hrot
  obtain ⟨i, hi1, hi, hcur, hall⟩ := hr.index
  have htarget : w.target = segmentPath i := hcur
  have hseg : isSegmentName w.target = true := by
    rw [htarget]
    exact isSegmentName_segmentPath i
  have hframe : w.nextFrame serde draft = serde.frames.frame ⟨log.next, draft⟩ := by
    rw [WalWriter.nextFrame, h.next]
  have hadded : (w.target ∉ d ∧ w.owedHeader d ++ w.nextFrame serde draft
        = segmentHeader ++ serde.frames.frame ⟨log.next, draft⟩)
      ∨ (w.target ∈ d ∧ w.owedHeader d ++ w.nextFrame serde draft
        = serde.frames.frame ⟨log.next, draft⟩) := by
    by_cases hf : w.Fresh d
    · exact Or.inl ⟨(h.fresh_iff hrot).mp hf, by rw [WalWriter.owedHeader, if_pos hf, hframe]⟩
    · refine Or.inr ⟨not_not.mp fun hn => hf ((h.fresh_iff hrot).mpr hn), ?_⟩
      rw [WalWriter.owedHeader, if_neg hf, hframe, List.nil_append]
  refine ⟨?_, h.layout.append hseg hfits hadded, ⟨i, hi1, hi, hcur, fun n hn => ?_⟩, ?_, ?_⟩
  · rw [WalWriter.append_ok hbudget hrot.rotationFits, h.next]
  · have hmem := mem_listSegments.mp hn
    rw [Directory.appendBytes, Std.ExtTreeMap.mem_insert, compare_eq_iff_eq] at hmem
    rcases hmem.1 with heq | hold
    · exact ⟨i, Nat.le_refl i, heq.symm.trans htarget⟩
    · exact hall n (mem_listSegments.mpr ⟨hold, hmem.2⟩)
  · have hcontent : (Directory.appendBytes d w.target
        (w.owedHeader d ++ w.nextFrame serde draft)).content w.target
        = d.content w.target ++ (w.owedHeader d ++ w.nextFrame serde draft) :=
      Directory.content_eq (Directory.appendBytes_self _ _ _)
    show (if w.Fresh d then headerLen else w.rotated.currentLen) + _
      = (Directory.content _ w.target).length
    rw [hcontent, List.length_append, List.length_append, WalWriter.owedHeader]
    by_cases hf : w.Fresh d
    · rw [if_pos hf, if_pos hf, content_of_not_mem ((h.fresh_iff hrot).mp hf),
        segmentHeader_length, List.length_nil, Nat.zero_add]
    · rw [if_neg hf, if_neg hf, hr.currentLen, List.length_nil, Nat.zero_add]
      rfl
  · show w.nextWalSeq + 1 = (log.append draft).next
    rw [h.next, PlainLog.next, PlainLog.next, PlainLog.append, List.length_append]
    rfl

/-- **A checkpoint moves the watermark.** -/
theorem Refines.mark (h : Refines serde w d log) {n : Nat} (hle : log.watermark ≤ n)
    (hn : n ≤ log.entries.length) :
    Refines serde w (WalWriter.checkpoint serde d n) (log.mark n) := by
  obtain ⟨i, hi1, hi, hcur, hall⟩ := h.index
  refine ⟨h.layout.mark hle hn, ⟨i, hi1, hi, hcur, fun m hm => ?_⟩, ?_, h.next⟩
  · rw [listSegments_checkpoint] at hm
    exact hall m hm
  · have hseg : isSegmentName w.current = true := by
      rw [hcur]
      exact isSegmentName_segmentPath i
    rw [h.currentLen, Directory.content, Directory.content, checkpoint_of_segment hseg]

/-- The last name listed is the current segment or one before it. -/
theorem getLast?_index {i : Nat} (hi : i < indexLimit)
    (hall : ∀ n ∈ listSegments d, ∃ j, j ≤ i ∧ n = segmentPath j) :
    let k := ((listSegments d).getLast?.map segmentIndex).getD 0
    k ≤ i ∧ ∀ n ∈ listSegments d, ∃ j, j ≤ k ∧ n = segmentPath j := by
  rw [indexLimit] at hi
  cases hl : (listSegments d).getLast? with
  | none =>
      rw [List.getLast?_eq_none_iff] at hl
      refine ⟨Nat.zero_le i, fun n hn => ?_⟩
      rw [hl] at hn
      cases hn
  | some l =>
      obtain ⟨k, hk, rfl⟩ := hall l (List.mem_of_getLast? hl)
      have hidx : ((some (segmentPath k)).map segmentIndex).getD 0 = k := by
        rw [Option.map_some, Option.getD_some, segmentIndex_segmentPath (by omega)]
      rw [hidx]
      refine ⟨hk, fun n hn => ?_⟩
      obtain ⟨j, hj, rfl⟩ := hall n hn
      refine ⟨j, ?_, rfl⟩
      by_contra hlt
      -- a later index would have been listed behind the last name
      have hname := segmentPath_lt_segmentPath (i := k) (j := j) (by omega) (by omega)
      obtain ⟨init, hinit⟩ := List.getLast?_eq_some_iff.mp hl
      have hsorted := d.list_sorted isSegmentName
      rw [← listSegments, hinit, List.pairwise_append] at hsorted
      rw [hinit, List.mem_append, List.mem_singleton] at hn
      rcases hn with hn | hn
      · exact absurd (hsorted.2.2 _ hn _ (List.mem_singleton.mpr rfl)) (lt_asymm hname)
      · rw [hn] at hname
        exact absurd hname (lt_irrefl _)

/-- **Opening again returns what is pending and keeps the relation.** -/
theorem Refines.reopen (h : Refines serde w d log) (segmentMaxBytes diskMaxBytes : Nat) :
    ∃ d' w' report,
      WalWriter.open serde segmentMaxBytes diskMaxBytes d = (d', .ok (w', report))
      ∧ report.pending = pendingRecords log ∧ Refines serde w' d' log := by
  obtain ⟨i, hi1, hi, -, hall⟩ := h.index
  obtain ⟨d', w', report, hopen, hlayout, hpend, hnext, hcur, hlen, hsub, -⟩ :=
    h.layout.reopen segmentMaxBytes diskMaxBytes
  obtain ⟨hk, hlast⟩ := getLast?_index hi hall
  refine ⟨d', w', report, hopen, hpend, hlayout, ⟨_, Nat.le_max_right _ _, ?_, hcur,
    fun n hn => ?_⟩, hlen, hnext⟩
  · exact Nat.max_lt.mpr ⟨Nat.lt_of_le_of_lt hk hi, by decide⟩
  · obtain ⟨j, hj, hname⟩ := hlast n (hsub n hn)
    exact ⟨j, Nat.le_trans hj (Nat.le_max_left _ _), hname⟩

/-- A log opened in an empty directory is empty. -/
theorem refines_first (serde : WalSerde) (segmentMaxBytes diskMaxBytes : Nat) :
    Refines serde (WalWriter.first segmentMaxBytes diskMaxBytes) ∅ .empty := by
  have hlist : listSegments ∅ = [] := rfl
  have hnone : ∀ n, n ∉ listSegments ∅ := fun n hn => by rw [hlist] at hn; cases hn
  refine ⟨⟨fun n hn => absurd hn (hnone n), ?_, WalWriter.readCheckpoint_empty, Nat.le_refl 0⟩,
    ⟨1, Nat.le_refl 1, by decide, rfl, fun n hn => absurd hn (hnone n)⟩, ?_, rfl⟩
  · rw [hlist]
    exact List.Perm.refl _
  · rw [content_of_not_mem Std.ExtTreeMap.not_mem_empty]
    rfl

/-! ## Runs -/

/-- A log in use: its writer and directory, the plain log it should be, the positions it
returned. -/
structure WalRun where
  writer : WalWriter
  dir : Directory
  log : PlainLog LedgerEntryDraft
  returned : List (CliResult Nat)

inductive WalOp where
  | append (draft : LedgerEntryDraft)
  | checkpoint (appliedWalSeq : Nat)
  /-- Close, and open with other limits. -/
  | reopen (segmentMaxBytes diskMaxBytes : Nat)

namespace WalRun

variable (serde : WalSerde)

/-- A log opened in an empty directory. -/
def start (segmentMaxBytes diskMaxBytes : Nat) : WalRun :=
  ⟨WalWriter.first segmentMaxBytes diskMaxBytes, ∅, .empty, []⟩

def step (s : WalRun) : WalOp → WalRun
  | .append draft =>
      let (w, d, res) := s.writer.append serde s.dir draft .ok
      ⟨w, d, s.log.append draft, s.returned ++ [res]⟩
  | .checkpoint n => { s with dir := WalWriter.checkpoint serde s.dir n, log := s.log.mark n }
  | .reopen segmentMaxBytes diskMaxBytes =>
      match WalWriter.open serde segmentMaxBytes diskMaxBytes s.dir with
      | (d, .ok (w, _)) => { s with writer := w, dir := d }
      | (d, .error _) => { s with dir := d }

/-- An append fits the budget and a frame; a checkpoint moves forward over what was appended. -/
def Admissible (s : WalRun) : WalOp → Prop
  | .append draft =>
      ¬s.writer.OverBudget serde draft ∧ serde.frames.Fits ⟨s.writer.nextWalSeq, draft⟩
  | .checkpoint n => s.log.watermark ≤ n ∧ n ≤ s.log.entries.length
  | .reopen _ _ => True

/-- An append does not rotate past eight digits. -/
def Early (s : WalRun) : WalOp → Prop
  | .append _ => RotatesEarly s.writer
  | _ => True

/-- The appends returned 1, 2, 3, …, and what is above the watermark is read back, in order, now
and by the next opening. -/
structure PlainBehaviour (s : WalRun) : Prop where
  returned : s.returned = (List.range' 1 s.log.entries.length).map Except.ok
  pending : WalWriter.pending serde s.dir = .ok (pendingRecords s.log)
  reopened : ∀ segmentMaxBytes diskMaxBytes, ∃ d w report,
    WalWriter.open serde segmentMaxBytes diskMaxBytes s.dir = (d, .ok (w, report))
      ∧ report.pending = pendingRecords s.log

/-- The run simulates the plain log. -/
structure Simulates (s : WalRun) : Prop where
  refines : Refines serde s.writer s.dir s.log
  returned : s.returned = (List.range' 1 s.log.entries.length).map Except.ok

variable {serde}

theorem simulates_start (serde : WalSerde) (segmentMaxBytes diskMaxBytes : Nat) :
    (start segmentMaxBytes diskMaxBytes).Simulates serde :=
  ⟨refines_first serde segmentMaxBytes diskMaxBytes, rfl⟩

/-- An operation keeps the simulation. -/
theorem simulates_step {s : WalRun} (h : s.Simulates serde) (op : WalOp)
    (hadm : s.Admissible serde op) (hearly : s.Early op) : (s.step serde op).Simulates serde := by
  cases op with
  | append draft =>
      obtain ⟨hbudget, hfits⟩ := hadm
      rw [h.refines.next] at hfits
      obtain ⟨happ, hrefines⟩ := h.refines.append hbudget hfits hearly
      rw [step, happ]
      refine ⟨hrefines, ?_⟩
      show s.returned ++ [.ok s.log.next] = _
      rw [h.returned, PlainLog.append, List.length_append, List.length_singleton,
        List.range'_1_concat, List.map_append, PlainLog.next, Nat.add_comm 1]
      rfl
  | checkpoint n => exact ⟨h.refines.mark hadm.1 hadm.2, h.returned⟩
  | reopen segmentMaxBytes diskMaxBytes =>
      obtain ⟨d', w', report, hopen, -, hrefines⟩ :=
        h.refines.reopen segmentMaxBytes diskMaxBytes
      rw [step, hopen]
      exact ⟨hrefines, h.returned⟩

theorem Simulates.plainBehaviour {s : WalRun} (h : s.Simulates serde) : s.PlainBehaviour serde := by
  refine ⟨h.returned, h.refines.layout.pending_eq, fun segmentMaxBytes diskMaxBytes => ?_⟩
  obtain ⟨d', w', report, hopen, hpend, -⟩ := h.refines.reopen segmentMaxBytes diskMaxBytes
  exact ⟨d', w', report, hopen, hpend⟩

/-- The most bytes a segment of one record takes. -/
def segmentBound : Nat := 67108880

/-- The disk budget of the run: no append of it comes near. -/
def wideBudget : Nat := 9223372036854775808

/-- Every record in a segment of its own. -/
structure Spread (s : WalRun) (k : Nat) : Prop where
  simulates : s.Simulates serdeJson
  log : s.log = ⟨List.replicate k (draft 1), 0⟩
  current : s.writer.current = segmentPath (k + 1)
  full : s.writer.segmentMaxBytes = 0
  disk : s.writer.diskMaxBytes = wideBudget
  total : s.writer.totalLen ≤ k * segmentBound
  bytes : segmentBytes s.dir (listSegments s.dir) ≤ k * segmentBound
  written : 0 < k → s.writer.current ∈ s.dir

theorem frame_draft_length {n : Nat} (h : n < 1000000000) :
    (serdeJson.frames.frame ⟨n, draft 1⟩).length ≤ 67108872 := by
  have hfits : (serdeJson.frames.encode ⟨n, draft 1⟩).length ≤ maxFrameLen := fits_draft_one h
  rw [maxFrameLen] at hfits
  rw [FrameFormat.frame_length]
  omega

/-- A writer that has room and rotates at every append. -/
structure Rotating (w : WalWriter) (d : Directory) (i k : Nat) : Prop where
  current : w.current = segmentPath i
  full : w.segmentMaxBytes = 0
  disk : w.diskMaxBytes = wideBudget
  total : w.totalLen ≤ k * segmentBound
  next : w.nextWalSeq = k + 1

/-- Such a writer puts the next record behind a header in the next segment. -/
theorem Rotating.append {w : WalWriter} {d : Directory} {i k : Nat} (h : Rotating w d i k)
    (hi : i < indexLimit) (hk : k ≤ indexLimit) :
    ¬w.OverBudget serdeJson (draft 1) ∧ serdeJson.frames.Fits ⟨w.nextWalSeq, draft 1⟩
      ∧ w.append serdeJson d (draft 1) .ok = (w.appended serdeJson d (draft 1),
          Directory.appendBytes d (segmentPath (i + 1))
            (segmentHeader ++ serdeJson.frames.frame ⟨k + 1, draft 1⟩), .ok (k + 1))
      ∧ (w.appended serdeJson d (draft 1)).current = segmentPath (i + 1)
      ∧ (w.appended serdeJson d (draft 1)).segmentMaxBytes = 0
      ∧ (w.appended serdeJson d (draft 1)).diskMaxBytes = wideBudget
      ∧ (w.appended serdeJson d (draft 1)).totalLen ≤ (k + 1) * segmentBound := by
  rw [indexLimit] at hi hk
  have hlen := frame_draft_length (n := k + 1) (by omega)
  have htotal := h.total
  have hbudget : ¬w.OverBudget serdeJson (draft 1) := by
    rw [WalWriter.OverBudget, WalWriter.nextFrame, h.disk, h.next, wideBudget]
    rw [segmentBound] at htotal
    omega
  have hidx : segmentIndex w.current = i := by
    rw [h.current, segmentIndex_segmentPath (by omega)]
  have hrotated : w.rotated = { w with current := segmentPath (i + 1), currentLen := 0 } := by
    rw [WalWriter.rotated, h.full, if_pos (Nat.zero_le _), hidx]
  have hfresh : w.Fresh d := by
    rw [WalWriter.Fresh, hrotated]
    exact Or.inr rfl
  have howed : w.owedHeader d = segmentHeader := by rw [WalWriter.owedHeader, if_pos hfresh]
  have htarget : w.target = segmentPath (i + 1) := by rw [WalWriter.target, hrotated]
  refine ⟨hbudget, ?_, ?_, htarget, ?_, ?_, ?_⟩
  · rw [h.next]
    exact fits_draft_one (by omega)
  · rw [WalWriter.append_ok hbudget (fun _ => by rw [hidx]; omega), htarget, howed,
      WalWriter.nextFrame, h.next]
  · rw [WalWriter.appended, hrotated]
    exact h.full
  · rw [WalWriter.appended, hrotated]
    exact h.disk
  · have happended : (w.appended serdeJson d (draft 1)).totalLen
        = w.totalLen + headerLen + (serdeJson.frames.frame ⟨k + 1, draft 1⟩).length := by
      rw [WalWriter.appended, howed, segmentHeader_length, WalWriter.nextFrame, h.next]
    rw [happended, headerLen]
    rw [segmentBound] at htotal ⊢
    omega

/-- A new segment adds its bytes. -/
theorem segmentBytes_new {d : Directory} {n : String} (hseg : isSegmentName n = true)
    (hn : n ∉ d) (b : Bytes) :
    segmentBytes (Directory.appendBytes d n b) (listSegments (Directory.appendBytes d n b))
      = b.length + segmentBytes d (listSegments d) := by
  have hperm : (listSegments (Directory.appendBytes d n b)).Perm (n :: listSegments d) :=
    Directory.list_insert_perm _ hseg hn
  have hself : ((Directory.appendBytes d n b).content n).length = b.length := by
    rw [Directory.content_eq (Directory.appendBytes_self d n b), content_of_not_mem hn]
    rfl
  rw [segmentBytes, (hperm.map _).sum_eq, List.map_cons, List.sum_cons, hself]
  congr 2
  refine List.map_congr_left fun m hm => ?_
  have hne : n ≠ m := fun heq => hn (heq ▸ (mem_listSegments.mp hm).1)
  rw [Directory.content, Directory.content, Directory.appendBytes_of_ne _ hne]

theorem Spread.rotating {s : WalRun} {k : Nat} (h : Spread s k) :
    Rotating s.writer s.dir (k + 1) k := by
  refine ⟨h.current, h.full, h.disk, h.total, ?_⟩
  rw [h.simulates.refines.next, h.log, PlainLog.next, List.length_replicate]

/-- Every segment has an index up to the current one. -/
theorem Spread.names {s : WalRun} {k : Nat} (h : Spread s k) (hk : k < indexLimit) :
    ∀ n ∈ listSegments s.dir, ∃ j, j ≤ k + 1 ∧ n = segmentPath j := by
  obtain ⟨i, -, hi, hcur, hall⟩ := h.simulates.refines.index
  rw [indexLimit] at hi hk
  have hik : i = k + 1 := segmentPath_injective (by omega) (by omega)
    (hcur.symm.trans h.current)
  rw [← hik]
  exact hall

theorem Spread.not_mem_next {s : WalRun} {k : Nat} (h : Spread s k) (hk : k < indexLimit) :
    segmentPath (k + 2) ∉ s.dir := by
  intro hmem
  obtain ⟨j, hj, hname⟩ := h.names hk _ (mem_listSegments.mpr
    ⟨hmem, isSegmentName_segmentPath _⟩)
  rw [indexLimit] at hk
  have heq := segmentPath_injective (by omega) (by omega) hname
  omega

theorem Spread.segmentBytes_next {s : WalRun} {k : Nat} (h : Spread s k) (hk : k < indexLimit) :
    let d := Directory.appendBytes s.dir (segmentPath (k + 2))
      (segmentHeader ++ serdeJson.frames.frame ⟨k + 1, draft 1⟩)
    segmentBytes d (listSegments d) ≤ (k + 1) * segmentBound := by
  have hlen := frame_draft_length (n := k + 1) (by rw [indexLimit] at hk; omega)
  have hbytes := h.bytes
  dsimp only
  rw [segmentBytes_new (isSegmentName_segmentPath _) (h.not_mem_next hk), List.length_append,
    segmentHeader_length, headerLen]
  rw [segmentBound] at hbytes ⊢
  omega

theorem spread_step {s : WalRun} {k : Nat} (h : Spread s k) (hk : k + 2 < indexLimit) :
    s.Admissible serdeJson (.append (draft 1))
      ∧ Spread (s.step serdeJson (.append (draft 1))) (k + 1) := by
  have hk' : k < indexLimit := by omega
  obtain ⟨hbudget, hfits, happ, hcur, hfull, hdisk, htotal⟩ :=
    h.rotating.append (d := s.dir) (by omega) (by omega)
  have hearly : s.Early (.append (draft 1)) := by
    intro _
    rw [h.current, segmentIndex_segmentPath (by rw [indexLimit] at hk; omega)]
    omega
  have hsim := simulates_step h.simulates (.append (draft 1)) ⟨hbudget, hfits⟩ hearly
  have hbytes := h.segmentBytes_next hk'
  refine ⟨⟨hbudget, hfits⟩, ?_⟩
  rw [step, happ] at hsim ⊢
  refine ⟨hsim, ?_, hcur, hfull, hdisk, htotal, hbytes, fun _ => ?_⟩
  · show s.log.append (draft 1) = _
    rw [h.log, PlainLog.append, List.replicate_succ']
  · show (s.writer.appended serdeJson s.dir (draft 1)).current ∈ _
    rw [hcur, Directory.mem_iff_getElem?]
    exact ⟨_, Directory.appendBytes_self _ _ _⟩

/-- As long as the indices have eight digits, records spread one to a segment. -/
theorem spread_run : ∀ k, k + 1 < indexLimit →
    Along (step serdeJson) (Admissible serdeJson) (start 0 wideBudget)
        (List.replicate k (.append (draft 1)))
      ∧ Spread (run (step serdeJson) (start 0 wideBudget) (List.replicate k (.append (draft 1)))) k
  | 0, _ => by
      refine ⟨trivial, simulates_start serdeJson 0 wideBudget, rfl, rfl, rfl, rfl, ?_, ?_, ?_⟩
      · exact Nat.zero_le _
      · exact Nat.zero_le _
      · exact fun h => absurd h (Nat.lt_irrefl 0)
  | k + 1, hk => by
      obtain ⟨halong, hspread⟩ := spread_run k (by omega)
      obtain ⟨hadm, hnext⟩ := spread_step hspread hk
      rw [List.replicate_succ', run_append]
      exact ⟨halong.append ⟨hadm, trivial⟩, hnext⟩

/-- A pending record is read from some segment. -/
theorem mem_pending {d : Directory} {rs : List WalRecord} (h : WalWriter.pending serde d = .ok rs)
    {r : WalRecord} (hr : r ∈ rs) : ∃ n ∈ listSegments d, ∃ sc,
      readSegment serde n (d.content n) = .ok sc ∧ r ∈ sc.records := by
  have hin : ∀ (c : Nat) (ns : List String) (rs : List WalRecord),
      WalWriter.pendingIn serde d c ns = .ok rs → ∀ r ∈ rs, ∃ n ∈ ns, ∃ sc,
        readSegment serde n (d.content n) = .ok sc ∧ r ∈ sc.records := by
    intro c ns
    induction ns with
    | nil => intro rs hrs r hr; cases hrs; cases hr
    | cons n ns ih =>
        intro rs hrs r hr
        rw [WalWriter.pendingIn] at hrs
        obtain ⟨sc, hread, hrs⟩ := bind_eq_ok.mp hrs
        obtain ⟨rs', hrest, hrs⟩ := bind_eq_ok.mp hrs
        cases hrs
        rcases List.mem_append.mp hr with hr | hr
        · exact ⟨n, List.mem_cons_self, sc, hread, List.mem_of_mem_filter hr⟩
        · obtain ⟨m, hm, hsc⟩ := ih rs' hrest r hr
          exact ⟨m, List.mem_cons_of_mem _ hm, hsc⟩
  rw [WalWriter.pending] at h
  obtain ⟨c, -, h⟩ := bind_eq_ok.mp h
  obtain ⟨rs', hrs', h⟩ := bind_eq_ok.mp h
  cases h
  exact hin c _ rs' hrs' r ((List.mergeSort_perm _ _).mem_iff.mp hr)

/-- Appends that each take a segment, one of them the first with nine digits, a reopening, one
more append. -/
def lateRotation (n : Nat) : List WalOp :=
  List.replicate n (.append (draft 1))
    ++ [.append (draft 1), .reopen 0 wideBudget, .append (draft 1)]

/-- A header in the place of a frame is torn. -/
theorem scan_header (rest : Bytes) :
    serdeJson.frames.scan (segmentHeader ++ rest) = some ⟨[], 0, true⟩ := by
  have hhead : serdeJson.frames.head (segmentHeader ++ rest) = .torn := by
    show serdeJson.frames.head (65 :: 76 :: 87 :: 76 :: 1 :: 0 :: 0 :: 0 :: rest) = _
    rw [FrameFormat.head, if_pos (Or.inl (by decide))]
  rw [FrameFormat.scan_eq, hhead]

/-- The last segment in the order of names is not the one with the highest index. -/
theorem Spread.reopened_current {s : WalRun} {k : Nat} (h : Spread s k)
    (hk : k + 2 = indexLimit) {d : Directory} {b : Bytes}
    (hd : d = Directory.appendBytes s.dir (segmentPath (k + 2)) b) (hmem : s.writer.current ∈ s.dir) :
    ((listSegments d).getLast?.map segmentIndex).getD 0 = k + 1 := by
  have hlate : segmentPath indexLimit ≤ segmentPath (indexLimit - 1) := by decide +kernel
  have hin : ∀ {n}, n ∈ d ↔ n = segmentPath (k + 2) ∨ n ∈ s.dir := by
    intro n
    rw [hd, Directory.appendBytes, Std.ExtTreeMap.mem_insert, compare_eq_iff_eq, eq_comm]
  have hlast : (listSegments d).getLast? = some (segmentPath (k + 1)) := by
    refine Directory.getLast?_list (mem_listSegments.mpr ⟨?_, isSegmentName_segmentPath _⟩)
      fun m hm => ?_
    · rw [hin, ← h.current]
      exact Or.inr hmem
    · obtain ⟨hm1, hm2⟩ := mem_listSegments.mp hm
      rcases hin.mp hm1 with rfl | hold
      · rw [hk, show k + 1 = indexLimit - 1 by omega]
        exact hlate
      · obtain ⟨j, hj, rfl⟩ := h.names (by omega) m (mem_listSegments.mpr ⟨hold, hm2⟩)
        rcases Nat.eq_or_lt_of_le hj with rfl | hlt
        · exact le_refl _
        · exact le_of_lt (segmentPath_lt_segmentPath hlt (by rw [indexLimit] at hk; omega))
  rw [hlast, Option.map_some, Option.getD_some,
    segmentIndex_segmentPath (by rw [indexLimit] at hk; omega)]

/-- **Past eight digits an acknowledged record is not read back.** -/
theorem lateRotation_fails {k : Nat} (hk : k + 2 = indexLimit) :
    Along (step serdeJson) (Admissible serdeJson) (start 0 wideBudget) (lateRotation k)
      ∧ ¬(run (step serdeJson) (start 0 wideBudget) (lateRotation k)).PlainBehaviour serdeJson := by
  have hk' : k < indexLimit := by omega
  obtain ⟨halong, hspread⟩ := spread_run k (by omega)
  rw [lateRotation, run_append]
  generalize hs : run (step serdeJson) (start 0 wideBudget) (List.replicate k (.append (draft 1)))
    = s at hspread
  -- the first segment with nine digits
  obtain ⟨hbudget₁, hfits₁, happ₁, -⟩ := hspread.rotating.append (d := s.dir) (by omega) (by omega)
  have hnext : s.log.next = k + 1 := by
    rw [hspread.log, PlainLog.next, List.length_replicate]
  have hnew := hspread.not_mem_next hk'
  have hfits : serdeJson.frames.Fits ⟨k + 1, draft 1⟩ :=
    fits_draft_one (by rw [indexLimit] at hk; omega)
  have hlayout₁ := hspread.simulates.refines.layout.append (isSegmentName_segmentPath (k + 2))
    (hnext.symm ▸ hfits) (Or.inl ⟨hnew, rfl⟩)
  have hbytes₁ := hspread.segmentBytes_next hk'
  rw [hnext] at hlayout₁
  have hget₁ := Directory.appendBytes_self s.dir (segmentPath (k + 2))
    (segmentHeader ++ serdeJson.frames.frame ⟨k + 1, draft 1⟩)
  rw [content_of_not_mem hnew, List.nil_append] at hget₁
  have hindex₁ := hspread.reopened_current hk (b := segmentHeader
    ++ serdeJson.frames.frame ⟨k + 1, draft 1⟩) rfl
    (hspread.written (by rw [indexLimit] at hk; omega))
  generalize hd₁ : Directory.appendBytes s.dir (segmentPath (k + 2))
    (segmentHeader ++ serdeJson.frames.frame ⟨k + 1, draft 1⟩) = d₁
    at happ₁ hlayout₁ hbytes₁ hget₁ hindex₁
  have hwhole₁ : WholeSegment serdeJson (d₁.content (segmentPath (k + 2)))
      [⟨k + 1, draft 1⟩] := by
    rw [Directory.content_eq hget₁]
    exact wholeSegment_header.append hfits
  have hstep₁ : s.step serdeJson (.append (draft 1))
      = ⟨s.writer.appended serdeJson s.dir (draft 1), d₁, s.log.append (draft 1),
          s.returned ++ [.ok (k + 1)]⟩ := by
    rw [step, happ₁]
  -- opening takes the last name for the last segment
  obtain ⟨d₂, w₂, report, hopen₂, hlayout₂, -, hnext₂, hcur₂, -, -, hkept, hfull₂, hdisk₂, htotal₂⟩ :=
    hlayout₁.reopen 0 wideBudget
  have hstep₂ : step serdeJson ⟨s.writer.appended serdeJson s.dir (draft 1), d₁,
      s.log.append (draft 1), s.returned ++ [.ok (k + 1)]⟩ (.reopen 0 wideBudget)
      = ⟨w₂, d₂, s.log.append (draft 1), s.returned ++ [.ok (k + 1)]⟩ := by
    rw [step, hopen₂]
  have hlength : (s.log.append (draft 1)).entries.length = k + 1 := by
    rw [hspread.log, PlainLog.append, List.length_append, List.length_replicate]
    rfl
  have hrotating₂ : Rotating w₂ d₂ (k + 1) (k + 1) := by
    refine ⟨?_, hfull₂, hdisk₂, Nat.le_trans htotal₂ hbytes₁, ?_⟩
    · rw [hcur₂, hindex₁, Nat.max_eq_left (Nat.succ_pos k)]
    · rw [hnext₂, PlainLog.next, hlength]
  obtain ⟨hbudget₃, hfits₃, happ₃, -⟩ := hrotating₂.append (d := d₂) (by omega) (by omega)
  have hadm : Along (step serdeJson) (Admissible serdeJson) s
      [.append (draft 1), .reopen 0 wideBudget, .append (draft 1)] := by
    refine ⟨⟨hbudget₁, hfits₁⟩, trivial, ?_, trivial⟩
    rw [hstep₁, hstep₂]
    exact ⟨hbudget₃, hfits₃⟩
  refine ⟨halong.append (hs.symm ▸ hadm), fun hplain => ?_⟩
  · rw [run_cons, run_cons, run_cons, run_nil, hstep₁, hstep₂, step, happ₃] at hplain
    have hpending := hplain.pending
    dsimp only at hpending
    have hwanted : (⟨k + 2, draft 1⟩ : WalRecord)
        ∈ pendingRecords ((s.log.append (draft 1)).append (draft 1)) := by
      rw [pendingRecords_append hlayout₂.applied, PlainLog.next, hlength]
      exact List.mem_append_right _ List.mem_cons_self
    obtain ⟨n, hn, sc, hread, hmem⟩ := mem_pending hpending hwanted
    by_cases hname : segmentPath (k + 2) = n
    · -- the segment that got a header in its middle
      have hget₂ : d₂[segmentPath (k + 2)]? = some (segmentHeader
          ++ serdeJson.frames.frame ⟨k + 1, draft 1⟩) := by
        rw [hkept (segmentPath (k + 2)) (mem_listSegments.mpr
          ⟨Directory.mem_iff_getElem?.mpr ⟨_, hget₁⟩, isSegmentName_segmentPath _⟩)
          ⟨⟨k + 1, draft 1⟩, by rw [segmentRecords_of_whole hwhole₁]; exact List.mem_cons_self, ?_⟩]
        · exact hget₁
        · show s.log.watermark < k + 1
          rw [hspread.log]
          exact Nat.succ_pos k
      rw [← hname, Directory.content_eq (Directory.appendBytes_self _ _ _),
        Directory.content_eq hget₂, List.append_assoc,
        readSegment_of_header goodHeader_segmentHeader,
        serdeJson.frames.scan_append _ (serdeJson.frames.clean_frame hfits), scan_header] at hread
      cases hread
      have heq := congrArg WalRecord.walSeq (List.mem_singleton.mp hmem)
      dsimp only at heq
      omega
    · have hother := Directory.appendBytes_of_ne (d := d₂)
        (segmentHeader ++ serdeJson.frames.frame ⟨k + 1 + 1, draft 1⟩) hname
      have hn₂ : n ∈ listSegments d₂ := by
        obtain ⟨hn1, hn2⟩ := mem_listSegments.mp hn
        rw [Directory.mem_iff_getElem?, hother, ← Directory.mem_iff_getElem?] at hn1
        exact mem_listSegments.mpr ⟨hn1, hn2⟩
      rw [Directory.content, hother, ← Directory.content, hlayout₂.read hn₂] at hread
      cases hread
      have hold : (⟨k + 2, draft 1⟩ : WalRecord) ∈ pendingRecords (s.log.append (draft 1)) := by
        refine hlayout₂.pending.mem_iff.mp (List.mem_filter.mpr
          ⟨List.mem_flatMap.mpr ⟨n, hn₂, hmem⟩, decide_eq_true ?_⟩)
        show s.log.watermark < k + 2
        rw [hspread.log]
        exact Nat.succ_pos _
      have hle := (mem_pendingRecords hold).2
      rw [hlength] at hle
      dsimp only at hle
      omega

end WalRun

end Agenomic.Ledger
