import Agenomic.Ledger.WalRefine

/-!
# The bytes of the log and its budget

The writer counts the bytes of its segments, and refuses a record that would take them
above the disk budget. The count is exact in every run (**`exact_run`**): recovery counts
what it leaves, and an append adds what it writes.

The budget is not kept. What is checked is the frame; a record that starts a segment also
brings the eight bytes of a header, which nobody checked. **`accounted_iff`** says when
the budget holds all the same: exactly when no such record comes within eight bytes of it.
-/

namespace Agenomic.Ledger

open Lib

/-- A log in use: its writer, once it is opened, its directory, and whether the log was within its
budget when it was opened. -/
structure BudgetRun where
  writer : Option WalWriter
  dir : Directory
  within : Bool

namespace BudgetRun

variable (serde : WalSerde)

/-- A directory nobody has opened. -/
def start (d : Directory) : BudgetRun := ⟨none, d, false⟩

def step (s : BudgetRun) : WalOp → BudgetRun
  | .append draft =>
      match s.writer with
      | none => s
      | some w =>
          let (w, d, _) := w.append serde s.dir draft .ok
          { s with writer := some w, dir := d }
  | .checkpoint n =>
      match s.writer with
      | none => s
      | some _ => { s with dir := WalWriter.checkpoint serde s.dir n }
  | .reopen segmentMaxBytes diskMaxBytes =>
      match WalWriter.open serde segmentMaxBytes diskMaxBytes s.dir with
      | (d, .ok (w, _)) => ⟨some w, d, decide (w.totalLen ≤ w.diskMaxBytes)⟩
      | (d, .error _) => ⟨none, d, false⟩

/-- The count is the bytes of the live segments, and the writer writes to one of them. -/
def Exact (s : BudgetRun) : Prop :=
  ∀ w, s.writer = some w →
    w.totalLen = segmentBytes s.dir (listSegments s.dir) ∧ isSegmentName w.current = true

/-- A log that was within its budget when it was opened still is. -/
def WithinBudget (s : BudgetRun) : Prop :=
  ∀ w, s.writer = some w → s.within = true → w.totalLen ≤ w.diskMaxBytes

/-- The count is exact, and the budget is kept. -/
def Accounted (s : BudgetRun) : Prop := s.Exact ∧ s.WithinBudget

/-- A record that is accepted and starts a segment leaves room for the header. -/
def HeaderFits (s : BudgetRun) : WalOp → Prop
  | .append draft => ∀ w, s.writer = some w → s.within = true → ¬w.OverBudget serde draft →
      w.RotationFits → w.Fresh s.dir →
      w.totalLen + headerLen + (w.nextFrame serde draft).length ≤ w.diskMaxBytes
  | _ => True

variable {serde}

/-! ## What an append adds -/

/-- Adding to a segment adds to the bytes of the log. -/
theorem segmentBytes_appendBytes (d : Directory) {n : String} (hseg : isSegmentName n = true)
    (b : Bytes) :
    segmentBytes (Directory.appendBytes d n b) (listSegments (Directory.appendBytes d n b))
      = segmentBytes d (listSegments d) + b.length := by
  by_cases hn : n ∈ d
  · have hlist : listSegments (Directory.appendBytes d n b) = listSegments d :=
      Directory.list_insert_of_mem _ hn
    obtain ⟨before, after, hsplit⟩ := List.append_of_mem (mem_listSegments.mpr ⟨hn, hseg⟩)
    have hnodup := listSegments_nodup d
    rw [hsplit, List.nodup_append] at hnodup
    obtain ⟨-, hafter, hapart⟩ := hnodup
    have hother : ∀ m, m ≠ n →
        ((Directory.appendBytes d n b).content m).length = (d.content m).length := by
      intro m hm
      rw [Directory.content, Directory.appendBytes_of_ne b hm.symm, ← Directory.content]
    have hbefore : before.map (fun m => ((Directory.appendBytes d n b).content m).length)
        = before.map fun m => (d.content m).length :=
      List.map_congr_left fun m hm => hother m (hapart m hm n List.mem_cons_self)
    have hbehind : after.map (fun m => ((Directory.appendBytes d n b).content m).length)
        = after.map fun m => (d.content m).length :=
      List.map_congr_left fun m hm => hother m fun heq =>
        (List.nodup_cons.mp hafter).1 (heq ▸ hm)
    rw [hlist, hsplit]
    unfold segmentBytes
    rw [List.map_append, List.map_append, List.map_cons, List.map_cons, hbefore, hbehind,
      List.sum_append, List.sum_append, List.sum_cons, List.sum_cons,
      Directory.content_appendBytes, List.length_append]
    omega
  · rw [WalRun.segmentBytes_new hseg hn, Nat.add_comm]

theorem rotated_diskMaxBytes (w : WalWriter) : w.rotated.diskMaxBytes = w.diskMaxBytes := by
  unfold WalWriter.rotated
  split <;> rfl

/-! ## One operation -/

/-- What an append does to the books. -/
theorem step_append {s : BudgetRun} {w : WalWriter} {draft : LedgerEntryDraft}
    (hw : s.writer = some w) :
    ((w.OverBudget serde draft ∨ ¬w.RotationFits) ∧ s.step serde (.append draft) = s)
      ∨ (¬w.OverBudget serde draft ∧ w.RotationFits
        ∧ s.step serde (.append draft) = ⟨some (w.appended serde s.dir draft),
          Directory.appendBytes s.dir w.target (w.owedHeader s.dir ++ w.nextFrame serde draft),
          s.within⟩) := by
  unfold step
  rw [hw]
  dsimp only
  by_cases hrefused : w.OverBudget serde draft ∨ ¬w.RotationFits
  · obtain ⟨e, happend⟩ := WalWriter.append_refused (d := s.dir) hrefused .ok
    rw [happend]
    refine .inl ⟨hrefused, ?_⟩
    rw [← hw]
  · obtain ⟨hbudget, hrot⟩ := not_or.mp hrefused
    rw [WalWriter.append_ok hbudget (not_not.mp hrot)]
    exact .inr ⟨hbudget, not_not.mp hrot, rfl⟩

/-- **Every operation keeps the count exact.** -/
theorem exact_step {s : BudgetRun} (h : s.Exact) (op : WalOp) : (s.step serde op).Exact := by
  cases op with
  | append draft =>
      cases hw : s.writer with
      | none =>
          unfold step
          rw [hw]
          exact h
      | some w =>
          obtain ⟨hbytes, hseg⟩ := h w hw
          rcases @step_append serde s w draft hw with
            ⟨-, hstep⟩ | ⟨-, -, hstep⟩
          · rw [hstep]
            exact h
          · rw [hstep]
            intro w' hw'
            cases hw'
            refine ⟨?_, WalWriter.isSegmentName_target hseg⟩
            show w.totalLen + (w.owedHeader s.dir).length + (w.nextFrame serde draft).length
              = segmentBytes _ _
            rw [segmentBytes_appendBytes _ (WalWriter.isSegmentName_target hseg), ← hbytes,
              List.length_append, Nat.add_assoc]
  | checkpoint n =>
      cases hw : s.writer with
      | none =>
          unfold step
          rw [hw]
          exact h
      | some w =>
          unfold step
          dsimp only
          rw [hw]
          intro w' hw'
          obtain ⟨hbytes, hseg⟩ := h w' (hw.trans hw')
          refine ⟨?_, hseg⟩
          rw [hbytes, listSegments_checkpoint]
          unfold segmentBytes
          refine congrArg List.sum (List.map_congr_left fun m hm => ?_)
          rw [Directory.content, Directory.content,
            checkpoint_of_segment (mem_listSegments.mp hm).2]
  | reopen segmentMaxBytes diskMaxBytes =>
      unfold step
      dsimp only
      cases hcheck : readCheckpoint serde s.dir with
      | error e =>
          rw [WalWriter.open, hcheck]
          intro w hw
          cases hw
      | ok checkpoint =>
          obtain ⟨d, w, report, hopen, -, -, -, -, hcurrent, -, -, -, htotal⟩ :=
            open_recovers hcheck segmentMaxBytes diskMaxBytes
          rw [hopen]
          intro w' hw'
          cases hw'
          refine ⟨htotal, ?_⟩
          rw [hcurrent]
          exact isSegmentName_segmentPath _

/-- **The books stay right over an operation exactly when its header fits.** -/
theorem accounted_step_iff {s : BudgetRun} {op : WalOp} (h : s.Accounted) :
    (s.step serde op).Accounted ↔ s.HeaderFits serde op := by
  refine (and_iff_right (exact_step h.1 op)).trans ?_
  cases op with
  | append draft =>
      cases hw : s.writer with
      | none =>
          have hstep : s.step serde (.append draft) = s := by
            unfold step
            rw [hw]
          rw [hstep]
          constructor
          · intro _ w hw'
            rw [hw] at hw'
            cases hw'
          · exact fun _ => h.2
      | some w =>
          rcases @step_append serde s w draft hw with
            ⟨hrefused, hstep⟩ | ⟨hbudget, hrot, hstep⟩
          · rw [hstep]
            constructor
            · intro _ w' hw' _ hbudget hrot
              rw [hw] at hw'
              cases hw'
              exact absurd hrefused (not_or.mpr ⟨hbudget, not_not.mpr hrot⟩)
            · exact fun _ => h.2
          · have hle : w.totalLen + (w.nextFrame serde draft).length ≤ w.diskMaxBytes :=
              Nat.not_lt.mp hbudget
            have htotal : (w.appended serde s.dir draft).totalLen
                = w.totalLen + (w.owedHeader s.dir).length
                  + (w.nextFrame serde draft).length := rfl
            have hdisk : (w.appended serde s.dir draft).diskMaxBytes = w.diskMaxBytes :=
              rotated_diskMaxBytes w
            rw [hstep]
            constructor
            · intro hwithin w' hw' hin _ _ hfresh
              rw [hw] at hw'
              cases hw'
              have hbound := hwithin _ rfl hin
              rw [htotal, hdisk, WalWriter.owedHeader, if_pos hfresh, segmentHeader_length]
                at hbound
              exact hbound
            · intro hfits w' hw' hin
              cases hw'
              rw [htotal, hdisk]
              by_cases hfresh : w.Fresh s.dir
              · have hbound := hfits w hw hin hbudget hrot hfresh
                rw [WalWriter.owedHeader, if_pos hfresh, segmentHeader_length]
                exact hbound
              · rw [WalWriter.owedHeader, if_neg hfresh]
                exact hle
  | checkpoint n =>
      refine iff_of_true ?_ trivial
      unfold step
      dsimp only
      cases hw : s.writer with
      | none => exact h.2
      | some w => exact fun w' hw' => h.2 w' (hw.trans hw')
  | reopen segmentMaxBytes diskMaxBytes =>
      refine iff_of_true ?_ trivial
      unfold step
      dsimp only
      split
      · intro w hw hin
        cases hw
        exact of_decide_eq_true hin
      · intro w hw
        cases hw

/-! ## Runs -/

theorem accounted_start (d : Directory) : (start d).Accounted :=
  ⟨fun _ => (nomatch ·), fun _ => (nomatch ·)⟩

/-- **The books are right behind every operation exactly when every header fits.** -/
theorem accounted_iff (serde : WalSerde) (d : Directory) (ops : List WalOp) :
    Along (step serde) (fun s op => (s.step serde op).Accounted) (start d) ops
      ↔ Along (step serde) (HeaderFits serde) (start d) ops :=
  along_iff (fun (s : BudgetRun) op (h : s.Accounted) (hfits : s.HeaderFits serde op) =>
      (accounted_step_iff h).mpr hfits)
    (fun _ _ h => accounted_step_iff h) (accounted_start d)

/-- A new log is opened within any budget. -/
theorem step_reopen_empty (m n : Nat) : step serdeJson (start ∅) (.reopen m n)
    = ⟨some (WalWriter.first m n), ∅, true⟩ := by
  unfold step start
  dsimp only
  rw [WalWriter.open_empty]
  exact congrArg (BudgetRun.mk _ _) (decide_eq_true (Nat.zero_le n))

/-- A budget that has room for one frame. -/
def frameBudget : Nat := (serdeJson.frames.frame ⟨1, draft 1⟩).length

/-- The first record of a new log brings its header above the budget. -/
theorem not_accounted_first : ¬ Along (step serdeJson) (fun s op => (s.step serdeJson op).Accounted)
    (start ∅) [.reopen 1048576 frameBudget, .append (draft 1)] := by
  rintro ⟨hopened, happended, -⟩
  have hlen : ((WalWriter.first 1048576 frameBudget).nextFrame serdeJson (draft 1)).length
      = frameBudget := rfl
  have hbudget : ¬(WalWriter.first 1048576 frameBudget).OverBudget serdeJson (draft 1) :=
    WalWriter.not_overBudget_first (Nat.le_refl frameBudget)
  have hrot : (WalWriter.first 1048576 frameBudget).RotationFits := by
    unfold WalWriter.RotationFits WalWriter.first
    dsimp only
    omega
  rw [step_reopen_empty] at hopened happended
  have hbound := (accounted_step_iff hopened).mp happended _ rfl rfl hbudget hrot (.inr rfl)
  rw [hlen, headerLen] at hbound
  unfold WalWriter.first at hbound
  dsimp only at hbound
  omega

end BudgetRun

end Agenomic.Ledger
