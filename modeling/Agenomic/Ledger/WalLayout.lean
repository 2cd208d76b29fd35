import Agenomic.Lib.PlainLog
import Agenomic.Ledger.WalAppend
import Agenomic.Ledger.WalRestart

/-!
# A directory that holds a log

What a directory of segments means is a plain log with a watermark. The relation
is `Layout`: every segment is whole, and the records above the checkpoint, over
all segments in whatever order they are listed, are the pending entries of the
log. It does not say which segment holds what, so it survives rotation, and the
removal of applied segments, without further bookkeeping.

Three operations keep it: appending one frame to a whole or a new segment
(**`Layout.append`**), moving the checkpoint (**`Layout.checkpoint`**) and opening
(**`Layout.reopen`**). Reading the pending records gives the pending entries, in
order (**`Layout.pending_eq`**).
-/

namespace Agenomic.Ledger

open Lib

/-- The pending entries of a log, as records. -/
def pendingRecords (log : PlainLog LedgerEntryDraft) : List WalRecord :=
  log.pending.map fun p => ⟨p.1, p.2⟩

/-- The records read from a segment. -/
def segmentRecords (serde : WalSerde) (d : Directory) (n : String) : List WalRecord :=
  match readSegment serde n (d.content n) with
  | .ok s => s.records
  | .error _ => []

/-- The directory holds the log. -/
structure Layout (serde : WalSerde) (d : Directory) (log : PlainLog LedgerEntryDraft) : Prop where
  whole : ∀ n ∈ listSegments d, WholeSegment serde (d.content n) (segmentRecords serde d n)
  pending : (above log.watermark ((listSegments d).flatMap (segmentRecords serde d))).Perm
    (pendingRecords log)
  checkpoint : readCheckpoint serde d = .ok log.watermark
  applied : log.watermark ≤ log.entries.length

variable {serde : WalSerde} {d d' : Directory} {log : PlainLog LedgerEntryDraft}

/-! ## Pending records -/

theorem pendingRecords_append (h : log.watermark ≤ log.entries.length) (draft : LedgerEntryDraft) :
    pendingRecords (log.append draft) = pendingRecords log ++ [⟨log.next, draft⟩] := by
  rw [pendingRecords, PlainLog.pending_append h, List.map_append]
  rfl

theorem pendingRecords_mark {n : Nat} (h : log.watermark ≤ n) :
    pendingRecords (log.mark n) = above n (pendingRecords log) := by
  rw [pendingRecords, PlainLog.pending_mark h, above, pendingRecords, List.filter_map]
  rfl

theorem mem_pendingRecords {r : WalRecord} (h : r ∈ pendingRecords log) :
    log.watermark < r.walSeq ∧ r.walSeq ≤ log.entries.length := by
  obtain ⟨p, hp, rfl⟩ := List.mem_map.mp h
  rw [PlainLog.pending_eq_filter, List.mem_filter] at hp
  exact ⟨of_decide_eq_true hp.2, (PlainLog.mem_numbered hp.1).2⟩

theorem pendingRecords_pairwise (log : PlainLog LedgerEntryDraft) :
    (pendingRecords log).Pairwise fun a b => a.walSeq < b.walSeq := by
  rw [pendingRecords, List.pairwise_map, PlainLog.pending]
  exact log.numbered_pairwise.drop

/-- In an increasing list a position stands once. -/
theorem eq_of_walSeq_eq {a b : WalRecord} : ∀ {rs : List WalRecord},
    rs.Pairwise (fun a b => a.walSeq < b.walSeq) → a ∈ rs → b ∈ rs → a.walSeq = b.walSeq → a = b
  | r :: rs, hp, ha, hb, h => by
      rw [List.pairwise_cons] at hp
      rcases List.mem_cons.mp ha with rfl | ha' <;> rcases List.mem_cons.mp hb with rfl | hb'
      · rfl
      · exact absurd h (Nat.ne_of_lt (hp.1 b hb'))
      · exact absurd h.symm (Nat.ne_of_lt (hp.1 a ha'))
      · exact eq_of_walSeq_eq hp.2 ha' hb' h

/-- Sorting the records of a log gives them in order. -/
theorem sortBySeq_of_perm {rs : List WalRecord} (h : rs.Perm (pendingRecords log)) :
    sortBySeq rs = pendingRecords log := by
  have hsorted : (sortBySeq rs).Pairwise fun a b => decide (a.walSeq ≤ b.walSeq) = true := by
    refine List.pairwise_mergeSort ?_ ?_ rs
    · intro a b c hab hbc
      rw [decide_eq_true_eq] at hab hbc ⊢
      exact Nat.le_trans hab hbc
    · intro a b
      rw [Bool.or_eq_true, decide_eq_true_eq, decide_eq_true_eq]
      exact Nat.le_total _ _
  have hstrict := pendingRecords_pairwise log
  refine List.Perm.eq_of_pairwise ?_ hsorted
    (hstrict.imp fun hab => decide_eq_true (Nat.le_of_lt hab))
    ((List.mergeSort_perm _ _).trans h)
  intro a b ha hb hab hba
  rw [decide_eq_true_eq] at hab hba
  have ha' : a ∈ pendingRecords log := (h.mem_iff).mp ((List.mergeSort_perm _ _).mem_iff.mp ha)
  have hseq : a.walSeq = b.walSeq := Nat.le_antisymm hab hba
  exact eq_of_walSeq_eq hstrict ha' hb hseq

theorem le_maxSeq : ∀ (rs : List WalRecord) (m : Nat), m ≤ maxSeq rs m
  | [], m => Nat.le_refl m
  | r :: rs, m => Nat.le_trans (Nat.le_max_left _ _) (le_maxSeq rs (max m r.walSeq))

theorem mem_le_maxSeq {rs : List WalRecord} {m : Nat} {r : WalRecord} (h : r ∈ rs) :
    r.walSeq ≤ maxSeq rs m := by
  induction rs generalizing m with
  | nil => cases h
  | cons r' rs ih =>
      rcases List.mem_cons.mp h with rfl | h
      · exact Nat.le_trans (Nat.le_max_right _ _) (le_maxSeq rs _)
      · exact ih h

theorem maxSeq_le {b : Nat} : ∀ {rs : List WalRecord} {m : Nat}, m ≤ b →
    (∀ r ∈ rs, r.walSeq ≤ b) → maxSeq rs m ≤ b
  | [], _, hm, _ => hm
  | r :: rs, m, hm, h => by
      have hr := h r List.mem_cons_self
      exact maxSeq_le (m := max m r.walSeq) (by omega) fun x hx =>
        h x (List.mem_cons_of_mem _ hx)

/-- The highest position of a log is its length. -/
theorem maxSeq_of_perm {rs : List WalRecord} (h : rs.Perm (pendingRecords log))
    (hw : log.watermark ≤ log.entries.length) : maxSeq rs log.watermark = log.entries.length := by
  refine Nat.le_antisymm (maxSeq_le hw fun r hr => (mem_pendingRecords (h.mem_iff.mp hr)).2) ?_
  rcases Nat.eq_or_lt_of_le hw with heq | hlt
  · rw [← heq]
    exact le_maxSeq _ _
  · obtain ⟨a, ha⟩ : ∃ a, log.entries[log.entries.length - 1]? = some a :=
      ⟨_, List.getElem?_eq_getElem (by omega)⟩
    have hmem : (⟨log.entries.length, a⟩ : WalRecord) ∈ pendingRecords log := by
      rw [pendingRecords, List.mem_map]
      refine ⟨(log.entries.length, a), ?_, rfl⟩
      rw [PlainLog.pending_eq_filter, List.mem_filter]
      refine ⟨List.mem_of_getElem? (i := log.entries.length - 1) ?_, decide_eq_true hlt⟩
      rw [PlainLog.numbered_getElem?, ha]
      simp only [Option.map_some]
      congr 2
      omega
    exact mem_le_maxSeq (h.mem_iff.mpr hmem)

/-! ## Reading -/

theorem segmentRecords_of_whole {n : String} {rs : List WalRecord}
    (h : WholeSegment serde (d.content n) rs) : segmentRecords serde d n = rs := by
  rw [segmentRecords, h.read]

/-- In a directory that holds a log every segment is read in full. -/
theorem Layout.read (h : Layout serde d log) {n : String} (hn : n ∈ listSegments d) :
    readSegment serde n (d.content n)
      = .ok ⟨segmentRecords serde d n, (d.content n).length, false⟩ := (h.whole n hn).read n

/-- **Reading the pending records gives the pending entries, in order.** -/
theorem Layout.pending_eq (h : Layout serde d log) :
    WalWriter.pending serde d = .ok (pendingRecords log) := by
  have hin : ∀ ns : List String, (∀ n ∈ ns, n ∈ listSegments d) →
      WalWriter.pendingIn serde d log.watermark ns
        = .ok (above log.watermark (ns.flatMap (segmentRecords serde d))) := by
    intro ns
    induction ns with
    | nil => intro _; rfl
    | cons n ns ih =>
        intro hns
        have hread := h.read (hns n List.mem_cons_self)
        have hrest := ih fun m hm => hns m (List.mem_cons_of_mem _ hm)
        rw [WalWriter.pendingIn, hread, hrest]
        show Except.ok (above _ _ ++ above _ _) = _
        rw [List.flatMap_cons, above, above, above, List.filter_append]
  rw [WalWriter.pending, h.checkpoint]
  show (do
    let rs ← WalWriter.pendingIn serde d log.watermark (listSegments d)
    Except.ok (sortBySeq rs)) = _
  rw [hin _ fun n hn => hn]
  show Except.ok (sortBySeq _) = _
  rw [sortBySeq_of_perm h.pending]

/-! ## The operations -/

/-- Adding to what one element contributes adds to the whole. -/
theorem flatMap_update_perm {α β : Type} [DecidableEq α] {n : α} {f f' : α → List β}
    {extra : List β} : ∀ {l : List α}, l.Nodup → n ∈ l → (∀ m ∈ l, m ≠ n → f' m = f m) →
      f' n = f n ++ extra → (l.flatMap f').Perm (l.flatMap f ++ extra)
  | [], _, hn, _, _ => by cases hn
  | m :: l, hnd, hn, hsame, hnew => by
      rw [List.nodup_cons] at hnd
      rw [List.flatMap_cons, List.flatMap_cons, List.append_assoc]
      by_cases hm : m = n
      · subst hm
        have hrest : l.flatMap f' = l.flatMap f := List.flatMap_congr fun k hk =>
          hsame k (List.mem_cons_of_mem _ hk) fun heq => hnd.1 (heq ▸ hk)
        rw [hnew, hrest, List.append_assoc]
        exact List.perm_append_comm.append_left _
      · rw [hsame m List.mem_cons_self hm]
        have hmem : n ∈ l := (List.mem_cons.mp hn).resolve_left (Ne.symm hm)
        exact (flatMap_update_perm hnd.2 hmem (fun k hk => hsame k (List.mem_cons_of_mem _ hk))
          hnew).append_left _

theorem segmentRecords_congr {n : String} (h : d'[n]? = d[n]?) :
    segmentRecords serde d' n = segmentRecords serde d n := by
  rw [segmentRecords, segmentRecords, Directory.content, Directory.content, h]

/-- **One more frame, behind a whole segment or in a new one, is one more entry.** -/
theorem Layout.append (h : Layout serde d log) {n : String} (hseg : isSegmentName n = true)
    {draft : LedgerEntryDraft} (hfits : serde.frames.Fits ⟨log.next, draft⟩) {added : Bytes}
    (hadded : (n ∉ d ∧ added = segmentHeader ++ serde.frames.frame ⟨log.next, draft⟩)
      ∨ (n ∈ d ∧ added = serde.frames.frame ⟨log.next, draft⟩)) :
    Layout serde (Directory.appendBytes d n added) (log.append draft) := by
  have hother : ∀ m, m ≠ n → (Directory.appendBytes d n added)[m]? = d[m]? := fun m hm =>
    Directory.appendBytes_of_ne _ (Ne.symm hm)
  have hcontent : (Directory.appendBytes d n added).content n = d.content n ++ added :=
    Directory.content_eq (Directory.appendBytes_self _ _ _)
  have hlt : log.watermark < log.next := Nat.lt_succ_of_le h.applied
  have hchk : readCheckpoint serde (Directory.appendBytes d n added)
      = .ok (log.append draft).watermark := by
    rw [readCheckpoint, hother _ (ne_walCheckpointFile hseg).symm]
    exact h.checkpoint
  have happlied : (log.append draft).watermark ≤ (log.append draft).entries.length := by
    show log.watermark ≤ (log.entries ++ [draft]).length
    rw [List.length_append]
    exact Nat.le_trans h.applied (Nat.le_add_right _ _)
  have hone : above log.watermark [⟨log.next, draft⟩] = [⟨log.next, draft⟩] := by
    rw [above, List.filter_singleton, decide_eq_true hlt]
    rfl
  have hpending : ∀ {rs : List WalRecord},
      rs.Perm ((listSegments d).flatMap (segmentRecords serde d) ++ [⟨log.next, draft⟩]) →
      (above (log.append draft).watermark rs).Perm (pendingRecords (log.append draft)) := by
    intro rs hrs
    rw [pendingRecords_append h.applied]
    have hfilter := hrs.filter fun r => decide (log.watermark < r.walSeq)
    rw [List.filter_append] at hfilter
    refine List.Perm.trans hfilter ?_
    have hadd := h.pending.append_right (above log.watermark [⟨log.next, draft⟩])
    rw [hone] at hadd
    rw [← above, ← above, hone]
    exact hadd
  rcases hadded with ⟨hn, rfl⟩ | ⟨hn, rfl⟩
  · -- a new segment
    have hempty : d.content n = [] := by
      rw [Directory.content, Std.ExtTreeMap.getElem?_eq_none hn]
      rfl
    have hnew : WholeSegment serde ((Directory.appendBytes d n (segmentHeader
        ++ serde.frames.frame ⟨log.next, draft⟩)).content n) [⟨log.next, draft⟩] := by
      rw [hcontent, hempty, List.nil_append]
      exact wholeSegment_header.append hfits
    have hlist : (listSegments (Directory.appendBytes d n (segmentHeader
        ++ serde.frames.frame ⟨log.next, draft⟩))).Perm (n :: listSegments d) :=
      Directory.list_insert_perm _ hseg hn
    refine ⟨fun m hm => ?_, hpending ?_, hchk, happlied⟩
    · rcases List.mem_cons.mp (hlist.mem_iff.mp hm) with rfl | hold
      · rw [segmentRecords_of_whole hnew]
        exact hnew
      · have hne : m ≠ n := fun heq => hn (heq ▸ (mem_listSegments.mp hold).1)
        rw [segmentRecords_congr (hother m hne), Directory.content, hother m hne,
          ← Directory.content]
        exact h.whole m hold
    · refine (hlist.flatMap_right _).trans ?_
      rw [List.flatMap_cons, segmentRecords_of_whole hnew]
      have hsame : (listSegments d).flatMap (segmentRecords serde (Directory.appendBytes d n
          (segmentHeader ++ serde.frames.frame ⟨log.next, draft⟩)))
          = (listSegments d).flatMap (segmentRecords serde d) :=
        List.flatMap_congr fun m hm => segmentRecords_congr (hother m fun heq =>
          hn (heq ▸ (mem_listSegments.mp hm).1))
      rw [hsame]
      exact List.perm_append_comm
  · -- a segment that is there
    have hmem : n ∈ listSegments d := mem_listSegments.mpr ⟨hn, hseg⟩
    have hnew : WholeSegment serde ((Directory.appendBytes d n
        (serde.frames.frame ⟨log.next, draft⟩)).content n)
        (segmentRecords serde d n ++ [⟨log.next, draft⟩]) := by
      rw [hcontent]
      exact (h.whole n hmem).append hfits
    have hlist : listSegments (Directory.appendBytes d n (serde.frames.frame ⟨log.next, draft⟩))
        = listSegments d := Directory.list_insert_of_mem _ hn
    refine ⟨fun m hm => ?_, hpending ?_, hchk, happlied⟩
    · rw [hlist] at hm
      by_cases hne : m = n
      · subst hne
        rw [segmentRecords_of_whole hnew]
        exact hnew
      · rw [segmentRecords_congr (hother m hne), Directory.content, hother m hne,
          ← Directory.content]
        exact h.whole m hm
    · rw [hlist]
      exact flatMap_update_perm (listSegments_nodup d) hmem
        (fun m _ hne => segmentRecords_congr (hother m hne)) (segmentRecords_of_whole hnew)

theorem listSegments_checkpoint (n : Nat) :
    listSegments (WalWriter.checkpoint serde d n) = listSegments d := by
  rw [listSegments, listSegments, WalWriter.checkpoint,
    Directory.list_insert_of_ignored _ isSegmentName_walCheckpointFile]

theorem checkpoint_of_segment {n : String} (hseg : isSegmentName n = true) (k : Nat) :
    (WalWriter.checkpoint serde d k)[n]? = d[n]? :=
  Directory.getElem?_insert_of_ne _ (ne_walCheckpointFile hseg).symm

/-- **Moving the checkpoint moves the watermark.** -/
theorem Layout.mark (h : Layout serde d log) {n : Nat} (hle : log.watermark ≤ n)
    (hn : n ≤ log.entries.length) :
    Layout serde (WalWriter.checkpoint serde d n) (log.mark n) := by
  have hsame : ∀ m ∈ listSegments d, (WalWriter.checkpoint serde d n)[m]? = d[m]? := fun m hm =>
    checkpoint_of_segment (mem_listSegments.mp hm).2 n
  refine ⟨fun m hm => ?_, ?_, ?_, hn⟩
  · rw [listSegments_checkpoint] at hm
    rw [segmentRecords_congr (hsame m hm), Directory.content, hsame m hm, ← Directory.content]
    exact h.whole m hm
  · rw [listSegments_checkpoint, List.flatMap_congr fun m hm => segmentRecords_congr (hsame m hm),
      pendingRecords_mark hle]
    have hfilter := h.pending.filter fun r => decide (n < r.walSeq)
    rw [above, List.filter_filter] at hfilter
    refine List.Perm.trans (List.Perm.of_eq (List.filter_congr fun r _ => ?_)) hfilter
    show decide (n < r.walSeq) = (decide (n < r.walSeq) && decide (log.watermark < r.walSeq))
    by_cases hr : n < r.walSeq
    · rw [decide_eq_true hr, decide_eq_true (by omega : log.watermark < r.walSeq)]
      rfl
    · rw [decide_eq_false hr]
      rfl
  · rw [readCheckpoint, WalWriter.checkpoint, Directory.getElem?_insert_self]
    dsimp only
    rw [serde.checkpointFromStr_toVec]
    rfl

/-- A segment of a log is removed when it is applied and kept otherwise. -/
theorem Layout.fate_eq (h : Layout serde d log) {n : String} (hn : n ∈ listSegments d) :
    segmentFate serde log.watermark d n = .removed (segmentRecords serde d n)
      ∨ segmentFate serde log.watermark d n = .kept (segmentRecords serde d n) := by
  rw [segmentFate, fateIn]
  have hread := h.read hn
  rcases fate_cases serde log.watermark (decide ((listSegments d).getLast? = some n)) n
    (d.content n) with ⟨e, hr, _⟩ | ⟨s, hr, ht, _⟩ | ⟨s, hr, ht, _⟩ | ⟨s, hr, _, _, hf⟩
    | ⟨s, hr, _, _, hf⟩
  all_goals rw [hread] at hr
  · cases hr
  · cases hr; cases ht
  · cases hr; cases ht
  · cases hr; exact Or.inl hf
  · cases hr; exact Or.inr hf

/-- **Opening returns the pending entries and leaves a directory that holds the same log.** -/
theorem Layout.reopen (h : Layout serde d log) (segmentMaxBytes diskMaxBytes : Nat) :
    ∃ d' w report,
      WalWriter.open serde segmentMaxBytes diskMaxBytes d = (d', .ok (w, report))
      ∧ Layout serde d' log
      ∧ report.pending = pendingRecords log
      ∧ w.nextWalSeq = log.next
      ∧ w.current = segmentPath (max (((listSegments d).getLast?.map segmentIndex).getD 0) 1)
      ∧ w.currentLen = (d'.content w.current).length
      ∧ (∀ n ∈ listSegments d', n ∈ listSegments d)
      ∧ (∀ n ∈ listSegments d, (∃ r ∈ segmentRecords serde d n, log.watermark < r.walSeq) →
          d'[n]? = d[n]?)
      ∧ w.segmentMaxBytes = segmentMaxBytes ∧ w.diskMaxBytes = diskMaxBytes
      ∧ w.totalLen ≤ segmentBytes d (listSegments d) := by
  obtain ⟨d', w, report, hopen, hrec, hpend, -, hnext, hcur, hlen, hseg, hdisk, htotal⟩ :=
    open_recovers h.checkpoint segmentMaxBytes diskMaxBytes
  have hrecords : ∀ n ∈ listSegments d,
      (segmentFate serde log.watermark d n).records = segmentRecords serde d n := by
    intro n hn
    rcases h.fate_eq hn with hf | hf <;> rw [hf] <;> rfl
  have hrecovered : recovered serde log.watermark d
      = above log.watermark ((listSegments d).flatMap (segmentRecords serde d)) := by
    rw [recovered, above, List.filter_flatMap]
    exact List.flatMap_congr fun n hn => by rw [hrecords n hn, above]
  have hperm : (recovered serde log.watermark d).Perm (pendingRecords log) := by
    rw [hrecovered]
    exact h.pending
  have hsub : ∀ n ∈ listSegments d', n ∈ listSegments d := by
    intro n hn
    rw [hrec.listSegments] at hn
    exact (List.mem_filter.mp hn).1
  have hkept : ∀ n ∈ listSegments d', d'[n]? = d[n]? := by
    intro n hn
    have hmem := hsub n hn
    obtain ⟨bytes, hb⟩ := Directory.mem_iff_getElem?.mp (mem_listSegments.mp hmem).1
    have hafter := hrec.segment n hmem
    rcases h.fate_eq hmem with hf | hf
    · rw [hf] at hafter
      obtain ⟨b, hb'⟩ := Directory.mem_iff_getElem?.mp (mem_listSegments.mp hn).1
      rw [hafter] at hb'
      cases hb'
    · rw [hafter, hf, hb, Directory.content_eq hb]
      rfl
  refine ⟨d', w, report, hopen, ⟨fun n hn => ?_, ?_, hrec.checkpoint.trans h.checkpoint,
    h.applied⟩, ?_, ?_, hcur, hlen, hsub, fun n hn hpending => ?_, hseg, hdisk, htotal ▸ hrec.segmentBytes_le⟩
  · rw [segmentRecords_congr (hkept n hn), Directory.content, hkept n hn, ← Directory.content]
    exact h.whole n (hsub n hn)
  · rw [List.flatMap_congr fun n hn => segmentRecords_congr (hkept n hn), hrec.listSegments, above,
      List.filter_flatMap]
    refine List.Perm.trans (List.Perm.of_eq ?_) h.pending
    rw [above, List.filter_flatMap]
    refine flatMap_filter_eq fun n hn hgone => ?_
    rcases h.fate_eq hn with hf | hf
    · have happlied : above log.watermark (segmentFate serde log.watermark d n).records = [] :=
        setAsideApplied_iff.mp (fun m hm _ s hread ht => by
          rw [h.read hm] at hread
          cases hread
          cases ht) n hn hgone
      rw [hrecords n hn] at happlied
      exact happlied
    · rw [hf] at hgone
      cases hgone
  · rw [hpend, sortBySeq_of_perm hperm]
  · rw [hnext, maxSeq_of_perm hperm h.applied]
    rfl
  · obtain ⟨r, hr, habove⟩ := hpending
    refine hkept n ?_
    rw [hrec.listSegments, List.mem_filter]
    refine ⟨hn, ?_⟩
    rcases h.fate_eq hn with hf | hf
    · -- removed segments hold nothing above the watermark
      have hnone : above log.watermark (segmentFate serde log.watermark d n).records = [] :=
        setAsideApplied_iff.mp (fun m hm _ s hread ht => by
          rw [h.read hm] at hread
          cases hread
          cases ht) n hn (by rw [hf]; rfl)
      rw [hrecords n hn, above_eq_nil_iff] at hnone
      exact absurd (hnone r hr) (Nat.not_le.mpr habove)
    · rw [hf]
      rfl

end Agenomic.Ledger
