import Agenomic.Ledger.WalRefine

/-!
# What an append returned for is read back, up to a size

The reader believes no payload longer than `maxFrameLen`; the writer writes any. Every
record whose append returned a position is read back as long as no payload is longer
than that, and no rotation lands in a segment that is there already
(**`readable_run`**): the directory then holds the log (`Kept`), whatever is refused,
checkpointed or opened again in between.

A longer payload is written, acknowledged, and never read (**`Kept.not_readable`**): to the
reader the segment ends in front of it.
-/

namespace Agenomic.Ledger

open Lib

/-- A log in use: its writer and directory, the watermark, and every record that an append
returned a position for. -/
structure ReadRun where
  writer : WalWriter
  dir : Directory
  watermark : Nat
  acked : List WalRecord

namespace ReadRun

variable (serde : WalSerde)

/-- A log opened in an empty directory. -/
def start (segmentMaxBytes diskMaxBytes : Nat) : ReadRun :=
  ⟨WalWriter.first segmentMaxBytes diskMaxBytes, ∅, 0, []⟩

def step (s : ReadRun) : WalOp → ReadRun
  | .append draft =>
      match s.writer.append serde s.dir draft .ok with
      | (w, d, .ok seq) => { s with writer := w, dir := d, acked := s.acked ++ [⟨seq, draft⟩] }
      | (w, d, .error _) => { s with writer := w, dir := d }
  | .checkpoint n => { s with dir := WalWriter.checkpoint serde s.dir n, watermark := n }
  | .reopen segmentMaxBytes diskMaxBytes =>
      match WalWriter.open serde segmentMaxBytes diskMaxBytes s.dir with
      | (d, .ok (w, _)) => { s with writer := w, dir := d }
      | (d, .error _) => { s with dir := d }

/-- The acknowledged records that no checkpoint has passed. -/
def unapplied (s : ReadRun) : List WalRecord := above s.watermark s.acked

/-- They are read back from the segments, now and by the next opening. -/
structure Readable (s : ReadRun) : Prop where
  now : ∃ rs, WalWriter.pending serde s.dir = .ok rs ∧ ∀ r ∈ s.unapplied, r ∈ rs
  reopened : ∀ segmentMaxBytes diskMaxBytes, ∃ d w report,
    WalWriter.open serde segmentMaxBytes diskMaxBytes s.dir = (d, .ok (w, report))
      ∧ ∀ r ∈ s.unapplied, r ∈ report.pending

/-- An append that is accepted has a payload the reader believes, and a rotation starts a segment
that is not there yet; a checkpoint moves forward over what was appended. -/
def Fitting (s : ReadRun) : WalOp → Prop
  | .append draft => ¬s.writer.OverBudget serde draft → s.writer.RotationFits →
      serde.frames.Fits ⟨s.writer.nextWalSeq, draft⟩
        ∧ (s.writer.segmentMaxBytes ≤ s.writer.currentLen → s.writer.target ∉ s.dir)
  | .checkpoint n => s.watermark ≤ n ∧ n ≤ s.acked.length
  | .reopen _ _ => True

variable {serde}

/-- The records of a log, under their positions. -/
def numbered (log : PlainLog LedgerEntryDraft) : List WalRecord :=
  log.numbered.map fun p => ⟨p.1, p.2⟩

/-- The directory holds the log, and the acknowledged records are the log. -/
structure Kept (serde : WalSerde) (s : ReadRun) : Prop where
  log : ∃ log, Layout serde s.dir log ∧ log.watermark = s.watermark ∧ numbered log = s.acked
    ∧ s.writer.nextWalSeq = log.next
  segment : isSegmentName s.writer.current = true
  currentLen : s.writer.currentLen = (s.dir.content s.writer.current).length

/-! ## Steps -/

/-- Behind a rotation into a new segment, the length of the open segment is known as before. -/
theorem currentLen_rotated {w : WalWriter} {d : Directory}
    (hlen : w.currentLen = (d.content w.current).length)
    (hnew : w.segmentMaxBytes ≤ w.currentLen → w.target ∉ d) :
    w.rotated.currentLen = (d.content w.target).length := by
  unfold WalWriter.target at hnew ⊢
  unfold WalWriter.rotated at hnew ⊢
  by_cases hfull : w.segmentMaxBytes ≤ w.currentLen
  · have hmiss := hnew hfull
    rw [if_pos hfull] at hmiss ⊢
    rw [content_of_not_mem hmiss]
    rfl
  · rw [if_neg hfull]
    exact hlen

/-- A header is due exactly when the segment is missing. -/
theorem fresh_iff {w : WalWriter} {d : Directory} {log : PlainLog LedgerEntryDraft}
    (hlayout : Layout serde d log) (hseg : isSegmentName w.target = true)
    (hlen : w.rotated.currentLen = (d.content w.target).length) : w.Fresh d ↔ w.target ∉ d := by
  constructor
  · rintro (hmiss | hzero)
    · exact hmiss
    · intro hmem
      -- a segment that is there has a header
      obtain ⟨hd, rest, hbytes, hheader, -⟩ :=
        hlayout.whole w.target (mem_listSegments.mpr ⟨hmem, hseg⟩)
      rw [hzero, hbytes, List.length_append, hheader.length, headerLen] at hlen
      omega
  · exact .inl

theorem numbered_append (log : PlainLog LedgerEntryDraft) (draft : LedgerEntryDraft) :
    numbered (log.append draft) = numbered log ++ [⟨log.next, draft⟩] := by
  unfold numbered
  rw [PlainLog.numbered_append, List.map_append]
  rfl

/-- **An accepted append of a payload the reader believes keeps the log.** -/
theorem Kept.append {s : ReadRun} (h : s.Kept serde) {draft : LedgerEntryDraft}
    (hfit : s.Fitting serde (.append draft)) : (s.step serde (.append draft)).Kept serde := by
  obtain ⟨log, hlayout, hmark, hacked, hnext⟩ := h.log
  unfold step
  dsimp only
  by_cases hrefused : s.writer.OverBudget serde draft ∨ ¬s.writer.RotationFits
  · obtain ⟨e, happend⟩ := WalWriter.append_refused (d := s.dir) hrefused .ok
    rw [happend]
    exact h
  · obtain ⟨hbudget, hrot⟩ := not_or.mp hrefused
    obtain ⟨hfits, hnew⟩ := hfit hbudget (not_not.mp hrot)
    have hseg := WalWriter.isSegmentName_target h.segment
    have hlen := currentLen_rotated h.currentLen hnew
    have hfresh := fresh_iff hlayout hseg hlen
    rw [WalWriter.append_ok hbudget (not_not.mp hrot)]
    have hframe : s.writer.nextFrame serde draft = serde.frames.frame ⟨log.next, draft⟩ := by
      rw [WalWriter.nextFrame, hnext]
    have hadded : (s.writer.target ∉ s.dir ∧ s.writer.owedHeader s.dir
          ++ s.writer.nextFrame serde draft
          = segmentHeader ++ serde.frames.frame ⟨log.next, draft⟩)
        ∨ (s.writer.target ∈ s.dir ∧ s.writer.owedHeader s.dir ++ s.writer.nextFrame serde draft
          = serde.frames.frame ⟨log.next, draft⟩) := by
      by_cases hmem : s.writer.target ∈ s.dir
      · refine .inr ⟨hmem, ?_⟩
        rw [WalWriter.owedHeader, if_neg fun hf => hfresh.mp hf hmem, hframe, List.nil_append]
      · refine .inl ⟨hmem, ?_⟩
        rw [WalWriter.owedHeader, if_pos (hfresh.mpr hmem), hframe]
    rw [hnext] at hfits
    refine ⟨⟨log.append draft, hlayout.append hseg hfits hadded, hmark, ?_, ?_⟩, hseg, ?_⟩
    · show numbered (log.append draft) = s.acked ++ [⟨s.writer.nextWalSeq, draft⟩]
      rw [numbered_append, hacked, hnext]
    · show s.writer.nextWalSeq + 1 = (log.append draft).next
      rw [hnext, PlainLog.next, PlainLog.next, PlainLog.append, List.length_append]
      rfl
    · show (if s.writer.Fresh s.dir then headerLen else s.writer.rotated.currentLen) + _
        = (Directory.content _ s.writer.target).length
      rw [Directory.content_appendBytes, List.length_append, List.length_append,
        WalWriter.owedHeader]
      by_cases hmem : s.writer.target ∈ s.dir
      · have hf : ¬s.writer.Fresh s.dir := fun hf => hfresh.mp hf hmem
        rw [if_neg hf, if_neg hf, hlen, List.length_nil, Nat.zero_add]
      · have hf := hfresh.mpr hmem
        rw [if_pos hf, if_pos hf, content_of_not_mem hmem, segmentHeader_length, List.length_nil,
          Nat.zero_add]

/-- **Every fitting operation keeps the log.** -/
theorem kept_step {s : ReadRun} (h : s.Kept serde) (op : WalOp) (hfit : s.Fitting serde op) :
    (s.step serde op).Kept serde := by
  cases op with
  | append draft => exact h.append hfit
  | checkpoint n =>
      obtain ⟨log, hlayout, hmark, hacked, hnext⟩ := h.log
      have hlen : n ≤ log.entries.length := by
        have hcount := congrArg List.length hacked
        unfold numbered at hcount
        rw [List.length_map, PlainLog.numbered_length] at hcount
        rw [hcount]
        exact hfit.2
      refine ⟨⟨log.mark n, hlayout.mark (hmark ▸ hfit.1) hlen, rfl, hacked, hnext⟩, h.segment, ?_⟩
      show s.writer.currentLen
        = (Directory.content (WalWriter.checkpoint serde s.dir n) s.writer.current).length
      rw [h.currentLen, Directory.content, Directory.content, checkpoint_of_segment h.segment]
  | reopen segmentMaxBytes diskMaxBytes =>
      obtain ⟨log, hlayout, hmark, hacked, -⟩ := h.log
      obtain ⟨d, w, report, hopen, hlayout', -, hnext, hcurrent, hlen, -⟩ :=
        hlayout.reopen segmentMaxBytes diskMaxBytes
      unfold step
      dsimp only
      rw [hopen]
      refine ⟨⟨log, hlayout', hmark, hacked, hnext⟩, ?_, hlen⟩
      show isSegmentName w.current = true
      rw [hcurrent]
      exact isSegmentName_segmentPath _

/-- What is not applied is pending. -/
theorem unapplied_eq {s : ReadRun} {log : PlainLog LedgerEntryDraft}
    (hmark : log.watermark = s.watermark) (hacked : numbered log = s.acked) :
    s.unapplied = pendingRecords log := by
  unfold unapplied pendingRecords above
  rw [← hacked, ← hmark, PlainLog.pending_eq_filter, numbered, List.filter_map]
  rfl

theorem Kept.readable {s : ReadRun} (h : s.Kept serde) : s.Readable serde := by
  obtain ⟨log, hlayout, hmark, hacked, -⟩ := h.log
  have heq := unapplied_eq hmark hacked
  refine ⟨⟨_, hlayout.pending_eq, fun r hr => heq ▸ hr⟩, fun segmentMaxBytes diskMaxBytes => ?_⟩
  obtain ⟨d, w, report, hopen, -, hpending, -⟩ := hlayout.reopen segmentMaxBytes diskMaxBytes
  exact ⟨d, w, report, hopen, fun r hr => by rw [hpending, ← heq]; exact hr⟩

theorem kept_start (serde : WalSerde) (segmentMaxBytes diskMaxBytes : Nat) :
    (start segmentMaxBytes diskMaxBytes).Kept serde := by
  have hfirst := refines_first serde segmentMaxBytes diskMaxBytes
  exact ⟨⟨.empty, hfirst.layout, rfl, rfl, hfirst.next⟩, isSegmentName_segmentPath 1,
    hfirst.currentLen⟩

/-- What a reading of segments returns was read from one of them. -/
theorem mem_pendingIn {d : Directory} {checkpoint : Nat} {r : WalRecord} :
    ∀ {ns : List String} {rs : List WalRecord},
      WalWriter.pendingIn serde d checkpoint ns = .ok rs → r ∈ rs →
        ∃ n ∈ ns, ∃ s, readSegment serde n (d.content n) = .ok s ∧ r ∈ s.records
          ∧ checkpoint < r.walSeq
  | [], rs, h, hr => by
      cases h
      cases hr
  | n :: ns, rs, h, hr => by
      unfold WalWriter.pendingIn at h
      obtain ⟨s, hs, h⟩ := bind_eq_ok.mp h
      obtain ⟨rest, hrest, h⟩ := bind_eq_ok.mp h
      cases h
      rcases List.mem_append.mp hr with hr | hr
      · rw [List.mem_filter, decide_eq_true_eq] at hr
        exact ⟨n, List.mem_cons_self, s, hs, hr.1, hr.2⟩
      · obtain ⟨m, hm, hfound⟩ := mem_pendingIn hrest hr
        exact ⟨m, List.mem_cons_of_mem n hm, hfound⟩

/-- Behind a whole segment a frame above the cap is not read. -/
theorem read_oversized {bytes : Bytes} {rs : List WalRecord} (h : WholeSegment serde bytes rs)
    {r : WalRecord} (hcap : maxFrameLen < (serde.toVec r).length)
    (hlen : (serde.toVec r).length < 4294967296) (n : String) :
    ∃ s, readSegment serde n (bytes ++ serde.frames.frame r) = .ok s ∧ s.records = rs := by
  obtain ⟨header, rest, rfl, hheader, hclean⟩ := h
  have hscan := serde.frames.scan_oversized hcap hlen []
  rw [List.append_nil] at hscan
  rw [List.append_assoc, readSegment_of_header hheader, serde.frames.scan_append rest hclean, hscan]
  exact ⟨_, rfl, List.append_nil _⟩

/-- **An accepted append of a payload above the cap is not read back**, short of the payloads whose
length no longer fits its field. -/
theorem Kept.not_readable {s : ReadRun} (h : s.Kept serde) {draft : LedgerEntryDraft}
    (hbudget : ¬s.writer.OverBudget serde draft) (hrot : s.writer.RotationFits)
    (hnew : s.writer.segmentMaxBytes ≤ s.writer.currentLen → s.writer.target ∉ s.dir)
    (hcap : maxFrameLen < (serde.toVec ⟨s.writer.nextWalSeq, draft⟩).length)
    (hlen : (serde.toVec ⟨s.writer.nextWalSeq, draft⟩).length < 4294967296) :
    ¬(s.step serde (.append draft)).Readable serde := by
  obtain ⟨log, hlayout, hmark, hacked, hnext⟩ := h.log
  have hseg := WalWriter.isSegmentName_target h.segment
  have hfresh := fresh_iff hlayout hseg (currentLen_rotated h.currentLen hnew)
  unfold step
  dsimp only
  rw [WalWriter.append_ok hbudget hrot]
  intro hread
  obtain ⟨rs, hpending, hall⟩ := hread.now
  have hmem : (⟨log.next, draft⟩ : WalRecord) ∈ rs := by
    refine hall _ ?_
    show _ ∈ above s.watermark (s.acked ++ [⟨s.writer.nextWalSeq, draft⟩])
    unfold above
    rw [hnext, ← hmark, List.mem_filter, decide_eq_true_eq]
    exact ⟨List.mem_append_right _ (List.mem_singleton.mpr rfl), Nat.lt_succ_of_le hlayout.applied⟩
  unfold WalWriter.pending at hpending
  obtain ⟨checkpoint, hcheck, hpending⟩ := bind_eq_ok.mp hpending
  obtain ⟨found, hfound, hpending⟩ := bind_eq_ok.mp hpending
  cases hpending
  obtain ⟨n, hn, scanned, hscanned, hrecord, -⟩ :=
    mem_pendingIn hfound ((List.mergeSort_perm _ _).mem_iff.mp hmem)
  -- whatever a segment yields was there before
  have hold : (⟨log.next, draft⟩ : WalRecord) ∈ segmentRecords serde s.dir n ∧ n ∈ listSegments s.dir := by
    by_cases htarget : n = s.writer.target
    · subst htarget
      rw [Directory.content_appendBytes] at hscanned
      by_cases hmem : s.writer.target ∈ s.dir
      · have hlisted := mem_listSegments.mpr ⟨hmem, hseg⟩
        rw [WalWriter.owedHeader, if_neg fun hf => hfresh.mp hf hmem, List.nil_append,
          WalWriter.nextFrame] at hscanned
        obtain ⟨scanned', hscanned', hrecords⟩ :=
          read_oversized (hlayout.whole _ hlisted) hcap hlen s.writer.target
        rw [hscanned'] at hscanned
        cases hscanned
        rw [hrecords] at hrecord
        exact ⟨hrecord, hlisted⟩
      · rw [WalWriter.owedHeader, if_pos (hfresh.mpr hmem), content_of_not_mem hmem,
          List.nil_append, WalWriter.nextFrame] at hscanned
        obtain ⟨scanned', hscanned', hrecords⟩ :=
          read_oversized wholeSegment_header hcap hlen s.writer.target
        rw [hscanned'] at hscanned
        cases hscanned
        rw [hrecords] at hrecord
        cases hrecord
    · have hsame : (Directory.appendBytes s.dir s.writer.target (s.writer.owedHeader s.dir
          ++ s.writer.nextFrame serde draft))[n]? = s.dir[n]? :=
        Directory.appendBytes_of_ne _ (Ne.symm htarget)
      have hlisted : n ∈ listSegments s.dir := by
        obtain ⟨hin, hname⟩ := mem_listSegments.mp hn
        rw [Directory.mem_iff_getElem?, hsame, ← Directory.mem_iff_getElem?] at hin
        exact mem_listSegments.mpr ⟨hin, hname⟩
      rw [Directory.content, hsame, ← Directory.content] at hscanned
      rw [hlayout.read hlisted] at hscanned
      cases hscanned
      exact ⟨hrecord, hlisted⟩
  have habove : (⟨log.next, draft⟩ : WalRecord)
      ∈ above log.watermark ((listSegments s.dir).flatMap (segmentRecords serde s.dir)) := by
    unfold above
    rw [List.mem_filter, decide_eq_true_eq]
    exact ⟨List.mem_flatMap.mpr ⟨n, hold.2, hold.1⟩, Nat.lt_succ_of_le hlayout.applied⟩
  have hle : log.entries.length + 1 ≤ log.entries.length :=
    (mem_pendingRecords (hlayout.pending.mem_iff.mp habove)).2
  omega

/-- The draft the log is exercised with, from an agent with a long name. -/
def longDraft (n : Nat) : LedgerEntryDraft :=
  { draft 1 with agentId := String.ofList (List.replicate n 'a') }

/-- The name is written as it is. -/
theorem writeString_replicate (n : Nat) :
    Json.writeString (String.ofList (List.replicate n 'a'))
      = '"' :: (List.replicate n 'a' ++ ['"']) := by
  have hflat : (List.replicate n 'a').flatMap Json.escapeChar = List.replicate n 'a' := by
    induction n with
    | zero => rfl
    | succ n ih =>
        rw [List.replicate_succ, List.flatMap_cons, ih]
        rfl
  rw [Json.writeString, String.toList_ofList, hflat]

/-- A record grows with the name. -/
theorem toVec_longDraft_length (n : Nat) :
    (WalRecord.toVec ⟨1, longDraft n⟩).length
      = n + (WalRecord.toVec ⟨1, longDraft 0⟩).length := by
  have hfields : ∀ k, (longDraft k).toFields = ("event_id", .str "event-1")
      :: ("agent_id", .str (String.ofList (List.replicate k 'a')))
      :: (draft 1).toFields.drop 2 := fun k => rfl
  have hsplit : ∀ k, (Json.obj [("wal_seq", .num ((1 : Nat) : Int)),
      ("draft", (longDraft k).toValue)]).write
        = ('{' :: (Json.writeString "wal_seq" ++ ':' :: (Json.write (.num ((1 : Nat) : Int))
          ++ ',' :: (Json.writeString "draft" ++ ':' :: '{' :: (Json.writeString "event_id"
          ++ ':' :: (Json.write (.str "event-1") ++ ',' :: (Json.writeString "agent_id"
          ++ [':', '"']))))))) ++ (List.replicate k 'a'
          ++ '"' :: (Json.writeFieldsTail ((draft 1).toFields.drop 2)
            ++ Json.writeFieldsTail [])) := by
    intro k
    rw [LedgerEntryDraft.toValue, hfields]
    simp only [Json.write, Json.writeFields, Json.writeFieldsTail, writeString_replicate,
      List.append_assoc, List.cons_append, List.nil_append]
  have hencode : ∀ k, utf8Encode (List.replicate k 'a') = List.replicate k 97 := by
    intro k
    induction k with
    | zero => rfl
    | succ k ih =>
        rw [List.replicate_succ, List.replicate_succ, ← ih]
        rfl
  rw [WalRecord.toVec, WalRecord.toVec, hsplit n, hsplit 0, utf8Encode_append, utf8Encode_append,
    utf8Encode_append, utf8Encode_append, hencode, hencode, List.length_append, List.length_append,
    List.length_append, List.length_append, List.length_replicate, List.length_replicate]
  omega

/-- A name above the cap makes a record that is acknowledged and never read. -/
theorem not_readable_long {n : Nat} (hcap : maxFrameLen ≤ n) (hroom : n ≤ 1000000000) :
    ¬(run (step serdeJson) (start 1048576 1073741824) [.append (longDraft n)]).Readable
      serdeJson := by
  have hlength := toVec_longDraft_length n
  have hsmall : 0 < (WalRecord.toVec ⟨1, longDraft 0⟩).length
      ∧ (WalRecord.toVec ⟨1, longDraft 0⟩).length ≤ 1000000 := by decide +kernel
  have hframe : (serdeJson.frames.frame ⟨1, longDraft n⟩).length
      = 8 + (WalRecord.toVec ⟨1, longDraft n⟩).length :=
    serdeJson.frames.frame_length ⟨1, longDraft n⟩
  have hbudget : ¬(WalWriter.first 1048576 1073741824).OverBudget serdeJson (longDraft n) :=
    WalWriter.not_overBudget_first (by omega)
  have hpart : ¬(WalWriter.first 1048576 1073741824).segmentMaxBytes
      ≤ (WalWriter.first 1048576 1073741824).currentLen := by
    unfold WalWriter.first
    dsimp only
    omega
  rw [run_cons, run_nil]
  refine (kept_start serdeJson 1048576 1073741824).not_readable hbudget
    (fun hfull => absurd hfull hpart) (fun hfull => absurd hfull hpart) ?_ ?_
  · show maxFrameLen < (WalRecord.toVec ⟨1, longDraft n⟩).length
    omega
  · show (WalRecord.toVec ⟨1, longDraft n⟩).length < 4294967296
    omega

end ReadRun

end Agenomic.Ledger
