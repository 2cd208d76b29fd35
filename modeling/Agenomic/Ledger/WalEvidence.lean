import Agenomic.Ledger.WalRecovery

/-!
# What recovery destroys

A frame is *intact* when it is complete, its checksum holds and its payload
decodes, wherever in a file it starts. Recovery is meant to leave every intact
frame above the checkpoint on disk. It sets a segment aside by renaming it, over
whatever has that name; it cuts the last segment at its first bad frame, whatever
follows; it removes a segment from what the reader saw of it. So
**`keepsEvidence_iff`**: the evidence is kept exactly when no name a segment is
moved to holds something else, no intact frame lies behind the tear of the last
segment, and no removed segment hides one.
-/

namespace Agenomic.Ledger

open Lib

/-- A quarantined file. -/
def isCorruptName (n : String) : Bool := ".corrupt".toList.isSuffixOf n.toList

/-- A complete frame with a good checksum and a record above the checkpoint, at an offset. -/
def IntactFrame (serde : WalSerde) (c : Nat) (bytes : Bytes) (o : Nat) (payload : Bytes)
    (r : WalRecord) : Prop :=
  (∃ tail, bytes.drop o = serde.frames.wrap payload ++ tail) ∧ payload.length < 4294967296
    ∧ serde.fromSlice payload = some r ∧ c < r.walSeq

/-- Every intact frame is still there, nothing a frame is made of was cut, and no quarantined
file was overwritten. -/
structure KeepsEvidence (serde : WalSerde) (c : Nat) (d d' : Directory)
    (quarantinedSegments : List String) : Prop where
  frames : ∀ n bytes o payload r, d[n]? = some bytes →
    (isSegmentName n = true ∨ isCorruptName n = true) → IntactFrame serde c bytes o payload r →
    (∃ bytes', d'[n]? = some bytes' ∧ IntactFrame serde c bytes' o payload r)
    ∨ (corruptPath n ∈ quarantinedSegments
        ∧ ∃ bytes', d'[corruptPath n]? = some bytes' ∧ IntactFrame serde c bytes' o payload r)
  truncation : ∀ n bytes bytes', isSegmentName n = true → d[n]? = some bytes →
    d'[n]? = some bytes' → ∀ o payload r, IntactFrame serde c bytes o payload r →
    o + (frameHeaderLen + payload.length) ≤ bytes'.length
  corrupt : ∀ n bytes, isCorruptName n = true → d[n]? = some bytes → d'[n]? = some bytes

/-- The segment is set aside: the reader refuses it, or it is torn and not the last one. -/
def IsSetAside (serde : WalSerde) (d : Directory) (n : String) : Prop :=
  (∃ e, readSegment serde n (d.content n) = .error e)
    ∨ ∃ s, readSegment serde n (d.content n) = .ok s ∧ s.torn = true
        ∧ (listSegments d).getLast? ≠ some n

/-- Nothing stands where a segment is moved to, no intact frame lies behind the tear of the last
segment, and no segment to be removed hides one. -/
structure EvidenceSafe (serde : WalSerde) (c : Nat) (d : Directory) : Prop where
  free : ∀ n ∈ listSegments d, IsSetAside serde d n →
    d[corruptPath n]? = none ∨ d[corruptPath n]? = some (d.content n)
  tail : ∀ n ∈ listSegments d, (listSegments d).getLast? = some n →
    ∀ s, readSegment serde n (d.content n) = .ok s → s.torn = true →
    ∀ o payload r, IntactFrame serde c (d.content n) o payload r →
    o + (frameHeaderLen + payload.length) ≤ s.goodEnd
  applied : ∀ n ∈ listSegments d, ∀ s, readSegment serde n (d.content n) = .ok s →
    s.torn = false → (∀ r ∈ s.records, r.walSeq ≤ c) →
    ∀ o payload r, ¬IntactFrame serde c (d.content n) o payload r

variable {serde : WalSerde} {c : Nat}

theorem isCorruptName_corruptPath (n : String) : isCorruptName (corruptPath n) = true := by
  rw [isCorruptName, toList_corruptPath, List.isSuffixOf_iff_suffix]
  exact List.suffix_append _ _

/-- An intact frame ends inside its file. -/
theorem IntactFrame.end_le {bytes : Bytes} {o : Nat} {payload : Bytes} {r : WalRecord}
    (h : IntactFrame serde c bytes o payload r) :
    o + (frameHeaderLen + payload.length) ≤ bytes.length := by
  obtain ⟨⟨tail, htail⟩, -, -, -⟩ := h
  have hlen := congrArg List.length htail
  rw [List.length_drop, List.length_append, FrameFormat.wrap_length] at hlen
  rw [frameHeaderLen]
  omega

/-- A frame that ends before the cut survives it. -/
theorem IntactFrame.take {bytes : Bytes} {o : Nat} {payload : Bytes} {r : WalRecord}
    (h : IntactFrame serde c bytes o payload r) {e : Nat}
    (he : o + (frameHeaderLen + payload.length) ≤ e) :
    IntactFrame serde c (bytes.take e) o payload r := by
  obtain ⟨⟨tail, htail⟩, hlen, hdec, habove⟩ := h
  rw [frameHeaderLen] at he
  refine ⟨⟨tail.take (e - o - (8 + payload.length)), ?_⟩, hlen, hdec, habove⟩
  rw [List.drop_take, htail, List.take_append, FrameFormat.wrap_length,
    List.take_of_length_le (by rw [FrameFormat.wrap_length]; omega)]

/-- A segment is set aside exactly when its fate says so. -/
theorem isQuarantined_iff {d : Directory} {n : String} :
    (segmentFate serde c d n).isQuarantined = true ↔ IsSetAside serde d n := by
  rw [segmentFate, fateIn, IsSetAside]
  rcases fate_cases serde c (decide ((listSegments d).getLast? = some n)) n
    (d.content n) with ⟨e, hread, hf⟩ | ⟨s, hread, ht, hlast, hf⟩ | ⟨s, hread, ht, hlast, hf⟩
    | ⟨s, hread, ht, _, hf⟩ | ⟨s, hread, ht, _, hf⟩
  all_goals rw [hread, hf]
  · exact ⟨fun _ => Or.inl ⟨e, rfl⟩, fun _ => rfl⟩
  · refine ⟨fun h => (by cases h), ?_⟩
    rintro (⟨e, he⟩ | ⟨s', _, _, hnot⟩)
    · cases he
    · exact absurd (of_decide_eq_true hlast) hnot
  · exact ⟨fun _ => Or.inr ⟨s, rfl, ht, of_decide_eq_false hlast⟩, fun _ => rfl⟩
  all_goals
    refine ⟨fun h => (by cases h), ?_⟩
    rintro (⟨e, he⟩ | ⟨s', hs', ht', _⟩)
    · cases he
    · cases hs'; rw [ht] at ht'; cases ht'

theorem mem_quarantined_iff {d : Directory} {n : String} (hn : n ∈ listSegments d) :
    corruptPath n ∈ ((listSegments d).filter fun n =>
      (segmentFate serde c d n).isQuarantined).map corruptPath ↔ IsSetAside serde d n := by
  rw [List.mem_map, ← isQuarantined_iff (c := c)]
  constructor
  · rintro ⟨m, hm, heq⟩
    rw [corruptPath_injective heq] at hm
    exact (List.mem_filter.mp hm).2
  · exact fun h => ⟨n, List.mem_filter.mpr ⟨hn, h⟩, rfl⟩

/-- What was safe is kept. -/
theorem keepsEvidence_of_safe {d d' : Directory} (hrec : Recovered serde c d d')
    (h : EvidenceSafe serde c d) :
    KeepsEvidence serde c d d' (((listSegments d).filter fun n =>
      (segmentFate serde c d n).isQuarantined).map corruptPath) := by
  have hcorrupt : ∀ n bytes, isCorruptName n = true → d[n]? = some bytes →
      d'[n]? = some bytes := by
    intro n bytes hn hb
    by_cases hm : ∃ m ∈ listSegments d, n = corruptPath m
    · obtain ⟨m, hm, rfl⟩ := hm
      rw [hrec.corrupt m hm]
      split
      · rename_i hq
        rcases h.free m hm (isQuarantined_iff.mp hq) with hnone | hsame
        · rw [hnone] at hb; cases hb
        · rw [← hsame]; exact hb
      · exact hb
    · have hnot : n ∉ listSegments d := by
        intro hmem
        have hseg := (mem_listSegments.mp hmem).2
        rw [isSegmentName, Bool.and_eq_true, List.isSuffixOf_iff_suffix] at hseg
        rw [isCorruptName, List.isSuffixOf_iff_suffix] at hn
        have hend := List.suffix_of_suffix_length_le hseg.2 hn (by decide)
        revert hend
        decide
      rw [hrec.other n hnot fun m hmem heq => hm ⟨m, hmem, heq⟩]
      exact hb
  have hsegment : ∀ n bytes, isSegmentName n = true → d[n]? = some bytes →
      n ∈ listSegments d ∧ d.content n = bytes := fun n bytes hn hb =>
    ⟨mem_listSegments.mpr ⟨Directory.mem_iff_getElem?.mpr ⟨bytes, hb⟩, hn⟩,
      Directory.content_eq hb⟩
  refine ⟨?_, ?_, hcorrupt⟩
  · intro n bytes o payload r hb hname hframe
    rcases hname with hseg | hcor
    · obtain ⟨hn, rfl⟩ := hsegment n bytes hseg hb
      have hd' := hrec.segment n hn
      rw [segmentFate, fateIn] at hd'
      rcases fate_cases serde c (decide ((listSegments d).getLast? = some n)) n
        (d.content n) with ⟨e, hread, hf⟩ | ⟨s, hread, ht, hlast, hf⟩ | ⟨s, hread, ht, hlast, hf⟩
        | ⟨s, hread, ht, hall, hf⟩ | ⟨s, hread, ht, _, hf⟩
      all_goals rw [hf] at hd'
      · have haside : IsSetAside serde d n := Or.inl ⟨e, hread⟩
        refine Or.inr ⟨(mem_quarantined_iff hn).mpr haside, d.content n, ?_, hframe⟩
        rw [hrec.corrupt n hn, if_pos (isQuarantined_iff.mpr haside)]
      · exact Or.inl ⟨_, hd', hframe.take (h.tail n hn (of_decide_eq_true hlast) s hread ht o
          payload r hframe)⟩
      · have haside : IsSetAside serde d n := Or.inr ⟨s, hread, ht, of_decide_eq_false hlast⟩
        refine Or.inr ⟨(mem_quarantined_iff hn).mpr haside, d.content n, ?_, hframe⟩
        rw [hrec.corrupt n hn, if_pos (isQuarantined_iff.mpr haside)]
      · exact absurd hframe (h.applied n hn s hread ht hall o payload r)
      · exact Or.inl ⟨_, hd', hframe⟩
    · exact Or.inl ⟨bytes, hcorrupt n bytes hcor hb, hframe⟩
  · intro n bytes bytes' hseg hb hb' o payload r hframe
    obtain ⟨hn, rfl⟩ := hsegment n bytes hseg hb
    have hd' := hrec.segment n hn
    rw [segmentFate, fateIn, hb'] at hd'
    rcases fate_cases serde c (decide ((listSegments d).getLast? = some n)) n
      (d.content n) with ⟨e, hread, hf⟩ | ⟨s, hread, ht, hlast, hf⟩ | ⟨s, hread, ht, hlast, hf⟩
      | ⟨s, hread, ht, hall, hf⟩ | ⟨s, hread, ht, _, hf⟩
    all_goals rw [hf] at hd'
    all_goals cases hd'
    · rw [List.length_take]
      have hgood := h.tail n hn (of_decide_eq_true hlast) s hread ht o payload r hframe
      have hend := hframe.end_le
      omega
    · exact hframe.end_le

/-- What is kept was safe. -/
theorem safe_of_keepsEvidence {d d' : Directory} (hrec : Recovered serde c d d')
    (h : KeepsEvidence serde c d d' (((listSegments d).filter fun n =>
      (segmentFate serde c d n).isQuarantined).map corruptPath)) : EvidenceSafe serde c d := by
  have hget : ∀ n ∈ listSegments d, d[n]? = some (d.content n) := by
    intro n hn
    obtain ⟨bytes, hb⟩ := Directory.mem_iff_getElem?.mp (mem_listSegments.mp hn).1
    rw [Directory.content_eq hb]
    exact hb
  refine ⟨?_, ?_, ?_⟩
  · intro n hn haside
    cases hc : d[corruptPath n]? with
    | none => exact Or.inl rfl
    | some bytes =>
        have hkept := h.corrupt (corruptPath n) bytes (isCorruptName_corruptPath n) hc
        rw [hrec.corrupt n hn, if_pos (isQuarantined_iff.mpr haside)] at hkept
        exact Or.inr hkept.symm
  · intro n hn hlast s hread ht o payload r hframe
    have hd' := hrec.segment n hn
    rw [segmentFate, fateIn, fate, hread, decide_eq_true hlast] at hd'
    dsimp only at hd'
    rw [ht, if_pos rfl, if_pos rfl] at hd'
    have hend := h.truncation n _ _ (mem_listSegments.mp hn).2 (hget n hn) hd' o payload r hframe
    rw [List.length_take] at hend
    omega
  · intro n hn s hread ht hall o payload r hframe
    have hd' := hrec.segment n hn
    rw [segmentFate, fateIn] at hd'
    have hfate : fate serde c (decide ((listSegments d).getLast? = some n)) n (d.content n)
        = .removed s.records := by
      rw [fate, hread]
      dsimp only
      rw [ht, if_neg Bool.false_ne_true, if_pos]
      exact List.all_eq_true.mpr fun r hr => decide_eq_true (hall r hr)
    rw [hfate] at hd'
    rcases h.frames n _ o payload r (hget n hn) (Or.inl (mem_listSegments.mp hn).2) hframe with
      ⟨bytes', hb', -⟩ | ⟨hq, -⟩
    · rw [hd'] at hb'; cases hb'
    · rcases (mem_quarantined_iff hn).mp hq with ⟨e, he⟩ | ⟨s', hs', ht', -⟩
      · rw [hread] at he; cases he
      · rw [hread] at hs'; cases hs'; rw [ht] at ht'; cases ht'

/-- Opening keeps every intact frame above the checkpoint. -/
def OpenKeepsEvidence (serde : WalSerde) (segmentMaxBytes diskMaxBytes : Nat) (d : Directory) :
    Prop :=
  ∀ c d' w report, readCheckpoint serde d = .ok c →
    WalWriter.open serde segmentMaxBytes diskMaxBytes d = (d', .ok (w, report)) →
    KeepsEvidence serde c d d' report.quarantinedSegments

theorem safe_of_openKeepsEvidence {segmentMaxBytes diskMaxBytes : Nat} {d : Directory}
    (h : OpenKeepsEvidence serde segmentMaxBytes diskMaxBytes d) {c : Nat}
    (hc : readCheckpoint serde d = .ok c) : EvidenceSafe serde c d := by
  obtain ⟨d', w, report, hopen, hrec, -, hquar, -⟩ :=
    open_recovers hc segmentMaxBytes diskMaxBytes
  have hkept := h c d' w report hc hopen
  rw [hquar] at hkept
  exact safe_of_keepsEvidence hrec hkept

/-- **Recovery keeps the evidence exactly when the directory was safe to recover.** -/
theorem keepsEvidence_iff (serde : WalSerde) (segmentMaxBytes diskMaxBytes : Nat) (d : Directory) :
    OpenKeepsEvidence serde segmentMaxBytes diskMaxBytes d ↔
      ∀ c, readCheckpoint serde d = .ok c → EvidenceSafe serde c d := by
  constructor
  · exact fun h _ => safe_of_openKeepsEvidence h
  · intro h c d' w report hc hopen
    obtain ⟨_, _, _, hopen', hrec, -, hquar, -⟩ :=
      open_recovers hc segmentMaxBytes diskMaxBytes
    rw [hopen] at hopen'
    cases hopen'
    rw [hquar]
    exact keepsEvidence_of_safe hrec (h c hc)

/-- A segment with eight damaged bytes in front of an intact frame. -/
def damagedTail : Directory :=
  (∅ : Directory).insert (segmentPath 1)
    (segmentHeader ++ (List.replicate 8 255 ++ serdeJson.frames.frame ⟨1, draft 1⟩))

/-- The frame behind the tear is cut away. -/
theorem not_keepsEvidence_damagedTail :
    ¬OpenKeepsEvidence serdeJson 64 16777216 damagedTail := by
  intro h
  have hget : damagedTail[segmentPath 1]?
      = some (segmentHeader ++ (List.replicate 8 255 ++ serdeJson.frames.frame ⟨1, draft 1⟩)) := by
    rw [damagedTail, Directory.getElem?_insert_self]
  have hlist : listSegments damagedTail = [segmentPath 1] := by
    refine Directory.list_eq (List.pairwise_singleton _ _) fun n => ?_
    rw [damagedTail, Std.ExtTreeMap.mem_insert, compare_eq_iff_eq, List.mem_singleton]
    simp only [Std.ExtTreeMap.not_mem_empty, or_false]
    constructor
    · rintro rfl; exact ⟨rfl, isSegmentName_segmentPath 1⟩
    · rintro ⟨rfl, -⟩; rfl
  have hc : readCheckpoint serdeJson damagedTail = .ok 0 := by
    have hmiss : damagedTail[walCheckpointFile]? = none := by
      rw [damagedTail, Directory.getElem?_insert_of_ne _
        (ne_walCheckpointFile (isSegmentName_segmentPath 1)), Std.ExtTreeMap.getElem?_empty]
    rw [readCheckpoint, hmiss]
  have hread : readSegment serdeJson (segmentPath 1) (damagedTail.content (segmentPath 1))
      = .ok ⟨[], headerLen, true⟩ := by
    have htorn : ∀ rest, serdeJson.frames.scan (List.replicate 8 255 ++ rest)
        = some ⟨[], 0, true⟩ := by
      intro rest
      have hhead : serdeJson.frames.head (List.replicate 8 255 ++ rest) = .torn := by
        show serdeJson.frames.head (255 :: 255 :: 255 :: 255 :: 255 :: 255 :: 255 :: 255 :: rest) = _
        rw [FrameFormat.head, if_pos (Or.inl (by decide))]
      rw [FrameFormat.scan_eq, hhead]
    rw [Directory.content_eq hget, readSegment_of_header goodHeader_segmentHeader, htorn]
    rfl
  have hframe : IntactFrame serdeJson 0 (damagedTail.content (segmentPath 1)) 16
      (serdeJson.toVec ⟨1, draft 1⟩) ⟨1, draft 1⟩ := by
    have hlen : (serdeJson.toVec ⟨1, draft 1⟩).length ≤ maxFrameLen := fits_draft_one (by decide)
    rw [maxFrameLen] at hlen
    refine ⟨⟨[], ?_⟩, by omega, serdeJson.fromSlice_toVec _, by decide⟩
    have hdrop : (segmentHeader ++ List.replicate 8 255 : Bytes).length = 16 := rfl
    rw [Directory.content_eq hget, List.append_nil, ← List.append_assoc, ← hdrop, List.drop_left]
    rw [FrameFormat.frame]
    rfl
  have hsafe := (safe_of_openKeepsEvidence h hc).tail (segmentPath 1)
    (by rw [hlist]; exact List.mem_cons_self) (by rw [hlist]; rfl) _ hread rfl _ _ _ hframe
  dsimp only at hsafe
  rw [headerLen] at hsafe
  omega

end Agenomic.Ledger
