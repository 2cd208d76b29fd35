import Agenomic.Ledger.Wal

/-!
# Segments: their names and what a reader makes of their bytes

Two kinds of fact every argument about the log starts from. About names: an index
is read back from the name it made, names sort like their indices as long as
these have eight digits (**`segmentPath_lt_segmentPath`**), and a quarantined or
a checkpoint file is never taken for a segment. About bytes: a segment is shorter
than a header, or not a segment at all, or a good header with a frame log behind
it (**`readSegment_cases`**).
-/

namespace Agenomic.Ledger

open Lib

/-! ## Names -/

theorem toList_segmentPath (i : Nat) :
    (segmentPath i).toList = "wal-".toList ++ (padded 8 i ++ ".wal".toList) :=
  String.toList_ofList

theorem isSegmentName_segmentPath (i : Nat) : isSegmentName (segmentPath i) = true := by
  rw [isSegmentName, toList_segmentPath]
  generalize "wal-".toList = p
  generalize ".wal".toList = q
  rw [Bool.and_eq_true, List.isPrefixOf_iff_prefix, List.isSuffixOf_iff_suffix]
  exact ⟨List.prefix_append _ _, (List.suffix_append _ _).trans (List.suffix_append _ _)⟩

theorem parseU32_padded {i : Nat} (h : i < 4294967296) : parseU32 (padded 8 i) = some i := by
  have hall : (padded 8 i).all Char.isDigit = true := List.all_eq_true.mpr fun _ => padded_isDigit
  rw [parseU32, hall, ofDecimal_padded, if_neg (by simp [padded_ne_nil]), if_pos h]
  intro rest hplus
  have hdigit := @padded_isDigit 8 i '+' (by rw [hplus]; exact List.mem_cons_self)
  exact absurd hdigit (by decide)

/-- An index is read back from the name it made. -/
theorem segmentIndex_segmentPath {i : Nat} (h : i < 4294967296) :
    segmentIndex (segmentPath i) = i := by
  rw [segmentIndex, segmentPath, stripPrefix?_append]
  simp only [Option.bind_eq_bind, Option.bind_some, stripSuffix?_append, String.toList_ofList,
    parseU32_padded h, Option.getD_some]

/-- Names of eight digits sort like their indices. -/
theorem segmentPath_lt_segmentPath {i j : Nat} (h : i < j) (hj : j < 100000000) :
    segmentPath i < segmentPath j := by
  rw [String.lt_iff, toList_segmentPath, toList_segmentPath]
  refine append_left_lt _ (append_lt_append_of_lt (padded_lt_padded (w := 8) (by decide) h hj) ?_ _ _)
  rw [padded_length (w := 8) (by decide) (by omega), padded_length (w := 8) (by decide) hj]

theorem toList_corruptPath (n : String) :
    (corruptPath n).toList = n.toList ++ ".corrupt".toList := String.toList_append

/-- A quarantined file is no segment. -/
theorem isSegmentName_corruptPath (n : String) : isSegmentName (corruptPath n) = false := by
  rw [isSegmentName, toList_corruptPath, Bool.and_eq_false_iff]
  refine Or.inr ?_
  rw [Bool.eq_false_iff]
  intro h
  have hs := List.isSuffixOf_iff_suffix.mp h
  -- both are suffixes of the same name, so the shorter one ends the longer one
  have hend := List.suffix_of_suffix_length_le hs
    (List.suffix_append n.toList ".corrupt".toList) (by decide)
  revert hend
  decide

theorem isSegmentName_walCheckpointFile : isSegmentName walCheckpointFile = false := by decide

theorem corruptPath_injective {n m : String} (h : corruptPath n = corruptPath m) : n = m := by
  have hl := congrArg String.toList h
  rw [toList_corruptPath, toList_corruptPath] at hl
  exact String.toList_injective (List.append_cancel_right hl)

theorem ne_corruptPath {n : String} (h : isSegmentName n = true) (m : String) :
    n ≠ corruptPath m := by
  rintro rfl
  rw [isSegmentName_corruptPath] at h
  cases h

theorem ne_walCheckpointFile {n : String} (h : isSegmentName n = true) :
    n ≠ walCheckpointFile := by
  rintro rfl
  rw [isSegmentName_walCheckpointFile] at h
  cases h

theorem corruptPath_ne_walCheckpointFile (n : String) : corruptPath n ≠ walCheckpointFile := by
  intro h
  have hl := congrArg String.toList h
  rw [toList_corruptPath] at hl
  have hs : ".corrupt".toList <:+ walCheckpointFile.toList := ⟨_, hl⟩
  revert hs
  decide

theorem mem_listSegments {d : Directory} {n : String} :
    n ∈ listSegments d ↔ n ∈ d ∧ isSegmentName n = true := Directory.mem_list

theorem listSegments_nodup (d : Directory) : (listSegments d).Nodup := d.list_nodup _

/-! ## Bytes -/

/-- A header the reader accepts. -/
def GoodHeader (h : Bytes) : Prop := ∃ r0 r1, h = walMagic ++ le16 walVersion ++ [r0, r1]

theorem goodHeader_segmentHeader : GoodHeader segmentHeader := ⟨0, 0, rfl⟩

theorem segmentHeader_length : segmentHeader.length = headerLen := rfl

theorem GoodHeader.length {h : Bytes} (hh : GoodHeader h) : h.length = headerLen := by
  obtain ⟨r0, r1, rfl⟩ := hh
  rfl

variable {serde : WalSerde}

/-- What a scan behind a header says about the whole segment. -/
def behindHeader (segment : String) : Option (FrameFormat.Scan WalRecord) →
    CliResult (FrameFormat.Scan WalRecord)
  | none => .error (.ledgerIntegrity s!"undecodable WAL record in {segment}")
  | some s => .ok ⟨s.records, headerLen + s.goodEnd, s.torn⟩

/-- Behind a good header the reader walks the frames. -/
theorem readSegment_of_header {h : Bytes} (hh : GoodHeader h) (n : String) (rest : Bytes) :
    readSegment serde n (h ++ rest) = behindHeader n (serde.frames.scan rest) := by
  obtain ⟨r0, r1, rfl⟩ := hh
  have hbytes : walMagic ++ le16 walVersion ++ [r0, r1] ++ rest
      = 65 :: 76 :: 87 :: 76 :: 1 :: 0 :: r0 :: r1 :: rest := rfl
  rw [hbytes, readSegment, if_neg (by decide), if_neg (by decide)]
  cases serde.frames.scan rest <;> rfl

/-- **The three shapes a segment can have.** -/
theorem readSegment_cases (serde : WalSerde) (n : String) (bytes : Bytes) :
    (bytes.length < headerLen ∧ readSegment serde n bytes = .ok ⟨[], 0, true⟩)
    ∨ (∃ e, readSegment serde n bytes = .error e)
    ∨ (∃ h rest s, bytes = h ++ rest ∧ GoodHeader h ∧ serde.frames.scan rest = some s
        ∧ readSegment serde n bytes = .ok ⟨s.records, headerLen + s.goodEnd, s.torn⟩) := by
  rcases bytes with _ | ⟨m0, _ | ⟨m1, _ | ⟨m2, _ | ⟨m3, _ | ⟨v0, _ | ⟨v1, _ | ⟨r0, _ | ⟨r1, rest⟩⟩⟩⟩⟩⟩⟩⟩
  all_goals try exact Or.inl ⟨by simp [headerLen], rfl⟩
  refine Or.inr ?_
  by_cases hm : [m0, m1, m2, m3] = walMagic
  · by_cases hv : ofLe16 v0 v1 = walVersion
    · have hh : GoodHeader [m0, m1, m2, m3, v0, v1, r0, r1] := by
        have h0 := v0.toNat_lt
        have h1 := v1.toNat_lt
        rw [ofLe16, walVersion] at hv
        have hv0 : v0 = 1 := UInt8.toNat_inj.mp (by show v0.toNat = 1; omega)
        have hv1 : v1 = 0 := UInt8.toNat_inj.mp (by show v1.toNat = 0; omega)
        refine ⟨r0, r1, ?_⟩
        rw [← hm, hv0, hv1]
        rfl
      have hread : readSegment serde n _ = _ := readSegment_of_header hh n rest
      cases hs : serde.frames.scan rest with
      | none => rw [hs] at hread; exact Or.inl ⟨_, hread⟩
      | some s => rw [hs] at hread; exact Or.inr ⟨_, rest, s, rfl, hh, hs, hread⟩
    · rw [readSegment, if_neg (not_not.mpr hm), if_pos hv]
      exact Or.inl ⟨_, rfl⟩
  · rw [readSegment, if_pos hm]
    exact Or.inl ⟨_, rfl⟩

/-- A segment is a header and whole frames, and these are their records. -/
def WholeSegment (serde : WalSerde) (bytes : Bytes) (rs : List WalRecord) : Prop :=
  ∃ h rest, bytes = h ++ rest ∧ GoodHeader h ∧ serde.frames.Clean rest rs

theorem WholeSegment.read {bytes : Bytes} {rs : List WalRecord} (h : WholeSegment serde bytes rs)
    (n : String) : readSegment serde n bytes = .ok ⟨rs, bytes.length, false⟩ := by
  obtain ⟨hd, rest, rfl, hh, hc⟩ := h
  rw [readSegment_of_header hh, hc, behindHeader, List.length_append, hh.length]

/-- A torn segment, cut back to its good prefix, is whole or too short for a header. -/
theorem read_take_goodEnd {n : String} {bytes : Bytes} {s : FrameFormat.Scan WalRecord}
    (h : readSegment serde n bytes = .ok s) :
    (s = ⟨[], 0, true⟩) ∨ WholeSegment serde (bytes.take s.goodEnd) s.records := by
  rcases readSegment_cases serde n bytes with
    ⟨_, hr⟩ | ⟨e, hr⟩ | ⟨hd, rest, s', rfl, hh, hs, hr⟩
  all_goals rw [hr] at h
  · cases h; exact Or.inl rfl
  · cases h
  · cases h
    refine Or.inr ⟨hd, rest.take s'.goodEnd, ?_, hh, serde.frames.scan_take rest hs⟩
    dsimp only
    rw [← hh.length, List.take_length_add_append]

/-- One more frame keeps a segment whole. -/
theorem WholeSegment.append {bytes : Bytes} {rs : List WalRecord} (h : WholeSegment serde bytes rs)
    {r : WalRecord} (hr : serde.frames.Fits r) :
    WholeSegment serde (bytes ++ serde.frames.frame r) (rs ++ [r]) := by
  obtain ⟨hd, rest, rfl, hh, hc⟩ := h
  exact ⟨hd, rest ++ serde.frames.frame r, List.append_assoc _ _ _, hh,
    FrameFormat.Clean.append _ hc (serde.frames.clean_frame hr)⟩

/-- Behind a whole segment, any prefix of a frame leaves its records readable. -/
theorem WholeSegment.read_cut {bytes : Bytes} {rs : List WalRecord}
    (h : WholeSegment serde bytes rs) {r : WalRecord} (hr : serde.frames.Fits r) (k : Nat)
    (n : String) : ∃ s, readSegment serde n (bytes ++ (serde.frames.frame r).take k) = .ok s
      ∧ ∀ x ∈ rs, x ∈ s.records := by
  rcases Nat.eq_zero_or_pos k with rfl | hk
  · rw [List.take_zero, List.append_nil, h.read]
    exact ⟨_, rfl, fun x hx => hx⟩
  rcases Nat.lt_or_ge k (serde.frames.frame r).length with hlt | hge
  · obtain ⟨hd, rest, rfl, hh, hc⟩ := h
    rw [List.append_assoc, readSegment_of_header hh, serde.frames.scan_cut hc hr hk hlt]
    exact ⟨_, rfl, fun x hx => hx⟩
  · rw [List.take_of_length_le hge, (h.append hr).read]
    exact ⟨_, rfl, fun x hx => List.mem_append_left _ hx⟩

theorem wholeSegment_header : WholeSegment serde segmentHeader [] :=
  ⟨segmentHeader, [], (List.append_nil _).symm, goodHeader_segmentHeader, serde.frames.clean_nil⟩

end Agenomic.Ledger
