import Agenomic.Ledger.WalAppend

/-!
# Segments that a crash cuts

Appends that go into one new segment leave a header and their frames (`WritesInto.content`).
A crash can keep any prefix of these bytes.

**`readSegment_cut`**: whatever is kept, the reader returns the records whose frames lie
inside it, the end of the last of these, and whether something is left over.
-/

namespace Agenomic.Ledger

open Lib

variable {serde : WalSerde}

namespace WalWriter

/-- Appends that succeed, all into one segment, and the records they write. -/
inductive WritesInto (serde : WalSerde) (n : String) :
    WalWriter → Directory → List WalRecord → Directory → Prop where
  | done {w : WalWriter} {d : Directory} : WritesInto serde n w d [] d
  | append {w w' : WalWriter} {d d' d'' : Directory} {draft : LedgerEntryDraft} {io : WriteOutcome}
      {rs : List WalRecord} {seq : Nat} (htarget : w.target = n)
      (happend : w.append serde d draft io = (w', d', .ok seq))
      (hrest : WritesInto serde n w' d' rs d'') :
      WritesInto serde n w d (⟨w.nextWalSeq, draft⟩ :: rs) d''

/-- An append that succeeded left its segment open. -/
theorem append_currentLen {w w' : WalWriter} {d d' : Directory} {draft : LedgerEntryDraft}
    {io : WriteOutcome} {seq : Nat} (h : w.append serde d draft io = (w', d', .ok seq)) :
    w'.current = w.target ∧ w'.currentLen ≠ 0 := by
  have hframe : ∀ (w₁ : WalWriter) (d₁ : Directory),
      w₁.appendFrame d₁ io (w.nextFrame serde draft) = (w', d', .ok seq) → w'.currentLen ≠ 0 := by
    intro w₁ d₁ h₁
    have hlen : (w.nextFrame serde draft).length = 8 + _ :=
      serde.frames.frame_length ⟨w.nextWalSeq, draft⟩
    unfold appendFrame at h₁
    split at h₁
    · cases h₁
    · dsimp only at h₁
      split at h₁
      · cases h₁
        dsimp only
        omega
      · cases h₁
  by_cases hbudget : w.OverBudget serde draft
  · have hlt : w.diskMaxBytes < w.totalLen + (serde.frames.frame ⟨w.nextWalSeq, draft⟩).length :=
      hbudget
    rw [WalWriter.append, if_pos hlt] at h
    cases h
  rcases append_eq (d := d) hbudget io with ⟨e, heq⟩ | heq
  · rw [heq] at h
    cases h
  · rw [heq] at h
    refine ⟨(appendRecord_cases h).1, ?_⟩
    unfold appendRecord at h
    split at h
    · cases h
    split at h
    · split at h
      · cases h
      · exact hframe _ _ h
    · exact hframe _ _ h

/-- Behind a rotation the target is another segment. -/
theorem not_full_of_target {w w' : WalWriter} {d d' : Directory} {draft : LedgerEntryDraft}
    {io : WriteOutcome} {seq : Nat} (h : w.append serde d draft io = (w', d', .ok seq))
    (htarget : w.target = w.current) : ¬w.segmentMaxBytes ≤ w.currentLen := by
  intro hfull
  have hnext : w.target = segmentPath (segmentIndex w.current + 1) := by
    unfold target rotated
    rw [if_pos hfull]
  by_cases hbudget : w.OverBudget serde draft
  · have hlt : w.diskMaxBytes < w.totalLen + (serde.frames.frame ⟨w.nextWalSeq, draft⟩).length :=
      hbudget
    rw [WalWriter.append, if_pos hlt] at h
    cases h
  have hle : ¬w.diskMaxBytes < w.totalLen + (serde.frames.frame ⟨w.nextWalSeq, draft⟩).length :=
    hbudget
  rw [WalWriter.append, if_neg hle, if_pos hfull] at h
  unfold rotate at h
  by_cases hfits : segmentIndex w.current + 1 < 4294967296
  · have hindex := segmentIndex_segmentPath hfits
    rw [← hnext, htarget] at hindex
    omega
  · dsimp only at h
    rw [if_neg hfits] at h
    cases h

/-- Appends to an open segment add their frames to it. -/
theorem WritesInto.content_open {n : String} {w : WalWriter} {d d' : Directory}
    {rs : List WalRecord} (h : WritesInto serde n w d rs d') (hcurrent : w.current = n)
    (hmem : n ∈ d) (hlen : w.currentLen ≠ 0) :
    d'.content n = d.content n ++ serde.frames.frames rs := by
  induction h with
  | done => exact (List.append_nil _).symm
  | @append w w' d d' d'' draft io rs seq htarget happend hrest ih =>
      have hfull := not_full_of_target happend (htarget.trans hcurrent.symm)
      have hrotated : w.rotated = w := if_neg hfull
      have hfresh : ¬w.Fresh d := by
        unfold Fresh
        rw [hrotated, hcurrent]
        rintro (hnot | hzero)
        · exact hnot hmem
        · exact hlen hzero
      have howed : w.owedHeader d = [] := if_neg hfresh
      obtain ⟨hcurrent', hlen'⟩ := append_currentLen happend
      rcases (append_cases happend).2 with ⟨e, -, herr⟩ | ⟨-, hwrites⟩
      · cases herr
      rcases hwrites with ⟨k, e, -, -, herr⟩ | ⟨k, e, -, herr⟩ | ⟨hd', -⟩
      · cases herr
      · cases herr
      rw [htarget, howed, List.nil_append] at hd'
      have hmem' : n ∈ d' := by
        rw [hd']
        exact Std.ExtTreeMap.mem_insert_self
      rw [ih (hcurrent'.trans htarget) hmem' hlen', hd', Directory.content_appendBytes,
        List.append_assoc]
      rfl

/-- **Appends that start a segment leave a header and their frames.** -/
theorem WritesInto.content {n : String} {w : WalWriter} {d d' : Directory} {rs : List WalRecord}
    (h : WritesInto serde n w d rs d') (hnew : n ∉ d) :
    d'.content n = if rs = [] then [] else segmentHeader ++ serde.frames.frames rs := by
  have hempty : d.content n = [] := by
    rw [Directory.content, Std.ExtTreeMap.getElem?_eq_none hnew]
    rfl
  cases h with
  | done => exact hempty
  | @append w w' _ d₁ _ draft io rs seq htarget happend hrest =>
      have hfresh : w.Fresh d := by
        left
        rw [show w.rotated.current = n from htarget]
        exact hnew
      have howed : w.owedHeader d = segmentHeader := if_pos hfresh
      obtain ⟨hcurrent', hlen'⟩ := append_currentLen happend
      rcases (append_cases happend).2 with ⟨e, -, herr⟩ | ⟨-, hwrites⟩
      · cases herr
      rcases hwrites with ⟨k, e, -, -, herr⟩ | ⟨k, e, -, herr⟩ | ⟨hd₁, -⟩
      · cases herr
      · cases herr
      rw [htarget, howed] at hd₁
      have hmem' : n ∈ d₁ := by
        rw [hd₁]
        exact Std.ExtTreeMap.mem_insert_self
      rw [hrest.content_open (hcurrent'.trans htarget) hmem' hlen', hd₁,
        Directory.content_appendBytes, hempty, List.nil_append, if_neg (List.cons_ne_nil _ _),
        List.append_assoc]
      rfl

end WalWriter

/-! ## What a prefix reads as -/

/-- Where the frame of a record starts in a segment of these records; the frame behind the
last record would start at the end. -/
def frameStart (serde : WalSerde) (rs : List WalRecord) (i : Nat) : Nat :=
  headerLen + (serde.frames.frames (rs.take i)).length

/-- Where the frame of a record ends. -/
def frameEnd (serde : WalSerde) (rs : List WalRecord) (i : Nat) : Nat := frameStart serde rs (i + 1)

/-- What the first bytes of a segment of these records are to be read as. -/
structure CutAt (serde : WalSerde) (rs : List WalRecord) (k : Nat)
    (s : FrameFormat.Scan WalRecord) : Prop where
  /-- The first records, -/
  records : s.records <+: rs
  /-- as many as have their frames inside. -/
  inside : ∀ i < rs.length, i < s.records.length ↔ frameEnd serde rs i ≤ k
  goodEnd : s.goodEnd = if k < headerLen then 0 else frameStart serde rs s.records.length
  torn : s.torn = true ↔ k < headerLen
    ∨ ∃ i < rs.length, frameStart serde rs i < k ∧ k < frameEnd serde rs i

theorem frameStart_mono (rs : List WalRecord) {i j : Nat} (h : i ≤ j) :
    frameStart serde rs i ≤ frameStart serde rs j := by
  unfold frameStart
  have hsplit : rs.take j = rs.take i ++ (rs.take j).drop i := by
    conv_lhs => rw [← List.take_append_drop i (rs.take j)]
    rw [List.take_take, Nat.min_eq_left h]
  rw [hsplit]
  unfold FrameFormat.frames
  rw [List.flatMap_append, List.length_append]
  omega

theorem readSegment_short (n : String) {bytes : Bytes} (h : bytes.length < headerLen) :
    readSegment serde n bytes = .ok ⟨[], 0, true⟩ := by
  rcases readSegment_cases serde n bytes with ⟨-, hread⟩ | ⟨e, he⟩ | ⟨hd, rest, s, rfl, hh, -, -⟩
  · exact hread
  · rw [headerLen] at h
    rcases bytes with _ | ⟨m0, _ | ⟨m1, _ | ⟨m2, _ | ⟨m3, _ | ⟨v0, _ | ⟨v1, _ | ⟨r0, _ | ⟨r1, rest⟩⟩⟩⟩⟩⟩⟩⟩
    all_goals first | rfl | (simp only [List.length_cons] at h; omega)
  · rw [List.length_append, hh.length] at h
    omega

/-- A prefix of a header and frames. -/
theorem cutAt_take {rs : List WalRecord} (hfits : ∀ r ∈ rs, serde.frames.Fits r) (n : String)
    {k : Nat} (hk : k ≤ (segmentHeader ++ serde.frames.frames rs).length) :
    ∃ s, readSegment serde n ((segmentHeader ++ serde.frames.frames rs).take k) = .ok s
      ∧ CutAt serde rs k s := by
  rw [List.length_append, segmentHeader_length] at hk
  by_cases hshort : k < headerLen
  · refine ⟨⟨[], 0, true⟩, readSegment_short n ?_, List.nil_prefix, fun i hi => ?_, ?_, ?_⟩
    · rw [List.length_take]
      omega
    · unfold frameEnd frameStart
      rw [List.length_nil]
      omega
    · rw [if_pos hshort]
    · exact ⟨fun _ => .inl hshort, fun _ => rfl⟩
  · obtain ⟨j, rfl⟩ : ∃ j, k = headerLen + j := Nat.exists_eq_add_of_le (Nat.le_of_not_lt hshort)
    have hj : j ≤ (serde.frames.frames rs).length := by omega
    have hread : readSegment serde n (segmentHeader ++ (serde.frames.frames rs).take j)
        = behindHeader n (serde.frames.scan ((serde.frames.frames rs).take j)) :=
      readSegment_of_header goodHeader_segmentHeader n _
    rw [serde.frames.scan_prefix hfits j hj] at hread
    have htake : (segmentHeader ++ serde.frames.frames rs).take (headerLen + j)
        = segmentHeader ++ (serde.frames.frames rs).take j := by
      rw [← segmentHeader_length, List.take_length_add_append]
    rw [htake, hread]
    have hbegins := serde.frames.inside_isPrefix j rs
    have hinside : ∀ i < rs.length, i < (serde.frames.inside j rs).length
        ↔ frameEnd serde rs i ≤ headerLen + j := by
      intro i hi
      rw [serde.frames.lt_length_inside rs j i hi]
      unfold frameEnd frameStart
      omega
    have hlen := hbegins.length_le
    have hstart : frameStart serde rs (serde.frames.inside j rs).length
        = headerLen + (serde.frames.frames (serde.frames.inside j rs)).length := by
      unfold frameStart
      rw [← List.prefix_iff_eq_take.mp hbegins]
    refine ⟨_, rfl, hbegins, hinside, ?_, ?_⟩
    · exact (if_neg hshort).symm ▸ hstart.symm
    · dsimp only
      rw [decide_eq_true_iff]
      constructor
      · intro hlt
        refine .inr ⟨(serde.frames.inside j rs).length, ?_, ?_, ?_⟩
        · -- all frames together would reach the end of the prefix
          by_contra hall
          have hlen := hbegins.length_le
          rw [hbegins.eq_of_length (by omega)] at hlt
          omega
        · omega
        · by_contra hle
          have hmem : (serde.frames.inside j rs).length < rs.length := by
            by_contra hall
            have hlen := hbegins.length_le
            rw [hbegins.eq_of_length (by omega)] at hlt
            omega
          have hself := (hinside _ hmem).mpr (Nat.le_of_not_lt hle)
          omega
      · rintro (hlt | ⟨i, hi, hafter, hbefore⟩)
        · exact absurd hlt hshort
        · have hnot : ¬i < (serde.frames.inside j rs).length := by
            rw [hinside i hi]
            omega
          have hmono : frameStart serde rs (serde.frames.inside j rs).length ≤ frameStart serde rs i :=
            frameStart_mono rs (Nat.le_of_not_lt hnot)
          omega

end Agenomic.Ledger
