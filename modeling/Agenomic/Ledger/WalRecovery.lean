import Agenomic.Ledger.WalSegments

/-!
# What recovery does to the directory

Opening the log decides the *fate* of every segment from its bytes, its position
in the listing and the checkpoint: set aside, cut back, removed or kept. The loop
over the segments changes nothing else, and no segment's fate depends on what
happened to another (**`recoverSegments_spec`**), so the directory after opening
and the records it returns can be read off the directory before
(**`open_recovers`**).
-/

namespace Agenomic.Ledger

open Lib

variable (serde : WalSerde)

/-- What becomes of a segment. -/
inductive Fate where
  | quarantined (records : List WalRecord)
  | truncated (records : List WalRecord) (goodEnd : Nat)
  | removed (records : List WalRecord)
  | kept (records : List WalRecord)

namespace Fate

/-- The records that were read from the segment. -/
def records : Fate → List WalRecord
  | .quarantined rs => rs
  | .truncated rs _ => rs
  | .removed rs => rs
  | .kept rs => rs

/-- What stands under the segment's name afterwards. -/
def after (bytes : Bytes) : Fate → Option Bytes
  | .quarantined _ => none
  | .truncated _ goodEnd => some (bytes.take goodEnd)
  | .removed _ => none
  | .kept _ => some bytes

def isQuarantined : Fate → Bool
  | .quarantined _ => true
  | _ => false

end Fate

/-- The fate of a segment. -/
def fate (checkpoint : Nat) (isLast : Bool) (segment : String) (bytes : Bytes) : Fate :=
  match readSegment serde segment bytes with
  | .error _ => .quarantined []
  | .ok s =>
      if s.torn then
        if isLast then .truncated s.records s.goodEnd else .quarantined s.records
      else if s.records.all (fun r => r.walSeq ≤ checkpoint) then .removed s.records
      else .kept s.records

/-- The records above the checkpoint. -/
def above (checkpoint : Nat) (rs : List WalRecord) : List WalRecord :=
  rs.filter fun r => checkpoint < r.walSeq

/-- The highest position among records, from a start. -/
def maxSeq (rs : List WalRecord) (m : Nat) : Nat := rs.foldl (fun m r => max m r.walSeq) m

variable {serde}

/-- The five ways a segment meets its fate. -/
theorem fate_cases (serde : WalSerde) (checkpoint : Nat) (isLast : Bool) (n : String) (bytes : Bytes) :
    (∃ e, readSegment serde n bytes = .error e
      ∧ fate serde checkpoint isLast n bytes = .quarantined [])
    ∨ (∃ s, readSegment serde n bytes = .ok s ∧ s.torn = true ∧ isLast = true
      ∧ fate serde checkpoint isLast n bytes = .truncated s.records s.goodEnd)
    ∨ (∃ s, readSegment serde n bytes = .ok s ∧ s.torn = true ∧ isLast = false
      ∧ fate serde checkpoint isLast n bytes = .quarantined s.records)
    ∨ (∃ s, readSegment serde n bytes = .ok s ∧ s.torn = false
      ∧ (∀ r ∈ s.records, r.walSeq ≤ checkpoint)
      ∧ fate serde checkpoint isLast n bytes = .removed s.records)
    ∨ (∃ s, readSegment serde n bytes = .ok s ∧ s.torn = false
      ∧ ¬(∀ r ∈ s.records, r.walSeq ≤ checkpoint)
      ∧ fate serde checkpoint isLast n bytes = .kept s.records) := by
  rw [fate]
  cases readSegment serde n bytes with
  | error e => exact Or.inl ⟨e, rfl, rfl⟩
  | ok s =>
      refine Or.inr ?_
      have hall : s.records.all (fun r => decide (r.walSeq ≤ checkpoint)) = true
          ↔ ∀ r ∈ s.records, r.walSeq ≤ checkpoint := by
        rw [List.all_eq_true]
        exact forall_congr' fun r => forall_congr' fun _ => decide_eq_true_iff
      dsimp only
      cases ht : s.torn with
      | true =>
          rw [if_pos rfl]
          cases isLast with
          | true => exact Or.inl ⟨s, rfl, ht, rfl, rfl⟩
          | false => exact Or.inr (Or.inl ⟨s, rfl, ht, rfl, rfl⟩)
      | false =>
          rw [if_neg Bool.false_ne_true]
          refine Or.inr (Or.inr ?_)
          by_cases h : ∀ r ∈ s.records, r.walSeq ≤ checkpoint
          · exact Or.inl ⟨s, rfl, ht, h, if_pos (hall.mpr h)⟩
          · exact Or.inr ⟨s, rfl, ht, h, if_neg fun h' => h (hall.mp h')⟩

/-- What the reader took from a segment counts, whatever its fate. -/
theorem fate_records_of_read {checkpoint : Nat} {isLast : Bool} {n : String} {bytes : Bytes}
    {s : FrameFormat.Scan WalRecord} (h : readSegment serde n bytes = .ok s) :
    (fate serde checkpoint isLast n bytes).records = s.records := by
  rcases fate_cases serde checkpoint isLast n bytes with
    ⟨e, hread, hf⟩ | ⟨s', hread, _, _, hf⟩ | ⟨s', hread, _, _, hf⟩ | ⟨s', hread, _, _, hf⟩
    | ⟨s', hread, _, _, hf⟩
  all_goals rw [h] at hread
  all_goals cases hread
  all_goals rw [hf, Fate.records]

/-! ## One segment -/

/-- A recovered segment meets its fate, and nothing else in the directory changes. -/
theorem recoverSegment_spec (serde : WalSerde) (checkpoint : Nat) (isLast : Bool) {st : Recovery} {n : String}
    {bytes : Bytes} (hn : st.dir[n]? = some bytes) (hseg : isSegmentName n = true) :
    let f := fate serde checkpoint isLast n bytes
    let st' := recoverSegment serde checkpoint isLast st n
    (∀ m, st'.dir[m]? = if m = n then f.after bytes
      else if m = corruptPath n ∧ f.isQuarantined = true then some bytes else st.dir[m]?)
    ∧ st'.report.pending = st.report.pending ++ above checkpoint f.records
    ∧ st'.report.lastWalSeq = maxSeq f.records st.report.lastWalSeq
    ∧ st'.report.quarantinedSegments = st.report.quarantinedSegments
        ++ (if f.isQuarantined = true then [corruptPath n] else []) := by
  have hcontent : st.dir.content n = bytes := Directory.content_eq hn
  have hne : n ≠ corruptPath n := ne_corruptPath hseg n
  have hquar : ∀ m, (st.quarantine n).dir[m]?
      = if m = n then none else if m = corruptPath n then some bytes else st.dir[m]? := by
    intro m
    rw [Recovery.quarantine, Directory.getElem?_rename hn]
    by_cases h : m = corruptPath n
    · rw [if_pos h, if_neg (by rw [h]; exact hne.symm), if_pos h]
    · rw [if_neg h, if_neg h]
  have hmeasure : ∀ st' : Recovery, (st'.measure n).dir = st'.dir
      ∧ (st'.measure n).report = st'.report := by
    intro st'
    rw [Recovery.measure]
    split <;> exact ⟨rfl, rfl⟩
  dsimp only
  rw [fate, recoverSegment, hcontent]
  cases readSegment serde n bytes with
  | error e =>
      dsimp only
      rw [(hmeasure _).1, (hmeasure _).2]
      refine ⟨fun m => ?_, (List.append_nil _).symm, rfl, rfl⟩
      simp only [hquar, Fate.after, Fate.isQuarantined, and_true]
  | ok s =>
      obtain ⟨rs, goodEnd, torn⟩ := s
      cases torn with
      | true =>
          simp only [Bool.true_and, if_true, Bool.not_true, Bool.and_false, Bool.false_eq_true,
            if_false, (hmeasure _).1, (hmeasure _).2]
          cases isLast with
          | true =>
              refine ⟨fun m => ?_, rfl, rfl, (List.append_nil _).symm⟩
              simp only [if_true, Recovery.collect, Recovery.truncate, hcontent, Fate.after,
                Fate.isQuarantined, Bool.false_eq_true, and_false, if_false]
              by_cases h : m = n
              · rw [if_pos h, h, Directory.getElem?_insert_self]
              · rw [if_neg h, Directory.getElem?_insert_of_ne _ (Ne.symm h)]
          | false =>
              refine ⟨fun m => ?_, rfl, rfl, rfl⟩
              simp only [Bool.false_eq_true, if_false, Recovery.collect, Fate.after,
                Fate.isQuarantined, and_true]
              exact hquar m
      | false =>
          simp only [Bool.false_and, Bool.false_eq_true, if_false, Bool.not_false, Bool.and_true]
          by_cases hall : (rs.all fun r => decide (r.walSeq ≤ checkpoint)) = true
          · rw [if_pos hall, if_pos hall]
            refine ⟨fun m => ?_, rfl, rfl, (List.append_nil _).symm⟩
            simp only [Recovery.remove, Recovery.collect, Fate.after, Fate.isQuarantined,
              Bool.false_eq_true, and_false, if_false]
            by_cases h : m = n
            · rw [if_pos h, h, Directory.getElem?_erase_self]
            · rw [if_neg h, Directory.getElem?_erase_of_ne (Ne.symm h)]
          · rw [if_neg hall, if_neg hall, (hmeasure _).1, (hmeasure _).2]
            refine ⟨fun m => ?_, rfl, rfl, (List.append_nil _).symm⟩
            simp only [Recovery.collect, Fate.after, Fate.isQuarantined, Bool.false_eq_true,
              and_false, if_false]
            by_cases h : m = n
            · rw [if_pos h, h, hn]
            · rw [if_neg h]

/-- What stands under a name afterwards is no longer than before. -/
theorem Fate.after_length_le (f : Fate) (bytes : Bytes) :
    ((f.after bytes).getD []).length ≤ bytes.length := by
  cases f with
  | quarantined rs => exact Nat.zero_le _
  | truncated rs goodEnd =>
      show (bytes.take goodEnd).length ≤ bytes.length
      rw [List.length_take]
      exact Nat.min_le_right _ _
  | removed rs => exact Nat.zero_le _
  | kept rs => exact Nat.le_refl _

theorem measure_totalLen (st : Recovery) (n : String) :
    (st.measure n).totalLen = st.totalLen + (st.dir.content n).length := by
  rw [Recovery.measure, Directory.content]
  split
  · rename_i h; rw [h]; rfl
  · rename_i bytes h; rw [h]; rfl

/-- A recovered segment counts for the bytes that are left of it. -/
theorem recoverSegment_totalLen (serde : WalSerde) (checkpoint : Nat) (isLast : Bool)
    (st : Recovery) (n : String) :
    (recoverSegment serde checkpoint isLast st n).totalLen = st.totalLen
      + ((recoverSegment serde checkpoint isLast st n).dir.content n).length := by
  have hmeasured : ∀ st' : Recovery, st'.totalLen = st.totalLen →
      (st'.measure n).totalLen = st.totalLen + ((st'.measure n).dir.content n).length := by
    intro st' h
    have hdir : (st'.measure n).dir = st'.dir := by
      rw [Recovery.measure]
      split <;> rfl
    rw [measure_totalLen, hdir, h]
  have hremoved : ∀ st' : Recovery, st'.totalLen = st.totalLen →
      (st'.remove n).totalLen = st.totalLen + ((st'.remove n).dir.content n).length := by
    intro st' h
    rw [Recovery.remove, Directory.content, Directory.getElem?_erase_self]
    exact h
  rw [recoverSegment]
  split
  · exact hmeasured _ rfl
  · dsimp only
    split
    · refine hremoved _ ?_
      split <;> (try split) <;> rfl
    · refine hmeasured _ ?_
      split <;> (try split) <;> rfl

/-! ## All segments -/

/-- The fate of a listed segment. -/
def fateIn (serde : WalSerde) (checkpoint : Nat) (ns : List String) (d : Directory) (n : String) :
    Fate :=
  fate serde checkpoint (decide (ns.getLast? = some n)) n (d.content n)

/-- **Every listed segment meets its fate, and nothing else in the directory changes.** -/
theorem recoverSegments_spec (serde : WalSerde) (checkpoint : Nat) : ∀ (ns : List String) (st : Recovery),
    ns.Nodup → (∀ n ∈ ns, n ∈ st.dir ∧ isSegmentName n = true) →
    let f := fateIn serde checkpoint ns st.dir
    let st' := recoverSegments serde checkpoint ns st
    (∀ n ∈ ns, st'.dir[n]? = (f n).after (st.dir.content n))
    ∧ (∀ n ∈ ns, st'.dir[corruptPath n]? =
        if (f n).isQuarantined = true then some (st.dir.content n) else st.dir[corruptPath n]?)
    ∧ (∀ m, m ∉ ns → (∀ n ∈ ns, m ≠ corruptPath n) → st'.dir[m]? = st.dir[m]?)
    ∧ st'.report.pending
        = st.report.pending ++ (ns.flatMap fun n => above checkpoint (f n).records)
    ∧ st'.report.lastWalSeq = maxSeq (ns.flatMap fun n => (f n).records) st.report.lastWalSeq
    ∧ st'.report.quarantinedSegments = st.report.quarantinedSegments
        ++ (ns.filter fun n => (f n).isQuarantined).map corruptPath := by
  intro ns
  induction ns with
  | nil =>
      intro st _ _
      exact ⟨by simp, by simp, fun _ _ _ => rfl, (List.append_nil _).symm, rfl,
        (List.append_nil _).symm⟩
  | cons n ns ih =>
      intro st hnd hns
      rw [List.nodup_cons] at hnd
      obtain ⟨hmem, hseg⟩ := hns n List.mem_cons_self
      obtain ⟨bytes, hn⟩ := Directory.mem_iff_getElem?.mp hmem
      have hcontent : st.dir.content n = bytes := Directory.content_eq hn
      obtain ⟨hdir, hpend, hlast, hquar⟩ :=
        recoverSegment_spec serde checkpoint ns.isEmpty hn hseg
      -- the last of the rest is the last of all, unless there is no rest
      have hfirst : fateIn serde checkpoint (n :: ns) st.dir n
          = fate serde checkpoint ns.isEmpty n bytes := by
        rw [fateIn, hcontent]
        congr 1
        cases ns with
        | nil => simp
        | cons n' ns' =>
            rw [List.isEmpty_cons, decide_eq_false]
            intro h
            rw [List.getLast?_cons_cons] at h
            exact hnd.1 (List.mem_of_getLast? h)
      generalize hst : recoverSegment serde checkpoint ns.isEmpty st n = st1 at hdir hpend hlast hquar
      have hsame : ∀ m ∈ ns, st1.dir[m]? = st.dir[m]? := by
        intro m hm
        have hne : m ≠ n := by rintro rfl; exact hnd.1 hm
        have hsegm := (hns m (List.mem_cons_of_mem _ hm)).2
        rw [hdir, if_neg hne, if_neg (fun h => ne_corruptPath hsegm n h.1)]
      have hrest : ∀ m ∈ ns, fateIn serde checkpoint (n :: ns) st.dir m
          = fateIn serde checkpoint ns st1.dir m := by
        intro m hm
        rw [fateIn, fateIn, Directory.content, Directory.content, hsame m hm]
        congr 2
        cases ns with
        | nil => cases hm
        | cons n' ns' => rw [List.getLast?_cons_cons]
      have hcontents : ∀ m ∈ ns, st1.dir.content m = st.dir.content m := by
        intro m hm
        rw [Directory.content, Directory.content, hsame m hm]
      obtain ⟨ih1, ih2, ih3, ih4, ih5, ih6⟩ := ih st1 hnd.2 fun m hm =>
        ⟨by rw [Directory.mem_iff_getElem?, hsame m hm, ← Directory.mem_iff_getElem?]
            exact (hns m (List.mem_cons_of_mem _ hm)).1,
          (hns m (List.mem_cons_of_mem _ hm)).2⟩
      dsimp only
      rw [recoverSegments, hst]
      have hn' : n ∉ ns ∧ ∀ m ∈ ns, n ≠ corruptPath m := ⟨hnd.1, fun m _ => ne_corruptPath hseg m⟩
      have hcn : corruptPath n ∉ ns ∧ ∀ m ∈ ns, corruptPath n ≠ corruptPath m := by
        refine ⟨fun h => ?_, fun m hm h => hnd.1 (corruptPath_injective h ▸ hm)⟩
        exact ne_corruptPath (hns _ (List.mem_cons_of_mem _ h)).2 n rfl
      refine ⟨?_, ?_, ?_, ?_, ?_, ?_⟩
      · intro m hm
        rcases List.mem_cons.mp hm with rfl | hm
        · rw [ih3 m hn'.1 hn'.2, hdir, if_pos rfl, hfirst, hcontent]
        · rw [ih1 m hm, hrest m hm, hcontents m hm]
      · intro m hm
        rcases List.mem_cons.mp hm with rfl | hm
        · rw [ih3 _ hcn.1 hcn.2, hdir, if_neg (ne_corruptPath hseg m).symm, hfirst, hcontent]
          simp only [true_and]
        · have hother : st1.dir[corruptPath m]? = st.dir[corruptPath m]? := by
            rw [hdir, if_neg (ne_corruptPath hseg m).symm,
              if_neg fun h => hcn.2 m hm (h.1.symm)]
          rw [ih2 m hm, hrest m hm, hcontents m hm, hother]
      · intro m hm hc
        rw [List.mem_cons, not_or] at hm
        rw [ih3 m hm.2 fun k hk => hc k (List.mem_cons_of_mem _ hk), hdir, if_neg hm.1,
          if_neg fun h => hc n List.mem_cons_self h.1]
      · rw [ih4, hpend, List.flatMap_cons, List.append_assoc, hfirst]
        congr 2
        exact List.flatMap_congr fun m hm => by rw [hrest m hm]
      · rw [ih5, hlast, List.flatMap_cons, maxSeq, maxSeq, maxSeq, List.foldl_append, hfirst]
        congr 1
        exact List.flatMap_congr fun m hm => by rw [hrest m hm]
      · rw [ih6, hquar, List.append_assoc, List.filter_cons, hfirst]
        congr 1
        have : (ns.filter fun m => (fateIn serde checkpoint ns st1.dir m).isQuarantined)
            = ns.filter fun m => (fateIn serde checkpoint (n :: ns) st.dir m).isQuarantined :=
          List.filter_congr fun m hm => by rw [hrest m hm]
        rw [this]
        split <;> rfl

/-- The bytes of the listed segments. -/
def segmentBytes (d : Directory) (ns : List String) : Nat :=
  (ns.map fun n => (d.content n).length).sum

/-- Recovery counts the bytes that it leaves. -/
theorem recoverSegments_totalLen (serde : WalSerde) (checkpoint : Nat) : ∀ (ns : List String) (st : Recovery),
    ns.Nodup → (∀ n ∈ ns, n ∈ st.dir ∧ isSegmentName n = true) →
    (recoverSegments serde checkpoint ns st).totalLen
      = st.totalLen + segmentBytes (recoverSegments serde checkpoint ns st).dir ns
  | [], _, _, _ => rfl
  | n :: ns, st, hnd, hns => by
      rw [List.nodup_cons] at hnd
      obtain ⟨hmem, hseg⟩ := hns n List.mem_cons_self
      obtain ⟨bytes, hn⟩ := Directory.mem_iff_getElem?.mp hmem
      have hdir := (recoverSegment_spec serde checkpoint ns.isEmpty hn hseg).1
      have hsame : ∀ m ∈ ns, (recoverSegment serde checkpoint ns.isEmpty st n).dir[m]?
          = st.dir[m]? := by
        intro m hm
        have hne : m ≠ n := fun heq => hnd.1 (heq ▸ hm)
        rw [hdir, if_neg hne, if_neg fun h =>
          ne_corruptPath (hns m (List.mem_cons_of_mem _ hm)).2 n h.1]
      have hns' : ∀ m ∈ ns, m ∈ (recoverSegment serde checkpoint ns.isEmpty st n).dir
          ∧ isSegmentName m = true := fun m hm =>
        ⟨by rw [Directory.mem_iff_getElem?, hsame m hm, ← Directory.mem_iff_getElem?]
            exact (hns m (List.mem_cons_of_mem _ hm)).1,
          (hns m (List.mem_cons_of_mem _ hm)).2⟩
      have ih := recoverSegments_totalLen serde checkpoint ns
        (recoverSegment serde checkpoint ns.isEmpty st n) hnd.2 hns'
      -- what comes after leaves the segment alone
      have hkept := (recoverSegments_spec serde checkpoint ns
        (recoverSegment serde checkpoint ns.isEmpty st n) hnd.2 hns').2.2.1 n hnd.1
        fun m _ => ne_corruptPath hseg m
      rw [recoverSegments, ih, recoverSegment_totalLen, segmentBytes, segmentBytes, List.map_cons,
        List.sum_cons, Directory.content, Directory.content, hkept, Nat.add_assoc]

/-! ## Opening -/

/-- The fate of a segment of a directory. -/
def segmentFate (serde : WalSerde) (checkpoint : Nat) (d : Directory) (n : String) : Fate :=
  fateIn serde checkpoint (listSegments d) d n

/-- The records opening returns, before they are sorted. -/
def recovered (serde : WalSerde) (checkpoint : Nat) (d : Directory) : List WalRecord :=
  (listSegments d).flatMap fun n => above checkpoint (segmentFate serde checkpoint d n).records

/-- The directory after opening, in terms of the directory before. -/
structure Recovered (serde : WalSerde) (checkpoint : Nat) (d d' : Directory) : Prop where
  segment : ∀ n ∈ listSegments d,
    d'[n]? = (segmentFate serde checkpoint d n).after (d.content n)
  corrupt : ∀ n ∈ listSegments d, d'[corruptPath n]? =
    if (segmentFate serde checkpoint d n).isQuarantined = true then some (d.content n)
    else d[corruptPath n]?
  other : ∀ m, m ∉ listSegments d → (∀ n ∈ listSegments d, m ≠ corruptPath n) → d'[m]? = d[m]?

theorem Recovered.checkpoint {c : Nat} {d d' : Directory} (h : Recovered serde c d d') :
    readCheckpoint serde d' = readCheckpoint serde d := by
  have hsame := h.other walCheckpointFile
    (fun hm => ne_walCheckpointFile (mem_listSegments.mp hm).2 rfl)
    (fun n _ => (corruptPath_ne_walCheckpointFile n).symm)
  rw [readCheckpoint, readCheckpoint, hsame]

/-- The listing afterwards is what survived of the listing before. -/
theorem Recovered.listSegments {c : Nat} {d d' : Directory} (h : Recovered serde c d d') :
    listSegments d' = (listSegments d).filter fun n =>
      ((segmentFate serde c d n).after (d.content n)).isSome := by
  refine Directory.list_filter fun n hn => ?_
  rw [Directory.mem_iff_getElem?]
  by_cases hm : n ∈ Ledger.listSegments d
  · rw [h.segment n hm, ← Option.isSome_iff_exists]
    exact ⟨fun hs => ⟨(mem_listSegments.mp hm).1, hs⟩, fun hs => hs.2⟩
  · have hnot : n ∉ d := fun hd => hm (mem_listSegments.mpr ⟨hd, hn⟩)
    rw [h.other n hm fun k _ => ne_corruptPath hn k, ← Directory.mem_iff_getElem?]
    exact ⟨fun hd => absurd hd hnot, fun hd => absurd hd.1 hnot⟩

/-- What opening leaves of the listed segments is what it leaves of the log. -/
theorem Recovered.segmentBytes {c : Nat} {d d' : Directory} (h : Recovered serde c d d') :
    segmentBytes d' (Ledger.listSegments d) = segmentBytes d' (Ledger.listSegments d') := by
  rw [h.listSegments]
  have hgone : ∀ n ∈ Ledger.listSegments d,
      ((segmentFate serde c d n).after (d.content n)).isSome = false →
        (d'.content n).length = 0 := by
    intro n hn hnone
    rw [Directory.content, h.segment n hn,
      Option.isNone_iff_eq_none.mp (Option.isSome_eq_false_iff.mp hnone)]
    rfl
  generalize Ledger.listSegments d = ns at hgone
  unfold Ledger.segmentBytes
  induction ns with
  | nil => rfl
  | cons n ns ih =>
      have hrest := ih fun m hm => hgone m (List.mem_cons_of_mem _ hm)
      rw [List.map_cons, List.sum_cons, hrest, List.filter_cons]
      by_cases hsome : ((segmentFate serde c d n).after (d.content n)).isSome = true
      · rw [if_pos hsome, List.map_cons, List.sum_cons]
      · rw [if_neg hsome, hgone n List.mem_cons_self (Bool.not_eq_true _ ▸ hsome), Nat.zero_add]

/-- Opening leaves no more bytes than there were. -/
theorem Recovered.segmentBytes_le {c : Nat} {d d' : Directory} (h : Recovered serde c d d') :
    Ledger.segmentBytes d' (Ledger.listSegments d')
      ≤ Ledger.segmentBytes d (Ledger.listSegments d) := by
  rw [← h.segmentBytes]
  refine List.sum_le_sum fun n hn => ?_
  rw [Directory.content, h.segment n hn]
  exact Fate.after_length_le _ _

/-- Records at or below a start do not move the maximum. -/
theorem maxSeq_above {c : Nat} : ∀ (rs : List WalRecord) (m : Nat),
    max (maxSeq rs m) c = maxSeq (above c rs) (max m c)
  | [], _ => rfl
  | r :: rs, m => by
      have ih := maxSeq_above (c := c) rs (max m r.walSeq)
      rw [maxSeq, List.foldl_cons, ← maxSeq, ih, above, above, List.filter_cons]
      by_cases h : c < r.walSeq
      · rw [if_pos (decide_eq_true h), maxSeq, maxSeq, List.foldl_cons]
        congr 1
        omega
      · rw [if_neg (by simpa using h)]
        congr 1
        omega

/-- **Opening a log with a readable checkpoint succeeds, and this is what it leaves and returns.** -/
theorem open_recovers {d : Directory} {checkpoint : Nat}
    (hc : readCheckpoint serde d = .ok checkpoint) (segmentMaxBytes diskMaxBytes : Nat) :
    ∃ d' w report,
      WalWriter.open serde segmentMaxBytes diskMaxBytes d = (d', .ok (w, report))
      ∧ Recovered serde checkpoint d d'
      ∧ report.pending = sortBySeq (recovered serde checkpoint d)
      ∧ report.quarantinedSegments = ((listSegments d).filter fun n =>
          (segmentFate serde checkpoint d n).isQuarantined).map corruptPath
      ∧ w.nextWalSeq = maxSeq (recovered serde checkpoint d) checkpoint + 1
      ∧ w.current = segmentPath (max (((listSegments d).getLast?.map segmentIndex).getD 0) 1)
      ∧ w.currentLen = (d'.content w.current).length
      ∧ w.segmentMaxBytes = segmentMaxBytes ∧ w.diskMaxBytes = diskMaxBytes
      ∧ w.totalLen = segmentBytes d' (listSegments d') := by
  have hspec := recoverSegments_spec serde checkpoint (listSegments d)
    ⟨d, ⟨[], [], 0, [], 0⟩, 0⟩ (listSegments_nodup d) fun n hn => mem_listSegments.mp hn
  obtain ⟨h1, h2, h3, h4, h5, h6⟩ := hspec
  rw [WalWriter.open, hc]
  have htotal := recoverSegments_totalLen serde checkpoint
    (listSegments d) ⟨d, ⟨[], [], 0, [], 0⟩, 0⟩ (listSegments_nodup d)
    fun n hn => mem_listSegments.mp hn
  rw [Nat.zero_add] at htotal
  have hrecovered : Recovered serde checkpoint d _ := ⟨h1, h2, h3⟩
  refine ⟨_, _, _, rfl, hrecovered, ?_, h6, ?_, rfl, rfl, rfl, rfl,
    htotal.trans hrecovered.segmentBytes⟩
  · dsimp only
    rw [h4]
    rfl
  · dsimp only
    rw [h5, maxSeq_above, Nat.zero_max, recovered]
    congr 2
    rw [above, List.filter_flatMap]
    rfl

end Agenomic.Ledger
