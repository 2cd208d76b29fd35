import Agenomic.Ledger.WalRecovery

/-!
# Is recovery restartable?

If the process stops right after opening the log, the next opening finds the
directory the first one left. What survives the first opening is read by the
second as it was read before (`above_records_survivor`): a segment that was cut
back is whole, a segment that was kept is untouched. What was removed held no
record above the checkpoint. What was set aside is not read again, so
**`reopens_iff`**: a second opening returns the same records and the same next
position exactly when no damaged segment before the last one still held a record
above the checkpoint in its good prefix.
-/

namespace Agenomic.Ledger

open Lib

variable {serde : WalSerde}

/-- Opening again right after opening returns the same records and the same next position. -/
def Reopens (serde : WalSerde) (segmentMaxBytes diskMaxBytes : Nat) (d : Directory) : Prop :=
  ∀ d' w report, WalWriter.open serde segmentMaxBytes diskMaxBytes d = (d', .ok (w, report)) →
    ∃ d'' w' report', WalWriter.open serde segmentMaxBytes diskMaxBytes d' = (d'', .ok (w', report'))
      ∧ report'.pending = report.pending ∧ w'.nextWalSeq = w.nextWalSeq

/-- No torn segment before the last one holds a record above the checkpoint. -/
def SetAsideApplied (serde : WalSerde) (checkpoint : Nat) (d : Directory) : Prop :=
  ∀ n ∈ listSegments d, (listSegments d).getLast? ≠ some n →
    ∀ s, readSegment serde n (d.content n) = .ok s → s.torn = true →
      ∀ r ∈ s.records, r.walSeq ≤ checkpoint

theorem above_eq_nil_iff {c : Nat} {rs : List WalRecord} :
    above c rs = [] ↔ ∀ r ∈ rs, r.walSeq ≤ c := by
  rw [above, List.filter_eq_nil_iff]
  refine forall_congr' fun r => forall_congr' fun _ => ?_
  rw [decide_eq_true_eq, Nat.not_lt]

/-- Nothing is read from a segment too short for a header. -/
theorem fate_records_nil {c : Nat} {isLast : Bool} {n : String} :
    (fate serde c isLast n []).records = [] := by
  cases isLast <;> rfl

/-- **What survives an opening is read by the next one as it was read before.** -/
theorem above_records_survivor {c : Nat} {d d' : Directory} (h : Recovered serde c d d')
    {n : String} (hn : n ∈ listSegments d)
    (hs : ((segmentFate serde c d n).after (d.content n)).isSome = true) :
    above c (segmentFate serde c d' n).records = above c (segmentFate serde c d n).records := by
  have hseg := h.segment n hn
  rw [segmentFate, fateIn] at hs hseg
  rw [segmentFate, segmentFate, fateIn, fateIn]
  rcases fate_cases serde c (decide ((listSegments d).getLast? = some n)) n
    (d.content n) with ⟨e, _, hf⟩ | ⟨s, hread, _, _, hf⟩ | ⟨s, _, _, _, hf⟩ | ⟨s, _, _, _, hf⟩
    | ⟨s, hread, ht, _, hf⟩
  all_goals rw [hf] at hs hseg
  all_goals rw [hf]
  · cases hs
  · have hcontent : d'.content n = (d.content n).take s.goodEnd := Directory.content_eq hseg
    rw [hcontent]
    rcases read_take_goodEnd hread with rfl | hwhole
    · rw [List.take_zero, fate_records_nil]
      rfl
    · rw [fate_records_of_read (hwhole.read n)]
      rfl
  · cases hs
  · cases hs
  · have hcontent : d'.content n = d.content n := Directory.content_eq hseg
    rw [hcontent, fate_records_of_read hread]
    rfl

theorem recovered_after {c : Nat} {d d' : Directory} (h : Recovered serde c d d') :
    recovered serde c d' = ((listSegments d).filter fun n =>
      ((segmentFate serde c d n).after (d.content n)).isSome).flatMap fun n =>
        above c (segmentFate serde c d n).records := by
  rw [recovered, h.listSegments]
  refine List.flatMap_congr fun n hn => ?_
  rw [List.mem_filter] at hn
  exact above_records_survivor h hn.1 hn.2

/-- Leaving out what contributes nothing changes nothing. -/
theorem flatMap_filter_eq {α β : Type} {q : α → Bool} {g : α → List β} : ∀ {l : List α},
    (∀ x ∈ l, q x = false → g x = []) → (l.filter q).flatMap g = l.flatMap g
  | [], _ => rfl
  | x :: l, h => by
      have ih := flatMap_filter_eq (q := q) (g := g) fun y hy => h y (List.mem_cons_of_mem _ hy)
      rw [List.filter_cons, List.flatMap_cons]
      split
      · rw [List.flatMap_cons, ih]
      · rename_i hx
        rw [ih, h x List.mem_cons_self (by simpa using hx), List.nil_append]

theorem flatMap_filter_length_le {α β : Type} (q : α → Bool) (g : α → List β) : ∀ l : List α,
    ((l.filter q).flatMap g).length ≤ (l.flatMap g).length
  | [] => Nat.le_refl _
  | x :: l => by
      have ih := flatMap_filter_length_le q g l
      rw [List.filter_cons, List.flatMap_cons, List.length_append]
      split
      · rw [List.flatMap_cons, List.length_append]; omega
      · omega

/-- If leaving some out does not even change the length, those contributed nothing. -/
theorem eq_nil_of_flatMap_filter_length {α β : Type} {q : α → Bool} {g : α → List β} :
    ∀ {l : List α}, ((l.filter q).flatMap g).length = (l.flatMap g).length →
      ∀ x ∈ l, q x = false → g x = []
  | [], _, x, hx, _ => by cases hx
  | y :: l, h, x, hx, hq => by
      have hle := flatMap_filter_length_le q g l
      rw [List.filter_cons, List.flatMap_cons, List.length_append] at h
      rcases List.mem_cons.mp hx with rfl | hx
      · rw [if_neg (by rw [hq]; exact Bool.false_ne_true)] at h
        exact List.length_eq_zero_iff.mp (by omega)
      · refine eq_nil_of_flatMap_filter_length ?_ x hx hq
        split at h
        · rw [List.flatMap_cons, List.length_append] at h; omega
        · omega

/-- What does not survive contributes nothing exactly when nothing pending was set aside. -/
theorem setAsideApplied_iff {c : Nat} {d : Directory} :
    SetAsideApplied serde c d ↔ ∀ n ∈ listSegments d,
      ((segmentFate serde c d n).after (d.content n)).isSome = false →
        above c (segmentFate serde c d n).records = [] := by
  refine forall_congr' fun n => forall_congr' fun _ => ?_
  rw [segmentFate, fateIn]
  rcases fate_cases serde c (decide ((listSegments d).getLast? = some n)) n
    (d.content n) with ⟨e, hread, hf⟩ | ⟨s, hread, _, hlast, hf⟩ | ⟨s, hread, ht, hlast, hf⟩
    | ⟨s, hread, ht, hall, hf⟩ | ⟨s, hread, ht, _, hf⟩
  all_goals rw [hread, hf]
  · exact ⟨fun _ _ => rfl, fun _ _ s hs => by cases hs⟩
  · exact ⟨fun _ h => (by cases h), fun _ h => absurd (of_decide_eq_true hlast) h⟩
  · have hnot := of_decide_eq_false hlast
    rw [Fate.records, above_eq_nil_iff]
    exact ⟨fun h _ => h hnot s rfl ht, fun h _ s' hs' _ => by cases hs'; exact h rfl⟩
  · rw [Fate.records, above_eq_nil_iff]
    exact ⟨fun _ _ => hall, fun _ _ s' hs' ht' => by cases hs'; rw [ht] at ht'; cases ht'⟩
  · exact ⟨fun _ h => (by cases h), fun _ _ s' hs' ht' => by cases hs'; rw [ht] at ht'; cases ht'⟩

theorem setAsideApplied_of_reopens {segmentMaxBytes diskMaxBytes : Nat} {d : Directory}
    (h : Reopens serde segmentMaxBytes diskMaxBytes d) {c : Nat}
    (hc : readCheckpoint serde d = .ok c) : SetAsideApplied serde c d := by
  obtain ⟨d', w, report, hopen, hrec, hpend, -⟩ :=
    open_recovers hc segmentMaxBytes diskMaxBytes
  obtain ⟨d'', w', report', hopen', hsame, -⟩ := h d' w report hopen
  obtain ⟨_, _, _, hopen'', -, hpend', -⟩ :=
    open_recovers (hrec.checkpoint.trans hc) segmentMaxBytes diskMaxBytes
  rw [hopen'] at hopen''
  cases hopen''
  rw [setAsideApplied_iff]
  refine eq_nil_of_flatMap_filter_length ?_
  rw [← recovered_after hrec]
  have hlen := congrArg List.length hsame
  rw [hpend, hpend', sortBySeq, sortBySeq, List.length_mergeSort, List.length_mergeSort] at hlen
  exact hlen

theorem reopens_of_setAsideApplied {segmentMaxBytes diskMaxBytes : Nat} {d : Directory}
    (h : ∀ c, readCheckpoint serde d = .ok c → SetAsideApplied serde c d) :
    Reopens serde segmentMaxBytes diskMaxBytes d := by
  intro d' w report hopen
  cases hc : readCheckpoint serde d with
  | error e => rw [WalWriter.open, hc] at hopen; cases hopen
  | ok c =>
      obtain ⟨_, _, _, hopen1, hrec, hpend, -, hnext, -⟩ :=
        open_recovers hc segmentMaxBytes diskMaxBytes
      rw [hopen] at hopen1
      cases hopen1
      obtain ⟨d'', w', report', hopen', -, hpend', -, hnext', -⟩ :=
        open_recovers (hrec.checkpoint.trans hc) segmentMaxBytes diskMaxBytes
      have hsame : recovered serde c d' = recovered serde c d := by
        rw [recovered_after hrec]
        exact flatMap_filter_eq (setAsideApplied_iff.mp (h c hc))
      refine ⟨d'', w', report', hopen', ?_, ?_⟩
      · rw [hpend', hpend, hsame]
      · rw [hnext', hnext, hsame]

/-- **Recovery is restartable exactly when nothing pending is set aside.** -/
theorem reopens_iff (serde : WalSerde) (segmentMaxBytes diskMaxBytes : Nat) (d : Directory) :
    Reopens serde segmentMaxBytes diskMaxBytes d ↔
      ∀ c, readCheckpoint serde d = .ok c → SetAsideApplied serde c d :=
  ⟨fun h _ => setAsideApplied_of_reopens h, reopens_of_setAsideApplied⟩

/-- A first segment with a record and a stray byte behind it, a whole second segment. -/
def damagedFirst : Directory :=
  ((∅ : Directory).insert (segmentPath 1)
    (segmentHeader ++ (serdeJson.frames.frame ⟨1, draft 1⟩ ++ [0]))).insert (segmentPath 2)
    (segmentHeader ++ serdeJson.frames.frame ⟨2, draft 2⟩)

theorem listSegments_damagedFirst :
    listSegments damagedFirst = [segmentPath 1, segmentPath 2] := by
  refine Directory.list_eq ?_ fun n => ?_
  · exact List.pairwise_pair.mpr (segmentPath_lt_segmentPath (by decide) (by decide))
  · rw [damagedFirst, Std.ExtTreeMap.mem_insert, Std.ExtTreeMap.mem_insert]
    simp only [compare_eq_iff_eq, Std.ExtTreeMap.not_mem_empty, or_false, List.mem_cons,
      List.not_mem_nil]
    constructor
    · rintro (rfl | rfl)
      · exact ⟨Or.inr rfl, isSegmentName_segmentPath 1⟩
      · exact ⟨Or.inl rfl, isSegmentName_segmentPath 2⟩
    · rintro ⟨rfl | rfl, -⟩
      · exact Or.inr rfl
      · exact Or.inl rfl

/-- The record in front of the stray byte is returned once and then lost. -/
theorem not_reopens_damagedFirst : ¬Reopens serdeJson 64 16777216 damagedFirst := by
  intro h
  have hne : segmentPath 1 ≠ segmentPath 2 :=
    ne_of_lt (segmentPath_lt_segmentPath (by decide) (by decide))
  have hget : damagedFirst[segmentPath 1]?
      = some (segmentHeader ++ (serdeJson.frames.frame ⟨1, draft 1⟩ ++ [0])) := by
    rw [damagedFirst, Directory.getElem?_insert_of_ne _ hne.symm, Directory.getElem?_insert_self]
  have hnone : readCheckpoint serdeJson damagedFirst = .ok 0 := by
    have hmiss : damagedFirst[walCheckpointFile]? = none := by
      rw [damagedFirst, Directory.getElem?_insert_of_ne _
        (ne_walCheckpointFile (isSegmentName_segmentPath 2)), Directory.getElem?_insert_of_ne _
        (ne_walCheckpointFile (isSegmentName_segmentPath 1)), Std.ExtTreeMap.getElem?_empty]
    rw [readCheckpoint, hmiss]
  have hread : readSegment serdeJson (segmentPath 1) (damagedFirst.content (segmentPath 1))
      = .ok ⟨[⟨1, draft 1⟩], headerLen + (serdeJson.frames.frame ⟨1, draft 1⟩).length, true⟩ := by
    have hfits : serdeJson.frames.Fits ⟨1, draft 1⟩ := fits_draft_one (by decide)
    have hstray : serdeJson.frames.scan [0] = some ⟨[], 0, true⟩ := rfl
    rw [Directory.content_eq hget, readSegment_of_header goodHeader_segmentHeader,
      serdeJson.frames.scan_append _ (serdeJson.frames.clean_frame hfits), hstray, Option.map_some,
      behindHeader, FrameFormat.Scan.after, List.append_nil, Nat.add_zero]
  have happ := setAsideApplied_of_reopens h hnone (segmentPath 1)
    (by rw [listSegments_damagedFirst]; exact List.mem_cons_self)
    (by rw [listSegments_damagedFirst]; exact fun hl => hne (Option.some.inj hl).symm)
    _ hread rfl ⟨1, draft 1⟩ List.mem_cons_self
  exact absurd happ (by decide)

end Agenomic.Ledger
