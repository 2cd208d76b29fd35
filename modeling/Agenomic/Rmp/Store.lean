import Agenomic.Core
import Agenomic.Lib.JsonObject
import Agenomic.Lib.Run

/-!
# The record of a session

Findings and proposals are appended to files with one record on each line. The lines are
written one by one, and where a write fails, what it left stays there: the next append goes on
behind it. Reading a file fails on the first line that is no record.

`Clean` is the condition on an append that keeps the files readable: it leaves nothing, or it
finds a file of whole lines and leaves no part of a record. **`intact_run`**: along a run of
such appends everything that was acknowledged can be loaded, in order.
-/

namespace Agenomic.Rmp.Store

open Lib

/-- How an append goes. -/
structure Faults where
  /-- The directory is there, and the file can be opened. -/
  opens : Bool := true
  /-- How the lines are written, one after the other: as a whole, or up to a byte. Behind the
  last of these, as a whole. -/
  writes : List (Option Nat) := []
  syncs : Bool := true
  deriving DecidableEq

/-! ## Files of records -/

section Records

variable {α : Type} (F : LineFormat α)

/-- Write lines behind a log, up to the first that fails; whether all were written. -/
def writeLines : List α → List (Option Nat) → Bytes → Bytes × Bool
  | [], _, log => (log, true)
  | a :: as, writes, log =>
      match writes.headD none with
      | none => writeLines as writes.tail (log ++ F.line a)
      | some k => (log ++ (F.line a).take k, false)

/-- Append records to the log in a file. -/
def appendJsonl (rel : String) (values : List α) (faults : Faults) (log : Bytes) :
    Bytes × CliResult Unit :=
  if values.isEmpty then (log, .ok ())
  else if faults.opens then
    match writeLines F values faults.writes log with
    | (log, false) => (log, .error (.io rel "write failed"))
    | (log, true) =>
        if faults.syncs then (log, .ok ()) else (log, .error (.io rel "sync failed"))
  else (log, .error (.io rel "open failed"))

/-- Read the records of a log; a file that is not there has none. -/
def readJsonl (rel : String) (log : Bytes) : CliResult (List α) :=
  match F.read log with
  | .ok records => .ok records
  | .error .notUtf8 => .error (.io rel "stream did not contain valid UTF-8")
  | .error (.badLine n) => .error (.schema s!"{rel} line {n}")

/-- A file, the records of the calls that were told they succeeded, and those of all calls. -/
structure Journal (α : Type) where
  log : Bytes := []
  acked : List α := []
  offered : List α := []

def Journal.append (rel : String) (j : Journal α) (values : List α) (faults : Faults) :
    Journal α where
  log := (appendJsonl F rel values faults j.log).1
  acked :=
    match (appendJsonl F rel values faults j.log).2 with
    | .ok () => j.acked ++ values
    | .error _ => j.acked
  offered := j.offered ++ values

/-! ## Clean appends -/

/-- The append writes no byte. -/
def LeavesNothing (values : List α) (faults : Faults) : Prop :=
  values = [] ∨ faults.opens = false ∨ faults.writes.headD none = some 0

/-- The write that fails, if one does, leaves nothing of its line, or the whole record. -/
def StopsClean : List α → List (Option Nat) → Prop
  | [], _ => True
  | a :: as, writes =>
      match writes.headD none with
      | none => StopsClean as writes.tail
      | some k => F.StopsClean a k

/-- The log is empty or ends with a line feed. -/
def Whole (log : Bytes) : Prop := log = [] ∨ log.getLast? = some 10

def CleanAppend (log : Bytes) (values : List α) (faults : Faults) : Prop :=
  LeavesNothing values faults ∨ (Whole log ∧ StopsClean F values faults.writes)

/-- The log holds these records, the last perhaps without its line feed. -/
def Holds (log : Bytes) (records : List α) : Prop :=
  log = F.encode records
    ∨ ∃ init a, records = init ++ [a] ∧ log = F.encode init ++ utf8Encode (F.write a)

variable {F}

theorem Holds.read {log : Bytes} {records : List α} (h : Holds F log records) (rel : String) :
    readJsonl F rel log = .ok records := by
  unfold readJsonl
  rcases h with rfl | ⟨init, a, rfl, rfl⟩
  · rw [LineFormat.read_encode]
  · rw [LineFormat.read_unended]

/-- A record without its line feed does not end with one. -/
theorem Holds.encode {log : Bytes} {records : List α} (h : Holds F log records) (hw : Whole log) :
    log = F.encode records := by
  rcases h with h | ⟨init, a, -, hlog⟩
  · exact h
  · exfalso
    have hne : utf8Encode (F.write a) ≠ [] := by
      intro hnil
      have hlen := length_le_utf8Encode (F.write a)
      rw [hnil, List.length_nil] at hlen
      exact LineFormat.write_ne_nil a (List.length_eq_zero_iff.mp (Nat.le_zero.mp hlen))
    rcases hw with hnil | hlast
    · rw [hnil] at hlog
      exact hne (List.append_eq_nil_iff.mp hlog.symm).2
    · rw [hlog, List.getLast?_append_of_ne_nil _ hne] at hlast
      obtain ⟨c, hc, hbyte⟩ := List.mem_flatMap.mp (List.mem_of_getLast? hlast)
      have hfeed : c.toNat = 10 := mem_utf8EncodeChar_ascii (by decide) hbyte
      exact (F.noBreak a c hc).1 (Char.toNat_inj.mp hfeed)

/-- What a clean stop leaves of a line. -/
theorem holds_take {a : α} {k : Nat} (before : List α) (h : F.StopsClean a k) :
    ∃ written, written <+: [a] ∧ Holds F (F.encode before ++ (F.line a).take k) (before ++ written) := by
  rcases h with rfl | hk
  · refine ⟨[], List.nil_prefix, .inl ?_⟩
    rw [List.take_zero, List.append_nil, List.append_nil]
  · refine ⟨[a], List.prefix_rfl, ?_⟩
    by_cases hfull : (F.line a).length ≤ k
    · left
      rw [List.take_of_length_le hfull, LineFormat.encode_snoc]
    · -- all but the line feed was written
      right
      refine ⟨before, a, rfl, ?_⟩
      have hline : F.line a = utf8Encode (F.write a) ++ utf8Encode ['\n'] := LineFormat.line_eq a
      have hlen : (F.line a).length = (utf8Encode (F.write a)).length + 1 := by
        rw [hline, List.length_append]
        rfl
      rw [hline, show k = (utf8Encode (F.write a)).length by omega, List.take_left]

/-- What is written onto whole lines when the writes stop clean. -/
theorem holds_writeLines : ∀ {values : List α} {writes : List (Option Nat)} (before : List α),
    StopsClean F values writes → ∃ written, written <+: values
      ∧ Holds F (writeLines F values writes (F.encode before)).1 (before ++ written)
      ∧ ((writeLines F values writes (F.encode before)).2 = true → written = values)
  | [], writes, before, _ => by
      refine ⟨[], List.prefix_rfl, .inl ?_, fun _ => rfl⟩
      rw [List.append_nil]
      rfl
  | a :: as, writes, before, hclean => by
      unfold StopsClean at hclean
      unfold writeLines
      cases hw : writes.headD none with
      | none =>
          rw [hw] at hclean
          obtain ⟨written, hprefix, hholds, hall⟩ := holds_writeLines (before ++ [a]) hclean
          refine ⟨a :: written, List.cons_prefix_cons.mpr ⟨rfl, hprefix⟩, ?_, ?_⟩
          · rw [List.append_cons before a written]
            dsimp only
            rw [← LineFormat.encode_snoc]
            exact hholds
          · dsimp only
            rw [← LineFormat.encode_snoc]
            intro h
            rw [hall h]
      | some k =>
          rw [hw] at hclean
          obtain ⟨written, hprefix, hholds⟩ := holds_take before hclean
          refine ⟨written, hprefix.trans ⟨as, rfl⟩, hholds, ?_⟩
          intro h
          cases h

/-! ## The invariant -/

/-- The log holds what was acknowledged, and nothing that was not offered. -/
def Journal.Sound (F : LineFormat α) (j : Journal α) : Prop :=
  ∃ records, Holds F j.log records ∧ j.acked.Sublist records ∧ records.Sublist j.offered

theorem Journal.sound_empty : Journal.Sound F {} :=
  ⟨[], .inl rfl, List.Sublist.refl _, List.Sublist.refl _⟩

/-- An append that writes nothing changes nothing, and succeeds only when there was nothing to
write. -/
theorem appendJsonl_nothing {rel : String} {values : List α} {faults : Faults}
    (h : LeavesNothing values faults) (log : Bytes) :
    (appendJsonl F rel values faults log).1 = log
      ∧ ((appendJsonl F rel values faults log).2 = .ok () → values = []) := by
  unfold appendJsonl
  cases values with
  | nil => exact ⟨rfl, fun _ => rfl⟩
  | cons a as =>
      rw [if_neg (by exact Bool.false_ne_true)]
      cases hopens : faults.opens with
      | false => exact ⟨rfl, fun hok => by cases hok⟩
      | true =>
          have hfirst : faults.writes.headD none = some 0 := by
            rcases h with h | h | h
            · cases h
            · rw [hopens] at h
              cases h
            · exact h
          rw [if_pos rfl, writeLines, hfirst]
          dsimp only
          rw [List.take_zero, List.append_nil]
          exact ⟨rfl, fun hok => by cases hok⟩

/-- What an append leaves that stops clean, on a log of whole lines. -/
theorem appendJsonl_clean {rel : String} {values : List α} {faults : Faults}
    (h : StopsClean F values faults.writes) (before : List α) : ∃ written, written <+: values
      ∧ Holds F (appendJsonl F rel values faults (F.encode before)).1 (before ++ written)
      ∧ ((appendJsonl F rel values faults (F.encode before)).2 = .ok () → written = values) := by
  obtain ⟨written, hprefix, hholds, hall⟩ := holds_writeLines before h
  have hnone : Holds F (F.encode before) (before ++ []) := .inl (by rw [List.append_nil])
  unfold appendJsonl
  cases values with
  | nil => exact ⟨[], List.nil_prefix, hnone, fun _ => rfl⟩
  | cons a as =>
      rw [if_neg (by exact Bool.false_ne_true)]
      cases faults.opens with
      | false => exact ⟨[], List.nil_prefix, hnone, fun hok => by cases hok⟩
      | true =>
          rw [if_pos rfl]
          cases hwrite : writeLines F (a :: as) faults.writes (F.encode before) with
          | mk log done =>
              rw [hwrite] at hholds hall
              cases done with
              | false => exact ⟨written, hprefix, hholds, fun hok => by cases hok⟩
              | true =>
                  refine ⟨written, hprefix, ?_, fun _ => hall rfl⟩
                  dsimp only
                  split <;> exact hholds

/-- **A clean append keeps the log sound.** -/
theorem Journal.Sound.append {j : Journal α} (h : j.Sound F) {rel : String} {values : List α}
    {faults : Faults} (hclean : CleanAppend F j.log values faults) :
    (j.append F rel values faults).Sound F := by
  obtain ⟨records, hholds, hacked, hoffered⟩ := h
  unfold Journal.append
  rcases hclean with hnothing | ⟨hwhole, hstop⟩
  · obtain ⟨hlog, hok⟩ := @appendJsonl_nothing _ F rel _ _ hnothing j.log
    have hkept : Holds F (appendJsonl F rel values faults j.log).1 records := by
      rw [hlog]
      exact hholds
    refine ⟨records, hkept, ?_, hoffered.trans (List.sublist_append_left _ _)⟩
    dsimp only
    cases hres : (appendJsonl F rel values faults j.log).2 with
    | error e => exact hacked
    | ok u =>
        rw [hok hres, List.append_nil]
        exact hacked
  · obtain ⟨written, hprefix, hafter, hall⟩ := @appendJsonl_clean _ F rel _ _ hstop records
    rw [← hholds.encode hwhole] at hafter hall
    refine ⟨records ++ written, hafter, ?_, hoffered.append hprefix.sublist⟩
    dsimp only
    cases hres : (appendJsonl F rel values faults j.log).2 with
    | error e => exact hacked.trans (List.sublist_append_left _ _)
    | ok u =>
        rw [hall hres]
        exact hacked.append (List.Sublist.refl values)

end Records

/-! ## Proposals -/

section Latest

variable {π : Type} (proposalId : π → String)

/-- Take up a record: ids in the order in which they were seen first, and the last record of
each. -/
def supersede (state : List String × (String → Option π)) (record : π) :
    List String × (String → Option π) :=
  let id := proposalId record
  (if (state.2 id).isNone then state.1 ++ [id] else state.1,
    Function.update state.2 id (some record))

/-- The last record of each id. -/
def latest (records : List π) : List π :=
  let state := records.foldl (supersede proposalId) ([], fun _ => none)
  state.1.filterMap state.2

/-- The list has the last record of each id, in the order of the first ones. -/
structure LastPerId (records loaded : List π) : Prop where
  last : ∀ r, r ∈ loaded ↔ ∃ before after, records = before ++ r :: after
    ∧ ∀ r' ∈ after, proposalId r' ≠ proposalId r
  order : loaded.Pairwise fun a b => (records.map proposalId).idxOf (proposalId a)
    < (records.map proposalId).idxOf (proposalId b)

/-- What the loop knows of the records so far. -/
structure Seen (records : List π) (state : List String × (String → Option π)) : Prop where
  ids : ∀ id, id ∈ state.1 ↔ id ∈ records.map proposalId
  last : ∀ id, state.2 id = records.reverse.find? fun r => proposalId r = id
  order : state.1.Pairwise fun a b =>
    (records.map proposalId).idxOf a < (records.map proposalId).idxOf b

variable {proposalId}

theorem Seen.isNone {records : List π} {state : List String × (String → Option π)}
    (h : Seen proposalId records state) (id : String) : (state.2 id).isNone ↔ id ∉ state.1 := by
  rw [Option.isNone_iff_eq_none, h.last, List.find?_eq_none, h.ids, List.mem_map]
  simp only [List.mem_reverse, decide_eq_true_eq, not_exists, not_and]

theorem Seen.supersede {records : List π} {state : List String × (String → Option π)}
    (h : Seen proposalId records state) (record : π) :
    Seen proposalId (records ++ [record]) (supersede proposalId state record) := by
  have hlast : ∀ id, Function.update state.2 (proposalId record) (some record) id
      = (records ++ [record]).reverse.find? fun r => proposalId r = id := by
    intro id
    rw [List.reverse_append, List.reverse_singleton, List.singleton_append, List.find?_cons]
    by_cases hid : proposalId record = id
    · rw [← hid, Function.update_self, decide_eq_true rfl]
    · rw [Function.update_of_ne (Ne.symm hid), decide_eq_false hid, h.last]
  have hold : ∀ {id}, id ∈ state.1 → ((records ++ [record]).map proposalId).idxOf id
      = (records.map proposalId).idxOf id := by
    intro id hid
    rw [List.map_append, List.idxOf_append_of_mem ((h.ids id).mp hid)]
  have horder : state.1.Pairwise fun a b => ((records ++ [record]).map proposalId).idxOf a
      < ((records ++ [record]).map proposalId).idxOf b := by
    refine h.order.imp_of_mem fun ha hb hlt => ?_
    rw [hold ha, hold hb]
    exact hlt
  unfold Store.supersede
  dsimp only
  by_cases hnew : (state.2 (proposalId record)).isNone = true
  · rw [if_pos hnew]
    have hnot := (h.isNone _).mp hnew
    refine ⟨?_, hlast, ?_⟩
    · intro id
      rw [List.mem_append, h.ids, List.map_append, List.mem_append]
      rfl
    · refine List.pairwise_append.mpr ⟨horder, List.pairwise_singleton _ _, ?_⟩
      intro id hid id' hid'
      rw [List.mem_singleton.mp hid', hold hid, List.map_append,
        List.idxOf_append_of_notMem (mt (h.ids _).mpr hnot)]
      exact (List.idxOf_lt_length_of_mem ((h.ids id).mp hid)).trans_le (Nat.le_add_right _ _)
  · rw [if_neg hnew]
    have hmem : proposalId record ∈ state.1 := by
      by_contra hnot
      exact hnew ((h.isNone _).mpr hnot)
    refine ⟨?_, hlast, horder⟩
    intro id
    rw [h.ids, List.map_append, List.mem_append, List.map_singleton, List.mem_singleton]
    constructor
    · exact Or.inl
    · rintro (hid | rfl)
      · exact hid
      · exact (h.ids _).mp hmem

theorem seen_foldl (records : List π) :
    Seen proposalId records (records.foldl (supersede proposalId) ([], fun _ => none)) := by
  induction records using List.reverseRecOn with
  | nil => exact ⟨fun _ => Iff.rfl, fun _ => rfl, List.Pairwise.nil⟩
  | append_singleton records record ih =>
      rw [List.foldl_append]
      exact ih.supersede record

/-- **The last record of each id is loaded, in the order of the first ones.** -/
theorem lastPerId_latest (records : List π) :
    LastPerId proposalId records (latest proposalId records) := by
  have h : Seen proposalId records _ := seen_foldl records
  unfold latest
  dsimp only
  have hid : ∀ {id r}, (records.foldl (supersede proposalId) ([], fun _ => none)).2 id = some r →
      proposalId r = id := by
    intro id r hr
    rw [h.last] at hr
    have hfound := List.find?_some hr
    exact of_decide_eq_true hfound
  refine ⟨?_, ?_⟩
  · intro r
    rw [List.mem_filterMap]
    constructor
    · intro ⟨id, _, hr⟩
      have hsame := hid hr
      rw [h.last, List.find?_eq_some_iff_append] at hr
      obtain ⟨-, after, before, hsplit, hother⟩ := hr
      refine ⟨before.reverse, after.reverse, ?_, ?_⟩
      · rw [← List.reverse_reverse records, hsplit]
        simp
      · intro r' hr' heq
        have hne := hother r' (List.mem_reverse.mp hr')
        rw [heq, hsame] at hne
        simp at hne
    · intro ⟨before, after, hsplit, hother⟩
      refine ⟨proposalId r, (h.ids _).mpr ?_, ?_⟩
      · rw [hsplit]
        exact List.mem_map_of_mem (List.mem_append_right _ List.mem_cons_self)
      · rw [h.last, List.find?_eq_some_iff_append]
        refine ⟨decide_eq_true rfl, after.reverse, before.reverse, ?_, ?_⟩
        · rw [hsplit]
          simp
        · intro r' hr'
          rw [Bool.not_eq_true', decide_eq_false_iff_not]
          exact hother r' (List.mem_reverse.mp hr')
  · refine h.order.filterMap _ ?_
    intro a b hab ra hra rb hrb
    rw [hid hra, hid hrb]
    exact hab

end Latest

/-! ## Sessions -/

/-- How findings and proposals are written, and the id of a proposal. -/
structure Formats (φ π : Type) where
  finding : LineFormat φ
  proposal : LineFormat π
  proposalId : π → String

/-- The files of a session. -/
structure Session (φ π : Type) where
  findings : Journal φ := {}
  proposals : Journal π := {}

inductive Call (φ π : Type) where
  | appendFindings (values : List φ) (faults : Faults)
  | appendProposals (values : List π) (faults : Faults)

variable {φ π : Type} (F : Formats φ π)

namespace Session

def step (s : Session φ π) : Call φ π → Session φ π
  | .appendFindings values faults =>
      { s with findings := s.findings.append F.finding "findings.jsonl" values faults }
  | .appendProposals values faults =>
      { s with proposals := s.proposals.append F.proposal "proposals.jsonl" values faults }

def loadFindings (s : Session φ π) : CliResult (List φ) :=
  readJsonl F.finding "findings.jsonl" s.findings.log

def loadProposals (s : Session φ π) : CliResult (List π) := do
  let records ← readJsonl F.proposal "proposals.jsonl" s.proposals.log
  .ok (latest F.proposalId records)

/-- Everything that was acknowledged can be loaded, in order; of proposals, the last record of
each id. Nothing is loaded that was not offered. -/
structure Intact (s : Session φ π) : Prop where
  findings : ∃ records, s.loadFindings F = .ok records
    ∧ s.findings.acked.Sublist records ∧ records.Sublist s.findings.offered
  proposals : ∃ loaded, s.loadProposals F = .ok loaded ∧ ∃ records,
    LastPerId F.proposalId records loaded
    ∧ s.proposals.acked.Sublist records ∧ records.Sublist s.proposals.offered

/-- The call leaves nothing in its file, or finds it with whole lines and leaves no part of a
record. -/
def Clean (s : Session φ π) : Call φ π → Prop
  | .appendFindings values faults => CleanAppend F.finding s.findings.log values faults
  | .appendProposals values faults => CleanAppend F.proposal s.proposals.log values faults

structure Sound (s : Session φ π) : Prop where
  findings : s.findings.Sound F.finding
  proposals : s.proposals.Sound F.proposal

variable {F}

theorem Sound.step {s : Session φ π} (h : s.Sound F) {call : Call φ π} (hclean : s.Clean F call) :
    (s.step F call).Sound F := by
  cases call with
  | appendFindings values faults => exact ⟨h.findings.append hclean, h.proposals⟩
  | appendProposals values faults => exact ⟨h.findings, h.proposals.append hclean⟩

theorem Sound.intact {s : Session φ π} (h : s.Sound F) : s.Intact F where
  findings := by
    obtain ⟨records, hholds, hacked, hoffered⟩ := h.findings
    exact ⟨records, hholds.read "findings.jsonl", hacked, hoffered⟩
  proposals := by
    obtain ⟨records, hholds, hacked, hoffered⟩ := h.proposals
    refine ⟨latest F.proposalId records, ?_, records, lastPerId_latest records, hacked, hoffered⟩
    unfold loadProposals
    rw [hholds.read]
    rfl

/-- **Along a run of clean appends** the record of a session is never damaged. -/
theorem intact_run (F : Formats φ π) (calls : List (Call φ π))
    (h : Along (step F) (Clean F) {} calls) :
    ∀ reached, reached <+: calls → (run (step F) {} reached).Intact F := by
  intro reached hprefix
  obtain ⟨later, rfl⟩ := hprefix
  have hsound : (run (step F) {} reached).Sound F :=
    run_invariant (Sound F) (fun s call hs hc => hs.step hc)
      ⟨Journal.sound_empty, Journal.sound_empty⟩ h.of_append
  exact hsound.intact

/-! ## Two sessions -/

/-- Records with a text, written as objects. -/
def textLines (key : String) : LineFormat String :=
  Json.lineFormat (fun s => [(key, .str s)]) [key] (Json.getStr key)
    (fun _ => List.nodup_singleton _) (fun s => Json.getStr_of_lookup (by simp))

def textFormats : Formats String String := ⟨textLines "finding_id", textLines "proposal_id", id⟩

/-- An append of findings that does not come to write, and one of proposals that succeeds. -/
def unopenedCalls : List (Call String String) :=
  [.appendFindings ["f1"] { opens := false }, .appendProposals ["p1"] {}]

theorem intact_run_unopened : (run (step textFormats) {} unopenedCalls).Intact textFormats :=
  intact_run textFormats unopenedCalls ⟨.inl (.inr (.inl rfl)), .inr ⟨.inl rfl, trivial⟩, trivial⟩
    unopenedCalls List.prefix_rfl

/-- A write that stops behind the first byte of its line, and an append that succeeds. -/
def tornCalls : List (Call String String) :=
  [.appendFindings ["f1"] { writes := [some 1] }, .appendFindings ["f2"] {}]

/-- What was acknowledged behind a torn line cannot be loaded. -/
theorem not_intact_run :
    ¬ ∀ calls, (run (step textFormats) {} calls).Intact textFormats := by
  intro h
  obtain ⟨records, hload, -⟩ := (h tornCalls).findings
  have hbad : (run (step textFormats) {} tornCalls).loadFindings textFormats
      = .error (.schema "findings.jsonl line 1") := by
    decide +kernel
  rw [hbad] at hload
  cases hload

end Session

end Agenomic.Rmp.Store
