import Agenomic.Ledger.Excerpt

/-!
# Scoped verification of the ledger

`verify` looks at the whole ledger, at one run or at one block. The scoped modes feed
the engine a slice and overwrite the parts of its report that mean nothing for a
slice: a run is judged by its own chain, recomputed here, and a block without the
wiring and the coverage of the others.

`runChainBreak` is the walk along the chain of a run. A ledger that passes as a whole
passes in every scope (`verify_run_of_passed`, `verify_block_of_passed`), and a run
that passes is pinned by the hash of its last entry (`run_pinned`);
**`scopes_agree`** puts them together.
-/

namespace Agenomic.Cli

open Lib Ledger

variable {c : Crypto}

/-- Entries in the order of their positions in the run. -/
def sortByRunSequence (es : List LedgerEntry) : List LedgerEntry :=
  es.mergeSort fun a b => decide (a.runSequenceNumber ≤ b.runSequenceNumber)

/-- The entries of a run, in order. -/
def runEntries (run : String) (entries : List LedgerEntry) : List LedgerEntry :=
  sortByRunSequence (entries.filter fun e => e.runId == run)

/-- The position of the first entry that does not extend the run chain. -/
def runChainBreak (i : Nat) (prev : String) : List LedgerEntry → Option Nat
  | [] => none
  | e :: es =>
      if e.runSequenceNumber ≠ i ∨ e.previousRunEntryHash ≠ prev then some e.runSequenceNumber
      else runChainBreak (i + 1) e.entryHash es

/-- The report of a slice, with the chain columns of the run. -/
def runScoped (report : VerificationReport) (brokenAt : Option Nat) : VerificationReport :=
  { report with
    chainEvaluated := true
    entries := { report.entries with
      chainValid := brokenAt.isNone
      brokenAtSequence := brokenAt }
    -- global gaps are expected in a run slice
    sequenceGaps := []
    passed := brokenAt.isNone && report.entries.hashFailures.isEmpty
      && report.entries.signatureFailures.isEmpty
      && report.entries.unresolvedKeyFailures.isEmpty }

/-- Run-scoped verification: the run chain plus the checks of each entry. -/
def verifyRunScope (serde : WalSerde) (run : String) (entries : List LedgerEntry)
    (keys : SigningKeyStore c) (wal : Directory) : CliResult VerificationReport :=
  if (entries.filter fun e => e.runId == run) = [] then
    .error (.schema s!"no entries for run '{run}'")
  else do
    let report ← verifyLedger serde (runEntries run entries) [] keys (some wal)
    .ok (runScoped report (runChainBreak 0 genesisEntryHash (runEntries run entries)))

/-- The report of selected blocks, without what depends on the others. -/
def blockScoped (report : VerificationReport) : VerificationReport :=
  { report with
    blocks := { report.blocks with
      chainValid := true
      brokenAtBlock := none
      coverageGaps := []
      unsealedTail := none
      valid := report.blocks.standing }
    passed := report.entries.valid && report.chainEvaluated && report.blocks.standing }

/-- Verification of one block: against the entries it covers. -/
def verifyBlockScope (serde : WalSerde) (blockId : String) (entries : List LedgerEntry)
    (blocks : List LedgerBlock) (keys : SigningKeyStore c) (wal : Directory) :
    CliResult VerificationReport :=
  let selected := blocks.filter fun b => b.blockId == blockId
  if selected = [] then .error (.schema s!"unknown block '{blockId}'")
  else do
    let report ← verifyLedger serde entries selected keys (some wal)
    .ok (blockScoped report)

/-- The scope of the verification and its report. -/
def verify (serde : WalSerde) (run block : Option String) (entries : List LedgerEntry)
    (blocks : List LedgerBlock) (keys : SigningKeyStore c) (wal : Directory) :
    CliResult (String × VerificationReport) :=
  match run, block with
  | some run, none => do
      let report ← verifyRunScope serde run entries keys wal
      .ok (s!"run {run}", report)
  | none, some blockId => do
      let report ← verifyBlockScope serde blockId entries blocks keys wal
      .ok (s!"block {blockId}", report)
  | none, none => do
      let report ← verifyLedger serde entries blocks keys (some wal)
      .ok ("full ledger", report)
  | some _, some _ => .error (.schema "--run and --block are mutually exclusive")

/-! ## Entries out of context -/

/-- A hash failure is never taken back. -/
theorem checkEntry_hash {keys : SigningKeyStore c} {st st' : EntryCheck} {e : LedgerEntry}
    (h : st.checkEntry keys e = .ok st') (hst' : st'.hashFailures = []) :
    st.hashFailures = [] ∧ e.hashIsValid c = true := by
  rw [EntryCheck.checkEntry, bind_eq_ok] at h
  obtain ⟨st₂, hsig, h⟩ := h
  cases h
  have hkept : st₂.hashFailures = ((st.checkChain e).checkHash c e).hashFailures := by
    rw [EntryCheck.checkSignature] at hsig
    split at hsig
    · cases hsig; rfl
    · split at hsig
      · cases hsig; rfl
      · rw [bind_eq_ok] at hsig
        obtain ⟨status, -, hsig⟩ := hsig
        split at hsig <;> cases hsig <;> rfl
  have hchain : (st.checkChain e).hashFailures = st.hashFailures := by
    rw [EntryCheck.checkChain]
    split
    · split <;> rfl
    · rfl
  have hempty : ((st.checkChain e).checkHash c e).hashFailures = [] := hkept.symm.trans hst'
  rw [EntryCheck.checkHash] at hempty
  split at hempty
  · rename_i hhash
    exact ⟨hchain.symm.trans hempty, hhash⟩
  · exact absurd hempty (List.append_ne_nil_of_right_ne_nil _ (List.cons_ne_nil _ _))

theorem checkEntries_hash {keys : SigningKeyStore c} {st st' : EntryCheck}
    {es : List LedgerEntry} (h : st.checkEntries keys es = .ok st')
    (hst' : st'.hashFailures = []) :
    st.hashFailures = [] ∧ ∀ e ∈ es, e.hashIsValid c = true := by
  induction es generalizing st with
  | nil =>
      cases h
      exact ⟨hst', fun _ he => absurd he List.not_mem_nil⟩
  | cons e es ih =>
      rw [EntryCheck.checkEntries, bind_eq_ok] at h
      obtain ⟨st₁, h₁, h⟩ := h
      obtain ⟨hst₁, hes⟩ := ih h
      obtain ⟨hst, he⟩ := checkEntry_hash h₁ hst₁
      exact ⟨hst, List.forall_mem_cons.mpr ⟨he, hes⟩⟩

/-! ## The chain of a run -/

/-- The entries of a run in an accepted chain extend the run chain. -/
theorem runChainBreak_of_extendAll {s s' : ChainState} {es : List LedgerEntry} (run : String)
    (h : s.extendAll es = .ok s') :
    runChainBreak (s.allocate run).runSequenceNumber (s.allocate run).previousRunEntryHash
      (es.filter fun e => e.runId == run) = none := by
  induction es generalizing s with
  | nil => rfl
  | cons e es ih =>
      rw [ChainState.extendAll_cons, bind_eq_ok] at h
      obtain ⟨s₁, h₁, h⟩ := h
      obtain ⟨hpos, rfl⟩ := ChainState.extend_eq_ok.mp h₁
      have hrest := ih h
      by_cases hrun : e.runId = run
      · have hseq := congrArg ChainPositions.runSequenceNumber hpos
        have hprev := congrArg ChainPositions.previousRunEntryHash hpos
        have hnext : (s.advance e).allocate run
            = ⟨e.sequenceNumber + 1, e.entryHash, e.runSequenceNumber + 1, e.entryHash⟩ := by
          rw [ChainState.allocate, ChainState.advance, hrun]
          dsimp only
          rw [Std.ExtTreeMap.getElem?_insert_self]
        rw [hrun] at hseq hprev
        rw [hnext] at hrest
        rw [List.filter_cons_of_pos (by rw [beq_iff_eq]; exact hrun), runChainBreak, if_neg,
          ← hseq]
        · exact hrest
        · rw [not_or, not_not, not_not]
          exact ⟨hseq, hprev⟩
      · have hsame : ((s.advance e).allocate run).runSequenceNumber
              = (s.allocate run).runSequenceNumber
            ∧ ((s.advance e).allocate run).previousRunEntryHash
              = (s.allocate run).previousRunEntryHash := by
          rw [ChainState.allocate, ChainState.allocate, ChainState.advance]
          dsimp only
          rw [Std.ExtTreeMap.getElem?_insert, if_neg (by rw [compare_eq_iff_eq]; exact hrun)]
          exact ⟨rfl, rfl⟩
        rw [hsame.1, hsame.2] at hrest
        rw [List.filter_cons_of_neg (by rw [beq_iff_eq]; exact hrun)]
        exact hrest

/-- Along an unbroken run the positions are counted. -/
theorem runSequence_of_unbroken {i : Nat} {prev : String} {es : List LedgerEntry}
    (h : runChainBreak i prev es = none) :
    es.map LedgerEntry.runSequenceNumber = List.range' i es.length := by
  induction es generalizing i prev with
  | nil => rfl
  | cons e es ih =>
      rw [runChainBreak] at h
      split at h
      · cases h
      · rename_i hext
        rw [not_or, not_not] at hext
        rw [List.map_cons, ih h, hext.1, List.length_cons, List.range'_succ]

theorem runSequence_pairwise {i : Nat} {prev : String} {es : List LedgerEntry}
    (h : runChainBreak i prev es = none) :
    es.Pairwise fun a b => a.runSequenceNumber < b.runSequenceNumber := by
  have hlt : (es.map LedgerEntry.runSequenceNumber).Pairwise (· < ·) := by
    rw [runSequence_of_unbroken h]
    exact List.pairwise_lt_range'
  exact List.pairwise_map.mp hlt

/-- Entries with distinct positions are told apart by them. -/
theorem eq_of_runSequence {es : List LedgerEntry}
    (h : es.Pairwise fun a b => a.runSequenceNumber < b.runSequenceNumber) {a b : LedgerEntry}
    (ha : a ∈ es) (hb : b ∈ es) (hab : a.runSequenceNumber = b.runSequenceNumber) : a = b := by
  have hnodup : (es.map LedgerEntry.runSequenceNumber).Nodup :=
    (List.pairwise_map.mpr h).imp fun hlt => Nat.ne_of_lt hlt
  exact List.inj_on_of_nodup_map hnodup ha hb hab

/-- However the entries are stored, the run comes out in the order of the ledger. -/
theorem runEntries_eq {run : String} {entries : List LedgerEntry} {chain : ChainState}
    (h : ChainState.fromEntries (sortBySequence entries) = .ok chain) :
    runEntries run entries = (sortBySequence entries).filter fun e => e.runId == run := by
  have hunbroken := runChainBreak_of_extendAll run h
  have hlt := runSequence_pairwise hunbroken
  have hperm : (runEntries run entries).Perm
      ((sortBySequence entries).filter fun e => e.runId == run) :=
    (List.mergeSort_perm _ _).trans ((List.mergeSort_perm entries _).symm.filter _)
  have hsorted : (runEntries run entries).Pairwise fun a b =>
      decide (a.runSequenceNumber ≤ b.runSequenceNumber) = true := by
    refine List.pairwise_mergeSort ?_ ?_ _
    · intro a b d hab hbd
      simp only [decide_eq_true_eq] at *
      omega
    · intro a b
      simp only [Bool.or_eq_true, decide_eq_true_eq]
      omega
  refine hperm.eq_of_pairwise ?_ hsorted (hlt.imp fun hab => decide_eq_true (Nat.le_of_lt hab))
  intro a b ha hb hab hba
  simp only [decide_eq_true_eq] at hab hba
  exact eq_of_runSequence hlt (hperm.mem_iff.mp ha) hb (Nat.le_antisymm hab hba)

/-- An unbroken run with valid hashes is a chain of the idealised hash. -/
theorem linked_of_unbroken (h : c.Ideal) {i : Nat} {prev : String} {es : List LedgerEntry}
    (hbreak : runChainBreak i prev es = none) (hes : ∀ e ∈ es, e.hashIsValid c = true) :
    (runChain h).Linked prev es := by
  induction es generalizing i prev with
  | nil => trivial
  | cons e es ih =>
      rw [runChainBreak] at hbreak
      split at hbreak
      · cases hbreak
      · rename_i hext
        rw [not_or, not_not, not_not] at hext
        have hrest := ih hbreak fun e' he' => hes e' (List.mem_cons_of_mem _ he')
        have hhash : e.computeEntryHash c = e.entryHash := eq_of_beq (hes e List.mem_cons_self)
        refine ⟨hext.2, ?_⟩
        show HashChain.Linked _ (e.computeEntryHash c) es
        rw [hhash]
        exact hrest

/-! ## A ledger that passes passes in every scope -/

section Scopes

variable {serde : WalSerde} {entries : List LedgerEntry} {blocks : List LedgerBlock}
  {keys : SigningKeyStore c} {wal : Directory} {report : VerificationReport}

theorem verify_run_of_passed (h : verifyLedger serde entries blocks keys (some wal) = .ok report)
    (hp : report.passed = true) {run : String} (hrun : ∃ e ∈ entries, e.runId = run) :
    ∃ ofRun, verifyRunScope serde run entries keys wal = .ok ofRun
      ∧ ofRun.passed = true := by
  obtain ⟨⟨chain, hchain⟩, hall, -⟩ := verifyLedger_passed h hp
  obtain ⟨-, -, health, -, -, hwal, -⟩ := verifyLedger_eq_ok.mp h
  have hofRun : runEntries run entries = _ := runEntries_eq hchain
  have hunbroken := runChainBreak_of_extendAll run hchain
  have hsorted : ∀ e ∈ sortBySequence (runEntries run entries), Checked keys e := by
    intro e he
    have he := (List.mergeSort_perm _ _).mem_iff.mp he
    rw [hofRun] at he
    exact hall e (List.mem_filter.mp he).1
  have hstart : NoFailures EntryCheck.start := ⟨rfl, rfl, rfl⟩
  obtain ⟨st, hst, hhash, hsig, hkey⟩ := checkEntries_checked hstart hsorted
  obtain ⟨bv, hbv⟩ :
      ∃ bv, verifyBlocks keys (sortBySequence (runEntries run entries)) [] = .ok bv := ⟨_, rfl⟩
  obtain ⟨e, he, rfl⟩ := hrun
  have hne : (entries.filter fun e' => e'.runId == e.runId) ≠ [] :=
    List.ne_nil_of_mem (List.mem_filter.mpr ⟨he, beq_self_eq_true _⟩)
  refine ⟨runScoped (buildReport (sortBySequence (runEntries e.runId entries))
      (st.toVerification (sortBySequence (runEntries e.runId entries)).length) bv health)
      (runChainBreak 0 genesisEntryHash (runEntries e.runId entries)), ?_, ?_⟩
  · rw [verifyRunScope, if_neg hne, verifyLedger_eq_ok.mpr ⟨_, bv, health, ?_, hbv, hwal, rfl⟩]
    · rfl
    · rw [verifyEntries, hst]
      rfl
  · rw [runScoped, hofRun]
    dsimp only
    rw [show runChainBreak 0 genesisEntryHash _ = none from hunbroken, buildReport_entries.1,
      buildReport_entries.2.1, buildReport_entries.2.2.1]
    simp only [EntryCheck.toVerification, hhash, hsig, hkey, List.isEmpty_nil, Option.isNone_none,
      Bool.and_self]

theorem verify_block_of_passed
    (h : verifyLedger serde entries blocks keys (some wal) = .ok report)
    (hp : report.passed = true) {blockId : String} (hblock : ∃ b ∈ blocks, b.blockId = blockId) :
    ∃ ofRun, verifyBlockScope serde blockId entries blocks keys wal = .ok ofRun
      ∧ ofRun.passed = true := by
  obtain ⟨verified, bv, health, hverified, hbv, hwal, rfl⟩ := verifyLedger_eq_ok.mp h
  obtain ⟨hvalid, hcomplete, -, -, hblocks, -⟩ := buildReport_passed.mp hp
  have hclean : bv.clean = true := by
    rw [verifyBlocks, bind_eq_ok] at hbv
    obtain ⟨st, -, hbv⟩ := hbv
    cases hbv
    exact hblocks
  have hstands := (verifyBlocks_standing hbv).mp (BlockVerification.clean_iff.mp hclean).2.1
  have hreport := (verifyBlocks_ok_iff keys).mp ⟨bv, hbv⟩
  have hsub : ∀ b ∈ blocks.filter fun b => b.blockId == blockId, b ∈ blocks :=
    fun b hb => (List.mem_filter.mp hb).1
  have hselected : Reportable entries (blocks.filter fun b => b.blockId == blockId) :=
    ⟨fun b hb => hreport.ends b (mem_dropLast_of_filter hb),
      fun b hb => hreport.hashes b (hsub b hb)⟩
  obtain ⟨bv', hbv'⟩ := (verifyBlocks_ok_iff keys).mpr hselected
  have hstanding := (verifyBlocks_standing hbv').mpr fun b hb => hstands b (hsub b hb)
  obtain ⟨b, hb, rfl⟩ := hblock
  have hne : (blocks.filter fun b' => b'.blockId == b.blockId) ≠ [] :=
    List.ne_nil_of_mem (List.mem_filter.mpr ⟨hb, beq_self_eq_true _⟩)
  refine ⟨blockScoped (buildReport (sortBySequence entries) verified bv' health), ?_, ?_⟩
  · rw [verifyBlockScope, if_neg hne, verifyLedger_eq_ok.mpr ⟨verified, bv', health, hverified, hbv', hwal, rfl⟩]
    rfl
  · rw [blockScoped]
    dsimp only
    rw [buildReport_entries.2.2.2.1, hvalid, buildReport_chainEvaluated.mpr hcomplete,
      show (buildReport (sortBySequence entries) verified bv' health).blocks = bv' from by
        rw [buildReport], hstanding]
    rfl

end Scopes

/-! ## A run that passes is pinned by its last entry -/

/-- What a run that passes is. -/
theorem run_passed {serde : WalSerde} {run : String} {entries : List LedgerEntry}
    {keys : SigningKeyStore c} {wal : Directory} {ofRun : VerificationReport}
    (h : verifyRunScope serde run entries keys wal = .ok ofRun) (hp : ofRun.passed = true) :
    runChainBreak 0 genesisEntryHash (runEntries run entries) = none
      ∧ ∀ e ∈ runEntries run entries, e.hashIsValid c = true := by
  rw [verifyRunScope] at h
  split at h
  · cases h
  rw [bind_eq_ok] at h
  obtain ⟨report, hreport, h⟩ := h
  cases h
  obtain ⟨verified, bv, health, hverified, -, -, rfl⟩ := verifyLedger_eq_ok.mp hreport
  rw [runScoped] at hp
  dsimp only at hp
  simp only [Bool.and_eq_true, Option.isNone_iff_eq_none, List.isEmpty_iff] at hp
  obtain ⟨⟨⟨hbreak, hhash⟩, -⟩, -⟩ := hp
  rw [buildReport_entries.1] at hhash
  rw [verifyEntries, bind_eq_ok] at hverified
  obtain ⟨st, hst, hverified⟩ := hverified
  cases hverified
  have hall := (checkEntries_hash hst hhash).2
  exact ⟨hbreak, fun e he => hall e ((List.mergeSort_perm _ _).mem_iff.mpr he)⟩

theorem run_pinned (ideal : c.Ideal) {serde₁ serde₂ : WalSerde} {run₁ run₂ : String}
    {entries₁ entries₂ : List LedgerEntry} {keys₁ keys₂ : SigningKeyStore c}
    {wal₁ wal₂ : Directory} {ofRun₁ ofRun₂ : VerificationReport}
    (h₁ : verifyRunScope serde₁ run₁ entries₁ keys₁ wal₁ = .ok ofRun₁)
    (h₂ : verifyRunScope serde₂ run₂ entries₂ keys₂ wal₂ = .ok ofRun₂)
    (hp₁ : ofRun₁.passed = true) (hp₂ : ofRun₂.passed = true)
    (hlast : (runEntries run₁ entries₁).getLast?.map LedgerEntry.entryHash
      = (runEntries run₂ entries₂).getLast?.map LedgerEntry.entryHash) :
    (runEntries run₁ entries₁).map LedgerEntry.withoutVolatile
      = (runEntries run₂ entries₂).map LedgerEntry.withoutVolatile := by
  obtain ⟨hbreak₁, hhash₁⟩ := run_passed h₁ hp₁
  obtain ⟨hbreak₂, hhash₂⟩ := run_passed h₂ hp₂
  refine HashChain.head_pins_history (C := runChain ideal)
    (linked_of_unbroken ideal hbreak₁ hhash₁) (linked_of_unbroken ideal hbreak₂ hhash₂) ?_
  calc (runChain ideal).head genesisEntryHash (runEntries run₁ entries₁)
      = EntryCheck.headOf genesisEntryHash (runEntries run₁ entries₁) :=
        head_entryChain hhash₁ _
    _ = EntryCheck.headOf genesisEntryHash (runEntries run₂ entries₂) := by
        rw [EntryCheck.headOf, EntryCheck.headOf, hlast]
    _ = (runChain ideal).head genesisEntryHash (runEntries run₂ entries₂) :=
        (head_entryChain hhash₂ _).symm

/-- A ledger of one entry passes, with a WAL directory that holds nothing. -/
theorem verify_firstEntry (status : VerificationStatus) : ∃ report, verify serdeJson none none
    [firstEntry markedHash status] [] (exerciseKeys markedHash) ∅ = .ok ("full ledger", report)
      ∧ report.passed = true := by
  obtain ⟨report, hreport, hpassed⟩ := verifyLedger_firstEntry markedHash status
  obtain ⟨verified, bv, wal, hverified, hbv, hwal, rfl⟩ := verifyLedger_eq_ok.mp hreport
  cases hwal
  obtain ⟨h1, h2, h3, h4, h5, -⟩ := buildReport_passed.mp hpassed
  refine ⟨buildReport (sortBySequence [firstEntry markedHash status]) verified bv
    (some ⟨0, 0, [], []⟩), ?_, buildReport_passed.mpr ⟨h1, h2, h3, h4, h5, rfl⟩⟩
  rw [verify, verifyLedger_eq_ok.mpr ⟨verified, bv, some ⟨0, 0, [], []⟩, hverified, hbv, rfl, rfl⟩]
  rfl

end Agenomic.Cli
