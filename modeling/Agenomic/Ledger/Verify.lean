import Agenomic.Ledger.Block
import Agenomic.Ledger.Wal

/-!
# The verification engine

`verifyLedger` runs every check over entries, blocks, keys and, when there is one,
the WAL directory, and returns one report. The entries may come in any order and
with gaps or duplicates: those are findings. They are sorted by sequence number
first.

A report that passes says that the entries, sorted, extend the heads of an empty
ledger in order and stand every check alone (`verifyLedger_passed`).
-/

namespace Agenomic.Ledger

open Lib

def verifyReportVersion : String := "agenomic.ledger.verify/v0.1"

/-- Block-level findings. -/
structure BlockVerification where
  blockCount : Nat
  chainValid : Bool
  brokenAtBlock : Option String
  merkleMismatches : List String
  entriesHashMismatches : List String
  hashFailures : List String
  signatureFailures : List String
  unverifiableRanges : List String
  coverageGaps : List (Nat × Nat)
  rangeOverlaps : List String
  unsealedTail : Option (Nat × Nat)
  valid : Bool
  deriving DecidableEq, Repr

structure RunSummary where
  entryCount : Nat
  headHash : String
  deriving DecidableEq, Repr

/-- A compact overview of the chains. -/
structure ChainSummary where
  headHash : String
  runCount : Nat
  runs : List (String × RunSummary)
  deriving DecidableEq, Repr

/-- The full report. -/
structure VerificationReport where
  reportVersion : String
  passed : Bool
  entryCount : Nat
  firstInvalidSequence : Option Nat
  chainEvaluated : Bool
  entries : LedgerVerification
  sequenceGaps : List (Nat × Nat)
  duplicateSequences : List Nat
  duplicateEventIds : List String
  conflictingEventIds : List String
  payloadHashFormatFailures : List Nat
  blocks : BlockVerification
  wal : Option WalHealth
  chainSummary : ChainSummary
  recommendations : List String
  deriving DecidableEq, Repr

/-! ## Order, gaps, duplicates -/

/-- The entries in the order of their sequence numbers. -/
def sortBySequence (es : List LedgerEntry) : List LedgerEntry :=
  es.mergeSort fun a b => decide (a.sequenceNumber ≤ b.sequenceNumber)

/-- The gaps and the duplicates among sorted numbers, behind those already found. -/
def sequencePairs (gaps : List (Nat × Nat)) (dups : List Nat) : List Nat →
    List (Nat × Nat) × List Nat
  | a :: b :: rest =>
      if a = b then
        sequencePairs gaps (if dups.getLast? ≠ some a then dups ++ [a] else dups) (b :: rest)
      else if a + 1 < b then sequencePairs (gaps ++ [(a + 1, b - 1)]) dups (b :: rest)
      else sequencePairs gaps dups (b :: rest)
  | _ => (gaps, dups)

/-- The gaps and the duplicates among sorted numbers that should start at 0. -/
def sequenceFindings (seqs : List Nat) : List (Nat × Nat) × List Nat :=
  let (gaps, dups) := sequencePairs [] [] seqs
  match seqs.head? with
  | some first => if 0 < first then ((0, first - 1) :: gaps, dups) else (gaps, dups)
  | none => (gaps, dups)

/-- The distinct values of a field, in order. -/
def distinctSorted (xs : List String) : List String := xs.dedup.mergeSort fun a b => decide (a ≤ b)

def entriesOfEvent (es : List LedgerEntry) (id : String) : List LedgerEntry :=
  es.filter fun e => e.eventId == id

/-- Event ids that stand on entries with different payload hashes. -/
def conflictingEventIds (es : List LedgerEntry) : List String :=
  (distinctSorted (es.map LedgerEntry.eventId)).filter fun id =>
    1 < ((entriesOfEvent es id).map LedgerEntry.eventPayloadHash).dedup.length

/-- Event ids that stand on several entries with the same payload hash. -/
def duplicateEventIds (es : List LedgerEntry) : List String :=
  (distinctSorted (es.map LedgerEntry.eventId)).filter fun id =>
    1 < (entriesOfEvent es id).length && !(conflictingEventIds es).contains id

/-- The head of every run. -/
def summarizeRuns (es : List LedgerEntry) : List (String × RunSummary) :=
  (distinctSorted (es.map LedgerEntry.runId)).map fun id =>
    let ofRun := es.filter fun e => e.runId == id
    (id, ⟨ofRun.length, (ofRun.getLast?.map LedgerEntry.entryHash).getD ""⟩)

/-! ## Blocks -/

variable {c : Crypto}

/-- Block verification underway. -/
structure BlockCheck where
  found : BlockVerification
  prevHash : String
  prevEnd : Option Nat

namespace BlockCheck

def start (blockCount : Nat) : BlockCheck :=
  ⟨⟨blockCount, true, none, [], [], [], [], [], [], [], none, false⟩, genesisBlockHash, none⟩

/-- The link to the block before. -/
def checkWiring (st : BlockCheck) (b : LedgerBlock) : BlockCheck :=
  { st with
    found :=
      if b.previousBlockHash ≠ st.prevHash ∧ st.found.chainValid then
        { st.found with chainValid := false, brokenAtBlock := some b.blockId }
      else st.found
    prevHash := b.blockHash }

/-- What the range of a block says beside what the ones before cover. -/
def rangeFound (st : BlockCheck) (b : LedgerBlock) : CliResult BlockVerification :=
  match st.prevEnd with
  | some e => do
      let next ← addU64 e 1
      if next < b.startSequenceNumber then
        .ok { st.found with
          coverageGaps := st.found.coverageGaps ++ [(next, b.startSequenceNumber - 1)] }
      else if b.startSequenceNumber ≤ e then
        .ok { st.found with rangeOverlaps := st.found.rangeOverlaps ++ [b.blockId] }
      else .ok st.found
  | none =>
      if 0 < b.startSequenceNumber then
        .ok { st.found with
          coverageGaps := st.found.coverageGaps ++ [(0, b.startSequenceNumber - 1)] }
      else .ok st.found

/-- The range behind the one before. -/
def checkRange (st : BlockCheck) (b : LedgerBlock) : CliResult BlockCheck := do
  let found ← st.rangeFound b
  .ok { st with found, prevEnd := some (max b.endSequenceNumber (st.prevEnd.getD 0)) }

/-- The signature of a block verifies under the key it names. -/
def signatureVerifies (keys : SigningKeyStore c) (b : LedgerBlock) : Bool :=
  match keys.verifyingKey b.signingKeyId with
  | .ok vk =>
      match b.verifySignature c vk with
      | .ok () => true
      | .error _ => false
  | .error _ => false

/-- The hash and the signature of a block. -/
def checkSeal (keys : SigningKeyStore c) (found : BlockVerification) (b : LedgerBlock) :
    BlockVerification :=
  let found :=
    if b.hashIsValid c then found
    else { found with hashFailures := found.hashFailures ++ [b.blockId] }
  if signatureVerifies keys b then found
  else { found with signatureFailures := found.signatureFailures ++ [b.blockId] }

/-- The entry with a sequence number. -/
def bySeq (sorted : List LedgerEntry) (seq : Nat) : Option LedgerEntry :=
  sorted.reverse.find? fun e => e.sequenceNumber == seq

/-- The hashes of the entries of a block that are there. -/
def covered (sorted : List LedgerEntry) (b : LedgerBlock) : List String :=
  (List.range' b.startSequenceNumber (b.endSequenceNumber + 1 - b.startSequenceNumber)).filterMap
    fun seq => (bySeq sorted seq).map LedgerEntry.entryHash

/-- The commitments of a block to its entries, which take all of them to check. -/
def checkContent (c : Crypto) (sorted : List LedgerEntry) (found : BlockVerification)
    (b : LedgerBlock) : CliResult BlockVerification :=
  let hashes := covered sorted b
  if hashes.length ≠ b.entryCount ∨ b.endSequenceNumber < b.startSequenceNumber then
    .ok { found with unverifiableRanges := found.unverifiableRanges ++ [b.blockId] }
  else do
    let found :=
      if entriesHash c hashes ≠ b.entriesHash then
        { found with entriesHashMismatches := found.entriesHashMismatches ++ [b.blockId] }
      else found
    let root ← merkleRoot c hashes
    if root ≠ b.merkleRoot then
      .ok { found with merkleMismatches := found.merkleMismatches ++ [b.blockId] }
    else .ok found

/-- All checks of one block. -/
def checkBlock (keys : SigningKeyStore c) (sorted : List LedgerEntry) (st : BlockCheck)
    (b : LedgerBlock) : CliResult BlockCheck := do
  let st ← (st.checkWiring b).checkRange b
  let found ← checkContent c sorted (checkSeal keys st.found b) b
  .ok { st with found }

/-- All checks of blocks in order. -/
def checkBlocks (keys : SigningKeyStore c) (sorted : List LedgerEntry) (st : BlockCheck) :
    List LedgerBlock → CliResult BlockCheck
  | [] => .ok st
  | b :: bs => do
      let st ← st.checkBlock keys sorted b
      st.checkBlocks keys sorted bs

end BlockCheck

/-- No block-level check failed. -/
def BlockVerification.clean (found : BlockVerification) : Bool :=
  found.chainValid && found.merkleMismatches.isEmpty && found.entriesHashMismatches.isEmpty
    && found.hashFailures.isEmpty && found.signatureFailures.isEmpty
    && found.unverifiableRanges.isEmpty && found.coverageGaps.isEmpty
    && found.rangeOverlaps.isEmpty

/-- The entries no block covers. -/
def unsealedTail (prevEnd : Option Nat) (sorted : List LedgerEntry) : Option (Nat × Nat) :=
  match prevEnd, sorted.getLast? with
  | some e, some last =>
      if e < last.sequenceNumber then some (e + 1, last.sequenceNumber) else none
  | none, some last => some (0, last.sequenceNumber)
  | _, none => none

/-- All block-level checks. -/
def verifyBlocks (keys : SigningKeyStore c) (sorted : List LedgerEntry)
    (blocks : List LedgerBlock) : CliResult BlockVerification := do
  let st ← (BlockCheck.start blocks.length).checkBlocks keys sorted blocks
  .ok { st.found with
        unsealedTail := unsealedTail st.prevEnd sorted
        valid := st.found.clean }

/-! ## What a block check finds -/

/-- No check of a block alone failed. -/
def BlockVerification.standing (found : BlockVerification) : Bool :=
  found.merkleMismatches.isEmpty && found.entriesHashMismatches.isEmpty
    && found.hashFailures.isEmpty && found.signatureFailures.isEmpty
    && found.unverifiableRanges.isEmpty

theorem BlockVerification.standing_iff {found : BlockVerification} :
    found.standing = true ↔ found.merkleMismatches = [] ∧ found.entriesHashMismatches = []
      ∧ found.hashFailures = [] ∧ found.signatureFailures = []
      ∧ found.unverifiableRanges = [] := by
  simp only [standing, Bool.and_eq_true, List.isEmpty_iff, and_assoc]

theorem BlockVerification.clean_iff {found : BlockVerification} :
    found.clean = true ↔ found.chainValid = true ∧ found.standing = true
      ∧ found.coverageGaps = [] ∧ found.rangeOverlaps = [] := by
  simp only [clean, standing, Bool.and_eq_true, List.isEmpty_iff, and_assoc]

/-- A block stands the checks that look at it and the entries alone. -/
structure Stands (keys : SigningKeyStore c) (sorted : List LedgerEntry) (b : LedgerBlock) :
    Prop where
  hash : b.hashIsValid c = true
  signature : ∃ vk, keys.verifyingKey b.signingKeyId = .ok vk ∧ b.verifySignature c vk = .ok ()
  range : b.startSequenceNumber ≤ b.endSequenceNumber
  complete : (BlockCheck.covered sorted b).length = b.entryCount
  entriesHash : entriesHash c (BlockCheck.covered sorted b) = b.entriesHash
  merkleRoot : merkleRoot c (BlockCheck.covered sorted b) = .ok b.merkleRoot

namespace BlockCheck

theorem append_singleton_ne_nil {α : Type} (xs : List α) (x : α) : xs ++ [x] ≠ [] :=
  List.append_ne_nil_of_right_ne_nil _ (List.cons_ne_nil _ _)

@[simp] theorem standing_checkWiring (st : BlockCheck) (b : LedgerBlock) :
    (st.checkWiring b).found.standing = st.found.standing := by
  rw [checkWiring]
  dsimp only
  split <;> rfl

theorem standing_rangeFound {st : BlockCheck} {b : LedgerBlock} {found : BlockVerification}
    (h : st.rangeFound b = .ok found) : found.standing = st.found.standing := by
  rw [rangeFound] at h
  split at h
  · rw [bind_eq_ok] at h
    obtain ⟨next, -, h⟩ := h
    split at h
    · cases h; rfl
    · split at h <;> cases h <;> rfl
  · split at h <;> cases h <;> rfl

theorem standing_checkRange {st st' : BlockCheck} {b : LedgerBlock}
    (h : st.checkRange b = .ok st') : st'.found.standing = st.found.standing := by
  rw [checkRange, bind_eq_ok] at h
  obtain ⟨found, hfound, h⟩ := h
  cases h
  exact standing_rangeFound hfound

theorem signatureVerifies_iff {keys : SigningKeyStore c} {b : LedgerBlock} :
    signatureVerifies keys b = true
      ↔ ∃ vk, keys.verifyingKey b.signingKeyId = .ok vk ∧ b.verifySignature c vk = .ok () := by
  rw [signatureVerifies]
  cases hvk : keys.verifyingKey b.signingKeyId with
  | error err =>
      refine ⟨fun h => absurd h Bool.false_ne_true, ?_⟩
      rintro ⟨vk, hok, -⟩
      cases hok
  | ok vk =>
      dsimp only
      cases hsig : b.verifySignature c vk with
      | error err =>
          refine ⟨fun h => absurd h Bool.false_ne_true, ?_⟩
          rintro ⟨vk', hok, hsig'⟩
          cases hok
          cases hsig.symm.trans hsig'
      | ok u => exact ⟨fun _ => ⟨vk, rfl, hsig⟩, fun _ => rfl⟩

theorem standing_checkSeal {keys : SigningKeyStore c} {found : BlockVerification}
    {b : LedgerBlock} : (checkSeal keys found b).standing = true ↔ found.standing = true
      ∧ b.hashIsValid c = true ∧ ∃ vk, keys.verifyingKey b.signingKeyId = .ok vk
        ∧ b.verifySignature c vk = .ok () := by
  rw [← signatureVerifies_iff, checkSeal]
  by_cases hsig : signatureVerifies keys b = true
  · rw [if_pos hsig]
    by_cases hhash : b.hashIsValid c = true
    · rw [if_pos hhash]
      exact ⟨fun h => ⟨h, hhash, hsig⟩, fun h => h.1⟩
    · rw [if_neg hhash]
      refine ⟨fun h => ?_, fun h => absurd h.2.1 hhash⟩
      exact absurd (BlockVerification.standing_iff.mp h).2.2.1 (append_singleton_ne_nil _ _)
  · rw [if_neg hsig]
    refine ⟨fun h => ?_, fun h => absurd h.2.2 hsig⟩
    exact absurd (BlockVerification.standing_iff.mp h).2.2.2.1 (append_singleton_ne_nil _ _)

theorem standing_checkContent {sorted : List LedgerEntry} {found found' : BlockVerification}
    {b : LedgerBlock} (h : checkContent c sorted found b = .ok found') :
    found'.standing = true ↔ found.standing = true
      ∧ b.startSequenceNumber ≤ b.endSequenceNumber
      ∧ (covered sorted b).length = b.entryCount
      ∧ entriesHash c (covered sorted b) = b.entriesHash
      ∧ merkleRoot c (covered sorted b) = .ok b.merkleRoot := by
  rw [checkContent] at h
  dsimp only at h
  split at h
  · rename_i hpart
    cases h
    refine ⟨fun h => ?_, fun ⟨_, hle, hlen, _⟩ => ?_⟩
    · exact absurd (BlockVerification.standing_iff.mp h).2.2.2.2 (append_singleton_ne_nil _ _)
    · rcases hpart with hpart | hpart
      · exact absurd hlen hpart
      · omega
  · rename_i hfull
    rw [not_or, not_not, not_lt] at hfull
    rw [bind_eq_ok] at h
    obtain ⟨root, hroot, h⟩ := h
    rw [hroot, Except.ok.injEq]
    by_cases hr : root = b.merkleRoot
    · rw [if_neg (not_not.mpr hr)] at h
      by_cases heh : entriesHash c (covered sorted b) = b.entriesHash
      · rw [if_neg (not_not.mpr heh)] at h
        cases h
        exact ⟨fun h => ⟨h, hfull.2, hfull.1, heh, hr⟩, fun h => h.1⟩
      · rw [if_pos heh] at h
        cases h
        refine ⟨fun h => ?_, fun h => absurd h.2.2.2.1 heh⟩
        exact absurd (BlockVerification.standing_iff.mp h).2.1 (append_singleton_ne_nil _ _)
    · rw [if_pos hr] at h
      cases h
      refine ⟨fun h => ?_, fun h => absurd h.2.2.2.2 hr⟩
      exact absurd (BlockVerification.standing_iff.mp h).1 (append_singleton_ne_nil _ _)

theorem standing_checkBlock {keys : SigningKeyStore c} {sorted : List LedgerEntry}
    {st st' : BlockCheck} {b : LedgerBlock} (h : st.checkBlock keys sorted b = .ok st') :
    st'.found.standing = true ↔ st.found.standing = true ∧ Stands keys sorted b := by
  rw [checkBlock, bind_eq_ok] at h
  obtain ⟨st₁, h₁, h⟩ := h
  rw [bind_eq_ok] at h
  obtain ⟨found, hfound, h⟩ := h
  cases h
  have hkept := (standing_checkRange h₁).trans (standing_checkWiring st b)
  rw [standing_checkContent hfound, standing_checkSeal, hkept]
  constructor
  · rintro ⟨⟨hst, hhash, hsig⟩, hle, hlen, heh, hroot⟩
    exact ⟨hst, hhash, hsig, hle, hlen, heh, hroot⟩
  · rintro ⟨hst, hhash, hsig, hle, hlen, heh, hroot⟩
    exact ⟨⟨hst, hhash, hsig⟩, hle, hlen, heh, hroot⟩

/-- **No check of a block alone fails exactly when every block stands them.** -/
theorem standing_checkBlocks {keys : SigningKeyStore c} {sorted : List LedgerEntry}
    {st st' : BlockCheck} {bs : List LedgerBlock} (h : st.checkBlocks keys sorted bs = .ok st') :
    st'.found.standing = true ↔ st.found.standing = true ∧ ∀ b ∈ bs, Stands keys sorted b := by
  induction bs generalizing st with
  | nil =>
      cases h
      exact ⟨fun h => ⟨h, fun _ hb => absurd hb List.not_mem_nil⟩, fun h => h.1⟩
  | cons b bs ih =>
      rw [checkBlocks, bind_eq_ok] at h
      obtain ⟨st₁, h₁, h⟩ := h
      rw [ih h, standing_checkBlock h₁, List.forall_mem_cons, and_assoc]

end BlockCheck

theorem verifyBlocks_standing {keys : SigningKeyStore c} {sorted : List LedgerEntry}
    {blocks : List LedgerBlock} {bv : BlockVerification}
    (h : verifyBlocks keys sorted blocks = .ok bv) :
    bv.standing = true ↔ ∀ b ∈ blocks, Stands keys sorted b := by
  rw [verifyBlocks, bind_eq_ok] at h
  obtain ⟨st, hst, h⟩ := h
  cases h
  have := BlockCheck.standing_checkBlocks hst
  constructor
  · exact fun h => (this.mp h).2
  · exact fun h => this.mpr ⟨rfl, h⟩

/-! ## The report -/

/-- What to do about the findings. -/
def recommend (entries : LedgerVerification) (sequenceGaps : List (Nat × Nat))
    (conflicting : List String) (blocks : BlockVerification) (walDamaged : Bool) : List String :=
  (if !entries.hashFailures.isEmpty || !blocks.merkleMismatches.isEmpty then
    ["tampering detected: entry content no longer matches its sealed hash — restore " ++
      "from a trusted export and investigate write access to the ledger files"] else [])
  ++ (if !entries.signatureFailures.isEmpty || !blocks.signatureFailures.isEmpty then
    ["signature failures present: confirm the key manifest is the one that signed this " ++
      "ledger (agenomic ledger keys list)"] else [])
  ++ (if !sequenceGaps.isEmpty then
    ["missing events: request the absent sequence ranges from the producer — the " ++
      "ledger never rewrites history to close gaps"] else [])
  ++ (if !conflicting.isEmpty then
    ["conflicting event ids carry divergent payload hashes — treat as a tampering " ++
      "warning and audit the producer"] else [])
  ++ (if !entries.revokedKeyWarnings.isEmpty then
    ["entries signed by a revoked key verify cryptographically but need review of the " ++
      "revocation window"] else [])
  ++ (if walDamaged then
    ["damaged WAL segments found: reopen the ledger to quarantine and recover, then " ++
      "inspect the .corrupt files"] else [])
  ++ (if blocks.unsealedTail.isSome then
    ["unsealed entries pending: run \x60agenomic ledger seal\x60 to block them"] else [])

/-- Health of the WAL directory, when there is one. -/
def walHealth (serde : WalSerde) : Option Directory → CliResult (Option WalHealth)
  | none => .ok none
  | some d => do
      let health ← scanHealth serde d
      .ok (some health)

/-- The WAL directory holds damaged segments. -/
def walDamaged (wal : Option WalHealth) : Bool := wal.any fun w => !w.damagedSegments.isEmpty

/-- Entries whose payload hash is no well-formed commitment. -/
def payloadHashFormatFailures (sorted : List LedgerEntry) : List Nat :=
  (sorted.filter fun e => !payloadHashIsWellFormed e.eventPayloadHash).map
    LedgerEntry.sequenceNumber

/-- The report over what the checks of the sorted entries, the blocks and the WAL found. -/
def buildReport (sorted : List LedgerEntry) (verified : LedgerVerification)
    (bv : BlockVerification) (wal : Option WalHealth) : VerificationReport :=
  let (sequenceGaps, duplicateSequences) :=
    sequenceFindings (sorted.map LedgerEntry.sequenceNumber)
  -- wiring means something only over a complete sequence without duplicates
  let chainEvaluated := sequenceGaps.isEmpty && duplicateSequences.isEmpty
  let entryResults :=
    if chainEvaluated then verified
    else { verified with chainValid := false, brokenAtSequence := none }
  let runs := summarizeRuns sorted
  { reportVersion := verifyReportVersion
    passed := entryResults.valid && chainEvaluated && duplicateSequences.isEmpty
      && (conflictingEventIds sorted).isEmpty && (payloadHashFormatFailures sorted).isEmpty
      && bv.valid && !walDamaged wal
    entryCount := sorted.length
    firstInvalidSequence := ([entryResults.brokenAtSequence, entryResults.hashFailures.head?,
      entryResults.signatureFailures.head?, entryResults.unresolvedKeyFailures.head?,
      (payloadHashFormatFailures sorted).head?].filterMap fun o => o).min?
    chainEvaluated
    entries := entryResults
    sequenceGaps
    duplicateSequences
    duplicateEventIds := duplicateEventIds sorted
    conflictingEventIds := conflictingEventIds sorted
    payloadHashFormatFailures := payloadHashFormatFailures sorted
    blocks := bv
    wal
    chainSummary := ⟨entryResults.headHash, runs.length, runs⟩
    recommendations := recommend entryResults sequenceGaps (conflictingEventIds sorted) bv
      (walDamaged wal) }

/-- Run the full check matrix. -/
def verifyLedger (serde : WalSerde) (entries : List LedgerEntry) (blocks : List LedgerBlock)
    (keys : SigningKeyStore c) (walDir : Option Directory) : CliResult VerificationReport := do
  let sorted := sortBySequence entries
  let verified ← verifyEntries sorted keys
  let bv ← verifyBlocks keys sorted blocks
  let wal ← walHealth serde walDir
  .ok (buildReport sorted verified bv wal)

theorem verifyLedger_eq_ok {serde : WalSerde} {entries : List LedgerEntry}
    {blocks : List LedgerBlock} {keys : SigningKeyStore c} {walDir : Option Directory}
    {report : VerificationReport} :
    verifyLedger serde entries blocks keys walDir = .ok report ↔
      ∃ verified bv wal, verifyEntries (sortBySequence entries) keys = .ok verified
        ∧ verifyBlocks keys (sortBySequence entries) blocks = .ok bv
        ∧ walHealth serde walDir = .ok wal
        ∧ report = buildReport (sortBySequence entries) verified bv wal := by
  rw [verifyLedger]
  constructor
  · intro h
    rw [bind_eq_ok] at h
    obtain ⟨verified, hverified, h⟩ := h
    rw [bind_eq_ok] at h
    obtain ⟨bv, hbv, h⟩ := h
    rw [bind_eq_ok] at h
    obtain ⟨wal, hwal, h⟩ := h
    cases h
    exact ⟨verified, bv, wal, hverified, hbv, hwal, rfl⟩
  · rintro ⟨verified, bv, wal, hverified, hbv, hwal, rfl⟩
    rw [hverified, hbv, hwal]
    rfl

/-! ## What the report says -/

section Report

variable {sorted : List LedgerEntry} {verified : LedgerVerification} {bv : BlockVerification}
  {wal : Option WalHealth}

/-- The sequence numbers of the entries are 0, 1, 2, … as far as the report can tell. -/
def SequenceComplete (sorted : List LedgerEntry) : Prop :=
  sequenceFindings (sorted.map LedgerEntry.sequenceNumber) = ([], [])

theorem isEmpty_findings {sorted : List LedgerEntry} {gaps : List (Nat × Nat)} {dups : List Nat}
    (h : sequenceFindings (sorted.map LedgerEntry.sequenceNumber) = (gaps, dups)) :
    (gaps.isEmpty && dups.isEmpty) = true ↔ SequenceComplete sorted := by
  rw [Bool.and_eq_true, List.isEmpty_iff, List.isEmpty_iff, SequenceComplete, h, Prod.mk.injEq]

/-- The entry results of a report are those of the entries, except for the wiring. -/
theorem buildReport_entries :
    (buildReport sorted verified bv wal).entries.hashFailures = verified.hashFailures
      ∧ (buildReport sorted verified bv wal).entries.signatureFailures
        = verified.signatureFailures
      ∧ (buildReport sorted verified bv wal).entries.unresolvedKeyFailures
        = verified.unresolvedKeyFailures
      ∧ (buildReport sorted verified bv wal).entries.valid = verified.valid
      ∧ (buildReport sorted verified bv wal).chainSummary.headHash = verified.headHash := by
  rw [buildReport]
  rcases sequenceFindings (sorted.map LedgerEntry.sequenceNumber) with ⟨gaps, dups⟩
  dsimp only
  cases gaps.isEmpty && dups.isEmpty <;> exact ⟨rfl, rfl, rfl, rfl, rfl⟩

theorem buildReport_chainEvaluated :
    (buildReport sorted verified bv wal).chainEvaluated = true ↔ SequenceComplete sorted := by
  rw [buildReport]
  cases hfound : sequenceFindings (sorted.map LedgerEntry.sequenceNumber)
  exact isEmpty_findings hfound

/-- **When a report passes.** -/
theorem buildReport_passed : (buildReport sorted verified bv wal).passed = true ↔
    verified.valid = true ∧ SequenceComplete sorted ∧ conflictingEventIds sorted = []
      ∧ payloadHashFormatFailures sorted = [] ∧ bv.valid = true ∧ walDamaged wal = false := by
  have hvalid : (buildReport sorted verified bv wal).entries.valid = verified.valid :=
    buildReport_entries.2.2.2.1
  have hevaluated : (buildReport sorted verified bv wal).chainEvaluated = true
      ↔ SequenceComplete sorted := buildReport_chainEvaluated
  rw [← hvalid, ← hevaluated]
  rw [buildReport]
  rcases sequenceFindings (sorted.map LedgerEntry.sequenceNumber) with ⟨gaps, dups⟩
  simp only [Bool.and_eq_true, List.isEmpty_iff, Bool.not_eq_true']
  constructor
  · rintro ⟨⟨⟨⟨⟨⟨h1, h2⟩, -⟩, h3⟩, h4⟩, h5⟩, h6⟩
    exact ⟨h1, h2, h3, h4, h5, h6⟩
  · rintro ⟨h1, h2, h3, h4, h5, h6⟩
    exact ⟨⟨⟨⟨⟨⟨h1, h2⟩, h2.2⟩, h3⟩, h4⟩, h5⟩, h6⟩

end Report

/-- **A report that passes saw a whole chain**: the sorted entries extend the heads of an
empty ledger in order, each stands every check alone, and the reported head is theirs. -/
theorem verifyLedger_passed {serde : WalSerde} {entries : List LedgerEntry}
    {blocks : List LedgerBlock} {keys : SigningKeyStore c} {walDir : Option Directory}
    {report : VerificationReport}
    (h : verifyLedger serde entries blocks keys walDir = .ok report)
    (hp : report.passed = true) :
    (∃ chain, ChainState.fromEntries (sortBySequence entries) = .ok chain)
      ∧ (∀ e ∈ sortBySequence entries, Checked keys e)
      ∧ report.chainSummary.headHash
        = EntryCheck.headOf genesisEntryHash (sortBySequence entries) := by
  obtain ⟨verified, bv, wal, hverified, -, -, rfl⟩ := verifyLedger_eq_ok.mp h
  have hvalid := (buildReport_passed.mp hp).1
  rw [buildReport_entries.2.2.2.2]
  rw [verifyEntries, bind_eq_ok] at hverified
  obtain ⟨st, hst, hverified⟩ := hverified
  cases hverified
  obtain ⟨-, hchain, hall, hhead⟩ := EntryCheck.checkEntries_valid hst hvalid
  exact ⟨⟨_, hchain⟩, hall, hhead⟩

/-! ## Entries that verify -/

/-- Sorting leaves accepted entries as they are. -/
theorem sortBySequence_eq_self {es : List LedgerEntry} {chain : ChainState}
    (h : ChainState.fromEntries es = .ok chain) : sortBySequence es = es := by
  refine List.mergeSort_of_pairwise ?_
  have hmap := (ChainState.fromEntries_sequence h).1
  have hsorted : (es.map LedgerEntry.sequenceNumber).Pairwise (· < ·) := by
    rw [hmap]
    exact List.pairwise_lt_range
  rw [List.pairwise_map] at hsorted
  exact hsorted.imp fun hlt => decide_eq_true (Nat.le_of_lt hlt)

theorem sequencePairs_range' (gaps : List (Nat × Nat)) (dups : List Nat) (a n : Nat) :
    sequencePairs gaps dups (List.range' a n) = (gaps, dups) := by
  induction n generalizing a with
  | zero => rfl
  | succ n ih =>
      cases n with
      | zero => rfl
      | succ n =>
          rw [List.range'_succ, List.range'_succ, sequencePairs, if_neg (by omega),
            if_neg (by omega), ← List.range'_succ]
          exact ih (a + 1)

/-- Accepted entries have neither gaps nor duplicates. -/
theorem sequenceComplete_of_fromEntries {es : List LedgerEntry} {chain : ChainState}
    (h : ChainState.fromEntries es = .ok chain) : SequenceComplete es := by
  rw [SequenceComplete, (ChainState.fromEntries_sequence h).1, List.range_eq_range',
    sequenceFindings, sequencePairs_range']
  cases es.length with
  | zero => rfl
  | succ n => rw [List.range'_succ]; rfl

/-- Distinct event ids conflict with none. -/
theorem conflictingEventIds_eq_nil {es : List LedgerEntry}
    (h : (es.map LedgerEntry.eventId).Nodup) : conflictingEventIds es = [] := by
  rw [conflictingEventIds, List.filter_eq_nil_iff]
  intro id _
  have hone : (entriesOfEvent es id).length ≤ 1 := by
    rw [entriesOfEvent, ← List.countP_eq_length_filter]
    have hcount := List.nodup_iff_count_le_one.mp h id
    rw [List.count, List.countP_map] at hcount
    exact hcount
  have hdedup := (List.dedup_sublist
    ((entriesOfEvent es id).map LedgerEntry.eventPayloadHash)).length_le
  rw [List.length_map] at hdedup
  simp only [decide_eq_true_eq, Nat.not_lt]
  omega

theorem payloadHashFormatFailures_eq_nil {es : List LedgerEntry} :
    payloadHashFormatFailures es = []
      ↔ ∀ e ∈ es, payloadHashIsWellFormed e.eventPayloadHash = true := by
  rw [payloadHashFormatFailures, List.map_eq_nil_iff, List.filter_eq_nil_iff]
  refine forall₂_congr fun e _ => ?_
  rw [Bool.not_eq_true', Bool.not_eq_false]

/-- Accepted entries that stand every check verify. -/
theorem verifyEntries_valid {keys : SigningKeyStore c} {es : List LedgerEntry}
    {chain : ChainState} (h : ChainState.fromEntries es = .ok chain)
    (hes : ∀ e ∈ es, Checked keys e) :
    ∃ verified, verifyEntries es keys = .ok verified ∧ verified.valid = true := by
  have hstart : EntryCheck.start.valid = true := rfl
  obtain ⟨st, hst, hv, -, -⟩ := EntryCheck.checkEntries_ok hstart h hes
  refine ⟨st.toVerification es.length, ?_, hv⟩
  rw [verifyEntries, hst]
  rfl

/-- **An accepted chain of checked entries with distinct event ids passes as far as its
blocks do.** -/
theorem verifyLedger_accepts (serde : WalSerde) {entries : List LedgerEntry}
    {blocks : List LedgerBlock} {keys : SigningKeyStore c} {chain : ChainState}
    {bv : BlockVerification} (hchain : ChainState.fromEntries entries = .ok chain)
    (hes : ∀ e ∈ entries, Checked keys e)
    (hph : ∀ e ∈ entries, payloadHashIsWellFormed e.eventPayloadHash = true)
    (hids : (entries.map LedgerEntry.eventId).Nodup)
    (hbv : verifyBlocks keys entries blocks = .ok bv) :
    ∃ report, verifyLedger serde entries blocks keys none = .ok report
      ∧ (report.passed = true ↔ bv.valid = true) ∧ report.blocks = bv
      ∧ report.sequenceGaps = [] := by
  obtain ⟨verified, hverified, hvalid⟩ := verifyEntries_valid hchain hes
  have hsort := sortBySequence_eq_self hchain
  have hcomplete := sequenceComplete_of_fromEntries hchain
  refine ⟨buildReport entries verified bv none, verifyLedger_eq_ok.mpr
    ⟨verified, bv, none, ?_, ?_, rfl, by rw [hsort]⟩, ?_, ?_, ?_⟩
  · rw [hsort, hverified]
  · rw [hsort, hbv]
  · rw [buildReport_passed]
    constructor
    · exact fun h => h.2.2.2.2.1
    · exact fun h => ⟨hvalid, hcomplete, conflictingEventIds_eq_nil hids,
        payloadHashFormatFailures_eq_nil.mpr hph, h, rfl⟩
  · rw [buildReport]
  · rw [buildReport, hcomplete]

end Agenomic.Ledger
