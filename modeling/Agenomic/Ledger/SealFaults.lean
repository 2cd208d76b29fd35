import Agenomic.Ledger.AppendFaults

/-!
# Seals that fail and are tried again

A block is pushed to the chain in memory only after its line is written and flushed. A
seal that fails in between leaves the line of a block the chain does not count, and the
retry seals the same range once more.

As with appends, `Harmless` is the condition on a seal that keeps the log in order, and
**`partitions_run`** says that along a run of such seals the block log parses at every
point and its blocks partition a prefix of the ledger.
-/

namespace Agenomic.Ledger

open Lib BlockChain

variable {c : Crypto}

/-- A directory with a block chain open on it. -/
structure SealWorld where
  dir : Directory
  chain : BlockChain

/-- What may happen to an open block chain. A retry is one more seal. -/
inductive SealOp (c : Crypto) where
  | seal (keys : SigningKeyStore c) (io : LogOutcome) (ids : SealInputs)
      (entries : List LedgerEntry)
  | reopen

namespace SealWorld

/-- An operation; a chain that cannot be reopened stays as it is. -/
def step (w : SealWorld) : SealOp c → SealWorld
  | .seal keys io ids entries =>
      let (chain, dir, _) := w.chain.seal keys w.dir io ids entries
      { dir, chain }
  | .reopen =>
      match BlockChain.open w.dir with
      | .ok chain => { w with chain }
      | .error _ => w

/-- The log parses, and its blocks cover consecutive ranges from 0 on, each linked to the
one before it. -/
def Partitions (w : SealWorld) : Prop :=
  ∃ chain, BlockChain.open w.dir = .ok chain ∧ Tiles 0 genesisBlockHash chain.blocks

/-- The log holds the lines of exactly the blocks the open chain counts. -/
def InStep (w : SealWorld) : Prop :=
  w.dir.content blockLogFile = blockLines.encode w.chain.blocks

/-- A write that fails stops clean on the line of the sealed block. -/
def StopsClean (w : SealWorld) (keys : SigningKeyStore c) (io : LogOutcome) (ids : SealInputs)
    (entries : List LedgerEntry) : Prop :=
  ∀ b k, sealBlock keys w.chain ids entries = .ok b → io.write = some k →
    blockLines.StopsClean b k

/-- An operation that does no harm to the log. -/
def Harmless (w : SealWorld) : SealOp c → Prop
  | .seal keys io ids entries =>
      io.LeavesNothing ∨ (w.InStep ∧ w.StopsClean keys io ids entries)
  | .reopen => True

theorem partitions_iff {w : SealWorld} : w.Partitions
    ↔ blockLines.Reads (Tiles 0 genesisBlockHash) (w.dir.content blockLogFile) := by
  constructor
  · rintro ⟨chain, hopen, htiles⟩
    exact ⟨chain.blocks, open_eq_ok.mp hopen, htiles⟩
  · rintro ⟨blocks, hread, htiles⟩
    exact ⟨⟨blocks⟩, open_eq_ok.mpr hread, htiles⟩

theorem partitions_seal {w : SealWorld} {keys : SigningKeyStore c} {io : LogOutcome}
    {ids : SealInputs} {entries : List LedgerEntry} (h : w.Partitions)
    (hop : w.Harmless (.seal keys io ids entries)) :
    (w.step (.seal keys io ids entries)).Partitions := by
  rw [partitions_iff] at h ⊢
  rcases hseal : w.chain.seal keys w.dir io ids entries with ⟨chain, d, res⟩
  rw [step, hseal]
  show blockLines.Reads _ (d.content blockLogFile)
  rcases seal_spec hseal with hd | ⟨b, hb, hd⟩
  · rw [hd]
    exact h
  rw [hd]
  rcases hop with hnone | ⟨hstep, hstop⟩
  · rw [hnone.written, List.append_nil]
    exact h
  -- the log holds the blocks of the chain, so these are the ones that tile
  rw [InStep] at hstep
  obtain ⟨blocks, hread, htiles⟩ := h
  rw [hstep, LineFormat.read_encode] at hread
  cases hread
  have hmore := tiles_sealBlock hb htiles
  rw [hstep]
  rcases io.written_eq (blockLines.line b) with hw | ⟨k, hk, hw⟩ | hw
  · rw [hw, List.append_nil]
    exact ⟨_, LineFormat.read_encode _, htiles⟩
  · rw [hw]
    exact LineFormat.reads_take (hstop b k hb hk) htiles hmore
  · rw [hw, ← LineFormat.encode_snoc]
    exact ⟨_, LineFormat.read_encode _, hmore⟩

theorem partitions_step (w : SealWorld) (op : SealOp c) (h : w.Partitions) (hop : w.Harmless op) :
    (w.step op).Partitions := by
  cases op with
  | «seal» keys io ids entries => exact partitions_seal h hop
  | reopen =>
      have hkept := partitions_iff.mp h
      obtain ⟨chain, hopen, -⟩ := h
      rw [step, hopen]
      exact partitions_iff.mpr hkept

/-- **Along a run of harmless operations the block log partitions a prefix of the ledger at
every point.** -/
theorem partitions_run {w : SealWorld} (hw : w.Partitions) {ops : List (SealOp c)}
    (h : Along step Harmless w ops) : (run step w ops).Partitions :=
  run_invariant Partitions partitions_step hw h

/-! ## An empty block log -/

/-- The block chain of an empty directory. -/
def fresh : SealWorld := ⟨∅, ⟨[]⟩⟩

theorem partitions_fresh : fresh.Partitions := ⟨⟨[]⟩, rfl, trivial⟩

/-- A hash of the right length. -/
def flatHash (_ : Bytes) : Bytes := List.replicate 32 7

/-- The inputs of the attempts to seal one block. -/
def attempt (n : Nat) : SealInputs := ⟨s!"block-{n}", ⟨"2026-07-06T12:00:00.000000Z"⟩⟩

theorem sealBlock_firstEntry (ids : SealInputs) : ∃ b, sealBlock (exerciseKeys flatHash) ⟨[]⟩ ids
    [firstEntry flatHash .unverified] = .ok b := by
  obtain ⟨root, hroot⟩ : ∃ root, merkleRoot (Crypto.exercise flatHash)
      [entryHashFromDigest (List.replicate 32 7)] = .ok root := by
    have hraw : hashToBytes (entryHashFromDigest (List.replicate 32 7))
        = .ok (List.replicate 32 7) := by decide +kernel
    rw [merkleRoot, if_neg (List.cons_ne_nil _ _), merkleLeaves, hraw]
    exact ⟨_, rfl⟩
  exact sealBlock_ok rfl rfl hroot rfl fun _ => rfl

/-- A seal whose flush fails leaves its line, and the chain as it was. -/
theorem step_unsynced {w : SealWorld} {keys : SigningKeyStore c} {ids : SealInputs}
    {entries : List LedgerEntry} {b : LedgerBlock}
    (h : sealBlock keys w.chain ids entries = .ok b) :
    w.step (.seal keys LedgerWorld.unsynced ids entries)
      = ⟨w.dir.appendBytes blockLogFile (blockLines.line b), w.chain⟩ := by
  rw [step, BlockChain.seal, h]
  rfl

theorem step_ok {w : SealWorld} {keys : SigningKeyStore c} {ids : SealInputs}
    {entries : List LedgerEntry} {b : LedgerBlock}
    (h : sealBlock keys w.chain ids entries = .ok b) :
    w.step (.seal keys .ok ids entries)
      = ⟨w.dir.appendBytes blockLogFile (blockLines.line b), ⟨w.chain.blocks ++ [b]⟩⟩ := by
  rw [step, BlockChain.seal, h]
  rfl

/-- A seal after one whose flush failed leaves two blocks over the same range. -/
theorem not_partitions_retried : ¬ (run step fresh
    [.seal (exerciseKeys flatHash) LedgerWorld.unsynced (attempt 1)
        [firstEntry flatHash .unverified],
      .seal (exerciseKeys flatHash) .ok (attempt 2)
        [firstEntry flatHash .unverified]]).Partitions := by
  obtain ⟨b₁, h₁⟩ := sealBlock_firstEntry (attempt 1)
  obtain ⟨b₂, h₂⟩ := sealBlock_firstEntry (attempt 2)
  rw [run_cons, run_cons, run_nil, step_unsynced (w := fresh) h₁, step_ok h₂, partitions_iff,
    Directory.content_eq (Directory.appendBytes_self _ _ _),
    Directory.content_eq (Directory.appendBytes_self _ _ _)]
  have hlines : fresh.dir.content blockLogFile ++ blockLines.line b₁ ++ blockLines.line b₂
      = blockLines.encode [b₁, b₂] := by
    rw [LineFormat.encode, List.flatMap_cons, List.flatMap_singleton]
    rfl
  rw [hlines]
  rintro ⟨blocks, hread, htiles⟩
  rw [LineFormat.read_encode] at hread
  cases hread
  -- the second block would have to start behind the first
  have hstart : b₂.startSequenceNumber = 0 :=
    (Except.ok.inj (sealBlock_spec h₂).2.2.2.2).symm
  obtain ⟨-, -, -, hnext, -, -, -⟩ := htiles
  omega

/-- A seal that cannot open the log, one that succeeds, and a restart. -/
theorem partitions_run_unopened : (run step fresh
    [.seal (exerciseKeys flatHash) ⟨false, none, true, true⟩ (attempt 1)
        [firstEntry flatHash .unverified],
      .seal (exerciseKeys flatHash) .ok (attempt 2) [firstEntry flatHash .unverified],
      .reopen]).Partitions := by
  have hsame : fresh.step (.seal (exerciseKeys flatHash) ⟨false, none, true, true⟩ (attempt 1)
      [firstEntry flatHash .unverified]) = fresh := by
    obtain ⟨b, hb⟩ := sealBlock_firstEntry (attempt 1)
    rw [step, BlockChain.seal, show fresh.chain = ⟨[]⟩ from rfl, hb]
    rfl
  refine partitions_run partitions_fresh ⟨.inl (.inl rfl), ?_⟩
  rw [hsame]
  exact ⟨.inr ⟨rfl, fun _ _ _ h => by cases h⟩, trivial, trivial⟩

end SealWorld

end Agenomic.Ledger
