import Agenomic.Ledger.Ledger

/-!
# Sealed blocks

A block commits a contiguous range of the global chain under one Merkle root and
one signature, and links the block before it. `BlockChain` is the append-only log
`blocks.jsonl` with its blocks in memory.

**`BlockChain.seal_ok`** is all that is used of a seal: the new block starts where
the last one ended, commits to exactly the entries it was given and is signed by
the active key, and the log grows by its line.
-/

namespace Agenomic.Ledger

open Lib

def blockSchemaVersion : String := "agenomic.ledger.block/v0.1"

/-- Domain separator for block digests. -/
def ledgerBlockDomain : Bytes := asciiBytes "AGENOMIC-LEDGER-BLOCK-v1" ++ [0]

/-- File name of the append-only block log. -/
def blockLogFile : String := "blocks.jsonl"

/-- What the first block has for a previous hash. -/
def genesisBlockHash : String := genesisEntryHash

/-- The fields excluded from a block's hashed and signed core. -/
def blockVolatileFields : List String := ["block_hash", "signature"]

/-- A signed block over the entries from one sequence number to another. -/
structure LedgerBlock where
  schemaVersion : String
  blockId : String
  tenantId : Option String
  startSequenceNumber : Nat
  endSequenceNumber : Nat
  entryCount : Nat
  entriesHash : String
  merkleRoot : String
  previousBlockHash : String
  createdAt : String
  sealedAt : String
  hashAlgorithm : String
  signatureAlgorithm : String
  blockHash : String
  signature : String
  signingKeyId : String
  deriving DecidableEq, Repr

namespace LedgerBlock

/-- The fields of the serialized block. -/
def fields (b : LedgerBlock) : Json.Fields :=
  [("schema_version", .str b.schemaVersion), ("block_id", .str b.blockId)]
  ++ Json.optField "tenant_id" (Json.ofOptStr b.tenantId)
  ++ [("start_sequence_number", .num b.startSequenceNumber),
    ("end_sequence_number", .num b.endSequenceNumber), ("entry_count", .num b.entryCount),
    ("entries_hash", .str b.entriesHash), ("merkle_root", .str b.merkleRoot),
    ("previous_block_hash", .str b.previousBlockHash), ("created_at", .str b.createdAt),
    ("sealed_at", .str b.sealedAt), ("hash_algorithm", .str b.hashAlgorithm),
    ("signature_algorithm", .str b.signatureAlgorithm), ("block_hash", .str b.blockHash),
    ("signature", .str b.signature), ("signing_key_id", .str b.signingKeyId)]

/-- The names a serialized block uses, in their order. -/
def fieldNames : List String :=
  ["schema_version", "block_id", "tenant_id", "start_sequence_number", "end_sequence_number",
    "entry_count", "entries_hash", "merkle_root", "previous_block_hash", "created_at", "sealed_at",
    "hash_algorithm", "signature_algorithm", "block_hash", "signature", "signing_key_id"]

/-- The members read back by name. -/
def ofFields (fs : Json.Fields) : Option LedgerBlock := do
  let schemaVersion ← Json.getStr "schema_version" fs
  let blockId ← Json.getStr "block_id" fs
  let tenantId ← Json.getOptStr "tenant_id" fs
  let startSequenceNumber ← Json.getNat "start_sequence_number" fs
  let endSequenceNumber ← Json.getNat "end_sequence_number" fs
  let entryCount ← Json.getNat "entry_count" fs
  let entriesHash ← Json.getStr "entries_hash" fs
  let merkleRoot ← Json.getStr "merkle_root" fs
  let previousBlockHash ← Json.getStr "previous_block_hash" fs
  let createdAt ← Json.getStr "created_at" fs
  let sealedAt ← Json.getStr "sealed_at" fs
  let hashAlgorithm ← Json.getStr "hash_algorithm" fs
  let signatureAlgorithm ← Json.getStr "signature_algorithm" fs
  let blockHash ← Json.getStr "block_hash" fs
  let signature ← Json.getStr "signature" fs
  let signingKeyId ← Json.getStr "signing_key_id" fs
  some { schemaVersion, blockId, tenantId, startSequenceNumber, endSequenceNumber, entryCount,
         entriesHash, merkleRoot, previousBlockHash, createdAt, sealedAt, hashAlgorithm,
         signatureAlgorithm, blockHash, signature, signingKeyId }

theorem ofFields_fields (b : LedgerBlock) : ofFields b.fields = some b := by
  have h1 : Json.getStr "schema_version" b.fields = some b.schemaVersion :=
    Json.getStr_of_lookup (by simp [fields])
  have h2 : Json.getStr "block_id" b.fields = some b.blockId :=
    Json.getStr_of_lookup (by simp [fields])
  have h3 : Json.getOptStr "tenant_id" b.fields = some b.tenantId :=
    Json.getOptStr_of_lookup (by simp [fields])
  have h4 : Json.getNat "start_sequence_number" b.fields = some b.startSequenceNumber :=
    Json.getNat_of_lookup (by simp [fields])
  have h5 : Json.getNat "end_sequence_number" b.fields = some b.endSequenceNumber :=
    Json.getNat_of_lookup (by simp [fields])
  have h6 : Json.getNat "entry_count" b.fields = some b.entryCount :=
    Json.getNat_of_lookup (by simp [fields])
  have h7 : Json.getStr "entries_hash" b.fields = some b.entriesHash :=
    Json.getStr_of_lookup (by simp [fields])
  have h8 : Json.getStr "merkle_root" b.fields = some b.merkleRoot :=
    Json.getStr_of_lookup (by simp [fields])
  have h9 : Json.getStr "previous_block_hash" b.fields = some b.previousBlockHash :=
    Json.getStr_of_lookup (by simp [fields])
  have h10 : Json.getStr "created_at" b.fields = some b.createdAt :=
    Json.getStr_of_lookup (by simp [fields])
  have h11 : Json.getStr "sealed_at" b.fields = some b.sealedAt :=
    Json.getStr_of_lookup (by simp [fields])
  have h12 : Json.getStr "hash_algorithm" b.fields = some b.hashAlgorithm :=
    Json.getStr_of_lookup (by simp [fields])
  have h13 : Json.getStr "signature_algorithm" b.fields = some b.signatureAlgorithm :=
    Json.getStr_of_lookup (by simp [fields])
  have h14 : Json.getStr "block_hash" b.fields = some b.blockHash :=
    Json.getStr_of_lookup (by simp [fields])
  have h15 : Json.getStr "signature" b.fields = some b.signature :=
    Json.getStr_of_lookup (by simp [fields])
  have h16 : Json.getStr "signing_key_id" b.fields = some b.signingKeyId :=
    Json.getStr_of_lookup (by simp [fields])
  simp only [ofFields, h1, h2, h3, h4, h5, h6, h7, h8, h9, h10, h11, h12, h13, h14, h15, h16,
    Option.bind_eq_bind, Option.bind_some]

theorem keys_fields_nodup (b : LedgerBlock) : (Json.keys b.fields).Nodup := by
  have hsub : (Json.keys b.fields).Sublist fieldNames := by
    simp only [fields, Json.keys_append]
    exact ((List.Sublist.refl ["schema_version", "block_id"]).append
      (Json.keys_optField_sublist "tenant_id" _)).append (List.Sublist.refl _)
  exact (show fieldNames.Nodup by decide).sublist hsub

/-- The fields that are hashed and signed. -/
def coreFields (b : LedgerBlock) : Json.Fields :=
  b.fields.filter fun f => !blockVolatileFields.contains f.1

/-- The canonical JSON string of the core. -/
def canonicalCore (b : LedgerBlock) : List Char := canonicalJson (.obj b.coreFields)

variable (c : Crypto)

/-- The domain-separated digest of the canonical core. -/
def computeDigest (b : LedgerBlock) : Bytes :=
  c.blake3 (ledgerBlockDomain ++ utf8Encode b.canonicalCore)

/-- Whether the stored hash matches the recomputed one. -/
def hashIsValid (b : LedgerBlock) : Bool := entryHashFromDigest (b.computeDigest c) == b.blockHash

/-- Verify the detached signature over the block digest. -/
def verifySignature (b : LedgerBlock) (vk : c.VerifyingKey) : CliResult Unit :=
  match hexDecode b.signature.toList with
  | none => .error (.ledgerSignatureInvalid b.blockId)
  | some raw =>
      if raw.length ≠ 64 then .error (.ledgerSignatureInvalid b.blockId)
      else if c.verifyStrict vk (b.computeDigest c) raw then .ok ()
      else .error (.ledgerSignatureInvalid b.blockId)

/-- The block with its hash set. -/
def withHash (b : LedgerBlock) (h : String) : LedgerBlock := { b with blockHash := h }

/-- The block once it is signed. -/
def withSignature (b : LedgerBlock) (signature : String) : LedgerBlock := { b with signature }

variable {c}

/-- Neither the hash nor the signature of a block is in its digest. -/
theorem computeDigest_sealed (b : LedgerBlock) (h sig : String) :
    ((b.withHash h).withSignature sig).computeDigest c = b.computeDigest c := by
  have hcore : ((b.withHash h).withSignature sig).coreFields = b.coreFields := by
    simp only [coreFields, fields, withHash, withSignature, List.filter_append]
    rfl
  rw [computeDigest, computeDigest, canonicalCore, canonicalCore, hcore]

end LedgerBlock

/-- Blocks as the log writes them. -/
def blockLines : LineFormat LedgerBlock :=
  Json.lineFormat LedgerBlock.fields LedgerBlock.fieldNames LedgerBlock.ofFields
    LedgerBlock.keys_fields_nodup LedgerBlock.ofFields_fields

variable {c : Crypto}

/-- The flat commitment to a list of entry hashes. -/
def entriesHash (c : Crypto) (entryHashes : List String) : String :=
  prefixedBlake3 c (utf8Encode (canonicalJson (.arr (entryHashes.map .str))))

/-- The blocks of a block log. -/
structure BlockChain where
  blocks : List LedgerBlock
  deriving DecidableEq, Repr

/-- What a seal takes from the clock and the generator of identifiers. -/
structure SealInputs where
  blockId : String
  now : Timestamp
  deriving DecidableEq, Repr

namespace BlockChain

/-- Open the block chain of a directory. -/
def «open» (d : Directory) : CliResult BlockChain :=
  match d[blockLogFile]? with
  | none => .ok ⟨[]⟩
  | some raw =>
      match blockLines.read raw with
      | .ok blocks => .ok ⟨blocks⟩
      | .error .notUtf8 => .error (.io blockLogFile "stream did not contain valid UTF-8")
      | .error (.badLine n) => .error (.ledgerIntegrity s!"corrupt block log line {n}")

/-- The first sequence number no block covers. -/
def nextStartSequence (bc : BlockChain) : CliResult Nat :=
  match bc.blocks.getLast? with
  | some b => addU64 b.endSequenceNumber 1
  | none => .ok 0

/-- The hash of the latest block. -/
def headHash (bc : BlockChain) : String :=
  match bc.blocks.getLast? with
  | some b => b.blockHash
  | none => genesisBlockHash

/-- Every entry follows the one before it. -/
def checkContiguous : List LedgerEntry → CliResult Unit
  | a :: b :: rest => do
      let next ← addU64 a.sequenceNumber 1
      if b.sequenceNumber ≠ next then
        .error (.ledgerIntegrity
          s!"block seal range is not contiguous at sequence {b.sequenceNumber}")
      else checkContiguous (b :: rest)
  | _ => .ok ()

/-- The block over a range of entries before it is hashed. -/
def unsealedBlock (c : Crypto) (bc : BlockChain) (ids : SealInputs) (first last : LedgerEntry)
    (hashes : List String) (root signingKeyId : String) : LedgerBlock where
  schemaVersion := blockSchemaVersion
  blockId := ids.blockId
  tenantId := none
  startSequenceNumber := first.sequenceNumber
  endSequenceNumber := last.sequenceNumber
  entryCount := hashes.length
  entriesHash := entriesHash c hashes
  merkleRoot := root
  previousBlockHash := bc.headHash
  createdAt := first.timestamp
  sealedAt := deterministicTimestamp ids.now
  hashAlgorithm := "blake3"
  signatureAlgorithm := "ed25519"
  blockHash := ""
  signature := ""
  signingKeyId := signingKeyId

/-- The signed block over the uncovered tail of the chain. -/
def sealBlock (keys : SigningKeyStore c) (bc : BlockChain) (ids : SealInputs) :
    List LedgerEntry → CliResult LedgerBlock
  | [] => .error (.ledgerConflict "cannot seal an empty block")
  | first :: rest => do
      let expectedStart ← bc.nextStartSequence
      if first.sequenceNumber ≠ expectedStart then
        .error (.ledgerIntegrity (s!"block seal must start at sequence {expectedStart}, " ++
          s!"got {first.sequenceNumber}"))
      else do
        checkContiguous (first :: rest)
        let last := (first :: rest).getLast (List.cons_ne_nil _ _)
        let hashes := (first :: rest).map LedgerEntry.entryHash
        let root ← Ledger.merkleRoot c hashes
        let signingKeyId ← keys.activeKeyId
        let block := unsealedBlock c bc ids first last hashes root signingKeyId
        let digest := block.computeDigest c
        let (signerId, signature) ← keys.sign digest
        if signerId ≠ signingKeyId then
          .error (.ledgerConflict
            s!"active key changed during block seal ({signingKeyId} -> {signerId}); retry")
        else .ok ((block.withHash (entryHashFromDigest digest)).withSignature signature)

/-- Seal entries into one block and persist it. -/
def «seal» (keys : SigningKeyStore c) (bc : BlockChain) (d : Directory) (io : LogOutcome)
    (ids : SealInputs) (entries : List LedgerEntry) :
    BlockChain × Directory × CliResult LedgerBlock :=
  match sealBlock keys bc ids entries with
  | .error e => (bc, d, .error e)
  | .ok block =>
      if !io.opened then (bc, d, .error (.io blockLogFile "open failed"))
      else match io.write with
        | some k =>
            (bc, d.appendBytes blockLogFile ((blockLines.line block).take k),
              .error (.io blockLogFile "write failed"))
        | none =>
            let d := d.appendBytes blockLogFile (blockLines.line block)
            if !io.synced then (bc, d, .error (.io blockLogFile "fsync failed"))
            else (⟨bc.blocks ++ [block]⟩, d, .ok block)

/-! ## What a seal makes -/

theorem open_eq_ok {d : Directory} {bc : BlockChain} :
    BlockChain.open d = .ok bc ↔ blockLines.read (d.content blockLogFile) = .ok bc.blocks := by
  rw [Directory.content, BlockChain.open]
  cases hd : d[blockLogFile]? with
  | none =>
      rw [Option.getD_none, LineFormat.read_nil, Except.ok.injEq, Except.ok.injEq]
      exact ⟨fun h => congrArg BlockChain.blocks h, fun h => congrArg BlockChain.mk h⟩
  | some raw =>
      rw [Option.getD_some]
      dsimp only
      cases blockLines.read raw with
      | ok bs =>
          dsimp only
          rw [Except.ok.injEq, Except.ok.injEq]
          exact ⟨fun h => congrArg BlockChain.blocks h, fun h => congrArg BlockChain.mk h⟩
      | error e =>
          constructor
          · intro h
            cases e <;> cases h
          · intro h
            cases h

theorem open_eq {d : Directory} {bs : List LedgerBlock}
    (h : d.content blockLogFile = blockLines.encode bs) : BlockChain.open d = .ok ⟨bs⟩ :=
  open_eq_ok.mpr (by rw [h, LineFormat.read_encode])

/-- A block commits to a range of entries. -/
structure Commits (c : Crypto) (b : LedgerBlock) (entries : List LedgerEntry) : Prop where
  ends : entries.getLast?.map LedgerEntry.sequenceNumber = some b.endSequenceNumber
  starts : entries.head?.map LedgerEntry.sequenceNumber = some b.startSequenceNumber
  entryCount : b.entryCount = entries.length
  entriesHash : b.entriesHash = entriesHash c (entries.map LedgerEntry.entryHash)
  merkleRoot : merkleRoot c (entries.map LedgerEntry.entryHash) = .ok b.merkleRoot

theorem checkContiguous_sequence {e : LedgerEntry} {es : List LedgerEntry}
    (h : checkContiguous (e :: es) = .ok ()) :
    (e :: es).map LedgerEntry.sequenceNumber = List.range' e.sequenceNumber (es.length + 1) := by
  induction es generalizing e with
  | nil => rfl
  | cons e' es ih =>
      rw [checkContiguous, bind_eq_ok] at h
      obtain ⟨next, hnext, h⟩ := h
      split at h
      · cases h
      · rename_i hseq
        rw [not_not] at hseq
        have hsucc : next = e.sequenceNumber + 1 := by
          rw [addU64] at hnext
          split at hnext <;> cases hnext
          rfl
        rw [List.map_cons, ih h, hseq, hsucc, List.length_cons]
        exact List.range'_succ.symm

/-- A range that is sealed is contiguous. -/
theorem sealBlock_contiguous {keys : SigningKeyStore c} {bc : BlockChain} {ids : SealInputs}
    {entries : List LedgerEntry} {b : LedgerBlock} (h : sealBlock keys bc ids entries = .ok b) :
    checkContiguous entries = .ok () := by
  rcases entries with _ | ⟨first, rest⟩
  · cases h
  rw [sealBlock, bind_eq_ok] at h
  obtain ⟨start, -, h⟩ := h
  split at h
  · cases h
  rw [bind_eq_ok] at h
  obtain ⟨⟨⟩, hcontig, -⟩ := h
  exact hcontig

/-- The signature of a block is the one the keystore makes over its digest. -/
def SignedBlock (keys : SigningKeyStore c) (b : LedgerBlock) : Prop :=
  keys.activeKeyId = .ok b.signingKeyId
    ∧ keys.sign (b.computeDigest c) = .ok (b.signingKeyId, b.signature)

/-- **What sealing a range makes.** -/
theorem sealBlock_spec {keys : SigningKeyStore c} {bc : BlockChain} {ids : SealInputs}
    {entries : List LedgerEntry} {b : LedgerBlock} (h : sealBlock keys bc ids entries = .ok b) :
    Commits c b entries ∧ SignedBlock keys b ∧ b.hashIsValid c = true
      ∧ b.previousBlockHash = bc.headHash ∧ bc.nextStartSequence = .ok b.startSequenceNumber := by
  rcases entries with _ | ⟨first, rest⟩
  · cases h
  rw [sealBlock, bind_eq_ok] at h
  obtain ⟨start, hstart, h⟩ := h
  split at h
  · cases h
  rename_i hfirst
  rw [not_not] at hfirst
  rw [bind_eq_ok] at h
  obtain ⟨⟨⟩, -, h⟩ := h
  rw [bind_eq_ok] at h
  obtain ⟨root, hroot, h⟩ := h
  rw [bind_eq_ok] at h
  obtain ⟨id, hid, h⟩ := h
  rw [bind_eq_ok] at h
  obtain ⟨⟨signer, sig⟩, hsig, h⟩ := h
  dsimp only at h
  split at h
  · cases h
  rename_i hsigner
  rw [not_not] at hsigner
  subst hsigner
  generalize hblock : unsealedBlock c bc ids first _ _ root signer = block at h hsig
  cases h
  have hdigest := block.computeDigest_sealed (c := c)
    (entryHashFromDigest (block.computeDigest c)) sig
  have hid' : block.signingKeyId = signer := by rw [← hblock, unsealedBlock]
  refine ⟨⟨?_, ?_, ?_, ?_, ?_⟩, ⟨?_, ?_⟩, ?_, ?_, ?_⟩
  · rw [← hblock, List.getLast?_eq_some_getLast (List.cons_ne_nil _ _)]
    rfl
  · rw [← hblock]
    rfl
  · rw [← hblock]
    exact List.length_map _
  · rw [← hblock]
    rfl
  · rw [hroot, ← hblock]
    rfl
  · rw [hid, ← hid']
    rfl
  · rw [hdigest, hsig, ← hid']
    rfl
  · rw [LedgerBlock.hashIsValid, hdigest]
    exact beq_self_eq_true _
  · rw [← hblock]
    rfl
  · rw [hstart, ← hfirst, ← hblock]
    rfl

/-- A contiguous range from the next number on can be sealed when its root comes out and
the keystore signs. -/
theorem sealBlock_ok {keys : SigningKeyStore c} {bc : BlockChain} {ids : SealInputs}
    {first : LedgerEntry} {rest : List LedgerEntry} {root id : String} {sig : Bytes → String}
    (hstart : bc.nextStartSequence = .ok first.sequenceNumber)
    (hcontig : checkContiguous (first :: rest) = .ok ())
    (hroot : Ledger.merkleRoot c ((first :: rest).map LedgerEntry.entryHash) = .ok root)
    (hid : keys.activeKeyId = .ok id) (hsig : ∀ m, keys.sign m = .ok (id, sig m)) :
    ∃ b, sealBlock keys bc ids (first :: rest) = .ok b := by
  rw [sealBlock, hstart]
  simp only [bind, Except.bind, hcontig, hroot, hid, hsig]
  rw [if_neg (not_not.mpr rfl), if_neg (not_not.mpr rfl)]
  exact ⟨_, rfl⟩

/-- The sealed range is numbered from its start to its end. -/
theorem Commits.sequence {b : LedgerBlock} {entries : List LedgerEntry} (h : Commits c b entries)
    (hcontig : checkContiguous entries = .ok ()) :
    entries.map LedgerEntry.sequenceNumber = List.range' b.startSequenceNumber entries.length
      ∧ b.endSequenceNumber + 1 = b.startSequenceNumber + entries.length := by
  rcases entries with _ | ⟨first, rest⟩
  · cases h.starts
  have hstart : first.sequenceNumber = b.startSequenceNumber := Option.some.inj h.starts
  have hseq := checkContiguous_sequence hcontig
  rw [hstart] at hseq
  refine ⟨hseq, ?_⟩
  have hlast := congrArg List.getLast? hseq
  rw [List.getLast?_map, h.ends, List.getLast?_range'] at hlast
  rw [if_neg (Nat.succ_ne_zero _)] at hlast
  have := Option.some.inj hlast
  rw [List.length_cons]
  omega

/-- Blocks over consecutive ranges from a sequence number on, each linked to the one
before it. -/
def Tiles (start : Nat) (prevHash : String) : List LedgerBlock → Prop
  | [] => True
  | b :: bs => b.startSequenceNumber = start ∧ b.startSequenceNumber ≤ b.endSequenceNumber
      ∧ b.previousBlockHash = prevHash ∧ Tiles (b.endSequenceNumber + 1) b.blockHash bs

/-- The sequence number behind some blocks, and the hash of the last of them. -/
def nextOf (start : Nat) (bs : List LedgerBlock) : Nat :=
  (bs.getLast?.map fun b => b.endSequenceNumber + 1).getD start

def hashOf (prevHash : String) (bs : List LedgerBlock) : String :=
  (bs.getLast?.map LedgerBlock.blockHash).getD prevHash

theorem nextOf_cons (start : Nat) (b : LedgerBlock) (bs : List LedgerBlock) :
    nextOf start (b :: bs) = nextOf (b.endSequenceNumber + 1) bs := by
  cases bs with
  | nil => rfl
  | cons b₁ bs => rw [nextOf, nextOf, List.getLast?_cons_cons, List.getLast?_cons]; rfl

theorem hashOf_cons (prevHash : String) (b : LedgerBlock) (bs : List LedgerBlock) :
    hashOf prevHash (b :: bs) = hashOf b.blockHash bs := by
  cases bs with
  | nil => rfl
  | cons b₁ bs => rw [hashOf, hashOf, List.getLast?_cons_cons, List.getLast?_cons]; rfl

theorem tiles_snoc {start : Nat} {prevHash : String} {bs : List LedgerBlock} {b : LedgerBlock} :
    Tiles start prevHash (bs ++ [b]) ↔ Tiles start prevHash bs
      ∧ b.startSequenceNumber = nextOf start bs ∧ b.startSequenceNumber ≤ b.endSequenceNumber
      ∧ b.previousBlockHash = hashOf prevHash bs := by
  induction bs generalizing start prevHash with
  | nil =>
      constructor
      · rintro ⟨hstart, hle, hprev, -⟩
        exact ⟨trivial, hstart, hle, hprev⟩
      · rintro ⟨-, hstart, hle, hprev⟩
        exact ⟨hstart, hle, hprev, trivial⟩
  | cons b₀ bs ih =>
      rw [List.cons_append, Tiles, Tiles, ih, nextOf_cons, hashOf_cons]
      simp only [and_assoc]

/-- The next number follows the last block, which ends before the last 64-bit number. -/
theorem nextStartSequence_eq_ok {bc : BlockChain} {n : Nat} (h : bc.nextStartSequence = .ok n) :
    n = nextOf 0 bc.blocks
      ∧ ∀ b, bc.blocks.getLast? = some b → b.endSequenceNumber + 1 < 18446744073709551616 := by
  rw [nextStartSequence] at h
  rw [nextOf]
  cases hlast : bc.blocks.getLast? with
  | none =>
      rw [hlast] at h
      cases h
      exact ⟨rfl, fun b hb => by cases hb⟩
  | some last =>
      rw [hlast] at h
      dsimp only at h
      rw [addU64] at h
      split at h
      · rename_i hlt
        cases h
        exact ⟨rfl, fun b hb => by cases hb; exact hlt⟩
      · cases h

/-- **A sealed block continues the tiling of its chain.** -/
theorem tiles_sealBlock {keys : SigningKeyStore c} {bc : BlockChain} {ids : SealInputs}
    {entries : List LedgerEntry} {b : LedgerBlock} (h : sealBlock keys bc ids entries = .ok b)
    (hbc : Tiles 0 genesisBlockHash bc.blocks) :
    Tiles 0 genesisBlockHash (bc.blocks ++ [b]) := by
  obtain ⟨hcommits, -, -, hprev, hnext⟩ := sealBlock_spec h
  have hrange := (hcommits.sequence (sealBlock_contiguous h)).2
  have hpos : 0 < entries.length := by
    rcases entries with _ | ⟨first, rest⟩
    · cases h
    · exact Nat.succ_pos _
  refine tiles_snoc.mpr ⟨hbc, (nextStartSequence_eq_ok hnext).1, by omega, ?_⟩
  rw [hprev, headHash, hashOf]
  cases bc.blocks.getLast? <;> rfl

/-- **What a seal does to the log**: nothing, or it adds what was written of the line of a
sealed block. -/
theorem seal_spec {keys : SigningKeyStore c} {bc bc' : BlockChain} {d d' : Directory}
    {io : LogOutcome} {ids : SealInputs} {entries : List LedgerEntry} {res : CliResult LedgerBlock}
    (h : bc.seal keys d io ids entries = (bc', d', res)) :
    d'.content blockLogFile = d.content blockLogFile
      ∨ ∃ b, sealBlock keys bc ids entries = .ok b
        ∧ d'.content blockLogFile = d.content blockLogFile ++ io.written (blockLines.line b) := by
  have hcontent : ∀ bytes, (d.appendBytes blockLogFile bytes).content blockLogFile
      = d.content blockLogFile ++ bytes := fun bytes =>
    Directory.content_eq (Directory.appendBytes_self d blockLogFile bytes)
  rw [BlockChain.seal] at h
  split at h
  · cases h
    exact .inl rfl
  rename_i block hblock
  refine .inr ⟨block, hblock, ?_⟩
  rw [LogOutcome.written]
  cases ho : io.opened with
  | false =>
      simp only [ho, Bool.not_false, ↓reduceIte] at h ⊢
      cases h
      rw [List.append_nil]
  | true =>
      cases hk : io.write with
      | some k =>
          simp only [ho, hk, Bool.not_true, Bool.false_eq_true, ↓reduceIte] at h ⊢
          cases h
          exact hcontent _
      | none =>
          simp only [ho, hk, Bool.not_true, Bool.false_eq_true, ↓reduceIte] at h ⊢
          split at h <;> cases h <;> exact hcontent _

/-- **A seal that succeeds adds its block to the chain and its line to the log.** -/
theorem seal_ok {keys : SigningKeyStore c} {bc bc' : BlockChain} {d d' : Directory}
    {io : LogOutcome} {ids : SealInputs} {entries : List LedgerEntry} {b : LedgerBlock}
    (h : bc.seal keys d io ids entries = (bc', d', .ok b)) :
    sealBlock keys bc ids entries = .ok b ∧ bc' = ⟨bc.blocks ++ [b]⟩
      ∧ d' = d.appendBytes blockLogFile (blockLines.line b) := by
  rw [BlockChain.seal] at h
  split at h
  · cases h
  rename_i block hblock
  split at h
  · cases h
  split at h
  · cases h
  dsimp only at h
  split at h
  · cases h
  · cases h
    exact ⟨hblock, rfl, rfl⟩

end BlockChain

end Agenomic.Ledger
