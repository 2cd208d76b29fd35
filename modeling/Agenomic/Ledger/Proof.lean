import Agenomic.Ledger.Verify
import Agenomic.Lib.JsonPretty

/-!
# Evidence proof bundles

A bundle is a directory that can be verified on its own: the entries of one run or of
the whole ledger, the blocks that cover any of them, the public keys of everyone who
signed any of it, some indexes and reports, and a signed manifest with the hash of
every file.

`assembleBundle` writes one and `verifyBundle` reads it back, with the keys in it as the
only keys it knows. The paths of optional artifacts are read through an argument.
-/

namespace Agenomic.Ledger

open Lib

/-! ## Reports and records as JSON

The verification report as it is written to a file, and the two kinds of record that
travel in arrays: blocks and public keys. What is read back is a list of them
(`LedgerBlock.ofValue_toValue`, `PublicKeyEntry.ofValue_toValue`); nothing reads a report.
-/

/-! ### The report -/

def strValues (xs : List String) : Json := .arr (xs.map .str)

def natValues (xs : List Nat) : Json := .arr (xs.map fun n => .num n)

def pairValue (p : Nat × Nat) : Json := .arr [.num p.1, .num p.2]

def optNatValue (o : Option Nat) : Json := Json.orNull (Json.ofOptNat o)

def BlockVerification.toValue (v : BlockVerification) : Json := .obj
  [("block_count", .num v.blockCount), ("chain_valid", .bool v.chainValid),
    ("broken_at_block", Json.orNull (Json.ofOptStr v.brokenAtBlock)),
    ("merkle_mismatches", strValues v.merkleMismatches),
    ("entries_hash_mismatches", strValues v.entriesHashMismatches),
    ("hash_failures", strValues v.hashFailures),
    ("signature_failures", strValues v.signatureFailures),
    ("unverifiable_ranges", strValues v.unverifiableRanges),
    ("coverage_gaps", .arr (v.coverageGaps.map pairValue)),
    ("range_overlaps", strValues v.rangeOverlaps),
    ("unsealed_tail", Json.orNull (v.unsealedTail.map pairValue)), ("valid", .bool v.valid)]

def LedgerVerification.toValue (v : LedgerVerification) : Json := .obj
  [("entry_count", .num v.entryCount), ("chain_valid", .bool v.chainValid),
    ("broken_at_sequence", optNatValue v.brokenAtSequence),
    ("hash_failures", natValues v.hashFailures),
    ("signature_failures", natValues v.signatureFailures),
    ("unresolved_key_failures", natValues v.unresolvedKeyFailures),
    ("revoked_key_warnings", natValues v.revokedKeyWarnings), ("head_hash", .str v.headHash),
    ("valid", .bool v.valid)]

def WalHealth.toValue (h : WalHealth) : Json := .obj
  [("segments", .num h.segments), ("damaged_segments", strValues h.damagedSegments),
    ("quarantined_segments", strValues h.quarantinedSegments),
    ("pending_records", .num h.pendingRecords)]

def ChainSummary.toValue (s : ChainSummary) : Json := .obj
  [("head_hash", .str s.headHash), ("run_count", .num s.runCount),
    ("runs", .obj (s.runs.map fun r => (r.1, .obj
      [("entry_count", .num r.2.entryCount), ("head_hash", .str r.2.headHash)])))]

def VerificationReport.toValue (r : VerificationReport) : Json := .obj
  ([("report_version", .str r.reportVersion), ("passed", .bool r.passed),
    ("entry_count", .num r.entryCount),
    ("first_invalid_sequence", optNatValue r.firstInvalidSequence),
    ("chain_evaluated", .bool r.chainEvaluated), ("entries", r.entries.toValue),
    ("sequence_gaps", .arr (r.sequenceGaps.map pairValue)),
    ("duplicate_sequences", natValues r.duplicateSequences),
    ("duplicate_event_ids", strValues r.duplicateEventIds),
    ("conflicting_event_ids", strValues r.conflictingEventIds),
    ("payload_hash_format_failures", natValues r.payloadHashFormatFailures),
    ("blocks", r.blocks.toValue)]
  ++ Json.optField "wal" (r.wal.map WalHealth.toValue)
  ++ [("chain_summary", r.chainSummary.toValue), ("recommendations", strValues r.recommendations)])

/-! ## Blocks -/

namespace LedgerBlock

def toValue (b : LedgerBlock) : Json := .obj b.fields

def ofValue (v : Json) : Option LedgerBlock := do
  let fs ← Json.members fieldNames v
  ofFields fs

theorem ofValue_toValue (b : LedgerBlock) : ofValue b.toValue = some b := by
  simp only [ofValue, toValue, Json.members_obj b.keys_fields_nodup, Option.bind_eq_bind,
    Option.bind_some, ofFields_fields]

end LedgerBlock

/-! ## Public keys -/

/-- The name a key status has in a file. -/
def KeyStatus.toStr : KeyStatus → String
  | .active => "active"
  | .rotated => "rotated"
  | .revoked => "revoked"

def KeyStatus.ofStr (s : String) : Option KeyStatus :=
  if s = "active" then some .active
  else if s = "rotated" then some .rotated
  else if s = "revoked" then some .revoked
  else none

theorem KeyStatus.ofStr_toStr (s : KeyStatus) : ofStr s.toStr = some s := by
  cases s <;> decide

/-- A public key as it travels in a bundle. -/
structure PublicKeyEntry where
  keyId : String
  status : KeyStatus
  publicKeyPem : String
  deriving DecidableEq, Repr

namespace PublicKeyEntry

def fields (k : PublicKeyEntry) : Json.Fields :=
  [("key_id", .str k.keyId), ("status", .str k.status.toStr),
    ("public_key_pem", .str k.publicKeyPem)]

def toValue (k : PublicKeyEntry) : Json := .obj k.fields

def ofValue (v : Json) : Option PublicKeyEntry := do
  let fs ← Json.members ["key_id", "status", "public_key_pem"] v
  let keyId ← Json.getStr "key_id" fs
  let status ← KeyStatus.ofStr (← Json.getStr "status" fs)
  let publicKeyPem ← Json.getStr "public_key_pem" fs
  some { keyId, status, publicKeyPem }

theorem ofValue_toValue (k : PublicKeyEntry) : ofValue k.toValue = some k := by
  have hfs : Json.members ["key_id", "status", "public_key_pem"] (.obj k.fields) = some k.fields :=
    Json.members_obj (show ["key_id", "status", "public_key_pem"].Nodup by decide)
  have h1 : Json.getStr "key_id" k.fields = some k.keyId := Json.getStr_of_lookup rfl
  have h2 : Json.getStr "status" k.fields = some k.status.toStr := Json.getStr_of_lookup rfl
  have h3 : Json.getStr "public_key_pem" k.fields = some k.publicKeyPem :=
    Json.getStr_of_lookup rfl
  simp only [ofValue, toValue, hfs, h1, h2, h3, KeyStatus.ofStr_toStr, Option.bind_eq_bind,
    Option.bind_some]

end PublicKeyEntry

end Agenomic.Ledger

namespace Agenomic.Ledger

open Lib

/-- Manifest schema version of a proof bundle. -/
def proofManifestVersion : String := "agenomic.ledger.proof/v0.1"

/-- Domain separator for the manifest digest. -/
def ledgerProofDomain : Bytes := asciiBytes "AGENOMIC-LEDGER-PROOF-v1" ++ [0]

def legalNotice : String :=
  "Technical integrity evidence only; legal probative value must be validated by counsel."

/-- Status stamped on locally signed bundles. -/
def localProbativeStatus : String := "non-probative (locally signed)"

def proofManifestFile : String := "ledger_manifest.json"

/-- One file of a bundle. -/
structure ManifestMember where
  path : String
  blake3 : String
  bytes : Nat
  deriving DecidableEq, Repr

namespace ManifestMember

def fields (m : ManifestMember) : Json.Fields :=
  [("path", .str m.path), ("blake3", .str m.blake3), ("bytes", .num m.bytes)]

def toValue (m : ManifestMember) : Json := .obj m.fields

def ofValue (v : Json) : Option ManifestMember := do
  let fs ← Json.members ["path", "blake3", "bytes"] v
  let path ← Json.getStr "path" fs
  let blake3 ← Json.getStr "blake3" fs
  let bytes ← Json.getNat "bytes" fs
  some { path, blake3, bytes }

theorem ofValue_toValue (m : ManifestMember) : ofValue m.toValue = some m := by
  have hfs : Json.members ["path", "blake3", "bytes"] (.obj m.fields) = some m.fields :=
    Json.members_obj (show ["path", "blake3", "bytes"].Nodup by decide)
  have h1 : Json.getStr "path" m.fields = some m.path := Json.getStr_of_lookup rfl
  have h2 : Json.getStr "blake3" m.fields = some m.blake3 := Json.getStr_of_lookup rfl
  have h3 : Json.getNat "bytes" m.fields = some m.bytes := Json.getNat_of_lookup rfl
  simp only [ofValue, toValue, hfs, h1, h2, h3, Option.bind_eq_bind, Option.bind_some]

end ManifestMember

/-- The signed manifest at the root of a bundle. -/
structure ProofManifest where
  manifestVersion : String
  createdAt : String
  runId : Option String
  probativeStatus : String
  legalNotice : String
  members : List ManifestMember
  absentMembers : List String
  signingKeyId : String
  signature : String
  deriving DecidableEq, Repr

namespace ProofManifest

def fields (m : ProofManifest) : Json.Fields :=
  [("manifest_version", .str m.manifestVersion), ("created_at", .str m.createdAt)]
  ++ Json.optField "run_id" (Json.ofOptStr m.runId)
  ++ [("probative_status", .str m.probativeStatus), ("legal_notice", .str m.legalNotice),
    ("members", .arr (m.members.map ManifestMember.toValue)),
    ("absent_members", strValues m.absentMembers), ("signing_key_id", .str m.signingKeyId),
    ("signature", .str m.signature)]

def fieldNames : List String :=
  ["manifest_version", "created_at", "run_id", "probative_status", "legal_notice", "members",
    "absent_members", "signing_key_id", "signature"]

def ofFields (fs : Json.Fields) : Option ProofManifest := do
  let manifestVersion ← Json.getStr "manifest_version" fs
  let createdAt ← Json.getStr "created_at" fs
  let runId ← Json.getOptStr "run_id" fs
  let probativeStatus ← Json.getStr "probative_status" fs
  let legalNotice ← Json.getStr "legal_notice" fs
  let members ← Json.getList "members" ManifestMember.ofValue fs
  let absentMembers ← Json.getList "absent_members" Json.asStr fs
  let signingKeyId ← Json.getStr "signing_key_id" fs
  let signature ← Json.getStr "signature" fs
  some { manifestVersion, createdAt, runId, probativeStatus, legalNotice, members, absentMembers,
         signingKeyId, signature }

/-- The manifest file. -/
def toVecPretty (m : ProofManifest) : Bytes := utf8Encode (Json.pretty (.obj m.fields))

/-- A manifest read back from its file. -/
def fromStr (raw : Bytes) : CliResult ProofManifest :=
  match utf8Decode raw with
  | none => .error (.io proofManifestFile "stream did not contain valid UTF-8")
  | some text =>
      match Json.parseRecord fieldNames ofFields text with
      | none => .error (.schema "parse ledger_manifest.json")
      | some m => .ok m

/-- What the signature of a manifest is over. -/
def digest (c : Crypto) (m : ProofManifest) : Bytes :=
  c.blake3 (ledgerProofDomain
    ++ utf8Encode (canonicalJson (.obj (m.fields.filter fun f => f.1 != "signature"))))

/-- The manifest once it is signed. -/
def withSignature (m : ProofManifest) (signature : String) : ProofManifest := { m with signature }

theorem ofFields_fields (m : ProofManifest) : ofFields m.fields = some m := by
  have h1 : Json.getStr "manifest_version" m.fields = some m.manifestVersion :=
    Json.getStr_of_lookup (by simp [fields])
  have h2 : Json.getStr "created_at" m.fields = some m.createdAt :=
    Json.getStr_of_lookup (by simp [fields])
  have h3 : Json.getOptStr "run_id" m.fields = some m.runId :=
    Json.getOptStr_of_lookup (by simp [fields])
  have h4 : Json.getStr "probative_status" m.fields = some m.probativeStatus :=
    Json.getStr_of_lookup (by simp [fields])
  have h5 : Json.getStr "legal_notice" m.fields = some m.legalNotice :=
    Json.getStr_of_lookup (by simp [fields])
  have h6 : Json.getList "members" ManifestMember.ofValue m.fields = some m.members :=
    Json.getList_of_lookup ManifestMember.ofValue_toValue (by simp [fields])
  have habsent : Json.lookup "absent_members" m.fields
      = some (.arr (m.absentMembers.map Json.str)) := by simp [fields, strValues]
  have h7 : Json.getList "absent_members" Json.asStr m.fields = some m.absentMembers :=
    Json.getList_of_lookup (fun s => (rfl : Json.asStr (.str s) = some s)) habsent
  have h8 : Json.getStr "signing_key_id" m.fields = some m.signingKeyId :=
    Json.getStr_of_lookup (by simp [fields])
  have h9 : Json.getStr "signature" m.fields = some m.signature :=
    Json.getStr_of_lookup (by simp [fields])
  simp only [ofFields, h1, h2, h3, h4, h5, h6, h7, h8, h9, Option.bind_eq_bind, Option.bind_some]

theorem keys_fields_nodup (m : ProofManifest) : (Json.keys m.fields).Nodup := by
  have hsub : (Json.keys m.fields).Sublist fieldNames := by
    simp only [fields, Json.keys_append]
    exact ((List.Sublist.refl ["manifest_version", "created_at"]).append
      (Json.keys_optField_sublist "run_id" _)).append (List.Sublist.refl _)
  exact (show fieldNames.Nodup by decide).sublist hsub

/-- A manifest survives its file. -/
theorem fromStr_toVecPretty (m : ProofManifest) : fromStr m.toVecPretty = .ok m := by
  have hparse : Json.parseRecord fieldNames ofFields (Json.pretty (.obj m.fields)) = some m := by
    simp only [Json.parseRecord, Json.parse_pretty, Option.bind_eq_bind, Option.bind_some,
      Json.members_obj m.keys_fields_nodup, ofFields_fields]
  rw [fromStr, toVecPretty, utf8Decode_utf8Encode]
  dsimp only
  rw [hparse]

/-- The signature is not part of what it is over. -/
theorem digest_withSignature (c : Crypto) (m : ProofManifest) (signature : String) :
    (m.withSignature signature).digest c = m.digest c := by
  have hfields : (m.withSignature signature).fields.filter (fun f => f.1 != "signature")
      = m.fields.filter fun f => f.1 != "signature" := by
    simp only [fields, withSignature, List.filter_append]
    rfl
  rw [digest, digest, hfields]

end ProofManifest

/-- The paths of the optional artifacts. -/
structure BundleExtras where
  replayReport : Option String
  policyResults : Option String
  riskSummary : Option String
  deriving DecidableEq, Repr

/-! ## Assembling -/

variable {c : Crypto}

/-- The entries a bundle is about. -/
def scopedEntries (runId : Option String) (entries : List LedgerEntry) : List LedgerEntry :=
  match runId with
  | some run => entries.filter fun e => e.runId == run
  | none => entries

/-- An entry is in the range of a block. -/
def LedgerBlock.covers (b : LedgerBlock) (e : LedgerEntry) : Bool :=
  b.startSequenceNumber ≤ e.sequenceNumber && e.sequenceNumber ≤ b.endSequenceNumber

/-- The blocks that cover any of the entries. -/
def scopedBlocks (entriesInScope : List LedgerEntry) (blocks : List LedgerBlock) :
    List LedgerBlock :=
  blocks.filter fun b => entriesInScope.any b.covers

def runChainFile : String := "run_chain.jsonl"

def ledgerBlocksFile : String := "ledger_blocks.json"

def publicKeysFile : String := "public_keys.json"

/-- The entries, one on a line. -/
def runChainJsonl (entriesInScope : List LedgerEntry) : Bytes := entryLines.encode entriesInScope

def ledgerBlocksJson (blocks : List LedgerBlock) : Bytes :=
  utf8Encode (Json.pretty (.arr (blocks.map LedgerBlock.toValue)))

/-- For each block the hashes of the entries in its range. -/
def merkleProofsJson (entries : List LedgerEntry) (blocks : List LedgerBlock) : Bytes :=
  utf8Encode (Json.pretty (.arr (blocks.map fun b => .obj
    [("block_id", .str b.blockId), ("merkle_root", .str b.merkleRoot),
      ("entry_hashes", strValues ((entries.filter b.covers).map LedgerEntry.entryHash))])))

/-- The signatures of entries and blocks, with who made them. -/
def signaturesJson (entriesInScope : List LedgerEntry) (blocks : List LedgerBlock) : Bytes :=
  utf8Encode (Json.pretty (.obj
    [("entries", .arr (entriesInScope.map fun e =>
        .arr [.num e.sequenceNumber, .str e.signingKeyId, .str e.signature])),
      ("blocks", .arr (blocks.map fun b =>
        .arr [.str b.blockId, .str b.signingKeyId, .str b.signature]))]))

/-- Every key that signed an entry or a block, and the active one. -/
def bundleKeyIds (entriesInScope : List LedgerEntry) (blocks : List LedgerBlock) (active : String) :
    List String :=
  distinctSorted (entriesInScope.map LedgerEntry.signingKeyId ++ blocks.map LedgerBlock.signingKeyId
    ++ [active])

/-- A key as it is exported. -/
def exportKey (keys : SigningKeyStore c) (keyId : String) : CliResult PublicKeyEntry := do
  let vk ← keys.verifyingKey keyId
  let status ← keys.keyStatus keyId
  .ok { keyId, status, publicKeyPem := c.toPublicKeyPem vk }

def publicKeysJson (keys : List PublicKeyEntry) : Bytes :=
  utf8Encode (Json.pretty (.arr (keys.map PublicKeyEntry.toValue)))

/-- The optional artifacts that are there, and the names of those that are not. -/
def extraMembers (read : String → CliResult Bytes) : List (String × Option String) →
    CliResult (List (String × Bytes) × List String)
  | [] => .ok ([], [])
  | (name, some path) :: rest => do
      let bytes ← read path
      let (members, absent) ← extraMembers read rest
      .ok ((name, bytes) :: members, absent)
  | (name, none) :: rest => do
      let (members, absent) ← extraMembers read rest
      .ok (members, name :: absent)

/-- The optional artifacts by their names in the bundle. -/
def BundleExtras.sources (extras : BundleExtras) : List (String × Option String) :=
  [("replay_report.json", extras.replayReport), ("policy_results.json", extras.policyResults),
    ("risk_summary.md", extras.riskSummary)]

/-- The files of a bundle with their contents, and the names of the absent artifacts. -/
def bundleMembers (serde : WalSerde) (keys : SigningKeyStore c) (read : String → CliResult Bytes)
    (runId : Option String) (entries : List LedgerEntry) (blocks : List LedgerBlock)
    (extras : BundleExtras) : CliResult (List (String × Bytes) × List String) :=
  let entriesInScope := scopedEntries runId entries
  if entriesInScope = [] then
    .error (.schema (match runId with
      | some run => s!"no entries for run '{run}'"
      | none => "the ledger is empty"))
  else do
    let blocksInScope := scopedBlocks entriesInScope blocks
    -- the chain claim is global, so the report is over the whole ledger
    let report ← verifyLedger serde entries blocks keys none
    let active ← keys.activeKeyId
    let publicKeys ← (bundleKeyIds entriesInScope blocksInScope active).mapM (exportKey keys)
    let (found, absent) ← extraMembers read extras.sources
    .ok ([(runChainFile, runChainJsonl entriesInScope),
      (ledgerBlocksFile, ledgerBlocksJson blocksInScope),
      ("merkle_proofs.json", merkleProofsJson entries blocksInScope),
      ("signatures.json", signaturesJson entriesInScope blocksInScope),
      (publicKeysFile, publicKeysJson publicKeys),
      ("verification_report.json", utf8Encode (Json.pretty report.toValue))] ++ found, absent)

/-- Write files. -/
def writeMembers (d : Directory) (members : List (String × Bytes)) : Directory :=
  members.foldl (fun d m => d.insert m.1 m.2) d

/-- The manifest over the files of a bundle, before it is signed. -/
def unsignedManifest (c : Crypto) (now : Timestamp) (runId : Option String)
    (members : List (String × Bytes)) (absent : List String) (signingKeyId : String) :
    ProofManifest where
  manifestVersion := proofManifestVersion
  createdAt := deterministicTimestamp now
  runId := runId
  probativeStatus := localProbativeStatus
  legalNotice := legalNotice
  members := members.map fun m => ⟨m.1, prefixedBlake3 c m.2, m.2.length⟩
  absentMembers := absent
  signingKeyId := signingKeyId
  signature := ""

/-- The signed manifest over the files of a bundle. -/
def signManifest (keys : SigningKeyStore c) (now : Timestamp) (runId : Option String)
    (members : List (String × Bytes)) (absent : List String) : CliResult ProofManifest := do
  let signingKeyId ← keys.activeKeyId
  let manifest := unsignedManifest c now runId members absent signingKeyId
  let (signerId, signature) ← keys.sign (manifest.digest c)
  if signerId ≠ signingKeyId then
    .error (.ledgerConflict
      s!"active key changed during bundle assembly ({signingKeyId} -> {signerId}); retry")
  else .ok (manifest.withSignature signature)

/-- Assemble a bundle into a directory. -/
def assembleBundle (serde : WalSerde) (keys : SigningKeyStore c)
    (read : String → CliResult Bytes) (now : Timestamp) (d : Directory) (runId : Option String)
    (entries : List LedgerEntry) (blocks : List LedgerBlock) (extras : BundleExtras) :
    Directory × CliResult ProofManifest :=
  match bundleMembers serde keys read runId entries blocks extras with
  | .error e => (d, .error e)
  | .ok (members, absent) =>
      let d := writeMembers d members
      match signManifest keys now runId members absent with
      | .error e => (d, .error e)
      | .ok manifest => (d.insert proofManifestFile manifest.toVecPretty, .ok manifest)

/-! ## Verifying -/

/-- A resolver over the keys of a bundle; it never signs. -/
def embeddedKeyResolver (keys : Std.ExtTreeMap String (KeyStatus × c.VerifyingKey)) :
    SigningKeyStore c where
  activeKeyId := .error (.ledgerKeyStore "a proof bundle can verify but never sign")
  sign _ := .error (.ledgerKeyStore "a proof bundle can verify but never sign")
  verifyingKey keyId :=
    match keys[keyId]? with
    | some (_, vk) => .ok vk
    | none => .error (.ledgerKeyStore s!"unknown key {keyId}")
  keyStatus keyId :=
    match keys[keyId]? with
    | some (status, _) => .ok status
    | none => .error (.ledgerKeyStore s!"unknown key {keyId}")

/-- Collect the exported keys, a later one over an earlier one of the same id. -/
def collectKeys (keys : Std.ExtTreeMap String (KeyStatus × c.VerifyingKey)) :
    List PublicKeyEntry → CliResult (Std.ExtTreeMap String (KeyStatus × c.VerifyingKey))
  | [] => .ok keys
  | k :: ks =>
      match c.fromPublicKeyPem k.publicKeyPem with
      | none => .error (.schema s!"parse public key {k.keyId}")
      | some vk => collectKeys (keys.insert k.keyId (k.status, vk)) ks

/-- The resolver of a bundle's key file. -/
def embeddedKeysFromJson (c : Crypto) (raw : List Char) : CliResult (SigningKeyStore c) :=
  match Json.parse raw >>= Json.listOf PublicKeyEntry.ofValue with
  | none => .error (.schema "parse public_keys.json")
  | some parsed => do
      let keys ← collectKeys ∅ parsed
      .ok (embeddedKeyResolver keys)

/-- What reading the files of a manifest finds. -/
structure BundleFiles where
  memberHashFailures : List String
  missingMembers : List String
  contents : Directory

/-- Read one file. -/
def BundleFiles.read (c : Crypto) (d : Directory) (found : BundleFiles) (m : ManifestMember) :
    BundleFiles :=
  match d[m.path]? with
  | none => { found with missingMembers := found.missingMembers ++ [m.path] }
  | some bytes =>
      { found with
        memberHashFailures :=
          if prefixedBlake3 c bytes ≠ m.blake3 then found.memberHashFailures ++ [m.path]
          else found.memberHashFailures
        contents := found.contents.insert m.path bytes }

/-- The signature of a manifest verifies under the key it names. -/
def manifestSignatureValid (keys : SigningKeyStore c) (m : ProofManifest) : Bool :=
  match keys.verifyingKey m.signingKeyId with
  | .error _ => false
  | .ok vk =>
      match hexDecode m.signature.toList with
      | none => false
      | some raw => if raw.length ≠ 64 then false else c.verifyStrict vk (m.digest c) raw

/-- The entries of a bundle. -/
def bundledEntries (contents : Directory) : CliResult (List LedgerEntry) :=
  match entryLines.readLines 0 (lines (utf8DecodeLossy (contents.content runChainFile))) with
  | .ok es => .ok es
  | .error _ => .error (.ledgerIntegrity "corrupt run_chain.jsonl line")

/-- The blocks of a bundle. -/
def bundledBlocks (contents : Directory) : CliResult (List LedgerBlock) :=
  match contents[ledgerBlocksFile]? with
  | none => .ok []
  | some raw =>
      match utf8Decode raw >>= Json.parse >>= Json.listOf LedgerBlock.ofValue with
      | none => .error (.schema "parse ledger_blocks.json")
      | some bs => .ok bs

/-- Result of verifying a bundle. -/
structure BundleVerification where
  manifestSignatureValid : Bool
  memberHashFailures : List String
  missingMembers : List String
  probativeStatus : String
  ledger : VerificationReport
  passed : Bool

/-- What counts of a report on a bundle, which may start in mid-chain and hold blocks over
entries it does not have. -/
def entryIntegrity (r : VerificationReport) : Bool :=
  r.entries.hashFailures.isEmpty && r.entries.signatureFailures.isEmpty
    && r.entries.unresolvedKeyFailures.isEmpty && r.conflictingEventIds.isEmpty
    && r.duplicateSequences.isEmpty && r.blocks.merkleMismatches.isEmpty
    && r.blocks.entriesHashMismatches.isEmpty && r.blocks.hashFailures.isEmpty
    && r.blocks.signatureFailures.isEmpty

/-- Verify a bundle with the keys in it. -/
def verifyBundle (c : Crypto) (serde : WalSerde) (d : Directory) :
    CliResult BundleVerification :=
  match d[proofManifestFile]? with
  | none => .error (.io proofManifestFile "no such file")
  | some raw => do
      let manifest ← ProofManifest.fromStr raw
      let files := manifest.members.foldl (BundleFiles.read c d) ⟨[], [], ∅⟩
      match files.contents[publicKeysFile]? with
      | none => .error (.schema "bundle has no public_keys.json")
      | some keysRaw => do
          let resolver ← embeddedKeysFromJson c (utf8DecodeLossy keysRaw)
          let entries ← bundledEntries files.contents
          let blocks ← bundledBlocks files.contents
          let ledger ← verifyLedger serde entries blocks resolver none
          let signed := manifestSignatureValid resolver manifest
          .ok { manifestSignatureValid := signed
                memberHashFailures := files.memberHashFailures
                missingMembers := files.missingMembers
                probativeStatus := manifest.probativeStatus
                ledger
                passed := signed && files.memberHashFailures.isEmpty
                  && files.missingMembers.isEmpty && entryIntegrity ledger }

end Agenomic.Ledger
