import Agenomic.Ledger.Canonical

/-!
# The ledger entry: the single record type of the ledger

A draft is a producer event on its way in; an entry is a sealed, signed,
chain-linked record. The hashed and signed surface of an entry is its canonical
JSON without the four volatile fields.

**`canonicalCore_injective`**: that surface determines every field that is not
volatile. Sorting loses the order of the fields but not what they say, because
the names are distinct; so the fields are read back by name.
-/

namespace Agenomic.Ledger

open Lib

def ledgerSchemaVersion : String := "agenomic.ledger/v0.1"

/-- The fields excluded from the hashed and signed core. -/
def volatileFields : List String :=
  ["entry_hash", "signature", "durability_status", "verification_status"]

/-- Where an entry entered the ledger from. -/
inductive IngestionSource where
  | tracking | atep | governance | replay | cli
  deriving DecidableEq, Repr

def IngestionSource.label : IngestionSource → String
  | .tracking => "tracking"
  | .atep => "atep"
  | .governance => "governance"
  | .replay => "replay"
  | .cli => "cli"

def IngestionSource.ofLabel (s : String) : Option IngestionSource :=
  [IngestionSource.tracking, .atep, .governance, .replay, .cli].find? fun x => x.label == s

/-- The durability state machine. -/
inductive DurabilityStatus where
  | received | queued | walPersisted | canonicalized | hashed | signed | ledgerAppended
  | cloudSyncPending | cloudSynced | verified | failed | deadLettered
  deriving DecidableEq, Repr

def DurabilityStatus.label : DurabilityStatus → String
  | .received => "received"
  | .queued => "queued"
  | .walPersisted => "wal_persisted"
  | .canonicalized => "canonicalized"
  | .hashed => "hashed"
  | .signed => "signed"
  | .ledgerAppended => "ledger_appended"
  | .cloudSyncPending => "cloud_sync_pending"
  | .cloudSynced => "cloud_synced"
  | .verified => "verified"
  | .failed => "failed"
  | .deadLettered => "dead_lettered"

def DurabilityStatus.ofLabel (s : String) : Option DurabilityStatus :=
  [DurabilityStatus.received, .queued, .walPersisted, .canonicalized, .hashed, .signed,
    .ledgerAppended, .cloudSyncPending, .cloudSynced, .verified, .failed, .deadLettered].find?
    fun x => x.label == s

inductive VerificationStatus where
  | unverified | verified | failed
  deriving DecidableEq, Repr

def VerificationStatus.label : VerificationStatus → String
  | .unverified => "unverified"
  | .verified => "verified"
  | .failed => "failed"

def VerificationStatus.ofLabel (s : String) : Option VerificationStatus :=
  [VerificationStatus.unverified, .verified, .failed].find? fun x => x.label == s

/-- How a draft commits its payload. -/
inductive PayloadCommitment where
  /-- A JSON payload, to be committed by its canonical hash. -/
  | inline (value : Json)
  /-- A precomputed content hash. -/
  | hash (h : String)

/-- An instant, known to the ledger by its fixed-precision RFC 3339 text. -/
structure Timestamp where
  rfc3339 : String
  deriving DecidableEq, Repr

/-- A producer event on its way into the ledger. -/
structure LedgerEntryDraft where
  eventId : Option String
  agentId : String
  runId : String
  turnId : Option String
  sessionId : Option String
  genomeHash : Option String
  releaseId : Option String
  eventType : String
  payload : PayloadCommitment
  redactedPayloadPreview : Option String
  turnSequenceNumber : Option Nat
  timestamp : Option Timestamp
  ingestionSource : IngestionSource

/-- A sealed, signed, chain-linked ledger entry. -/
structure LedgerEntry where
  schemaVersion : String
  ledgerEntryId : String
  eventId : String
  agentId : String
  runId : String
  turnId : Option String
  sessionId : Option String
  genomeHash : Option String
  releaseId : Option String
  eventType : String
  eventPayloadHash : String
  redactedPayloadPreview : Option String
  sequenceNumber : Nat
  runSequenceNumber : Nat
  turnSequenceNumber : Option Nat
  timestamp : String
  previousEntryHash : String
  previousRunEntryHash : String
  merkleRoot : Option String
  hashAlgorithm : String
  signatureAlgorithm : String
  ingestionSource : IngestionSource
  entryHash : String
  signature : String
  signingKeyId : String
  durabilityStatus : DurabilityStatus
  verificationStatus : VerificationStatus
  deriving DecidableEq, Repr

/-- The stable text of an event time. -/
def deterministicTimestamp (ts : Timestamp) : String := ts.rfc3339

/-- A `blake3:` tag and 64 hex digits. -/
def payloadHashIsWellFormed (h : String) : Bool :=
  match stripPrefix? blake3Tag h with
  | none => false
  | some hexPart => hexPart.toList.length == 64 && hexPart.toList.all isHexDigit

/-- Resolve a commitment to the payload hash. -/
def PayloadCommitment.resolve (c : Crypto) : PayloadCommitment → CliResult String
  | .inline v => .ok (payloadHash c v)
  | .hash h =>
      match stripPrefix? blake3Tag h with
      | none => .error (.ledgerConflict s!"payload hash must be blake3:-prefixed, got {h.quote}")
      | some hexPart =>
          if hexPart.toList.length ≠ 64 ∨ !hexPart.toList.all isHexDigit then
            .error (.ledgerConflict s!"payload hash is not 64 hex chars: {h.quote}")
          else .ok h

namespace LedgerEntry

/-- The fields of the serialized entry, absent options left out. -/
def fields (e : LedgerEntry) : Json.Fields :=
  [("schema_version", .str e.schemaVersion), ("ledger_entry_id", .str e.ledgerEntryId),
    ("event_id", .str e.eventId), ("agent_id", .str e.agentId), ("run_id", .str e.runId)]
  ++ Json.optField "turn_id" (Json.ofOptStr e.turnId)
  ++ Json.optField "session_id" (Json.ofOptStr e.sessionId)
  ++ Json.optField "genome_hash" (Json.ofOptStr e.genomeHash)
  ++ Json.optField "release_id" (Json.ofOptStr e.releaseId)
  ++ [("event_type", .str e.eventType), ("event_payload_hash", .str e.eventPayloadHash)]
  ++ Json.optField "redacted_payload_preview" (Json.ofOptStr e.redactedPayloadPreview)
  ++ [("sequence_number", .num e.sequenceNumber), ("run_sequence_number", .num e.runSequenceNumber)]
  ++ Json.optField "turn_sequence_number" (Json.ofOptNat e.turnSequenceNumber)
  ++ [("timestamp", .str e.timestamp), ("previous_entry_hash", .str e.previousEntryHash),
    ("previous_run_entry_hash", .str e.previousRunEntryHash)]
  ++ Json.optField "merkle_root" (Json.ofOptStr e.merkleRoot)
  ++ [("hash_algorithm", .str e.hashAlgorithm), ("signature_algorithm", .str e.signatureAlgorithm),
    ("ingestion_source", .str e.ingestionSource.label), ("entry_hash", .str e.entryHash),
    ("signature", .str e.signature), ("signing_key_id", .str e.signingKeyId),
    ("durability_status", .str e.durabilityStatus.label),
    ("verification_status", .str e.verificationStatus.label)]

/-- The entry as a JSON value. -/
def toValue (e : LedgerEntry) : Json := .obj e.fields

/-- The fields that are hashed and signed. -/
def coreFields (e : LedgerEntry) : Json.Fields :=
  e.fields.filter fun f => !volatileFields.contains f.1

/-- The canonical JSON string of the core: the exact hashed and signed surface. -/
def canonicalCore (e : LedgerEntry) : List Char := canonicalJson (.obj e.coreFields)

variable (c : Crypto)

/-- The domain-separated digest of the canonical core. -/
def computeDigest (e : LedgerEntry) : Bytes := entryDigest c e.canonicalCore

/-- The entry hash of the current fields. -/
def computeEntryHash (e : LedgerEntry) : String := entryHashFromDigest (e.computeDigest c)

/-- Whether the stored hash matches the recomputed one. -/
def hashIsValid (e : LedgerEntry) : Bool := e.computeEntryHash c == e.entryHash

/-- Verify the detached signature over the entry digest. -/
def verifySignature (e : LedgerEntry) (vk : c.VerifyingKey) : CliResult Unit :=
  match hexDecode e.signature.toList with
  | none => .error (.ledgerSignatureInvalid e.ledgerEntryId)
  | some raw =>
      if raw.length ≠ 64 then .error (.ledgerSignatureInvalid e.ledgerEntryId)
      else if c.verifyStrict vk (e.computeDigest c) raw then .ok ()
      else .error (.ledgerSignatureInvalid e.ledgerEntryId)

/-- The members read back by name. -/
def ofFields (fs : Json.Fields) : Option LedgerEntry := do
  let schemaVersion ← Json.getStr "schema_version" fs
  let ledgerEntryId ← Json.getStr "ledger_entry_id" fs
  let eventId ← Json.getStr "event_id" fs
  let agentId ← Json.getStr "agent_id" fs
  let runId ← Json.getStr "run_id" fs
  let turnId ← Json.getOptStr "turn_id" fs
  let sessionId ← Json.getOptStr "session_id" fs
  let genomeHash ← Json.getOptStr "genome_hash" fs
  let releaseId ← Json.getOptStr "release_id" fs
  let eventType ← Json.getStr "event_type" fs
  let eventPayloadHash ← Json.getStr "event_payload_hash" fs
  let redactedPayloadPreview ← Json.getOptStr "redacted_payload_preview" fs
  let sequenceNumber ← Json.getNat "sequence_number" fs
  let runSequenceNumber ← Json.getNat "run_sequence_number" fs
  let turnSequenceNumber ← Json.getOptNat "turn_sequence_number" fs
  let timestamp ← Json.getStr "timestamp" fs
  let previousEntryHash ← Json.getStr "previous_entry_hash" fs
  let previousRunEntryHash ← Json.getStr "previous_run_entry_hash" fs
  let merkleRoot ← Json.getOptStr "merkle_root" fs
  let hashAlgorithm ← Json.getStr "hash_algorithm" fs
  let signatureAlgorithm ← Json.getStr "signature_algorithm" fs
  let source ← Json.getStr "ingestion_source" fs
  let ingestionSource ← IngestionSource.ofLabel source
  let entryHash ← Json.getStr "entry_hash" fs
  let signature ← Json.getStr "signature" fs
  let signingKeyId ← Json.getStr "signing_key_id" fs
  let durability ← Json.getStr "durability_status" fs
  let durabilityStatus ← DurabilityStatus.ofLabel durability
  let verification ← Json.getStr "verification_status" fs
  let verificationStatus ← VerificationStatus.ofLabel verification
  some { schemaVersion, ledgerEntryId, eventId, agentId, runId, turnId, sessionId, genomeHash,
         releaseId, eventType, eventPayloadHash, redactedPayloadPreview, sequenceNumber,
         runSequenceNumber, turnSequenceNumber, timestamp, previousEntryHash,
         previousRunEntryHash, merkleRoot, hashAlgorithm, signatureAlgorithm, ingestionSource,
         entryHash, signature, signingKeyId, durabilityStatus, verificationStatus }

/-- The entry with its volatile fields blanked: what the hash and the signature cover. -/
def withoutVolatile (e : LedgerEntry) : LedgerEntry :=
  { e with
    entryHash := ""
    signature := ""
    durabilityStatus := .received
    verificationStatus := .unverified }

end LedgerEntry

/-! ## Commitments -/

/-- What a commitment resolves to is well formed. -/
theorem resolve_wellFormed {c : Crypto} (hc : c.Correct) {p : PayloadCommitment} {h : String}
    (hr : p.resolve c = .ok h) : payloadHashIsWellFormed h = true := by
  cases p with
  | inline v =>
      cases hr
      have hlen := hexEncode_length (c.blake3 (utf8Encode (canonicalJson v)))
      rw [hc.blake3_length] at hlen
      rw [payloadHash, prefixedBlake3, blake3Hex, payloadHashIsWellFormed, stripPrefix?_append]
      simp only [String.toList_ofList, hlen, beq_self_eq_true, Bool.true_and, List.all_eq_true]
      exact fun x hx => hexEncode_isHexDigit hx
  | hash g =>
      rw [PayloadCommitment.resolve] at hr
      rw [payloadHashIsWellFormed]
      cases hs : stripPrefix? blake3Tag g with
      | none => rw [hs] at hr; cases hr
      | some hexPart =>
          rw [hs] at hr
          dsimp only at hr
          split at hr
          · cases hr
          · rename_i hok
            cases hr
            rw [hs]
            simp only [not_or, not_not, Bool.not_eq_true, Bool.not_eq_false'] at hok
            simp [hok.1, hok.2]

/-! ## Reading entries back -/

theorem IngestionSource.ofLabel_label (x : IngestionSource) :
    IngestionSource.ofLabel x.label = some x := by
  cases x <;> decide

theorem DurabilityStatus.ofLabel_label (x : DurabilityStatus) :
    DurabilityStatus.ofLabel x.label = some x := by
  cases x <;> decide

theorem VerificationStatus.ofLabel_label (x : VerificationStatus) :
    VerificationStatus.ofLabel x.label = some x := by
  cases x <;> decide

namespace LedgerEntry

/-- Fields that say what an entry says, in whatever order, are read back as that entry. -/
theorem ofFields_of_lookup {e : LedgerEntry} {fs : Json.Fields}
    (h : ∀ k, Json.lookup k fs = Json.lookup k e.fields) : ofFields fs = some e := by
  have h1 : Json.getStr "schema_version" fs = some e.schemaVersion :=
    Json.getStr_of_lookup (by rw [h]; simp [fields])
  have h2 : Json.getStr "ledger_entry_id" fs = some e.ledgerEntryId :=
    Json.getStr_of_lookup (by rw [h]; simp [fields])
  have h3 : Json.getStr "event_id" fs = some e.eventId :=
    Json.getStr_of_lookup (by rw [h]; simp [fields])
  have h4 : Json.getStr "agent_id" fs = some e.agentId :=
    Json.getStr_of_lookup (by rw [h]; simp [fields])
  have h5 : Json.getStr "run_id" fs = some e.runId :=
    Json.getStr_of_lookup (by rw [h]; simp [fields])
  have h6 : Json.getOptStr "turn_id" fs = some e.turnId :=
    Json.getOptStr_of_lookup (by rw [h]; simp [fields])
  have h7 : Json.getOptStr "session_id" fs = some e.sessionId :=
    Json.getOptStr_of_lookup (by rw [h]; simp [fields])
  have h8 : Json.getOptStr "genome_hash" fs = some e.genomeHash :=
    Json.getOptStr_of_lookup (by rw [h]; simp [fields])
  have h9 : Json.getOptStr "release_id" fs = some e.releaseId :=
    Json.getOptStr_of_lookup (by rw [h]; simp [fields])
  have h10 : Json.getStr "event_type" fs = some e.eventType :=
    Json.getStr_of_lookup (by rw [h]; simp [fields])
  have h11 : Json.getStr "event_payload_hash" fs = some e.eventPayloadHash :=
    Json.getStr_of_lookup (by rw [h]; simp [fields])
  have h12 : Json.getOptStr "redacted_payload_preview" fs = some e.redactedPayloadPreview :=
    Json.getOptStr_of_lookup (by rw [h]; simp [fields])
  have h13 : Json.getNat "sequence_number" fs = some e.sequenceNumber :=
    Json.getNat_of_lookup (by rw [h]; simp [fields])
  have h14 : Json.getNat "run_sequence_number" fs = some e.runSequenceNumber :=
    Json.getNat_of_lookup (by rw [h]; simp [fields])
  have h15 : Json.getOptNat "turn_sequence_number" fs = some e.turnSequenceNumber :=
    Json.getOptNat_of_lookup (by rw [h]; simp [fields])
  have h16 : Json.getStr "timestamp" fs = some e.timestamp :=
    Json.getStr_of_lookup (by rw [h]; simp [fields])
  have h17 : Json.getStr "previous_entry_hash" fs = some e.previousEntryHash :=
    Json.getStr_of_lookup (by rw [h]; simp [fields])
  have h18 : Json.getStr "previous_run_entry_hash" fs = some e.previousRunEntryHash :=
    Json.getStr_of_lookup (by rw [h]; simp [fields])
  have h19 : Json.getOptStr "merkle_root" fs = some e.merkleRoot :=
    Json.getOptStr_of_lookup (by rw [h]; simp [fields])
  have h20 : Json.getStr "hash_algorithm" fs = some e.hashAlgorithm :=
    Json.getStr_of_lookup (by rw [h]; simp [fields])
  have h21 : Json.getStr "signature_algorithm" fs = some e.signatureAlgorithm :=
    Json.getStr_of_lookup (by rw [h]; simp [fields])
  have h22 : Json.getStr "ingestion_source" fs = some e.ingestionSource.label :=
    Json.getStr_of_lookup (by rw [h]; simp [fields])
  have h23 : Json.getStr "entry_hash" fs = some e.entryHash :=
    Json.getStr_of_lookup (by rw [h]; simp [fields])
  have h24 : Json.getStr "signature" fs = some e.signature :=
    Json.getStr_of_lookup (by rw [h]; simp [fields])
  have h25 : Json.getStr "signing_key_id" fs = some e.signingKeyId :=
    Json.getStr_of_lookup (by rw [h]; simp [fields])
  have h26 : Json.getStr "durability_status" fs = some e.durabilityStatus.label :=
    Json.getStr_of_lookup (by rw [h]; simp [fields])
  have h27 : Json.getStr "verification_status" fs = some e.verificationStatus.label :=
    Json.getStr_of_lookup (by rw [h]; simp [fields])
  simp only [ofFields, h1, h2, h3, h4, h5, h6, h7, h8, h9, h10, h11, h12, h13, h14, h15, h16, h17, h18, h19, h20, h21, h22, h23, h24, h25, h26, h27,
    Option.bind_eq_bind, Option.bind_some, IngestionSource.ofLabel_label,
    DurabilityStatus.ofLabel_label, VerificationStatus.ofLabel_label]

/-! ## The core determines the entry -/

/-- The names a serialized entry uses, in their order. -/
def fieldNames : List String :=
  ["schema_version", "ledger_entry_id", "event_id", "agent_id", "run_id", "turn_id", "session_id",
    "genome_hash", "release_id", "event_type", "event_payload_hash", "redacted_payload_preview",
    "sequence_number", "run_sequence_number", "turn_sequence_number", "timestamp",
    "previous_entry_hash", "previous_run_entry_hash", "merkle_root", "hash_algorithm",
    "signature_algorithm", "ingestion_source", "entry_hash", "signature", "signing_key_id",
    "durability_status", "verification_status"]

theorem fieldNames_nodup : fieldNames.Nodup := by decide

theorem keys_fields_sublist (e : LedgerEntry) : (Json.keys e.fields).Sublist fieldNames := by
  have hopt := fun k o => Json.keys_optField_sublist k o
  simp only [fields, Json.keys_append]
  exact ((((((((((((List.Sublist.refl ["schema_version", "ledger_entry_id", "event_id", "agent_id",
    "run_id"]).append (hopt "turn_id" _)).append (hopt "session_id" _)).append
    (hopt "genome_hash" _)).append (hopt "release_id" _)).append (List.Sublist.refl _)).append
    (hopt "redacted_payload_preview" _)).append (List.Sublist.refl _)).append
    (hopt "turn_sequence_number" _)).append (List.Sublist.refl _)).append
    (hopt "merkle_root" _)).append (List.Sublist.refl _))

/-- No name stands twice in a serialized entry. -/
theorem keys_fields_nodup (e : LedgerEntry) : (Json.keys e.fields).Nodup :=
  fieldNames_nodup.sublist e.keys_fields_sublist

theorem keys_coreFields_nodup (e : LedgerEntry) : (Json.keys e.coreFields).Nodup :=
  e.keys_fields_nodup.sublist (List.filter_sublist.map Prod.fst)

/-- No member of an entry holds an object. -/
theorem sortKeys_of_mem_fields {e : LedgerEntry} {f : String × Json} (h : f ∈ e.fields) :
    sortKeys f.2 = f.2 := by
  have hstr : ∀ {k o}, f ∈ Json.optField k (Json.ofOptStr o) → sortKeys f.2 = f.2 := by
    intro k o hf
    cases o with
    | none => cases hf
    | some s => rw [List.mem_singleton.mp hf, sortKeys]
  have hnat : ∀ {k o}, f ∈ Json.optField k (Json.ofOptNat o) → sortKeys f.2 = f.2 := by
    intro k o hf
    cases o with
    | none => cases hf
    | some s => rw [List.mem_singleton.mp hf, sortKeys]
  simp only [fields, List.mem_append, List.mem_cons, List.not_mem_nil, or_false] at h
  rcases h with (((((((((((h | h) | h) | h) | h) | h) | h) | h) | h) | h) | h) | h)
  all_goals first
    | exact hstr h
    | exact hnat h
    | (rcases h with h | h | h | h | h | h | h | h <;> rw [h, sortKeys])
    | (rcases h with h | h | h | h | h <;> rw [h, sortKeys])
    | (rcases h with h | h | h <;> rw [h, sortKeys])
    | (rcases h with h | h <;> rw [h, sortKeys])

theorem coreFields_withoutVolatile (e : LedgerEntry) :
    e.withoutVolatile.coreFields = e.coreFields := by
  simp only [coreFields, fields, withoutVolatile, List.filter_append]
  rfl

/-- The volatile members of a blanked entry say nothing about it. -/
theorem lookup_withoutVolatile {e₁ e₂ : LedgerEntry} {k : String} (hk : k ∈ volatileFields) :
    Json.lookup k e₁.withoutVolatile.fields = Json.lookup k e₂.withoutVolatile.fields := by
  simp only [volatileFields, List.mem_cons, List.not_mem_nil, or_false] at hk
  rcases hk with rfl | rfl | rfl | rfl <;> simp [fields, withoutVolatile]

/-- **The canonical core determines every field that is not volatile.** -/
theorem canonicalCore_injective {e₁ e₂ : LedgerEntry} (h : e₁.canonicalCore = e₂.canonicalCore) :
    e₁.withoutVolatile = e₂.withoutVolatile := by
  have hcore : e₁.coreFields.Perm e₂.coreFields := by
    have hs := sortKeys_eq_of_canonicalJson_eq h
    have hflat : ∀ e : LedgerEntry, sortKeysFields e.coreFields = e.coreFields := fun e =>
      sortKeysFields_eq_self fun f hf => sortKeys_of_mem_fields (List.mem_of_mem_filter hf)
    rw [sortKeys, sortKeys, hflat, hflat] at hs
    have hsorted := Json.obj.inj hs
    have hright := List.mergeSort_perm e₂.coreFields fun a b => utf16Le a.1 b.1
    rw [← hsorted] at hright
    exact (List.mergeSort_perm _ _).symm.trans hright
  have hlookup : ∀ k, Json.lookup k e₂.withoutVolatile.fields
      = Json.lookup k e₁.withoutVolatile.fields := by
    intro k
    by_cases hk : k ∈ volatileFields
    · exact lookup_withoutVolatile hk
    · have hkept : ∀ e : LedgerEntry, Json.lookup k e.coreFields
          = Json.lookup k e.withoutVolatile.fields := by
        intro e
        rw [← coreFields_withoutVolatile]
        exact Json.lookup_filter (p := fun k => !volatileFields.contains k) (by simpa using hk) _
      rw [← hkept, ← hkept]
      exact (Json.lookup_perm hcore e₁.keys_coreFields_nodup k).symm
  have h1 := ofFields_of_lookup hlookup
  rw [ofFields_of_lookup fun _ => rfl] at h1
  exact (Option.some.inj h1).symm

end LedgerEntry

end Agenomic.Ledger
