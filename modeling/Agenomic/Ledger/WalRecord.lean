import Agenomic.Ledger.Entry
import Agenomic.Lib.Frames

/-!
# What the write-ahead log holds: records, frames and the checkpoint

A WAL record is a position and a draft. The log only relies on three things about
how records become bytes: a record is read back as itself, a frame carries a
checksum, and the checkpoint is read back as the number that was written.
`WalSerde` says that much, and everything proved about the log holds for every
such encoding; `serdeJson` is the one the ledger uses, JSON payloads under a
CRC-32 (**`ofFields_toFields`** reads a draft back).

Positions are natural numbers: a log that counts past 64 bits has more records
than any disk holds.
-/

namespace Agenomic.Ledger

open Lib

/-- One spooled event: the draft as accepted by the hot path. -/
structure WalRecord where
  walSeq : Nat
  draft : LedgerEntryDraft

/-- How records and checkpoints become bytes. -/
structure WalSerde where
  toVec : WalRecord → Bytes
  fromSlice : Bytes → Option WalRecord
  fromSlice_toVec : ∀ r, fromSlice (toVec r) = some r
  crc32 : Bytes → UInt32
  checkpointToVec : Nat → Bytes
  checkpointFromStr : Bytes → Option Nat
  checkpointFromStr_toVec : ∀ n, checkpointFromStr (checkpointToVec n) = some n

/-- The longest payload the reader believes: a corrupt length must not trigger a giant
allocation. -/
def maxFrameLen : Nat := 64 * 1024 * 1024

/-- The frames of a segment. -/
def WalSerde.frames (serde : WalSerde) : FrameFormat WalRecord where
  encode := serde.toVec
  decode := serde.fromSlice
  decode_encode := serde.fromSlice_toVec
  checksum := serde.crc32
  cap := maxFrameLen
  cap_lt := by decide

/-! ## Drafts as JSON -/

/-- The members of a serialized commitment. -/
def PayloadCommitment.toFields : PayloadCommitment → Json.Fields
  | .inline v => [("kind", .str "inline"), ("value", v)]
  | .hash h => [("kind", .str "hash"), ("value", .str h)]

/-- The commitment as a JSON value. -/
def PayloadCommitment.toValue (p : PayloadCommitment) : Json := .obj p.toFields

/-- A commitment read back from its value. -/
def PayloadCommitment.ofValue (v : Json) : Option PayloadCommitment := do
  let fs ← Json.members ["kind", "value"] v
  match Json.getStr "kind" fs, Json.lookup "value" fs with
  | some "inline", some v => some (.inline v)
  | some "hash", some (.str h) => some (.hash h)
  | _, _ => none

/-- The members of a serialized draft, absent options as null. -/
def LedgerEntryDraft.toFields (d : LedgerEntryDraft) : Json.Fields :=
  [("event_id", Json.orNull (Json.ofOptStr d.eventId)), ("agent_id", .str d.agentId),
    ("run_id", .str d.runId), ("turn_id", Json.orNull (Json.ofOptStr d.turnId)),
    ("session_id", Json.orNull (Json.ofOptStr d.sessionId)),
    ("genome_hash", Json.orNull (Json.ofOptStr d.genomeHash)),
    ("release_id", Json.orNull (Json.ofOptStr d.releaseId)), ("event_type", .str d.eventType),
    ("payload", d.payload.toValue),
    ("redacted_payload_preview", Json.orNull (Json.ofOptStr d.redactedPayloadPreview)),
    ("turn_sequence_number", Json.orNull (Json.ofOptNat d.turnSequenceNumber)),
    ("timestamp", Json.orNull (Json.ofOptStr (d.timestamp.map Timestamp.rfc3339))),
    ("ingestion_source", .str d.ingestionSource.label)]

/-- The names a serialized draft uses, in their order. -/
def LedgerEntryDraft.fieldNames : List String :=
  ["event_id", "agent_id", "run_id", "turn_id", "session_id", "genome_hash", "release_id",
    "event_type", "payload", "redacted_payload_preview", "turn_sequence_number", "timestamp",
    "ingestion_source"]

/-- The draft as a JSON value. -/
def LedgerEntryDraft.toValue (d : LedgerEntryDraft) : Json := .obj d.toFields

/-- A draft read back from its members. -/
def LedgerEntryDraft.ofFields (fs : Json.Fields) : Option LedgerEntryDraft := do
  let eventId ← Json.getOptStr "event_id" fs
  let agentId ← Json.getStr "agent_id" fs
  let runId ← Json.getStr "run_id" fs
  let turnId ← Json.getOptStr "turn_id" fs
  let sessionId ← Json.getOptStr "session_id" fs
  let genomeHash ← Json.getOptStr "genome_hash" fs
  let releaseId ← Json.getOptStr "release_id" fs
  let eventType ← Json.getStr "event_type" fs
  let payload ← Json.lookup "payload" fs
  let payload ← PayloadCommitment.ofValue payload
  let redactedPayloadPreview ← Json.getOptStr "redacted_payload_preview" fs
  let turnSequenceNumber ← Json.getOptNat "turn_sequence_number" fs
  let timestamp ← Json.getOptStr "timestamp" fs
  let source ← Json.getStr "ingestion_source" fs
  let ingestionSource ← IngestionSource.ofLabel source
  some { eventId, agentId, runId, turnId, sessionId, genomeHash, releaseId, eventType, payload,
         redactedPayloadPreview, turnSequenceNumber, timestamp := timestamp.map Timestamp.mk,
         ingestionSource }

/-- A draft read back from its value. -/
def LedgerEntryDraft.ofValue (v : Json) : Option LedgerEntryDraft := do
  let fs ← Json.members LedgerEntryDraft.fieldNames v
  LedgerEntryDraft.ofFields fs

theorem PayloadCommitment.ofValue_toValue (p : PayloadCommitment) :
    PayloadCommitment.ofValue p.toValue = some p := by
  have hkeys : Json.keys p.toFields = ["kind", "value"] := by cases p <;> rfl
  have hnd : (Json.keys p.toFields).Nodup := by rw [hkeys]; decide
  rw [PayloadCommitment.ofValue, PayloadCommitment.toValue, Json.members_obj hnd]
  cases p <;> rfl

/-- **A draft survives the round trip through its members.** -/
theorem LedgerEntryDraft.ofFields_toFields (d : LedgerEntryDraft) :
    LedgerEntryDraft.ofFields d.toFields = some d := by
  have h1 : Json.getOptStr "event_id" d.toFields = some d.eventId :=
    Json.getOptStr_of_lookup_null rfl
  have h2 : Json.getStr "agent_id" d.toFields = some d.agentId := Json.getStr_of_lookup rfl
  have h3 : Json.getStr "run_id" d.toFields = some d.runId := Json.getStr_of_lookup rfl
  have h4 : Json.getOptStr "turn_id" d.toFields = some d.turnId :=
    Json.getOptStr_of_lookup_null rfl
  have h5 : Json.getOptStr "session_id" d.toFields = some d.sessionId :=
    Json.getOptStr_of_lookup_null rfl
  have h6 : Json.getOptStr "genome_hash" d.toFields = some d.genomeHash :=
    Json.getOptStr_of_lookup_null rfl
  have h7 : Json.getOptStr "release_id" d.toFields = some d.releaseId :=
    Json.getOptStr_of_lookup_null rfl
  have h8 : Json.getStr "event_type" d.toFields = some d.eventType := Json.getStr_of_lookup rfl
  have h9 : Json.lookup "payload" d.toFields = some d.payload.toValue := rfl
  have h10 : Json.getOptStr "redacted_payload_preview" d.toFields
      = some d.redactedPayloadPreview := Json.getOptStr_of_lookup_null rfl
  have h11 : Json.getOptNat "turn_sequence_number" d.toFields = some d.turnSequenceNumber :=
    Json.getOptNat_of_lookup_null rfl
  have h12 : Json.getOptStr "timestamp" d.toFields = some (d.timestamp.map Timestamp.rfc3339) :=
    Json.getOptStr_of_lookup_null rfl
  have h13 : Json.getStr "ingestion_source" d.toFields = some d.ingestionSource.label :=
    Json.getStr_of_lookup rfl
  have ht : (d.timestamp.map Timestamp.rfc3339).map Timestamp.mk = d.timestamp := by
    cases d.timestamp <;> rfl
  simp only [LedgerEntryDraft.ofFields, h1, h2, h3, h4, h5, h6, h7, h8, h9, h10, h11, h12, h13,
    PayloadCommitment.ofValue_toValue, IngestionSource.ofLabel_label, Option.bind_eq_bind,
    Option.bind_some, ht]

theorem LedgerEntryDraft.ofValue_toValue (d : LedgerEntryDraft) :
    LedgerEntryDraft.ofValue d.toValue = some d := by
  have hnd : (Json.keys d.toFields).Nodup := by
    show LedgerEntryDraft.fieldNames.Nodup
    decide
  rw [LedgerEntryDraft.ofValue, LedgerEntryDraft.toValue, Json.members_obj hnd]
  exact d.ofFields_toFields

/-! ## The encoding the ledger uses -/

/-- One bit of the CRC-32 register. -/
def crc32Bit (c : UInt32) : UInt32 :=
  if c &&& 1 = 1 then (c >>> 1) ^^^ 0xEDB88320 else c >>> 1

/-- One byte through the CRC-32 register. -/
def crc32Byte (c : UInt32) (b : UInt8) : UInt32 :=
  Nat.repeat crc32Bit 8 (c ^^^ b.toUInt32)

/-- The reflected CRC-32 of a byte string. -/
def crc32 (bs : Bytes) : UInt32 := bs.foldl crc32Byte 0xFFFFFFFF ^^^ 0xFFFFFFFF

/-- The bytes of a record. -/
def WalRecord.toVec (r : WalRecord) : Bytes :=
  utf8Encode (Json.obj [("wal_seq", .num r.walSeq), ("draft", r.draft.toValue)]).write

/-- A record read back from its bytes. -/
def WalRecord.fromSlice (bs : Bytes) : Option WalRecord := do
  let text ← utf8Decode bs
  let fs ← Json.members ["wal_seq", "draft"] (← Json.parse text)
  let walSeq ← Json.getNat "wal_seq" fs
  let draft ← Json.lookup "draft" fs
  let draft ← LedgerEntryDraft.ofValue draft
  some { walSeq, draft }

/-- The pretty-printed checkpoint. -/
def checkpointText (appliedWalSeq : Nat) : List Char :=
  Json.writePretty [("applied_wal_seq", .num appliedWalSeq)]

/-- The watermark a checkpoint file states. -/
def checkpointOfText (bs : Bytes) : Option Nat := do
  let text ← utf8Decode bs
  let fs ← Json.members ["applied_wal_seq"] (← Json.parse text)
  Json.getNat "applied_wal_seq" fs

theorem WalRecord.fromSlice_toVec (r : WalRecord) : WalRecord.fromSlice r.toVec = some r := by
  rw [WalRecord.fromSlice, WalRecord.toVec, utf8Decode_utf8Encode]
  have h0 : Json.members ["wal_seq", "draft"]
      (.obj [("wal_seq", .num r.walSeq), ("draft", r.draft.toValue)])
      = some [("wal_seq", .num r.walSeq), ("draft", r.draft.toValue)] :=
    Json.members_obj (show ["wal_seq", "draft"].Nodup by decide)
  have h1 : Json.getNat "wal_seq" [("wal_seq", Json.num r.walSeq), ("draft", r.draft.toValue)]
      = some r.walSeq := Json.getNat_of_lookup rfl
  have h2 : Json.lookup "draft" [("wal_seq", Json.num r.walSeq), ("draft", r.draft.toValue)]
      = some r.draft.toValue := rfl
  simp only [Option.bind_eq_bind, Option.bind_some, Json.parse_write, h0, h1, h2,
    LedgerEntryDraft.ofValue_toValue]

/-- Records as JSON under a CRC-32. -/
def serdeJson : WalSerde where
  toVec := WalRecord.toVec
  fromSlice := WalRecord.fromSlice
  fromSlice_toVec := WalRecord.fromSlice_toVec
  crc32 := crc32
  checkpointToVec n := utf8Encode (checkpointText n)
  checkpointFromStr := checkpointOfText
  checkpointFromStr_toVec n := by
    rw [checkpointOfText, utf8Decode_utf8Encode]
    have hfs : Json.members ["applied_wal_seq"] (.obj [("applied_wal_seq", .num n)])
        = some [("applied_wal_seq", .num n)] :=
      Json.members_obj (show ["applied_wal_seq"].Nodup by decide)
    have hn : Json.getNat "applied_wal_seq" [("applied_wal_seq", .num n)] = some n :=
      Json.getNat_of_lookup rfl
    simp only [Option.bind_eq_bind, Option.bind_some, checkpointText, Json.parse_writePretty, hfs, hn]

/-- The draft the log is exercised with. -/
def draft (n : Nat) : LedgerEntryDraft where
  eventId := some (String.ofList ("event-".toList ++ decimal n))
  agentId := "agent://acme/support"
  runId := "run-1"
  turnId := none
  sessionId := none
  genomeHash := none
  releaseId := none
  eventType := "agent.started"
  payload := .hash (String.ofList (blake3Tag.toList
    ++ (List.replicate 32 (hexEncode [UInt8.ofNat n])).flatten))
  redactedPayloadPreview := none
  turnSequenceNumber := none
  timestamp := none
  ingestionSource := .tracking

/-- The bytes of a record grow with the digits of its position only. -/
theorem toVec_length_le (n : Nat) (d : LedgerEntryDraft) :
    (WalRecord.toVec ⟨n, d⟩).length ≤ (WalRecord.toVec ⟨0, d⟩).length + 4 * (decimal n).length := by
  have hsplit : ∀ k : Nat, WalRecord.toVec ⟨k, d⟩
      = utf8Encode ('{' :: (Json.writeString "wal_seq" ++ [':'])) ++ (utf8Encode (decimal k)
        ++ utf8Encode (Json.writeFieldsTail [("draft", d.toValue)])) := by
    intro k
    rw [WalRecord.toVec, ← utf8Encode_append, ← utf8Encode_append]
    have hnum : (Json.num k).write = decimal k := by
      rw [Json.write, Json.writeNumber, if_neg (by omega), Int.natAbs_natCast]
    rw [Json.write, Json.writeFields, hnum]
    simp only [List.cons_append, List.append_assoc, List.nil_append]
  have hle := utf8Encode_length_le (decimal n)
  rw [hsplit n, hsplit 0, List.length_append, List.length_append, List.length_append,
    List.length_append]
  omega

/-- The drafts the log is exercised with fit a frame at any position of nine digits. -/
theorem fits_draft_one {n : Nat} (h : n < 1000000000) :
    serdeJson.frames.Fits ⟨n, draft 1⟩ := by
  have hle := toVec_length_le n (draft 1)
  have hdigits := decimal_length_le (w := 9) (by decide) h
  have hzero : (WalRecord.toVec ⟨0, draft 1⟩).length ≤ 67000000 := by decide +kernel
  show (WalRecord.toVec ⟨n, draft 1⟩).length ≤ maxFrameLen
  rw [maxFrameLen]
  omega

end Agenomic.Ledger
