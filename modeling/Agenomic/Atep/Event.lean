import Agenomic.Core

/-!
# Events of an agent

An event is a header and an opaque payload. Its causal hash covers both, with the
parents in sorted order; a signature covers the causal hash. What neither covers is
the order of the parents and the id of the key: `Unsigned` names these, together with
the signature itself.

**`verify_determines`**: two events that verify under one key, that have the same
causal hash and the same unsigned parts, are the same event, as long as the causal
hash does not collide on them.
-/

namespace Agenomic.Atep

open Lib

/-- A hybrid logical clock value. -/
structure Hlc where
  physicalMs : UInt64
  logical : UInt32
  nodeId : UInt32
  deriving DecidableEq, Repr

/-- Sixteen little-endian bytes. -/
def Hlc.toLeBytes (c : Hlc) : Bytes :=
  leBytes 8 c.physicalMs.toNat ++ leBytes 4 c.logical.toNat ++ leBytes 4 c.nodeId.toNat

/-- The clock sixteen bytes spell. -/
def Hlc.fromLeBytes (bs : Bytes) : Hlc where
  physicalMs := UInt64.ofNat (ofLeBytes (bs.take 8))
  logical := UInt32.ofNat (ofLeBytes ((bs.drop 8).take 4))
  nodeId := UInt32.ofNat (ofLeBytes ((bs.drop 12).take 4))

/-- A 32-byte hash. -/
abbrev Hash32 := List.Vector UInt8 32

inductive StreamId where
  | identity
  | capability
  | knowledge
  | policy
  | runtime
  | interaction
  | governance
  deriving DecidableEq, Repr

def StreamId.label : StreamId → String
  | .identity => "identity"
  | .capability => "capability"
  | .knowledge => "knowledge"
  | .policy => "policy"
  | .runtime => "runtime"
  | .interaction => "interaction"
  | .governance => "governance"

structure EventHeader where
  schemaVersion : UInt16
  eventId : List.Vector UInt8 16
  agentId : String
  stream : StreamId
  streamSeq : UInt64
  clock : Hlc
  parents : List Hash32
  eventType : String
  payloadSchemaUri : String
  deriving DecidableEq

structure EventAttestation where
  signerKeyId : String
  algo : String
  signature : List.Vector UInt8 64
  deriving DecidableEq

/-- A sealed event over a type of CBOR values. -/
structure AtepEvent (V : Type) where
  header : EventHeader
  payload : V
  causalHash : Hash32
  attestation : EventAttestation

/-- What is taken from other libraries: hashing, checksums, CBOR, signatures and ULIDs. -/
structure Deps where
  blake3 : Bytes → Hash32
  crc32 : Bytes → UInt32
  /-- CBOR values. -/
  Value : Type
  encodeBody : EventHeader → Value → Except String Bytes
  encodeEvent : AtepEvent Value → Except String Bytes
  decodeEvent : Bytes → Except String (AtepEvent Value)
  VerifyingKey : Type
  verify : VerifyingKey → Bytes → List.Vector UInt8 64 → Bool
  ulid : List.Vector UInt8 16 → String

variable (d : Deps)

/-- The sealed events over the CBOR values of a library. -/
abbrev Deps.Event := AtepEvent d.Value

/-- Domain separator for causal hashes. -/
def atepDomainSeparator : Bytes := utf8Encode "ATEP-v1".toList ++ [0]

/-- Parents in byte order. -/
def sortParents (parents : List Hash32) : List Hash32 :=
  parents.insertionSort fun a b => a.toList ≤ b.toList

/-- The header with its parents sorted. -/
def EventHeader.canonical (header : EventHeader) : EventHeader :=
  { header with parents := sortParents header.parents }

def canonicalBody (header : EventHeader) (payload : d.Value) : CliResult Bytes :=
  match d.encodeBody header.canonical payload with
  | .ok body => .ok body
  | .error e => .error (.internal s!"cbor encode: {e}")

/-- What the causal hash is taken over. -/
def causalMessage (body : Bytes) (sortedParents : List Hash32) : Bytes :=
  atepDomainSeparator ++ leBytes 8 body.length ++ body ++ leBytes 4 sortedParents.length
    ++ sortedParents.flatMap (·.toList)

def computeCausalHash (header : EventHeader) (payload : d.Value) : CliResult Hash32 := do
  let body ← canonicalBody d header payload
  .ok (d.blake3 (causalMessage body (sortParents header.parents)))

namespace AtepEvent

variable {d}

/-- The hash recomputes and its signature is valid. -/
def verify (e : d.Event) (vk : d.VerifyingKey) : CliResult Unit := do
  let recomputed ← computeCausalHash d e.header e.payload
  if recomputed ≠ e.causalHash then
    .error (.atepIntegrity (s!"causal_hash recomputed mismatch: " ++
      s!"stored={String.ofList (hexEncode e.causalHash.toList)} " ++
      s!"computed={String.ofList (hexEncode recomputed.toList)}"))
  else if e.attestation.algo ≠ "ed25519" then
    .error (.atepIntegrity s!"unsupported algo {e.attestation.algo}")
  else if d.verify vk e.causalHash.toList e.attestation.signature then .ok ()
  else .error (.atepSignatureInvalid (d.ulid e.header.eventId))

theorem verify_eq_ok {e : d.Event} {vk : d.VerifyingKey} (h : e.verify vk = .ok ()) :
    computeCausalHash d e.header e.payload = .ok e.causalHash
      ∧ e.attestation.algo = "ed25519" := by
  unfold verify at h
  rw [bind_eq_ok] at h
  obtain ⟨recomputed, hhash, h⟩ := h
  by_cases hne : recomputed ≠ e.causalHash
  · rw [if_pos hne] at h
    cases h
  · rw [if_neg hne] at h
    by_cases halgo : e.attestation.algo ≠ "ed25519"
    · rw [if_pos halgo] at h
      cases h
    · rw [not_not.mp hne] at hhash
      exact ⟨hhash, not_not.mp halgo⟩

/-- The parts of an event that its causal hash does not cover. -/
structure Unsigned where
  parents : List Hash32
  signerKeyId : String
  signature : List.Vector UInt8 64
  deriving DecidableEq

def unsigned (e : d.Event) : Unsigned :=
  ⟨e.header.parents, e.attestation.signerKeyId, e.attestation.signature⟩

/-- On these events the causal hash does not collide: it determines what it covers. -/
def CausalInjective (events : d.Event → Prop) : Prop :=
  ∀ e e', events e → events e' → ∀ h, computeCausalHash d e.header e.payload = .ok h →
    computeCausalHash d e'.header e'.payload = .ok h →
    e.header.canonical = e'.header.canonical ∧ e.payload = e'.payload

/-- A header is known from its canonical form and the order of its parents. -/
theorem header_eq {h h' : EventHeader} (hcanon : h.canonical = h'.canonical)
    (hparents : h.parents = h'.parents) : h = h' := by
  obtain ⟨v, i, a, s, q, c, p, t, u⟩ := h
  obtain ⟨v', i', a', s', q', c', p', t', u'⟩ := h'
  unfold EventHeader.canonical at hcanon
  simp only [EventHeader.mk.injEq] at hcanon ⊢
  obtain ⟨hv, hi, ha, hs, hq, hc, -, ht, hu⟩ := hcanon
  exact ⟨hv, hi, ha, hs, hq, hc, hparents, ht, hu⟩

/-- **Causal hash and unsigned parts determine an event that verifies.** -/
theorem verify_determines {events : d.Event → Prop} (hinj : CausalInjective events)
    {e e' : d.Event} {vk : d.VerifyingKey} (he : events e) (he' : events e')
    (hv : e.verify vk = .ok ()) (hv' : e'.verify vk = .ok ())
    (hhash : e.causalHash = e'.causalHash) (huns : e.unsigned = e'.unsigned) : e = e' := by
  obtain ⟨hcomp, halgo⟩ := verify_eq_ok hv
  obtain ⟨hcomp', halgo'⟩ := verify_eq_ok hv'
  rw [← hhash] at hcomp'
  obtain ⟨hcanon, hpay⟩ := hinj e e' he he' _ hcomp hcomp'
  obtain ⟨header, payload, hash, ⟨signer, algo, signature⟩⟩ := e
  obtain ⟨header', payload', hash', ⟨signer', algo', signature'⟩⟩ := e'
  obtain ⟨hparents, hsigner, hsignature⟩ := Unsigned.mk.inj huns
  have hheader : header = header' := header_eq hcanon hparents
  have hattest : algo = algo' := Eq.trans halgo (Eq.symm halgo')
  subst hheader hattest
  cases hhash
  cases hpay
  cases hsigner
  cases hsignature
  rfl

end AtepEvent

end Agenomic.Atep
