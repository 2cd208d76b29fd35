import Agenomic.Ledger.Entry
import Agenomic.Ledger.Keystore
import Agenomic.Ledger.Store

/-!
# The ledger service: seal, append, verify

A ledger is a store and the heads of its chains. An append resolves the payload
commitment, takes the next positions, hashes and signs the core and hands the
entry to the store; only when the store has it do the heads move.

`sealDraft` is the sealing part, and **`Sealed`** what it makes: an entry at the
positions the heads allocate, with a valid hash, signed by the active key.
`verifyEntries` checks stored entries one by one; `verifyFrom_spec` says that it
finds nothing wrong exactly when they extend the heads in order, every hash is
valid and every signature verifies under a key the resolver knows.

The clock and the generator of identifiers are arguments (`AppendInputs`).
-/

namespace Agenomic.Ledger

open Lib

/-! ## Chain state: the global chain and the chain of each run

Every entry links the previous entry of the ledger and the previous entry of its
run. `ChainState` is the head of all these chains; it allocates the positions of
the next entry and advances past a sealed one, and `fromEntries` rebuilds it from
what is stored, refusing the first entry that does not extend the head.

Positions are natural numbers: a chain that counts past 64 bits has more entries
than any memory holds. What the rest of the ledger relies on is said once here:
`fromEntries` is a left fold of one checked step (`fromEntries_snoc`), which
succeeds exactly on an entry at the allocated positions (`extend_eq_ok`).
-/

/-- The head of one run's chain. -/
structure RunHead where
  nextRunSequence : Nat
  headHash : String
  deriving DecidableEq, Repr

/-- The chain positions of the next entry. -/
structure ChainPositions where
  sequenceNumber : Nat
  previousEntryHash : String
  runSequenceNumber : Nat
  previousRunEntryHash : String
  deriving DecidableEq, Repr

/-- The heads of a ledger's chains. -/
structure ChainState where
  nextSequence : Nat
  headHash : String
  runHeads : Std.ExtTreeMap String RunHead

namespace ChainState

/-- No entry yet. -/
def new : ChainState := ⟨0, genesisEntryHash, ∅⟩

/-- The positions the next entry of a run must take. -/
def allocate (s : ChainState) (runId : String) : ChainPositions :=
  let (runSeq, runPrev) := match s.runHeads[runId]? with
    | some head => (head.nextRunSequence, head.headHash)
    | none => (0, genesisEntryHash)
  { sequenceNumber := s.nextSequence
    previousEntryHash := s.headHash
    runSequenceNumber := runSeq
    previousRunEntryHash := runPrev }

/-- Move the heads past a sealed entry. -/
def advance (s : ChainState) (e : LedgerEntry) : ChainState where
  nextSequence := e.sequenceNumber + 1
  headHash := e.entryHash
  runHeads := s.runHeads.insert e.runId ⟨e.runSequenceNumber + 1, e.entryHash⟩

/-- Number of entries in the global chain. -/
def len (s : ChainState) : Nat := s.nextSequence

end ChainState

/-- The positions an entry occupies. -/
def LedgerEntry.positions (e : LedgerEntry) : ChainPositions :=
  ⟨e.sequenceNumber, e.previousEntryHash, e.runSequenceNumber, e.previousRunEntryHash⟩

namespace ChainState

/-- Check that an entry extends the heads, and advance past it. -/
def extend (s : ChainState) (e : LedgerEntry) : CliResult ChainState :=
  let expected := s.allocate e.runId
  if e.positions ≠ expected then
    .error (.ledgerIntegrity (s!"chain break at sequence {e.sequenceNumber}: stored positions do " ++
      s!"not extend the head (expected seq {expected.sequenceNumber}, " ++
      s!"prev {expected.previousEntryHash})"))
  else .ok (s.advance e)

/-- Extend the heads by entries in order. -/
def extendAll (s : ChainState) : List LedgerEntry → CliResult ChainState
  | [] => .ok s
  | e :: es => do
      let s ← s.extend e
      s.extendAll es

/-- Rebuild the heads from stored entries, refusing the first inconsistency. -/
def fromEntries (entries : List LedgerEntry) : CliResult ChainState := new.extendAll entries

@[simp] theorem allocate_sequenceNumber (s : ChainState) (r : String) :
    (s.allocate r).sequenceNumber = s.nextSequence := by
  rw [allocate]

@[simp] theorem allocate_previousEntryHash (s : ChainState) (r : String) :
    (s.allocate r).previousEntryHash = s.headHash := by
  rw [allocate]

/-- What one step of the chain does. -/
theorem extend_eq_ok {s s' : ChainState} {e : LedgerEntry} :
    s.extend e = .ok s' ↔ e.positions = s.allocate e.runId ∧ s' = s.advance e := by
  rw [extend]
  split
  · rename_i h
    constructor
    · intro h'; cases h'
    · intro h'; exact absurd h'.1 h
  · rename_i h
    rw [not_not] at h
    constructor
    · intro h'; cases h'; exact ⟨h, rfl⟩
    · rintro ⟨-, rfl⟩; rfl

/-- The sequence number an entry takes is the one allocated, and the next one follows it. -/
theorem extend_sequence {s s' : ChainState} {e : LedgerEntry} (h : s.extend e = .ok s') :
    e.sequenceNumber = s.nextSequence ∧ s'.nextSequence = e.sequenceNumber + 1 := by
  obtain ⟨hpos, rfl⟩ := extend_eq_ok.mp h
  have hseq := congrArg ChainPositions.sequenceNumber hpos
  rw [allocate_sequenceNumber] at hseq
  exact ⟨hseq, rfl⟩

@[simp] theorem extendAll_nil (s : ChainState) : s.extendAll [] = .ok s := rfl

theorem extendAll_cons (s : ChainState) (e : LedgerEntry) (es : List LedgerEntry) :
    s.extendAll (e :: es) = s.extend e >>= fun s => s.extendAll es := rfl

theorem extendAll_append (s : ChainState) (es fs : List LedgerEntry) :
    s.extendAll (es ++ fs) = s.extendAll es >>= fun s => s.extendAll fs := by
  induction es generalizing s with
  | nil => rfl
  | cons e es ih =>
      rw [List.cons_append, extendAll_cons, extendAll_cons]
      cases s.extend e with
      | error err => rfl
      | ok s' => exact ih s'

/-- **One more entry takes one more step.** -/
theorem fromEntries_snoc {es : List LedgerEntry} {s : ChainState} (h : fromEntries es = .ok s)
    (e : LedgerEntry) : fromEntries (es ++ [e]) = s.extend e := by
  rw [fromEntries] at h ⊢
  rw [extendAll_append, h]
  show (s.extend e >>= fun s => .ok s) = s.extend e
  cases s.extend e <;> rfl

/-- Accepted entries are numbered from the head on, without a gap. -/
theorem extendAll_sequence {s s' : ChainState} {es : List LedgerEntry}
    (h : s.extendAll es = .ok s') :
    es.map LedgerEntry.sequenceNumber = List.range' s.nextSequence es.length
      ∧ s'.nextSequence = s.nextSequence + es.length := by
  induction es generalizing s with
  | nil => cases h; exact ⟨rfl, rfl⟩
  | cons e es ih =>
      rw [extendAll_cons, bind_eq_ok] at h
      obtain ⟨s₁, h₁, h⟩ := h
      obtain ⟨hseq, hnext⟩ := extend_sequence h₁
      obtain ⟨hmap, hlen⟩ := ih h
      rw [hnext, hseq] at hmap hlen
      refine ⟨?_, by rw [hlen, List.length_cons]; omega⟩
      rw [List.map_cons, hmap, hseq, List.length_cons, List.range'_succ]

/-- **Accepted entries are numbered 0, 1, 2, …** -/
theorem fromEntries_sequence {es : List LedgerEntry} {s : ChainState}
    (h : fromEntries es = .ok s) :
    es.map LedgerEntry.sequenceNumber = List.range es.length ∧ s.nextSequence = es.length := by
  obtain ⟨hmap, hlen⟩ := extendAll_sequence h
  rw [List.range_eq_range']
  exact ⟨hmap, by rw [hlen]; exact Nat.zero_add _⟩

end ChainState

end Agenomic.Ledger

set_option linter.dupNamespace false

namespace Agenomic.Ledger

open Lib

variable {c : Crypto}

/-! ## Verifying entries -/

/-- What verifying a chain of entries finds. -/
structure LedgerVerification where
  entryCount : Nat
  chainValid : Bool
  brokenAtSequence : Option Nat
  hashFailures : List Nat
  signatureFailures : List Nat
  unresolvedKeyFailures : List Nat
  revokedKeyWarnings : List Nat
  headHash : String
  valid : Bool
  deriving DecidableEq, Repr

/-- Verification underway. -/
structure EntryCheck where
  chain : ChainState
  chainValid : Bool
  brokenAtSequence : Option Nat
  hashFailures : List Nat
  signatureFailures : List Nat
  unresolvedKeyFailures : List Nat
  revokedKeyWarnings : List Nat
  headHash : String

namespace EntryCheck

def start : EntryCheck := ⟨.new, true, none, [], [], [], [], genesisEntryHash⟩

/-- Chain wiring, until the first break. -/
def checkChain (st : EntryCheck) (e : LedgerEntry) : EntryCheck :=
  if st.chainValid then
    if e.positions ≠ st.chain.allocate e.runId then
      { st with chainValid := false, brokenAtSequence := some e.sequenceNumber }
    else { st with chain := st.chain.advance e }
  else st

/-- The content hash. -/
def checkHash (c : Crypto) (st : EntryCheck) (e : LedgerEntry) : EntryCheck :=
  if e.hashIsValid c then st
  else { st with hashFailures := st.hashFailures ++ [e.sequenceNumber] }

/-- The signature and the status of its key. -/
def checkSignature (keys : SigningKeyStore c) (st : EntryCheck) (e : LedgerEntry) :
    CliResult EntryCheck :=
  match keys.verifyingKey e.signingKeyId with
  | .error _ =>
      .ok { st with unresolvedKeyFailures := st.unresolvedKeyFailures ++ [e.sequenceNumber] }
  | .ok vk =>
      match e.verifySignature c vk with
      | .error _ => .ok { st with signatureFailures := st.signatureFailures ++ [e.sequenceNumber] }
      | .ok () => do
          let status ← keys.keyStatus e.signingKeyId
          if status = .revoked then
            .ok { st with revokedKeyWarnings := st.revokedKeyWarnings ++ [e.sequenceNumber] }
          else .ok st

/-- All checks of one entry. -/
def checkEntry (keys : SigningKeyStore c) (st : EntryCheck) (e : LedgerEntry) :
    CliResult EntryCheck := do
  let st ← ((st.checkChain e).checkHash c e).checkSignature keys e
  .ok { st with headHash := e.entryHash }

/-- All checks of entries in order. -/
def checkEntries (keys : SigningKeyStore c) (st : EntryCheck) : List LedgerEntry →
    CliResult EntryCheck
  | [] => .ok st
  | e :: es => do
      let st ← st.checkEntry keys e
      st.checkEntries keys es

/-- Nothing wrong so far. -/
def valid (st : EntryCheck) : Bool :=
  st.chainValid && st.hashFailures.isEmpty && st.signatureFailures.isEmpty
    && st.unresolvedKeyFailures.isEmpty

end EntryCheck

/-- What was found in so many entries. -/
def EntryCheck.toVerification (st : EntryCheck) (entryCount : Nat) : LedgerVerification where
  entryCount := entryCount
  chainValid := st.chainValid
  brokenAtSequence := st.brokenAtSequence
  hashFailures := st.hashFailures
  signatureFailures := st.signatureFailures
  unresolvedKeyFailures := st.unresolvedKeyFailures
  revokedKeyWarnings := st.revokedKeyWarnings
  headHash := st.headHash
  valid := st.valid

/-- Verify entries in order against a key resolver. -/
def verifyEntries (entries : List LedgerEntry) (keys : SigningKeyStore c) :
    CliResult LedgerVerification := do
  let st ← EntryCheck.start.checkEntries keys entries
  .ok (st.toVerification entries.length)

/-! ## Appending -/

/-- What an append takes from the clock and the generator of identifiers. -/
structure AppendInputs where
  ledgerEntryId : String
  /-- The event id of a draft that brings none. -/
  eventId : String
  now : Timestamp
  deriving DecidableEq, Repr

/-- The entry of a draft before it is hashed. -/
def unsealed (ids : AppendInputs) (draft : LedgerEntryDraft) (eventPayloadHash : String)
    (pos : ChainPositions) (signingKeyId : String) : LedgerEntry where
  schemaVersion := ledgerSchemaVersion
  ledgerEntryId := ids.ledgerEntryId
  eventId := draft.eventId.getD ids.eventId
  agentId := draft.agentId
  runId := draft.runId
  turnId := draft.turnId
  sessionId := draft.sessionId
  genomeHash := draft.genomeHash
  releaseId := draft.releaseId
  eventType := draft.eventType
  eventPayloadHash := eventPayloadHash
  redactedPayloadPreview := draft.redactedPayloadPreview
  sequenceNumber := pos.sequenceNumber
  runSequenceNumber := pos.runSequenceNumber
  turnSequenceNumber := draft.turnSequenceNumber
  timestamp := deterministicTimestamp (draft.timestamp.getD ids.now)
  previousEntryHash := pos.previousEntryHash
  previousRunEntryHash := pos.previousRunEntryHash
  merkleRoot := none
  hashAlgorithm := "blake3"
  signatureAlgorithm := "ed25519"
  ingestionSource := draft.ingestionSource
  entryHash := ""
  signature := ""
  signingKeyId := signingKeyId
  durabilityStatus := .hashed
  verificationStatus := .unverified

/-- The entry with its hash set. -/
def LedgerEntry.withHash (e : LedgerEntry) (h : String) : LedgerEntry := { e with entryHash := h }

/-- The entry once it is signed. -/
def LedgerEntry.withSignature (e : LedgerEntry) (signature : String) : LedgerEntry :=
  { e with signature, durabilityStatus := .ledgerAppended }

/-- Seal a draft into a signed entry at the next positions of the chains. -/
def sealDraft (keys : SigningKeyStore c) (chain : ChainState) (ids : AppendInputs)
    (draft : LedgerEntryDraft) : CliResult LedgerEntry := do
  let eventPayloadHash ← draft.payload.resolve c
  let pos := chain.allocate draft.runId
  let signingKeyId ← keys.activeKeyId
  let entry := unsealed ids draft eventPayloadHash pos signingKeyId
  let digest := entry.computeDigest c
  let (signerId, signature) ← keys.sign digest
  if signerId ≠ signingKeyId then
    -- the key id is part of what is signed
    .error (.ledgerConflict
      s!"active key changed during append ({signingKeyId} -> {signerId}); retry")
  else .ok ((entry.withHash (entryHashFromDigest digest)).withSignature signature)

/-- An open ledger. Its keystore and its directory are passed along. -/
structure Ledger where
  store : FileLedgerStore
  chain : ChainState

namespace Ledger

/-- Open a ledger, rebuilding the heads from what is stored. -/
def «open» (store : FileLedgerStore) (d : Directory) : CliResult Ledger := do
  let entries ← FileLedgerStore.readAll d
  let chain ← ChainState.fromEntries entries
  .ok { store, chain }

/-- Seal a draft and persist it. -/
def append (keys : SigningKeyStore c) (l : Ledger) (d : Directory) (io : LogOutcome)
    (ids : AppendInputs) (draft : LedgerEntryDraft) : Ledger × Directory × CliResult LedgerEntry :=
  match sealDraft keys l.chain ids draft with
  | .error e => (l, d, .error e)
  | .ok entry =>
      match l.store.append d io entry with
      | (store, d, .error e) => ({ l with store }, d, .error e)
      | (store, d, .ok ()) => ({ store, chain := l.chain.advance entry }, d, .ok entry)

/-- Verify the whole ledger. -/
def verify (keys : SigningKeyStore c) (d : Directory) : CliResult LedgerVerification := do
  let entries ← FileLedgerStore.readAll d
  verifyEntries entries keys

end Ledger

/-! ## What sealing makes -/

/-- An entry is what sealing a draft makes of it. -/
structure Sealed (c : Crypto) (chain : ChainState) (ids : AppendInputs) (draft : LedgerEntryDraft)
    (e : LedgerEntry) : Prop where
  positions : e.positions = chain.allocate e.runId
  runId : e.runId = draft.runId
  eventId : e.eventId = draft.eventId.getD ids.eventId
  payload : draft.payload.resolve c = .ok e.eventPayloadHash
  hash : e.hashIsValid c = true

/-- The digest covers the fields that are not volatile only. -/
theorem computeDigest_congr {e e' : LedgerEntry} (h : e.withoutVolatile = e'.withoutVolatile) :
    e.computeDigest c = e'.computeDigest c := by
  rw [LedgerEntry.computeDigest, LedgerEntry.computeDigest, LedgerEntry.canonicalCore,
    LedgerEntry.canonicalCore, ← LedgerEntry.coreFields_withoutVolatile e,
    ← LedgerEntry.coreFields_withoutVolatile e', h]

theorem sealDraft_eq_ok {keys : SigningKeyStore c} {chain : ChainState} {ids : AppendInputs}
    {draft : LedgerEntryDraft} {e : LedgerEntry} (h : sealDraft keys chain ids draft = .ok e) :
    ∃ ph id sig entry, draft.payload.resolve c = .ok ph ∧ keys.activeKeyId = .ok id
      ∧ entry = unsealed ids draft ph (chain.allocate draft.runId) id
      ∧ keys.sign (entry.computeDigest c) = .ok (id, sig)
      ∧ e = (entry.withHash (entryHashFromDigest (entry.computeDigest c))).withSignature sig := by
  rw [sealDraft, bind_eq_ok] at h
  obtain ⟨ph, hph, h⟩ := h
  rw [bind_eq_ok] at h
  obtain ⟨id, hid, h⟩ := h
  rw [bind_eq_ok] at h
  obtain ⟨⟨signer, sig⟩, hsig, h⟩ := h
  dsimp only at h
  split at h
  · cases h
  · rename_i hsigner
    rw [not_not] at hsigner
    subst hsigner
    cases h
    exact ⟨ph, signer, sig, _, hph, hid, rfl, hsig, rfl⟩

/-- The signature of an entry is the one the keystore makes over its digest. -/
def Signed (keys : SigningKeyStore c) (e : LedgerEntry) : Prop :=
  keys.activeKeyId = .ok e.signingKeyId
    ∧ keys.sign (e.computeDigest c) = .ok (e.signingKeyId, e.signature)

/-- **What sealing makes of a draft.** -/
theorem sealDraft_spec {keys : SigningKeyStore c} {chain : ChainState} {ids : AppendInputs}
    {draft : LedgerEntryDraft} {e : LedgerEntry} (h : sealDraft keys chain ids draft = .ok e) :
    Sealed c chain ids draft e ∧ Signed keys e := by
  obtain ⟨ph, id, sig, entry, hph, hid, hentry, hsig, rfl⟩ := sealDraft_eq_ok h
  have hdigest : ((entry.withHash (entryHashFromDigest (entry.computeDigest c))).withSignature
      sig).computeDigest c = entry.computeDigest c := computeDigest_congr rfl
  subst hentry
  refine ⟨⟨rfl, rfl, rfl, hph, ?_⟩, hid, ?_⟩
  · rw [LedgerEntry.hashIsValid, LedgerEntry.computeEntryHash, hdigest]
    exact beq_self_eq_true _
  · rw [hdigest]
    exact hsig

/-- Whatever resolves can be sealed when the keystore signs. -/
theorem sealDraft_ok {keys : SigningKeyStore c} {chain : ChainState} {ids : AppendInputs}
    {draft : LedgerEntryDraft} {ph id : String} {sig : Bytes → String}
    (hph : draft.payload.resolve c = .ok ph) (hid : keys.activeKeyId = .ok id)
    (hsig : ∀ m, keys.sign m = .ok (id, sig m)) :
    ∃ e, sealDraft keys chain ids draft = .ok e := by
  rw [sealDraft, hph, hid]
  simp only [bind, Except.bind, hsig]
  rw [if_neg (by rintro hne; exact hne rfl)]
  exact ⟨_, rfl⟩

/-- A signature made with a key verifies under it. -/
theorem verifySignature_of_sign {e : LedgerEntry} {sk : c.SigningKey}
    (hlen : ∀ m, (c.sign sk m).length = 64)
    (hverify : ∀ m, c.verifyStrict (c.verifyingKey sk) m (c.sign sk m) = true)
    (hsig : e.signature = String.ofList (hexEncode (c.sign sk (e.computeDigest c)))) :
    e.verifySignature c (c.verifyingKey sk) = .ok () := by
  rw [LedgerEntry.verifySignature, hsig, String.toList_ofList, hexDecode_hexEncode]
  dsimp only
  rw [if_neg (not_not.mpr (hlen _)), if_pos (hverify _)]

/-- A keystore with one key, to exercise the ledger with. -/
def exerciseKeys (blake3 : Bytes → Bytes) : SigningKeyStore (Crypto.exercise blake3) where
  activeKeyId := .ok "k"
  sign m := .ok ("k", String.ofList (hexEncode ((Crypto.exercise blake3).sign "k" m)))
  verifyingKey _ := .ok "k"
  keyStatus _ := .ok .active

theorem exercise_sign_length (blake3 : Bytes → Bytes) (k : String) (m : Bytes) :
    ((Crypto.exercise blake3).sign k m).length = 64 := by
  show ((utf8Encode k.toList ++ m ++ List.replicate 64 0).take 64).length = 64
  rw [List.length_take, List.length_append, List.length_replicate]
  omega

theorem exercise_verify_sign (blake3 : Bytes → Bytes) (k : String) (m : Bytes) :
    (Crypto.exercise blake3).verifyStrict ((Crypto.exercise blake3).verifyingKey k) m
      ((Crypto.exercise blake3).sign k m) = true :=
  decide_eq_true rfl

/-! ## What verification means -/

/-- An entry stands the checks that look at it alone. -/
structure Checked (keys : SigningKeyStore c) (e : LedgerEntry) : Prop where
  hash : e.hashIsValid c = true
  signature : ∃ vk, keys.verifyingKey e.signingKeyId = .ok vk ∧ e.verifySignature c vk = .ok ()
  status : ∃ status, keys.keyStatus e.signingKeyId = .ok status

/-- An entry sealed with the exercise key stands every check. -/
theorem checked_exercise {blake3 : Bytes → Bytes} {e : LedgerEntry}
    (hhash : e.hashIsValid (Crypto.exercise blake3) = true)
    (hsig : Signed (exerciseKeys blake3) e) : Checked (exerciseKeys blake3) e := by
  refine ⟨hhash, ⟨"k", rfl, ?_⟩, .active, rfl⟩
  have hsigned : e.signature = String.ofList (hexEncode ((Crypto.exercise blake3).sign "k"
      (e.computeDigest (Crypto.exercise blake3)))) :=
    (congrArg Prod.snd (Except.ok.inj hsig.2)).symm
  exact verifySignature_of_sign (exercise_sign_length blake3 "k")
    (exercise_verify_sign blake3 "k") hsigned

namespace EntryCheck

theorem valid_iff {st : EntryCheck} : st.valid = true ↔ st.chainValid = true
    ∧ st.hashFailures = [] ∧ st.signatureFailures = [] ∧ st.unresolvedKeyFailures = [] := by
  simp only [valid, Bool.and_eq_true, List.isEmpty_iff, and_assoc]

theorem checkChain_valid {st : EntryCheck} {e : LedgerEntry}
    (hv : (st.checkChain e).valid = true) :
    st.valid = true ∧ st.chain.extend e = .ok (st.checkChain e).chain := by
  rw [valid_iff] at hv
  rw [checkChain] at hv ⊢
  split at hv
  · rename_i hchain
    split at hv
    · exact absurd hv.1 Bool.false_ne_true
    · rename_i hpos
      rw [if_pos hchain, if_neg hpos]
      rw [not_not] at hpos
      exact ⟨valid_iff.mpr ⟨hchain, hv.2⟩, ChainState.extend_eq_ok.mpr ⟨hpos, rfl⟩⟩
  · rename_i hchain
    exact absurd hv.1 hchain

theorem checkHash_valid {st : EntryCheck} {e : LedgerEntry}
    (hv : (st.checkHash c e).valid = true) : st.valid = true ∧ e.hashIsValid c = true := by
  rw [checkHash] at hv
  split at hv
  · exact ⟨hv, ‹_›⟩
  · rw [valid_iff] at hv
    exact absurd hv.2.1 (List.append_ne_nil_of_right_ne_nil _ (List.cons_ne_nil _ _))

@[simp] theorem checkHash_chain (st : EntryCheck) (e : LedgerEntry) :
    (st.checkHash c e).chain = st.chain := by
  rw [checkHash]
  split <;> rfl

theorem checkSignature_valid {keys : SigningKeyStore c} {st st' : EntryCheck} {e : LedgerEntry}
    (h : st.checkSignature keys e = .ok st') : st'.chain = st.chain ∧ (st'.valid = true →
      st.valid = true ∧ (∃ vk, keys.verifyingKey e.signingKeyId = .ok vk
        ∧ e.verifySignature c vk = .ok ())
        ∧ ∃ status, keys.keyStatus e.signingKeyId = .ok status) := by
  rw [checkSignature] at h
  split at h
  · cases h
    refine ⟨rfl, fun hv => ?_⟩
    rw [valid_iff] at hv
    exact absurd hv.2.2.2 (List.append_ne_nil_of_right_ne_nil _ (List.cons_ne_nil _ _))
  rename_i vk hvk
  split at h
  · cases h
    refine ⟨rfl, fun hv => ?_⟩
    rw [valid_iff] at hv
    exact absurd hv.2.2.1 (List.append_ne_nil_of_right_ne_nil _ (List.cons_ne_nil _ _))
  · rename_i hsig
    rw [bind_eq_ok] at h
    obtain ⟨status, hstatus, h⟩ := h
    split at h <;> cases h <;> exact ⟨rfl, fun hv => ⟨hv, ⟨vk, hvk, hsig⟩, status, hstatus⟩⟩

/-- An entry nothing is wrong with extends the heads and stands every check. -/
theorem checkEntry_valid {keys : SigningKeyStore c} {st st' : EntryCheck} {e : LedgerEntry}
    (h : st.checkEntry keys e = .ok st') (hv : st'.valid = true) :
    st.valid = true ∧ st.chain.extend e = .ok st'.chain ∧ Checked keys e
      ∧ st'.headHash = e.entryHash := by
  rw [checkEntry, bind_eq_ok] at h
  obtain ⟨st₂, hsig, h⟩ := h
  cases h
  obtain ⟨hkept, hsig⟩ := checkSignature_valid hsig
  obtain ⟨hv₁, hsig, hstatus⟩ := hsig hv
  obtain ⟨hv₀, hhash⟩ := checkHash_valid hv₁
  obtain ⟨hv, hext⟩ := checkChain_valid hv₀
  rw [checkHash_chain] at hkept
  exact ⟨hv, by rw [hext, ← hkept], ⟨hhash, hsig, hstatus⟩, rfl⟩

/-- The hash of the latest entry, some hash when there is none. -/
def headOf (h : String) (es : List LedgerEntry) : String :=
  (es.getLast?.map LedgerEntry.entryHash).getD h

theorem headOf_cons (h : String) (e : LedgerEntry) (es : List LedgerEntry) :
    headOf h (e :: es) = headOf e.entryHash es := by
  cases es with
  | nil => rfl
  | cons e' es =>
      rw [headOf, headOf, List.getLast?_cons_cons, List.getLast?_cons]
      rfl

/-- **Entries nothing is wrong with extend the heads in order, and each stands every check.** -/
theorem checkEntries_valid {keys : SigningKeyStore c} {st st' : EntryCheck}
    {es : List LedgerEntry} (h : st.checkEntries keys es = .ok st') (hv : st'.valid = true) :
    st.valid = true ∧ st.chain.extendAll es = .ok st'.chain ∧ (∀ e ∈ es, Checked keys e)
      ∧ st'.headHash = headOf st.headHash es := by
  induction es generalizing st with
  | nil =>
      cases h
      exact ⟨hv, rfl, fun _ he => absurd he List.not_mem_nil, rfl⟩
  | cons e es ih =>
      rw [checkEntries, bind_eq_ok] at h
      obtain ⟨st₁, h₁, h⟩ := h
      obtain ⟨hv₁, hchain, hall, hhead⟩ := ih h
      obtain ⟨hv₀, hext, hchecked, hhash⟩ := checkEntry_valid h₁ hv₁
      refine ⟨hv₀, ?_, ?_, ?_⟩
      · rw [ChainState.extendAll_cons, hext]
        exact hchain
      · intro e' he'
        rcases List.mem_cons.mp he' with rfl | he'
        · exact hchecked
        · exact hall e' he'
      · rw [hhead, hhash, headOf_cons]

/-- An entry that extends the heads and stands every check is one nothing is wrong with. -/
theorem checkEntry_ok {keys : SigningKeyStore c} {st : EntryCheck} {e : LedgerEntry}
    {chain : ChainState} (hv : st.valid = true) (hext : st.chain.extend e = .ok chain)
    (he : Checked keys e) :
    ∃ st', st.checkEntry keys e = .ok st' ∧ st'.valid = true ∧ st'.chain = chain
      ∧ st'.brokenAtSequence = st.brokenAtSequence := by
  obtain ⟨hpos, hadv⟩ := ChainState.extend_eq_ok.mp hext
  obtain ⟨vk, hvk, hsig⟩ := he.signature
  obtain ⟨status, hstatus⟩ := he.status
  have hchain : st.checkChain e = { st with chain } := by
    rw [checkChain, if_pos (valid_iff.mp hv).1, if_neg (not_not.mpr hpos), hadv]
  have hhash : ({ st with chain } : EntryCheck).checkHash c e = { st with chain } := by
    rw [checkHash, if_pos he.hash]
  obtain ⟨w, hw⟩ : ∃ w, ({ st with chain } : EntryCheck).checkSignature keys e
      = .ok { st with chain, revokedKeyWarnings := w } := by
    rw [checkSignature, hvk]
    dsimp only
    rw [hsig]
    dsimp only
    rw [hstatus]
    by_cases hr : status = .revoked
    · exact ⟨_, if_pos hr⟩
    · exact ⟨st.revokedKeyWarnings, if_neg hr⟩
  refine ⟨{ st with chain, revokedKeyWarnings := w, headHash := e.entryHash }, ?_, hv, rfl, rfl⟩
  rw [checkEntry, hchain, hhash, hw]
  rfl

/-- **Entries that extend the heads in order and stand every check are accepted.** -/
theorem checkEntries_ok {keys : SigningKeyStore c} {st : EntryCheck} {es : List LedgerEntry}
    {chain : ChainState} (hv : st.valid = true) (hext : st.chain.extendAll es = .ok chain)
    (hes : ∀ e ∈ es, Checked keys e) :
    ∃ st', st.checkEntries keys es = .ok st' ∧ st'.valid = true ∧ st'.chain = chain
      ∧ st'.brokenAtSequence = st.brokenAtSequence := by
  induction es generalizing st with
  | nil =>
      cases hext
      exact ⟨st, rfl, hv, rfl, rfl⟩
  | cons e es ih =>
      rw [ChainState.extendAll_cons, bind_eq_ok] at hext
      obtain ⟨chain₁, hext₁, hext⟩ := hext
      obtain ⟨st₁, h₁, hv₁, rfl, hb₁⟩ := checkEntry_ok hv hext₁ (hes e List.mem_cons_self)
      obtain ⟨st', h', hv', hc', hb'⟩ := ih hv₁ hext fun e' he' =>
        hes e' (List.mem_cons_of_mem _ he')
      refine ⟨st', ?_, hv', hc', hb'.trans hb₁⟩
      rw [checkEntries, h₁]
      exact h'

end EntryCheck

end Agenomic.Ledger
