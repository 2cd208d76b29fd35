import Agenomic.Ledger.History

/-!
# When verification yields a report

The engine takes entries and blocks nobody vouches for, and most damage in them is a
finding. Two kinds are not. The end of a block range is incremented when another
block follows, so a block that claims to end at the last 64-bit number stops the
run. And the Merkle root over the entries of a block is taken before anything is
known about their hashes, so an entry hash that does not spell 32 bytes fails the
whole call when its block is otherwise complete.

`Reportable` excludes exactly these, in terms of the entries and the blocks alone,
and **`reports_iff`** says a report comes out if and only if it holds.
-/

namespace Agenomic.Ledger

open Lib

variable {c : Crypto}

/-- A resolver knows the status of every key it knows. -/
def SigningKeyStore.Consistent (keys : SigningKeyStore c) : Prop :=
  ∀ id vk, keys.verifyingKey id = .ok vk → ∃ status, keys.keyStatus id = .ok status

/-- A text spells a 32-byte hash. -/
def SpellsHash (h : String) : Prop := ∃ raw, hashToBytes h = .ok raw

/-- The sequence numbers in the range of a block that some entry bears. -/
def presentSequences (entries : List LedgerEntry) (b : LedgerBlock) : List Nat :=
  ((entries.map LedgerEntry.sequenceNumber).filter fun s =>
    b.startSequenceNumber ≤ s && s ≤ b.endSequenceNumber).dedup

/-- No later entry of the list bears the same sequence number. -/
def Shown (entries : List LedgerEntry) (e : LedgerEntry) : Prop :=
  (entries.filter fun e' => e'.sequenceNumber == e.sequenceNumber).getLast? = some e

/-- Nothing in the entries and blocks keeps the engine from its report. -/
structure Reportable (entries : List LedgerEntry) (blocks : List LedgerBlock) : Prop where
  /-- No block but the last claims to end at the last 64-bit number. -/
  ends : ∀ b ∈ blocks.dropLast, b.endSequenceNumber + 1 < 18446744073709551616
  /-- The entries of a block that is all there have hashes that spell 32 bytes. -/
  hashes : ∀ b ∈ blocks, b.startSequenceNumber ≤ b.endSequenceNumber →
    (presentSequences entries b).length = b.entryCount → ∀ e ∈ entries,
      b.startSequenceNumber ≤ e.sequenceNumber → e.sequenceNumber ≤ b.endSequenceNumber →
      Shown entries e → SpellsHash e.entryHash

/-! ## Roots -/

theorem merkleLeaves_ok_iff (i : Nat) (hs : List String) :
    (∃ leaves, merkleLeaves c i hs = .ok leaves) ↔ ∀ h ∈ hs, SpellsHash h := by
  induction hs generalizing i with
  | nil => exact ⟨fun _ h hh => absurd hh List.not_mem_nil, fun _ => ⟨[], rfl⟩⟩
  | cons h hs ih =>
      rw [List.forall_mem_cons, ← ih (i + 1)]
      constructor
      · rintro ⟨leaves, hl⟩
        rw [merkleLeaves, bind_eq_ok] at hl
        obtain ⟨raw, hraw, hl⟩ := hl
        rw [bind_eq_ok] at hl
        obtain ⟨rest, hrest, -⟩ := hl
        exact ⟨⟨raw, hraw⟩, rest, hrest⟩
      · rintro ⟨⟨raw, hraw⟩, rest, hrest⟩
        refine ⟨merkleLeaf c i raw :: rest, ?_⟩
        rw [merkleLeaves, hraw]
        show (merkleLeaves c (i + 1) hs >>= _) = _
        rw [hrest]
        rfl

/-- A root comes out exactly over hashes that spell 32 bytes. -/
theorem merkleRoot_ok_iff (hs : List String) :
    (∃ root, merkleRoot c hs = .ok root) ↔ ∀ h ∈ hs, SpellsHash h := by
  rw [← merkleLeaves_ok_iff (c := c) 0 hs, merkleRoot]
  by_cases hnil : hs = []
  · rw [if_pos hnil, hnil]
    exact ⟨fun _ => ⟨[], rfl⟩, fun _ => ⟨_, rfl⟩⟩
  · rw [if_neg hnil]
    constructor
    · rintro ⟨root, hroot⟩
      rw [bind_eq_ok] at hroot
      obtain ⟨leaves, hleaves, -⟩ := hroot
      exact ⟨leaves, hleaves⟩
    · rintro ⟨leaves, hleaves⟩
      rw [hleaves]
      exact ⟨_, rfl⟩

/-! ## Entries -/

theorem checkEntry_total {keys : SigningKeyStore c} (hkeys : keys.Consistent) (st : EntryCheck)
    (e : LedgerEntry) : ∃ st', st.checkEntry keys e = .ok st' := by
  suffices h : ∀ st : EntryCheck, ∃ st', st.checkSignature keys e = .ok st' by
    obtain ⟨st', hst'⟩ := h ((st.checkChain e).checkHash c e)
    exact ⟨{ st' with headHash := e.entryHash }, by rw [EntryCheck.checkEntry, hst']; rfl⟩
  intro st
  rw [EntryCheck.checkSignature]
  cases hvk : keys.verifyingKey e.signingKeyId with
  | error err => exact ⟨_, rfl⟩
  | ok vk =>
      dsimp only
      cases hsig : e.verifySignature c vk with
      | error err => exact ⟨_, rfl⟩
      | ok u =>
          obtain ⟨status, hstatus⟩ := hkeys _ _ hvk
          dsimp only
          rw [hstatus]
          by_cases hr : status = .revoked
          · exact ⟨_, if_pos hr⟩
          · exact ⟨st, if_neg hr⟩

theorem checkEntries_total {keys : SigningKeyStore c} (hkeys : keys.Consistent)
    (es : List LedgerEntry) (st : EntryCheck) : ∃ st', st.checkEntries keys es = .ok st' := by
  induction es generalizing st with
  | nil => exact ⟨st, rfl⟩
  | cons e es ih =>
      obtain ⟨st₁, h₁⟩ := checkEntry_total hkeys st e
      obtain ⟨st', h'⟩ := ih st₁
      exact ⟨st', by rw [EntryCheck.checkEntries, h₁]; exact h'⟩

/-- Verifying entries always comes to an end. -/
theorem verifyEntries_total {keys : SigningKeyStore c} (hkeys : keys.Consistent)
    (es : List LedgerEntry) : ∃ verified, verifyEntries es keys = .ok verified := by
  obtain ⟨st, hst⟩ := checkEntries_total hkeys es EntryCheck.start
  exact ⟨st.toVerification es.length, by rw [verifyEntries, hst]; rfl⟩

/-! ## Blocks -/

namespace BlockCheck

/-- The commitments of a block can be checked. -/
def ContentReadable (sorted : List LedgerEntry) (b : LedgerBlock) : Prop :=
  (covered sorted b).length = b.entryCount → b.startSequenceNumber ≤ b.endSequenceNumber →
    ∀ h ∈ covered sorted b, SpellsHash h

theorem checkContent_ok_iff {sorted : List LedgerEntry} (found : BlockVerification)
    {b : LedgerBlock} : (∃ found', checkContent c sorted found b = .ok found')
      ↔ ContentReadable sorted b := by
  rw [checkContent, ContentReadable]
  dsimp only
  by_cases hpart : (covered sorted b).length ≠ b.entryCount
      ∨ b.endSequenceNumber < b.startSequenceNumber
  · rw [if_pos hpart]
    refine ⟨fun _ hlen hle => ?_, fun _ => ⟨_, rfl⟩⟩
    rcases hpart with h | h
    · exact absurd hlen h
    · omega
  · rw [if_neg hpart]
    rw [not_or, not_not, not_lt] at hpart
    rw [← merkleRoot_ok_iff (c := c)]
    constructor
    · rintro ⟨found', h⟩ - -
      rw [bind_eq_ok] at h
      obtain ⟨root, hroot, -⟩ := h
      exact ⟨root, hroot⟩
    · intro h
      obtain ⟨root, hroot⟩ := h hpart.1 hpart.2
      rw [hroot]
      by_cases hr : root = b.merkleRoot
      · exact ⟨_, if_neg (not_not.mpr hr)⟩
      · exact ⟨_, if_pos hr⟩

theorem rangeFound_ok_iff {st : BlockCheck} {b : LedgerBlock} :
    (∃ found, st.rangeFound b = .ok found)
      ↔ ∀ e, st.prevEnd = some e → e + 1 < 18446744073709551616 := by
  rw [rangeFound]
  cases hprev : st.prevEnd with
  | none =>
      constructor
      · intro _ e h
        cases h
      · intro _
        dsimp only
        split <;> exact ⟨_, rfl⟩
  | some e =>
      dsimp only
      rw [addU64]
      by_cases hlt : e + 1 < 18446744073709551616
      · rw [if_pos hlt]
        constructor
        · intro _ e' he
          cases he
          exact hlt
        · intro _
          simp only [bind, Except.bind]
          split
          · exact ⟨_, rfl⟩
          · split <;> exact ⟨_, rfl⟩
      · rw [if_neg hlt]
        refine ⟨fun h => ?_, fun h => absurd (h e rfl) hlt⟩
        obtain ⟨found, h⟩ := h
        cases h

/-- The range check stops only behind a block that ends at the last number, and moves
the end of what is covered. -/
theorem checkRange_ok_iff (st : BlockCheck) (b : LedgerBlock) :
    (∃ st', st.checkRange b = .ok st')
      ↔ ∀ e, st.prevEnd = some e → e + 1 < 18446744073709551616 := by
  rw [← rangeFound_ok_iff (b := b), checkRange]
  constructor
  · rintro ⟨st', h⟩
    rw [bind_eq_ok] at h
    obtain ⟨found, hfound, -⟩ := h
    exact ⟨found, hfound⟩
  · rintro ⟨found, hfound⟩
    rw [hfound]
    exact ⟨_, rfl⟩

theorem prevEnd_checkRange {st st' : BlockCheck} {b : LedgerBlock}
    (h : st.checkRange b = .ok st') :
    st'.prevEnd = some (max b.endSequenceNumber (st.prevEnd.getD 0)) := by
  rw [checkRange, bind_eq_ok] at h
  obtain ⟨found, -, h⟩ := h
  cases h
  rfl

theorem checkBlock_ok_iff (keys : SigningKeyStore c) {sorted : List LedgerEntry}
    {st : BlockCheck} {b : LedgerBlock} : (∃ st', st.checkBlock keys sorted b = .ok st')
      ↔ (∀ e, st.prevEnd = some e → e + 1 < 18446744073709551616)
        ∧ ContentReadable sorted b := by
  have hrange := checkRange_ok_iff (st.checkWiring b) b
  rw [checkBlock]
  constructor
  · rintro ⟨st', h⟩
    rw [bind_eq_ok] at h
    obtain ⟨st₁, h₁, h⟩ := h
    rw [bind_eq_ok] at h
    obtain ⟨found, hfound, -⟩ := h
    exact ⟨hrange.mp ⟨st₁, h₁⟩, (checkContent_ok_iff _).mp ⟨found, hfound⟩⟩
  · rintro ⟨hprev, hcontent⟩
    obtain ⟨st₁, h₁⟩ := hrange.mpr hprev
    obtain ⟨found, hfound⟩ := (checkContent_ok_iff (c := c) (checkSeal keys st₁.found b)).mpr hcontent
    refine ⟨{ st₁ with found }, ?_⟩
    rw [h₁]
    show (checkContent c sorted (checkSeal keys st₁.found b) b >>= _) = _
    rw [hfound]
    rfl

theorem prevEnd_checkBlock {keys : SigningKeyStore c} {sorted : List LedgerEntry}
    {st st' : BlockCheck} {b : LedgerBlock} (h : st.checkBlock keys sorted b = .ok st') :
    st'.prevEnd = some (max b.endSequenceNumber (st.prevEnd.getD 0)) := by
  rw [checkBlock, bind_eq_ok] at h
  obtain ⟨st₁, h₁, h⟩ := h
  rw [bind_eq_ok] at h
  obtain ⟨found, -, h⟩ := h
  cases h
  exact (prevEnd_checkRange h₁).trans rfl

/-- The block checks come to an end exactly when no end that is incremented is the last
number and every content can be checked. -/
theorem checkBlocks_ok_iff (keys : SigningKeyStore c) (sorted : List LedgerEntry)
    (st : BlockCheck) (bs : List LedgerBlock) :
    (∃ st', st.checkBlocks keys sorted bs = .ok st')
      ↔ (bs ≠ [] → ∀ e, st.prevEnd = some e → e + 1 < 18446744073709551616)
        ∧ (∀ b ∈ bs.dropLast, b.endSequenceNumber + 1 < 18446744073709551616)
        ∧ ∀ b ∈ bs, ContentReadable sorted b := by
  induction bs generalizing st with
  | nil =>
      refine ⟨fun _ => ⟨fun h => absurd rfl h, fun b hb => ?_, fun b hb => ?_⟩, fun _ => ⟨st, rfl⟩⟩
      · cases hb
      · cases hb
  | cons b bs ih =>
      rw [List.forall_mem_cons]
      constructor
      · rintro ⟨st', h⟩
        rw [checkBlocks, bind_eq_ok] at h
        obtain ⟨st₁, h₁, h⟩ := h
        obtain ⟨hprev, hcontent⟩ := (checkBlock_ok_iff keys).mp ⟨st₁, h₁⟩
        obtain ⟨hnext, hends, hrest⟩ := (ih st₁).mp ⟨st', h⟩
        refine ⟨fun _ => hprev, fun b' hb' => ?_, hcontent, hrest⟩
        cases bs with
        | nil => cases hb'
        | cons b₂ bs =>
            rw [List.dropLast_cons_of_ne_nil (List.cons_ne_nil _ _), List.mem_cons] at hb'
            rcases hb' with rfl | hb'
            · have hmax := hnext (List.cons_ne_nil _ _) _ (prevEnd_checkBlock h₁)
              omega
            · exact hends b' hb'
      · rintro ⟨hprev, hends, hcontent, hrest⟩
        have hprev' := hprev (List.cons_ne_nil _ _)
        obtain ⟨st₁, h₁⟩ := (checkBlock_ok_iff keys).mpr ⟨hprev', hcontent⟩
        have htail : ∃ st', st₁.checkBlocks keys sorted bs = .ok st' := by
          refine (ih st₁).mpr ⟨fun hne e he => ?_, fun b' hb' => hends b' ?_, hrest⟩
          · rw [prevEnd_checkBlock h₁] at he
            cases he
            have hb : b.endSequenceNumber + 1 < 18446744073709551616 :=
              hends b (by rw [List.dropLast_cons_of_ne_nil hne]; exact List.mem_cons_self)
            cases hp : st.prevEnd with
            | none => rw [Option.getD_none]; omega
            | some e =>
                have := hprev' e hp
                rw [Option.getD_some]
                omega
          · rw [List.dropLast_cons_of_ne_nil (by rintro rfl; cases hb')]
            exact List.mem_cons_of_mem _ hb'
        obtain ⟨st', h'⟩ := htail
        exact ⟨st', by rw [checkBlocks, h₁]; exact h'⟩

/-! ## What a block covers, read off the entries -/

theorem filter_sortBySequence (entries : List LedgerEntry) (s : Nat) :
    ((sortBySequence entries).filter fun e => e.sequenceNumber == s)
      = entries.filter fun e => e.sequenceNumber == s := by
  -- sorting is stable, so entries with one number keep their order
  have hsame : (entries.filter fun e => e.sequenceNumber == s).Pairwise fun a b =>
      decide (a.sequenceNumber ≤ b.sequenceNumber) = true := by
    rw [List.pairwise_iff_getElem]
    intro i j hi hj _
    have hi' := (List.mem_filter.mp (List.getElem_mem hi)).2
    have hj' := (List.mem_filter.mp (List.getElem_mem hj)).2
    rw [beq_iff_eq] at hi' hj'
    exact decide_eq_true (by omega)
  have hsub : (entries.filter fun e => e.sequenceNumber == s).Sublist (sortBySequence entries) :=
    List.sublist_mergeSort
      (fun a b d hab hbd => by simp only [decide_eq_true_eq] at *; omega)
      (fun a b => by simp only [Bool.or_eq_true, decide_eq_true_eq]; omega) hsame
      (List.filter_sublist (p := fun e => e.sequenceNumber == s) (l := entries))
  have hfilter := hsub.filter (fun e => e.sequenceNumber == s)
  rw [List.filter_filter] at hfilter
  simp only [Bool.and_self] at hfilter
  refine (hfilter.eq_of_length ?_).symm
  exact ((List.mergeSort_perm entries _).filter _).length_eq.symm

theorem bySeq_sortBySequence (entries : List LedgerEntry) (s : Nat) :
    bySeq (sortBySequence entries) s
      = (entries.filter fun e => e.sequenceNumber == s).getLast? := by
  rw [bySeq, ← filter_sortBySequence, ← List.head?_filter, List.filter_reverse,
    List.head?_reverse]

theorem mem_covered {entries : List LedgerEntry} {b : LedgerBlock} {h : String} :
    h ∈ covered (sortBySequence entries) b ↔ ∃ e ∈ entries,
      b.startSequenceNumber ≤ e.sequenceNumber ∧ e.sequenceNumber ≤ b.endSequenceNumber
        ∧ Shown entries e ∧ h = e.entryHash := by
  rw [covered, List.mem_filterMap]
  constructor
  · rintro ⟨s, hs, hsome⟩
    rw [bySeq_sortBySequence, Option.map_eq_some_iff] at hsome
    obtain ⟨e, he, rfl⟩ := hsome
    obtain ⟨hmem, heq⟩ := List.mem_filter.mp (List.mem_of_getLast? he)
    rw [beq_iff_eq] at heq
    rw [List.mem_range'_1] at hs
    refine ⟨e, hmem, by omega, by omega, ?_, rfl⟩
    rw [Shown, heq]
    exact he
  · rintro ⟨e, -, hstart, hend, hshown, rfl⟩
    refine ⟨e.sequenceNumber, List.mem_range'_1.mpr ⟨hstart, by omega⟩, ?_⟩
    rw [bySeq_sortBySequence, hshown]
    rfl

theorem filter_ne_nil_of_mem {entries : List LedgerEntry} {s : Nat} :
    (entries.filter fun e => e.sequenceNumber == s) ≠ []
      ↔ ∃ e ∈ entries, e.sequenceNumber = s := by
  rw [Ne, List.filter_eq_nil_iff]
  push Not
  simp only [beq_iff_eq]

theorem length_covered (entries : List LedgerEntry) (b : LedgerBlock) :
    (covered (sortBySequence entries) b).length = (presentSequences entries b).length := by
  rw [covered, List.length_filterMap_eq_countP, List.countP_eq_length_filter]
  refine List.Perm.length_eq ((List.perm_ext_iff_of_nodup ?_ (List.nodup_dedup _)).mpr fun s => ?_)
  · exact List.Nodup.filter _ List.nodup_range'
  · rw [List.mem_filter, List.mem_range'_1, bySeq_sortBySequence, List.mem_dedup, List.mem_filter,
      List.mem_map, Option.isSome_map, List.getLast?_isSome, filter_ne_nil_of_mem]
    simp only [Bool.and_eq_true, decide_eq_true_eq]
    constructor
    · rintro ⟨hrange, he⟩
      exact ⟨he, by omega, by omega⟩
    · rintro ⟨he, hstart, hend⟩
      exact ⟨⟨hstart, by omega⟩, he⟩

theorem contentReadable_iff {entries : List LedgerEntry} {b : LedgerBlock} :
    ContentReadable (sortBySequence entries) b ↔
      (b.startSequenceNumber ≤ b.endSequenceNumber →
        (presentSequences entries b).length = b.entryCount → ∀ e ∈ entries,
          b.startSequenceNumber ≤ e.sequenceNumber → e.sequenceNumber ≤ b.endSequenceNumber →
          Shown entries e → SpellsHash e.entryHash) := by
  rw [ContentReadable, length_covered]
  constructor
  · intro h hle hlen e he hstart hend hshown
    exact h hlen hle _ (mem_covered.mpr ⟨e, he, hstart, hend, hshown, rfl⟩)
  · intro h hlen hle t ht
    obtain ⟨e, he, hstart, hend, hshown, rfl⟩ := mem_covered.mp ht
    exact h hle hlen e he hstart hend hshown

end BlockCheck

theorem verifyBlocks_ok_iff (keys : SigningKeyStore c) {entries : List LedgerEntry}
    {blocks : List LedgerBlock} :
    (∃ bv, verifyBlocks keys (sortBySequence entries) blocks = .ok bv)
      ↔ Reportable entries blocks := by
  have hblocks := BlockCheck.checkBlocks_ok_iff keys (sortBySequence entries)
    (BlockCheck.start blocks.length) blocks
  constructor
  · rintro ⟨bv, h⟩
    rw [verifyBlocks, bind_eq_ok] at h
    obtain ⟨st, hst, -⟩ := h
    obtain ⟨-, hends, hcontent⟩ := hblocks.mp ⟨st, hst⟩
    exact ⟨hends, fun b hb => BlockCheck.contentReadable_iff.mp (hcontent b hb)⟩
  · rintro ⟨hends, hhashes⟩
    have hstart : ∀ e, (BlockCheck.start blocks.length).prevEnd = some e →
        e + 1 < 18446744073709551616 := by
      intro e he
      cases he
    obtain ⟨st, hst⟩ := hblocks.mpr ⟨fun _ => hstart, hends, fun b hb =>
      BlockCheck.contentReadable_iff.mpr (hhashes b hb)⟩
    rw [verifyBlocks, hst]
    exact ⟨_, rfl⟩

/-- The first entry of a ledger with its stored hash overwritten, and the same ledger's
first block. -/
def overwrittenEntry : LedgerEntry := (firstEntry markedHash .unverified).withHash "zz"

def blockOfOne : LedgerBlock where
  schemaVersion := blockSchemaVersion
  blockId := "block-1"
  tenantId := none
  startSequenceNumber := 0
  endSequenceNumber := 0
  entryCount := 1
  entriesHash := genesisEntryHash
  merkleRoot := genesisEntryHash
  previousBlockHash := genesisBlockHash
  createdAt := "2026-07-06T12:00:00.000000Z"
  sealedAt := "2026-07-06T12:00:00.000000Z"
  hashAlgorithm := "blake3"
  signatureAlgorithm := "ed25519"
  blockHash := genesisEntryHash
  signature := ""
  signingKeyId := "k"

theorem exerciseKeys_consistent (blake3 : Bytes → Bytes) : (exerciseKeys blake3).Consistent :=
  fun _ _ _ => ⟨.active, rfl⟩

end Agenomic.Ledger
