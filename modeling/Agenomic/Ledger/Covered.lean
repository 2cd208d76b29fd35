import Agenomic.Ledger.VerifyTotal

/-!
# Blocks over an accepted chain

In a chain a ledger accepts the entry with a sequence number is the entry at that
place, so what a block covers is a slice of the chain (`covered_eq`). A block sealed
over such a slice stands its checks for as long as the chain grows (`Commits.stands`),
and blocks that tile a prefix of the chain, each standing, pass every block check:
**`verifyBlocks_tiles`**.
-/

namespace Agenomic.Ledger

open Lib BlockChain

variable {c : Crypto}

/-- Entries stand at the places they are numbered with. -/
def Numbered (es : List LedgerEntry) : Prop :=
  es.map LedgerEntry.sequenceNumber = List.range es.length

theorem numbered_of_fromEntries {es : List LedgerEntry} {chain : ChainState}
    (h : ChainState.fromEntries es = .ok chain) : Numbered es :=
  (ChainState.fromEntries_sequence h).1

theorem Numbered.init {es : List LedgerEntry} {e : LedgerEntry} (h : Numbered (es ++ [e])) :
    Numbered es ∧ e.sequenceNumber = es.length := by
  rw [Numbered, List.map_append, List.map_singleton, List.length_append, List.length_singleton,
    List.range_succ] at h
  obtain ⟨hinit, hlast⟩ := List.append_inj h (by rw [List.length_map, List.length_range])
  exact ⟨hinit, List.head_eq_of_cons_eq hlast⟩

namespace BlockCheck

/-- The entry with a number is the one at that place. -/
theorem bySeq_numbered {es : List LedgerEntry} (h : Numbered es) (s : Nat) :
    bySeq es s = es[s]? := by
  induction es using List.reverseRecOn with
  | nil => rfl
  | append_singleton es e ih =>
      obtain ⟨hinit, hseq⟩ := h.init
      rw [bySeq, List.reverse_append, List.reverse_singleton, List.singleton_append,
        List.find?_cons, hseq]
      by_cases hs : s = es.length
      · rw [hs, beq_self_eq_true]
        exact (List.getElem?_concat_length).symm
      · rw [beq_false_of_ne (Ne.symm hs)]
        dsimp only
        rw [show es.reverse.find? (fun e => e.sequenceNumber == s) = es[s]? from ih hinit]
        rcases Nat.lt_or_ge s es.length with hlt | hge
        · exact (List.getElem?_append_left hlt).symm
        · rw [List.getElem?_eq_none hge, List.getElem?_eq_none]
          rw [List.length_append, List.length_singleton]
          omega

theorem filterMap_range' {es : List LedgerEntry} (a k : Nat) :
    ((List.range' a k).filterMap fun s => es[s]?.map LedgerEntry.entryHash)
      = ((es.drop a).take k).map LedgerEntry.entryHash := by
  induction k generalizing a with
  | zero => rfl
  | succ k ih =>
      rw [List.range'_succ]
      rcases Nat.lt_or_ge a es.length with hlt | hge
      · rw [List.drop_eq_getElem_cons hlt, List.take_succ_cons, List.map_cons, ← ih (a + 1)]
        refine List.filterMap_cons_some ?_
        rw [List.getElem?_eq_getElem hlt]
        rfl
      · rw [List.drop_eq_nil_of_le hge, List.take_nil, List.map_nil]
        rw [List.filterMap_cons_none (by rw [List.getElem?_eq_none hge]; rfl), ih (a + 1),
          List.drop_eq_nil_of_le (by omega), List.take_nil, List.map_nil]

/-- **What a block covers is a slice of the chain.** -/
theorem covered_eq {es : List LedgerEntry} (h : Numbered es) (b : LedgerBlock) :
    covered es b = ((es.drop b.startSequenceNumber).take
      (b.endSequenceNumber + 1 - b.startSequenceNumber)).map LedgerEntry.entryHash := by
  rw [covered, ← filterMap_range']
  simp only [bySeq_numbered h]

/-- A block inside a chain covers the same when the chain grows. -/
theorem covered_append {es fs : List LedgerEntry} (h : Numbered (es ++ fs)) (hes : Numbered es)
    {b : LedgerBlock} (hb : b.endSequenceNumber < es.length)
    (hle : b.startSequenceNumber ≤ b.endSequenceNumber) :
    covered (es ++ fs) b = covered es b := by
  rw [covered_eq h, covered_eq hes, List.drop_append_of_le_length (by omega),
    List.take_append_of_le_length (by rw [List.length_drop]; omega)]

end BlockCheck

theorem Stands.append {keys : SigningKeyStore c} {es fs : List LedgerEntry} {b : LedgerBlock}
    (h : Stands keys es b) (hall : Numbered (es ++ fs)) (hes : Numbered es)
    (hb : b.endSequenceNumber < es.length) : Stands keys (es ++ fs) b := by
  have hcovered := BlockCheck.covered_append hall hes hb h.range
  exact ⟨h.hash, h.signature, h.range, by rw [hcovered, h.complete],
    by rw [hcovered, h.entriesHash], by rw [hcovered, h.merkleRoot]⟩

/-- A block over entries of a chain from some place on stands. -/
theorem BlockChain.Commits.stands {keys : SigningKeyStore c} {es : List LedgerEntry}
    {b : LedgerBlock} {start k : Nat} (h : Commits c b ((es.drop start).take k))
    (hcontig : checkContiguous ((es.drop start).take k) = .ok ()) (hes : Numbered es)
    (hhash : b.hashIsValid c = true) (hstart : b.startSequenceNumber = start)
    (hsig : ∃ vk, keys.verifyingKey b.signingKeyId = .ok vk ∧ b.verifySignature c vk = .ok ()) :
    Stands keys es b ∧ b.endSequenceNumber + 1 = min es.length (start + k) := by
  obtain ⟨-, hend⟩ := h.sequence hcontig
  have hpos : ((es.drop start).take k).length ≠ 0 := by
    intro hzero
    have hnil := List.eq_nil_of_length_eq_zero hzero
    have hstarts := h.starts
    rw [hnil] at hstarts
    cases hstarts
  rw [List.length_take, List.length_drop] at hend hpos
  have hcovered : BlockCheck.covered es b
      = ((es.drop start).take k).map LedgerEntry.entryHash := by
    rw [BlockCheck.covered_eq hes, hstart]
    congr 1
    rcases Nat.le_total k (es.length - start) with hk | hk
    · congr 1
      omega
    · rw [List.take_of_length_le, List.take_of_length_le] <;> rw [List.length_drop] <;> omega
  refine ⟨⟨hhash, hsig, by omega, ?_, ?_, ?_⟩, by omega⟩
  · rw [hcovered, List.length_map, h.entryCount]
  · rw [hcovered, h.entriesHash]
  · rw [hcovered, h.merkleRoot]

/-! ## Blocks that tile -/

namespace BlockCheck

/-- The wiring and the ranges found nothing, and the next block starts at `next`. -/
structure Tiling (st : BlockCheck) (next : Nat) : Prop where
  chainValid : st.found.chainValid = true
  coverageGaps : st.found.coverageGaps = []
  rangeOverlaps : st.found.rangeOverlaps = []
  next : st.prevEnd = none ∧ next = 0 ∨ ∃ e, st.prevEnd = some e ∧ next = e + 1

/-- The checks of the content leave the wiring and the ranges alone. -/
theorem checkContent_kept {sorted : List LedgerEntry} {found found' : BlockVerification}
    {b : LedgerBlock} (h : checkContent c sorted found b = .ok found') :
    found'.chainValid = found.chainValid ∧ found'.coverageGaps = found.coverageGaps
      ∧ found'.rangeOverlaps = found.rangeOverlaps := by
  rw [checkContent] at h
  dsimp only at h
  split at h
  · cases h
    exact ⟨rfl, rfl, rfl⟩
  · rw [bind_eq_ok] at h
    obtain ⟨root, -, h⟩ := h
    split at h <;> cases h <;> split <;> exact ⟨rfl, rfl, rfl⟩

theorem checkSeal_kept (keys : SigningKeyStore c) (found : BlockVerification) (b : LedgerBlock) :
    (checkSeal keys found b).chainValid = found.chainValid
      ∧ (checkSeal keys found b).coverageGaps = found.coverageGaps
      ∧ (checkSeal keys found b).rangeOverlaps = found.rangeOverlaps := by
  rw [checkSeal]
  split <;> split <;> exact ⟨rfl, rfl, rfl⟩

theorem checkWiring_tiling {st : BlockCheck} {next : Nat} {b : LedgerBlock} (h : st.Tiling next)
    (hprev : b.previousBlockHash = st.prevHash) : (st.checkWiring b).Tiling next := by
  have hsame : st.checkWiring b = { st with prevHash := b.blockHash } := by
    rw [checkWiring, if_neg (fun hne => hne.1 hprev)]
  rw [hsame]
  exact ⟨h.chainValid, h.coverageGaps, h.rangeOverlaps, h.next⟩

theorem rangeFound_tiling {st : BlockCheck} {next : Nat} {b : LedgerBlock}
    {found : BlockVerification} (hst : st.Tiling next) (hstart : b.startSequenceNumber = next)
    (h : st.rangeFound b = .ok found) : found = st.found := by
  rw [rangeFound] at h
  rcases hst.next with ⟨hprev, hnext⟩ | ⟨e, hprev, hnext⟩
  · rw [hprev] at h
    dsimp only at h
    rw [if_neg (by omega)] at h
    exact (Except.ok.inj h).symm
  · rw [hprev] at h
    dsimp only at h
    rw [bind_eq_ok] at h
    obtain ⟨next', hadd, h⟩ := h
    have hsucc : next' = e + 1 := by
      rw [addU64] at hadd
      split at hadd
      · exact (Except.ok.inj hadd).symm
      · cases hadd
    rw [if_neg (by omega), if_neg (by omega)] at h
    exact (Except.ok.inj h).symm

theorem checkRange_tiling {st st' : BlockCheck} {next : Nat} {b : LedgerBlock}
    (hst : st.Tiling next) (hstart : b.startSequenceNumber = next)
    (hle : b.startSequenceNumber ≤ b.endSequenceNumber) (h : st.checkRange b = .ok st') :
    st'.Tiling (b.endSequenceNumber + 1) ∧ st'.prevHash = st.prevHash := by
  rw [checkRange, bind_eq_ok] at h
  obtain ⟨found, hfound, h⟩ := h
  cases h
  have hmax : max b.endSequenceNumber (st.prevEnd.getD 0) = b.endSequenceNumber := by
    rcases hst.next with ⟨hprev, -⟩ | ⟨e, hprev, hnext⟩
    · rw [hprev, Option.getD_none, Nat.max_zero]
    · rw [hprev, Option.getD_some]
      omega
  rw [rangeFound_tiling hst hstart hfound, hmax]
  exact ⟨⟨hst.chainValid, hst.coverageGaps, hst.rangeOverlaps, .inr ⟨_, rfl, rfl⟩⟩, rfl⟩

theorem checkBlock_tiling {keys : SigningKeyStore c} {sorted : List LedgerEntry}
    {st st' : BlockCheck} {next : Nat} {b : LedgerBlock} (hst : st.Tiling next)
    (hprev : b.previousBlockHash = st.prevHash) (hstart : b.startSequenceNumber = next)
    (hle : b.startSequenceNumber ≤ b.endSequenceNumber)
    (h : st.checkBlock keys sorted b = .ok st') :
    st'.Tiling (b.endSequenceNumber + 1) ∧ st'.prevHash = b.blockHash := by
  rw [checkBlock, bind_eq_ok] at h
  obtain ⟨st₁, h₁, h⟩ := h
  rw [bind_eq_ok] at h
  obtain ⟨found, hfound, h⟩ := h
  cases h
  obtain ⟨ht₁, hhash⟩ := checkRange_tiling (checkWiring_tiling hst hprev) hstart hle h₁
  obtain ⟨hc, hg, ho⟩ := checkContent_kept hfound
  obtain ⟨hc', hg', ho'⟩ := checkSeal_kept keys st₁.found b
  refine ⟨⟨?_, ?_, ?_, ht₁.next⟩, hhash⟩
  · rw [hc, hc', ht₁.chainValid]
  · rw [hg, hg', ht₁.coverageGaps]
  · rw [ho, ho', ht₁.rangeOverlaps]

/-- Blocks that tile keep the wiring and the ranges in order. -/
theorem checkBlocks_tiling {keys : SigningKeyStore c} {sorted : List LedgerEntry}
    {st st' : BlockCheck} {next : Nat} {bs : List LedgerBlock} (hst : st.Tiling next)
    (htiles : Tiles next st.prevHash bs) (h : st.checkBlocks keys sorted bs = .ok st') :
    st'.Tiling (nextOf next bs) := by
  induction bs generalizing st next with
  | nil =>
      cases h
      exact hst
  | cons b bs ih =>
      rw [checkBlocks, bind_eq_ok] at h
      obtain ⟨st₁, h₁, h⟩ := h
      obtain ⟨hstart, hle, hprev, hrest⟩ := htiles
      obtain ⟨ht₁, hhash⟩ := checkBlock_tiling hst hprev hstart hle h₁
      rw [nextOf_cons]
      exact ih ht₁ (by rw [hhash]; exact hrest) h

end BlockCheck

/-- The entries behind the blocks, as a report gives them. -/
def tailRange (next total : Nat) : Option (Nat × Nat) :=
  if next < total then some (next, total - 1) else none

theorem unsealedTail_eq {st : BlockCheck} {next : Nat} {es : List LedgerEntry}
    (hst : st.Tiling next) (hes : Numbered es) :
    unsealedTail st.prevEnd es = tailRange next es.length := by
  cases es using List.reverseRecOn with
  | nil =>
      rw [tailRange, List.length_nil, if_neg (Nat.not_lt_zero _)]
      cases st.prevEnd <;> rfl
  | append_singleton es e =>
      have hseq := hes.init.2
      unfold unsealedTail
      rw [tailRange, List.getLast?_concat, List.length_append, List.length_singleton]
      rcases hst.next with ⟨hprev, hnext⟩ | ⟨last, hprev, hnext⟩
      · rw [hprev, hnext, if_pos (Nat.succ_pos _)]
        dsimp only
        rw [hseq]
        rfl
      · rw [hprev, hnext]
        dsimp only
        rw [hseq]
        by_cases hlt : last < es.length
        · rw [if_pos hlt, if_pos (by omega)]
          rfl
        · rw [if_neg hlt, if_neg (by omega)]

/-- **Blocks that tile a chain and stand pass every block check.** -/
theorem verifyBlocks_tiles {keys : SigningKeyStore c} {es : List LedgerEntry}
    {blocks : List LedgerBlock} (hes : Numbered es) (htiles : Tiles 0 genesisBlockHash blocks)
    (hstands : ∀ b ∈ blocks, Stands keys es b)
    (hends : ∀ b ∈ blocks.dropLast, b.endSequenceNumber + 1 < 18446744073709551616) :
    ∃ bv, verifyBlocks keys es blocks = .ok bv ∧ bv.valid = true
      ∧ bv.unsealedTail = tailRange (nextOf 0 blocks) es.length := by
  have hreadable : ∀ b ∈ blocks, BlockCheck.ContentReadable es b := fun b hb _ _ =>
    (merkleRoot_ok_iff (c := c) _).mp ⟨_, (hstands b hb).merkleRoot⟩
  have hnone : blocks ≠ [] → ∀ e, (BlockCheck.start blocks.length).prevEnd = some e →
      e + 1 < 18446744073709551616 := by
    intro _ e he
    cases he
  obtain ⟨st, hst⟩ := (BlockCheck.checkBlocks_ok_iff keys es (BlockCheck.start blocks.length)
    blocks).mpr ⟨hnone, hends, hreadable⟩
  have hstart : (BlockCheck.start blocks.length).Tiling 0 := ⟨rfl, rfl, rfl, .inl ⟨rfl, rfl⟩⟩
  have htiling := BlockCheck.checkBlocks_tiling hstart htiles hst
  refine ⟨_, by rw [verifyBlocks, hst]; rfl, ?_, unsealedTail_eq htiling hes⟩
  refine BlockVerification.clean_iff.mpr ⟨htiling.chainValid, ?_, htiling.coverageGaps,
    htiling.rangeOverlaps⟩
  exact (BlockCheck.standing_checkBlocks hst).mpr ⟨rfl, hstands⟩

end Agenomic.Ledger
