import Agenomic.Ledger.Covered

/-!
# Verifying a part of a ledger

An excerpt is a sublist of a chain: the entries of one run, say. Its entries stand the
checks they stood in the chain (`verifyEntries_checked`). A block over an excerpt either
misses entries, and then its range is reported as one that cannot be verified, or it
covers what it covers in the chain (`covered_excerpt`). So none of the blocks that stand
over the chain is reported as harmed over the excerpt: **`verifyBlocks_excerpt`**.
-/

namespace Agenomic.Ledger

open Lib

variable {c : Crypto}

/-! ## Entries out of context -/

/-- The checks of an entry alone left no failure. -/
def NoFailures (st : EntryCheck) : Prop :=
  st.hashFailures = [] ∧ st.signatureFailures = [] ∧ st.unresolvedKeyFailures = []

/-- A checked entry leaves no failure wherever it stands. -/
theorem checkEntry_checked {keys : SigningKeyStore c} {st : EntryCheck} {e : LedgerEntry}
    (hst : NoFailures st) (he : Checked keys e) :
    ∃ st', st.checkEntry keys e = .ok st' ∧ NoFailures st' := by
  obtain ⟨vk, hvk, hsig⟩ := he.signature
  obtain ⟨status, hstatus⟩ := he.status
  have hchain : NoFailures (st.checkChain e) := by
    rw [EntryCheck.checkChain]
    split
    · split <;> exact hst
    · exact hst
  have hhash : (st.checkChain e).checkHash c e = st.checkChain e := by
    rw [EntryCheck.checkHash, if_pos he.hash]
  rw [EntryCheck.checkEntry, hhash, EntryCheck.checkSignature, hvk]
  dsimp only
  rw [hsig]
  dsimp only
  rw [hstatus]
  by_cases hr : status = .revoked
  · subst hr
    exact ⟨_, rfl, hchain⟩
  · simp only [bind, Except.bind, if_neg hr]
    exact ⟨_, rfl, hchain⟩

theorem checkEntries_checked {keys : SigningKeyStore c} {st : EntryCheck}
    {es : List LedgerEntry} (hst : NoFailures st) (hes : ∀ e ∈ es, Checked keys e) :
    ∃ st', st.checkEntries keys es = .ok st' ∧ NoFailures st' := by
  induction es generalizing st with
  | nil => exact ⟨st, rfl, hst⟩
  | cons e es ih =>
      obtain ⟨st₁, h₁, hst₁⟩ := checkEntry_checked hst (hes e List.mem_cons_self)
      obtain ⟨st', h', hst'⟩ := ih hst₁ fun e' he' => hes e' (List.mem_cons_of_mem _ he')
      exact ⟨st', by rw [EntryCheck.checkEntries, h₁]; exact h', hst'⟩

theorem verifyEntries_checked {keys : SigningKeyStore c} {es : List LedgerEntry}
    (hes : ∀ e ∈ es, Checked keys e) : ∃ verified, verifyEntries es keys = .ok verified
      ∧ verified.hashFailures = [] ∧ verified.signatureFailures = []
      ∧ verified.unresolvedKeyFailures = [] := by
  have hstart : NoFailures EntryCheck.start := ⟨rfl, rfl, rfl⟩
  obtain ⟨st, hst, hhash, hsig, hkey⟩ := checkEntries_checked hstart hes
  exact ⟨st.toVerification es.length, by rw [verifyEntries, hst]; rfl, hhash, hsig, hkey⟩

/-! ## The order of an excerpt -/

theorem Numbered.pairwise {es : List LedgerEntry} (h : Numbered es) :
    es.Pairwise fun a b => a.sequenceNumber < b.sequenceNumber := by
  have hlt : (es.map LedgerEntry.sequenceNumber).Pairwise (· < ·) := by
    rw [h]
    exact List.pairwise_lt_range
  exact List.pairwise_map.mp hlt

/-- Entries in order are left as they are. -/
theorem sortBySequence_of_pairwise {es : List LedgerEntry}
    (h : es.Pairwise fun a b => a.sequenceNumber < b.sequenceNumber) :
    sortBySequence es = es :=
  List.mergeSort_of_pairwise (h.imp fun hlt => decide_eq_true (Nat.le_of_lt hlt))

/-- Among increasing numbers no pair repeats one. -/
theorem sequencePairs_increasing (gaps : List (Nat × Nat)) (dups : List Nat) {seqs : List Nat}
    (h : seqs.Pairwise (· < ·)) : (sequencePairs gaps dups seqs).2 = dups := by
  induction seqs generalizing gaps with
  | nil => rfl
  | cons a seqs ih =>
      cases seqs with
      | nil => rfl
      | cons b seqs =>
          obtain ⟨ha, hrest⟩ := List.pairwise_cons.mp h
          have hab := ha b List.mem_cons_self
          rw [sequencePairs, if_neg (by omega)]
          split <;> exact ih _ hrest

theorem buildReport_duplicateSequences {sorted : List LedgerEntry} {verified : LedgerVerification}
    {bv : BlockVerification} {wal : Option WalHealth}
    (h : sorted.Pairwise fun a b => a.sequenceNumber < b.sequenceNumber) :
    (buildReport sorted verified bv wal).duplicateSequences = [] := by
  have hpairs := sequencePairs_increasing [] [] (List.pairwise_map.mpr h)
  have hfound : (sequenceFindings (sorted.map LedgerEntry.sequenceNumber)).2 = [] := by
    rw [sequenceFindings]
    dsimp only
    split
    · split <;> exact hpairs
    · exact hpairs
  rw [buildReport]
  rcases hs : sequenceFindings (sorted.map LedgerEntry.sequenceNumber) with ⟨gaps, dups⟩
  rw [hs] at hfound
  exact hfound

/-! ## Blocks over an excerpt -/

/-- What is behind an item of a sublist is behind it in the list. -/
theorem mem_dropLast_of_filter {α : Type} {p : α → Bool} {xs : List α} {x : α}
    (h : x ∈ (xs.filter p).dropLast) : x ∈ xs.dropLast := by
  induction xs with
  | nil => exact absurd h List.not_mem_nil
  | cons y xs ih =>
      cases xs with
      | nil =>
          by_cases hy : p y = true
          · rw [List.filter_cons_of_pos hy] at h
            exact absurd h List.not_mem_nil
          · rw [List.filter_cons_of_neg hy] at h
            exact absurd h List.not_mem_nil
      | cons z zs =>
          rw [List.dropLast_cons_cons, List.mem_cons]
          by_cases hy : p y = true
          · rw [List.filter_cons_of_pos hy] at h
            cases hrest : (z :: zs).filter p with
            | nil =>
                rw [hrest] at h
                exact absurd h List.not_mem_nil
            | cons w ws =>
                rw [hrest, List.dropLast_cons_cons, List.mem_cons] at h
                rcases h with h | h
                · exact .inl h
                · exact .inr (ih (by rw [hrest]; exact h))
          · rw [List.filter_cons_of_neg hy] at h
            exact .inr (ih h)

/-- Nothing says that a block or what it covers was changed. -/
structure BlockVerification.Unharmed (found : BlockVerification) : Prop where
  merkleMismatches : found.merkleMismatches = []
  entriesHashMismatches : found.entriesHashMismatches = []
  hashFailures : found.hashFailures = []
  signatureFailures : found.signatureFailures = []

namespace BlockCheck

theorem sublist_filterMap {α β : Type} {f g : α → Option β} {xs : List α}
    (h : ∀ x ∈ xs, ∀ y, f x = some y → g x = some y) :
    (xs.filterMap f).Sublist (xs.filterMap g) := by
  induction xs with
  | nil => exact List.Sublist.refl _
  | cons x xs ih =>
      have hrest := ih fun x' hx' => h x' (List.mem_cons_of_mem _ hx')
      cases hf : f x with
      | none =>
          rw [List.filterMap_cons_none hf]
          cases hg : g x with
          | none => rw [List.filterMap_cons_none hg]; exact hrest
          | some y => rw [List.filterMap_cons_some hg]; exact hrest.cons y
      | some y =>
          rw [List.filterMap_cons_some hf,
            List.filterMap_cons_some (h x List.mem_cons_self y hf)]
          exact hrest.cons_cons y

/-- **A block covers no more of an excerpt than of the chain.** -/
theorem covered_excerpt {es excerpt : List LedgerEntry} (hes : Numbered es)
    (hsub : excerpt.Sublist es) (b : LedgerBlock) :
    (covered excerpt b).Sublist (covered es b) := by
  refine sublist_filterMap fun s _ hash hs => ?_
  rw [Option.map_eq_some_iff] at hs ⊢
  obtain ⟨e, he, hhash⟩ := hs
  refine ⟨e, ?_, hhash⟩
  have hseq := List.find?_some he
  rw [beq_iff_eq] at hseq
  have hmem := hsub.subset (List.mem_reverse.mp (List.mem_of_find?_eq_some he))
  obtain ⟨i, hi, rfl⟩ := List.getElem_of_mem hmem
  have hnum : es[i].sequenceNumber = i := by
    have h := congrArg (fun l => l[i]?) hes
    simp only [List.getElem?_map, List.getElem?_eq_getElem hi, Option.map_some,
      List.getElem?_range hi, Option.some.injEq] at h
    exact h
  rw [bySeq_numbered hes, ← hseq, hnum, List.getElem?_eq_getElem hi]

theorem unharmed_checkRange {st st' : BlockCheck} {b : LedgerBlock}
    (hst : st.found.Unharmed) (h : (st.checkWiring b).checkRange b = .ok st') :
    st'.found.Unharmed := by
  have hwiring : (st.checkWiring b).found.Unharmed := by
    rw [checkWiring]
    dsimp only
    split <;> exact ⟨hst.1, hst.2, hst.3, hst.4⟩
  rw [checkRange, bind_eq_ok] at h
  obtain ⟨found, hfound, h⟩ := h
  cases h
  rw [rangeFound] at hfound
  split at hfound
  · rw [bind_eq_ok] at hfound
    obtain ⟨next, -, hfound⟩ := hfound
    split at hfound
    · cases hfound; exact ⟨hwiring.1, hwiring.2, hwiring.3, hwiring.4⟩
    · split at hfound <;> cases hfound <;> exact ⟨hwiring.1, hwiring.2, hwiring.3, hwiring.4⟩
  · split at hfound <;> cases hfound <;> exact ⟨hwiring.1, hwiring.2, hwiring.3, hwiring.4⟩

/-- A block that stands over the chain is not reported as harmed over an excerpt. -/
theorem unharmed_checkContent {keys : SigningKeyStore c} {es excerpt : List LedgerEntry}
    (hes : Numbered es) (hsub : excerpt.Sublist es) {b : LedgerBlock} (hb : Stands keys es b)
    {found found' : BlockVerification} (hfound : found.Unharmed)
    (h : checkContent c excerpt (checkSeal keys found b) b = .ok found') : found'.Unharmed := by
  have hseal : checkSeal keys found b = found := by
    rw [checkSeal, if_pos hb.hash, if_pos (signatureVerifies_iff.mpr hb.signature)]
  rw [hseal, checkContent] at h
  dsimp only at h
  split at h
  · cases h
    exact ⟨hfound.1, hfound.2, hfound.3, hfound.4⟩
  · rename_i hfull
    rw [not_or, not_not] at hfull
    have hcovered : covered excerpt b = covered es b :=
      (covered_excerpt hes hsub b).eq_of_length (by rw [hfull.1, hb.complete])
    rw [hcovered, hb.entriesHash, hb.merkleRoot, if_neg (fun hne => hne rfl)] at h
    simp only [bind, Except.bind, if_neg (fun hne : b.merkleRoot ≠ b.merkleRoot => hne rfl)] at h
    cases h
    exact hfound

theorem unharmed_checkBlocks {keys : SigningKeyStore c} {es excerpt : List LedgerEntry}
    (hes : Numbered es) (hsub : excerpt.Sublist es) {bs : List LedgerBlock}
    (hbs : ∀ b ∈ bs, Stands keys es b) {st st' : BlockCheck} (hst : st.found.Unharmed)
    (h : st.checkBlocks keys excerpt bs = .ok st') : st'.found.Unharmed := by
  induction bs generalizing st with
  | nil =>
      cases h
      exact hst
  | cons b bs ih =>
      rw [checkBlocks, bind_eq_ok] at h
      obtain ⟨st₁, h₁, h⟩ := h
      rw [checkBlock, bind_eq_ok] at h₁
      obtain ⟨st₂, h₂, h₁⟩ := h₁
      rw [bind_eq_ok] at h₁
      obtain ⟨found, hfound, h₁⟩ := h₁
      cases h₁
      have hfound' := unharmed_checkContent hes hsub (hbs b List.mem_cons_self)
        (unharmed_checkRange hst h₂) hfound
      exact ih (fun b' hb' => hbs b' (List.mem_cons_of_mem _ hb')) hfound' h

end BlockCheck

/-- **Blocks that stand over a chain come out unharmed over an excerpt of it.** -/
theorem verifyBlocks_excerpt {keys : SigningKeyStore c} {es excerpt : List LedgerEntry}
    (hes : Numbered es) (hsub : excerpt.Sublist es) {blocks : List LedgerBlock}
    (hstands : ∀ b ∈ blocks, Stands keys es b)
    (hends : ∀ b ∈ blocks.dropLast, b.endSequenceNumber + 1 < 18446744073709551616) :
    ∃ bv, verifyBlocks keys excerpt blocks = .ok bv ∧ bv.Unharmed := by
  have hreadable : ∀ b ∈ blocks, BlockCheck.ContentReadable excerpt b := by
    intro b hb _ _ hash hhash
    have hall := (merkleRoot_ok_iff (c := c) _).mp ⟨_, (hstands b hb).merkleRoot⟩
    exact hall hash ((BlockCheck.covered_excerpt hes hsub b).subset hhash)
  have hnone : blocks ≠ [] → ∀ e, (BlockCheck.start blocks.length).prevEnd = some e →
      e + 1 < 18446744073709551616 := by
    intro _ e he
    cases he
  obtain ⟨st, hst⟩ := (BlockCheck.checkBlocks_ok_iff keys excerpt
    (BlockCheck.start blocks.length) blocks).mpr ⟨hnone, hends, hreadable⟩
  have hstart : (BlockCheck.start blocks.length).found.Unharmed := ⟨rfl, rfl, rfl, rfl⟩
  have hunharmed := BlockCheck.unharmed_checkBlocks hes hsub hstands hstart hst
  refine ⟨_, by rw [verifyBlocks, hst]; rfl, ?_⟩
  exact ⟨hunharmed.1, hunharmed.2, hunharmed.3, hunharmed.4⟩

end Agenomic.Ledger
