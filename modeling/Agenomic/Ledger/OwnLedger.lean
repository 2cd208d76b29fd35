import Agenomic.Ledger.SealFaults
import Agenomic.Ledger.Covered

/-!
# What a ledger produces verifies

A ledger, its keystore and its block chain go through appends, rotations, revocations,
seals of the unsealed tail or of the first part of it, and restarts in any order. `Kept` is what these keep:
the log holds an accepted chain whose entries stand every check under the keys as they
are now, and the block log holds blocks that tile a prefix of it and stand. A key never
stops resolving once something is signed with it, so checks made earlier stay good.

**`accepts_own`**: after any such run full verification passes, and reports as unsealed
exactly what was appended after the last seal.
-/

namespace Agenomic.Ledger

open Lib BlockChain

variable {c : Crypto}

/-- Seal everything no block covers yet into one block, if there is anything. -/
def sealUnsealedRange (keys : SigningKeyStore c) (bc : BlockChain) (blocks : Directory)
    (io : LogOutcome) (ids : SealInputs) (store : Directory) :
    BlockChain × Directory × CliResult (Option LedgerBlock) :=
  match bc.nextStartSequence with
  | .error e => (bc, blocks, .error e)
  | .ok start =>
      match FileLedgerStore.readAll store with
      | .error e => (bc, blocks, .error e)
      | .ok entries =>
          if entries.length ≤ start then (bc, blocks, .ok none)
          else
            let (bc, blocks, res) := bc.seal keys blocks io ids (entries.drop start)
            (bc, blocks, res.map some)

/-- Seal the first entries no block covers yet. -/
def sealFirst (keys : SigningKeyStore c) (bc : BlockChain) (blocks : Directory)
    (io : LogOutcome) (ids : SealInputs) (store : Directory) (k : Nat) :
    BlockChain × Directory × CliResult LedgerBlock :=
  match bc.nextStartSequence with
  | .error e => (bc, blocks, .error e)
  | .ok start =>
      match FileLedgerStore.readAll store with
      | .error e => (bc, blocks, .error e)
      | .ok entries => bc.seal keys blocks io ids ((entries.drop start).take k)

/-- A ledger, its block chain and its keystore, with their directories. -/
structure Site (c : Crypto) where
  store : Directory
  blocks : Directory
  keys : FileKeyStore c
  ledger : Ledger
  chain : BlockChain

/-- What may happen to a ledger that works. -/
inductive SiteOp (c : Crypto) where
  | append (ids : AppendInputs) (draft : LedgerEntryDraft)
  | rotate (sk : c.SigningKey) (now : String)
  | revoke (keyId now : String)
  | seal (ids : SealInputs)
  | sealFirst (ids : SealInputs) (k : Nat)
  | reopen

namespace Site

/-- An operation that succeeds. -/
def attempt (w : Site c) : SiteOp c → CliResult (Site c)
  | .append ids draft =>
      match w.ledger.append w.keys.toSigningKeyStore w.store .ok ids draft with
      | (ledger, store, .ok _) => .ok { w with ledger, store }
      | (_, _, .error e) => .error e
  | .rotate sk now => do
      let (keys, _) ← w.keys.rotate sk now
      .ok { w with keys }
  | .revoke keyId now => do
      let keys ← w.keys.revoke keyId now
      .ok { w with keys }
  | .seal ids =>
      match sealUnsealedRange w.keys.toSigningKeyStore w.chain w.blocks .ok ids w.store with
      | (chain, blocks, .ok _) => .ok { w with chain, blocks }
      | (_, _, .error e) => .error e
  | .sealFirst ids k =>
      match Ledger.sealFirst w.keys.toSigningKeyStore w.chain w.blocks .ok ids w.store k with
      | (chain, blocks, .ok _) => .ok { w with chain, blocks }
      | (_, _, .error e) => .error e
  | .reopen => do
      let ledger ← openLedger w.store
      let chain ← BlockChain.open w.blocks
      .ok { w with ledger, chain }

def step (w : Site c) (op : SiteOp c) : Site c :=
  match w.attempt op with
  | .ok w' => w'
  | .error _ => w

/-- The key a rotation draws has an id of its own. -/
def DrawsFresh (w : Site c) : SiteOp c → Prop
  | .rotate sk _ => shortKeyId (c.verifyingKey sk) ∉ w.keys.keys
  | _ => True

/-- The operation succeeds. -/
def Succeeds (w : Site c) (op : SiteOp c) : Prop :=
  w.DrawsFresh op ∧ ∃ w', w.attempt op = .ok w'

/-- An empty ledger with a keystore. -/
def start (keys : FileKeyStore c) : Site c where
  store := ∅
  blocks := ∅
  keys := keys
  ledger := ⟨⟨LedgerManifest.empty⟩, ChainState.new⟩
  chain := ⟨[]⟩

/-- The event ids of the drafts that were appended, in order. -/
def eventIds (ops : List (SiteOp c)) : List String :=
  ops.filterMap fun
    | .append ids draft => some (draft.eventId.getD ids.eventId)
    | _ => none

/-- One more operation in the count of what is appended and of what is sealed. -/
def tally (n : Nat × Nat) : SiteOp c → Nat × Nat
  | .append _ _ => (n.1 + 1, n.2)
  | .seal _ => (n.1, n.1)
  | .sealFirst _ k => (n.1, min n.1 (n.2 + k))
  | _ => n

/-- How many entries were appended, and how many of them are sealed. -/
def counts (ops : List (SiteOp c)) : Nat × Nat := ops.foldl tally (0, 0)

theorem eventIds_snoc (ops : List (SiteOp c)) (op : SiteOp c) :
    eventIds (ops ++ [op]) = eventIds ops ++ eventIds [op] := List.filterMap_append

theorem counts_snoc (ops : List (SiteOp c)) (op : SiteOp c) :
    counts (ops ++ [op]) = tally (counts ops) op := List.foldl_concat ..

end Site

/-! ## Keys that stay -/

namespace FileKeyStore

/-- What resolves keeps resolving when no key is lost. -/
theorem verifyingKey_kept (hc : c.Correct) {ks ks' : FileKeyStore c} (hs : ks.Sound)
    (hkept : ∀ id sk, ks.Holds id sk → ks'.Holds id sk) {id : String} {vk : c.VerifyingKey}
    (h : ks.toSigningKeyStore.verifyingKey id = .ok vk) :
    ks'.toSigningKeyStore.verifyingKey id = .ok vk
      ∧ ∃ status, ks'.toSigningKeyStore.keyStatus id = .ok status := by
  have hmem : id ∈ ks.keys := by
    simp only [toSigningKeyStore] at h
    rw [bind_eq_ok] at h
    obtain ⟨r, hr, -⟩ := h
    rw [record] at hr
    split at hr
    · rename_i r' hr'
      rw [← Std.ExtTreeMap.isSome_getElem?_iff_mem, hr']
      rfl
    · cases hr
  obtain ⟨sk, hsk⟩ := hs.holds id hmem
  have hvk := (hsk.resolves hc).verifyingKey
  rw [h] at hvk
  rw [Except.ok.inj hvk]
  have hresolves := (hkept id sk hsk).resolves hc
  exact ⟨hresolves.verifyingKey, hresolves.keyStatus⟩

end FileKeyStore

theorem Checked.kept (hc : c.Correct) {ks ks' : FileKeyStore c} (hs : ks.Sound)
    (hkept : ∀ id sk, ks.Holds id sk → ks'.Holds id sk) {e : LedgerEntry}
    (h : Checked ks.toSigningKeyStore e) : Checked ks'.toSigningKeyStore e := by
  obtain ⟨vk, hvk, hsig⟩ := h.signature
  obtain ⟨hvk', hstatus⟩ := FileKeyStore.verifyingKey_kept hc hs hkept hvk
  exact ⟨h.hash, ⟨vk, hvk', hsig⟩, hstatus⟩

theorem Stands.kept (hc : c.Correct) {ks ks' : FileKeyStore c} (hs : ks.Sound)
    (hkept : ∀ id sk, ks.Holds id sk → ks'.Holds id sk) {es : List LedgerEntry} {b : LedgerBlock}
    (h : Stands ks.toSigningKeyStore es b) : Stands ks'.toSigningKeyStore es b := by
  obtain ⟨vk, hvk, hsig⟩ := h.signature
  obtain ⟨hvk', -⟩ := FileKeyStore.verifyingKey_kept hc hs hkept hvk
  exact ⟨h.hash, ⟨vk, hvk', hsig⟩, h.range, h.complete, h.entriesHash, h.merkleRoot⟩

/-- What a sound keystore signs it also verifies. -/
theorem checked_of_signed (hc : c.Correct) {ks : FileKeyStore c} (hs : ks.Sound)
    {e : LedgerEntry} (hhash : e.hashIsValid c = true)
    (h : Signed ks.toSigningKeyStore e) : Checked ks.toSigningKeyStore e := by
  obtain ⟨id, sk, hholds, hid, hsign⟩ := hs.signs
  obtain ⟨hactive, hsig⟩ := h
  rw [hid] at hactive
  have hkey := Except.ok.inj hactive
  rw [hsign] at hsig
  have hsigned := (congrArg Prod.snd (Except.ok.inj hsig)).symm
  have hresolves := hholds.resolves hc
  rw [hkey] at hresolves
  refine ⟨hhash, ⟨_, hresolves.verifyingKey, ?_⟩, hresolves.keyStatus⟩
  exact verifySignature_of_sign (hc.sign_length sk) (hc.verify_sign sk) hsigned

theorem blockSignature_of_signed (hc : c.Correct) {ks : FileKeyStore c} (hs : ks.Sound)
    {b : LedgerBlock} (h : SignedBlock ks.toSigningKeyStore b) :
    ∃ vk, ks.toSigningKeyStore.verifyingKey b.signingKeyId = .ok vk
      ∧ b.verifySignature c vk = .ok () := by
  obtain ⟨id, sk, hholds, hid, hsign⟩ := hs.signs
  obtain ⟨hactive, hsig⟩ := h
  rw [hid] at hactive
  have hkey := Except.ok.inj hactive
  rw [hsign] at hsig
  have hsigned : b.signature
      = String.ofList (hexEncode (c.sign sk (b.computeDigest c))) :=
    (congrArg Prod.snd (Except.ok.inj hsig)).symm
  have hresolves := hholds.resolves hc
  rw [hkey] at hresolves
  refine ⟨_, hresolves.verifyingKey, ?_⟩
  rw [LedgerBlock.verifySignature, hsigned, String.toList_ofList, hexDecode_hexEncode]
  dsimp only
  rw [if_neg (not_not.mpr (hc.sign_length sk _)), if_pos (hc.verify_sign sk _)]

/-! ## What a run keeps -/

namespace Site

/-- The invariant, with the entries in the log. -/
structure Kept (past : List (SiteOp c)) (w : Site c) (entries : List LedgerEntry) : Prop where
  log : w.store.content ledgerLogFile = entryLines.encode entries
  chain : ChainState.fromEntries entries = .ok w.ledger.chain
  events : entries.map LedgerEntry.eventId = eventIds past
  payload : ∀ e ∈ entries, payloadHashIsWellFormed e.eventPayloadHash = true
  sound : w.keys.Sound
  checked : ∀ e ∈ entries, Checked w.keys.toSigningKeyStore e
  blockLog : w.blocks.content blockLogFile = blockLines.encode w.chain.blocks
  tiles : Tiles 0 genesisBlockHash w.chain.blocks
  stands : ∀ b ∈ w.chain.blocks, Stands w.keys.toSigningKeyStore entries b
  inside : ∀ b ∈ w.chain.blocks, b.endSequenceNumber < entries.length
  ends : ∀ b ∈ w.chain.blocks.dropLast, b.endSequenceNumber + 1 < 18446744073709551616
  counted : counts past = (entries.length, nextOf 0 w.chain.blocks)

theorem kept_start {keys : FileKeyStore c} (hs : keys.Sound) : Kept [] (start keys) [] where
  log := rfl
  chain := rfl
  events := rfl
  payload _ he := absurd he List.not_mem_nil
  sound := hs
  checked _ he := absurd he List.not_mem_nil
  blockLog := rfl
  tiles := trivial
  stands _ hb := absurd hb List.not_mem_nil
  inside _ hb := absurd hb List.not_mem_nil
  ends _ hb := absurd hb List.not_mem_nil
  counted := rfl

variable {past : List (SiteOp c)} {w w' : Site c} {entries : List LedgerEntry}

theorem Kept.numbered (h : Kept past w entries) : Numbered entries :=
  numbered_of_fromEntries h.chain

/-- New keys in the place of the old ones, none of which is lost. -/
theorem Kept.withKeys (hc : c.Correct) (h : Kept past w entries) {keys : FileKeyStore c}
    (hs : keys.Sound) (hkept : ∀ id sk, w.keys.Holds id sk → keys.Holds id sk)
    {op : SiteOp c} (hevents : eventIds [op] = []) (htally : ∀ n, tally n op = n) :
    Kept (past ++ [op]) { w with keys } entries :=
  { h with
    events := by rw [eventIds_snoc, hevents, List.append_nil]; exact h.events
    sound := hs
    checked := fun e he => (h.checked e he).kept hc h.sound hkept
    stands := fun b hb => (h.stands b hb).kept hc h.sound hkept
    counted := by rw [counts_snoc, htally]; exact h.counted }

theorem kept_append (hc : c.Correct) (h : Kept past w entries) {ids : AppendInputs}
    {draft : LedgerEntryDraft} (hop : w.attempt (.append ids draft) = .ok w') :
    ∃ entries', Kept (past ++ [.append ids draft]) w' entries' := by
  rw [attempt, Ledger.append] at hop
  cases hseal : sealDraft w.keys.toSigningKeyStore w.ledger.chain ids draft with
  | error err => rw [hseal] at hop; cases hop
  | ok e =>
      rw [hseal] at hop
      dsimp only at hop
      rw [FileLedgerStore.append_ok] at hop
      cases hop
      obtain ⟨hsealed, hsigned⟩ := sealDraft_spec hseal
      have hchain : ChainState.fromEntries (entries ++ [e]) = .ok (w.ledger.chain.advance e) :=
        (ChainState.fromEntries_snoc h.chain e).trans
          (ChainState.extend_eq_ok.mpr ⟨hsealed.positions, rfl⟩)
      have hgrown := numbered_of_fromEntries hchain
      have hmem : ∀ {p : LedgerEntry → Prop}, (∀ e ∈ entries, p e) → p e →
          ∀ e' ∈ entries ++ [e], p e' := by
        intro p hall he e' he'
        rcases List.mem_append.mp he' with he' | he'
        · exact hall e' he'
        · rw [List.mem_singleton.mp he']
          exact he
      refine ⟨entries ++ [e], ?_, hchain, ?_, hmem h.payload ?_, h.sound,
        hmem h.checked (checked_of_signed hc h.sound hsealed.hash hsigned), h.blockLog, h.tiles,
        fun b hb => (h.stands b hb).append hgrown h.numbered (h.inside b hb), fun b hb => ?_,
        h.ends, ?_⟩
      · show (FileLedgerStore.saveManifest _ _).content ledgerLogFile = _
        rw [FileLedgerStore.content_saveManifest,
          Directory.content_eq (Directory.appendBytes_self _ _ _), h.log, LineFormat.encode_snoc]
      · rw [eventIds_snoc, List.map_append, h.events, List.map_singleton, hsealed.eventId]
        rfl
      · exact resolve_wellFormed hc hsealed.payload
      · have := h.inside b hb
        rw [List.length_append]
        omega
      · rw [counts_snoc, h.counted, tally, List.length_append, List.length_singleton]

theorem kept_rotate (hc : c.Correct) (h : Kept past w entries) {sk : c.SigningKey} {now : String}
    (hfresh : shortKeyId (c.verifyingKey sk) ∉ w.keys.keys)
    (hop : w.attempt (.rotate sk now) = .ok w') :
    ∃ entries', Kept (past ++ [.rotate sk now]) w' entries' := by
  rw [attempt, bind_eq_ok] at hop
  obtain ⟨⟨keys, id⟩, hrotate, hop⟩ := hop
  cases hop
  obtain ⟨hs, hkept⟩ := FileKeyStore.rotate_spec h.sound hfresh hrotate
  exact ⟨entries, h.withKeys hc hs hkept rfl fun _ => rfl⟩

theorem kept_revoke (hc : c.Correct) (h : Kept past w entries) {keyId now : String}
    (hop : w.attempt (.revoke keyId now) = .ok w') :
    ∃ entries', Kept (past ++ [.revoke keyId now]) w' entries' := by
  rw [attempt, bind_eq_ok] at hop
  obtain ⟨keys, hrevoke, hop⟩ := hop
  cases hop
  obtain ⟨hs, hkept⟩ := FileKeyStore.revoke_spec h.sound hrevoke
  exact ⟨entries, h.withKeys hc hs hkept rfl fun _ => rfl⟩

/-- The blocks reach no further than the entries. -/
theorem Kept.nextOf_le (h : Kept past w entries) : nextOf 0 w.chain.blocks ≤ entries.length := by
  rw [nextOf]
  cases hlast : w.chain.blocks.getLast? with
  | none => exact Nat.zero_le _
  | some b =>
      have := h.inside b (List.mem_of_getLast? hlast)
      rw [Option.map_some, Option.getD_some]
      omega

/-- One more block, over the first entries no block covers yet. -/
theorem Kept.withBlock (hc : c.Correct) (h : Kept past w entries) {ids : SealInputs}
    {start k : Nat} (hstart : w.chain.nextStartSequence = .ok start) {chain : BlockChain}
    {blocks : Directory} {b : LedgerBlock} (hseal : w.chain.seal w.keys.toSigningKeyStore w.blocks .ok ids
      ((entries.drop start).take k) = (chain, blocks, .ok b)) {op : SiteOp c}
    (hevents : eventIds [op] = [])
    (htally : tally (entries.length, start) op = (entries.length, min entries.length (start + k))) :
    Kept (past ++ [op]) { w with chain, blocks } entries := by
  obtain ⟨hnext, hbound⟩ := nextStartSequence_eq_ok hstart
  obtain ⟨hb, rfl, rfl⟩ := seal_ok hseal
  obtain ⟨hcommits, hsigned, hhash, -, hb0⟩ := sealBlock_spec hb
  have hbstart : b.startSequenceNumber = start := Except.ok.inj (hb0.symm.trans hstart)
  obtain ⟨hstands, hend⟩ := hcommits.stands (sealBlock_contiguous hb) h.numbered hhash hbstart
    (blockSignature_of_signed hc h.sound hsigned)
  have hmem : ∀ {p : LedgerBlock → Prop}, (∀ b ∈ w.chain.blocks, p b) → p b →
      ∀ b' ∈ w.chain.blocks ++ [b], p b' := by
    intro p hall hb b' hb'
    rcases List.mem_append.mp hb' with hb' | hb'
    · exact hall b' hb'
    · rw [List.mem_singleton.mp hb']
      exact hb
  refine ⟨h.log, h.chain, ?_, h.payload, h.sound, h.checked, ?_, tiles_sealBlock hb h.tiles,
    hmem h.stands hstands, hmem h.inside (by omega), ?_, ?_⟩
  · rw [eventIds_snoc, hevents, List.append_nil]
    exact h.events
  · rw [Directory.content_eq (Directory.appendBytes_self _ _ _), h.blockLog,
      LineFormat.encode_snoc]
  · intro b' hb'
    rw [List.dropLast_concat] at hb'
    cases hlast : w.chain.blocks.getLast? with
    | none =>
        rw [List.getLast?_eq_none_iff.mp hlast] at hb'
        exact absurd hb' List.not_mem_nil
    | some last =>
        rw [← List.dropLast_append_getLast? last hlast] at hb'
        rcases List.mem_append.mp hb' with hb' | hb'
        · exact h.ends b' hb'
        · rw [List.mem_singleton.mp hb']
          exact hbound last hlast
  · have hnext' : nextOf 0 (w.chain.blocks ++ [b]) = min entries.length (start + k) := by
      rw [nextOf, List.getLast?_concat, Option.map_some, Option.getD_some, hend]
    rw [counts_snoc, h.counted, ← hnext, htally, ← hnext']

theorem kept_seal (hc : c.Correct) (h : Kept past w entries) {ids : SealInputs}
    (hop : w.attempt (.seal ids) = .ok w') :
    ∃ entries', Kept (past ++ [.seal ids]) w' entries' := by
  rw [attempt, sealUnsealedRange, FileLedgerStore.readAll_encode h.log] at hop
  cases hstart : w.chain.nextStartSequence with
  | error err => rw [hstart] at hop; cases hop
  | ok start =>
      rw [hstart] at hop
      dsimp only at hop
      by_cases hfull : entries.length ≤ start
      · -- nothing to seal: the blocks reach the last entry already
        rw [if_pos hfull] at hop
        cases hop
        have hle := h.nextOf_le
        have hnext := (nextStartSequence_eq_ok hstart).1
        have hall : nextOf 0 w.chain.blocks = entries.length := by omega
        refine ⟨entries, { h with events := ?_, counted := ?_ }⟩
        · rw [eventIds_snoc, h.events]
          exact (List.append_nil _).symm
        · rw [counts_snoc, h.counted, tally, ← hall]
      rw [if_neg hfull, ← List.take_of_length_le (l := entries.drop start) (i := entries.length)
        (by rw [List.length_drop]; omega)] at hop
      rcases hseal : w.chain.seal w.keys.toSigningKeyStore w.blocks .ok ids
        ((entries.drop start).take entries.length) with ⟨chain, blocks, err | b⟩
      · rw [hseal] at hop; cases hop
      rw [hseal] at hop
      cases hop
      refine ⟨entries, h.withBlock hc hstart hseal rfl ?_⟩
      rw [tally, Nat.min_eq_left (Nat.le_add_left _ _)]

theorem kept_sealFirst (hc : c.Correct) (h : Kept past w entries) {ids : SealInputs} {k : Nat}
    (hop : w.attempt (.sealFirst ids k) = .ok w') :
    ∃ entries', Kept (past ++ [.sealFirst ids k]) w' entries' := by
  rw [attempt, Ledger.sealFirst, FileLedgerStore.readAll_encode h.log] at hop
  cases hstart : w.chain.nextStartSequence with
  | error err => rw [hstart] at hop; cases hop
  | ok start =>
      rw [hstart] at hop
      dsimp only at hop
      rcases hseal : w.chain.seal w.keys.toSigningKeyStore w.blocks .ok ids
        ((entries.drop start).take k) with ⟨chain, blocks, err | b⟩
      · rw [hseal] at hop; cases hop
      rw [hseal] at hop
      cases hop
      exact ⟨entries, h.withBlock hc hstart hseal rfl rfl⟩

theorem kept_reopen (h : Kept past w entries) (hop : w.attempt .reopen = .ok w') :
    ∃ entries', Kept (past ++ [.reopen]) w' entries' := by
  rw [attempt, bind_eq_ok] at hop
  obtain ⟨ledger, hledger, hop⟩ := hop
  rw [bind_eq_ok] at hop
  obtain ⟨chain, hchain, hop⟩ := hop
  cases hop
  rw [open_eq h.blockLog] at hchain
  cases hchain
  rw [openLedger, bind_eq_ok] at hledger
  obtain ⟨store, -, hledger⟩ := hledger
  obtain ⟨entries', hread, hheads, -⟩ := LedgerWorld.open_eq_ok.mp hledger
  rw [FileLedgerStore.readAll_encode h.log] at hread
  cases hread
  refine ⟨entries, { h with chain := hheads, events := ?_, counted := ?_ }⟩
  · rw [eventIds_snoc, h.events]
    exact (List.append_nil _).symm
  · rw [counts_snoc]
    exact h.counted

theorem kept_step (hc : c.Correct) (past : List (SiteOp c)) (w : Site c) (op : SiteOp c)
    (h : ∃ entries, Kept past w entries) (hop : w.Succeeds op) :
    ∃ entries, Kept (past ++ [op]) (w.step op) entries := by
  obtain ⟨entries, h⟩ := h
  obtain ⟨hfresh, w', hw'⟩ := hop
  rw [step, hw']
  cases op with
  | append ids draft => exact kept_append hc h hw'
  | rotate sk now => exact kept_rotate hc h hfresh hw'
  | revoke keyId now => exact kept_revoke hc h hw'
  | «seal» ids => exact kept_seal hc h hw'
  | sealFirst ids k => exact kept_sealFirst hc h hw'
  | reopen => exact kept_reopen h hw'

/-! ## Operations that succeed -/

theorem spellsHash_of_valid (hc : c.Correct) {e : LedgerEntry} (h : e.hashIsValid c = true) :
    SpellsHash e.entryHash := by
  have hhash : entryHashFromDigest (e.computeDigest c) = e.entryHash := eq_of_beq h
  refine ⟨e.computeDigest c, ?_⟩
  rw [← hhash, hashToBytes, entryHashFromDigest, stripPrefix?_append]
  simp only [Option.some_or, Option.getD_some, String.toList_ofList, hexDecode_hexEncode]
  exact if_pos (hc.blake3_length _)

theorem checkContiguous_of_range' {es : List LedgerEntry} {a : Nat}
    (h : es.map LedgerEntry.sequenceNumber = List.range' a es.length)
    (hbound : a + es.length ≤ 18446744073709551616) : checkContiguous es = .ok () := by
  induction es generalizing a with
  | nil => rfl
  | cons e es ih =>
      cases es with
      | nil => rfl
      | cons e' es =>
          rw [List.map_cons, List.length_cons, List.range'_succ, List.cons.injEq] at h
          rw [List.length_cons, List.length_cons] at hbound
          have hseq := congrArg List.head? h.2
          rw [List.length_cons, List.range'_succ] at hseq
          have hseq' : e'.sequenceNumber = a + 1 := Option.some.inj hseq
          rw [checkContiguous, addU64_ok (by omega), h.1]
          show (if e'.sequenceNumber ≠ a + 1 then _ else checkContiguous (e' :: es)) = _
          rw [if_neg (not_not.mpr hseq')]
          exact ih h.2 (by rw [List.length_cons]; omega)

/-- A draft whose payload resolves can be appended. -/
theorem Kept.succeeds_append (h : Kept past w entries) {ids : AppendInputs}
    {draft : LedgerEntryDraft} {ph : String} (hph : draft.payload.resolve c = .ok ph) :
    w.Succeeds (.append ids draft) := by
  obtain ⟨id, sk, -, hid, hsign⟩ := h.sound.signs
  obtain ⟨e, he⟩ : ∃ e, sealDraft w.keys.toSigningKeyStore w.ledger.chain ids draft = .ok e :=
    sealDraft_ok hph hid hsign
  refine ⟨trivial, ?_⟩
  rw [attempt, Ledger.append, he]
  exact ⟨_, rfl⟩

/-- The unsealed tail can be sealed while its numbers fit. -/
theorem Kept.succeeds_seal (hc : c.Correct) (h : Kept past w entries) (ids : SealInputs)
    (hlen : entries.length < 18446744073709551616) : w.Succeeds (.seal ids) := by
  have hstart : w.chain.nextStartSequence = .ok (nextOf 0 w.chain.blocks) := by
    rw [nextStartSequence, nextOf]
    cases hlast : w.chain.blocks.getLast? with
    | none => rfl
    | some b =>
        have := h.inside b (List.mem_of_getLast? hlast)
        exact addU64_ok (by omega)
  refine ⟨trivial, ?_⟩
  rw [attempt, sealUnsealedRange, FileLedgerStore.readAll_encode h.log, hstart]
  dsimp only
  by_cases hfull : entries.length ≤ nextOf 0 w.chain.blocks
  · rw [if_pos hfull]
    exact ⟨_, rfl⟩
  rw [if_neg hfull]
  generalize hnext : nextOf 0 w.chain.blocks = next at hfull hstart ⊢
  have hdrop := List.drop_eq_getElem_cons (l := entries) (i := next) (by omega)
  have hseqs : (entries.drop next).map LedgerEntry.sequenceNumber
      = List.range' next (entries.drop next).length := by
    rw [List.map_drop, h.numbered, List.length_drop, List.range_eq_range', List.drop_range']
    congr 1
    omega
  have hcontig := checkContiguous_of_range' hseqs (by rw [List.length_drop]; omega)
  obtain ⟨root, hroot⟩ := (merkleRoot_ok_iff (c := c)
    ((entries.drop next).map LedgerEntry.entryHash)).mpr (by
      intro t ht
      obtain ⟨e, he, rfl⟩ := List.mem_map.mp ht
      exact spellsHash_of_valid hc (h.checked e (List.mem_of_mem_drop he)).hash)
  obtain ⟨id, sk, -, hid, hsign⟩ := h.sound.signs
  rw [hdrop] at hseqs hcontig hroot ⊢
  rw [List.map_cons, List.length_cons, List.range'_succ, List.cons.injEq] at hseqs
  rw [BlockChain.seal]
  obtain ⟨b, hb⟩ := sealBlock_ok (by rw [hstart, hseqs.1]) hcontig hroot hid hsign
  rw [hb]
  exact ⟨_, rfl⟩

/-- **Verification accepts everything the ledger itself produces.** -/
theorem accepts_own (hc : c.Correct) {sk : c.SigningKey} {now keyId : String}
    {keys : FileKeyStore c} (hkeys : FileKeyStore.empty.generate sk now = .ok (keys, keyId))
    {ops : List (SiteOp c)} (hops : Along step Succeeds (start keys) ops)
    (hids : (eventIds ops).Nodup) (serde : WalSerde) :
    ∃ entries chain report,
      FileLedgerStore.readAll (run step (start keys) ops).store = .ok entries
      ∧ BlockChain.open (run step (start keys) ops).blocks = .ok chain
      ∧ verifyLedger serde entries chain.blocks
        (run step (start keys) ops).keys.toSigningKeyStore none = .ok report
      ∧ report.passed = true ∧ report.blocks.valid = true ∧ report.sequenceGaps = []
      ∧ entries.map LedgerEntry.eventId = eventIds ops
      ∧ report.blocks.unsealedTail = tailRange (counts ops).2 (counts ops).1 := by
  obtain ⟨entries, h⟩ := run_history (fun past w => ∃ entries, Kept past w entries)
    (fun past w op => kept_step hc past w op)
    ⟨[], kept_start (FileKeyStore.generate_spec rfl hkeys)⟩ hops
  obtain ⟨bv, hbv, hvalid, htail⟩ := verifyBlocks_tiles h.numbered h.tiles h.stands h.ends
  obtain ⟨report, hreport, hpassed, hblocks, hgaps⟩ := verifyLedger_accepts serde
    h.chain h.checked h.payload (by rw [h.events]; exact hids) hbv
  refine ⟨entries, ⟨(run step (start keys) ops).chain.blocks⟩, report,
    FileLedgerStore.readAll_encode h.log, open_eq h.blockLog, hreport, hpassed.mpr hvalid, ?_,
    hgaps, h.events, ?_⟩
  · rw [hblocks, hvalid]
  · rw [hblocks, htail, h.counted]

theorem correct_exercise : (Crypto.exercise SealWorld.flatHash).Correct where
  blake3_length _ := List.length_replicate
  sign_length := exercise_sign_length SealWorld.flatHash
  verify_sign := exercise_verify_sign SealWorld.flatHash
  pem _ := rfl

/-- An append, a seal and another append. -/
def tailOps : List (SiteOp (Crypto.exercise SealWorld.flatHash)) :=
  [.append (LedgerWorld.attempt 1) (draft 1), .seal (SealWorld.attempt 1),
    .append (LedgerWorld.attempt 2) (draft 2)]

theorem tailOps_succeed : ∃ (keys : FileKeyStore (Crypto.exercise SealWorld.flatHash))
    (keyId : String), FileKeyStore.empty.generate "k" "2026-07-06T12:00:00.000000Z"
        = .ok (keys, keyId)
      ∧ Along step Succeeds (start keys) tailOps := by
  obtain ⟨⟨keys, keyId⟩, hkeys⟩ : ∃ made, (FileKeyStore.empty
      (c := Crypto.exercise SealWorld.flatHash)).generate "k" "2026-07-06T12:00:00.000000Z"
        = .ok made := ⟨_, rfl⟩
  have h₀ := kept_start (FileKeyStore.generate_spec rfl hkeys)
  have hone : (start keys).Succeeds (.append (LedgerWorld.attempt 1) (draft 1)) :=
    h₀.succeeds_append rfl
  obtain ⟨es₁, h₁⟩ := kept_step correct_exercise [] _ _ ⟨[], h₀⟩ hone
  have hlen : es₁.length = 1 := (congrArg Prod.fst h₁.counted).symm
  have htwo := h₁.succeeds_seal correct_exercise (SealWorld.attempt 1) (by omega)
  obtain ⟨es₂, h₂⟩ := kept_step correct_exercise _ _ _ ⟨es₁, h₁⟩ htwo
  have hthree : (((start keys).step (.append (LedgerWorld.attempt 1) (draft 1))).step
      (.seal (SealWorld.attempt 1))).Succeeds (.append (LedgerWorld.attempt 2) (draft 2)) :=
    h₂.succeeds_append rfl
  exact ⟨keys, keyId, hkeys, hone, htwo, hthree, trivial⟩

theorem tailOps_nodup : (eventIds tailOps).Nodup := by decide +kernel

/-- The second entry is the unsealed tail. -/
theorem accepts_own_tail : ∃ keys : FileKeyStore (Crypto.exercise SealWorld.flatHash),
    ∃ entries chain report,
      BlockChain.open (run step (start keys) tailOps).blocks = .ok chain
      ∧ verifyLedger serdeJson entries chain.blocks
        (run step (start keys) tailOps).keys.toSigningKeyStore none = .ok report
      ∧ report.passed = true ∧ report.blocks.unsealedTail = some (1, 1) := by
  obtain ⟨keys, keyId, hkeys, hops⟩ := tailOps_succeed
  obtain ⟨entries, chain, report, -, hchain, hreport, hpassed, -, -, -, htail⟩ :=
    accepts_own correct_exercise hkeys hops tailOps_nodup serdeJson
  exact ⟨keys, entries, chain, report, hchain, hreport, hpassed, htail⟩

end Site

end Agenomic.Ledger
