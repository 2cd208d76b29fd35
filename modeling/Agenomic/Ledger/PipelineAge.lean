import Agenomic.Ledger.PipelineRun
import Agenomic.Ledger.PipelineSeal

/-!
# What the age trigger remembers

The age trigger goes by an instant the core keeps while entries wait for a block. It is
set when an entry is appended and cleared when the tail is sealed; nothing sets it at the
start, and an append whose checkpoint fails returns before it is set.

`Core.Remembers` says that the instant is kept exactly while the ledger goes on behind the
last block. **`remembers_run`**: it holds in every state of a run whose starts find no
tail, and whose appends find the blocks within the ledger and lose no checkpoint
(`Mindful`). Seals need no condition, whether they succeed or fail.
-/

namespace Agenomic.Ledger.Pipeline

open Lib

variable {c : Crypto}

/-- The ledger has entries behind the last block. -/
def Core.HasTail (core : Core) (chain : BlockChain) : Prop :=
  ∃ start, chain.nextStartSequence = .ok start ∧ start < core.chain.len

/-- Where blocks are enabled, an instant is kept exactly while there is a tail. -/
def Core.Remembers (core : Core) : Prop :=
  ∀ chain, core.blocks = some chain → (core.oldestUnsealed = true ↔ core.HasTail chain)

/-- The instant is right, and the store has every entry the heads count. -/
structure World.Tracked (w : World) : Prop where
  entries : w.core.chain.len ≤ w.disk.entries.length
  remembers : w.core.Remembers

/-- An append finds the blocks within the ledger, and its checkpoint does not fail while no
instant is kept. -/
def World.SealsSafely (w : World) : Prop :=
  ∀ chain, w.core.blocks = some chain →
    (∃ start, chain.nextStartSequence = .ok start ∧ start ≤ w.core.chain.len)
      ∧ (w.core.oldestUnsealed = true
        ∨ ∀ call rest, w.calls .checkpoint = call :: rest → ¬call.Fails)

/-- What is true however a program ends that does not crash. -/
def tracking {α : Type} : Post World CliError α :=
  ⟨fun _ w => w.Tracked, fun _ w => w.Tracked, fun _ => True⟩

/-! ## Sealing blocks -/

/-- Behind a sealed range the ledger has nothing. -/
theorem not_hasTail_sealed {keys : SigningKeyStore c} {chain : BlockChain} {ids : SealInputs}
    {start : Nat} {entries : List LedgerEntry} {block : LedgerBlock} {core : Core}
    (hstart : chain.nextStartSequence = .ok start) (hlt : start < entries.length)
    (hlen : core.chain.len ≤ entries.length)
    (hseal : chain.sealBlock keys ids (entries.drop start) = .ok block) :
    ¬core.HasTail ⟨chain.blocks ++ [block]⟩ := by
  rintro ⟨next, hnext, htail⟩
  obtain ⟨hcommits, -, -, -, hfirst⟩ := BlockChain.sealBlock_spec hseal
  have hends := (hcommits.sequence (BlockChain.sealBlock_contiguous hseal)).2
  rw [hstart] at hfirst
  cases hfirst
  -- the block ends where the entries end
  have hnext := (BlockChain.nextStartSequence_eq_ok hnext).1
  rw [BlockChain.nextOf, List.getLast?_concat, Option.map_some, Option.getD_some] at hnext
  rw [List.length_drop] at hends
  omega

theorem sealUnsealedRange_tracked (keys : SigningKeyStore c) {w : World} (hw : w.Tracked) :
    Prog.Ends (sealUnsealedRange keys) tracking w := by
  unfold sealUnsealedRange
  refine Prog.ends_bind.mpr (Prog.ends_get.mpr ?_)
  dsimp only
  cases hblocks : w.core.blocks with
  | none => exact hw
  | some chain =>
      refine Prog.ends_bind.mpr ?_
      cases hstart : chain.nextStartSequence with
      | error e => exact hw
      | ok start =>
          refine Prog.ends_bind.mpr ?_
          unfold readAll
          refine Prog.ends_bind.mpr ((diskCall_ends .reads _ w).mono ?_ ?_ fun _ _ => trivial)
          · rintro _ w₁ ⟨call, rest, -, -, rfl⟩
            dsimp only
            refine Prog.ends_bind.mpr (Prog.ends_get.mpr ?_)
            show Prog.Ends (if w.disk.entries.length ≤ start then _ else _) tracking _
            by_cases hle : w.disk.entries.length ≤ start
            · rw [if_pos hle]
              refine ⟨hw.entries, fun chain' hchain => ?_⟩
              have hchain : chain' = chain := Option.some.inj (hchain.symm.trans hblocks)
              subst hchain
              refine iff_of_false Bool.false_ne_true ?_
              rintro ⟨start', hstart', htail⟩
              rw [hstart] at hstart'
              cases hstart'
              exact absurd (htail.trans_le hw.entries) (Nat.not_lt.mpr hle)
            · rw [if_neg hle]
              refine Prog.ends_bind.mpr (ends_nextCall (fun _ => trivial) fun call rest _ => ?_)
              refine Prog.ends_bind.mpr ?_
              show Prog.Ends (Prog.ofExcept (chain.sealBlock keys
                ⟨call.ids.ledgerEntryId, call.ids.now⟩ (w.disk.entries.drop start))) _ _
              cases hseal : chain.sealBlock keys ⟨call.ids.ledgerEntryId, call.ids.now⟩
                  (w.disk.entries.drop start) with
              | error e => exact ⟨hw.entries, hw.remembers⟩
              | ok block =>
                  refine Prog.ends_bind.mpr (ends_carryOut (fun _ => ?_) (fun kept _ _ => ?_)
                    fun _ _ => trivial)
                  · refine ⟨hw.entries, fun chain' hchain => ?_⟩
                    cases hchain
                    exact iff_of_false Bool.false_ne_true
                      (not_hasTail_sealed hstart (Nat.not_le.mp hle) hw.entries hseal)
                  · -- the block is not in the chain, whether its line was written or not
                    cases kept <;> exact ⟨hw.entries, hw.remembers⟩
          · rintro e w₁ ⟨call, rest, -, -, kept, rfl⟩
            cases kept <;> exact ⟨hw.entries, hw.remembers⟩

theorem maybeSealByCount_tracked (keys : SigningKeyStore c) (config : LedgerConfig) {w : World}
    (hw : w.Tracked) : Prog.Ends (maybeSealByCount keys config) tracking w := by
  unfold maybeSealByCount
  cases config.blockMaxEntries with
  | none => exact hw
  | some maxEntries =>
      refine Prog.ends_bind.mpr (Prog.ends_get.mpr ?_)
      dsimp only
      cases w.core.blocks with
      | none => exact hw
      | some chain =>
          refine Prog.ends_bind.mpr ?_
          cases chain.nextStartSequence with
          | error e => exact hw
          | ok start =>
              rw [Prog.ends_ofExcept_ok]
              dsimp only
              by_cases hle : maxEntries ≤ w.core.chain.len - start
              · rw [if_pos hle]
                exact Prog.ends_bind.mpr (sealUnsealedRange_tracked keys hw)
              · rw [if_neg hle]
                exact hw

theorem maybeSealByAge_tracked (keys : SigningKeyStore c) (config : LedgerConfig) (due : Bool)
    {w : World} (hw : w.Tracked) : Prog.Ends (maybeSealByAge keys config due) tracking w := by
  unfold maybeSealByAge
  cases config.blockMaxAgeMs with
  | none => exact hw
  | some _ =>
      refine Prog.ends_bind.mpr (Prog.ends_get.mpr ?_)
      dsimp only
      by_cases hdue : (w.core.oldestUnsealed && due) = true
      · rw [if_pos hdue]
        exact Prog.ends_bind.mpr (Prog.ends_attempt.mpr (sealUnsealedRange_tracked keys hw))
      · rw [if_neg hdue]
        exact hw

/-! ## Settling -/

/-- How many entries an outcome adds. -/
def SealOutcome.added : SealOutcome → Nat
  | .appended _ => 1
  | .duplicate | .terminal => 0

/-- Settling has touched nothing the age trigger goes by, and the heads count so many more
entries, all of them in the store. -/
structure Settling (w : World) (added : Nat) (w' : World) : Prop where
  blocks : w'.core.blocks = w.core.blocks
  oldest : w'.core.oldestUnsealed = w.core.oldestUnsealed
  checkpoint : w'.calls .checkpoint = w.calls .checkpoint
  len : w'.core.chain.len = w.core.chain.len + added
  entries : w'.core.chain.len ≤ w'.disk.entries.length

/-- With nothing added, the instant is as right as it was. -/
theorem Settling.tracked {w w' : World} (h : Settling w 0 w') (hw : w.Tracked) : w'.Tracked := by
  refine ⟨h.entries, fun chain hchain => ?_⟩
  rw [h.oldest, hw.remembers chain (h.blocks ▸ hchain), Core.HasTail, Core.HasTail, h.len]
  exact Iff.rfl

theorem MaybeSealed.entries {keys : SigningKeyStore c} {draft : LedgerEntryDraft} {w : World}
    {d : Disk} (h : MaybeSealed keys draft w d) : w.disk.entries.length ≤ d.entries.length := by
  rcases h with rfl | ⟨ids, e, -, rfl⟩
  · exact le_rfl
  · exact (List.sublist_append_left _ _).length_le

theorem park_settling (config : LedgerConfig) (draft : LedgerEntryDraft)
    (reason : DeadLetterReason) (detail : String) (attempts : Nat) {w w' : World}
    (h : Settling w 0 w') :
    Prog.Ends (park config draft reason detail attempts)
      ⟨fun o w' => Settling w o.added w', fun _ w' => Settling w 0 w', fun _ => True⟩ w' := by
  unfold park
  refine Prog.ends_bind.mpr ((recordDeadLetter_ends _ _ _ _ _ _ w').mono ?_ ?_ fun _ _ => trivial)
  · rintro _ w'' (⟨-, rfl⟩ | ⟨-, call, rest, r, -, -, -, rfl⟩)
    · exact h
    · exact ⟨h.blocks, h.oldest, h.checkpoint, h.len, h.entries⟩
  · rintro e w'' ⟨-, call, rest, -, -, r, -, kept, rfl⟩
    cases kept <;> exact ⟨h.blocks, h.oldest, h.checkpoint, h.len, h.entries⟩

/-- **What settling does to what the age trigger goes by.** -/
theorem settle_settling (keys : SigningKeyStore c) (config : LedgerConfig)
    (draft : LedgerEntryDraft) {w : World} (hw : w.Tracked) :
    Prog.Ends (settle keys config draft)
      ⟨fun o w' => Settling w o.added w', fun _ w' => Settling w 0 w', fun _ => True⟩ w := by
  have hself : Settling w 0 w := ⟨rfl, rfl, rfl, rfl, hw.entries⟩
  refine ends_settle (fun e _ => park_settling config draft _ _ _ hself)
    (fun _ _ _ => ⟨rfl, rfl, rfl, rfl, hw.entries⟩)
    (fun _ _ _ _ _ => park_settling config draft _ _ _ ⟨rfl, rfl, rfl, rfl, hw.entries⟩)
    fun _ _ _ => ?_
  refine ends_settleRetrying (fun _ w' => Settling w 0 w') ?_ ?_ ?_ (fun _ _ _ _ _ => trivial) 1
    hself
  · intro left w' call rest e h _ _ hseal
    have hnext : e.sequenceNumber = w'.core.chain.len :=
      (congrArg ChainPositions.sequenceNumber (sealDraft_spec hseal).1.positions).trans
        (ChainState.allocate_sequenceNumber _ _)
    refine ⟨h.blocks, h.oldest, h.checkpoint, ?_, ?_⟩
    · show e.sequenceNumber + 1 = w.core.chain.len + 1
      rw [hnext, h.len, Nat.add_zero]
    · show e.sequenceNumber + 1 ≤ (w'.disk.entries ++ [e]).length
      rw [hnext, List.length_append]
      exact Nat.succ_le_succ h.entries
  · intro left w' call rest d h _ _ hd
    exact ⟨h.blocks, h.oldest, h.checkpoint, h.len, h.entries.trans hd.entries⟩
  · intro w' call rest d detail attempts h _ _ hd
    exact park_settling config draft _ _ _
      ⟨h.blocks, h.oldest, h.checkpoint, h.len, h.entries.trans hd.entries⟩

/-! ## Finishing -/

/-- The watermark moves, and a checkpoint that fails is the next call of its site. -/
theorem advanceWatermark_settling (walSeq : Option Nat) {w₀ w : World} {added : Nat}
    (h : Settling w₀ added w) :
    Prog.Ends (advanceWatermark walSeq)
      ⟨fun _ w' => w'.core.blocks = w₀.core.blocks ∧ w'.core.oldestUnsealed = w₀.core.oldestUnsealed
          ∧ w'.core.chain = w.core.chain ∧ w'.disk.entries = w.disk.entries,
        fun _ w' => (w'.core.blocks = w₀.core.blocks
          ∧ w'.core.oldestUnsealed = w₀.core.oldestUnsealed ∧ w'.core.chain = w.core.chain
          ∧ w'.disk.entries = w.disk.entries)
          ∧ ∃ call rest, w₀.calls .checkpoint = call :: rest ∧ call.Fails,
        fun _ => True⟩ w := by
  unfold advanceWatermark
  cases walSeq with
  | none => exact ⟨h.blocks, h.oldest, rfl, rfl⟩
  | some seq =>
      refine Prog.ends_bind.mpr (Prog.ends_get.mpr ?_)
      dsimp only
      by_cases hlt : w.core.appliedWalSeq < seq
      · rw [if_pos hlt]
        refine Prog.ends_bind.mpr (Prog.ends_modify.mpr ?_)
        refine (diskCall_ends .checkpoint _ _).mono ?_ ?_ fun _ _ => trivial
        · rintro _ w' ⟨call, rest, -, -, rfl⟩
          exact ⟨h.blocks, h.oldest, rfl, rfl⟩
        · rintro e w' ⟨call, rest, hcalls, hfails, kept, rfl⟩
          refine ⟨?_, call, rest, h.checkpoint.symm.trans hcalls, hfails⟩
          cases kept <;> exact ⟨h.blocks, h.oldest, rfl, rfl⟩
      · rw [if_neg hlt]
        exact ⟨h.blocks, h.oldest, rfl, rfl⟩

/-- Behind an append the ledger has a tail, if the blocks were within it. -/
theorem hasTail_appended {w w' : World} {chain : BlockChain} {start : Nat}
    (hstart : chain.nextStartSequence = .ok start) (hle : start ≤ w.core.chain.len)
    (hlen : w'.core.chain.len = w.core.chain.len + 1) : w'.core.HasTail chain :=
  ⟨start, hstart, by omega⟩

/-- **Sealing a draft keeps the instant right**, where it is safe. -/
theorem sealOne_tracked (keys : SigningKeyStore c) (config : LedgerConfig)
    (draft : LedgerEntryDraft) (walSeq : Option Nat) {w : World} (hw : w.Tracked)
    (hsafe : w.SealsSafely) : Prog.Ends (sealOne keys config draft walSeq) tracking w := by
  rw [sealOne_eq]
  refine Prog.ends_bind.mpr ((settle_settling keys config draft hw).mono ?_
    (fun _ _ h => h.tracked hw) fun _ _ => trivial)
  intro o w₁ h
  have hsame : ∀ w' : World, w'.core.blocks = w.core.blocks →
      w'.core.oldestUnsealed = w.core.oldestUnsealed → w'.core.chain = w₁.core.chain →
      w'.disk.entries = w₁.disk.entries → o.added = 0 → w'.Tracked := by
    intro w' hblocks holdest hchain hentries hadded
    have hlen := h.len
    have hle := h.entries
    rw [← hchain, hadded, Nat.add_zero] at hlen
    rw [← hchain, ← hentries] at hle
    refine ⟨hle, fun chain hc => ?_⟩
    rw [holdest, hw.remembers chain (hblocks ▸ hc), Core.HasTail, Core.HasTail, hlen]
  unfold finish
  refine Prog.ends_bind.mpr ((advanceWatermark_settling walSeq h).mono ?_ ?_ fun _ _ => trivial)
  · rintro _ w₂ ⟨hblocks, holdest, hchain, hentries⟩
    cases o with
    | duplicate => exact hsame w₂ hblocks holdest hchain hentries rfl
    | terminal => exact hsame w₂ hblocks holdest hchain hentries rfl
    | appended entry =>
        have hlen : w₂.core.chain.len = w.core.chain.len + 1 := hchain ▸ h.len
        have hle : w₂.core.chain.len ≤ w₂.disk.entries.length := hchain ▸ hentries ▸ h.entries
        refine Prog.ends_bind.mpr ?_
        unfold sealBlocks
        refine Prog.ends_bind.mpr (Prog.ends_get.mpr ?_)
        dsimp only
        cases hb : w₂.core.blocks with
        | none => exact ⟨hle, fun chain hc => (nomatch hb.symm.trans hc)⟩
        | some chain =>
            refine Prog.ends_bind.mpr (Prog.ends_modify.mpr ?_)
            obtain ⟨⟨start, hstart, hwithin⟩, -⟩ := hsafe chain (hblocks.symm.trans hb)
            refine maybeSealByCount_tracked keys config ⟨hle, fun chain' hc => ?_⟩
            have hc : chain' = chain := Option.some.inj (hc.symm.trans hb)
            subst hc
            exact iff_of_true rfl (hasTail_appended hstart hwithin hlen)
  · rintro e w₂ ⟨⟨hblocks, holdest, hchain, hentries⟩, call, rest, hcalls, hfails⟩
    cases o with
    | duplicate => exact hsame w₂ hblocks holdest hchain hentries rfl
    | terminal => exact hsame w₂ hblocks holdest hchain hentries rfl
    | appended entry =>
        have hlen : w₂.core.chain.len = w.core.chain.len + 1 := hchain ▸ h.len
        have hle : w₂.core.chain.len ≤ w₂.disk.entries.length := hchain ▸ hentries ▸ h.entries
        refine ⟨hle, fun chain hc => ?_⟩
        obtain ⟨⟨start, hstart, hwithin⟩, hkept⟩ := hsafe chain (hblocks.symm.trans hc)
        -- the checkpoint failed, so an instant was kept before
        have hold : w.core.oldestUnsealed = true :=
          hkept.resolve_right fun hnever => hnever call rest hcalls hfails
        exact iff_of_true (holdest.trans hold) (hasTail_appended hstart hwithin hlen)

/-! ## Appending -/

theorem tracked_counters {w : World} (hw : w.Tracked) (f : Counters → Counters) :
    (w.onCounters f).Tracked := ⟨hw.entries, hw.remembers⟩

theorem keeps_tracked_countIf (b : Bool) (f : Counters → Counters) :
    Prog.Keeps World.Tracked (countIf b f) := keeps_countIf fun _ hw => tracked_counters hw f

theorem tracked_called {w : World} (hw : w.Tracked) (site : CallSite) (rest : List Call) :
    (w.called site rest).Tracked := ⟨hw.entries, hw.remembers⟩

theorem keeps_tracked_recordDeadLetter (site : CallSite) (config : LedgerConfig)
    (draft : LedgerEntryDraft) (reason : DeadLetterReason) (detail : String) (attempts : Nat) :
    Prog.Keeps World.Tracked (recordDeadLetter site config draft reason detail attempts) := by
  unfold recordDeadLetter
  by_cases hdl : config.deadLetterEnabled = true
  · rw [if_pos hdl]
    refine (keeps_diskCall (fun w call rest _ hw => tracked_called hw site rest) ?_).bind
      fun _ => keeps_count fun w hw => tracked_counters hw _
    intro ids w hw
    exact ⟨hw.entries, hw.remembers⟩
  · rw [if_neg hdl]
    exact Prog.keeps_pure ()

/-- Spooling a draft uses a call of another site than the checkpoint. -/
theorem walAppend_tracked (full : Option CliError) (draft : LedgerEntryDraft) {w : World}
    (hw : w.Tracked) :
    Prog.Ends (walAppend full draft)
      ⟨fun _ w' => w'.Tracked ∧ (w.SealsSafely → w'.SealsSafely), fun _ w' => w'.Tracked,
        fun _ => True⟩ w := by
  unfold walAppend
  cases full with
  | some e => exact hw
  | none =>
      refine Prog.ends_bind.mpr (ends_nextCall (fun _ => trivial) fun call rest _ => ?_)
      refine Prog.ends_bind.mpr (Prog.ends_get.mpr (Prog.ends_bind.mpr ?_))
      refine ends_carryOut (fun _ => ?_) (fun kept _ _ => ?_) fun _ _ => trivial
      · exact ⟨⟨hw.entries, hw.remembers⟩, fun hsafe => hsafe⟩
      · cases kept <;> exact ⟨hw.entries, hw.remembers⟩

theorem keeps_tracked_trySend (config : LedgerConfig) (item : WorkItem) :
    Prog.Keeps World.Tracked (trySend config item) := by
  unfold trySend
  refine Prog.keeps_get.bind fun w => ?_
  by_cases hlt : w.queue.length < config.queueMaxMemoryEvents
  · rw [if_pos hlt]
    refine Prog.Keeps.bind (Prog.keeps_modify fun w' hw => ?_) fun _ => Prog.keeps_pure _
    exact ⟨hw.entries, hw.remembers⟩
  · rw [if_neg hlt]
    exact Prog.keeps_pure _

theorem keeps_tracked_spills (config : LedgerConfig) (item : WorkItem) :
    Prog.Keeps World.Tracked (spills config item) := by
  unfold spills tryEnqueue
  refine Prog.keeps_get.bind fun w => ?_
  by_cases hlt : 0 < w.counters.walBacklog
  · rw [if_pos hlt]
    exact Prog.keeps_pure _
  · rw [if_neg hlt]
    refine ((keeps_tracked_trySend config item).bind fun sent => ?_).bind fun _ =>
      Prog.keeps_pure _
    exact (keeps_tracked_countIf sent _).bind fun _ => Prog.keeps_pure _

theorem appendDurable_tracked (config : LedgerConfig) (full : Option CliError)
    (draft : LedgerEntryDraft) (eventId : String) {w : World} (hw : w.Tracked) :
    Prog.Ends (appendDurable config full draft eventId) tracking w := by
  unfold appendDurable
  refine Prog.ends_bind.mpr (Prog.ends_attempt.mpr ((walAppend_tracked full draft hw).mono ?_ ?_
    fun _ h => h))
  · rintro walSeq w₁ ⟨hw₁, -⟩
    have hspill : Prog.Keeps World.Tracked (do
        let spilled ← spills config ⟨some walSeq, draft⟩
        countIf spilled fun n => { n with walBacklog := n.walBacklog + 1 }
        pure (AppendOutcome.walPersisted eventId walSeq)) :=
      (keeps_tracked_spills config _).bind fun spilled =>
        (keeps_tracked_countIf spilled _).bind fun _ => Prog.keeps_pure _
    exact (hspill w₁ hw₁).mono (fun _ _ h => h) (fun _ _ h => h) fun _ _ => trivial
  · intro e w₁ hw₁
    exact tracked_counters hw₁ _

theorem appendStrict_tracked (keys : SigningKeyStore c) (config : LedgerConfig)
    (full : Option CliError) (draft : LedgerEntryDraft) (eventId : String) {w : World}
    (hw : w.Tracked) (hsafe : w.SealsSafely) :
    Prog.Ends (appendStrict keys config full draft eventId) tracking w := by
  unfold appendStrict
  refine Prog.ends_bind.mpr ((walAppend_tracked full draft hw).mono ?_ (fun _ _ h => h)
    fun _ h => h)
  rintro walSeq w₁ ⟨hw₁, hsafe₁⟩
  refine Prog.ends_bind.mpr ((sealOne_tracked keys config draft (some walSeq) hw₁
    (hsafe₁ hsafe)).mono ?_ (fun _ _ h => h) fun _ h => h)
  intro o w₂ hw₂
  cases o with
  | appended entry => exact hw₂
  | duplicate => exact hw₂
  | terminal => exact hw₂

/-- **`append` keeps the instant right**: outside strict mode it seals nothing. -/
theorem append_tracked (keys : SigningKeyStore c) (config : LedgerConfig)
    (draft : LedgerEntryDraft) (ulid : String) (full : Option CliError) {w : World}
    (hw : w.Tracked) (hsafe : config.mode = .strictVerified → w.SealsSafely) :
    Prog.Ends (append keys config draft ulid full) tracking w := by
  have hdead : ∀ {w' : World} (reason : DeadLetterReason) (detail : String) (e : CliError),
      w'.Tracked → ∀ draft, Prog.Ends (do
        recordDeadLetter .refuse config draft reason detail 1
        (Prog.throw e : Task Dispatch)) tracking w' := by
    intro w' reason detail e hw' draft
    refine Prog.ends_bind.mpr ((keeps_tracked_recordDeadLetter _ config draft reason detail 1 w'
      hw').mono (fun _ _ h => h) (fun _ _ h => h) fun _ _ => trivial)
  unfold append
  refine Prog.ends_bind.mpr ?_
  cases validateDraft draft config with
  | error e => exact Prog.ends_bind.mpr (hdead _ _ e (tracked_counters (tracked_counters hw _) _) _)
  | ok u =>
      refine Prog.ends_bind.mpr ?_
      cases draft.payload.resolve c with
      | error e => exact tracked_counters hw _
      | ok payloadHash =>
          rw [Prog.ends_ofExcept_ok]
          dsimp only
          unfold admission
          refine Prog.ends_bind.mpr (Prog.ends_get.mpr ?_)
          dsimp only
          split
          · rename_i existing _
            by_cases heq : existing = payloadHash
            · rw [if_pos heq]
              exact tracked_counters (tracked_counters hw _) _
            · rw [if_neg heq]
              exact Prog.ends_bind.mpr
                (hdead _ _ _ (tracked_counters (tracked_counters hw _) _) _)
          · unfold dispatch
            cases hmode : config.mode with
            | bestEffortLowLatency => exact tracked_counters hw _
            | strictCloud => exact tracked_counters hw _
            | durableLowLatency =>
                exact Prog.ends_bind.mpr
                  (appendDurable_tracked config full _ _ (tracked_counters hw _))
            | strictVerified =>
                exact Prog.ends_bind.mpr
                  (appendStrict_tracked keys config full _ _ (tracked_counters hw _) (hsafe hmode))

/-! ## Over a run -/

namespace System

/-- In the process, if there is one, the instant is right. -/
def Remembers (s : System) : Prop := ∀ p, s.process = some p → p.core.Remembers

/-- And the store has every entry the heads count. -/
def Tracked (s : System) : Prop := ∀ p, s.process = some p → ∀ calls, (p.world s.disk calls).Tracked

/-- A start finds every entry in a block; a step that appends is safe. -/
def Mindful (s : System) : PipelineOp → Prop
  | .start setup _ _ => setup.blocksPath = true →
      ∀ start, (BlockChain.mk s.disk.blocks).nextStartSequence = .ok start →
        s.disk.entries.length ≤ start
  | .append _ _ _ calls => ∀ p, s.process = some p → p.config.mode = .strictVerified →
      (p.world s.disk calls).SealsSafely
  | .recover calls | .drain calls | .processItem calls => ∀ p, s.process = some p →
      (p.world s.disk calls).SealsSafely
  | _ => True

theorem tracked_down {s : System} (h : s.process = none) : s.Tracked := by
  intro p hp
  rw [h] at hp
  cases hp

theorem tracked_withProcess {s : System} {p : Process} (hlen : p.core.chain.len ≤ s.disk.entries.length)
    (hp : p.core.Remembers) : (s.withProcess p).Tracked := by
  intro p' hp' calls
  cases hp'
  exact ⟨hlen, hp⟩

theorem Tracked.reply {s : System} (h : s.Tracked) (draft : LedgerEntryDraft)
    (r : CliResult AppendOutcome) : (s.reply draft r).Tracked := h

theorem Tracked.remembers {s : System} (h : s.Tracked) : s.Remembers :=
  fun p hp => (h p hp fun _ => []).remembers

/-- A program that keeps the instant right, in a step. -/
theorem tracked_perform {α : Type} {s : System} {p : Process} {calls : Calls} {m : Task α}
    {next : System → Process → CliResult α → System}
    (hm : Prog.Ends m tracking (p.world s.disk calls))
    (hnext : ∀ s p r, p.core.chain.len ≤ s.disk.entries.length → p.core.Remembers →
      (next s p r).Tracked) : (s.perform p calls m next).Tracked :=
  perform_ends (hm.mono (fun _ _ hw => hnext _ _ _ hw.entries hw.remembers)
    (fun _ _ hw => hnext _ _ _ hw.entries hw.remembers) fun _ _ => tracked_down rfl)

/-- A start keeps no instant, and finds no tail. -/
theorem tracked_start {s : System} {setup : Setup} {io : Option CliError} {seen : Nat}
    (hop : s.Mindful (.start setup io seen)) {core : Core} {todo : List (Nat × LedgerEntryDraft)}
    (hopen : «open» setup io seen s.disk = .ok (core, todo)) :
    core.chain.len ≤ s.disk.entries.length ∧ core.Remembers := by
  unfold Pipeline.open at hopen
  obtain ⟨_, -, hopen⟩ := bind_eq_ok.mp hopen
  split at hopen
  · cases hopen
  split at hopen
  · cases hopen
  cases io with
  | some e => cases hopen
  | none =>
      obtain ⟨chain, hchain, hopen⟩ := bind_eq_ok.mp hopen
      have hlen : chain.len = s.disk.entries.length := (ChainState.fromEntries_sequence hchain).2
      cases hopen
      refine ⟨hlen.le, fun blocks hblocks => iff_of_false Bool.false_ne_true ?_⟩
      rintro ⟨start, hstart, htail⟩
      by_cases hpath : setup.blocksPath = true
      · have hsame := hblocks
        simp only [hpath, if_true] at hsame
        cases hsame
        have hcovered := hop hpath start hstart
        have htail : start < chain.len := htail
        omega
      · simp only [hpath] at hblocks
        cases hblocks

/-- What the scan of the WAL leaves. -/
theorem tracked_scan {s : System} {p : Process} (h : s.Tracked) (hproc : s.process = some p)
    (calls : Calls) : (s.perform p calls walPending scanned).Tracked := by
  have hw := h p hproc calls
  refine tracked_perform (Prog.ends_bind.mpr ((diskCall_ends .pending _ _).mono ?_ ?_
    fun _ _ => trivial)) ?_
  · rintro _ w ⟨call, rest, -, -, rfl⟩
    exact ⟨hw.entries, hw.remembers⟩
  · rintro e w ⟨call, rest, -, -, kept, rfl⟩
    cases kept <;> exact ⟨hw.entries, hw.remembers⟩
  · intro s' p' r hlen hp'
    unfold scanned
    cases r with
    | error e => exact tracked_withProcess hlen hp'
    | ok pending =>
        dsimp only
        split
        · exact tracked_withProcess hlen hp'
        · exact tracked_withProcess hlen hp'

/-- One move keeps the instant right. -/
theorem tracked_move {keys : SigningKeyStore c} {s s' : System} {op : PipelineOp} (h : s.Tracked)
    (hop : s.Mindful op) (hmove : Moves keys s op s') : s'.Tracked := by
  cases hmove with
  | start hproc hopen =>
      obtain ⟨hlen, hremembers⟩ := tracked_start hop hopen
      exact tracked_withProcess hlen hremembers
  | crash hproc => exact tracked_down rfl
  | recovered hproc hphase =>
      have hw := h _ hproc fun _ => []
      exact tracked_withProcess hw.entries hw.remembers
  | recover hproc hphase =>
      refine tracked_perform (sealOne_tracked keys _ _ _ (h _ hproc _) (hop _ hproc)) ?_
      intro s' p' r hlen hp'
      cases r with
      | error e => exact tracked_down rfl
      | ok o => exact tracked_withProcess hlen hp'
  | append hproc hfree =>
      refine tracked_perform (append_tracked keys _ _ _ _ (h _ hproc _) (hop _ hproc)) ?_
      intro s' p' r hlen hp'
      rcases r with e | ⟨o | item⟩
      · exact (tracked_withProcess hlen hp').reply _ _
      · exact (tracked_withProcess hlen hp').reply _ _
      · exact tracked_withProcess hlen hp'
  | send hproc hsending =>
      have hw := h _ hproc fun _ => []
      unfold send
      rw [hsending]
      dsimp only
      split
      · exact tracked_withProcess hw.entries hw.remembers
      · refine Tracked.reply ?_ _ _
        exact tracked_withProcess hw.entries hw.remembers
  | counted hproc hsent =>
      have hw := h _ hproc fun _ => []
      unfold counted
      rw [hsent]
      refine Tracked.reply ?_ _ _
      exact tracked_withProcess hw.entries hw.remembers
  | receive hproc hphase hqueue =>
      have hw := h _ hproc fun _ => []
      exact tracked_withProcess hw.entries hw.remembers
  | timeout hproc hphase hqueue =>
      have hw := h _ hproc fun _ => []
      exact tracked_withProcess hw.entries hw.remembers
  | checkDepth hproc hphase =>
      have hw := h _ hproc fun _ => []
      exact tracked_withProcess hw.entries hw.remembers
  | scan hproc hphase => exact tracked_scan h hproc _
  | drain hproc hphase =>
      exact tracked_perform (sealOne_tracked keys _ _ _ (h _ hproc _) (hop _ hproc))
        fun s' p' _ hlen hp' => tracked_withProcess hlen hp'
  | processItem hproc hphase =>
      exact tracked_perform (sealOne_tracked keys _ _ _ (h _ hproc _) (hop _ hproc))
        fun s' p' _ hlen hp' => tracked_withProcess hlen hp'
  | tick hproc hphase =>
      exact tracked_perform (maybeSealByAge_tracked keys _ _ (h _ hproc _))
        fun s' p' _ hlen hp' => tracked_withProcess hlen hp'
  | sealTail hproc hfree =>
      exact tracked_perform (sealUnsealedRange_tracked keys (h _ hproc _))
        fun s' p' _ hlen hp' => tracked_withProcess hlen hp'

/-- One step keeps the instant right. -/
theorem tracked_step {keys : SigningKeyStore c} (s : System) (op : PipelineOp) (h : s.Tracked)
    (hop : s.Mindful op) : (s.step keys op).Tracked :=
  step_induct h fun _ hmove => tracked_move h hop hmove

/-- A system that is down, over any disk. -/
def down (d : Disk) : System := ⟨d, none, []⟩

/-- One event, appended and sealed into the ledger of a fresh pipeline. -/
def oneEvent : List PipelineOp :=
  [.start .default none 0, .recover (callsAt []),
    .append (exerciseDraft "e" "a" (.inline .null)) "u" none (callsAt [(.wal, [.ok])]),
    .receive, .processItem (callsAt [(.store, [.ok]), (.checkpoint, [.ok])])]

end System

end Agenomic.Ledger.Pipeline
