import Agenomic.Ledger.Pipeline

/-!
# What the sealer does

`sealOne` settles a draft, appending it or parking it or finding it there already,
and then moves the watermark and looks at the blocks (**`sealOne_eq`**). What each
half does is said once here, and every property of the pipeline is derived from it:
`Frame` is what settling leaves alone, `Finished` what finishing does to the
watermark and nothing else.
-/

namespace Agenomic.Ledger.Pipeline

open Lib

variable {c : Crypto}

/-! ## The two halves -/

/-- Settle a draft with so many retries left. -/
def settleRetrying (keys : SigningKeyStore c) (config : LedgerConfig) (draft : LedgerEntryDraft) :
    (left attempt : Nat) → Task SealOutcome
  | left, attempt => do
      match ← (ledgerAppend keys draft).attempt with
      | .ok entry => do
          Prog.modify (World.onCore fun core =>
            { core with dedup := core.dedup.insert entry.eventId entry.eventPayloadHash })
          count fun n => { n with appended := n.appended + 1 }
          pure (.appended entry)
      | .error e =>
          match left with
          | left + 1 => do
              count fun n => { n with retries := n.retries + 1 }
              settleRetrying keys config draft left (attempt + 1)
          | 0 => do
              recordDeadLetter .deadLetter config draft .retriesExhausted e.toText attempt
              pure .terminal

/-- Everything up to the watermark. -/
def settle (keys : SigningKeyStore c) (config : LedgerConfig) (draft : LedgerEntryDraft) :
    Task SealOutcome :=
  match draft.payload.resolve c with
  | .error e => do
      recordDeadLetter .deadLetter config draft .invalidEvent e.toText 1
      pure .terminal
  | .ok payloadHash => do
      let w ← Prog.get
      match w.core.dedup[draft.eventId.getD ""]? with
      | some existing =>
          if existing = payloadHash then do
            count fun n => { n with duplicates := n.duplicates + 1 }
            pure .duplicate
          else do
            count fun n => { n with conflicts := n.conflicts + 1 }
            recordDeadLetter .deadLetter config draft .conflict
              (conflictReason (draft.eventId.getD "") existing payloadHash) 1
            pure .terminal
      | none => settleRetrying keys config draft config.retryMaxAttempts 1

/-- The watermark, and blocks after an append. -/
def finish (keys : SigningKeyStore c) (config : LedgerConfig) (walSeq : Option Nat)
    (o : SealOutcome) : Task SealOutcome := do
  advanceWatermark walSeq
  match o with
  | .appended entry => do
      sealBlocks keys config
      pure (.appended entry)
  | o => pure o

theorem sealRetrying_eq (keys : SigningKeyStore c) (config : LedgerConfig)
    (draft : LedgerEntryDraft) (walSeq : Option Nat) (left attempt : Nat) :
    sealRetrying keys config draft walSeq left attempt
      = settleRetrying keys config draft left attempt >>= finish keys config walSeq := by
  induction left generalizing attempt with
  | zero =>
      unfold sealRetrying settleRetrying
      rw [bind_assoc]
      congr 1
      funext r
      cases r <;> simp only [bind_assoc, pure_bind, finish]
  | succ left ih =>
      unfold sealRetrying settleRetrying
      rw [bind_assoc]
      congr 1
      funext r
      cases r with
      | error e => simp only [bind_assoc, ih]
      | ok entry => simp only [bind_assoc, pure_bind, finish]

/-- **Sealing is settling and then finishing.** -/
theorem sealOne_eq (keys : SigningKeyStore c) (config : LedgerConfig) (draft : LedgerEntryDraft)
    (walSeq : Option Nat) :
    sealOne keys config draft walSeq = settle keys config draft >>= finish keys config walSeq := by
  unfold sealOne settle
  cases draft.payload.resolve c with
  | error e => simp only [bind_assoc, pure_bind, finish]
  | ok payloadHash =>
      simp only [bind_assoc]
      congr 1
      funext w
      cases w.core.dedup[draft.eventId.getD ""]? with
      | none => exact sealRetrying_eq keys config draft walSeq _ 1
      | some existing =>
          by_cases h : existing = payloadHash
          · simp only [if_pos h, bind_assoc, pure_bind, finish]
          · simp only [if_neg h, bind_assoc, pure_bind, finish]

/-! ## Calls -/

/-- The world after a call. -/
def World.called (w : World) (site : CallSite) (calls : List Call) : World :=
  { w with calls := Function.update w.calls site calls }

@[simp] theorem World.called_core (w : World) (site : CallSite) (calls : List Call) :
    (w.called site calls).core = w.core := rfl

/-- A call is the next one of its site, or the process dies. -/
theorem ends_nextCall {site : CallSite} {post : Post World CliError Call} {w : World}
    (hcrash : w.calls site = [] → post.crash w)
    (hok : ∀ call rest, w.calls site = call :: rest → post.ok call (w.called site rest)) :
    Prog.Ends (nextCall site) post w := by
  unfold Prog.Ends nextCall
  cases h : w.calls site with
  | nil => exact hcrash h
  | cons call rest => exact hok call rest h

/-- A call that changes the disk. -/
theorem ends_carryOut {outcome : CallOutcome} {effect : Disk → Disk}
    {post : Post World CliError Unit} {w : World}
    (hok : outcome = .ok → post.ok () (w.onDisk effect))
    (herror : ∀ kept e, outcome = .failed kept e →
      post.error e (w.onDisk (if kept then effect else id)))
    (hcrash : ∀ kept, outcome = .died kept →
      post.crash (w.onDisk (if kept then effect else id))) :
    Prog.Ends (carryOut outcome effect) post w := by
  unfold carryOut
  cases outcome with
  | ok => exact hok rfl
  | failed kept e => exact herror kept e rfl
  | died kept => exact hcrash kept rfl

/-- The same disk, or the disk with an effect. -/
def Touched (d : Disk) (effect : Disk → Disk) (d' : Disk) : Prop := d' = d ∨ d' = effect d

theorem touched_ite (d : Disk) (effect : Disk → Disk) (kept : Bool) :
    Touched d effect ((if kept then effect else id) d) := by
  cases kept
  · exact .inl rfl
  · exact .inr rfl

/-- How a call that does nothing else ends. -/
theorem diskCall_ends (site : CallSite) (effect : AppendInputs → Disk → Disk) (w : World) :
    Prog.Ends (diskCall site effect)
      ⟨fun _ w' => ∃ call rest, w.calls site = call :: rest ∧ call.outcome = .ok
          ∧ w' = (w.called site rest).onDisk (effect call.ids),
        fun _ w' => ∃ call rest, w.calls site = call :: rest ∧ call.Fails
          ∧ ∃ kept : Bool, w' = (w.called site rest).onDisk (if kept then effect call.ids else id),
        fun w' => ∃ ids, Touched w.disk (effect ids) w'.disk⟩ w := by
  unfold diskCall
  rw [Prog.ends_bind]
  refine ends_nextCall (fun _ => ?_) fun call rest h => ?_
  · exact ⟨⟨"", "", ⟨""⟩⟩, .inl rfl⟩
  · refine ends_carryOut (fun hok => ?_) (fun kept e he => ?_) fun kept _ => ?_
    · exact ⟨call, rest, h, hok, rfl⟩
    · exact ⟨call, rest, h, ⟨kept, e, he⟩, kept, rfl⟩
    · exact ⟨call.ids, touched_ite w.disk _ kept⟩

/-! ## What a call keeps -/

section Keeps

variable {inv : World → Prop}

theorem keeps_nextCall {site : CallSite}
    (h : ∀ w call rest, w.calls site = call :: rest → inv w → inv (w.called site rest)) :
    Prog.Keeps inv (nextCall site) :=
  fun w hw => ends_nextCall (fun _ => hw) fun call rest hc => h w call rest hc hw

theorem keeps_carryOut {outcome : CallOutcome} {effect : Disk → Disk}
    (h : ∀ w, inv w → inv (w.onDisk effect)) : Prog.Keeps inv (carryOut outcome effect) := by
  have hite : ∀ w (kept : Bool), inv w → inv (w.onDisk (if kept then effect else id)) := by
    intro w kept hw
    cases kept
    · exact hw
    · exact h w hw
  intro w hw
  exact ends_carryOut (fun _ => h w hw) (fun kept _ _ => hite w kept hw) fun kept _ => hite w kept hw

theorem keeps_diskCall {site : CallSite} {effect : AppendInputs → Disk → Disk}
    (hcall : ∀ w call rest, w.calls site = call :: rest → inv w → inv (w.called site rest))
    (h : ∀ ids w, inv w → inv (w.onDisk (effect ids))) : Prog.Keeps inv (diskCall site effect) :=
  (keeps_nextCall hcall).bind fun call => keeps_carryOut (h call.ids)

theorem keeps_count {f : Counters → Counters} (h : ∀ w, inv w → inv (w.onCounters f)) :
    Prog.Keeps inv (count f) := Prog.keeps_modify h

theorem keeps_countIf {b : Bool} {f : Counters → Counters}
    (h : ∀ w, inv w → inv (w.onCounters f)) : Prog.Keeps inv (countIf b f) := by
  unfold countIf
  cases b
  · exact Prog.keeps_pure ()
  · exact keeps_count h

/-- What settling a draft cannot break: making calls, counting what became of the draft,
moving the heads and the index, and adding an entry, or a dead letter of this draft. -/
structure SettleSafe (inv : World → Prop) (draft : LedgerEntryDraft) : Prop where
  calls : ∀ w site call rest, w.calls site = call :: rest → inv w → inv (w.called site rest)
  counters : ∀ f : Counters → Counters, (∀ n, (f n).received = n.received
    ∧ (f n).queueDepth = n.queueDepth ∧ (f n).walBacklog = n.walBacklog) →
    ∀ w, inv w → inv (w.onCounters f)
  core : ∀ f : Core → Core, (∀ core, (f core).appliedWalSeq = core.appliedWalSeq) →
    ∀ w, inv w → inv (w.onCore f)
  entry : ∀ e w, inv w → inv (w.onDisk (Disk.addEntry e))
  deadLetter : ∀ r w, r.draft = draft → inv w → inv (w.onDisk (Disk.addDeadLetter r))

variable {draft : LedgerEntryDraft}

theorem SettleSafe.ledgerAppend (h : SettleSafe inv draft) (keys : SigningKeyStore c) :
    Prog.Keeps inv (ledgerAppend keys draft) := by
  refine (keeps_nextCall fun w => h.calls w .store).bind fun call => ?_
  refine Prog.keeps_get.bind fun w => (Prog.keeps_ofExcept _).bind fun entry => ?_
  refine (keeps_carryOut (h.entry entry)).bind fun _ => ?_
  refine (Prog.keeps_modify (h.core _ ?_)).bind fun _ => Prog.keeps_pure entry
  intro core
  rfl

/-- Counting what became of a draft. -/
theorem SettleSafe.count (h : SettleSafe inv draft) {f : Counters → Counters}
    (hf : ∀ n, (f n).received = n.received ∧ (f n).queueDepth = n.queueDepth
      ∧ (f n).walBacklog = n.walBacklog) : Prog.Keeps inv (count f) :=
  keeps_count (h.counters f hf)

theorem SettleSafe.recordDeadLetter (h : SettleSafe inv draft) (site : CallSite)
    (config : LedgerConfig) (reason : DeadLetterReason) (detail : String) (attempts : Nat) :
    Prog.Keeps inv (recordDeadLetter site config draft reason detail attempts) := by
  unfold Pipeline.recordDeadLetter
  by_cases hdl : config.deadLetterEnabled = true
  · rw [if_pos hdl]
    refine (keeps_diskCall (fun w => h.calls w site) fun ids w => h.deadLetter _ w rfl).bind
      fun _ => h.count ?_
    intro n
    exact ⟨rfl, rfl, rfl⟩
  · rw [if_neg hdl]
    exact Prog.keeps_pure ()

/-- Putting an entry in the index. -/
theorem SettleSafe.index (h : SettleSafe inv draft) (entry : LedgerEntry) :
    Prog.Keeps inv (do
      Prog.modify (World.onCore fun core =>
        { core with dedup := core.dedup.insert entry.eventId entry.eventPayloadHash })
      Pipeline.count fun n => { n with appended := n.appended + 1 }
      pure (SealOutcome.appended entry)) := by
  refine (Prog.keeps_modify (h.core _ ?_)).bind fun _ => (h.count ?_).bind fun _ =>
    Prog.keeps_pure _
  · intro core
    rfl
  · intro n
    exact ⟨rfl, rfl, rfl⟩

theorem SettleSafe.settleRetrying (h : SettleSafe inv draft) (keys : SigningKeyStore c)
    (config : LedgerConfig) (left attempt : Nat) :
    Prog.Keeps inv (settleRetrying keys config draft left attempt) := by
  induction left generalizing attempt with
  | zero =>
      unfold Pipeline.settleRetrying
      refine (h.ledgerAppend keys).attempt.bind fun r => ?_
      cases r with
      | ok entry => exact h.index entry
      | error e => exact (h.recordDeadLetter _ config _ _ _).bind fun _ => Prog.keeps_pure _
  | succ left ih =>
      unfold Pipeline.settleRetrying
      refine (h.ledgerAppend keys).attempt.bind fun r => ?_
      cases r with
      | ok entry => exact h.index entry
      | error e =>
          refine Prog.Keeps.bind (h.count ?_) fun _ => ih (attempt + 1)
          intro n
          exact ⟨rfl, rfl, rfl⟩

theorem SettleSafe.settle (h : SettleSafe inv draft) (keys : SigningKeyStore c)
    (config : LedgerConfig) : Prog.Keeps inv (settle keys config draft) := by
  unfold Pipeline.settle
  cases draft.payload.resolve c with
  | error e => exact (h.recordDeadLetter _ config _ _ _).bind fun _ => Prog.keeps_pure _
  | ok payloadHash =>
      refine Prog.keeps_get.bind fun w => ?_
      cases w.core.dedup[draft.eventId.getD ""]? with
      | none => exact h.settleRetrying keys config _ _
      | some existing =>
          by_cases heq : existing = payloadHash
          · simp only [if_pos heq]
            refine Prog.Keeps.bind (h.count ?_) fun _ => Prog.keeps_pure _
            intro n
            exact ⟨rfl, rfl, rfl⟩
          · simp only [if_neg heq]
            refine Prog.Keeps.bind (h.count ?_) fun _ =>
              (h.recordDeadLetter _ config _ _ _).bind fun _ => Prog.keeps_pure _
            intro n
            exact ⟨rfl, rfl, rfl⟩

/-- What sealing blocks cannot break: making calls, adding a block, and touching what the
core knows of blocks. -/
structure BlockSafe (inv : World → Prop) : Prop where
  calls : ∀ w site call rest, w.calls site = call :: rest → inv w → inv (w.called site rest)
  core : ∀ f : Core → Core, (∀ core, (f core).appliedWalSeq = core.appliedWalSeq
    ∧ (f core).chain = core.chain ∧ (f core).dedup = core.dedup) → ∀ w, inv w → inv (w.onCore f)
  block : ∀ b w, inv w → inv (w.onDisk (Disk.addBlock b))

theorem BlockSafe.sealUnsealedRange (h : BlockSafe inv) (keys : SigningKeyStore c) :
    Prog.Keeps inv (sealUnsealedRange keys) := by
  unfold Pipeline.sealUnsealedRange
  refine Prog.keeps_get.bind fun w => ?_
  cases w.core.blocks with
  | none => exact Prog.keeps_pure _
  | some chain =>
      refine (Prog.keeps_ofExcept _).bind fun start => ?_
      refine Prog.Keeps.bind ?_ fun entries => ?_
      · unfold readAll
        refine Prog.Keeps.bind (keeps_diskCall (fun w => h.calls w .reads) ?_) fun _ =>
          Prog.keeps_get.bind fun _ => Prog.keeps_pure _
        intro _ w hw
        exact hw
      · by_cases hle : entries.length ≤ start
        · simp only [if_pos hle]
          refine (Prog.keeps_modify (h.core _ ?_)).bind fun _ => Prog.keeps_pure _
          intro core
          exact ⟨rfl, rfl, rfl⟩
        · simp only [if_neg hle]
          refine (keeps_nextCall fun w => h.calls w .blocks).bind fun _ => ?_
          refine (Prog.keeps_ofExcept _).bind fun block => ?_
          refine (keeps_carryOut (h.block block)).bind fun _ => ?_
          refine (Prog.keeps_modify (h.core _ ?_)).bind fun _ => Prog.keeps_pure _
          intro core
          exact ⟨rfl, rfl, rfl⟩

theorem BlockSafe.maybeSealByCount (h : BlockSafe inv) (keys : SigningKeyStore c)
    (config : LedgerConfig) : Prog.Keeps inv (maybeSealByCount keys config) := by
  unfold Pipeline.maybeSealByCount
  cases config.blockMaxEntries with
  | none => exact Prog.keeps_pure _
  | some maxEntries =>
      refine Prog.keeps_get.bind fun w => ?_
      cases w.core.blocks with
      | none => exact Prog.keeps_pure _
      | some chain =>
          refine (Prog.keeps_ofExcept _).bind fun start => ?_
          by_cases hle : maxEntries ≤ w.core.chain.len - start
          · rw [if_pos hle]
            exact (h.sealUnsealedRange keys).bind fun _ => Prog.keeps_pure _
          · rw [if_neg hle]
            exact Prog.keeps_pure _

theorem BlockSafe.maybeSealByAge (h : BlockSafe inv) (keys : SigningKeyStore c)
    (config : LedgerConfig) (due : Bool) : Prog.Keeps inv (maybeSealByAge keys config due) := by
  unfold Pipeline.maybeSealByAge
  cases config.blockMaxAgeMs with
  | none => exact Prog.keeps_pure _
  | some _ =>
      refine Prog.keeps_get.bind fun w => ?_
      by_cases hdue : (w.core.oldestUnsealed && due) = true
      · simp only [if_pos hdue]
        exact (h.sealUnsealedRange keys).attempt.bind fun _ => Prog.keeps_pure _
      · simp only [if_neg hdue]
        exact Prog.keeps_pure _

theorem BlockSafe.sealBlocks (h : BlockSafe inv) (keys : SigningKeyStore c)
    (config : LedgerConfig) : Prog.Keeps inv (sealBlocks keys config) := by
  unfold Pipeline.sealBlocks
  refine Prog.keeps_get.bind fun w => ?_
  cases w.core.blocks with
  | none => exact Prog.keeps_pure _
  | some _ =>
      refine (Prog.keeps_modify (h.core _ ?_)).bind fun _ => h.maybeSealByCount keys config
      intro core
      exact ⟨rfl, rfl, rfl⟩

/-- What sealing a draft cannot break. -/
structure SealSafe (inv : World → Prop) (draft : LedgerEntryDraft) : Prop
    extends SettleSafe inv draft where
  anyCore : ∀ f : Core → Core, ∀ w, inv w → inv (w.onCore f)
  checkpoint : ∀ seq w, inv w → inv (w.onDisk (Disk.checkpoint seq))
  block : ∀ b w, inv w → inv (w.onDisk (Disk.addBlock b))

theorem SealSafe.toBlockSafe (h : SealSafe inv draft) : BlockSafe inv :=
  ⟨h.calls, fun f _ => h.anyCore f, h.block⟩

theorem SealSafe.advanceWatermark (h : SealSafe inv draft) (walSeq : Option Nat) :
    Prog.Keeps inv (advanceWatermark walSeq) := by
  unfold Pipeline.advanceWatermark
  cases walSeq with
  | none => exact Prog.keeps_pure ()
  | some seq =>
      refine Prog.keeps_get.bind fun w => ?_
      by_cases hlt : w.core.appliedWalSeq < seq
      · simp only [if_pos hlt]
        exact (Prog.keeps_modify (h.anyCore _)).bind fun _ =>
          keeps_diskCall (fun w => h.calls w .checkpoint) fun _ => h.checkpoint seq
      · simp only [if_neg hlt]
        exact Prog.keeps_pure ()

/-- **What sealing a draft keeps.** -/
theorem SealSafe.sealOne (h : SealSafe inv draft) (keys : SigningKeyStore c)
    (config : LedgerConfig) (walSeq : Option Nat) :
    Prog.Keeps inv (sealOne keys config draft walSeq) := by
  rw [sealOne_eq]
  refine (h.settle keys config).bind fun o => ?_
  unfold finish
  refine (h.advanceWatermark walSeq).bind fun _ => ?_
  cases o with
  | appended entry => exact (h.toBlockSafe.sealBlocks keys config).bind fun _ => Prog.keeps_pure _
  | duplicate => exact Prog.keeps_pure _
  | terminal => exact Prog.keeps_pure _

end Keeps

/-! ## What settling leaves alone -/

/-- The WAL, the watermark and the flow of events stay; entries, dead letters are only added
and calls only used up. -/
structure Frame (w w' : World) : Prop where
  wal : w'.disk.wal = w.disk.wal
  entries : w.disk.entries <+: w'.disk.entries
  deadLetters : w.disk.deadLetters <+: w'.disk.deadLetters
  applied : w'.core.appliedWalSeq = w.core.appliedWalSeq
  queue : w'.queue = w.queue
  received : w'.counters.received = w.counters.received
  queueDepth : w'.counters.queueDepth = w.counters.queueDepth
  walBacklog : w'.counters.walBacklog = w.counters.walBacklog
  calls : ∀ site, w'.calls site <:+ w.calls site

theorem Frame.refl (w : World) : Frame w w :=
  ⟨rfl, List.prefix_rfl, List.prefix_rfl, rfl, rfl, rfl, rfl, rfl, fun _ => List.suffix_rfl⟩

/-- Using up a call shortens the list of its site. -/
theorem called_suffix {w : World} {site : CallSite} {call : Call} {rest : List Call}
    (h : w.calls site = call :: rest) (site' : CallSite) :
    (w.called site rest).calls site' <:+ w.calls site' := by
  show Function.update w.calls site rest site' <:+ w.calls site'
  by_cases hs : site' = site
  · subst hs
    rw [Function.update_self, h]
    exact List.suffix_cons call rest
  · rw [Function.update_of_ne hs]

theorem settleSafe_frame (w : World) (draft : LedgerEntryDraft) :
    SettleSafe (Frame w) draft where
  calls _ _ _ _ h hw := { hw with
    calls := fun site' => (called_suffix h site').trans (hw.calls site') }
  counters _ hf _ hw := { hw with
    received := (hf _).1.trans hw.received
    queueDepth := (hf _).2.1.trans hw.queueDepth
    walBacklog := (hf _).2.2.trans hw.walBacklog }
  core _ hf _ hw := { hw with applied := (hf _).trans hw.applied }
  entry _ _ hw := { hw with entries := hw.entries.trans (List.prefix_append _ _) }
  deadLetter _ _ _ hw := { hw with deadLetters := hw.deadLetters.trans (List.prefix_append _ _) }

/-- **What settling leaves alone.** -/
theorem settle_frame (keys : SigningKeyStore c) (config : LedgerConfig)
    (draft : LedgerEntryDraft) (w : World) :
    Prog.Ends (settle keys config draft)
      ⟨fun _ w' => Frame w w', fun _ w' => Frame w w', fun w' => Frame w w'⟩ w :=
  (settleSafe_frame w draft).settle keys config w (Frame.refl w)

/-! ## What finishing does -/

/-- The watermark is where it was, or it has moved up to this record. -/
def WatermarkAt (w : World) (walSeq : Option Nat) (d : Disk) : Prop :=
  d.wal = w.disk.wal
    ∨ ∃ seq, walSeq = some seq ∧ w.core.appliedWalSeq < seq ∧ d.wal = w.disk.wal.mark seq

/-- The records up to this one are dealt with, and nothing else but blocks has changed. -/
structure Finished (w : World) (walSeq : Option Nat) (w' : World) : Prop where
  watermark : WatermarkAt w walSeq w'.disk
  entries : w'.disk.entries = w.disk.entries
  deadLetters : w'.disk.deadLetters = w.disk.deadLetters
  applied : w'.core.appliedWalSeq = max w.core.appliedWalSeq (walSeq.getD 0)
  chain : w'.core.chain = w.core.chain
  dedup : w'.core.dedup = w.core.dedup
  counters : w'.counters = w.counters
  queue : w'.queue = w.queue
  calls : ∀ site, w'.calls site <:+ w.calls site

/-- What a crash while finishing leaves. -/
structure FinishedDisk (w : World) (walSeq : Option Nat) (d : Disk) : Prop where
  watermark : WatermarkAt w walSeq d
  entries : d.entries = w.disk.entries
  deadLetters : d.deadLetters = w.disk.deadLetters

theorem blockSafe_finished (w : World) (walSeq : Option Nat) : BlockSafe (Finished w walSeq) where
  calls _ _ _ _ h hw := { hw with
    calls := fun site' => (called_suffix h site').trans (hw.calls site') }
  core _ hf _ hw := { hw with
    applied := (hf _).1.trans hw.applied
    chain := (hf _).2.1.trans hw.chain
    dedup := (hf _).2.2.trans hw.dedup }
  block _ _ hw := { hw with }

theorem Finished.toDisk {w w' : World} {walSeq : Option Nat} (h : Finished w walSeq w') :
    FinishedDisk w walSeq w'.disk := ⟨h.watermark, h.entries, h.deadLetters⟩

theorem advanceWatermark_ends (walSeq : Option Nat) (w : World) :
    Prog.Ends (advanceWatermark walSeq)
      ⟨fun _ w' => Finished w walSeq w', fun _ w' => Finished w walSeq w',
        fun w' => FinishedDisk w walSeq w'.disk⟩ w := by
  have hsame : ∀ seq, seq ≤ w.core.appliedWalSeq → w.core.appliedWalSeq
      = max w.core.appliedWalSeq seq := fun seq h => (max_eq_left h).symm
  unfold advanceWatermark
  cases walSeq with
  | none =>
      exact ⟨.inl rfl, rfl, rfl, hsame 0 (Nat.zero_le _), rfl, rfl, rfl, rfl,
        fun _ => List.suffix_rfl⟩
  | some seq =>
      rw [Prog.ends_bind, Prog.ends_get]
      by_cases hlt : w.core.appliedWalSeq < seq
      · simp only [if_pos hlt]
        rw [Prog.ends_bind, Prog.ends_modify]
        have hmax : seq = max w.core.appliedWalSeq seq := (max_eq_right hlt.le).symm
        refine (diskCall_ends .checkpoint _ _).mono ?_ ?_ ?_
        · rintro _ w' ⟨call, rest, hcalls, -, rfl⟩
          exact ⟨.inr ⟨seq, rfl, hlt, rfl⟩, rfl, rfl, hmax, rfl, rfl, rfl, rfl,
            called_suffix hcalls⟩
        · rintro _ w' ⟨call, rest, hcalls, -, kept, rfl⟩
          have hmark : WatermarkAt w (some seq)
              ((if kept then Disk.checkpoint seq else id) w.disk) := by
            cases kept
            · exact .inl rfl
            · exact .inr ⟨seq, rfl, hlt, rfl⟩
          refine ⟨hmark, ?_, ?_, hmax, rfl, rfl, rfl, rfl, called_suffix hcalls⟩
          · cases kept <;> rfl
          · cases kept <;> rfl
        · rintro w' ⟨ids, h | h⟩
          · show FinishedDisk w (some seq) w'.disk
            rw [h]
            exact ⟨.inl rfl, rfl, rfl⟩
          · show FinishedDisk w (some seq) w'.disk
            rw [h]
            exact ⟨.inr ⟨seq, rfl, hlt, rfl⟩, rfl, rfl⟩
      · simp only [if_neg hlt]
        rw [Prog.ends_pure]
        exact ⟨.inl rfl, rfl, rfl, hsame seq (Nat.not_lt.mp hlt), rfl, rfl, rfl, rfl,
          fun _ => List.suffix_rfl⟩

/-- **What finishing does.** -/
theorem finish_ends (keys : SigningKeyStore c) (config : LedgerConfig) (walSeq : Option Nat)
    (o : SealOutcome) (w : World) :
    Prog.Ends (finish keys config walSeq o)
      ⟨fun o' w' => o' = o ∧ Finished w walSeq w', fun _ w' => Finished w walSeq w',
        fun w' => FinishedDisk w walSeq w'.disk⟩ w := by
  unfold finish
  rw [Prog.ends_bind]
  refine (advanceWatermark_ends walSeq w).mono ?_ (fun _ _ h => h) fun _ h => h
  intro _ w' hw
  cases o with
  | duplicate => exact ⟨rfl, hw⟩
  | terminal => exact ⟨rfl, hw⟩
  | appended entry =>
      refine Prog.ends_bind.mpr ?_
      refine ((blockSafe_finished w walSeq).sealBlocks keys config w' hw).mono ?_ ?_ ?_
      · intro _ w'' h
        exact ⟨rfl, h⟩
      · intro _ w'' h
        exact h
      · intro w'' h
        exact h.toDisk

/-- **Sealing, put together**: whatever settling comes to, with finishing behind it. -/
theorem sealOne_ends {keys : SigningKeyStore c} {config : LedgerConfig}
    {draft : LedgerEntryDraft} {w : World} {post : Post World CliError SealOutcome}
    (h : Prog.Ends (settle keys config draft) post w) (walSeq : Option Nat) :
    Prog.Ends (sealOne keys config draft walSeq)
      ⟨fun o w' => ∃ w₁, post.ok o w₁ ∧ Finished w₁ walSeq w',
        fun e w' => post.error e w' ∨ ∃ o w₁, post.ok o w₁ ∧ Finished w₁ walSeq w',
        fun w' => post.crash w' ∨ ∃ o w₁, post.ok o w₁ ∧ FinishedDisk w₁ walSeq w'.disk⟩ w := by
  rw [sealOne_eq, Prog.ends_bind]
  refine h.mono (fun o w₁ h₁ => ?_) (fun _ _ h₁ => .inl h₁) fun _ h₁ => .inl h₁
  refine (finish_ends keys config walSeq o w₁).mono ?_ ?_ ?_
  · rintro o' w' ⟨rfl, hw'⟩
    exact ⟨w₁, h₁, hw'⟩
  · intro e w' hw'
    exact .inr ⟨o, w₁, h₁, hw'⟩
  · intro w' hw'
    exact .inr ⟨o, w₁, h₁, hw'⟩

/-! ## Appending to the ledger, and dead letters -/

/-- A call that appends the draft to a ledger with these heads. -/
def CallAppends (keys : SigningKeyStore c) (chain : ChainState) (draft : LedgerEntryDraft)
    (call : Call) : Prop :=
  call.outcome = .ok ∧ ∃ e, sealDraft keys chain call.ids draft = .ok e

/-- The disk as it was, or with the draft sealed into it. -/
def MaybeSealed (keys : SigningKeyStore c) (draft : LedgerEntryDraft) (w : World) (d : Disk) :
    Prop :=
  d = w.disk ∨ ∃ ids e, sealDraft keys w.core.chain ids draft = .ok e ∧ d = w.disk.addEntry e

/-- How an append to the ledger ends. -/
theorem ledgerAppend_ends (keys : SigningKeyStore c) (draft : LedgerEntryDraft) (w : World) :
    Prog.Ends (ledgerAppend keys draft)
      ⟨fun e w' => ∃ call rest, w.calls .store = call :: rest ∧ call.outcome = .ok
          ∧ sealDraft keys w.core.chain call.ids draft = .ok e
          ∧ w' = ((w.called .store rest).onDisk (Disk.addEntry e)).onCore
              (fun core => { core with chain := core.chain.advance e }),
        fun _ w' => ∃ call rest, w.calls .store = call :: rest
          ∧ ¬ CallAppends keys w.core.chain draft call
          ∧ ∃ d, MaybeSealed keys draft w d ∧ w' = { w.called .store rest with disk := d },
        fun w' => MaybeSealed keys draft w w'.disk⟩ w := by
  unfold ledgerAppend
  refine Prog.ends_bind.mpr (ends_nextCall (fun _ => .inl rfl) fun call rest hcalls => ?_)
  refine Prog.ends_bind.mpr (Prog.ends_get.mpr (Prog.ends_bind.mpr ?_))
  cases hseal : sealDraft keys w.core.chain call.ids draft with
  | error e =>
      rw [World.called_core, hseal, Prog.ends_ofExcept_error]
      refine ⟨call, rest, hcalls, ?_, w.disk, .inl rfl, rfl⟩
      rintro ⟨-, entry, hentry⟩
      rw [hseal] at hentry
      cases hentry
  | ok entry =>
      rw [World.called_core, hseal, Prog.ends_ofExcept_ok]
      refine Prog.ends_bind.mpr ?_
      refine ends_carryOut (fun hok => ?_) (fun kept e he => ?_) fun kept _ => ?_
      · exact ⟨call, rest, hcalls, hok, hseal, rfl⟩
      · refine ⟨call, rest, hcalls, ?_, (if kept then Disk.addEntry entry else id) w.disk, ?_, rfl⟩
        · rintro ⟨hok, -⟩
          rw [he] at hok
          cases hok
        · cases kept
          · exact .inl rfl
          · exact .inr ⟨call.ids, entry, hseal, rfl⟩
      · cases kept
        · exact .inl rfl
        · exact .inr ⟨call.ids, entry, hseal, rfl⟩

/-- A dead letter of this draft, for this reason. -/
def DeadLetterRecord.Of (draft : LedgerEntryDraft) (reason : DeadLetterReason)
    (r : DeadLetterRecord) : Prop :=
  r.draft = draft ∧ r.eventId = draft.eventId.getD "" ∧ r.reason = reason

/-- How parking an event ends. -/
theorem recordDeadLetter_ends (site : CallSite) (config : LedgerConfig)
    (draft : LedgerEntryDraft) (reason : DeadLetterReason) (detail : String) (attempts : Nat)
    (w : World) :
    Prog.Ends (recordDeadLetter site config draft reason detail attempts)
      ⟨fun _ w' => (config.deadLetterEnabled = false ∧ w' = w)
          ∨ (config.deadLetterEnabled = true ∧ ∃ call rest r, w.calls site = call :: rest
            ∧ call.outcome = .ok ∧ DeadLetterRecord.Of draft reason r
            ∧ w' = ((w.called site rest).onDisk (Disk.addDeadLetter r)).onCounters
                fun n => { n with deadLettered := n.deadLettered + 1 }),
        fun _ w' => config.deadLetterEnabled = true ∧ ∃ call rest, w.calls site = call :: rest
          ∧ call.Fails ∧ ∃ r, DeadLetterRecord.Of draft reason r ∧ ∃ kept : Bool,
            w' = (w.called site rest).onDisk (if kept then Disk.addDeadLetter r else id),
        fun w' => ∃ r, DeadLetterRecord.Of draft reason r
          ∧ Touched w.disk (Disk.addDeadLetter r) w'.disk⟩ w := by
  unfold recordDeadLetter
  cases hdl : config.deadLetterEnabled with
  | false =>
      rw [if_neg Bool.false_ne_true, Prog.ends_pure]
      exact .inl ⟨rfl, rfl⟩
  | true =>
      rw [if_pos rfl]
      refine Prog.ends_bind.mpr ((diskCall_ends site _ w).mono ?_ ?_ ?_)
      · rintro _ w' ⟨call, rest, hcalls, hok, rfl⟩
        exact .inr ⟨rfl, call, rest, _, hcalls, hok, ⟨rfl, rfl, rfl⟩, rfl⟩
      · rintro _ w' ⟨call, rest, hcalls, hfails, kept, rfl⟩
        exact ⟨rfl, call, rest, hcalls, hfails, _, ⟨rfl, rfl, rfl⟩, kept, rfl⟩
      · rintro w' ⟨ids, h⟩
        exact ⟨_, ⟨rfl, rfl, rfl⟩, h⟩

/-! ## Walking through a seal -/

/-- Park a draft for good. -/
def park (config : LedgerConfig) (draft : LedgerEntryDraft) (reason : DeadLetterReason)
    (detail : String) (attempts : Nat) : Task SealOutcome := do
  recordDeadLetter .deadLetter config draft reason detail attempts
  pure .terminal

/-- The world once an entry is in the ledger and in the index. -/
def World.indexed (w : World) (rest : List Call) (e : LedgerEntry) : World :=
  ((((w.called .store rest).onDisk (Disk.addEntry e)).onCore fun core =>
    { core with chain := core.chain.advance e }).onCore fun core =>
      { core with dedup := core.dedup.insert e.eventId e.eventPayloadHash }).onCounters fun n =>
        { n with appended := n.appended + 1 }

/-- The world after an attempt that came back with an error. -/
def World.attempted (w : World) (rest : List Call) (d : Disk) : World :=
  { w.called .store rest with disk := d }

/-- Retries, with an invariant on how many are left. -/
theorem ends_settleRetrying {keys : SigningKeyStore c} {config : LedgerConfig}
    {draft : LedgerEntryDraft} {post : Post World CliError SealOutcome}
    (inv : Nat → World → Prop)
    (appended : ∀ left w call rest e, inv left w → w.calls .store = call :: rest →
      call.outcome = .ok → sealDraft keys w.core.chain call.ids draft = .ok e →
      post.ok (.appended e) (w.indexed rest e))
    (retried : ∀ left w call rest d, inv (left + 1) w → w.calls .store = call :: rest →
      ¬ CallAppends keys w.core.chain draft call → MaybeSealed keys draft w d →
      inv left ((w.attempted rest d).onCounters fun n => { n with retries := n.retries + 1 }))
    (exhausted : ∀ w call rest d detail attempts, inv 0 w → w.calls .store = call :: rest →
      ¬ CallAppends keys w.core.chain draft call → MaybeSealed keys draft w d →
      Prog.Ends (park config draft .retriesExhausted detail attempts) post (w.attempted rest d))
    (crash : ∀ left w w', inv left w → MaybeSealed keys draft w w'.disk → post.crash w')
    {left : Nat} (attempt : Nat) {w : World} (hw : inv left w) :
    Prog.Ends (settleRetrying keys config draft left attempt) post w := by
  induction left generalizing attempt w with
  | zero =>
      unfold settleRetrying
      refine Prog.ends_bind.mpr (Prog.ends_attempt.mpr ((ledgerAppend_ends keys draft w).mono
        ?_ ?_ fun w' h => crash 0 w w' hw h))
      · rintro e w' ⟨call, rest, hcalls, hok, hseal, rfl⟩
        exact appended 0 w call rest e hw hcalls hok hseal
      · rintro e w' ⟨call, rest, hcalls, hnot, d, hd, rfl⟩
        exact exhausted w call rest d _ _ hw hcalls hnot hd
  | succ left ih =>
      unfold settleRetrying
      refine Prog.ends_bind.mpr (Prog.ends_attempt.mpr ((ledgerAppend_ends keys draft w).mono
        ?_ ?_ fun w' h => crash (left + 1) w w' hw h))
      · rintro e w' ⟨call, rest, hcalls, hok, hseal, rfl⟩
        exact appended (left + 1) w call rest e hw hcalls hok hseal
      · rintro e w' ⟨call, rest, hcalls, hnot, d, hd, rfl⟩
        refine Prog.ends_bind.mpr ?_
        exact ih (attempt + 1) (retried left w call rest d hw hcalls hnot hd)

/-- The ways to settle a draft. -/
theorem ends_settle {keys : SigningKeyStore c} {config : LedgerConfig} {draft : LedgerEntryDraft}
    {post : Post World CliError SealOutcome} {w : World}
    (malformed : ∀ e, draft.payload.resolve c = .error e →
      Prog.Ends (park config draft .invalidEvent e.toText 1) post w)
    (duplicate : ∀ payloadHash, draft.payload.resolve c = .ok payloadHash →
      w.core.dedup[draft.eventId.getD ""]? = some payloadHash →
      post.ok .duplicate (w.onCounters fun n => { n with duplicates := n.duplicates + 1 }))
    (conflict : ∀ payloadHash existing, draft.payload.resolve c = .ok payloadHash →
      w.core.dedup[draft.eventId.getD ""]? = some existing → existing ≠ payloadHash →
      Prog.Ends (park config draft .conflict
        (conflictReason (draft.eventId.getD "") existing payloadHash) 1) post
        (w.onCounters fun n => { n with conflicts := n.conflicts + 1 }))
    (unseen : ∀ payloadHash, draft.payload.resolve c = .ok payloadHash →
      w.core.dedup[draft.eventId.getD ""]? = none →
      Prog.Ends (settleRetrying keys config draft config.retryMaxAttempts 1) post w) :
    Prog.Ends (settle keys config draft) post w := by
  unfold settle
  cases hres : draft.payload.resolve c with
  | error e => exact malformed e hres
  | ok payloadHash =>
      refine Prog.ends_bind.mpr (Prog.ends_get.mpr ?_)
      dsimp only
      cases hdedup : w.core.dedup[draft.eventId.getD ""]? with
      | none => exact unseen payloadHash hres hdedup
      | some existing =>
          by_cases heq : existing = payloadHash
          · subst heq
            simp only [if_true]
            exact duplicate existing hres hdedup
          · simp only [if_neg heq]
            exact Prog.ends_bind.mpr (conflict payloadHash existing hres hdedup heq)

/-! ## When settling fails -/

end Agenomic.Ledger.Pipeline
