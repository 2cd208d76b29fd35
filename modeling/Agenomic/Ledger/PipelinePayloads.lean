import Agenomic.Ledger.PipelineRun
import Agenomic.Ledger.PipelineSeal

/-!
# Where raw payloads go

`append` replaces the payload of a draft by its hash before the WAL, the queue and
the sealer see it, and everything those write is a draft that came this way. The one
draft written before that point is the dead letter of a draft `validate_draft`
refuses. **`commitsByHash_run`**: in a run without such dead letters, of drafts with
an inline payload, every draft on disk commits its payload by hash.
-/

namespace Agenomic.Ledger

/-- The payload is committed by its hash. -/
def PayloadCommitment.IsHash (p : PayloadCommitment) : Prop := ∃ h, p = .hash h

namespace Pipeline

open Lib

variable {c : Crypto}

/-- Every draft in the WAL and in the dead-letter store commits its payload by hash. -/
structure CommitsByHash (d : Disk) : Prop where
  wal : ∀ draft ∈ d.wal.entries, draft.payload.IsHash
  deadLetters : ∀ r ∈ d.deadLetters, r.draft.payload.IsHash

theorem commitsByHash_empty : CommitsByHash .empty where
  wal _ h := absurd h List.not_mem_nil
  deadLetters _ h := absurd h List.not_mem_nil

theorem CommitsByHash.addDeadLetter {d : Disk} (h : CommitsByHash d) {r : DeadLetterRecord}
    (hr : r.draft.payload.IsHash) : CommitsByHash (d.addDeadLetter r) where
  wal := h.wal
  deadLetters r' hr' := by
    rcases List.mem_append.mp hr' with hold | hnew
    · exact h.deadLetters r' hold
    · rw [List.mem_singleton] at hnew
      subst hnew
      exact hr

theorem CommitsByHash.spool {d : Disk} (h : CommitsByHash d) {draft : LedgerEntryDraft}
    (hd : draft.payload.IsHash) : CommitsByHash (d.spool draft) where
  deadLetters := h.deadLetters
  wal draft' hd' := by
    rcases List.mem_append.mp hd' with hold | hnew
    · exact h.wal draft' hold
    · rw [List.mem_singleton] at hnew
      subst hnew
      exact hd

theorem mem_numbered_draft {log : PlainLog LedgerEntryDraft} {r : Nat × LedgerEntryDraft}
    (h : r ∈ log.numbered) : r.2 ∈ log.entries := by
  obtain ⟨i, hi, rfl⟩ := List.mem_mapIdx.mp h
  exact List.getElem_mem hi

theorem CommitsByHash.pending {d : Disk} (h : CommitsByHash d) :
    ∀ r ∈ d.wal.pending, r.2.payload.IsHash := fun _ hr =>
  h.wal _ (mem_numbered_draft (List.mem_of_mem_drop hr))

/-! ## Under the lock -/

/-- Everything under the lock commits by hash. -/
structure World.Hashed (w : World) : Prop where
  disk : CommitsByHash w.disk
  queue : ∀ item ∈ w.queue, item.draft.payload.IsHash

theorem sealSafe_hashed {draft : LedgerEntryDraft} (hd : draft.payload.IsHash) :
    SealSafe World.Hashed draft where
  calls _ _ _ _ _ h := ⟨h.disk, h.queue⟩
  counters _ _ _ h := ⟨h.disk, h.queue⟩
  core _ _ _ h := ⟨h.disk, h.queue⟩
  entry _ _ h := ⟨⟨h.disk.wal, h.disk.deadLetters⟩, h.queue⟩
  deadLetter _ _ hr h := ⟨h.disk.addDeadLetter (hr ▸ hd), h.queue⟩
  anyCore _ _ h := ⟨h.disk, h.queue⟩
  checkpoint _ _ h := ⟨⟨h.disk.wal, h.disk.deadLetters⟩, h.queue⟩
  block _ _ h := ⟨⟨h.disk.wal, h.disk.deadLetters⟩, h.queue⟩

theorem blockSafe_hashed : BlockSafe World.Hashed where
  calls _ _ _ _ _ h := ⟨h.disk, h.queue⟩
  core _ _ _ h := ⟨h.disk, h.queue⟩
  block _ _ h := ⟨⟨h.disk.wal, h.disk.deadLetters⟩, h.queue⟩

theorem keeps_hashed_count (f : Counters → Counters) : Prog.Keeps World.Hashed (count f) :=
  keeps_count fun _ h => ⟨h.disk, h.queue⟩

theorem keeps_hashed_walAppend (full : Option CliError) {draft : LedgerEntryDraft}
    (hd : draft.payload.IsHash) : Prog.Keeps World.Hashed (walAppend full draft) := by
  unfold walAppend
  cases full with
  | some e => exact Prog.keeps_throw e
  | none =>
      refine (keeps_nextCall fun _ _ _ _ h => ⟨h.disk, h.queue⟩).bind fun call => ?_
      refine Prog.keeps_get.bind fun w => (keeps_carryOut ?_).bind fun _ => Prog.keeps_pure _
      intro w' h
      exact ⟨h.disk.spool hd, h.queue⟩

theorem keeps_hashed_spills (config : LedgerConfig) {item : WorkItem}
    (hd : item.draft.payload.IsHash) : Prog.Keeps World.Hashed (spills config item) := by
  have hsend : Prog.Keeps World.Hashed (trySend config item) := by
    unfold trySend
    refine Prog.keeps_get.bind fun w => ?_
    by_cases hlt : w.queue.length < config.queueMaxMemoryEvents
    · simp only [if_pos hlt]
      refine Prog.Keeps.bind (Prog.keeps_modify ?_) fun _ => Prog.keeps_pure _
      intro w' h
      refine ⟨h.disk, fun item' hitem => ?_⟩
      rcases List.mem_append.mp hitem with hold | hnew
      · exact h.queue item' hold
      · rw [List.mem_singleton] at hnew
        subst hnew
        exact hd
    · simp only [if_neg hlt]
      exact Prog.keeps_pure _
  unfold spills tryEnqueue
  refine Prog.keeps_get.bind fun w => ?_
  by_cases hlt : 0 < w.counters.walBacklog
  · simp only [if_pos hlt]
    exact Prog.keeps_pure _
  · simp only [if_neg hlt]
    refine (hsend.bind fun _ => Prog.Keeps.bind ?_ fun _ => Prog.keeps_pure _).bind fun _ =>
      Prog.keeps_pure _
    exact keeps_countIf fun _ h => ⟨h.disk, h.queue⟩

theorem keeps_hashed_appendDurable (config : LedgerConfig) (full : Option CliError)
    {draft : LedgerEntryDraft} (hd : draft.payload.IsHash) (eventId : String) :
    Prog.Keeps World.Hashed (appendDurable config full draft eventId) := by
  unfold appendDurable
  refine (keeps_hashed_walAppend full hd).attempt.bind fun r => ?_
  cases r with
  | error e => exact (keeps_hashed_count _).bind fun _ => Prog.keeps_throw e
  | ok walSeq =>
      refine (keeps_hashed_spills config hd).bind fun _ => Prog.Keeps.bind ?_ fun _ =>
        Prog.keeps_pure _
      exact keeps_countIf fun _ h => ⟨h.disk, h.queue⟩

theorem keeps_hashed_appendStrict (keys : SigningKeyStore c) (config : LedgerConfig)
    (full : Option CliError) {draft : LedgerEntryDraft} (hd : draft.payload.IsHash)
    (eventId : String) : Prog.Keeps World.Hashed (appendStrict keys config full draft eventId) := by
  unfold appendStrict
  refine (keeps_hashed_walAppend full hd).bind fun walSeq => ?_
  refine ((sealSafe_hashed hd).sealOne keys config _).bind fun o => ?_
  cases o with
  | appended entry => exact Prog.keeps_pure _
  | duplicate => exact Prog.keeps_pure _
  | terminal => exact Prog.keeps_throw _

/-- What leaves the lock commits by hash. -/
def Dispatch.Hashed : Dispatch → Prop
  | .done _ => True
  | .enqueue item => item.draft.payload.IsHash

/-- What is known of every way a program under the lock ends. -/
def hashedPost : Post World CliError Dispatch :=
  ⟨fun d w => w.Hashed ∧ d.Hashed, fun _ w => w.Hashed, fun w => w.Hashed⟩

theorem dispatch_hashed (keys : SigningKeyStore c) (config : LedgerConfig)
    (full : Option CliError) {draft : LedgerEntryDraft} (hd : draft.payload.IsHash)
    (eventId : String) {w : World} (hw : w.Hashed) :
    Prog.Ends (dispatch keys config full draft eventId) hashedPost w := by
  unfold dispatch
  cases config.mode with
  | bestEffortLowLatency => exact ⟨hw, hd⟩
  | strictCloud => exact hw
  | durableLowLatency =>
      refine Prog.ends_bind.mpr ((keeps_hashed_appendDurable config full hd eventId w hw).mono
        (fun o w' h => ?_) (fun _ _ h => h) fun _ h => h)
      exact ⟨h, trivial⟩
  | strictVerified =>
      refine Prog.ends_bind.mpr ((keeps_hashed_appendStrict keys config full hd eventId w hw).mono
        (fun o w' h => ?_) (fun _ _ h => h) fun _ h => h)
      exact ⟨h, trivial⟩

theorem admission_hashed (keys : SigningKeyStore c) (config : LedgerConfig) (full : Option CliError)
    {draft : LedgerEntryDraft} (hd : draft.payload.IsHash) (payloadHash eventId : String)
    {w : World} (hw : w.Hashed) :
    Prog.Ends (admission keys config full draft payloadHash eventId) hashedPost w := by
  unfold admission
  refine Prog.ends_bind.mpr (Prog.ends_get.mpr ?_)
  dsimp only
  cases w.core.dedup[eventId]? with
  | none => exact dispatch_hashed keys config full hd eventId hw
  | some existing =>
      by_cases heq : existing = payloadHash
      · simp only [if_pos heq]
        exact ⟨⟨hw.disk, hw.queue⟩, trivial⟩
      · simp only [if_neg heq]
        refine Prog.ends_bind.mpr (Prog.ends_bind.mpr ?_)
        exact (sealSafe_hashed hd).recordDeadLetter _ config _ _ _ _ ⟨hw.disk, hw.queue⟩

/-- `append` of this draft writes no raw payload: it has none, or it is not refused, or
nothing is written about the refusal. -/
def NoRawDeadLetter (config : LedgerConfig) (draft : LedgerEntryDraft) (calls : Calls) : Prop :=
  draft.payload.IsHash ∨ validateDraft draft config = .ok () ∨ config.deadLetterEnabled = false
    ∨ ∀ call ∈ (calls .refuse).head?, call.outcome.reaches = false

/-- The dead letter of a refused draft that has no raw payload, or that is not written. -/
theorem refuse_hashed {config : LedgerConfig} {draft : LedgerEntryDraft} {w : World} {e : CliError}
    (hsafe : NoRawDeadLetter config draft w.calls) (hinv : validateDraft draft config = .error e)
    (hw : w.Hashed) : Prog.Ends (refuse config draft e) hashedPost w := by
  refine Prog.ends_bind.mpr (Prog.ends_bind.mpr ?_)
  rcases hsafe with hash | hok | hdl | hreach
  · exact (sealSafe_hashed hash).recordDeadLetter _ config _ _ _ _ ⟨hw.disk, hw.queue⟩
  · rw [hok] at hinv
    cases hinv
  · unfold recordDeadLetter
    rw [if_neg (by rw [hdl]; exact Bool.false_ne_true)]
    exact ⟨hw.disk, hw.queue⟩
  · unfold recordDeadLetter
    by_cases hdl : config.deadLetterEnabled = true
    · rw [if_pos hdl]
      refine Prog.ends_bind.mpr (Prog.ends_bind.mpr ?_)
      refine ends_nextCall (fun _ => ⟨hw.disk, hw.queue⟩) fun call rest hcalls => ?_
      have hno : call.outcome.reaches = false := by
        refine hreach call ?_
        show call ∈ (w.calls .refuse).head?
        rw [show w.calls .refuse = call :: rest from hcalls]
        rfl
      refine ends_carryOut (fun hok => ?_) (fun kept e he => ?_) fun kept hdied => ?_
      · rw [hok] at hno
        cases hno
      · rw [he] at hno
        change kept = false at hno
        subst hno
        exact ⟨hw.disk, hw.queue⟩
      · rw [hdied] at hno
        change kept = false at hno
        subst hno
        exact ⟨hw.disk, hw.queue⟩
    · rw [if_neg hdl]
      exact ⟨hw.disk, hw.queue⟩

/-- **What `append` writes commits by hash.** -/
theorem append_hashed (keys : SigningKeyStore c) {config : LedgerConfig}
    {draft : LedgerEntryDraft} (ulid : String) (full : Option CliError) {w : World}
    (hsafe : NoRawDeadLetter config draft w.calls) (hw : w.Hashed) :
    Prog.Ends (append keys config draft ulid full) hashedPost w := by
  unfold append
  refine Prog.ends_bind.mpr ?_
  cases hval : validateDraft draft config with
  | error e => exact refuse_hashed hsafe hval ⟨hw.disk, hw.queue⟩
  | ok u =>
      refine Prog.ends_bind.mpr ?_
      cases draft.payload.resolve c with
      | error e => exact ⟨hw.disk, hw.queue⟩
      | ok payloadHash =>
          exact admission_hashed keys config full ⟨payloadHash, rfl⟩ payloadHash _ ⟨hw.disk, hw.queue⟩

/-! ## Over a run -/

def Worker.Hashed : Worker → Prop
  | .holding item => item.draft.payload.IsHash
  | .draining todo => ∀ r ∈ todo, r.2.payload.IsHash
  | _ => True

def Phase.Hashed : Phase → Prop
  | .starting todo => ∀ r ∈ todo, r.2.payload.IsHash
  | .running worker => worker.Hashed

/-- Everything in memory commits by hash. -/
structure Process.Hashed (p : Process) : Prop where
  queue : ∀ item ∈ p.queue, item.draft.payload.IsHash
  sending : ∀ x ∈ p.sending, x.2.draft.payload.IsHash
  phase : p.phase.Hashed

namespace System

/-- Everything commits by hash. -/
structure Hashed (s : System) : Prop where
  disk : CommitsByHash s.disk
  process : ∀ p, s.process = some p → p.Hashed

theorem Hashed.world {s : System} {p : Process} (h : s.Hashed) (hp : p.Hashed) (calls : Calls) :
    (p.world s.disk calls).Hashed := ⟨h.disk, hp.queue⟩

theorem hashed_withProcess {s : System} {p : Process} (hd : CommitsByHash s.disk)
    (hp : p.Hashed) : (s.withProcess p).Hashed :=
  ⟨hd, fun _ h => Option.some.inj h ▸ hp⟩

theorem hashed_down {s : System} (hd : CommitsByHash s.disk) :
    ({ s with process := none } : System).Hashed := ⟨hd, fun _ h => nomatch h⟩

theorem Hashed.reply {s : System} (h : s.Hashed) (draft : LedgerEntryDraft)
    (r : CliResult AppendOutcome) : (s.reply draft r).Hashed := ⟨h.disk, h.process⟩

theorem hashed_after {p : Process} {w : World} (hp : p.Hashed) (hw : w.Hashed) :
    (p.after w).Hashed := ⟨hw.queue, hp.sending, hp.phase⟩

theorem hashed_at {p : Process} (hp : p.Hashed) {worker : Worker} (hw : worker.Hashed) :
    (p.at worker).Hashed := ⟨hp.queue, hp.sending, hw⟩

/-- The append of this step, if it is one, writes no raw payload. -/
def WritesNoRaw (s : System) : PipelineOp → Prop
  | .append draft _ _ calls => ∀ p, s.process = some p → NoRawDeadLetter p.config draft calls
  | _ => True

/-- A program that keeps what is under the lock committed by hash, in a step. -/
theorem hashed_perform {α : Type} {s : System} {p : Process} {calls : Calls} {m : Task α}
    {next : System → Process → CliResult α → System} (h : s.Hashed) (hp : p.Hashed)
    (hm : Prog.Keeps World.Hashed m)
    (hnext : ∀ s p r, CommitsByHash s.disk → p.Hashed → (next s p r).Hashed) :
    (s.perform p calls m next).Hashed :=
  perform_ends ((hm _ (h.world hp calls)).mono
    (fun _ _ hw => hnext _ _ _ hw.disk (hashed_after hp hw))
    (fun _ _ hw => hnext _ _ _ hw.disk (hashed_after hp hw)) fun w hw => hashed_down (s := { s with disk := w.disk }) hw.disk)

theorem hashed_start {s : System} (h : s.Hashed) (setup : Setup) (io : Option CliError)
    (seen : Nat) {core : Core} {todo : List (Nat × LedgerEntryDraft)}
    (hopen : «open» setup io seen s.disk = .ok (core, todo)) :
    ∀ r ∈ todo, r.2.payload.IsHash := by
  unfold Pipeline.open at hopen
  rw [bind_eq_ok] at hopen
  obtain ⟨_, -, hopen⟩ := hopen
  split at hopen
  · cases hopen
  split at hopen
  · cases hopen
  cases io with
  | some e => cases hopen
  | none =>
      rw [bind_eq_ok] at hopen
      obtain ⟨chain, -, hopen⟩ := hopen
      cases hopen
      intro r hr
      split at hr
      · exact h.disk.pending r hr
      · cases hr

theorem hashed_scan {s : System} {p : Process} (h : s.Hashed) (hp : p.Hashed) (calls : Calls) :
    (s.perform p calls walPending scanned).Hashed := by
  refine perform_ends (Prog.ends_bind.mpr ((diskCall_ends .pending _ _).mono ?_ ?_ ?_))
  · rintro _ w ⟨call, rest, -, -, rfl⟩
    show (scanned _ _ (.ok s.disk.wal.pending)).Hashed
    unfold scanned
    dsimp only
    split
    · exact hashed_withProcess h.disk ⟨hp.queue, hp.sending, trivial⟩
    · refine hashed_withProcess h.disk ⟨hp.queue, hp.sending, fun r hr => ?_⟩
      exact h.disk.pending r (List.mem_of_mem_filter hr)
  · rintro e w ⟨call, rest, -, -, kept, rfl⟩
    refine hashed_withProcess ?_ ⟨hp.queue, hp.sending, trivial⟩
    cases kept <;> exact h.disk
  · rintro w ⟨ids, hd | hd⟩
    · exact hashed_down (s := { s with disk := w.disk }) (hd ▸ h.disk)
    · exact hashed_down (s := { s with disk := w.disk }) (hd ▸ h.disk)

theorem hashed_append {keys : SigningKeyStore c} {s : System} {p : Process} {draft : LedgerEntryDraft}
    {ulid : String} {full : Option CliError} {calls : Calls} (h : s.Hashed) (hp : p.Hashed)
    (hsafe : NoRawDeadLetter p.config draft calls) :
    (s.perform p calls (Pipeline.append keys p.config draft ulid full)
      (dispatched draft)).Hashed := by
  refine perform_ends ((append_hashed keys ulid full hsafe (h.world hp calls)).mono ?_ ?_ ?_)
  · rintro d w ⟨hw, hd⟩
    have hp' := hashed_after hp hw
    cases d with
    | done o => exact (hashed_withProcess hw.disk hp').reply _ _
    | enqueue item =>
        refine hashed_withProcess hw.disk ⟨hp'.queue, fun x hx => ?_, hp'.phase⟩
        rcases List.mem_append.mp hx with hold | hnew
        · exact hp.sending x hold
        · rw [List.mem_singleton] at hnew
          subst hnew
          exact hd
  · intro e w hw
    exact (hashed_withProcess hw.disk (hashed_after hp hw)).reply _ _
  · intro w hw
    exact hashed_down (s := { s with disk := w.disk }) hw.disk

theorem hashed_send {s : System} {p : Process} (h : s.Hashed) (hp : p.Hashed) :
    (s.send p).Hashed := by
  unfold send
  cases hsending : p.sending with
  | nil => exact h
  | cons x sending =>
      have hitem := hp.sending x (hsending ▸ List.mem_cons_self)
      have hrest : ∀ y ∈ sending, y.2.draft.payload.IsHash := fun y hy =>
        hp.sending y (hsending ▸ List.mem_cons_of_mem _ hy)
      dsimp only
      by_cases hlt : p.queue.length < p.config.queueMaxMemoryEvents
      · rw [if_pos hlt]
        refine hashed_withProcess h.disk ⟨fun y hy => ?_, hrest, hp.phase⟩
        rcases List.mem_append.mp hy with hold | hnew
        · exact hp.queue y hold
        · rw [List.mem_singleton] at hnew
          subst hnew
          exact hitem
      · rw [if_neg hlt]
        refine Hashed.reply ?_ _ _
        exact hashed_withProcess h.disk ⟨hp.queue, hrest, hp.phase⟩

/-- One move keeps everything committed by hash. -/
theorem hashed_move {keys : SigningKeyStore c} {s s' : System} {op : PipelineOp} (h : s.Hashed)
    (hop : s.WritesNoRaw op) (hmove : Moves keys s op s') : s'.Hashed := by
  cases hmove with
  | start hproc hopen =>
      exact hashed_withProcess h.disk ⟨fun _ hx => (nomatch hx), fun _ hx => (nomatch hx),
        hashed_start h _ _ _ hopen⟩
  | crash hproc => exact hashed_down h.disk
  | recovered hproc hphase =>
      refine hashed_withProcess h.disk (hashed_at (h.process _ hproc) ?_)
      unfold Worker.spawned
      split <;> exact trivial
  | recover hproc hphase =>
      have hp := h.process _ hproc
      have htodo := hp.phase
      rw [hphase] at htodo
      refine hashed_perform h hp ((sealSafe_hashed (htodo _ List.mem_cons_self)).sealOne keys _ _)
        fun s' p' r hd hp' => ?_
      cases r with
      | error e => exact hashed_down hd
      | ok o =>
          exact hashed_withProcess hd ⟨hp'.queue, hp'.sending,
            fun r hr => htodo r (List.mem_cons_of_mem _ hr)⟩
  | append hproc hfree => exact hashed_append h (h.process _ hproc) (hop _ hproc)
  | send hproc hsending => exact hashed_send h (h.process _ hproc)
  | counted hproc hsent =>
      have hp := h.process _ hproc
      unfold counted
      rw [hsent]
      refine Hashed.reply ?_ _ _
      exact hashed_withProcess h.disk ⟨hp.queue, hp.sending, hp.phase⟩
  | receive hproc hphase hqueue =>
      have hp := h.process _ hproc
      refine hashed_withProcess h.disk ⟨fun x hx => ?_, hp.sending, ?_⟩
      · exact hp.queue x (hqueue ▸ List.mem_cons_of_mem _ hx)
      · exact hp.queue _ (hqueue ▸ List.mem_cons_self)
  | timeout hproc hphase hqueue =>
      refine hashed_withProcess h.disk (hashed_at (h.process _ hproc) ?_)
      split <;> exact trivial
  | checkDepth hproc hphase =>
      refine hashed_withProcess h.disk (hashed_at (h.process _ hproc) ?_)
      split <;> exact trivial
  | scan hproc hphase => exact hashed_scan h (h.process _ hproc) _
  | drain hproc hphase =>
      have hp := h.process _ hproc
      have htodo := hp.phase
      rw [hphase] at htodo
      refine hashed_perform h hp ((sealSafe_hashed (htodo _ List.mem_cons_self)).sealOne keys _ _)
        fun s' p' _ hd hp' => ?_
      exact hashed_withProcess hd (hashed_at hp' fun r hr => htodo r (List.mem_cons_of_mem _ hr))
  | processItem hproc hphase =>
      have hp := h.process _ hproc
      have hitem := hp.phase
      rw [hphase] at hitem
      refine hashed_perform h hp ((sealSafe_hashed hitem).sealOne keys _ _) fun s' p' _ hd hp' => ?_
      exact hashed_withProcess hd ⟨hp'.queue, hp'.sending, trivial⟩
  | tick hproc hphase =>
      refine hashed_perform h (h.process _ hproc) (blockSafe_hashed.maybeSealByAge keys _ _)
        fun s' p' _ hd hp' => ?_
      exact hashed_withProcess hd (hashed_at hp' trivial)
  | sealTail hproc hfree =>
      exact hashed_perform h (h.process _ hproc) (blockSafe_hashed.sealUnsealedRange keys)
        fun s' p' _ hd hp' => hashed_withProcess hd hp'

/-- One step keeps everything committed by hash. -/
theorem hashed_step {keys : SigningKeyStore c} (s : System) (op : PipelineOp) (h : s.Hashed)
    (hop : s.WritesNoRaw op) : (s.step keys op).Hashed :=
  step_induct h fun _ hmove => hashed_move h hop hmove

/-- **In a run whose appends write no raw payload, every draft on disk commits by hash.** -/
theorem commitsByHash_run (keys : SigningKeyStore c) {s : System} (hs : s.process = none)
    (hd : CommitsByHash s.disk) {ops : List PipelineOp}
    (h : Along (step keys) WritesNoRaw s ops) : CommitsByHash (run (step keys) s ops).disk :=
  (run_invariant Hashed hashed_step ⟨hd, fun p hp => by rw [hs] at hp; cases hp⟩ h).disk

/-- A draft with an inline payload, accepted and spooled. -/
theorem commitsByHash_run_accepted : CommitsByHash (run (step (exerciseKeys fun m => m)) fresh
    [.start .default none 0, .recover (callsAt []),
      .append (exerciseDraft "e" "a" (.inline .null)) "u" none (callsAt [(.wal, [.ok])])]).disk := by
  refine commitsByHash_run _ rfl commitsByHash_empty ⟨trivial, trivial, ?_, trivial⟩
  intro p hp
  cases hp
  exact .inr (.inl rfl)

/-- The dead letter of a draft without an agent holds its payload. -/
theorem not_commitsByHash_refused : ¬ CommitsByHash (run (step (exerciseKeys fun m => m)) fresh
    [.start .default none 0, .recover (callsAt []),
      .append (exerciseDraft "e" "" (.inline (.str "secret"))) "u" none
        (callsAt [(.refuse, [.ok])])]).disk := by
  intro h
  obtain ⟨hash, hhash⟩ := h.deadLetters _ List.mem_cons_self
  cases hhash

end System

end Pipeline

end Agenomic.Ledger
