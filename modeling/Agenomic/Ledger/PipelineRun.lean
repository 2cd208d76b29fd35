import Agenomic.Ledger.Pipeline
import Agenomic.Lib.Run

/-!
# Runs of the pipeline

The pipeline as a machine: producers, the sealer thread, recovery and crashes, each
step what one thread does between two points where another can come in. A stay
under the core lock is one step, except that the backlog is drained and the WAL
recovered one record at a time; nothing else that needs the lock comes in between,
because the sealer is then `draining` and the pipeline not yet `running`.

A crash leaves the disk. What producers were told is kept beside it.
-/

namespace Agenomic.Ledger.Pipeline

open Lib

variable {c : Crypto}

/-- What the sealer thread is at. -/
inductive Worker where
  /-- Strict mode has no sealer thread. -/
  | absent
  /-- Waiting for an item. -/
  | idle
  /-- With an item received, before the lock. -/
  | holding (item : WorkItem)
  /-- In `drain_backlog`: there is a backlog. -/
  | backlogSeen
  /-- In `drain_backlog`: and the queue is empty. The lock is next. -/
  | queueEmpty
  /-- In `drain_backlog`, under the lock, with these records of a scan left. -/
  | draining (todo : List (Nat × LedgerEntryDraft))
  /-- Back from `drain_backlog`, before the age trigger. -/
  | ticked

/-- What recovery found. -/
structure RecoveryReport where
  replayed : Nat
  deduplicated : Nat
  deriving DecidableEq, Repr

/-- How far the pipeline is. -/
inductive Phase where
  /-- In `start`, with these WAL records left to replay. -/
  | starting (todo : List (Nat × LedgerEntryDraft))
  | running (worker : Worker)

/-- What `start` is given. -/
structure Setup where
  config : LedgerConfig
  walDir : Bool
  deadLetterDir : Bool
  blocksPath : Bool
  deriving DecidableEq, Repr

/-- The memory of a running process. `sending` are the producers between the lock and
the queue, `sent` those between the queue and its counter. -/
structure Process where
  config : LedgerConfig
  core : Core
  counters : Counters
  queue : List WorkItem
  phase : Phase
  recovery : RecoveryReport
  sending : List (LedgerEntryDraft × WorkItem)
  sent : List (LedgerEntryDraft × String)

/-- The disk, the process if there is one, and what producers were told. -/
structure System where
  disk : Disk
  process : Option Process
  replies : List (LedgerEntryDraft × CliResult AppendOutcome)

/-- Nothing has happened yet. -/
def System.fresh : System := ⟨.empty, none, []⟩

/-! ## Starting -/

/-- Event id to payload hash, for every entry; a later entry replaces an earlier one. -/
def dedupOf (entries : List LedgerEntry) : Std.ExtTreeMap String String :=
  entries.foldl (fun m e => m.insert e.eventId e.eventPayloadHash) ∅

/-- The part of `start` before the replay. `io` is the error of opening or reading the
stores, if there is one; `seen` is the last record still in a live WAL segment. -/
def «open» (setup : Setup) (io : Option CliError) (seen : Nat) (disk : Disk) :
    CliResult (Core × List (Nat × LedgerEntryDraft)) := do
  setup.config.validate
  if setup.config.deadLetterEnabled && !setup.deadLetterDir then
    .error (.internal "dead_letter_enabled requires a dead-letter dir")
  else if setup.config.mode.usesWal && !setup.walDir then
    .error (.internal s!"mode {setup.config.mode.label} requires a WAL directory")
  else match io with
    | some e => .error e
    | none => do
        let chain ← ChainState.fromEntries disk.entries
        let pending := if setup.config.mode.usesWal then disk.wal.pending else []
        let appliedWalSeq := match pending with
          | (seq, _) :: _ => seq - 1
          | [] => if setup.config.mode.usesWal then min seen disk.wal.entries.length else 0
        .ok (⟨chain, dedupOf disk.entries, appliedWalSeq,
          if setup.blocksPath then some ⟨disk.blocks⟩ else none, false⟩, pending)

/-- A process that begins to replay. -/
def Process.starting (config : LedgerConfig) (core : Core)
    (todo : List (Nat × LedgerEntryDraft)) : Process :=
  ⟨config, core, .zero, [], .starting todo, ⟨0, 0⟩, [], []⟩

/-- Count a replayed record. -/
def RecoveryReport.replay (r : RecoveryReport) : SealOutcome → RecoveryReport
  | .appended _ => { r with replayed := r.replayed + 1 }
  | .duplicate => { r with deduplicated := r.deduplicated + 1 }
  | .terminal => r

/-! ## Steps -/

/-- One step of one thread, with how its calls go. -/
inductive PipelineOp where
  /-- A producer calls `append`. -/
  | append (draft : LedgerEntryDraft) (ulid : String) (full : Option CliError) (calls : Calls)
  /-- A producer outside the lock sends its item. -/
  | send
  /-- A producer outside the lock counts its item. -/
  | counted
  /-- The sealer receives an item. -/
  | receive
  /-- The sealer waited in vain and looks at the backlog. -/
  | timeout
  /-- The sealer looks at the queue depth. -/
  | checkDepth
  /-- The sealer scans the WAL under the lock. -/
  | scan (calls : Calls)
  /-- The sealer seals the next record of its scan. -/
  | drain (calls : Calls)
  /-- The sealer seals the item it holds. -/
  | processItem (calls : Calls)
  /-- The sealer looks at the age trigger. -/
  | tick (due : Bool) (calls : Calls)
  /-- Someone seals the unsealed tail. -/
  | sealTail (calls : Calls)
  | crash
  | start (setup : Setup) (io : Option CliError) (seen : Nat)
  /-- `start` replays one more record, or is done. -/
  | recover (calls : Calls)

/-- What a program under the lock sees. -/
def Process.world (p : Process) (disk : Disk) (calls : Calls) : World :=
  ⟨disk, p.core, p.counters, p.queue, calls⟩

/-- The process after a program under the lock. -/
def Process.after (p : Process) (w : World) : Process :=
  { p with core := w.core, counters := w.counters, queue := w.queue }

def Process.at (p : Process) (worker : Worker) : Process := { p with phase := .running worker }

/-- The sealer of a mode, when `start` is done. -/
def Worker.spawned (mode : LedgerMode) : Worker :=
  if mode = .strictVerified then .absent else .idle

namespace System

/-- The system with this process. -/
def withProcess (s : System) (p : Process) : System := { s with process := some p }

/-- Tell a producer. -/
def reply (s : System) (draft : LedgerEntryDraft) (r : CliResult AppendOutcome) : System :=
  { s with replies := s.replies ++ [(draft, r)] }

/-- Run a program under the lock. -/
def perform {α : Type} (s : System) (p : Process) (calls : Calls) (m : Task α)
    (next : System → Process → CliResult α → System) : System :=
  match m (p.world s.disk calls) with
  | .ok a w => next { s with disk := w.disk } (p.after w) (.ok a)
  | .error e w => next { s with disk := w.disk } (p.after w) (.error e)
  | .crash w => { s with disk := w.disk, process := none }

/-- What is true however a program under the lock ends is true of the system after it. -/
theorem perform_ends {α : Type} {s : System} {p : Process} {calls : Calls} {m : Task α}
    {next : System → Process → CliResult α → System} {inv : System → Prop}
    (h : Prog.Ends m ⟨fun a w => inv (next { s with disk := w.disk } (p.after w) (.ok a)),
      fun e w => inv (next { s with disk := w.disk } (p.after w) (.error e)),
      fun w => inv { s with disk := w.disk, process := none }⟩ (p.world s.disk calls)) :
    inv (s.perform p calls m next) := by
  unfold perform
  unfold Prog.Ends at h
  cases hm : m (p.world s.disk calls) with
  | ok a w => rw [hm] at h; exact h
  | error e w => rw [hm] at h; exact h
  | crash w => rw [hm] at h; exact h

/-- The lock is free: the pipeline runs, and the sealer is not under it. -/
def lockFree (p : Process) : Bool :=
  match p.phase with
  | .starting _ => false
  | .running (.draining _) => false
  | .running _ => true

/-- What `append` does once it is past the lock. -/
def dispatched (draft : LedgerEntryDraft) (s : System) (p : Process) : CliResult Dispatch → System
  | .ok (.done o) => (s.withProcess p).reply draft (.ok o)
  | .ok (.enqueue item) => s.withProcess { p with sending := p.sending ++ [(draft, item)] }
  | .error e => (s.withProcess p).reply draft (.error e)

/-- The refusal of a full queue. -/
def queueFull (config : LedgerConfig) : CliError :=
  .ledgerBusy (s!"in-memory queue is full ({config.queueMaxMemoryEvents} events); the event " ++
    "was refused, not dropped")

/-- A producer outside the lock sends its item, or is refused. -/
def send (s : System) (p : Process) : System :=
  match p.sending with
  | [] => s
  | (draft, item) :: sending =>
      if p.queue.length < p.config.queueMaxMemoryEvents then
        s.withProcess { p with
          sending, queue := p.queue ++ [item]
          sent := p.sent ++ [(draft, item.draft.eventId.getD "")] }
      else
        (s.withProcess { p with
          sending
          counters := { p.counters with busyRejections := p.counters.busyRejections + 1 } }).reply
            draft (.error (queueFull p.config))

/-- A producer outside the lock counts its item. -/
def counted (s : System) (p : Process) : System :=
  match p.sent with
  | [] => s
  | (draft, eventId) :: sent =>
      (s.withProcess { p with
        sent, counters := { p.counters with queueDepth := p.counters.queueDepth + 1 } }).reply
          draft (.ok (.enqueued eventId))

/-- The sealer is through with the item it held. -/
def processed (s : System) (p : Process) (_ : CliResult SealOutcome) : System :=
  s.withProcess { p.at .idle with
    counters := { p.counters with queueDepth := p.counters.queueDepth - 1 } }

/-- The sealer leaves `drain_backlog` from under the lock. -/
def drained (s : System) (p : Process) : System :=
  s.withProcess { p.at .ticked with counters := { p.counters with walBacklog := 0 } }

/-- What the sealer does with a scan of the WAL. -/
def scanned (s : System) (p : Process) :
    CliResult (List (Nat × LedgerEntryDraft)) → System
  | .error _ => s.drained p
  | .ok pending =>
      match pending.filter fun r => p.core.appliedWalSeq < r.1 with
      | [] => s.drained p
      | todo => s.withProcess (p.at (.draining todo))

/-- What `start` does with the outcome of one record. -/
def replayed (todo : List (Nat × LedgerEntryDraft)) (s : System) (p : Process) :
    CliResult SealOutcome → System
  | .error _ => { s with process := none }
  | .ok o => s.withProcess { p with phase := .starting todo, recovery := p.recovery.replay o }

/-- One step of the sealer, where it is at. -/
def work (keys : SigningKeyStore c) (s : System) (p : Process) (worker : Worker) :
    PipelineOp → System
  | .receive => match worker, p.queue with
      | .idle, item :: queue => s.withProcess { p.at (.holding item) with queue }
      | _, _ => s
  | .timeout => match worker, p.queue with
      | .idle, [] => s.withProcess (p.at
          (if p.counters.walBacklog = 0 then .ticked else .backlogSeen))
      | _, _ => s
  | .checkDepth => match worker with
      | .backlogSeen => s.withProcess (p.at
          (if p.counters.queueDepth ≠ 0 then .ticked else .queueEmpty))
      | _ => s
  | .scan calls => match worker with
      | .queueEmpty | .draining [] => s.perform p calls walPending scanned
      | _ => s
  | .drain calls => match worker with
      | .draining ((seq, draft) :: todo) =>
          s.perform p calls (sealOne keys p.config draft (some seq)) fun s p _ =>
            s.withProcess (p.at (.draining todo))
      | _ => s
  | .processItem calls => match worker with
      | .holding item =>
          s.perform p calls (sealOne keys p.config item.draft item.walSeq) processed
      | _ => s
  | .tick due calls => match worker with
      | .ticked => s.perform p calls (maybeSealByAge keys p.config due) fun s p _ =>
          s.withProcess (p.at .idle)
      | _ => s
  | _ => s

/-- One step of the pipeline. What is not enabled changes nothing. -/
def step (keys : SigningKeyStore c) (s : System) (op : PipelineOp) : System :=
  match s.process with
  | none => match op with
      | .start setup io seen => match «open» setup io seen s.disk with
          | .error _ => s
          | .ok (core, todo) => s.withProcess (.starting setup.config core todo)
      | _ => s
  | some p => match op with
      | .crash => { s with process := none }
      | .recover calls => match p.phase with
          | .starting [] => s.withProcess (p.at (.spawned p.config.mode))
          | .starting ((seq, draft) :: todo) =>
              s.perform p calls (sealOne keys p.config draft (some seq)) (replayed todo)
          | .running _ => s
      | .append draft ulid full calls =>
          if lockFree p then
            s.perform p calls (append keys p.config draft ulid full) (dispatched draft)
          else s
      | .send => s.send p
      | .counted => s.counted p
      | .sealTail calls =>
          if lockFree p then
            s.perform p calls (sealUnsealedRange keys) fun s p _ => s.withProcess p
          else s
      | op => match p.phase with
          | .starting _ => s
          | .running worker => s.work keys p worker op

/-! ## What a step can do -/

/-- The steps that are enabled, and what they lead to. -/
inductive Moves (keys : SigningKeyStore c) (s : System) : PipelineOp → System → Prop
  | start {setup io seen core todo} (hproc : s.process = none)
      (hopen : «open» setup io seen s.disk = .ok (core, todo)) :
      Moves keys s (.start setup io seen) (s.withProcess (.starting setup.config core todo))
  | crash {p} (hproc : s.process = some p) : Moves keys s .crash { s with process := none }
  | recovered {p calls} (hproc : s.process = some p) (hphase : p.phase = .starting []) :
      Moves keys s (.recover calls) (s.withProcess (p.at (.spawned p.config.mode)))
  | recover {p calls seq draft todo} (hproc : s.process = some p)
      (hphase : p.phase = .starting ((seq, draft) :: todo)) :
      Moves keys s (.recover calls)
        (s.perform p calls (sealOne keys p.config draft (some seq)) (replayed todo))
  | append {p draft ulid full calls} (hproc : s.process = some p) (hfree : lockFree p = true) :
      Moves keys s (.append draft ulid full calls)
        (s.perform p calls (append keys p.config draft ulid full) (dispatched draft))
  | send {p x sending} (hproc : s.process = some p) (hsending : p.sending = x :: sending) :
      Moves keys s .send (s.send p)
  | counted {p x sent} (hproc : s.process = some p) (hsent : p.sent = x :: sent) :
      Moves keys s .counted (s.counted p)
  | receive {p item queue} (hproc : s.process = some p) (hphase : p.phase = .running .idle)
      (hqueue : p.queue = item :: queue) :
      Moves keys s .receive (s.withProcess { p.at (.holding item) with queue })
  | timeout {p} (hproc : s.process = some p) (hphase : p.phase = .running .idle)
      (hqueue : p.queue = []) :
      Moves keys s .timeout (s.withProcess (p.at
        (if p.counters.walBacklog = 0 then .ticked else .backlogSeen)))
  | checkDepth {p} (hproc : s.process = some p) (hphase : p.phase = .running .backlogSeen) :
      Moves keys s .checkDepth (s.withProcess (p.at
        (if p.counters.queueDepth ≠ 0 then .ticked else .queueEmpty)))
  | scan {p calls} (hproc : s.process = some p)
      (hphase : p.phase = .running .queueEmpty ∨ p.phase = .running (.draining [])) :
      Moves keys s (.scan calls) (s.perform p calls walPending scanned)
  | drain {p calls seq draft todo} (hproc : s.process = some p)
      (hphase : p.phase = .running (.draining ((seq, draft) :: todo))) :
      Moves keys s (.drain calls)
        (s.perform p calls (sealOne keys p.config draft (some seq)) fun s p _ =>
          s.withProcess (p.at (.draining todo)))
  | processItem {p calls item} (hproc : s.process = some p)
      (hphase : p.phase = .running (.holding item)) :
      Moves keys s (.processItem calls)
        (s.perform p calls (sealOne keys p.config item.draft item.walSeq) processed)
  | tick {p due calls} (hproc : s.process = some p) (hphase : p.phase = .running .ticked) :
      Moves keys s (.tick due calls)
        (s.perform p calls (maybeSealByAge keys p.config due) fun s p _ =>
          s.withProcess (p.at .idle))
  | sealTail {p calls} (hproc : s.process = some p) (hfree : lockFree p = true) :
      Moves keys s (.sealTail calls)
        (s.perform p calls (sealUnsealedRange keys) fun s p _ => s.withProcess p)

/-- What the sealer can do. -/
theorem work_moves {keys : SigningKeyStore c} {s : System} {p : Process} {worker : Worker}
    (hproc : s.process = some p) (hphase : p.phase = .running worker) (op : PipelineOp) :
    s.work keys p worker op = s ∨ Moves keys s op (s.work keys p worker op) := by
  cases op with
  | receive =>
      cases worker with
      | idle =>
          cases hq : p.queue with
          | nil => exact .inl (by unfold work; rw [hq])
          | cons item queue =>
              refine .inr ?_
              unfold work
              rw [hq]
              exact .receive hproc hphase hq
      | _ => exact .inl rfl
  | timeout =>
      cases worker with
      | idle =>
          cases hq : p.queue with
          | cons item queue => exact .inl (by unfold work; rw [hq])
          | nil =>
              refine .inr ?_
              unfold work
              rw [hq]
              exact .timeout hproc hphase hq
      | _ => exact .inl rfl
  | checkDepth =>
      cases worker with
      | backlogSeen => exact .inr (.checkDepth hproc hphase)
      | _ => exact .inl rfl
  | scan calls =>
      cases worker with
      | queueEmpty => exact .inr (.scan hproc (.inl hphase))
      | draining todo =>
          cases todo with
          | nil => exact .inr (.scan hproc (.inr hphase))
          | cons r todo => exact .inl rfl
      | _ => exact .inl rfl
  | drain calls =>
      cases worker with
      | draining todo =>
          cases todo with
          | nil => exact .inl rfl
          | cons r todo => exact .inr (.drain hproc hphase)
      | _ => exact .inl rfl
  | processItem calls =>
      cases worker with
      | holding item => exact .inr (.processItem hproc hphase)
      | _ => exact .inl rfl
  | tick due calls =>
      cases worker with
      | ticked => exact .inr (.tick hproc hphase)
      | _ => exact .inl rfl
  | _ => exact .inl rfl

/-- **What a step can do**: nothing, or one of the moves. -/
theorem step_moves (keys : SigningKeyStore c) (s : System) (op : PipelineOp) :
    s.step keys op = s ∨ Moves keys s op (s.step keys op) := by
  unfold step
  cases hproc : s.process with
  | none =>
      cases op with
      | start setup io seen =>
          dsimp only
          cases hopen : «open» setup io seen s.disk with
          | error e => exact .inl rfl
          | ok r => exact .inr (.start hproc hopen)
      | _ => exact .inl rfl
  | some p =>
      cases op with
      | start setup io seen =>
          dsimp only
          cases hphase : p.phase with
          | starting todo => exact .inl rfl
          | running worker => exact work_moves hproc hphase _
      | crash => exact .inr (.crash hproc)
      | recover calls =>
          dsimp only
          cases hphase : p.phase with
          | running worker => exact .inl rfl
          | starting todo =>
              cases todo with
              | nil => exact .inr (.recovered hproc hphase)
              | cons r todo => exact .inr (.recover hproc hphase)
      | append draft ulid full calls =>
          dsimp only
          by_cases hfree : lockFree p = true
          · rw [if_pos hfree]
            exact .inr (.append hproc hfree)
          · rw [if_neg hfree]
            exact .inl rfl
      | send =>
          dsimp only
          cases hsending : p.sending with
          | nil => exact .inl (by unfold send; rw [hsending])
          | cons x sending => exact .inr (.send hproc hsending)
      | counted =>
          dsimp only
          cases hsent : p.sent with
          | nil => exact .inl (by unfold counted; rw [hsent])
          | cons x sent => exact .inr (.counted hproc hsent)
      | sealTail calls =>
          dsimp only
          by_cases hfree : lockFree p = true
          · rw [if_pos hfree]
            exact .inr (.sealTail hproc hfree)
          · rw [if_neg hfree]
            exact .inl rfl
      | _ =>
          dsimp only
          cases hphase : p.phase with
          | starting todo => exact .inl rfl
          | running worker => exact work_moves hproc hphase _

/-- What every move keeps, every step keeps. -/
theorem step_induct {keys : SigningKeyStore c} {inv : System → Prop} {s : System}
    {op : PipelineOp} (hs : inv s) (h : ∀ s', Moves keys s op s' → inv s') :
    inv (s.step keys op) := by
  rcases step_moves keys s op with hstay | hmove
  · rw [hstay]
    exact hs
  · exact h _ hmove

end System

/-! ## Runs to exercise the pipeline with -/

/-- The defaults, with every directory given. -/
def Setup.default : Setup := ⟨LedgerConfig.default, true, true, true⟩

/-- A keystore over a hash of 32 bytes. -/
def System.wideKeys : SigningKeyStore (Crypto.exercise fun m => List.replicate 32 (m.headD 0)) :=
  exerciseKeys fun m => List.replicate 32 (m.headD 0)

/-- Calls at some sites; the process dies at any other. -/
def callsAt (calls : List (CallSite × List CallOutcome)) : Calls := fun site =>
  ((calls.filter fun x => x.1 = site).flatMap fun x => x.2).map fun o => ⟨o, "1", "", ⟨""⟩⟩

/-- A draft with this payload. -/
def exerciseDraft (eventId agentId : String) (payload : PayloadCommitment) : LedgerEntryDraft where
  eventId := some eventId
  agentId := agentId
  runId := "r"
  turnId := none
  sessionId := none
  genomeHash := none
  releaseId := none
  eventType := "t"
  payload := payload
  redactedPayloadPreview := none
  turnSequenceNumber := none
  timestamp := none
  ingestionSource := .tracking

end Agenomic.Ledger.Pipeline
