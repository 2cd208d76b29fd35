import Agenomic.Ledger.Block
import Agenomic.Ledger.Ledger
import Agenomic.Lib.Effects
import Agenomic.Lib.PlainLog

/-!
# The ingestion pipeline: the hot path and the sealer

What `append` and the sealer do while they hold the core lock, as programs over the
disk, the memory of the process and the calls to the outside still to come. Each
call site has its own list of outcomes: a call succeeds, fails having reached the
disk or not, or the process dies at it; when the list is used up the process dies.

The store is its contract, a list of entries that only grows. The WAL is the plain
log a WAL directory was shown to behave as. Backoff and the artificial worker delay
take time and change nothing, so they are left out.
-/

namespace Agenomic.Ledger.Pipeline

open Lib

variable {c : Crypto}

/-! ## Configuration -/

/-- Latency and durability mode. -/
inductive LedgerMode where
  | bestEffortLowLatency | durableLowLatency | strictVerified | strictCloud
  deriving DecidableEq, Repr

/-- Stable label. -/
def LedgerMode.label : LedgerMode → String
  | .bestEffortLowLatency => "best_effort_low_latency"
  | .durableLowLatency => "durable_low_latency"
  | .strictVerified => "strict_verified"
  | .strictCloud => "strict_cloud"

/-- Whether the mode writes a WAL. -/
def LedgerMode.usesWal : LedgerMode → Bool
  | .durableLowLatency | .strictVerified => true
  | .bestEffortLowLatency | .strictCloud => false

/-- The limits and switches the pipeline reads. -/
structure LedgerConfig where
  mode : LedgerMode
  queueMaxMemoryEvents : Nat
  maxPayloadBytes : Nat
  blockMaxEntries : Option Nat
  blockMaxAgeMs : Option Nat
  retryMaxAttempts : Nat
  deadLetterEnabled : Bool
  deriving DecidableEq, Repr

/-- The defaults. -/
def LedgerConfig.default : LedgerConfig where
  mode := .durableLowLatency
  queueMaxMemoryEvents := 1024
  maxPayloadBytes := 1024 * 1024
  blockMaxEntries := some 512
  blockMaxAgeMs := some 60000
  retryMaxAttempts := 3
  deadLetterEnabled := true

/-- Refuse what cannot be honoured. -/
def LedgerConfig.validate (config : LedgerConfig) : CliResult Unit :=
  if config.mode = .strictCloud then
    .error (.ledgerCloudUnavailable "no cloud ledger ingestion API exists yet")
  else if config.queueMaxMemoryEvents = 0 then
    .error (.ledgerBusy "queue_max_memory_events must be at least 1")
  else .ok ()

example : LedgerConfig.default.validate = .ok () := rfl

/-! ## Data -/

/-- Why an event was dead-lettered. -/
inductive DeadLetterReason where
  | invalidEvent | conflict | retriesExhausted
  deriving DecidableEq, Repr

/-- One dead-lettered event. -/
structure DeadLetterRecord where
  deadLetterId : String
  eventId : String
  reason : DeadLetterReason
  detail : String
  attempts : Nat
  failedAt : Timestamp
  draft : LedgerEntryDraft

/-- Result of an append. -/
inductive AppendOutcome where
  | appended (entry : LedgerEntry)
  | walPersisted (eventId : String) (walSeq : Nat)
  | enqueued (eventId : String)
  | duplicate (eventId : String)
  deriving DecidableEq, Repr

/-- The event id an outcome refers to. -/
def AppendOutcome.eventId : AppendOutcome → String
  | .appended entry => entry.eventId
  | .walPersisted id _ | .enqueued id | .duplicate id => id

/-- What became of a draft at the sealer. -/
inductive SealOutcome where
  | appended (entry : LedgerEntry)
  | duplicate
  | terminal
  deriving DecidableEq, Repr

/-- An event on its way to the sealer. -/
structure WorkItem where
  walSeq : Option Nat
  draft : LedgerEntryDraft

/-- The counters of a running pipeline. `queueDepth` is an integer because the sealer
may count an item down before its producer has counted it up. -/
structure Counters where
  received : Nat
  appended : Nat
  duplicates : Nat
  conflicts : Nat
  invalid : Nat
  busyRejections : Nat
  retries : Nat
  deadLettered : Nat
  queueDepth : Int
  walBacklog : Nat
  deriving DecidableEq, Repr

def Counters.zero : Counters := ⟨0, 0, 0, 0, 0, 0, 0, 0, 0, 0⟩

/-- What outlives the process. -/
structure Disk where
  entries : List LedgerEntry
  wal : PlainLog LedgerEntryDraft
  deadLetters : List DeadLetterRecord
  blocks : List LedgerBlock

/-- An empty data directory. -/
def Disk.empty : Disk := ⟨[], .empty, [], []⟩

/-- What the core lock guards, besides what is on disk. -/
structure Core where
  chain : ChainState
  /-- Event id to payload hash, for every entry of the ledger. -/
  dedup : Std.ExtTreeMap String String
  appliedWalSeq : Nat
  /-- `none` when blocks are disabled. -/
  blocks : Option BlockChain
  /-- Whether an entry has waited for a block since some instant. -/
  oldestUnsealed : Bool

/-! ## Calls to the outside -/

/-- Where in the code a call is made. -/
inductive CallSite where
  /-- `Ledger::append`. -/
  | store
  /-- `DeadLetterStore::record`, from the sealer. -/
  | deadLetter
  /-- `DeadLetterStore::record`, from `append` itself. -/
  | refuse
  /-- `WalWriter::append`. -/
  | wal
  /-- `WalWriter::checkpoint`. -/
  | checkpoint
  /-- `WalWriter::pending`. -/
  | pending
  /-- The write of `BlockChain::seal`. -/
  | blocks
  /-- `LedgerStore::read_all`. -/
  | reads
  deriving DecidableEq, Repr

/-- How a call goes; `kept` says whether it reached the disk nonetheless. -/
inductive CallOutcome where
  | ok
  | failed (kept : Bool) (e : CliError)
  | died (kept : Bool)
  deriving DecidableEq, Repr

/-- One call: how it goes, and what the clock and the generator of identifiers give it. -/
structure Call where
  outcome : CallOutcome
  ids : AppendInputs
  deriving DecidableEq, Repr

/-- The call comes back with an error. -/
def Call.Fails (call : Call) : Prop := ∃ kept e, call.outcome = .failed kept e

/-- The call reaches the disk. -/
def CallOutcome.reaches : CallOutcome → Bool
  | .ok => true
  | .failed kept _ | .died kept => kept

/-- The calls still to come, by call site. -/
abbrev Calls := CallSite → List Call

/-- What a program under the core lock works on. -/
structure World where
  disk : Disk
  core : Core
  counters : Counters
  queue : List WorkItem
  calls : Calls

/-- A program under the core lock. -/
abbrev Task := Prog World CliError

/-- Change the disk. -/
def World.onDisk (f : Disk → Disk) (w : World) : World := { w with disk := f w.disk }

/-- Change the core. -/
def World.onCore (f : Core → Core) (w : World) : World := { w with core := f w.core }

/-- Change the counters. -/
def World.onCounters (f : Counters → Counters) (w : World) : World :=
  { w with counters := f w.counters }

/-- Update the counters. -/
def count (f : Counters → Counters) : Task Unit := Prog.modify (World.onCounters f)

/-- Update the counters when something is the case. -/
def countIf (b : Bool) (f : Counters → Counters) : Task Unit := if b then count f else pure ()

/-- The next call at a call site. -/
def nextCall (site : CallSite) : Task Call := fun w =>
  match w.calls site with
  | [] => .crash w
  | call :: calls => .ok call { w with calls := Function.update w.calls site calls }

/-- Make a call that changes the disk. -/
def carryOut (outcome : CallOutcome) (effect : Disk → Disk) : Task Unit :=
  match outcome with
  | .ok => Prog.modify (World.onDisk effect)
  | .failed kept e => do
      Prog.modify (World.onDisk (if kept then effect else id))
      Prog.throw e
  | .died kept => do
      Prog.modify (World.onDisk (if kept then effect else id))
      Prog.crash

/-- A call that does nothing else. -/
def diskCall (site : CallSite) (effect : AppendInputs → Disk → Disk) : Task Unit := do
  let call ← nextCall site
  carryOut call.outcome (effect call.ids)

/-! ## The stores -/

def Disk.addEntry (entry : LedgerEntry) (d : Disk) : Disk :=
  { d with entries := d.entries ++ [entry] }

def Disk.addDeadLetter (r : DeadLetterRecord) (d : Disk) : Disk :=
  { d with deadLetters := d.deadLetters ++ [r] }

def Disk.spool (draft : LedgerEntryDraft) (d : Disk) : Disk :=
  { d with wal := d.wal.append draft }

def Disk.checkpoint (seq : Nat) (d : Disk) : Disk := { d with wal := d.wal.mark seq }

def Disk.addBlock (block : LedgerBlock) (d : Disk) : Disk :=
  { d with blocks := d.blocks ++ [block] }

/-- Seal a draft and persist it; the heads move only when the store has it. -/
def ledgerAppend (keys : SigningKeyStore c) (draft : LedgerEntryDraft) : Task LedgerEntry := do
  let call ← nextCall .store
  let w ← Prog.get
  let entry ← Prog.ofExcept (sealDraft keys w.core.chain call.ids draft)
  carryOut call.outcome (Disk.addEntry entry)
  Prog.modify (World.onCore fun core => { core with chain := core.chain.advance entry })
  pure entry

/-- Park an event in the dead-letter store. -/
def record (site : CallSite) (draft : LedgerEntryDraft) (reason : DeadLetterReason)
    (detail : String) (attempts : Nat) : Task Unit :=
  diskCall site fun ids => Disk.addDeadLetter
    { deadLetterId := s!"dl-{ids.ledgerEntryId}"
      eventId := draft.eventId.getD ""
      reason, detail, attempts
      failedAt := ids.now
      draft }

/-- Append a draft to the WAL. A full WAL refuses it first (`full`); a call that fails
leaves the log as it was. -/
def walAppend (full : Option CliError) (draft : LedgerEntryDraft) : Task Nat :=
  match full with
  | some e => Prog.throw e
  | none => do
      let call ← nextCall .wal
      let w ← Prog.get
      let outcome := match call.outcome with
        | .failed _ e => .failed false e
        | outcome => outcome
      carryOut outcome (Disk.spool draft)
      pure w.disk.wal.next

/-- Move the checkpoint. -/
def walCheckpoint (seq : Nat) : Task Unit := diskCall .checkpoint fun _ => Disk.checkpoint seq

/-- The records above the checkpoint. -/
def walPending : Task (List (Nat × LedgerEntryDraft)) := do
  diskCall .pending fun _ => id
  let w ← Prog.get
  pure w.disk.wal.pending

/-- All entries, in append order. -/
def readAll : Task (List LedgerEntry) := do
  diskCall .reads fun _ => id
  let w ← Prog.get
  pure w.disk.entries

/-! ## Blocks -/

/-- Seal everything unsealed into one block. -/
def sealUnsealedRange (keys : SigningKeyStore c) : Task (Option LedgerBlock) := do
  let w ← Prog.get
  match w.core.blocks with
  | none => pure none
  | some chain => do
      let start ← Prog.ofExcept chain.nextStartSequence
      let entries ← readAll
      if entries.length ≤ start then do
        Prog.modify (World.onCore fun core => { core with oldestUnsealed := false })
        pure none
      else do
        let call ← nextCall .blocks
        let block ← Prog.ofExcept
          (chain.sealBlock keys ⟨call.ids.ledgerEntryId, call.ids.now⟩ (entries.drop start))
        carryOut call.outcome (Disk.addBlock block)
        Prog.modify (World.onCore fun core =>
          { core with blocks := some ⟨chain.blocks ++ [block]⟩, oldestUnsealed := false })
        pure (some block)

/-- The max-entries trigger. -/
def maybeSealByCount (keys : SigningKeyStore c) (config : LedgerConfig) : Task Unit :=
  match config.blockMaxEntries with
  | none => pure ()
  | some maxEntries => do
      let w ← Prog.get
      match w.core.blocks with
      | none => pure ()
      | some chain => do
          let start ← Prog.ofExcept chain.nextStartSequence
          if maxEntries ≤ w.core.chain.len - start then do
            let _ ← sealUnsealedRange keys
            pure ()
          else pure ()

/-- The max-age trigger; `due` is whether the oldest unsealed entry has waited long enough. -/
def maybeSealByAge (keys : SigningKeyStore c) (config : LedgerConfig) (due : Bool) : Task Unit :=
  match config.blockMaxAgeMs with
  | none => pure ()
  | some _ => do
      let w ← Prog.get
      if w.core.oldestUnsealed && due then do
        let _ ← (sealUnsealedRange keys).attempt
        pure ()
      else pure ()

/-! ## The sealer -/

/-- Park an event and count it, when there is a dead-letter store. -/
def recordDeadLetter (site : CallSite) (config : LedgerConfig) (draft : LedgerEntryDraft)
    (reason : DeadLetterReason) (detail : String) (attempts : Nat) : Task Unit :=
  if config.deadLetterEnabled then do
    record site draft reason detail attempts
    count fun n => { n with deadLettered := n.deadLettered + 1 }
  else pure ()

/-- Move the watermark to a record that is dealt with. -/
def advanceWatermark (walSeq : Option Nat) : Task Unit :=
  match walSeq with
  | none => pure ()
  | some seq => do
      let w ← Prog.get
      if w.core.appliedWalSeq < seq then do
        Prog.modify (World.onCore fun core => { core with appliedWalSeq := seq })
        walCheckpoint seq
      else pure ()

/-- What a conflict is reported as. -/
def conflictReason (eventId existing payloadHash : String) : String :=
  s!"event {eventId} already appended with hash {existing}; refusing divergent hash " ++
    s!"{payloadHash} (possible tampering upstream)"

/-- Blocks, once an entry is in the ledger. -/
def sealBlocks (keys : SigningKeyStore c) (config : LedgerConfig) : Task Unit := do
  let w ← Prog.get
  match w.core.blocks with
  | none => pure ()
  | some _ => do
      Prog.modify (World.onCore fun core => { core with oldestUnsealed := true })
      maybeSealByCount keys config

/-- Append with so many retries left. -/
def sealRetrying (keys : SigningKeyStore c) (config : LedgerConfig) (draft : LedgerEntryDraft)
    (walSeq : Option Nat) : (left attempt : Nat) → Task SealOutcome
  | left, attempt => do
      match ← (ledgerAppend keys draft).attempt with
      | .ok entry => do
          Prog.modify (World.onCore fun core =>
            { core with dedup := core.dedup.insert entry.eventId entry.eventPayloadHash })
          count fun n => { n with appended := n.appended + 1 }
          advanceWatermark walSeq
          sealBlocks keys config
          pure (.appended entry)
      | .error e =>
          match left with
          | left + 1 => do
              count fun n => { n with retries := n.retries + 1 }
              sealRetrying keys config draft walSeq left (attempt + 1)
          | 0 => do
              recordDeadLetter .deadLetter config draft .retriesExhausted e.toText attempt
              advanceWatermark walSeq
              pure .terminal

/-- Seal one draft, with retries and dead letters, and move the watermark. -/
def sealOne (keys : SigningKeyStore c) (config : LedgerConfig) (draft : LedgerEntryDraft)
    (walSeq : Option Nat) : Task SealOutcome := do
  let eventId := draft.eventId.getD ""
  match draft.payload.resolve c with
  | .error e => do
      recordDeadLetter .deadLetter config draft .invalidEvent e.toText 1
      advanceWatermark walSeq
      pure .terminal
  | .ok payloadHash => do
      let w ← Prog.get
      match w.core.dedup[eventId]? with
      | some existing =>
          if existing = payloadHash then do
            count fun n => { n with duplicates := n.duplicates + 1 }
            advanceWatermark walSeq
            pure .duplicate
          else do
            count fun n => { n with conflicts := n.conflicts + 1 }
            recordDeadLetter .deadLetter config draft .conflict
              (conflictReason eventId existing payloadHash) 1
            advanceWatermark walSeq
            pure .terminal
      | none => sealRetrying keys config draft walSeq config.retryMaxAttempts 1

/-! ## The hot path -/

/-- A required field. -/
def required (name value : String) : CliResult Unit :=
  if isBlank value then .error (.schema s!"ledger draft field `{name}` must not be empty")
  else .ok ()

/-- The size of an inline payload. -/
def checkPayloadSize (config : LedgerConfig) : PayloadCommitment → CliResult Unit
  | .hash _ => .ok ()
  | .inline value =>
      let canonicalLen := (utf8Encode (canonicalJson value)).length
      if canonicalLen > config.maxPayloadBytes then
        .error (.schema (s!"payload canonical form is {canonicalLen} bytes, over the " ++
          s!"max_payload_bytes limit of {config.maxPayloadBytes}"))
      else .ok ()

/-- The minimal envelope. -/
def validateDraft (draft : LedgerEntryDraft) (config : LedgerConfig) : CliResult Unit := do
  required "agent_id" draft.agentId
  required "run_id" draft.runId
  required "event_type" draft.eventType
  if draft.eventType.utf8ByteSize > 256 ∨ draft.eventType.toList.any isControl then
    .error (.schema
      "ledger draft field `event_type` must be <= 256 chars with no control characters")
  else checkPayloadSize config draft.payload

/-- Put an item in the queue unless it is full. -/
def trySend (config : LedgerConfig) (item : WorkItem) : Task Bool := do
  let w ← Prog.get
  if w.queue.length < config.queueMaxMemoryEvents then do
    Prog.modify fun w => { w with queue := w.queue ++ [item] }
    pure true
  else pure false

/-- Put an item in the queue and count it. -/
def tryEnqueue (config : LedgerConfig) (item : WorkItem) : Task Bool := do
  let sent ← trySend config item
  countIf sent fun n => { n with queueDepth := n.queueDepth + 1 }
  pure sent

/-- Whether an item stays in the WAL: something has spilled already, or the queue is full. -/
def spills (config : LedgerConfig) (item : WorkItem) : Task Bool := do
  let w ← Prog.get
  if 0 < w.counters.walBacklog then pure true
  else do
    let sent ← tryEnqueue config item
    pure (!sent)

/-- What `append` comes to under the lock: its outcome, or an item to enqueue without it. -/
inductive Dispatch where
  | done (o : AppendOutcome)
  | enqueue (item : WorkItem)

/-- Durable mode: WAL first, then the queue unless something has spilled already. -/
def appendDurable (config : LedgerConfig) (full : Option CliError) (draft : LedgerEntryDraft)
    (eventId : String) : Task AppendOutcome := do
  match ← (walAppend full draft).attempt with
  | .error e => do
      count fun n => { n with busyRejections := n.busyRejections + 1 }
      Prog.throw e
  | .ok walSeq => do
      let spilled ← spills config ⟨some walSeq, draft⟩
      countIf spilled fun n => { n with walBacklog := n.walBacklog + 1 }
      pure (.walPersisted eventId walSeq)

/-- Strict mode: WAL, then seal inline. -/
def appendStrict (keys : SigningKeyStore c) (config : LedgerConfig) (full : Option CliError)
    (draft : LedgerEntryDraft) (eventId : String) : Task AppendOutcome := do
  let walSeq ← walAppend full draft
  match ← sealOne keys config draft (some walSeq) with
  | .appended entry => pure (.appended entry)
  | .duplicate => pure (.duplicate eventId)
  | .terminal =>
      Prog.throw (.ledgerIntegrity s!"event {eventId} was dead-lettered during strict append")

/-- The draft as it travels on: its payload by hash, its event id set. -/
def committed (draft : LedgerEntryDraft) (payloadHash eventId : String) : LedgerEntryDraft :=
  { draft with payload := .hash payloadHash, eventId := some eventId }

/-- Refuse a draft that fails validation. -/
def refuse (config : LedgerConfig) (draft : LedgerEntryDraft) (e : CliError) : Task Dispatch := do
  count fun n => { n with invalid := n.invalid + 1 }
  recordDeadLetter .refuse config draft .invalidEvent e.toText 1
  Prog.throw e

/-- Report an event whose id is in the ledger with another hash. -/
def refuseConflict (config : LedgerConfig) (draft : LedgerEntryDraft) (reason : String) :
    Task Dispatch := do
  count fun n => { n with conflicts := n.conflicts + 1 }
  recordDeadLetter .refuse config draft .conflict reason 1
  Prog.throw (.ledgerConflict reason)

/-- Mode dispatch. -/
def dispatch (keys : SigningKeyStore c) (config : LedgerConfig) (full : Option CliError)
    (draft : LedgerEntryDraft) (eventId : String) : Task Dispatch :=
  match config.mode with
  | .bestEffortLowLatency => pure (.enqueue ⟨none, draft⟩)
  | .durableLowLatency => do
      let o ← appendDurable config full draft eventId
      pure (.done o)
  | .strictVerified => do
      let o ← appendStrict keys config full draft eventId
      pure (.done o)
  | .strictCloud =>
      Prog.throw (.ledgerCloudUnavailable "no cloud ledger ingestion API exists yet")

/-- Idempotency, conflicts, and then mode dispatch, for a draft committed by hash. -/
def admission (keys : SigningKeyStore c) (config : LedgerConfig) (full : Option CliError)
    (draft : LedgerEntryDraft) (payloadHash eventId : String) : Task Dispatch := do
  let w ← Prog.get
  match w.core.dedup[eventId]? with
  | some existing =>
      if existing = payloadHash then do
        count fun n => { n with duplicates := n.duplicates + 1 }
        pure (.done (.duplicate eventId))
      else refuseConflict config draft (conflictReason eventId existing payloadHash)
  | none => dispatch keys config full draft eventId

/-- Accept one event, up to the end of its stay under the core lock. `ulid` is the event
id of a draft that brings none. -/
def append (keys : SigningKeyStore c) (config : LedgerConfig) (draft : LedgerEntryDraft)
    (ulid : String) (full : Option CliError) : Task Dispatch := do
  count fun n => { n with received := n.received + 1 }
  match validateDraft draft config with
  | .error e => refuse config draft e
  | .ok () => do
      let payloadHash ← Prog.ofExcept (draft.payload.resolve c)
      let eventId := draft.eventId.getD ulid
      admission keys config full (committed draft payloadHash eventId) payloadHash eventId

end Agenomic.Ledger.Pipeline
