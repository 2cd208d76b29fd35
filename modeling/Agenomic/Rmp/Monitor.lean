import Agenomic.Rmp.Report
import Agenomic.Track.Run

/-!
# The monitor engine

The monitor writes every event to the ledger, shows it to the tracking engine, and
writes a ledger event for every finding it makes of an alert. The ledger is a sink
whose appends can fail, each with or without having reached the ledger; it keeps one
entry for an event id.
-/

namespace Agenomic.Rmp

open Lib Prompt
open Track (TrackingEvent TrackingEngine TrackingSession DriftBaseline Alert AlertKind
  AlertSeverity Stamp Timestamp)

/-! ## Findings -/

/-- The kind of a finding. -/
inductive FindingKind where
  | riskGap | contractViolation | policyViolation | regression | scenarioFailure | coverageGap
  | replayDivergence | drift | loop | intentShift | failure | harnessViolation | anomaly
  | toolMisuse | memoryMisuse | dangerousAutonomy | forbiddenIntent
  | unexpectedWorkflowTransition | repeatedFailure | lowReplayFidelity | missingHumanApproval
  | suspiciousOutput | other
  deriving DecidableEq, Repr

def FindingKind.label : FindingKind → String
  | .riskGap => "risk_gap"
  | .contractViolation => "contract_violation"
  | .policyViolation => "policy_violation"
  | .regression => "regression"
  | .scenarioFailure => "scenario_failure"
  | .coverageGap => "coverage_gap"
  | .replayDivergence => "replay_divergence"
  | .drift => "drift"
  | .loop => "loop"
  | .intentShift => "intent_shift"
  | .failure => "failure"
  | .harnessViolation => "harness_violation"
  | .anomaly => "anomaly"
  | .toolMisuse => "tool_misuse"
  | .memoryMisuse => "memory_misuse"
  | .dangerousAutonomy => "dangerous_autonomy"
  | .forbiddenIntent => "forbidden_intent"
  | .unexpectedWorkflowTransition => "unexpected_workflow_transition"
  | .repeatedFailure => "repeated_failure"
  | .lowReplayFidelity => "low_replay_fidelity"
  | .missingHumanApproval => "missing_human_approval"
  | .suspiciousOutput => "suspicious_output"
  | .other => "other"

def Severity.label : Severity → String
  | .info => "info"
  | .low => "low"
  | .medium => "medium"
  | .high => "high"
  | .critical => "critical"

/-- What a finding says. -/
structure FindingBody where
  specVersion : String
  loopStage : String
  sessionId : String
  agentId : String
  genomeHash : Option String
  kind : FindingKind
  severity : Severity
  title : String
  message : String
  riskIds : List String
  evidenceRefs : List String
  observed : Option Value
  expected : Option Value
  recommendedAction : Option String
  blocksRelease : Bool
  requiresHumanReview : Bool
  details : Option Value
  deriving DecidableEq

/-- The id and the time that a new finding is given. -/
structure FindingStamp where
  findingId : String
  createdAt : Timestamp
  deriving DecidableEq

/-- A finding of the monitor. -/
structure MonitorFinding where
  stamp : FindingStamp
  body : FindingBody
  deriving DecidableEq

/-- The severity of an alert on the scale of the platform. -/
def toPlatform : AlertSeverity → Severity
  | .info => .info
  | .warning => .high
  | .critical => .critical

/-- What kind of finding an alert makes. -/
def findingKind : AlertKind → FindingKind
  | .drift => .drift
  | .loop => .loop
  | .intent => .intentShift
  | .harness => .harnessViolation
  | .policy => .policyViolation
  | .security => .anomaly

/-! ## The ledger -/

/-- A structured event on its way into the ledger. -/
structure RmpLedgerEvent where
  eventType : String
  sessionId : String
  runId : String
  agentId : String
  genomeHash : Option String
  releaseId : Option String
  payload : Value
  evidenceRefs : List String
  deriving DecidableEq

/-- The event without the id of its finding. -/
def RmpLedgerEvent.anonymous (ev : RmpLedgerEvent) : RmpLedgerEvent :=
  match ev.payload with
  | .object ms => { ev with payload := .object (ms.filter fun m => m.1 ≠ "finding_id") }
  | _ => ev

/-- What is written to the ledger: a raw event, under its own id, or an event of the monitor,
under an id the ledger makes up. -/
inductive LedgerRecord where
  | event (ev : TrackingEvent)
  | lifecycle (ev : RmpLedgerEvent)
  deriving DecidableEq

/-- The event ids in the ledger. -/
def eventIds (records : List LedgerRecord) : List String :=
  records.filterMap fun
    | .event ev => some ev.eventId
    | .lifecycle _ => none

/-- The monitor's events in the ledger, up to generated ids. -/
def lifecycleEvents (records : List LedgerRecord) : List RmpLedgerEvent :=
  records.filterMap fun
    | .event _ => none
    | .lifecycle ev => some ev.anonymous

/-- One record more. An event whose id is there already is a duplicate. -/
def push (r : LedgerRecord) (records : List LedgerRecord) : List LedgerRecord :=
  match r with
  | .event ev => if ev.eventId ∈ eventIds records then records else records ++ [r]
  | .lifecycle _ => records ++ [r]

/-- How an append goes; `kept` says whether it reached the ledger nonetheless. -/
inductive AppendResult where
  | ok
  | failed (kept : Bool) (e : CliError)
  deriving DecidableEq, Repr

def AppendResult.fails : AppendResult → Bool
  | .ok => false
  | .failed _ _ => true

/-- A ledger with one entry for each event id, and how the appends to come go; behind the last of
them everything succeeds. -/
structure LedgerSink where
  records : List LedgerRecord
  calls : List AppendResult
  once : (eventIds records).Nodup

theorem eventIds_push_nodup {records : List LedgerRecord} (h : (eventIds records).Nodup)
    (r : LedgerRecord) : (eventIds (push r records)).Nodup := by
  unfold push
  cases r with
  | lifecycle ev =>
      unfold eventIds at h ⊢
      rw [List.filterMap_append]
      exact (List.append_nil _).symm ▸ h
  | event ev =>
      dsimp only
      by_cases hmem : ev.eventId ∈ eventIds records
      · rw [if_pos hmem]
        exact h
      · rw [if_neg hmem]
        unfold eventIds at h hmem ⊢
        rw [List.filterMap_append]
        exact List.nodup_append.mpr ⟨h, List.nodup_singleton _, fun a ha b hb hab =>
          hmem (List.mem_singleton.mp hb ▸ hab ▸ ha)⟩

namespace LedgerSink

/-- Append a record. -/
def append (s : LedgerSink) (r : LedgerRecord) : LedgerSink × CliResult Unit :=
  match s.calls with
  | [] => (⟨push r s.records, [], eventIds_push_nodup s.once r⟩, .ok ())
  | .ok :: calls => (⟨push r s.records, calls, eventIds_push_nodup s.once r⟩, .ok ())
  | .failed true e :: calls => (⟨push r s.records, calls, eventIds_push_nodup s.once r⟩, .error e)
  | .failed false e :: calls => (⟨s.records, calls, s.once⟩, .error e)

/-- The ledger with nothing left to fail. -/
def reliable (s : LedgerSink) : LedgerSink := { s with calls := [] }

end LedgerSink

/-! ## The engine -/

/-- The monitor session, as the engine reads it. -/
structure MonitorSession where
  sessionId : String
  trackingSessionId : String
  agentId : String
  genomeHash : Option String
  releaseId : Option String
  environment : String
  /-- The label of the mode. -/
  mode : String
  deriving DecidableEq

/-- The monitor engine for one live session. -/
structure MonitorEngine where
  session : MonitorSession
  tracking : TrackingEngine
  ledger : Option LedgerSink
  /-- Findings at or above this severity trigger Protect. -/
  protectTriggerSeverity : Severity
  findings : List MonitorFinding

/-- The ids and times a call makes up. -/
structure MonitorEnv where
  alert : Nat → Stamp
  finding : Nat → FindingStamp

namespace MonitorEngine

variable (d : Track.Deps)

def appendRecord (m : MonitorEngine) (r : LedgerRecord) : MonitorEngine × CliResult Unit :=
  match m.ledger with
  | none => (m, .ok ())
  | some sink =>
      let (sink, result) := sink.append r
      ({ m with ledger := some sink }, result)

/-- The ledger event of this session. -/
def lifecycleEvent (m : MonitorEngine) (eventType : String) (payload : Value) : RmpLedgerEvent where
  eventType
  sessionId := m.session.sessionId
  -- chained onto the run of the tracking session
  runId := m.session.trackingSessionId
  agentId := m.session.agentId
  genomeHash := m.session.genomeHash
  releaseId := m.session.releaseId
  payload
  evidenceRefs := []

def recordLifecycleEvent (m : MonitorEngine) (eventType : String) (payload : Value) :
    MonitorEngine × CliResult Unit := m.appendRecord (.lifecycle (m.lifecycleEvent eventType payload))

/-- The event type a finding is recorded under. -/
def findingEventType : FindingKind → String
  | .drift => "monitor.drift.detected"
  | .loop => "monitor.loop.detected"
  | .intentShift => "monitor.intent.shifted"
  | .failure | .repeatedFailure => "monitor.failure.detected"
  | _ => "monitor.finding.created"

/-- What is recorded of a finding. -/
def findingPayload (f : MonitorFinding) : Value :=
  .object [("evidence_refs", .array (f.body.evidenceRefs.map .string)),
    ("finding_id", .string f.stamp.findingId), ("kind", .string f.body.kind.label),
    ("severity", .string f.body.severity.label), ("title", .string f.body.title)]

def recordFindingEvent (m : MonitorEngine) (f : MonitorFinding) : MonitorEngine × CliResult Unit :=
  m.recordLifecycleEvent (findingEventType f.body.kind) (findingPayload f)

/-- What the finding of an alert says. -/
def findingBody (session : MonitorSession) (alert : Track.AlertBody) : FindingBody where
  specVersion := "agenomic.rmp/v0.1"
  loopStage := "monitor"
  sessionId := session.sessionId
  agentId := session.agentId
  genomeHash := session.genomeHash
  kind := findingKind alert.kind
  severity := toPlatform alert.severity
  title := alert.title
  message := alert.message
  riskIds := []
  evidenceRefs := alert.evidenceEventIds
  observed := alert.observed
  expected := alert.expected
  recommendedAction := alert.recommendedAction
  blocksRelease := alert.blocksRelease
  requiresHumanReview := alert.requiresHumanReview
  details := alert.details

def findingFromAlert (m : MonitorEngine) (stamp : FindingStamp) (alert : Alert) : MonitorFinding :=
  ⟨stamp, findingBody m.session alert.body⟩

/-- Make a finding of every alert and record it; the first that cannot be recorded ends it. -/
def recordFindings (env : MonitorEnv) :
    Nat → List Alert → MonitorEngine → MonitorEngine × CliResult (List MonitorFinding)
  | _, [], m => (m, .ok [])
  | i, alert :: rest, m =>
      let finding := m.findingFromAlert (env.finding i) alert
      match m.recordFindingEvent finding with
      | (m, .error e) => (m, .error e)
      | (m, .ok ()) => match recordFindings env (i + 1) rest m with
        | (m, .error e) => (m, .error e)
        | (m, .ok findings) => (m, .ok (finding :: findings))

/-- Ingest one live event. -/
def ingest (env : MonitorEnv) (event : TrackingEvent) (m : MonitorEngine) :
    MonitorEngine × CliResult (List MonitorFinding) :=
  if m.tracking.hasEvent event.eventId then (m, .ok [])
  else
    match m.appendRecord (.event event) with
    | (m, .error e) => (m, .error e)
    | (m, .ok ()) =>
        let (tracking, alerts) := m.tracking.ingest d env.alert event
        match recordFindings env 0 alerts { m with tracking } with
        | (m, .error e) => (m, .error e)
        | (m, .ok findings) => ({ m with findings := m.findings ++ findings }, .ok findings)

/-- Whether Protect should be triggered given the findings so far. -/
def protectTriggered (m : MonitorEngine) : Bool :=
  m.findings.any fun f => m.protectTriggerSeverity ≤ f.body.severity

/-- Start a monitor session. -/
def start (session : MonitorSession) (trackingSession : TrackingSession) (baseline : DriftBaseline)
    (protectTriggerSeverity : Severity) (ledger : Option LedgerSink) : CliResult MonitorEngine :=
  let engine : MonitorEngine :=
    { session
      tracking := .new trackingSession baseline
      ledger
      protectTriggerSeverity
      findings := [] }
  match engine.recordLifecycleEvent "monitor.session.started"
      (.object [("environment", .string session.environment), ("mode", .string session.mode)]) with
  | (_, .error e) => .error e
  | (m, .ok ()) => .ok m

/-! ## A caller that retries -/

/-- The appends that are still to fail or not, at most. -/
def callsLeft (m : MonitorEngine) : Nat := (m.ledger.map fun s => s.calls.length).getD 0

/-- Ingest an event again and again until it is taken, or this many retries are used up. -/
def ingestAgain (envs : Nat → MonitorEnv) (event : TrackingEvent) :
    Nat → MonitorEngine → MonitorEngine × CliResult (List MonitorFinding)
  | 0, m => m.ingest d (envs 0) event
  | n + 1, m => match m.ingest d (envs (n + 1)) event with
    | (m, .ok findings) => (m, .ok findings)
    | (m, .error _) => ingestAgain envs event n m

/-- Ingest an event until it is taken. Every failure uses up one of the calls left. -/
def ingestUntilOk (envs : Nat → MonitorEnv) (event : TrackingEvent) (m : MonitorEngine) :
    MonitorEngine × CliResult (List MonitorFinding) := m.ingestAgain d envs event m.callsLeft

/-- One event after another, each until it is taken. -/
def deliver (m : MonitorEngine) (op : TrackingEvent × (Nat → MonitorEnv)) : MonitorEngine :=
  (m.ingestUntilOk d op.2 op.1).1

/-- What the detectors find in an event. -/
def found (m : MonitorEngine) (event : TrackingEvent) : List Track.AlertBody :=
  (TrackingEngine.observe d (m.tracking.sealEvent d event) m.tracking).2

/-- How the appends to come go. -/
def calls (m : MonitorEngine) : List AppendResult := (m.ledger.map LedgerSink.calls).getD []

/-- The appends of an event's findings, behind the append of the event itself. -/
def findingCalls (m : MonitorEngine) (event : TrackingEvent) : List AppendResult :=
  (m.calls.dropWhile AppendResult.fails).tail.take (m.found d event).length

/-- The event is new, and the append of one of its findings fails. -/
def LosesFinding (m : MonitorEngine) (event : TrackingEvent) : Prop :=
  event.eventId ∉ m.tracking.seen ∧ ∃ r ∈ m.findingCalls d event, r.fails = true

end MonitorEngine

end Agenomic.Rmp
