import Agenomic.Track.Event
import Agenomic.Lib.Sorted

/-!
# Detectors

Three detectors observe the events of a session: for loops, for drift from a baseline, and
for intents outside what is declared. Each is a deterministic function of its state and of
the event; every kind of finding alerts once.
-/

namespace Agenomic.Track

open Lib Prompt

def natValue (n : Nat) : Value := .number (.int n)

def textValues (xs : List String) : Value := .array (xs.map .string)

/-- A text in the metadata of an event. -/
def TrackingEvent.metadataText (ev : TrackingEvent) (key : String) : Option String :=
  (ev.metadata.bind fun m => m.get key).bind Value.asStr

/-! ## Loops -/

inductive EscalationBehavior where
  | warn
  | requireApproval
  | block
  deriving DecidableEq, Repr

/-- The severity, and whether a loop blocks the release and needs a review. -/
def EscalationBehavior.severityAndGating : EscalationBehavior → AlertSeverity × Bool × Bool
  | .warn => (.warning, false, false)
  | .requireApproval => (.warning, false, true)
  | .block => (.critical, true, true)

structure LoopConfig where
  maxIterations : UInt32
  maxSameToolCalls : UInt32
  maxSameStateHashRepeats : UInt32
  maxDurationSeconds : UInt64
  noProgressWindow : UInt32
  /-- Steps that may repeat. -/
  allowedLoopStepIds : List String
  escalation : EscalationBehavior
  deriving DecidableEq

def LoopConfig.default : LoopConfig where
  maxIterations := 50
  maxSameToolCalls := 3
  maxSameStateHashRepeats := 3
  maxDurationSeconds := 1800
  noProgressWindow := 5
  allowedLoopStepIds := []
  escalation := .warn

inductive LoopType where
  | repeatedToolCall
  | repeatedModelCall
  | repeatedWorkflowTransition
  | recursiveHandoff
  | repeatedFailure
  | maxIterations
  | maxDuration
  | noProgress
  | cyclicWorkflow
  deriving DecidableEq, Repr

def LoopType.label : LoopType → String
  | .repeatedToolCall => "repeated_tool_call"
  | .repeatedModelCall => "repeated_model_call"
  | .repeatedWorkflowTransition => "repeated_workflow_transition"
  | .recursiveHandoff => "recursive_handoff"
  | .repeatedFailure => "repeated_failure"
  | .maxIterations => "max_iterations"
  | .maxDuration => "max_duration"
  | .noProgress => "no_progress"
  | .cyclicWorkflow => "cyclic_workflow"

structure LoopDetector where
  sessionId : String
  config : LoopConfig
  startedAt : Timestamp
  iterationCount : UInt32
  toolCalls : String → UInt32
  stateHashes : String → UInt32
  stepTransitions : String → UInt32
  stepVisits : String → UInt32
  failureStreak : UInt32
  noProgressStreak : UInt32
  lastStateHash : Option String
  lastStep : Option String
  alerted : List String

namespace LoopDetector

def new (sessionId : String) (config : LoopConfig) (startedAt : Timestamp) : LoopDetector where
  sessionId
  config
  startedAt
  iterationCount := 0
  toolCalls := fun _ => 0
  stateHashes := fun _ => 0
  stepTransitions := fun _ => 0
  stepVisits := fun _ => 0
  failureStreak := 0
  noProgressStreak := 0
  lastStateHash := none
  lastStep := none
  alerted := []

/-- An alert about a loop, once for a key. -/
def raise (key : String) (loopType : LoopType) (message : String) (eid : String)
    (observed : Value) : Watch LoopDetector := fun l =>
  let (severity, blocks, review) := l.config.escalation.severityAndGating
  let body : AlertBody :=
    { sessionId := l.sessionId
      kind := .loop
      severity
      title := "Loop detected: " ++ loopType.label
      message
      observed := none
      expected := none
      evidenceEventIds := [eid]
      recommendedAction := some
        ("Inspect the repeated pattern; add a termination/guard condition or raise the "
          ++ "relevant bound if the repetition is expected.")
      blocksRelease := blocks
      requiresHumanReview := review
      details := some
        (.object [("loop_type", .string loopType.label), ("observed", observed)]) }
  let (alerted, found) := raiseOnce l.alerted key body
  ({ l with alerted }, found)

def observeDuration (ev : TrackingEvent) : Watch LoopDetector := .read fun l =>
  let elapsed := ((ev.timestamp - l.startedAt).tdiv 1000000000).toNat
  .when (l.config.maxDurationSeconds.toNat < elapsed) <|
    raise "max_duration" .maxDuration
      ("Session ran for " ++ toString elapsed ++ "s, exceeding max_duration_seconds="
        ++ toString l.config.maxDurationSeconds ++ ".")
      ev.eventId (.object [("elapsed_seconds", natValue elapsed)])

/-- Another visit of a step. -/
def observeVisit (step eid : String) : Watch LoopDetector :=
  .seq (.update fun l => { l with stepVisits := countUp l.stepVisits step }) <|
  .read fun l =>
    let visits := l.stepVisits step
    .when (l.config.maxSameStateHashRepeats < visits) <|
      raise ("cyclic_step:" ++ step) .cyclicWorkflow
        ("Workflow step '" ++ step ++ "' visited " ++ toString visits ++ " times (cyclic path).")
        eid (.object [("step_id", .string step), ("visits", natValue visits.toNat)])

/-- Another way from the last step to this one. -/
def observeTransition (step eid : String) : Watch LoopDetector := .read fun l =>
  match l.lastStep with
  | none => .skip
  | some prev =>
      let key := prev ++ "->" ++ step
      .seq (.update fun l => { l with stepTransitions := countUp l.stepTransitions key }) <|
      .read fun l =>
        let n := l.stepTransitions key
        .when (l.config.maxSameStateHashRepeats < n) <|
          raise ("transition:" ++ key) .repeatedWorkflowTransition
            ("Workflow transition '" ++ key ++ "' repeated " ++ toString n ++ " times.")
            eid (.object [("transition", .string key), ("count", natValue n.toNat)])

def observeStep (ev : TrackingEvent) : Watch LoopDetector :=
  .seq (.update fun l => { l with iterationCount := l.iterationCount + 1 }) <|
  .seq (.read fun l =>
    .when (l.config.maxIterations < l.iterationCount) <|
      raise "max_iterations" .maxIterations
        ("Agent executed " ++ toString l.iterationCount ++ " steps, exceeding max_iterations="
          ++ toString l.config.maxIterations ++ ".")
        ev.eventId (.object [("iterations", natValue l.iterationCount.toNat)])) <|
  match ev.workflowStepId with
  | none => .skip
  | some step =>
      .seq (.read fun l =>
        .when (step ∉ l.config.allowedLoopStepIds)
          (.seq (observeVisit step ev.eventId) (observeTransition step ev.eventId)))
      (.update fun l => { l with lastStep := some step })

def observeTool (ev : TrackingEvent) : Watch LoopDetector :=
  match ev.tool with
  | none => .skip
  | some tool =>
      let ih := ev.inputHash.getD ""
      let key := tool.name ++ "|" ++ ih
      .seq (.update fun l => { l with toolCalls := countUp l.toolCalls key }) <|
      .read fun l =>
        let n := l.toolCalls key
        .when (l.config.maxSameToolCalls < n) <|
          raise ("tool:" ++ key) .repeatedToolCall
            ("Tool '" ++ tool.name ++ "' called " ++ toString n ++ " times with identical input.")
            ev.eventId
            (.object [("tool", .string tool.name), ("input_hash", .string ih),
              ("count", natValue n.toNat)])

def observeModel (ev : TrackingEvent) : Watch LoopDetector :=
  match ev.inputHash with
  | none => .skip
  | some ih =>
      let key := "model|" ++ ih
      .seq (.update fun l => { l with stateHashes := countUp l.stateHashes key }) <|
      .read fun l =>
        let n := l.stateHashes key
        .when (l.config.maxSameStateHashRepeats < n) <|
          raise ("model:" ++ key) .repeatedModelCall
            ("Model called " ++ toString n ++ " times with identical input (no progress).")
            ev.eventId (.object [("input_hash", .string ih), ("count", natValue n.toNat)])

def observeProgress (ev : TrackingEvent) : Watch LoopDetector :=
  let state := (ev.outputHash.or ev.inputHash).getD ""
  .when (state ≠ "") <| .read fun l =>
    if l.lastStateHash = some state then
      .seq (.update fun l => { l with noProgressStreak := l.noProgressStreak + 1 }) <|
      .read fun l =>
        let streak := l.noProgressStreak
        .when (l.config.noProgressWindow ≤ streak) <|
          raise "no_progress" .noProgress
            (toString streak
              ++ " consecutive events produced no state change (output hash unchanged).")
            ev.eventId
            (.object [("no_progress_window", natValue streak.toNat), ("state_hash", .string state)])
    else
      .update fun l =>
        { l with noProgressStreak := 0, failureStreak := 0, lastStateHash := some state }

/-- An event that says that something failed. -/
def failed (ev : TrackingEvent) : Bool :=
  decide (ev.eventType = .agentFailed)
    || (ev.metadataText "status").any fun s => s.toLower = "error" || s.toLower = "failed"

def observeFailure (ev : TrackingEvent) : Watch LoopDetector :=
  .when (failed ev = true) <|
  .seq (.update fun l => { l with failureStreak := l.failureStreak + 1 }) <|
  .read fun l =>
    let streak := l.failureStreak
    .when (l.config.maxSameToolCalls < streak) <|
      raise ("failure_streak:" ++ toString streak) .repeatedFailure
        (toString streak ++ " consecutive failed attempts.")
        ev.eventId (.object [("failure_streak", natValue streak.toNat)])

def observe (ev : TrackingEvent) : Watch LoopDetector :=
  .seq (observeDuration ev) <|
  match ev.eventType with
  | .agentStepStarted => observeStep ev
  | .toolCallCompleted | .toolCallStarted => .seq (observeTool ev) (observeFailure ev)
  | .modelCallCompleted => .seq (observeModel ev) (observeProgress ev)
  | .agentStepCompleted => observeProgress ev
  | .agentFailed => observeFailure ev
  | _ => .skip

end LoopDetector

/-! ## Drift -/

inductive DriftType where
  | prompt
  | modelConfig
  | toolPermission
  | policy
  | memorySchema
  | workflowTopology
  | outputBehavior
  | intent
  | toolUsage
  deriving DecidableEq, Repr

def DriftType.label : DriftType → String
  | .prompt => "prompt"
  | .modelConfig => "model_config"
  | .toolPermission => "tool_permission"
  | .policy => "policy"
  | .memorySchema => "memory_schema"
  | .workflowTopology => "workflow_topology"
  | .outputBehavior => "output_behavior"
  | .intent => "intent"
  | .toolUsage => "tool_usage"

structure DriftConfig where
  enabled : Bool
  deterministic : Bool
  behavioral : Bool
  temperatureTolerance : Double
  deriving DecidableEq

/-- What an agent is expected to do. What is empty is not checked. -/
structure DriftBaseline where
  promptHash : Option String
  modelProvider : Option String
  modelId : Option String
  temperature : Option Double
  allowedTools : List String
  toolPermissions : List (String × List String)
  policyIds : List String
  memorySchemaVersion : Option String
  workflowSteps : List String
  deriving DecidableEq

def DriftBaseline.default : DriftBaseline where
  promptHash := none
  modelProvider := none
  modelId := none
  temperature := none
  allowedTools := []
  toolPermissions := []
  policyIds := []
  memorySchemaVersion := none
  workflowSteps := []

structure BehavioralDrift where
  driftType : DriftType
  severity : AlertSeverity
  message : String
  observed : Value
  expected : Value

structure DriftDetector where
  sessionId : String
  config : DriftConfig
  baseline : DriftBaseline
  /-- A classifier of behaviour. -/
  provider : Option (TrackingEvent → DriftBaseline → Option BehavioralDrift)
  alerted : List String

/-- A set of texts, in order. -/
def sortedStrs (set : List String) : List String := sortDedup (· ≤ ·) set

namespace DriftDetector

def new (sessionId : String) (config : DriftConfig) (baseline : DriftBaseline) : DriftDetector where
  sessionId
  config
  baseline
  provider := none
  alerted := []

/-- An alert about a drift, once for a key. -/
def raise (key : String) (driftType : DriftType) (mode : String) (severity : AlertSeverity)
    (message : String) (observed expected : Value) (eid : String) (blocks review : Bool) :
    Watch DriftDetector := fun t =>
  let body : AlertBody :=
    { sessionId := t.sessionId
      kind := .drift
      severity
      title := "Drift detected: " ++ driftType.label
      message
      observed := some observed
      expected := some expected
      evidenceEventIds := [eid]
      recommendedAction := some
        ("Compare the running release against the tracked baseline; if the change is intended, "
          ++ "cut a new release and re-baseline, otherwise roll back.")
      blocksRelease := blocks
      requiresHumanReview := review
      details := some
        (.object [("drift_type", .string driftType.label), ("mode", .string mode),
          ("observed", observed), ("expected", expected)]) }
  let (alerted, found) := raiseOnce t.alerted key body
  ({ t with alerted }, found)

/-- A drift in what can be compared. -/
def raiseDeterministic (key : String) (driftType : DriftType) (severity : AlertSeverity)
    (message : String) (observed expected : Value) (ev : TrackingEvent) (blocks review : Bool) :
    Watch DriftDetector :=
  raise key driftType "deterministic" severity message observed expected ev.eventId blocks review

variable (d : Deps)

def observeTool (ev : TrackingEvent) : Watch DriftDetector := .read fun t =>
  match ev.tool with
  | none => .skip
  | some tool =>
      let baseline := t.baseline
      if baseline.allowedTools ≠ [] ∧ tool.name ∉ baseline.allowedTools then
        raiseDeterministic ("tool_perm:" ++ tool.name) .toolPermission .critical
          ("Tool '" ++ tool.name ++ "' is not in the baseline's permitted tool set.")
          (.string tool.name) (textValues (sortedStrs baseline.allowedTools)) ev true true
      else
        match baseline.toolPermissions.lookup tool.name with
        | none => .skip
        | some expected =>
            let extra := tool.permissions.filter fun p => p ∉ expected
            .when (extra ≠ []) <|
              raiseDeterministic ("tool_perm_extra:" ++ tool.name) .toolPermission .critical
                ("Tool '" ++ tool.name ++ "' requested permissions outside its baseline grant: "
                  ++ d.debugTexts extra ++ ".")
                (textValues extra) (textValues (sortedStrs expected)) ev true true

/-- Another provider, another model or another temperature. -/
def observeModel (ev : TrackingEvent) (model : ModelMeta) : Watch DriftDetector := .read fun t =>
  .seq (match t.baseline.modelProvider with
    | none => .skip
    | some bp =>
        .when (model.provider ≠ "" ∧ model.provider ≠ bp) <|
          raiseDeterministic "model_provider" .modelConfig .warning
            ("Model provider changed from '" ++ bp ++ "' to '" ++ model.provider ++ "'.")
            (.string model.provider) (.string bp) ev false true) <|
  .seq (match t.baseline.modelId with
    | none => .skip
    | some bm =>
        .when (model.model ≠ "" ∧ model.model ≠ bm) <|
          raiseDeterministic "model_id" .modelConfig .warning
            ("Model changed from '" ++ bm ++ "' to '" ++ model.model ++ "'.")
            (.string model.model) (.string bm) ev false true) <|
  match t.baseline.temperature, model.temperature with
  | some bt, some mt =>
      .when (d.deltaExceeds bt mt t.config.temperatureTolerance = true) <|
        raiseDeterministic "model_temp" .modelConfig .warning
          ("Temperature changed from " ++ d.printDouble bt ++ " to " ++ d.printDouble mt ++ ".")
          (d.doubleValue mt) (d.doubleValue bt) ev false false
  | _, _ => .skip

/-- A text in the metadata that is not the one of the baseline. -/
def observeMetadata (ev : TrackingEvent) (key : String) (expected : Option String)
    (alert : String → String → Watch DriftDetector) : Watch DriftDetector :=
  match expected, ev.metadataText key with
  | some b, some s => .when (b ≠ s) (alert b s)
  | _, _ => .skip

def observePrompt (ev : TrackingEvent) : Watch DriftDetector := .read fun t =>
  observeMetadata ev "prompt_hash" t.baseline.promptHash fun bp ph =>
    raiseDeterministic "prompt" .prompt .warning
      "System prompt hash differs from the tracked baseline." (.string ph) (.string bp) ev
      false true

def observePolicy (ev : TrackingEvent) : Watch DriftDetector := .read fun t =>
  match ev.policyResult.bind PolicyResult.policyId with
  | none => .skip
  | some pid =>
      .when (t.baseline.policyIds ≠ [] ∧ pid ∉ t.baseline.policyIds) <|
        raiseDeterministic ("policy:" ++ pid) .policy .warning
          ("Policy '" ++ pid ++ "' is not part of the tracked baseline.")
          (.string pid) (textValues (sortedStrs t.baseline.policyIds)) ev false true

def observeMemory (ev : TrackingEvent) : Watch DriftDetector := .read fun t =>
  observeMetadata ev "schema_version" t.baseline.memorySchemaVersion fun bv sv =>
    raiseDeterministic "memory_schema" .memorySchema .warning
      ("Memory schema version changed from '" ++ bv ++ "' to '" ++ sv ++ "'.")
      (.string sv) (.string bv) ev false true

def observeStep (ev : TrackingEvent) : Watch DriftDetector := .read fun t =>
  match ev.workflowStepId with
  | none => .skip
  | some step =>
      .when (t.baseline.workflowSteps ≠ [] ∧ step ∉ t.baseline.workflowSteps) <|
        raiseDeterministic ("workflow:" ++ step) .workflowTopology .warning
          ("Workflow step '" ++ step ++ "' is not in the baseline topology.")
          (.string step) (textValues (sortedStrs t.baseline.workflowSteps)) ev false false

def deterministic (ev : TrackingEvent) : Watch DriftDetector :=
  match ev.eventType with
  | .toolCallStarted | .toolCallCompleted => observeTool d ev
  | .modelCallStarted | .modelCallCompleted =>
      .seq (match ev.model with
        | none => .skip
        | some model => observeModel d ev model)
      (observePrompt ev)
  | .policyEvaluated => observePolicy ev
  | .memoryRead | .memoryWrite => observeMemory ev
  | .agentStepStarted => observeStep ev
  | _ => .skip

/-- What the classifier of behaviour sees, when there is one. -/
def behavioral (ev : TrackingEvent) : Watch DriftDetector := .read fun t =>
  match t.provider.bind fun classify => classify ev t.baseline with
  | none => .skip
  | some bd =>
      raise ("behav:" ++ bd.driftType.label ++ ":" ++ ev.eventId) bd.driftType "behavioral"
        bd.severity bd.message bd.observed bd.expected ev.eventId false
        (decide (bd.severity = .critical))

def observe (ev : TrackingEvent) : Watch DriftDetector := .read fun t =>
  .when (t.config.enabled = true) <|
    .seq (.when (t.config.deterministic = true) (deterministic d ev))
      (.when (t.config.behavioral = true) (behavioral ev))

end DriftDetector

/-! ## Intents -/

inductive IntentIssue where
  | intentShift
  | forbiddenIntent
  | unclearIntent
  | stepMismatch
  | permissionMismatch
  | escalationRequired
  deriving DecidableEq, Repr

def IntentIssue.label : IntentIssue → String
  | .intentShift => "intent_shift"
  | .forbiddenIntent => "forbidden_intent"
  | .unclearIntent => "unclear_intent"
  | .stepMismatch => "step_mismatch"
  | .permissionMismatch => "permission_mismatch"
  | .escalationRequired => "escalation_required"

def IntentIssue.action : IntentIssue → String
  | .forbiddenIntent =>
      "Halt the agent: a forbidden intent was observed. Review the trajectory before resuming."
  | .escalationRequired => "Route to a human reviewer before the agent proceeds."
  | _ => "Confirm the agent's objective still matches the task and behavior contract."

structure IntentConfig where
  enabled : Bool
  allowedIntents : List String
  forbiddenIntents : List String
  escalationIntents : List String
  stepIntents : List (String × List String)
  intentTools : List (String × List String)
  deriving DecidableEq

/-- How sure a classifier is, as a double: its exact value and how it is printed. -/
structure Confidence where
  value : ℚ
  text : String
  deriving DecidableEq

structure IntentClassification where
  intent : String
  confidence : Confidence

/-- From the step of the workflow or else from the tool. -/
def classifyDeterministically (ev : TrackingEvent) : Option IntentClassification :=
  match ev.workflowStepId with
  | some step => some { intent := step, confidence := ⟨1 / 2, "0.5"⟩ }
  | none => ev.tool.map fun tool =>
      { intent := "use_tool:" ++ tool.name
        confidence := ⟨3602879701896397 / 9007199254740992, "0.4"⟩ }

structure IntentTracker where
  sessionId : String
  config : IntentConfig
  provider : TrackingEvent → Option IntentClassification
  currentIntent : Option String
  alerted : List String

namespace IntentTracker

def new (sessionId : String) (config : IntentConfig) : IntentTracker where
  sessionId
  config
  provider := classifyDeterministically
  currentIntent := none
  alerted := []

/-- An alert about an intent, once for a key. -/
def raise (key : String) (issue : IntentIssue) (severity : AlertSeverity) (message : String)
    (expected observed : Value) (confidence : Confidence) (eid : String)
    (blocks review : Bool) : Watch IntentTracker := fun t =>
  let body : AlertBody :=
    { sessionId := t.sessionId
      kind := .intent
      severity
      title := "Intent issue: " ++ issue.label
      message
      observed := some observed
      expected := some expected
      evidenceEventIds := [eid]
      recommendedAction := some issue.action
      blocksRelease := blocks
      requiresHumanReview := review
      details := some
        (.object [("intent_issue", .string issue.label), ("expected_intent", expected),
          ("observed_intent", observed),
          ("confidence", .number (.float confidence.value confidence.text))]) }
  let (alerted, found) := raiseOnce t.alerted key body
  ({ t with alerted }, found)

/-- An event that names no intent. -/
def observeUnclear (ev : TrackingEvent) : Watch IntentTracker := .read fun t =>
  raise ("unclear:" ++ ev.eventId) .unclearIntent .warning
    "An intent.detected event carried no resolvable intent."
    (textValues t.config.allowedIntents) .null ⟨0, "0.0"⟩ ev.eventId false false

def observeForbidden (intent : String) (confidence : Confidence) (eid : String) :
    Watch IntentTracker := .read fun t =>
  .when (intent ∈ t.config.forbiddenIntents) <|
    raise ("forbidden:" ++ intent) .forbiddenIntent .critical
      ("Observed forbidden intent '" ++ intent ++ "'.")
      (textValues t.config.forbiddenIntents) (.string intent) confidence eid true true

/-- Guesses from the use of a tool are not held to the allowed set. -/
def observeAllowed (intent : String) (confidence : Confidence) (eid : String) :
    Watch IntentTracker := .read fun t =>
  .when (1 / 2 ≤ confidence.value ∧ t.config.allowedIntents ≠ []
      ∧ intent ∉ t.config.allowedIntents ∧ intent ∉ t.config.forbiddenIntents) <|
    raise ("not_allowed:" ++ intent) .intentShift .warning
      ("Observed intent '" ++ intent ++ "' is outside the declared allowed set.")
      (textValues t.config.allowedIntents) (.string intent) confidence eid false true

def observeEscalation (intent : String) (confidence : Confidence) (eid : String) :
    Watch IntentTracker := .read fun t =>
  .when (intent ∈ t.config.escalationIntents) <|
    raise ("escalate:" ++ intent) .escalationRequired .warning
      ("Intent '" ++ intent ++ "' requires human escalation.")
      (textValues t.config.escalationIntents) (.string intent) confidence eid false true

def observeStep (ev : TrackingEvent) (intent : String) (confidence : Confidence) :
    Watch IntentTracker := .read fun t =>
  match ev.workflowStepId with
  | none => .skip
  | some step =>
      match t.config.stepIntents.lookup step with
      | none => .skip
      | some allowed =>
          .when (intent ∉ allowed) <|
            raise ("step:" ++ step ++ ":" ++ intent) .stepMismatch .warning
              ("Intent '" ++ intent ++ "' does not match step '" ++ step ++ "' objective.")
              (textValues allowed) (.string intent) confidence ev.eventId false false

def observeTool (ev : TrackingEvent) (intent : String) (confidence : Confidence) :
    Watch IntentTracker := .read fun t =>
  match ev.tool with
  | none => .skip
  | some tool =>
      match t.config.intentTools.lookup intent with
      | none => .skip
      | some grant =>
          .when (tool.name ∉ grant) <|
            raise ("perm:" ++ intent ++ ":" ++ tool.name) .permissionMismatch .warning
              ("Intent '" ++ intent ++ "' used tool '" ++ tool.name ++ "' outside its grant.")
              (textValues grant) (.string tool.name) confidence ev.eventId false true

/-- Against the intent that was named last. -/
def observeShift (intent : String) (confidence : Confidence) (eid : String) :
    Watch IntentTracker :=
  .seq (.read fun t =>
    match t.currentIntent with
    | none => .skip
    | some prev =>
        .when (prev ≠ intent) <|
          raise ("shift:" ++ prev ++ "->" ++ intent) .intentShift .info
            ("Agent intent shifted from '" ++ prev ++ "' to '" ++ intent ++ "'.")
            (.string prev) (.string intent) confidence eid false false)
  (.update fun t => { t with currentIntent := some intent })

/-- The checks of an intent, named or guessed. -/
def observeIntent (ev : TrackingEvent) (intent : String) (confidence : Confidence)
    (explicit : Bool) : Watch IntentTracker :=
  .seq (observeForbidden intent confidence ev.eventId) <|
  .seq (observeAllowed intent confidence ev.eventId) <|
  .seq (observeEscalation intent confidence ev.eventId) <|
  .seq (observeStep ev intent confidence) <|
  .seq (observeTool ev intent confidence) <|
  .when (explicit = true) (observeShift intent confidence ev.eventId)

def observe (ev : TrackingEvent) : Watch IntentTracker := .read fun t =>
  .when (t.config.enabled = true) <|
    if ev.eventType = .intentDetected then
      match ev.intent with
      | some i =>
          if isBlank i = false then observeIntent ev i ⟨1, "1.0"⟩ true
          else observeUnclear ev
      | none => observeUnclear ev
    else
      match t.provider ev with
      | some c => observeIntent ev c.intent c.confidence false
      | none => .skip

end IntentTracker

end Agenomic.Track
