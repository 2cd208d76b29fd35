import Agenomic.Lib.Groups
import Agenomic.Lib.Sorted
import Agenomic.Rmp.Monitor

/-!
# The protect engine

A pass takes the findings of a session and raises anomalies of its own from patterns among
them. All of these, most severe first, are grouped into alerts by a text made of the label of
the kind, the agent and the title; recommendations are taken from templates, each kind and
title once; and every alert that is severe enough gets a plan with the recommendations whose
source is among its findings. Ids are made up by the pass; the times that go with them are
left out, but for those of the findings.
-/

namespace Agenomic.Rmp.Protect

open Lib

/-! ## Routing -/

/-- One routing rule. -/
structure RouteRule where
  /-- The label of a kind of finding, or `*` for any. -/
  kind : String
  minSeverity : Severity
  target : String
  channel : String
  deriving DecidableEq

structure AlertRoute where
  target : String
  channel : String
  deriving DecidableEq

/-- Rules in order, and the route where none of them matches. -/
structure AlertRouter where
  rules : List RouteRule :=
    [⟨"policy_violation", .medium, "security-oncall", "pagerduty"⟩,
      ⟨"anomaly", .high, "security-oncall", "pagerduty"⟩,
      ⟨"drift", .medium, "ml-platform", "slack"⟩,
      ⟨"loop", .medium, "agent-owners", "slack"⟩]
  defaultTarget : String := "agent-owners"
  defaultChannel : String := "slack"
  deriving DecidableEq

/-- The routes for a kind of finding and a severity. -/
def AlertRouter.routesFor (router : AlertRouter) (kindLabel : String) (severity : Severity) :
    List AlertRoute :=
  let matching := router.rules.filter fun r =>
    (r.kind = "*" || r.kind = kindLabel) && decide (r.minSeverity ≤ severity)
  let routes : List AlertRoute :=
    if matching = [] then [⟨router.defaultTarget, router.defaultChannel⟩]
    else matching.map fun r => ⟨r.target, r.channel⟩
  routes.destutter (· ≠ ·)

def defaultThrottleLimit : Nat := 3

/-- Protect configuration. -/
structure ProtectConfig where
  router : AlertRouter := {}
  /-- Notifications for a group in a pass, at most. -/
  throttleLimit : Nat := defaultThrottleLimit
  /-- Alerts at or above this severity escalate. -/
  escalateAt : Severity := .critical
  repeatedFailureThreshold : Nat := 3
  deriving DecidableEq

/-! ## What a pass makes -/

/-- What the risk matrix says of how the agent acts. -/
structure AgentTypeAssessment where
  autonomyLevel : ℚ
  humanInTheLoop : Bool
  deriving DecidableEq

structure RiskMatrix where
  assessment : Option AgentTypeAssessment
  deriving DecidableEq

inductive RmpSessionStatus where
  | active | completed | cancelled | failed
  deriving DecidableEq

structure ProtectSession where
  specVersion : String
  sessionId : String
  agentId : String
  status : RmpSessionStatus
  deriving DecidableEq

inductive AlertStatus where
  | «open» | acknowledged | resolved | suppressed
  deriving DecidableEq

structure Alert where
  specVersion : String
  alertId : String
  sessionId : String
  agentId : String
  severity : Severity
  status : AlertStatus
  title : String
  message : String
  findingIds : List String
  dedupKey : String
  occurrenceCount : Nat
  routes : List AlertRoute
  evidenceRefs : List String
  throttled : Bool
  escalated : Bool
  deriving DecidableEq

/-- The kind of change a recommendation proposes. -/
inductive RecommendationKind where
  | promptImprovement | policyChange | contractChange | workflowGuardrail | toolPermissionChange
  | humanApprovalGate | replayScenario | riskMatrixUpdate | releaseRollback
  | monitoringThresholdUpdate | harnessRuleUpdate
  deriving DecidableEq

/-- These kinds always need human approval. -/
def RecommendationKind.isHighImpact (kind : RecommendationKind) : Bool :=
  kind ∈ [policyChange, contractChange, toolPermissionChange, releaseRollback, workflowGuardrail]

structure Recommendation where
  specVersion : String
  recommendationId : String
  sessionId : String
  agentId : String
  kind : RecommendationKind
  severity : Severity
  title : String
  rationale : String
  requiresHumanApproval : Bool
  status : String
  sourceFindingIds : List String
  evidenceRefs : List String
  deriving DecidableEq

/-- The id of a proposed scenario and of its finding. -/
structure ScenarioEnrichmentProposal where
  proposalId : String
  sourceFindingId : String
  deriving DecidableEq

structure ActionPlanStep where
  stepId : String
  order : Nat
  title : String
  description : String
  phase : String
  requiresHumanApproval : Bool
  recommendationIds : List String
  status : String
  deriving DecidableEq

structure ActionPlan where
  specVersion : String
  planId : String
  alertId : String
  sessionId : String
  agentId : String
  severity : Severity
  title : String
  steps : List ActionPlanStep
  scenarioProposalIds : List String
  evidenceRefs : List String
  deriving DecidableEq

structure ProtectOutcome where
  specVersion : String
  session : ProtectSession
  /-- The findings of the pass itself. -/
  anomalyFindings : List MonitorFinding
  alerts : List Alert
  recommendations : List Recommendation
  actionPlans : List ActionPlan
  scenarioProposals : List ScenarioEnrichmentProposal
  deriving DecidableEq

/-- The ids a pass makes up, in the order in which it needs them. -/
structure Ids where
  session : String
  finding : Nat → FindingStamp
  alert : Nat → String
  recommendation : Nat → String
  proposal : Nat → String
  plan : Nat → String
  /-- By plan and step. -/
  step : Nat → Nat → String

def rmpSpecVersion : String := "agenomic.rmp/v0.1"

variable (config : ProtectConfig) (ids : Ids)

/-! ## Anomalies -/

/-- A finding of the pass. -/
def newFinding (agentId : String) (kind : FindingKind) (severity : Severity)
    (title message : String) (evidenceRefs : List String) : FindingBody where
  specVersion := rmpSpecVersion
  loopStage := "protect"
  sessionId := ids.session
  agentId
  genomeHash := none
  kind
  severity
  title
  message
  riskIds := []
  evidenceRefs
  observed := none
  expected := none
  recommendedAction := none
  blocksRelease := severity = .critical
  requiresHumanReview := severity = .critical || severity = .high
  details := none

def isFailure (f : MonitorFinding) : Bool :=
  f.body.kind = .failure || f.body.kind = .harnessViolation

/-- The finding is critical and waits for a human. -/
def isUnapproved (f : MonitorFinding) : Bool :=
  f.body.requiresHumanReview && decide (Severity.critical ≤ f.body.severity)

def isRisky (f : MonitorFinding) : Bool :=
  f.body.kind = .intentShift || f.body.kind = .forbiddenIntent || f.body.kind = .policyViolation

/-- As many failures as the threshold become one anomaly. -/
def repeatedFailures (agentId : String) (findings : List MonitorFinding) : List FindingBody :=
  let failures := findings.filter isFailure
  if config.repeatedFailureThreshold ≤ failures.length then
    [newFinding ids agentId .repeatedFailure .high s!"{failures.length} failures in one session"
      ("repeated failures exceed the configured threshold; the agent is "
        ++ "likely stuck in a degraded state")
      (failures.map (·.stamp.findingId))]
  else []

def missingApproval (agentId : String) (findings : List MonitorFinding) : List FindingBody :=
  let unapproved := findings.filter isUnapproved
  if unapproved = [] then []
  else
    [newFinding ids agentId .missingHumanApproval .critical
      "Critical finding awaiting human review"
      s!"{unapproved.length} critical finding(s) require human review before release"
      (unapproved.map (·.stamp.findingId))]

/-- Findings on intent or policy, for an agent that acts without a human in the loop. -/
def dangerousAutonomy (agentId : String) (findings : List MonitorFinding)
    (riskMatrix : Option RiskMatrix) : List FindingBody :=
  match riskMatrix.bind (·.assessment) with
  | none => []
  | some assessment =>
      if findings.any isRisky && !assessment.humanInTheLoop
          && decide (1 / 2 < assessment.autonomyLevel) then
        [newFinding ids agentId .dangerousAutonomy .critical
          "Autonomous agent violated intent/policy boundaries"
          ("an agent with high autonomy and no human in the loop produced "
            ++ "intent or policy findings; add a human approval gate")
          []]
      else []

def detectAnomalies (agentId : String) (findings : List MonitorFinding)
    (riskMatrix : Option RiskMatrix) : List MonitorFinding :=
  let bodies := repeatedFailures config ids agentId findings
    ++ missingApproval ids agentId findings ++ dangerousAutonomy ids agentId findings riskMatrix
  bodies.mapIdx fun i body => ⟨ids.finding i, body⟩

/-- All that can become an alert. -/
def candidates (agentId : String) (findings : List MonitorFinding)
    (riskMatrix : Option RiskMatrix) : List MonitorFinding :=
  findings ++ detectAnomalies config ids agentId findings riskMatrix

/-- What findings are sorted by: the most severe first, then by the label of the kind, then
by id. -/
def rank (f : MonitorFinding) : Severityᵒᵈ ×ₗ String ×ₗ String :=
  toLex (OrderDual.toDual f.body.severity, toLex (f.body.kind.label, f.stamp.findingId))

def sorted (findings : List MonitorFinding) : List MonitorFinding :=
  findings.insertionSort fun a b => rank a ≤ rank b

/-! ## Alerts -/

/-- The text that findings are grouped by. -/
def dedupKey (f : MonitorFinding) : String :=
  s!"{f.body.kind.label}:{f.body.agentId}:{f.body.title}"

/-- The highest severity in a group. -/
def worst (first : MonitorFinding) (group : List MonitorFinding) : Severity :=
  group.foldl (fun s f => max s f.body.severity) first.body.severity

/-- The alert for a group, of which the first finding is given. -/
def alertOf (agentId : String) (i : Nat) (key : String) (first : MonitorFinding)
    (group : List MonitorFinding) : Alert where
  specVersion := rmpSpecVersion
  alertId := ids.alert i
  sessionId := ids.session
  agentId
  severity := worst first group
  status := .open
  title := first.body.title
  message := first.body.message
  findingIds := group.map (·.stamp.findingId)
  dedupKey := key
  occurrenceCount := group.length
  routes := config.router.routesFor first.body.kind.label (worst first group)
  evidenceRefs := sortDedup (· ≤ ·) (group.flatMap (·.body.evidenceRefs))
  throttled := decide (config.throttleLimit < group.length)
  escalated := decide (config.escalateAt ≤ worst first group)

/-- What alerts are sorted by: the most severe first, then by key. -/
def alertRank (a : Alert) : Severityᵒᵈ ×ₗ String :=
  toLex (OrderDual.toDual a.severity, a.dedupKey)

def generateAlerts (agentId : String) (findings : List MonitorFinding) : List Alert :=
  let alerts := (groups dedupKey findings).mapIdx fun i g =>
    -- no group is empty
    g.2.head?.map fun first => alertOf config ids agentId i g.1 first g.2
  (alerts.filterMap id).insertionSort fun a b => alertRank a ≤ alertRank b

/-! ## Recommendations -/

structure Template where
  kind : RecommendationKind
  title : String
  rationale : String
  deriving DecidableEq

/-- What is recommended for a finding. -/
def recommendationTemplates (f : MonitorFinding) : List Template :=
  let src := f.body.title
  match f.body.kind with
  | .drift =>
      [⟨.monitoringThresholdUpdate, s!"Tighten drift baseline after: {src}",
          "confirm whether the drifted surface is intentional; if not, roll back, "
            ++ "if yes, refresh the release baseline"⟩,
        ⟨.replayScenario, s!"Add drift regression scenario for: {src}",
          "pin the expected surface in a replay scenario so the drift cannot recur "
            ++ "silently"⟩]
  | .loop =>
      [⟨.workflowGuardrail, s!"Add loop guardrail for: {src}",
          "bound repeated tool calls / iterations in the workflow configuration"⟩,
        ⟨.replayScenario, s!"Add loop regression scenario for: {src}",
          "replay the looping sequence as a regression scenario"⟩]
  | .intentShift | .forbiddenIntent =>
      [⟨.promptImprovement, s!"Clarify intent boundaries in the prompt: {src}",
          "the system prompt should state the allowed intents explicitly"⟩,
        ⟨.humanApprovalGate, s!"Gate intent escalations behind approval: {src}",
          "route out-of-scope intents to a human before the agent acts"⟩]
  | .policyViolation | .harnessViolation =>
      [⟨.policyChange, s!"Review policy rule that fired: {src}",
          "confirm the deny is correct, then add a policy test so the rule stays "
            ++ "enforced"⟩,
        ⟨.harnessRuleUpdate, s!"Add harness rule for: {src}",
          "encode the violated expectation as a runtime harness check"⟩]
  | .toolMisuse | .dangerousAutonomy =>
      [⟨.toolPermissionChange, s!"Restrict tool permissions after: {src}",
          "narrow the tool allow-list or scope the tool's permissions"⟩,
        ⟨.humanApprovalGate, s!"Require approval for sensitive tools: {src}",
          "sensitive/irreversible tools should require a recorded human approval"⟩]
  | .repeatedFailure | .failure =>
      [⟨.releaseRollback, s!"Consider rollback after repeated failures: {src}",
          "repeated failures on a fresh release usually indicate a regression; roll "
            ++ "back to the last attested release"⟩]
  | .replayDivergence | .lowReplayFidelity =>
      [⟨.riskMatrixUpdate, s!"Record replay-fidelity risk: {src}",
          "low replay fidelity weakens release evidence; track it as an explicit risk"⟩]
  | .missingHumanApproval =>
      [⟨.humanApprovalGate, s!"Enforce the missing approval gate: {src}",
          "an approval that should have been recorded was absent; enforce it at the "
            ++ "tool boundary gate"⟩]
  | .anomaly | .memoryMisuse | .suspiciousOutput | .unexpectedWorkflowTransition =>
      [⟨.contractChange, s!"Add behavior-contract check for: {src}",
          "encode the expected behavior as a deterministic contract rule"⟩]
  | .riskGap | .coverageGap =>
      [⟨.riskMatrixUpdate, s!"Update the risk matrix: {src}",
          "close the identified gap in the risk matrix and cover it with a scenario"⟩]
  | .contractViolation | .regression | .scenarioFailure | .other => []

/-- The recommendation that a template makes for a finding. -/
def recommendationOf (agentId : String) (i : Nat) (f : MonitorFinding) (t : Template) :
    Recommendation where
  specVersion := rmpSpecVersion
  recommendationId := ids.recommendation i
  sessionId := ids.session
  agentId
  kind := t.kind
  severity := f.body.severity
  title := t.title
  rationale := t.rationale
  requiresHumanApproval :=
    t.kind.isHighImpact || f.body.severity = .high || f.body.severity = .critical
  status := "proposed"
  sourceFindingIds := [f.stamp.findingId]
  evidenceRefs := f.body.evidenceRefs

/-- Take up a template, unless its kind and title were seen. -/
def takeTemplate (agentId : String) (f : MonitorFinding)
    (state : List (RecommendationKind × String) × List Recommendation) (t : Template) :
    List (RecommendationKind × String) × List Recommendation :=
  if (t.kind, t.title) ∈ state.1 then state
  else (state.1 ++ [(t.kind, t.title)],
    state.2 ++ [recommendationOf ids agentId state.2.length f t])

def recommend (agentId : String) (findings : List MonitorFinding) : List Recommendation :=
  (findings.foldl
    (fun state f => (recommendationTemplates f).foldl (takeTemplate ids agentId f) state)
    ([], [])).2

/-! ## Plans -/

/-- A scenario is proposed for findings of these kinds. -/
def isProposed (f : MonitorFinding) : Bool :=
  match f.body.kind with
  | .riskGap | .contractViolation | .regression | .scenarioFailure | .coverageGap | .other => false
  | _ => true

def proposalsFromFindings (findings : List MonitorFinding) : List ScenarioEnrichmentProposal :=
  (findings.filter isProposed).mapIdx fun i f => ⟨ids.proposal i, f.stamp.findingId⟩

/-- A step without its place in the plan. -/
def step (title description phase : String) (approval : Bool) (recIds : List String) :
    ActionPlanStep where
  stepId := ""
  order := 0
  title
  description
  phase
  requiresHumanApproval := approval
  recommendationIds := recIds
  status := "pending"

/-- The recommendations with a source among the findings of an alert. -/
def relatedRecs (alert : Alert) (recommendations : List Recommendation) : List Recommendation :=
  recommendations.filter fun r => r.sourceFindingIds.any fun id => alert.findingIds.contains id

def remediation (r : Recommendation) : ActionPlanStep :=
  step s!"Apply recommendation: {r.title}" r.rationale "remediate" r.requiresHumanApproval
    [r.recommendationId]

/-- The steps of a plan, in order. -/
def planSteps (alert : Alert) (recommendations : List Recommendation) : List ActionPlanStep :=
  [step s!"Triage: {alert.title}"
      (s!"Review the alert evidence ({alert.evidenceRefs.length} reference(s)) "
        ++ "and confirm the incident scope.")
      "investigate" false []]
    ++ (if Severity.critical ≤ alert.severity then
      [step "Contain: pause or constrain the agent"
        ("For critical incidents, gate the affected tools or pause the release while "
          ++ "the incident is investigated.")
        "mitigate" true []]
      else [])
    ++ (relatedRecs alert recommendations).map remediation
    ++ [step "Verify via replay"
        ("Re-run Review with the enriched scenario corpus and confirm the finding no "
          ++ "longer reproduces.")
        "verify" false [],
      step "Document and export evidence"
        ("Export the RMP evidence bundle (including the ledger proof when enabled) for "
          ++ "the audit trail.")
        "document" false []]

/-- The plan for an alert. -/
def actionPlan (i : Nat) (alert : Alert) (recommendations : List Recommendation)
    (proposals : List ScenarioEnrichmentProposal) : ActionPlan where
  specVersion := rmpSpecVersion
  planId := ids.plan i
  alertId := alert.alertId
  sessionId := alert.sessionId
  agentId := alert.agentId
  severity := alert.severity
  title := s!"Action plan: {alert.title}"
  steps := (planSteps alert recommendations).mapIdx fun j s =>
    { s with stepId := ids.step i j, order := j + 1 }
  scenarioProposalIds :=
    (proposals.filter fun p => alert.findingIds.contains p.sourceFindingId).map (·.proposalId)
  evidenceRefs := alert.evidenceRefs

/-- A protect pass; it never fails. -/
def run (agentId : String) (findings : List MonitorFinding) (riskMatrix : Option RiskMatrix) :
    ProtectOutcome :=
  let all := sorted (candidates config ids agentId findings riskMatrix)
  let alerts := generateAlerts config ids agentId all
  let recommendations := recommend ids agentId all
  let scenarioProposals := proposalsFromFindings ids all
  { specVersion := rmpSpecVersion
    session := ⟨rmpSpecVersion, ids.session, agentId, .completed⟩
    anomalyFindings := detectAnomalies config ids agentId findings riskMatrix
    alerts
    recommendations
    actionPlans := (alerts.filter fun a => Severity.high ≤ a.severity).mapIdx fun i a =>
      actionPlan ids i a recommendations scenarioProposals
    scenarioProposals }

end Agenomic.Rmp.Protect
