import Agenomic.Contract.Decode
import Agenomic.Policy.Evaluate
import Agenomic.Prompt.Content
import Agenomic.Track.Detectors

/-!
# The runtime harness

At the end of a session its events are held against the behavior contract and the policies of
the bundle, and against what they say themselves about denials and approvals. The verdict is
made from the checks and from the severities of all alerts (`passed_iff`).

An event whose policy input cannot be evaluated is passed over, and so is a check of the contract
that fails with less than a high severity. **`checkedWhenPassed_iff`**: where neither happens,
the harness passes only what was checked.
-/

namespace Agenomic.Track

open Lib Prompt
open Policy (Engine)
open Gate (PolicyBundle)
open Contract (BehaviorContract ContractEvaluation TraceEnvelope TraceViolation)

namespace AlertSeverity

def rank : AlertSeverity → Nat
  | .info => 0
  | .warning => 1
  | .critical => 2

/-- Project a platform severity onto the severities of alerts. -/
def fromPlatform : Rmp.Severity → AlertSeverity
  | .info | .low => .info
  | .medium | .high => .warning
  | .critical => .critical

/-- The worst of a list. -/
def worst : List AlertSeverity → Option AlertSeverity
  | [] => none
  | s :: rest =>
      match worst rest with
      | none => some s
      | some t => some (if t.rank < s.rank then s else t)

end AlertSeverity

def AlertKind.label : AlertKind → String
  | .drift => "drift"
  | .loop => "loop"
  | .intent => "intent"
  | .harness => "harness"
  | .policy => "policy"
  | .security => "security"

/-- A new alert; one of critical severity blocks the release and needs a review. -/
def AlertBody.new (sessionId : String) (kind : AlertKind) (severity : AlertSeverity)
    (title message : String) : AlertBody where
  sessionId
  kind
  severity
  title
  message
  observed := none
  expected := none
  evidenceEventIds := []
  recommendedAction := none
  blocksRelease := severity = .critical
  requiresHumanReview := severity = .critical
  details := none

/-- What the session is held against. -/
structure HarnessInputs where
  contract : Option BehaviorContract
  policy : Option PolicyBundle
  failOn : AlertSeverity

structure HarnessCheck where
  id : String
  name : String
  passed : Bool
  severity : AlertSeverity
  message : String
  evidenceEventIds : List String
  deriving DecidableEq

structure HarnessResult where
  passed : Bool
  checks : List HarnessCheck
  alerts : List Alert

/-- What a part of the evaluation adds. -/
structure Findings where
  checks : List HarnessCheck
  alerts : List AlertBody

namespace TrackingEvent

/-- A flag in the metadata of an event. -/
def metadataFlag (ev : TrackingEvent) (key : String) : Option Bool :=
  (ev.metadata.bind fun m => m.get key).bind asBool

/-- The input that a producer attached for the policies. -/
def policyInput (ev : TrackingEvent) : Option Value :=
  ev.metadata.bind fun m => m.get "policy_input"

end TrackingEvent

namespace PolicyResult

def eqIgnoreAsciiCase (a b : String) : Bool := a.toList.map Char.toLower = b.toList.map Char.toLower

def denied (pr : PolicyResult) : Bool := eqIgnoreAsciiCase pr.outcome "deny"

end PolicyResult

structure RuntimeHarness where
  sessionId : String

namespace RuntimeHarness

variable (h : RuntimeHarness) (e : Engine) (isJson : String → Bool)

/-- One trace for a session. -/
def projectTrace (events : List TrackingEvent) : TraceEnvelope where
  traceId := h.sessionId
  output := ((events.reverse.find? fun ev => ev.eventType = .agentCompleted).bind
    (·.redactedPreview)).map Contract.Sources.view
  toolCalls := (events.filter fun ev => ev.eventType = .toolCallCompleted).filterMap fun ev =>
    ev.tool.map fun t => ⟨t.name, ev.metadataFlag "approval_present"⟩
  metadata := none

/-- The evaluation of a contract, which does not fail. -/
def evaluateContract (contract : BehaviorContract) (traces : List TraceEnvelope) :
    CliResult ContractEvaluation :=
  .ok (Contract.evaluateContract isJson contract traces)

def failedChecks (eval : ContractEvaluation) : List TraceViolation :=
  eval.violationsByCheck.flatMap Prod.snd

/-- The part about the behavior contract. -/
def contractFindings (inputs : HarnessInputs) (events : List TrackingEvent) : Findings :=
  match inputs.contract with
  | none => ⟨[], []⟩
  | some contract =>
      match evaluateContract isJson contract [h.projectTrace events] with
      | .ok eval =>
          let failed := failedChecks eval
          let passed := eval.criticalCount == 0 && eval.highCount == 0
          { checks :=
              [{ id := "behavior_contract"
                 name := s!"Behavior contract '{eval.contractId}'"
                 passed
                 severity := if passed then .info else .critical
                 message :=
                   if passed then "All deterministic contract checks held."
                   else s!"{failed.length} contract violation(s)."
                 evidenceEventIds := [] }]
            alerts := failed.map fun v =>
              { AlertBody.new h.sessionId .harness (.fromPlatform v.severity)
                  s!"Contract violation: {v.checkId}" v.message with
                recommendedAction :=
                  some "Review the behavior contract rule and the offending output." } }
      | .error error =>
          { checks :=
              [{ id := "behavior_contract"
                 name := "Behavior contract"
                 passed := false
                 severity := .warning
                 message := s!"Contract evaluation error: {error.toText}"
                 evidenceEventIds := [] }]
            alerts := [] }

/-- A denial: the event, what denied, and why. -/
structure Denial where
  eventId : String
  label : String
  denies : List String

/-- The denials that the events report. -/
def reportedDenials (events : List TrackingEvent) : List Denial :=
  (events.filter fun ev => ev.eventType = .policyEvaluated).filterMap fun ev =>
    match ev.policyResult with
    | some pr =>
        if pr.denied then some ⟨ev.eventId, pr.policyId.getD "policy", pr.denies⟩ else none
    | none => none

/-- The denials of a bundle. An input that cannot be evaluated is passed over. -/
def bundleDenials (policy : PolicyBundle) (events : List TrackingEvent) : List Denial :=
  if policy.sources = [] then []
  else events.filterMap fun ev =>
    match ev.policyInput with
    | none => none
    | some ctx =>
        match e.evaluate policy ctx with
        | .ok decision =>
            if decision.allowed then none else some ⟨ev.eventId, "policy_bundle", decision.denies⟩
        | .error _ => none

def denials (inputs : HarnessInputs) (events : List TrackingEvent) : List Denial :=
  reportedDenials events ++ match inputs.policy with
    | some policy => bundleDenials e policy events
    | none => []

/-- There was a decision to evaluate. -/
def sawPolicy (inputs : HarnessInputs) (events : List TrackingEvent) : Bool :=
  events.any (fun ev => ev.eventType = .policyEvaluated)
    || inputs.policy.any fun policy => !policy.sources.isEmpty

def denialAlert (d : Denial) : AlertBody :=
  let reasons := String.intercalate "; " d.denies
  { AlertBody.new h.sessionId .policy .critical s!"Policy '{d.label}' denied"
      (if d.denies = [] then s!"Policy '{d.label}' returned deny."
        else s!"Policy '{d.label}' denied: {reasons}.") with
    evidenceEventIds := [d.eventId]
    blocksRelease := true
    requiresHumanReview := true
    recommendedAction := some "Block the effect and review the policy/permission grant." }

/-- The part about policies. -/
def policyFindings (inputs : HarnessInputs) (events : List TrackingEvent) : Findings :=
  let denied := denials e inputs events
  if sawPolicy inputs events then
    let passed := denied.isEmpty
    { checks :=
        [{ id := "policy"
           name := "Policy evaluation"
           passed
           severity := if passed then .info else .critical
           message :=
             if passed then "No policy denials observed."
             else s!"{denied.length} policy denial(s)."
           evidenceEventIds := denied.map Denial.eventId }]
      alerts := denied.map h.denialAlert }
  else ⟨[], []⟩

/-- The tool calls that went without an approval they required. -/
def approvalGaps (events : List TrackingEvent) : List String :=
  ((events.filter fun ev => ev.eventType = .toolCallCompleted).filter fun ev =>
    (ev.metadataFlag "requires_human_approval").getD false
      && !(ev.metadataFlag "approval_present").getD false).map (·.eventId)

/-- The part about approvals. -/
def approvalFindings (events : List TrackingEvent) : Findings :=
  let gaps := approvalGaps events
  if gaps = [] then ⟨[], []⟩
  else
    { checks :=
        [{ id := "human_approval_gates"
           name := "Human approval gates"
           passed := false
           severity := .critical
           message := s!"{gaps.length} tool call(s) executed without required human approval."
           evidenceEventIds := gaps }]
      alerts :=
        [{ AlertBody.new h.sessionId .security .critical "Missing human approval"
             "A tool requiring human approval executed without one." with
           evidenceEventIds := gaps
           blocksRelease := true
           requiresHumanReview := true
           recommendedAction :=
             some "Require a signed human approval before this tool can execute." }] }

/-- The alerts of a detector in one check. -/
def rollup (detectorAlerts : List Alert) (kind : AlertKind) (id name : String) : HarnessCheck :=
  let matched := detectorAlerts.filter fun a => a.body.kind = kind
  { id
    name
    passed := matched.isEmpty
    severity := (AlertSeverity.worst (matched.map (·.body.severity))).getD .info
    message :=
      if matched.isEmpty then s!"No {kind.label} alerts."
      else s!"{matched.length} {kind.label} alert(s)."
    evidenceEventIds := matched.flatMap (·.body.evidenceEventIds) }

def rollups (detectorAlerts : List Alert) : List HarnessCheck :=
  [ rollup detectorAlerts .drift "drift_violations" "Drift checks",
    rollup detectorAlerts .loop "loop_violations" "Loop checks",
    rollup detectorAlerts .intent "intent_violations" "Intent checks" ]

/-- A check that fails the harness. -/
def isHard (check : HarnessCheck) : Bool :=
  check.id ∈ ["behavior_contract", "policy", "human_approval_gates"]

/-- Evaluate the harness over a session. -/
def evaluate (mint : Nat → Stamp) (events : List TrackingEvent) (detectorAlerts : List Alert)
    (inputs : HarnessInputs) : HarnessResult :=
  let contract := h.contractFindings isJson inputs events
  let policy := h.policyFindings e inputs events
  let approval := h.approvalFindings events
  let checks := contract.checks ++ policy.checks ++ approval.checks ++ rollups detectorAlerts
  let alerts := stampAll mint (contract.alerts ++ policy.alerts ++ approval.alerts)
  { passed := (checks.filter isHard).all (·.passed)
      && !(detectorAlerts ++ alerts).any fun a => inputs.failOn.rank ≤ a.body.severity.rank
    checks
    alerts }

/-! ## What the verdict is made from -/

/-- A part of the evaluation does not fail the harness. -/
def Clear (failOn : AlertSeverity) (f : Findings) : Prop :=
  (∀ check ∈ f.checks, isHard check = true → check.passed = true)
    ∧ ∀ a ∈ f.alerts, a.severity.rank < failOn.rank

/-- The verdict, by the events and the inputs. -/
structure Passes (events : List TrackingEvent) (detectorAlerts : List Alert)
    (inputs : HarnessInputs) : Prop where
  contract : ∀ contract, inputs.contract = some contract → ∃ eval,
    evaluateContract isJson contract [h.projectTrace events] = .ok eval
      ∧ (eval.criticalCount = 0 ∧ eval.highCount = 0)
      ∧ ∀ v ∈ failedChecks eval, (AlertSeverity.fromPlatform v.severity).rank < inputs.failOn.rank
  reported : ∀ ev ∈ events, ev.eventType = .policyEvaluated → ∀ pr, ev.policyResult = some pr →
    pr.denied = false
  bundle : ∀ policy, inputs.policy = some policy → policy.sources ≠ [] → ∀ ev ∈ events,
    ∀ ctx, ev.policyInput = some ctx → ∀ decision, e.evaluate policy ctx = .ok decision →
      decision.allowed = true
  approvals : ∀ ev ∈ events, ev.eventType = .toolCallCompleted →
    ev.metadataFlag "requires_human_approval" = some true →
      ev.metadataFlag "approval_present" = some true
  detected : ∀ a ∈ detectorAlerts, a.body.severity.rank < inputs.failOn.rank

variable {h e isJson} {mint : Nat → Stamp} {events : List TrackingEvent}
  {detectorAlerts : List Alert} {inputs : HarnessInputs} {failOn : AlertSeverity}

theorem clear_nothing : Clear failOn ⟨[], []⟩ :=
  ⟨fun _ hc => absurd hc List.not_mem_nil, fun _ ha => absurd ha List.not_mem_nil⟩

theorem isHard_rollups {check : HarnessCheck} (hmem : check ∈ rollups detectorAlerts) :
    isHard check = false := by
  simp only [rollups, List.mem_cons, List.not_mem_nil, or_false] at hmem
  rcases hmem with rfl | rfl | rfl
  · rfl
  · rfl
  · rfl

/-- Every part has to be clear, and the detectors have to be quiet. -/
theorem passed_iff_clear : (h.evaluate e isJson mint events detectorAlerts inputs).passed = true ↔
    Clear inputs.failOn (h.contractFindings isJson inputs events)
      ∧ Clear inputs.failOn (h.policyFindings e inputs events)
      ∧ Clear inputs.failOn (h.approvalFindings events)
      ∧ ∀ a ∈ detectorAlerts, a.body.severity.rank < inputs.failOn.rank := by
  have hstamped : ∀ found : List AlertBody,
      (∀ a ∈ stampAll mint found, a.body.severity.rank < inputs.failOn.rank)
        ↔ ∀ body ∈ found, body.severity.rank < inputs.failOn.rank := by
    intro found
    have hall : (∀ body ∈ (stampAll mint found).map Alert.body,
        body.severity.rank < inputs.failOn.rank) ↔ _ := List.forall_mem_map
    rw [map_body_stampAll] at hall
    exact hall.symm
  have hrollups : ∀ check ∈ rollups detectorAlerts, isHard check = true → check.passed = true := by
    intro check hmem hhard
    rw [isHard_rollups hmem] at hhard
    cases hhard
  unfold evaluate Clear
  dsimp only
  rw [Bool.and_eq_true, List.all_eq_true, Bool.not_eq_true', ← Bool.not_eq_true, List.any_eq_true]
  simp only [List.mem_filter, and_imp, decide_eq_true_eq, not_exists, not_and, not_le]
  simp only [List.forall_mem_append, hstamped]
  tauto

theorem contract_clear : Clear inputs.failOn (h.contractFindings isJson inputs events) ↔
    ∀ contract, inputs.contract = some contract → ∃ eval,
      evaluateContract isJson contract [h.projectTrace events] = .ok eval
        ∧ (eval.criticalCount = 0 ∧ eval.highCount = 0)
        ∧ ∀ v ∈ failedChecks eval,
            (AlertSeverity.fromPlatform v.severity).rank < inputs.failOn.rank := by
  unfold contractFindings Clear
  cases hcontract : inputs.contract with
  | none => simp
  | some contract =>
      dsimp only
      cases heval : evaluateContract isJson contract [h.projectTrace events] with
      | error error => cases heval
      | ok eval =>
          simp only [List.mem_singleton, forall_eq, List.forall_mem_map, Option.some.injEq,
            forall_eq']
          have hhard : ∀ name passed severity message,
              isHard ⟨"behavior_contract", name, passed, severity, message, []⟩ = true := by
            intro name passed severity message
            rfl
          simp only [hhard, forall_const, Bool.and_eq_true, beq_iff_eq]
          constructor
          · intro hclear
            exact ⟨eval, heval, hclear⟩
          · rintro ⟨eval', heval', hclear⟩
            cases heval.symm.trans heval'
            exact hclear

theorem mem_reportedDenials {d : Denial} : d ∈ reportedDenials events ↔
    ∃ ev ∈ events, ev.eventType = .policyEvaluated ∧ ∃ pr, ev.policyResult = some pr
      ∧ pr.denied = true ∧ d = ⟨ev.eventId, pr.policyId.getD "policy", pr.denies⟩ := by
  unfold reportedDenials
  simp only [List.mem_filterMap, List.mem_filter, decide_eq_true_eq]
  constructor
  · rintro ⟨ev, ⟨hev, htype⟩, hd⟩
    cases hresult : ev.policyResult with
    | none =>
        rw [hresult] at hd
        cases hd
    | some pr =>
        rw [hresult] at hd
        dsimp only at hd
        by_cases hdenied : pr.denied = true
        · rw [if_pos hdenied] at hd
          exact ⟨ev, hev, htype, pr, hresult, hdenied, (Option.some.inj hd).symm⟩
        · rw [if_neg hdenied] at hd
          cases hd
  · rintro ⟨ev, hev, htype, pr, hresult, hdenied, rfl⟩
    refine ⟨ev, ⟨hev, htype⟩, ?_⟩
    rw [hresult]
    exact if_pos hdenied

theorem mem_bundleDenials {policy : PolicyBundle} {d : Denial} :
    d ∈ bundleDenials e policy events ↔ policy.sources ≠ [] ∧ ∃ ev ∈ events, ∃ ctx decision,
      ev.policyInput = some ctx ∧ e.evaluate policy ctx = .ok decision
        ∧ decision.allowed = false ∧ d = ⟨ev.eventId, "policy_bundle", decision.denies⟩ := by
  unfold bundleDenials
  by_cases hempty : policy.sources = []
  · rw [if_pos hempty]
    exact iff_of_false List.not_mem_nil fun h => h.1 hempty
  · rw [if_neg hempty, List.mem_filterMap]
    constructor
    · rintro ⟨ev, hev, hd⟩
      refine ⟨hempty, ev, hev, ?_⟩
      cases hinput : ev.policyInput with
      | none =>
          rw [hinput] at hd
          cases hd
      | some ctx =>
          rw [hinput] at hd
          dsimp only at hd
          cases heval : e.evaluate policy ctx with
          | error error =>
              rw [heval] at hd
              cases hd
          | ok decision =>
              rw [heval] at hd
              dsimp only at hd
              by_cases hallowed : decision.allowed = true
              · rw [if_pos hallowed] at hd
                cases hd
              · rw [if_neg hallowed] at hd
                exact ⟨ctx, decision, rfl, heval, Bool.eq_false_of_not_eq_true hallowed,
                  (Option.some.inj hd).symm⟩
    · rintro ⟨-, ev, hev, ctx, decision, hinput, heval, hallowed, rfl⟩
      refine ⟨ev, hev, ?_⟩
      rw [hinput]
      dsimp only
      rw [heval]
      dsimp only
      rw [hallowed]
      rfl

/-- Nothing is denied, by the events and by the bundle. -/
theorem denials_eq_nil : denials e inputs events = [] ↔
    (∀ ev ∈ events, ev.eventType = .policyEvaluated → ∀ pr, ev.policyResult = some pr →
      pr.denied = false)
    ∧ ∀ policy, inputs.policy = some policy → policy.sources ≠ [] → ∀ ev ∈ events,
        ∀ ctx, ev.policyInput = some ctx → ∀ decision, e.evaluate policy ctx = .ok decision →
          decision.allowed = true := by
  unfold denials
  rw [List.append_eq_nil_iff]
  refine and_congr ?_ ?_
  · rw [List.eq_nil_iff_forall_not_mem]
    constructor
    · intro hnone ev hev htype pr hresult
      by_contra hdenied
      rw [Bool.not_eq_false] at hdenied
      exact hnone _ (mem_reportedDenials.mpr ⟨ev, hev, htype, pr, hresult, hdenied, rfl⟩)
    · intro hall d hd
      obtain ⟨ev, hev, htype, pr, hresult, hdenied, -⟩ := mem_reportedDenials.mp hd
      rw [hall ev hev htype pr hresult] at hdenied
      cases hdenied
  · cases hpolicy : inputs.policy with
    | none => simp
    | some policy =>
        dsimp only
        rw [List.eq_nil_iff_forall_not_mem]
        constructor
        · intro hnone policy' heq hsources ev hev ctx hinput decision heval
          cases heq
          by_contra hallowed
          rw [Bool.not_eq_true] at hallowed
          exact hnone _ (mem_bundleDenials.mpr
            ⟨hsources, ev, hev, ctx, decision, hinput, heval, hallowed, rfl⟩)
        · intro hall d hd
          obtain ⟨hsources, ev, hev, ctx, decision, hinput, heval, hallowed, -⟩ :=
            mem_bundleDenials.mp hd
          rw [hall policy rfl hsources ev hev ctx hinput decision heval] at hallowed
          cases hallowed

/-- A denial is a decision. -/
theorem denials_eq_nil_of_not_sawPolicy (hsaw : sawPolicy inputs events = false) :
    denials e inputs events = [] := by
  unfold sawPolicy at hsaw
  rw [Bool.or_eq_false_iff, List.any_eq_false] at hsaw
  obtain ⟨hevents, hpolicy⟩ := hsaw
  refine denials_eq_nil.mpr ⟨fun ev hev htype => ?_, fun policy heq hsources => ?_⟩
  · exact absurd (decide_eq_true htype) (hevents ev hev)
  · rw [heq, Option.any_some, Bool.not_eq_false', List.isEmpty_iff] at hpolicy
    exact absurd hpolicy hsources

theorem policy_clear :
    Clear failOn (h.policyFindings e inputs events) ↔ denials e inputs events = [] := by
  unfold policyFindings Clear
  dsimp only
  by_cases hsaw : sawPolicy inputs events = true
  · rw [if_pos hsaw]
    dsimp only
    simp only [List.mem_singleton, forall_eq]
    constructor
    · intro hclear
      exact List.isEmpty_iff.mp (hclear.1 rfl)
    · intro hnone
      rw [hnone]
      exact ⟨fun _ => rfl, fun a ha => by cases ha⟩
  · rw [if_neg hsaw]
    refine iff_of_true clear_nothing ?_
    exact denials_eq_nil_of_not_sawPolicy (Bool.eq_false_of_not_eq_true hsaw)

theorem approvalGaps_eq_nil : approvalGaps events = [] ↔
    ∀ ev ∈ events, ev.eventType = .toolCallCompleted →
      ev.metadataFlag "requires_human_approval" = some true →
        ev.metadataFlag "approval_present" = some true := by
  have hflag : ∀ flag : Option Bool, flag.getD false = true ↔ flag = some true := by
    intro flag
    cases flag with
    | none => simp
    | some b => simp
  unfold approvalGaps
  rw [List.map_eq_nil_iff, List.filter_eq_nil_iff]
  simp only [List.mem_filter, decide_eq_true_eq, Bool.and_eq_true, Bool.not_eq_true', hflag,
    ← Bool.not_eq_true, not_and, not_not, and_imp]

theorem approval_clear :
    Clear failOn (h.approvalFindings events) ↔ approvalGaps events = [] := by
  unfold approvalFindings Clear
  dsimp only
  by_cases hgaps : approvalGaps events = []
  · rw [if_pos hgaps]
    exact iff_of_true clear_nothing hgaps
  · rw [if_neg hgaps]
    refine iff_of_false (fun hclear => ?_) hgaps
    exact Bool.false_ne_true (hclear.1 _ (List.mem_singleton.mpr rfl) rfl)

/-- **What the verdict is made from**: the contract's counts and the severities of its failed
checks, the denials, the missing approvals and the alerts of the detectors. -/
theorem passed_iff : (h.evaluate e isJson mint events detectorAlerts inputs).passed = true ↔
    h.Passes e isJson events detectorAlerts inputs := by
  rw [passed_iff_clear, contract_clear, policy_clear, approval_clear, approvalGaps_eq_nil,
    denials_eq_nil]
  constructor
  · rintro ⟨hcontract, ⟨hreported, hbundle⟩, happrovals, hdetected⟩
    exact ⟨hcontract, hreported, hbundle, happrovals, hdetected⟩
  · rintro ⟨hcontract, hreported, hbundle, happrovals, hdetected⟩
    exact ⟨hcontract, ⟨hreported, hbundle⟩, happrovals, hdetected⟩

/-! ## What has been checked -/

/-- Everything was checked and found in order. Of the evaluation of a contract, `held` is asked:
that no check failed, or no check that counts. -/
structure Checked (h : RuntimeHarness) (e : Engine) (isJson : String → Bool)
    (held : ContractEvaluation → Prop) (events : List TrackingEvent) (detectorAlerts : List Alert)
    (inputs : HarnessInputs) (result : HarnessResult) : Prop where
  policies : ∀ policy, inputs.policy = some policy → policy.sources ≠ [] → ∀ ev ∈ events,
    ∀ ctx, ev.policyInput = some ctx →
      ∃ decision, e.evaluate policy ctx = .ok decision ∧ decision.allowed = true
  reported : ∀ ev ∈ events, ev.eventType = .policyEvaluated → ∀ pr, ev.policyResult = some pr →
    pr.denied = false
  approvals : ∀ ev ∈ events, ev.eventType = .toolCallCompleted →
    ev.metadataFlag "requires_human_approval" = some true →
      ev.metadataFlag "approval_present" = some true
  contract : ∀ contract, inputs.contract = some contract →
    ∃ eval, evaluateContract isJson contract [h.projectTrace events] = .ok eval ∧ held eval
  alerts : ∀ a ∈ detectorAlerts ++ result.alerts, a.body.severity.rank < inputs.failOn.rank

/-- No policy input fails to be evaluated, and what is asked of the contract holds. -/
structure Sound (h : RuntimeHarness) (e : Engine) (isJson : String → Bool)
    (held : ContractEvaluation → Prop) (events : List TrackingEvent) (inputs : HarnessInputs) :
    Prop where
  evaluated : ∀ policy, inputs.policy = some policy → policy.sources ≠ [] → ∀ ev ∈ events,
    ∀ ctx, ev.policyInput = some ctx → ∃ decision, e.evaluate policy ctx = .ok decision
  held : ∀ contract, inputs.contract = some contract → ∀ eval,
    evaluateContract isJson contract [h.projectTrace events] = .ok eval → held eval

/-- No alert of a harness that passes reaches the severity that fails it. -/
theorem alerts_of_passed
    (hpassed : (h.evaluate e isJson mint events detectorAlerts inputs).passed = true) :
    ∀ a ∈ detectorAlerts ++ (h.evaluate e isJson mint events detectorAlerts inputs).alerts,
      a.body.severity.rank < inputs.failOn.rank := by
  unfold evaluate at hpassed ⊢
  dsimp only at hpassed ⊢
  rw [Bool.and_eq_true, Bool.not_eq_true', List.any_eq_false] at hpassed
  intro a ha
  have hlt := hpassed.2 a ha
  rwa [decide_eq_true_eq, not_le] at hlt

/-- **The harness passes only what was checked** exactly when it does not pass, or every policy
input is evaluated and the contract holds as it is asked to. -/
theorem checkedWhenPassed_iff (h : RuntimeHarness) (e : Engine) (isJson : String → Bool)
    (held : ContractEvaluation → Prop) (mint : Nat → Stamp) (events : List TrackingEvent)
    (detectorAlerts : List Alert) (inputs : HarnessInputs) :
    ((h.evaluate e isJson mint events detectorAlerts inputs).passed = true →
      h.Checked e isJson held events detectorAlerts inputs
        (h.evaluate e isJson mint events detectorAlerts inputs)) ↔
    ¬ h.Passes e isJson events detectorAlerts inputs ∨ h.Sound e isJson held events inputs := by
  rw [← passed_iff]
  constructor
  · intro hchecked
    by_cases hpassed : (h.evaluate e isJson mint events detectorAlerts inputs).passed = true
    · right
      have hall := hchecked hpassed
      refine ⟨fun policy heq hsources ev hev ctx hinput => ?_, fun contract heq eval heval => ?_⟩
      · obtain ⟨decision, hok, -⟩ := hall.policies policy heq hsources ev hev ctx hinput
        exact ⟨decision, hok⟩
      · obtain ⟨eval', heval', hheld⟩ := hall.contract contract heq
        cases heval.symm.trans heval'
        exact hheld
    · exact .inl hpassed
  · rintro (hnot | hsound) hpassed
    · exact absurd hpassed hnot
    · have hpasses := passed_iff.mp hpassed
      refine ⟨?_, hpasses.reported, hpasses.approvals, ?_, alerts_of_passed hpassed⟩
      · intro policy heq hsources ev hev ctx hinput
        obtain ⟨decision, hok⟩ := hsound.evaluated policy heq hsources ev hev ctx hinput
        exact ⟨decision, hok,
          hpasses.bundle policy heq hsources ev hev ctx hinput decision hok⟩
      · intro contract heq
        obtain ⟨eval, heval, -⟩ := hpasses.contract contract heq
        exact ⟨eval, heval, hsound.held contract heq eval heval⟩

/-- An event whose producer attached an input for the policies. -/
def gatedEvent : TrackingEvent where
  eventId := "evt-1"
  sessionId := "s1"
  timestamp := 0
  sequenceNumber := 1
  eventType := .toolCallCompleted
  parentEventId := none
  agentId := "agent://a/b"
  genomeHash := none
  workflowStepId := none
  tool := some ⟨"wire_transfer", none, none, []⟩
  model := none
  inputHash := none
  outputHash := none
  redactedPreview := none
  policyResult := none
  intent := none
  prevEventHash := none
  eventHash := none
  signature := none
  metadata := some (.object [("policy_input", .object [("amount", .number (.int 1000000))])])

/-- A policy that does not compile. -/
def brokenPolicy : PolicyBundle := ⟨[("gate.rego", "package agenomic\nallow if input.amount <")]⟩

/-- An engine that finds so. -/
def brokenEngine : Engine where
  State := Unit
  Rego := Value
  new := ()
  addPolicy := fun _ _ _ => .error "parse error"
  setInput := fun _ _ => .ok ()
  evalAllowQuery := fun _ => (false, ())
  evalRule := fun _ => .error .noRule
  toValue := .ok

/-- A policy that does not compile is no policy: what it was to gate passes. -/
theorem not_checkedWhenPassed :
    let h : RuntimeHarness := ⟨"s1"⟩
    let inputs : HarnessInputs := ⟨none, some brokenPolicy, .critical⟩
    let result := h.evaluate brokenEngine (fun _ => true) (fun _ => ⟨"", 0⟩) [gatedEvent] [] inputs
    ¬ (result.passed = true → h.Checked brokenEngine (fun _ => true)
      (fun eval => failedChecks eval = []) [gatedEvent] [] inputs result) := by
  intro h inputs result hchecked
  have hpassed : result.passed = true := by rfl
  obtain ⟨decision, hok, -⟩ := (hchecked hpassed).policies _ rfl (by decide) gatedEvent
    List.mem_cons_self _ rfl
  cases hok

end RuntimeHarness

end Agenomic.Track
