import Agenomic.Contract.Replay
import Agenomic.Rmp.Monitor
import Agenomic.Rmp.RiskMatrix
import Agenomic.Track.Harness

/-!
# The review engine

One review pass folds the approved proposals into the scenarios, marks coverage on the
risk matrix, replays the traces, and makes findings of what it sees. The score subtracts
a weight for every finding and a part of the release risk; the recommendation follows
from the severities, the release risk and a comparison with earlier scores.

`Evidence` is what the outcome depends on: the severities found, the release risk,
whether the replay failed, and the best earlier score. **`outcome_of_run`** reads score and
recommendation off the evidence of a pass.
-/

namespace Agenomic.Rmp.Review

open Lib Contract
open Track (Timestamp)

/-! ## Scenarios -/

/-- Where a scenario came from. -/
inductive ScenarioSource where
  | manual | generated | incidentDerived | monitorDerived | protectDerived | userProvided
  deriving DecidableEq, Repr

def ScenarioSource.label : ScenarioSource → String
  | .manual => "manual"
  | .generated => "generated"
  | .incidentDerived => "incident_derived"
  | .monitorDerived => "monitor_derived"
  | .protectDerived => "protect_derived"
  | .userProvided => "user_provided"

/-- One expected output of a scenario. -/
structure TestScenarioExpectedOutput where
  check : String
  outputHash : Option String
  deriving DecidableEq, Repr

/-- A test scenario, as far as a review reads it. -/
structure TestScenario where
  scenarioId : String
  title : String
  source : ScenarioSource
  agentId : String
  /-- Risk items this scenario covers. -/
  riskIds : List String
  /-- The hashes of the inputs that have one. -/
  inputHashes : List (Option String)
  expectedOutputs : List TestScenarioExpectedOutput
  deriving DecidableEq, Repr

-- how a text prints for debugging
variable (debug : String → String)

def knownChecks : List String := ["equals", "contains", "json_field_present", "matches_hash"]

/-- Validate an expected output. -/
def validateExpectedOutput (out : TestScenarioExpectedOutput) : CliResult Unit :=
  if out.check ∉ knownChecks then
    let check := debug out.check
    let known := ", ".intercalate knownChecks
    .error (.schema s!"unknown expected-output check {check} (known: {known})")
  else if out.check = "matches_hash" ∧ out.outputHash = none then
    .error (.schema "matches_hash check requires output_hash")
  else .ok ()

/-- Validate the hash of an input. -/
def validateInputHash : Option String → CliResult Unit
  | none => .ok ()
  | some h =>
      if "blake3:".toList <+: h.toList then .ok ()
      else .error (.schema s!"input_hash must be blake3:-prefixed, got {debug h}")

/-- Validate a scenario's structural invariants. -/
def validateScenario (scenario : TestScenario) : CliResult Unit := do
  if scenario.scenarioId = "" then
    throw (.schema "scenario_id must not be empty")
  if !scenario.scenarioId.toList.all (fun c => c.isAlphanum || c = '_' || c = '-') then
    throw (.schema
      s!"scenario_id may only contain [A-Za-z0-9_-], got {debug scenario.scenarioId}")
  if scenario.title = "" then
    throw (.schema "scenario title must not be empty")
  if ¬ "agent://".toList <+: scenario.agentId.toList then
    throw (.schema s!"agent_id must be an agent:// URI, got {debug scenario.agentId}")
  scenario.expectedOutputs.forM (validateExpectedOutput debug)
  scenario.inputHashes.forM (validateInputHash debug)

/-- Review state of an enrichment proposal. -/
inductive EnrichmentStatus where
  | draft | pendingReview | approved | rejected | applied
  deriving DecidableEq, Repr

/-- A proposed scenario with its review state. -/
structure ScenarioEnrichmentProposal where
  status : EnrichmentStatus
  proposedScenario : TestScenario
  deriving DecidableEq, Repr

/-- Take the scenario of an approved proposal in, unless its id is there. -/
def foldProposal (scenarios : List TestScenario) (proposal : ScenarioEnrichmentProposal) :
    List TestScenario :=
  if proposal.status = .approved ∨ proposal.status = .applied then
    if scenarios.any fun s => s.scenarioId = proposal.proposedScenario.scenarioId then scenarios
    else scenarios ++ [proposal.proposedScenario]
  else scenarios

/-! ## What a pass reads and returns -/

/-- Tuning knobs for a review pass. -/
structure ReviewConfig where
  /-- Findings at or above this severity fail the review. -/
  failOn : Severity
  /-- Score drop against the best history entry that counts as a regression. -/
  regressionThreshold : ℚ
  /-- Release-risk score from which human review is recommended. -/
  humanReviewThreshold : ℚ
  deriving DecidableEq, Repr

def ReviewConfig.default : ReviewConfig where
  failOn := .critical
  regressionThreshold := 1 / 10
  humanReviewThreshold := 6 / 10

/-- Result of one evaluation. -/
inductive EvaluationResult where
  | pass | warn | fail
  deriving DecidableEq, Repr

/-- One entry in an agent's evaluation history. -/
structure EvaluationHistoryEntry where
  specVersion : String
  entryId : String
  agentId : String
  genomeHash : Option String
  releaseId : Option String
  source : String
  sessionId : String
  result : EvaluationResult
  score : ℚ
  metrics : Std.ExtTreeMap String ℚ
  createdAt : Timestamp
  evidenceRefs : List String

/-- What a use case declares of failures. -/
structure UseCaseCard where
  failureModes : List String
  deriving DecidableEq, Repr

/-- Everything a review pass can consume. -/
structure ReviewInputs where
  bundle : Option String
  agentId : String
  genomeHash : Option String
  releaseId : Option String
  idCard : Option AgentIdCard
  useCase : Option UseCaseCard
  riskMatrix : Option RiskMatrix
  scenarios : List TestScenario
  evaluationHistory : List EvaluationHistoryEntry
  traces : Option String
  carriedFindings : List MonitorFinding
  approvedProposals : List ScenarioEnrichmentProposal

/-- Scenario coverage summary. -/
structure CoverageReport where
  totalScenarios : Nat
  scenariosBySource : Std.ExtTreeMap String Nat
  openRisks : Nat
  coveredRisks : Nat
  coverageRatio : ℚ
  uncoveredRiskIds : List String

inductive RmpSessionStatus where
  | active | completed | cancelled | failed
  deriving DecidableEq, Repr

/-- One review pass over an agent. -/
structure ReviewSession where
  specVersion : String
  sessionId : String
  agentId : String
  genomeHash : Option String
  releaseId : Option String
  status : RmpSessionStatus
  startedAt : Timestamp
  endedAt : Option Timestamp
  scenarioIds : List String
  deriving DecidableEq, Repr

/-- The outcome of one review pass. -/
structure ReviewOutcome where
  specVersion : String
  session : ReviewSession
  result : EvaluationResult
  score : ℚ
  releaseRiskScore : ℚ
  recommendation : ReleaseRecommendation
  findings : List MonitorFinding
  coverage : CoverageReport
  riskMatrix : Option RiskMatrix
  replayReport : Option ReplayReport
  metrics : Std.ExtTreeMap String ℚ
  requiredChanges : List String
  historyEntry : EvaluationHistoryEntry
  generatedAt : Timestamp

/-- What a pass makes up and what it finds on disk: the ids, the clock, and what a replay reads of
a bundle and a file of traces. -/
structure ReviewEnv where
  sessionId : String
  matrixId : String
  entryId : String
  finding : Nat → FindingStamp
  now : Timestamp
  replayInputs : String → String → CliResult ReplayInputs

/-! ## The pass -/

section Pass

variable (isJson : String → Bool) (env : ReviewEnv) (config : ReviewConfig)
variable (inputs : ReviewInputs)

/-- A finding of the pass with the gating flags its severity sets. -/
def newFinding (kind : FindingKind) (severity : Severity) (title message : String) :
    FindingBody where
  specVersion := "agenomic.rmp/v0.1"
  loopStage := "review"
  sessionId := env.sessionId
  agentId := inputs.agentId
  genomeHash := none
  kind
  severity
  title
  message
  riskIds := []
  evidenceRefs := []
  observed := none
  expected := none
  recommendedAction := none
  blocksRelease := decide (severity = .critical)
  requiresHumanReview := decide (severity = .critical ∨ severity = .high)
  details := none

/-- Step 1: the scenarios with those of the approved proposals. -/
def corpus : List TestScenario := inputs.approvedProposals.foldl foldProposal inputs.scenarios

/-- Step 2: the risk matrix with the classification of the agent. -/
def assessedMatrix : RiskMatrix :=
  let matrix := inputs.riskMatrix.getD (.new env.matrixId env.now inputs.agentId)
  let matrix := match matrix.assessment, inputs.idCard with
    | none, some card => { matrix with assessment := some (.fromIdCard card) }
    | _, _ => matrix
  { matrix with genomeHash := matrix.genomeHash.or inputs.genomeHash }

/-- Step 3: the scenarios that are valid. -/
def validScenarios : List TestScenario :=
  (corpus inputs).filter fun s => (validateScenario debug s).isOk

/-- Step 3: a finding for every scenario that is not. -/
def scenarioFindings : List FindingBody :=
  (corpus inputs).filterMap fun s =>
    match validateScenario debug s with
    | .ok () => none
    | .error e =>
        some { newFinding env inputs .scenarioFailure .medium
                s!"Invalid scenario {s.scenarioId}" e.toText with
              evidenceRefs := [s.scenarioId] }

/-- Step 3: which risk is covered by which scenario. -/
def coveragePairs : List (String × String) :=
  (validScenarios debug inputs).flatMap fun s => s.riskIds.map fun r => (r, s.scenarioId)

/-- Step 3: the matrix with its coverage marks. -/
def coveredMatrix : RiskMatrix :=
  (coveragePairs debug inputs).foldl (fun m p => m.markCovered env.now p.1 p.2)
    (assessedMatrix env inputs)

/-- The failure modes of the use case. -/
def failureModes : List String := (inputs.useCase.map UseCaseCard.failureModes).getD []

/-- Step 4: a finding for every failure mode that no item names. -/
def riskGapFindings : List FindingBody :=
  ((failureModes inputs).filter fun mode => !(coveredMatrix debug env inputs).items.any fun i =>
    Track.PolicyResult.eqIgnoreAsciiCase i.title mode).map fun mode =>
      newFinding env inputs .riskGap .medium s!"Failure mode not in risk matrix: {mode}"
        "declared in the use case card but absent from the risk matrix"

/-- The coverage of a matrix by scenarios. -/
def coverage (matrix : RiskMatrix) (scenarios : List TestScenario) : CoverageReport where
  totalScenarios := scenarios.length
  scenariosBySource := scenarios.foldl (fun by_source s =>
    by_source.insert s.source.label (by_source.getD s.source.label 0 + 1)) ∅
  openRisks := matrix.openItems.length
  coveredRisks := matrix.openItems.countP RiskItem.isCovered
  coverageRatio := matrix.coverageRatio
  uncoveredRiskIds := (matrix.openItems.filter fun i => !i.isCovered).map RiskItem.riskId

/-- Step 5: a finding if there are open risks without a scenario. -/
def coverageFindings : List FindingBody :=
  let report := coverage (coveredMatrix debug env inputs) (validScenarios debug inputs)
  if report.coverageRatio < 1 ∧ report.uncoveredRiskIds ≠ [] then
    [{ newFinding env inputs .coverageGap .medium
        s!"{report.uncoveredRiskIds.length} open risk(s) have no covering scenario"
        "add scenarios (or approve enrichment proposals) covering these risks" with
      riskIds := report.uncoveredRiskIds }]
  else []

/-- Step 6: replay, when there are a bundle and traces. -/
def runReplay : CliResult (Option ReplayReport) :=
  match inputs.bundle, inputs.traces with
  | some bundle, some traces =>
      (env.replayInputs bundle traces).map fun r =>
        some (runLocalReplay isJson ⟨1, config.failOn⟩ r)
  | _, _ => .ok none

/-- Step 6: a finding for every violation and one for a replay that failed. -/
def replayFindings : Option ReplayReport → List FindingBody
  | none => []
  | some report =>
      (report.violations.map fun v =>
        { newFinding env inputs .contractViolation v.severity
            s!"Contract check failed: {v.checkId}" v.message with
          evidenceRefs := [s!"trace:{v.traceId}"] })
      ++ if !report.contractPassed then
          [newFinding env inputs .replayDivergence .high "Replay contract evaluation failed"
            s!"{report.violations.length} violation(s) across {report.totalTraces} trace(s)"]
        else []

/-- Step 7: the matrix with the observations of carried findings. -/
def observedMatrix : RiskMatrix :=
  (inputs.carriedFindings.flatMap fun f => f.body.riskIds.map fun r => (r, f.stamp.findingId)).foldl
    (fun m p => m.recordObservation env.now p.1 p.2) (coveredMatrix debug env inputs)

/-- What a finding takes off the score. -/
def weight : Severity → ℚ
  | .critical => 3 / 10
  | .high => 15 / 100
  | .medium => 5 / 100
  | .low => 2 / 100
  | .info => 0

/-- Step 9: start from 1, subtract weighted findings and risk. -/
def score (findings : List FindingBody) (releaseRiskScore : ℚ) (replay : Option ReplayReport) : ℚ :=
  let score := findings.foldl (fun score f => score - weight f.severity) 1
  let score := score - releaseRiskScore * (2 / 10)
  let score := match replay with
    | some r => if !r.contractPassed then score - 2 / 10 else score
    | none => score
  clamp01 score

/-- The best score of the review entries. -/
def bestRecent : Option ℚ :=
  ((inputs.evaluationHistory.filter fun h => h.source = "review").map
    EvaluationHistoryEntry.score).foldl (fun acc s => some (acc.elim s fun a => max a s)) none

/-- A number with two decimals, halves to even. -/
def twoDecimals (q : ℚ) : String :=
  let hundredths := (|q| * 100).floor.toNat
  let part := |q| * 100 - hundredths
  let n := if part < 1 / 2 ∨ (part = 1 / 2 ∧ hundredths % 2 = 0) then hundredths else hundredths + 1
  (if q < 0 then "-" else "") ++ toString (n / 100) ++ "."
    ++ String.ofList (padded 2 (n % 100))

/-- Step 10: a finding if the score is well below the best earlier one. -/
def regressionFindings (score : ℚ) : List FindingBody :=
  match bestRecent inputs with
  | none => []
  | some best =>
      if best - score > config.regressionThreshold then
        [newFinding env inputs .regression .high
          s!"Review score regressed: {twoDecimals score} vs best recent {twoDecimals best}"
          "investigate the diff between this candidate and the last approved release"]
      else []

/-- Step 11: the result of the findings. -/
def resultOf (findings : List FindingBody) : EvaluationResult :=
  if findings.any fun f => config.failOn ≤ f.severity then .fail
  else if findings.isEmpty then .pass
  else .warn

/-- The release recommendation. -/
def recommend (result : EvaluationResult) (releaseRiskScore : ℚ) (findings : List FindingBody) :
    ReleaseRecommendation :=
  if result = .fail ∨ findings.any FindingBody.blocksRelease then .block
  else if config.humanReviewThreshold ≤ releaseRiskScore
      ∨ findings.any FindingBody.requiresHumanReview then .humanReviewRequired
  else if result = .warn then .approveWithConditions
  else .approve

/-- The findings before the score is known. -/
def findingsBeforeScore (replay : Option ReplayReport) : List FindingBody :=
  scenarioFindings debug env inputs ++ riskGapFindings debug env inputs
    ++ coverageFindings debug env inputs ++ replayFindings env inputs replay

/-- Step 8: the metrics, with the score among them. -/
def metricsOf (releaseRiskScore score : ℚ) (report : CoverageReport) (replay : Option ReplayReport)
    (findings : List FindingBody) : Std.ExtTreeMap String ℚ :=
  let metrics := ((∅ : Std.ExtTreeMap String ℚ).insert "release_risk_score" releaseRiskScore).insert
    "scenario_count" report.totalScenarios
  let metrics := metrics.insert "risk_coverage_ratio" report.coverageRatio
  let metrics := match replay with
    | none => metrics
    | some r =>
        ((metrics.insert "replay_total_traces" r.totalTraces).insert
          "replay_violations" r.violations.length).insert
          "replay_contract_passed" (if r.contractPassed then 1 else 0)
  let blocking := findings.countP fun f => config.failOn ≤ f.severity
  (metrics.insert "blocking_findings" blocking).insert "review_score" score

/-- Run a full review pass. -/
def run : CliResult ReviewOutcome := do
  let valid := validScenarios debug inputs
  let report := coverage (coveredMatrix debug env inputs) valid
  let replay ← runReplay isJson env config inputs
  let findings := findingsBeforeScore debug env inputs replay
  let matrix := observedMatrix debug env inputs
  let releaseRiskScore := matrix.releaseRiskScore
  let score := score findings releaseRiskScore replay
  let metrics := metricsOf config releaseRiskScore score report replay findings
  let findings := findings ++ regressionFindings env config inputs score
  let result := resultOf config findings
  let recommendation := recommend config result releaseRiskScore findings
  return {
    specVersion := "agenomic.rmp/v0.1"
    session := {
      specVersion := "agenomic.rmp/v0.1"
      sessionId := env.sessionId
      agentId := inputs.agentId
      genomeHash := inputs.genomeHash
      releaseId := inputs.releaseId
      status := .completed
      startedAt := env.now
      endedAt := some env.now
      scenarioIds := valid.map TestScenario.scenarioId }
    result
    score
    releaseRiskScore
    recommendation
    findings := findings.mapIdx fun n f => ⟨env.finding n, f⟩
    coverage := report
    riskMatrix := some matrix
    replayReport := replay
    metrics
    requiredChanges := (findings.filter FindingBody.blocksRelease).map fun f =>
      s!"[{f.kind.label}] {f.title}"
    historyEntry := {
      specVersion := "agenomic.rmp/v0.1"
      entryId := env.entryId
      agentId := inputs.agentId
      genomeHash := inputs.genomeHash
      releaseId := inputs.releaseId
      source := "review"
      sessionId := env.sessionId
      result
      score := clamp01 score
      metrics
      createdAt := env.now
      evidenceRefs := (replay.map fun r => s!"replay:{r.bundleHash}").toList }
    generatedAt := env.now }

end Pass

/-! ## The evidence of a pass -/

/-- What score and recommendation depend on. -/
structure Evidence where
  /-- The severities found before the comparison with history. -/
  severities : List Severity
  releaseRisk : ℚ
  replayFailed : Bool
  best : Option ℚ

namespace Evidence

variable (config : ReviewConfig) (e : Evidence)

/-- The score of some evidence. -/
def score : ℚ :=
  clamp01 (1 - (e.severities.map weight).sum - e.releaseRisk * (2 / 10)
    - if e.replayFailed then 2 / 10 else 0)

/-- The severities found, that of a regression included. -/
def allSeverities : List Severity :=
  e.severities ++ if e.best.any fun b => b - e.score > config.regressionThreshold then [.high]
    else []

/-- The recommendation on some evidence. -/
def recommend : ReleaseRecommendation :=
  if (e.allSeverities config).any fun s => config.failOn ≤ s ∨ s = .critical then .block
  else if config.humanReviewThreshold ≤ e.releaseRisk
      ∨ (e.allSeverities config).any fun s => s = .critical ∨ s = .high then .humanReviewRequired
  else if e.allSeverities config ≠ [] then .approveWithConditions
  else .approve

end Evidence

variable (isJson : String → Bool) (env : ReviewEnv) (config : ReviewConfig)
variable (inputs : ReviewInputs)

/-- The evidence a pass finds, given what the replay said. -/
def evidence (replay : Option ReplayReport) : Evidence where
  severities := (findingsBeforeScore debug env inputs replay).map FindingBody.severity
  releaseRisk := (assessedMatrix env inputs).releaseRiskScore
  replayFailed := replay.any fun r => !r.contractPassed
  best := bestRecent inputs

/-- Findings with the flags their severity sets. -/
def Flagged (f : FindingBody) : Prop :=
  f.blocksRelease = decide (f.severity = .critical)
    ∧ f.requiresHumanReview = decide (f.severity = .critical ∨ f.severity = .high)

theorem flagged_findingsBeforeScore (replay : Option ReplayReport) :
    ∀ f ∈ findingsBeforeScore debug env inputs replay, Flagged f := by
  intro f hf
  unfold findingsBeforeScore at hf
  rw [List.mem_append, List.mem_append, List.mem_append] at hf
  rcases hf with ((hf | hf) | hf) | hf
  · obtain ⟨s, -, hs⟩ := List.mem_filterMap.mp hf
    cases hvalid : validateScenario debug s with
    | ok u =>
        rw [hvalid] at hs
        cases hs
    | error e =>
        rw [hvalid] at hs
        cases hs
        exact ⟨rfl, rfl⟩
  · obtain ⟨mode, -, rfl⟩ := List.mem_map.mp hf
    exact ⟨rfl, rfl⟩
  · unfold coverageFindings at hf
    dsimp only at hf
    split at hf
    · cases List.mem_singleton.mp hf
      exact ⟨rfl, rfl⟩
    · cases hf
  · unfold replayFindings at hf
    cases replay with
    | none => cases hf
    | some report =>
        rcases List.mem_append.mp hf with hv | hdiverged
        · obtain ⟨v, -, rfl⟩ := List.mem_map.mp hv
          exact ⟨rfl, rfl⟩
        · split at hdiverged
          · cases List.mem_singleton.mp hdiverged
            exact ⟨rfl, rfl⟩
          · cases hdiverged

theorem flagged_regressionFindings (score : ℚ) :
    ∀ f ∈ regressionFindings env config inputs score, Flagged f := by
  intro f hf
  unfold regressionFindings at hf
  cases hbest : bestRecent inputs with
  | none =>
      rw [hbest] at hf
      cases hf
  | some best =>
      rw [hbest] at hf
      dsimp only at hf
      split at hf
      · cases List.mem_singleton.mp hf
        exact ⟨rfl, rfl⟩
      · cases hf

/-- The severities of a regression. -/
theorem severity_regressionFindings (score : ℚ) :
    (regressionFindings env config inputs score).map FindingBody.severity
      = if (bestRecent inputs).any fun b => b - score > config.regressionThreshold then [.high]
        else [] := by
  unfold regressionFindings
  cases bestRecent inputs with
  | none => rfl
  | some best =>
      by_cases h : best - score > config.regressionThreshold
      · simp [h, newFinding]
      · simp [h]

theorem foldl_sub_weight (findings : List FindingBody) (x : ℚ) :
    findings.foldl (fun score f => score - weight f.severity) x
      = x - ((findings.map FindingBody.severity).map weight).sum := by
  induction findings generalizing x with
  | nil => simp
  | cons f findings ih =>
      rw [List.foldl_cons, ih, List.map_cons, List.map_cons, List.sum_cons, sub_sub]

/-- Marks and observations leave the release risk as it was. -/
theorem releaseRiskScore_observedMatrix :
    (observedMatrix debug env inputs).releaseRiskScore
      = (assessedMatrix env inputs).releaseRiskScore := by
  have hcovered : (assessedMatrix env inputs).SameRisk (coveredMatrix debug env inputs) :=
    RiskMatrix.sameRisk_foldl
      (fun m (p : String × String) => m.sameRisk_markCovered env.now p.1 p.2) _ _
  have hobserved : (coveredMatrix debug env inputs).SameRisk (observedMatrix debug env inputs) :=
    RiskMatrix.sameRisk_foldl
      (fun m (p : String × String) => m.sameRisk_recordObservation env.now p.1 p.2) _ _
  exact (hcovered.trans hobserved).releaseRiskScore

theorem score_eq (replay : Option ReplayReport) :
    score (findingsBeforeScore debug env inputs replay)
        (observedMatrix debug env inputs).releaseRiskScore replay
      = (evidence debug env inputs replay).score := by
  unfold score Evidence.score evidence
  dsimp only
  rw [foldl_sub_weight, releaseRiskScore_observedMatrix]
  cases replay with
  | none => simp
  | some report => cases hpassed : report.contractPassed <;> simp [hpassed]

theorem recommend_eq {findings : List FindingBody} (hflags : ∀ f ∈ findings, Flagged f)
    (risk : ℚ) : recommend config (resultOf config findings) risk findings
      = if (findings.map FindingBody.severity).any fun s => config.failOn ≤ s ∨ s = .critical
          then .block
        else if config.humanReviewThreshold ≤ risk
            ∨ (findings.map FindingBody.severity).any fun s => s = .critical ∨ s = .high
          then .humanReviewRequired
        else if findings.map FindingBody.severity ≠ [] then .approveWithConditions
        else .approve := by
  have hfail : resultOf config findings = .fail ↔ ∃ f ∈ findings, config.failOn ≤ f.severity := by
    unfold resultOf
    by_cases h : findings.any (fun f => config.failOn ≤ f.severity) = true
    · rw [if_pos h]
      simpa using h
    · rw [if_neg h]
      simp only [List.any_eq_true, decide_eq_true_eq] at h
      by_cases hempty : findings.isEmpty = true <;> simp [hempty, h]
  have hblocks : (resultOf config findings = .fail ∨ findings.any FindingBody.blocksRelease = true)
      ↔ (findings.map FindingBody.severity).any
          (fun s => config.failOn ≤ s ∨ s = .critical) = true := by
    rw [hfail]
    simp only [List.any_map, List.any_eq_true, Function.comp, decide_eq_true_eq]
    constructor
    · rintro (⟨f, hf, hle⟩ | ⟨f, hf, hblocks⟩)
      · exact ⟨f, hf, .inl hle⟩
      · rw [(hflags f hf).1, decide_eq_true_eq] at hblocks
        exact ⟨f, hf, .inr hblocks⟩
    · rintro ⟨f, hf, hle | hcritical⟩
      · exact .inl ⟨f, hf, hle⟩
      · exact .inr ⟨f, hf, (hflags f hf).1.trans (decide_eq_true hcritical)⟩
  have hhuman : findings.any FindingBody.requiresHumanReview = true
      ↔ (findings.map FindingBody.severity).any (fun s => s = .critical ∨ s = .high) = true := by
    simp only [List.any_map, List.any_eq_true, Function.comp]
    refine exists_congr fun f => and_congr_right fun hf => ?_
    rw [(hflags f hf).2]
  unfold recommend
  rw [if_congr hblocks rfl rfl]
  by_cases hblock : (findings.map FindingBody.severity).any
      (fun s => config.failOn ≤ s ∨ s = .critical) = true
  · rw [if_pos hblock, if_pos hblock]
  · rw [if_neg hblock, if_neg hblock, if_congr (or_congr_right hhuman) rfl rfl]
    -- with nothing blocking the result is a warning when there is any finding
    have hwarn : resultOf config findings = .warn ↔ findings.map FindingBody.severity ≠ [] := by
      have hnot : ¬ findings.any (fun f => config.failOn ≤ f.severity) = true := by
        intro h
        rw [List.any_eq_true] at h
        obtain ⟨f, hf, hle⟩ := h
        exact hblock (hblocks.mp (.inl (hfail.mpr ⟨f, hf, by simpa using hle⟩)))
      unfold resultOf
      rw [if_neg hnot]
      cases findings <;> simp
    rw [if_congr hwarn rfl rfl]

/-- **What a pass concludes** is the score of its evidence and the recommendation on it. -/
theorem outcome_of_run {outcome : ReviewOutcome}
    (h : run debug isJson env config inputs = .ok outcome) :
    ∃ replay, runReplay isJson env config inputs = .ok replay
      ∧ outcome.replayReport = replay
      ∧ outcome.score = (evidence debug env inputs replay).score
      ∧ outcome.recommendation = (evidence debug env inputs replay).recommend config := by
  unfold run at h
  obtain ⟨replay, hreplay, h⟩ := bind_eq_ok.mp h
  have hscore := score_eq debug env inputs replay
  have hrisk := releaseRiskScore_observedMatrix debug env inputs
  have hseverities : (findingsBeforeScore debug env inputs replay
        ++ regressionFindings env config inputs (evidence debug env inputs replay).score).map
          FindingBody.severity
      = (evidence debug env inputs replay).allSeverities config := by
    rw [List.map_append, severity_regressionFindings]
    rfl
  have hflags : ∀ f ∈ findingsBeforeScore debug env inputs replay
      ++ regressionFindings env config inputs (evidence debug env inputs replay).score,
      Flagged f := by
    intro f hf
    rcases List.mem_append.mp hf with hf | hf
    · exact flagged_findingsBeforeScore debug env inputs replay f hf
    · exact flagged_regressionFindings env config inputs _ f hf
  refine ⟨replay, hreplay, ?_⟩
  cases h
  dsimp only
  rw [hscore, recommend_eq config hflags, hseverities, hrisk]
  exact ⟨rfl, rfl, rfl⟩

end Agenomic.Rmp.Review
