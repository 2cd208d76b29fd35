import Agenomic.Rmp.ReviewOrder

/-!
# No milder review

One more item, trace, rejected scenario, failure mode or history entry is more evidence
(`evidence_le`), so a review that runs on both is no milder on the second
(**`run_le_run`**). Two additions are left out. A risk scored below the mean of the risks
that count dilutes the release risk, as documented; and a replay counts violations in 32
bits.
-/

namespace Agenomic.Rmp.Review

open Lib Contract

variable {debug : String → String} {isJson : String → Bool}

/-- Evidence grows when each of its parts does. -/
theorem evidence_le_of {env env' : ReviewEnv} {before after : ReviewInputs}
    {replay replay' : Option ReplayReport}
    (hscenarios : ((corpus before).countP fun s => !(validateScenario debug s).isOk)
      ≤ (corpus after).countP fun s => !(validateScenario debug s).isOk)
    (hmodes : (failureModes before).countP (unnamed (before.items.map RiskItem.title))
      ≤ (failureModes after).countP (unnamed (after.items.map RiskItem.title)))
    (huncovered : Uncovered debug before → Uncovered debug after)
    (hreplay : ReplayLe replay replay')
    (hrisk : (assessedMatrix env before).releaseRiskScore
      ≤ (assessedMatrix env' after).releaseRiskScore)
    (hhistory : before.evaluationHistory ⊆ after.evaluationHistory) :
    (evidence debug env before replay).Le (evidence debug env' after replay') := by
  refine ⟨?_, hrisk, hreplay.failed, fun b hb => best_le ?_ hb⟩
  · have hsub : ∀ {m n : Nat}, m ≤ n →
        (List.replicate m Severity.medium).Subperm (List.replicate n .medium) := fun h =>
      (List.replicate_sublist_replicate _ |>.mpr h).subperm
    unfold evidence findingsBeforeScore
    dsimp only
    simp only [List.map_append, severities_scenarioFindings, severities_riskGapFindings]
    refine (((hsub hscenarios).append (hsub hmodes)).append ?_).append
      (hreplay.severities env env' before after)
    rcases severities_coverageFindings debug env before with ⟨hgap, heq⟩ | ⟨-, hnil⟩
    · rcases severities_coverageFindings debug env' after with ⟨-, heq'⟩ | ⟨hnot, -⟩
      · rw [heq, heq']
      · exact absurd (huncovered hgap) hnot
    · rw [hnil]
      exact List.nil_subperm
  · intro x hx
    obtain ⟨h, hmem, rfl⟩ := List.mem_map.mp hx
    rw [List.mem_filter] at hmem
    exact List.mem_map_of_mem (List.mem_filter.mpr ⟨hhistory hmem.1, hmem.2⟩)

/-- The release risk of inputs with the same items and the same assessments. -/
theorem releaseRisk_congr {env env' : ReviewEnv} {before after : ReviewInputs}
    (hitems : after.items = before.items) (hassessment : after.assessment = before.assessment)
    (hcard : after.idCard = before.idCard) :
    (assessedMatrix env before).releaseRiskScore
      ≤ (assessedMatrix env' after).releaseRiskScore := by
  refine releaseRiskScore_le ?_ (le_of_eq ?_)
  · rw [assessment_assessedMatrix, assessment_assessedMatrix, hassessment, hcard]
  · rw [items_assessedMatrix, items_assessedMatrix, hitems]

/-- No risk is added that dilutes the mean score of the risks that count. -/
def Undiluted (before after : ReviewInputs) : Prop :=
  ∀ l₁ i l₂, before.items = l₁ ++ l₂ → after.items = l₁ ++ i :: l₂ →
    mean (scoresOf before.items) ≤ i.score

/-- A replay of more traces has counters with room for its violations. -/
def Counted (replay replay' : Option ReplayReport) : Prop :=
  ∀ report report', replay = some report → replay' = some report' →
    report.totalTraces < report'.totalTraces → report'.violations.length < 2 ^ 32

/-- **One more input is more evidence.** -/
theorem evidence_le {env env' : ReviewEnv} {config : ReviewConfig} {before after : ReviewInputs}
    {replay replay' : Option ReplayReport} (hmore : OneMore debug env env' before after)
    (hrange : before.InRange) (hundiluted : Undiluted before after)
    (hcounted : Counted replay replay')
    (h : runReplay isJson env config before = .ok replay)
    (h' : runReplay isJson env' config after = .ok replay') :
    (evidence debug env before replay).Le (evidence debug env' after replay') := by
  cases hmore with
  | @item l₁ l₂ i m hreads hbefore hafter hassessment hstatus hfresh htitle =>
      have hreplay := replayLe_of_sameReads h h' hreads rfl rfl
      refine evidence_le_of le_rfl ?_ ?_ hreplay ?_ (List.Subset.refl _)
      · refine le_of_eq (List.countP_congr fun mode hmode => ?_)
        show unnamed _ mode = true ↔ unnamed (m.items.map RiskItem.title) mode = true
        have hmode' := htitle mode hmode
        rw [hafter, hbefore]
        simp [unnamed, hmode']
      · intro hgap
        unfold Uncovered at hgap ⊢
        rw [hbefore] at hgap
        show Gap _ m.items
        rw [hafter]
        exact hgap.insert i
      · refine releaseRiskScore_le ?_ ?_
        · rw [assessment_assessedMatrix, assessment_assessedMatrix]
          exact congrArg (Option.or · _) hassessment
        · rw [items_assessedMatrix, items_assessedMatrix]
          show _ ≤ blend _ _ (scoresOf m.items)
          have hmean := hundiluted l₁ i l₂ hbefore hafter
          rw [hbefore] at hmean ⊢
          rw [hafter]
          exact blend_insert hstatus hmean
  | @raised l₁ l₂ i m x y hreads hbefore hitems hlikelihood himpact =>
      have hreplay := replayLe_of_sameReads h h' hreads rfl rfl
      have hitems' : before.items = l₁ ++ i :: l₂ := by
        unfold ReviewInputs.items
        rw [hbefore]
        exact hitems
      obtain ⟨⟨hl, -⟩, ⟨hi, -⟩, -⟩ := hrange i (by
        rw [hitems']
        exact List.mem_append_right _ List.mem_cons_self)
      refine evidence_le_of le_rfl ?_ ?_ hreplay ?_ (List.Subset.refl _)
      · rw [hitems', List.map_append, List.map_cons]
        show _ ≤ (failureModes before).countP (unnamed (List.map RiskItem.title (_ ++ _ :: _)))
        rw [List.map_append, List.map_cons]
      · refine Gap.congr ?_
        rw [hitems']
        show List.map gapView (_ ++ _ :: _) = _
        rw [List.map_append, List.map_append, List.map_cons, List.map_cons]
        rfl
      · refine releaseRiskScore_le ?_ ?_
        · rw [assessment_assessedMatrix, assessment_assessedMatrix]
          unfold ReviewInputs.assessment
          rw [hbefore]
          rfl
        · rw [items_assessedMatrix, items_assessedMatrix, hitems']
          exact blend_raised rfl
            (RiskItem.score_le_score rfl hlikelihood himpact (hl.trans hlikelihood) hi)
  | @trace bundle traces traces' r r' l₁ l₂ t hb ht hbefore hafter hcontract hwithout hwithin =>
      have hreplay :=
        replayLe_of_trace hb ht hbefore hafter hcontract hwithout hwithin hcounted h h'
      exact evidence_le_of le_rfl le_rfl id hreplay (releaseRisk_congr rfl rfl rfl)
        (List.Subset.refl _)
  | firstTrace hbefore =>
      have hnone : replay = none := by
        unfold runReplay at h
        rw [hbefore] at h
        cases hbundle : before.bundle with
        | none =>
            rw [hbundle] at h
            cases h
            rfl
        | some bundle =>
            rw [hbundle] at h
            cases h
            rfl
      rw [hnone]
      exact evidence_le_of le_rfl le_rfl id (ReplayLe.none _) (releaseRisk_congr rfl rfl rfl)
        (List.Subset.refl _)
  | @scenario l₁ l₂ s e hreads hbefore hrejected =>
      have hreplay := replayLe_of_sameReads h h' hreads rfl rfl
      have hcorpus : Rejects debug s (corpus before)
          (corpus { before with scenarios := l₁ ++ s :: l₂ }) := by
        unfold corpus
        rw [hbefore]
        exact (rejects_insert hrejected l₁ l₂).corpus before.approvedProposals
      refine evidence_le_of hcorpus.count le_rfl (fun hgap => hgap.anti ?_) hreplay
        (releaseRisk_congr rfl rfl rfl) (List.Subset.refl _)
      -- no mark comes in with the rejected scenario
      rintro r ⟨s', hs', hr⟩
      obtain ⟨hmem, hvalid⟩ := List.mem_filter.mp hs'
      exact ⟨s', List.mem_filter.mpr ⟨hcorpus.valid s' hmem hvalid, hvalid⟩, hr⟩
  | @failureMode l₁ l₂ mode hreads hbefore =>
      have hreplay := replayLe_of_sameReads h h' hreads rfl rfl
      refine evidence_le_of le_rfl ?_ id hreplay (releaseRisk_congr rfl rfl rfl)
        (List.Subset.refl _)
      have hsub : (failureModes before).Sublist (l₁ ++ mode :: l₂) := by
        rw [hbefore]
        exact (List.Sublist.refl _).append (List.sublist_cons_self _ _)
      exact hsub.countP_le
  | @history l₁ l₂ entry hreads hbefore =>
      have hreplay := replayLe_of_sameReads h h' hreads rfl rfl
      refine evidence_le_of le_rfl le_rfl id hreplay (releaseRisk_congr rfl rfl rfl) ?_
      rw [hbefore]
      exact ((List.Sublist.refl _).append (List.sublist_cons_self _ _)).subset

/-- **More risk evidence never makes a review milder**, an added risk that does not dilute the mean
and a replay with counted violations given. -/
theorem run_le_run {env env' : ReviewEnv} {config : ReviewConfig} {before after : ReviewInputs}
    {outcome outcome' : ReviewOutcome} (hmore : OneMore debug env env' before after)
    (hrange : before.InRange) (hundiluted : Undiluted before after)
    (hcounted : Counted outcome.replayReport outcome'.replayReport)
    (h : run debug isJson env config before = .ok outcome)
    (h' : run debug isJson env' config after = .ok outcome') :
    outcome.recommendation ≤ outcome'.recommendation ∧ outcome'.score ≤ outcome.score := by
  obtain ⟨replay, hreplay, hreport, hscore, hrecommendation⟩ :=
    outcome_of_run debug isJson env config before h
  obtain ⟨replay', hreplay', hreport', hscore', hrecommendation'⟩ :=
    outcome_of_run debug isJson env' config after h'
  rw [hreport, hreport'] at hcounted
  have hle := evidence_le hmore hrange hundiluted hcounted hreplay hreplay'
  rw [hscore, hscore', hrecommendation, hrecommendation']
  exact ⟨hle.recommend config, hle.score⟩

/-! ## Two additions that make a review milder -/

/-- A review of risk items, and of a replay if there is one. -/
def reviewOf (items : List RiskItem) (traces : Option String) : ReviewInputs where
  bundle := some "bundle"
  agentId := "agent://acme/claims"
  genomeHash := none
  releaseId := none
  idCard := none
  useCase := none
  riskMatrix := some { RiskMatrix.new "rm_1" 0 "agent://acme/claims" with items }
  scenarios := []
  evaluationHistory := []
  traces
  carriedFindings := []
  approvedProposals := []

/-- An open risk that no scenario covers. -/
def openRisk (riskId title : String) (likelihood impact : ℚ) : RiskItem where
  riskId
  title
  likelihood
  impact
  impactDrivers := []
  coveredByScenarios := []
  observedFindings := []
  status := "open"
  updatedAt := none

def grave : RiskItem := openRisk "risk_1" "Refund without claim" (9 / 10) (9 / 10)

def slight : RiskItem := openRisk "risk_2" "Slow answer" (1 / 10) (1 / 10)

/-- A trace that breaks the rule below. -/
def noticeTrace : TraceEnvelope := ⟨"t1", some (.object []), [], none⟩

/-- A rule of severity info. -/
def noticeRule : ContractRule := ⟨"language_match_field_present", .info, [], [], [], none⟩

/-- A replay of a number of traces, all alike. -/
def repeated (n : Nat) : ReplayInputs where
  logicalBundleHash := ""
  rootHash := ""
  contract := ⟨"c1", [noticeRule]⟩
  traces := .replicate n noticeTrace
  now := ""

/-- A pass that reads these traces. -/
def reading (n : Nat) : ReviewEnv where
  sessionId := "rev_1"
  matrixId := "rm_1"
  entryId := "evl_1"
  finding := fun _ => ⟨"fnd_1", 0⟩
  now := 0
  replayInputs := fun _ _ => .ok (repeated n)

theorem sameReads_refl (env : ReviewEnv) : env.SameReads env := by
  intro bundle traces r r' h h'
  rw [h] at h'
  cases h'
  exact ⟨rfl, rfl⟩

/-- A risk above the mean, added to a matrix. -/
theorem run_le_run_grave : ∃ outcome outcome',
    run id (fun _ => true) (reading 0) .default (reviewOf [slight] none) = .ok outcome
      ∧ run id (fun _ => true) (reading 0) .default (reviewOf [slight, grave] none) = .ok outcome'
      ∧ outcome.recommendation ≤ outcome'.recommendation ∧ outcome'.score ≤ outcome.score := by
  refine ⟨_, _, rfl, rfl, @run_le_run id (fun _ => true) (reading 0) (reading 0) .default
    (reviewOf [slight] none) (reviewOf [slight, grave] none) _ _ ?_ ?_ ?_ ?_ rfl rfl⟩
  · exact @OneMore.item id (reading 0) (reading 0) (reviewOf [slight] none) [slight] [] grave _
      (sameReads_refl _) rfl rfl rfl rfl (by decide) (fun _ h => nomatch h)
  · intro i hi
    cases List.mem_singleton.mp hi
    exact ⟨by norm_num [slight, openRisk], by norm_num [slight, openRisk], fun _ h => nomatch h⟩
  · intro l₁ i l₂ _ hafter
    have hi : i ∈ [slight, grave] := by
      show i ∈ (reviewOf [slight, grave] none).items
      rw [hafter]
      exact List.mem_append_right _ List.mem_cons_self
    rcases List.mem_pair.mp hi with rfl | rfl <;> decide +kernel
  · intro report report' h
    cases h

/-- The violations of a repeated replay are as many as its traces, and all of severity info. -/
theorem severities_repeated (n : Nat) : ((runLocalReplay (fun _ => true) ⟨1, .low⟩
    (repeated n)).violations.map TraceViolation.severity) = .replicate n .info := by
  have hone : (violationsAt (defaultChecks fun _ => true) noticeTrace noticeRule).map
      TraceViolation.severity = [.info] := by decide
  have hall : (allViolations (fun _ => true) (repeated n).contract (repeated n).traces).map
      TraceViolation.severity = .replicate n .info := by
    unfold allViolations Contract.occurrences repeated
    simp only [SProd.sprod, List.product, List.map_cons, List.map_nil, List.flatMap_assoc,
      List.flatMap_singleton, List.map_flatMap]
    rw [List.flatMap_replicate, hone, List.flatten_replicate_singleton]
  exact List.perm_replicate.mp
    (((report_violations (fun _ => true) ⟨1, .low⟩ (repeated n)).map _).trans (.of_eq hall))

/-- A replay of them passes when the lowest counter is back at zero. -/
theorem passed_repeated (n : Nat) :
    (runLocalReplay (fun _ => true) ⟨1, .low⟩ (repeated n)).contractPassed = true
      ↔ n % 2 ^ 32 = 0 := by
  have hseverities := severities_repeated n
  obtain ⟨hcritical, hhigh, hmedium, hlow⟩ :=
    report_aggregates (fun _ => true) ⟨1, .low⟩ (repeated n)
  have hcount : ∀ q : Severity → Bool,
      (runLocalReplay (fun _ => true) ⟨1, .low⟩ (repeated n)).violations.countP
          (fun v => q v.severity)
        = if q .info then n else 0 := by
    intro q
    have hmap := List.countP_map (p := q) (f := TraceViolation.severity)
      (l := (runLocalReplay (fun _ => true) ⟨1, .low⟩ (repeated n)).violations)
    rw [hseverities, List.countP_replicate] at hmap
    exact hmap.symm
  have hcritical' := hcritical.trans (congrArg (· % 2 ^ 32) (hcount fun s => s = .critical))
  have hhigh' := hhigh.trans (congrArg (· % 2 ^ 32) (hcount fun s => s = .high))
  have hmedium' := hmedium.trans (congrArg (· % 2 ^ 32) (hcount fun s => s = .medium))
  have hlow' := hlow.trans (congrArg (· % 2 ^ 32) (hcount fun s => s = .low ∨ s = .info))
  have hzero : ∀ m : UInt32, m = 0 ↔ m.toNat = 0 := fun m => UInt32.toNat_inj.symm
  rw [show (runLocalReplay (fun _ => true) ⟨1, .low⟩ (repeated n)).contractPassed = true
    ↔ Clear (runLocalReplay (fun _ => true) ⟨1, .low⟩ (repeated n)).aggregates .low from
      passed_iff _ _]
  unfold Clear
  rw [hzero, hzero, hzero, hzero, hcritical', hhigh', hmedium', hlow']
  simp

/-- A configuration that fails a review at low severity. -/
def strictConfig : ReviewConfig := { ReviewConfig.default with failOn := .low }

/-- The evidence of a review of a repeated replay. -/
theorem evidence_repeated (n : Nat) :
    evidence id (reading n) (reviewOf [] (some "traces.jsonl"))
        (some (runLocalReplay (fun _ => true) ⟨1, .low⟩ (repeated n)))
      = if n % 2 ^ 32 = 0 then ⟨.replicate n .info, 0, false, none⟩
        else ⟨.replicate n .info ++ [.high], 0, true, none⟩ := by
  have hseverities : (findingsBeforeScore id (reading n) (reviewOf [] (some "traces.jsonl"))
      (some (runLocalReplay (fun _ => true) ⟨1, .low⟩ (repeated n)))).map FindingBody.severity
      = .replicate n .info ++ if n % 2 ^ 32 = 0 then [] else [.high] := by
    unfold findingsBeforeScore
    rw [List.map_append, severities_replayFindings, severities_repeated,
      if_congr (passed_repeated n) rfl rfl]
    rfl
  have hpassed := passed_repeated n
  unfold evidence
  rw [hseverities]
  by_cases h : n % 2 ^ 32 = 0
  · rw [if_pos h, if_pos h, List.append_nil, Option.any_some, hpassed.mpr h]
    rfl
  · rw [if_neg h, if_neg h, Option.any_some, Bool.eq_false_iff.mpr fun hp => h (hpassed.mp hp)]
    rfl

/-- A pass over a repeated replay. -/
theorem run_repeated (n : Nat) : ∃ outcome,
    run id (fun _ => true) (reading n) strictConfig (reviewOf [] (some "traces.jsonl"))
        = .ok outcome
      ∧ outcome.score = (if n % 2 ^ 32 = 0 then 1 else 65 / 100)
      ∧ (n ≠ 0 → outcome.recommendation
        = if n % 2 ^ 32 = 0 then .approveWithConditions else .block) := by
  have hok : ∃ outcome, run id (fun _ => true) (reading n) strictConfig
      (reviewOf [] (some "traces.jsonl")) = .ok outcome := ⟨_, rfl⟩
  obtain ⟨outcome, hrun⟩ := hok
  obtain ⟨replay, hreplay, -, hscore, hrecommendation⟩ :=
    outcome_of_run id (fun _ => true) (reading n) strictConfig _ hrun
  cases hreplay
  refine ⟨outcome, hrun, hscore.trans ?_, fun hne => hrecommendation.trans ?_⟩
  · refine (congrArg Evidence.score (evidence_repeated n)).trans ?_
    by_cases h : n % 2 ^ 32 = 0
    · rw [if_pos h, if_pos h]
      norm_num [Evidence.score, weight, clamp01]
    · rw [if_neg h, if_neg h]
      norm_num [Evidence.score, weight, clamp01]
  · refine (congrArg (Evidence.recommend strictConfig) (evidence_repeated n)).trans ?_
    have hthreshold : strictConfig.humanReviewThreshold = 6 / 10 := rfl
    have hfailOn : strictConfig.failOn = .low := rfl
    by_cases h : n % 2 ^ 32 = 0
    · have hlow : ¬ Severity.low ≤ .info := by decide
      rw [if_pos h, if_pos h]
      norm_num [Evidence.recommend, Evidence.allSeverities, hthreshold, hfailOn, hne, hlow]
      decide
    · have hhigh : Severity.low ≤ .high := by decide
      rw [if_neg h, if_neg h]
      simp [Evidence.recommend, Evidence.allSeverities, hfailOn, hhigh]

/-- A configuration that asks a human from a release risk of 0.7. -/
def carefulConfig : ReviewConfig := { ReviewConfig.default with humanReviewThreshold := 7 / 10 }

/-- A slight risk beside a grave one halves the mean: a review that asked for a human approves, with
a higher score. And one more trace that breaks a rule of severity info turns the counter of the
lowest severities over: a review that blocked approves. -/
theorem run_milder :
    (OneMore id (reading 0) (reading 0) (reviewOf [grave] none) (reviewOf [grave, slight] none)
      ∧ (reviewOf [grave, slight] none).InRange
      ∧ ∃ outcome outcome',
        run id (fun _ => true) (reading 0) carefulConfig (reviewOf [grave] none) = .ok outcome
        ∧ run id (fun _ => true) (reading 0) carefulConfig (reviewOf [grave, slight] none)
          = .ok outcome'
        ∧ outcome.recommendation = .humanReviewRequired
        ∧ outcome'.recommendation = .approveWithConditions ∧ outcome.score < outcome'.score)
    ∧ (OneMore id (reading (2 ^ 32 - 1)) (reading (2 ^ 32)) (reviewOf [] (some "traces.jsonl"))
        (reviewOf [] (some "traces.jsonl"))
      ∧ ∃ outcome outcome',
        run id (fun _ => true) (reading (2 ^ 32 - 1)) strictConfig
          (reviewOf [] (some "traces.jsonl")) = .ok outcome
        ∧ run id (fun _ => true) (reading (2 ^ 32)) strictConfig
          (reviewOf [] (some "traces.jsonl")) = .ok outcome'
        ∧ outcome.recommendation = .block
        ∧ outcome'.recommendation = .approveWithConditions ∧ outcome.score < outcome'.score) := by
  constructor
  · refine ⟨@OneMore.item id (reading 0) (reading 0) (reviewOf [grave] none) [grave] [] slight _
      (sameReads_refl _) rfl rfl rfl rfl (by decide) (fun _ h => nomatch h), ?_, _, _, rfl, rfl,
      by decide +kernel, by decide +kernel,
      by decide +kernel⟩
    intro i hi
    rcases List.mem_pair.mp hi with rfl | rfl
    · exact ⟨by norm_num [grave, openRisk], by norm_num [grave, openRisk], fun _ h => nomatch h⟩
    · exact ⟨by norm_num [slight, openRisk], by norm_num [slight, openRisk], fun _ h => nomatch h⟩
  · obtain ⟨outcome, hrun, hscore, hrecommendation⟩ := run_repeated (2 ^ 32 - 1)
    obtain ⟨outcome', hrun', hscore', hrecommendation'⟩ := run_repeated (2 ^ 32)
    refine ⟨@OneMore.trace id (reading (2 ^ 32 - 1)) (reading (2 ^ 32))
      (reviewOf [] (some "traces.jsonl")) "bundle" "traces.jsonl" "traces.jsonl"
      (repeated (2 ^ 32 - 1)) (repeated (2 ^ 32)) (.replicate (2 ^ 32 - 1) noticeTrace) []
      noticeTrace rfl rfl rfl rfl rfl (List.append_nil _).symm ?_, outcome, outcome', hrun,
      hrun', ?_, ?_, ?_⟩
    · exact List.replicate_succ'
    · exact (hrecommendation (by norm_num)).trans (if_neg (by norm_num))
    · exact (hrecommendation' (by norm_num)).trans (if_pos (by norm_num))
    · rw [hscore, hscore', if_neg (by norm_num), if_pos (by norm_num)]
      norm_num

end Agenomic.Rmp.Review
