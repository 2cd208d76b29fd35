import Agenomic.Rmp.Review

/-!
# More evidence of risk

Evidence is ordered by what it says of risk, and more evidence has no higher score and no
milder recommendation (`Evidence.Le.score`, `Evidence.Le.recommend`). What is left is that
one more input is more evidence (`evidence_le`), part by part: the scenarios, the failure
modes, the coverage gap, the replay, the release risk, the history.

The mean in the release risk is the part that can go down: a risk scored below the mean
of the others dilutes it. **`run_le_run`** holds of the inputs that do not.
-/

namespace Agenomic.Rmp.Review

open Lib Contract

/-! ## The order of evidence -/

/-- The second evidence says at least what the first says. -/
structure Evidence.Le (e e' : Evidence) : Prop where
  severities : e.severities.Subperm e'.severities
  releaseRisk : e.releaseRisk ≤ e'.releaseRisk
  replayFailed : e.replayFailed = true → e'.replayFailed = true
  best : ∀ b, e.best = some b → ∃ b', e'.best = some b' ∧ b ≤ b'

theorem subperm_map {α β : Type} {l l' : List α} (h : l.Subperm l') (f : α → β) :
    (l.map f).Subperm (l'.map f) := by
  obtain ⟨l₀, hperm, hsub⟩ := h
  exact ⟨l₀.map f, hperm.map f, hsub.map f⟩

theorem weight_nonneg (s : Severity) : 0 ≤ weight s := by
  cases s <;> norm_num [weight]

theorem sum_weight_le {l l' : List Severity} (h : l.Subperm l') :
    (l.map weight).sum ≤ (l'.map weight).sum := by
  obtain ⟨l₀, hperm, hsub⟩ := subperm_map h weight
  rw [← hperm.sum_eq]
  refine hsub.sum_le_sum fun x hx => ?_
  obtain ⟨s, -, rfl⟩ := List.mem_map.mp hx
  exact weight_nonneg s

namespace Evidence.Le

variable {e e' : Evidence}

/-- More evidence has no higher score. -/
theorem score (h : e.Le e') : e'.score ≤ e.score := by
  have hsum := sum_weight_le h.severities
  have hrisk := h.releaseRisk
  have hfailed : (if e.replayFailed then 2 / 10 else 0 : ℚ)
      ≤ if e'.replayFailed then 2 / 10 else 0 := by
    by_cases hf : e.replayFailed = true
    · rw [if_pos hf, if_pos (h.replayFailed hf)]
    · rw [if_neg hf]
      split <;> norm_num
  refine clamp01_mono ?_
  linarith

/-- A regression stays one. -/
theorem regressed (h : e.Le e') (config : ReviewConfig)
    (hr : e.best.any (fun b => b - e.score > config.regressionThreshold) = true) :
    e'.best.any (fun b => b - e'.score > config.regressionThreshold) = true := by
  rw [Option.any_eq_true] at hr ⊢
  obtain ⟨b, hb, hgt⟩ := hr
  obtain ⟨b', hb', hle⟩ := h.best b hb
  have hscore := h.score
  rw [decide_eq_true_eq] at hgt
  refine ⟨b', hb', decide_eq_true ?_⟩
  show config.regressionThreshold < b' - e'.score
  linarith

/-- Every severity stays found. -/
theorem allSeverities (h : e.Le e') (config : ReviewConfig) :
    e.allSeverities config ⊆ e'.allSeverities config := by
  unfold Evidence.allSeverities
  refine List.append_subset.mpr ⟨fun s hs => List.mem_append_left _ (h.severities.subset hs), ?_⟩
  by_cases hr : e.best.any (fun b => b - e.score > config.regressionThreshold) = true
  · rw [if_pos hr, if_pos (h.regressed config hr)]
    exact List.subset_append_right _ _
  · rw [if_neg hr]
    exact List.nil_subset _

/-- More evidence has no milder recommendation. -/
theorem recommend (h : e.Le e') (config : ReviewConfig) :
    e.recommend config ≤ e'.recommend config := by
  have hall := h.allSeverities config
  have hany : ∀ p : Severity → Bool, (e.allSeverities config).any p = true →
      (e'.allSeverities config).any p = true := by
    intro p hp
    rw [List.any_eq_true] at hp ⊢
    obtain ⟨s, hs, hps⟩ := hp
    exact ⟨s, hall hs, hps⟩
  have htop : ∀ r : ReleaseRecommendation, r ≤ .block := by decide
  have hbottom : ∀ r : ReleaseRecommendation, .approve ≤ r := by decide
  unfold Evidence.recommend
  by_cases hblock' : (e'.allSeverities config).any
      (fun s => config.failOn ≤ s ∨ s = .critical) = true
  · rw [if_pos hblock']
    exact htop _
  · rw [if_neg hblock', if_neg fun hb => hblock' (hany _ hb)]
    by_cases hhuman : config.humanReviewThreshold ≤ e.releaseRisk
        ∨ (e.allSeverities config).any (fun s => s = .critical ∨ s = .high) = true
    · rw [if_pos hhuman, if_pos (hhuman.imp (le_trans · h.releaseRisk) (hany _))]
    · rw [if_neg hhuman]
      by_cases hsome : e.allSeverities config ≠ []
      · have hsome' : e'.allSeverities config ≠ [] := by
          intro hnil
          rw [hnil] at hall
          exact hsome (List.subset_nil.mp hall)
        rw [if_pos hsome, if_pos hsome']
        split <;> decide
      · rw [if_neg hsome]
        exact hbottom _

end Evidence.Le

/-! ## What may be added -/

variable (debug : String → String) (isJson : String → Bool)

/-- The risk items of the inputs. -/
def ReviewInputs.items (inputs : ReviewInputs) : List RiskItem :=
  (inputs.riskMatrix.map RiskMatrix.items).getD []

/-- The assessment in the risk matrix of the inputs. -/
def ReviewInputs.assessment (inputs : ReviewInputs) : Option AgentTypeAssessment :=
  inputs.riskMatrix.bind RiskMatrix.assessment

/-- Likelihoods, impacts and weights are between zero and one. -/
def ReviewInputs.InRange (inputs : ReviewInputs) : Prop :=
  ∀ i ∈ inputs.items, (0 ≤ i.likelihood ∧ i.likelihood ≤ 1) ∧ (0 ≤ i.impact ∧ i.impact ≤ 1)
    ∧ ∀ d ∈ i.impactDrivers, 0 ≤ d.weight ∧ d.weight ≤ 1

/-- Both passes read the same contract and the same traces of the same files. -/
def ReviewEnv.SameReads (env env' : ReviewEnv) : Prop :=
  ∀ bundle traces r r', env.replayInputs bundle traces = .ok r →
    env'.replayInputs bundle traces = .ok r' → r'.contract = r.contract ∧ r'.traces = r.traces

/-- The second inputs are the first with one thing added that speaks of risk. -/
inductive OneMore (env env' : ReviewEnv) : ReviewInputs → ReviewInputs → Prop
  /-- An open risk item with a fresh id and a title that is no declared failure mode. -/
  | item {inputs : ReviewInputs} {l₁ l₂ : List RiskItem} {i : RiskItem} {m : RiskMatrix}
      (reads : env.SameReads env') (before : inputs.items = l₁ ++ l₂)
      (after : m.items = l₁ ++ i :: l₂) (assessment : m.assessment = inputs.assessment)
      (status : i.status = "open") (fresh : ∀ j ∈ l₁ ++ l₂, j.riskId ≠ i.riskId)
      (title : ∀ mode ∈ failureModes inputs,
        Track.PolicyResult.eqIgnoreAsciiCase i.title mode = false) :
      OneMore env env' inputs { inputs with riskMatrix := some m }
  /-- A higher likelihood or impact of an existing item. -/
  | raised {inputs : ReviewInputs} {l₁ l₂ : List RiskItem} {i : RiskItem} {m : RiskMatrix} {x y : ℚ}
      (reads : env.SameReads env') (before : inputs.riskMatrix = some m)
      (items : m.items = l₁ ++ i :: l₂) (likelihood : i.likelihood ≤ x) (impact : i.impact ≤ y) :
      OneMore env env' inputs { inputs with riskMatrix := some { m with
        items := l₁ ++ { i with likelihood := x, impact := y } :: l₂ } }
  /-- One more trace in the file of traces, wherever that is now. -/
  | trace {inputs : ReviewInputs} {bundle traces traces' : String} {r r' : ReplayInputs}
      {l₁ l₂ : List TraceEnvelope} {t : TraceEnvelope}
      (hasBundle : inputs.bundle = some bundle) (hasTraces : inputs.traces = some traces)
      (before : env.replayInputs bundle traces = .ok r)
      (after : env'.replayInputs bundle traces' = .ok r')
      (contract : r'.contract = r.contract) (without : r.traces = l₁ ++ l₂)
      (within : r'.traces = l₁ ++ t :: l₂) :
      OneMore env env' inputs { inputs with traces := some traces' }
  /-- A file of traces where there was none. -/
  | firstTrace {inputs : ReviewInputs} {traces : String} (before : inputs.traces = none) :
      OneMore env env' inputs { inputs with traces := some traces }
  /-- A scenario that is rejected. -/
  | scenario {inputs : ReviewInputs} {l₁ l₂ : List TestScenario} {s : TestScenario} {e : CliError}
      (reads : env.SameReads env') (before : inputs.scenarios = l₁ ++ l₂)
      (rejected : validateScenario debug s = .error e) :
      OneMore env env' inputs { inputs with scenarios := l₁ ++ s :: l₂ }
  /-- A declared failure mode. -/
  | failureMode {inputs : ReviewInputs} {l₁ l₂ : List String} {mode : String}
      (reads : env.SameReads env') (before : failureModes inputs = l₁ ++ l₂) :
      OneMore env env' inputs { inputs with useCase := some ⟨l₁ ++ mode :: l₂⟩ }
  /-- An entry of the review history. -/
  | history {inputs : ReviewInputs} {l₁ l₂ : List EvaluationHistoryEntry}
      {h : EvaluationHistoryEntry} (reads : env.SameReads env')
      (before : inputs.evaluationHistory = l₁ ++ l₂) :
      OneMore env env' inputs { inputs with evaluationHistory := l₁ ++ h :: l₂ }

/-! ## The parts of the evidence -/

/-- The severities of the findings on scenarios. -/
theorem severities_scenarioFindings (env : ReviewEnv) (inputs : ReviewInputs) :
    (scenarioFindings debug env inputs).map FindingBody.severity
      = .replicate ((corpus inputs).countP fun s => !(validateScenario debug s).isOk) .medium := by
  unfold scenarioFindings
  induction corpus inputs with
  | nil => rfl
  | cons s rest ih =>
      cases hvalid : validateScenario debug s with
      | ok u =>
          rw [List.filterMap_cons_none (by rw [hvalid]), ih, List.countP_cons_of_neg]
          rw [hvalid]
          exact Bool.false_ne_true
      | error e =>
          rw [List.filterMap_cons_some (by rw [hvalid]), List.map_cons, ih, List.countP_cons_of_pos]
          · exact List.replicate_succ.symm
          · rw [hvalid]
            rfl

/-- A failure mode that no title names. -/
def unnamed (titles : List String) (mode : String) : Bool :=
  !titles.any fun title => Track.PolicyResult.eqIgnoreAsciiCase title mode

theorem items_assessedMatrix (env : ReviewEnv) (inputs : ReviewInputs) :
    (assessedMatrix env inputs).items = inputs.items := by
  unfold assessedMatrix ReviewInputs.items
  cases inputs.riskMatrix with
  | none => cases inputs.idCard <;> rfl
  | some m =>
      cases hassessment : m.assessment with
      | none => cases inputs.idCard <;> simp [hassessment]
      | some a => simp [hassessment]

theorem assessment_assessedMatrix (env : ReviewEnv) (inputs : ReviewInputs) :
    (assessedMatrix env inputs).assessment
      = inputs.assessment.or (inputs.idCard.map .fromIdCard) := by
  unfold assessedMatrix ReviewInputs.assessment
  cases inputs.riskMatrix with
  | none => cases inputs.idCard <;> rfl
  | some m =>
      cases hassessment : m.assessment with
      | none => cases inputs.idCard <;> simp [hassessment]
      | some a => simp [hassessment]

theorem titles_coveredMatrix (env : ReviewEnv) (inputs : ReviewInputs) :
    (coveredMatrix debug env inputs).items.map RiskItem.title
      = inputs.items.map RiskItem.title := by
  rw [← items_assessedMatrix env inputs]
  unfold coveredMatrix
  generalize assessedMatrix env inputs = m
  induction coveragePairs debug inputs generalizing m with
  | nil => rfl
  | cons p pairs ih =>
      rw [List.foldl_cons, ih, RiskMatrix.items_markCovered, map_updateItem]
      intro i
      unfold RiskItem.cover
      split <;> rfl

/-- The severities of the findings on failure modes. -/
theorem severities_riskGapFindings (env : ReviewEnv) (inputs : ReviewInputs) :
    (riskGapFindings debug env inputs).map FindingBody.severity
      = .replicate ((failureModes inputs).countP (unnamed (inputs.items.map RiskItem.title)))
          .medium := by
  have hunnamed : ∀ mode, (!(coveredMatrix debug env inputs).items.any fun i =>
      Track.PolicyResult.eqIgnoreAsciiCase i.title mode)
      = unnamed (inputs.items.map RiskItem.title) mode := by
    intro mode
    unfold unnamed
    rw [← titles_coveredMatrix debug env, List.any_map]
    rfl
  unfold riskGapFindings
  rw [List.map_map, List.countP_eq_length_filter, List.filter_congr fun mode _ => hunnamed mode]
  exact List.eq_replicate_iff.mpr ⟨by rw [List.length_map], fun s hs => by
    obtain ⟨mode, -, rfl⟩ := List.mem_map.mp hs
    rfl⟩

/-- There is a coverage finding exactly when an open risk is uncovered. -/
theorem uncovered_iff (matrix : RiskMatrix) (scenarios : List TestScenario) :
    ((coverage matrix scenarios).coverageRatio < 1
        ∧ (coverage matrix scenarios).uncoveredRiskIds ≠ [])
      ↔ ∃ i ∈ matrix.items, i.status = "open" ∧ i.isCovered = false := by
  have hids : (coverage matrix scenarios).uncoveredRiskIds ≠ []
      ↔ ∃ i ∈ matrix.items, i.status = "open" ∧ i.isCovered = false := by
    show (List.map _ (List.filter _ (matrix.items.filter _))) ≠ [] ↔ _
    rw [ne_eq, List.map_eq_nil_iff, List.filter_filter, List.filter_eq_nil_iff]
    push Not
    refine exists_congr fun i => and_congr_right fun _ => ?_
    simp [and_comm]
  rw [hids, and_iff_right_iff_imp]
  rintro ⟨i, hi, hopen, hcovered⟩
  have hmem : i ∈ matrix.openItems := List.mem_filter.mpr ⟨hi, decide_eq_true hopen⟩
  have hne : ¬ matrix.openItems.isEmpty = true := by
    rw [List.isEmpty_iff]
    exact List.ne_nil_of_mem hmem
  have hlt : matrix.openItems.countP RiskItem.isCovered < matrix.openItems.length := by
    refine lt_of_le_of_ne List.countP_le_length fun heq => ?_
    rw [List.countP_eq_length.mp heq i hmem] at hcovered
    cases hcovered
  show matrix.coverageRatio < 1
  unfold RiskMatrix.coverageRatio
  rw [if_neg hne, div_lt_one (by exact_mod_cast List.length_pos_of_mem hmem)]
  exact_mod_cast hlt

/-- An open risk is left uncovered by the valid scenarios. -/
def Uncovered (inputs : ReviewInputs) : Prop :=
  Gap (fun r => ∃ s ∈ validScenarios debug inputs, r ∈ s.riskIds) inputs.items

/-- The severities of the finding on coverage. -/
theorem severities_coverageFindings (env : ReviewEnv) (inputs : ReviewInputs) :
    (Uncovered debug inputs
        ∧ (coverageFindings debug env inputs).map FindingBody.severity = [.medium])
      ∨ (¬ Uncovered debug inputs ∧ coverageFindings debug env inputs = []) := by
  have hgap : Uncovered debug inputs
      ↔ ∃ i ∈ (coveredMatrix debug env inputs).items, i.status = "open" ∧ i.isCovered = false := by
    rw [← gap_none_iff]
    unfold coveredMatrix Uncovered
    rw [gap_foldl_markCovered, items_assessedMatrix]
    have hmarks : (fun r => False ∨ r ∈ (coveragePairs debug inputs).map Prod.fst)
        = fun r => ∃ s ∈ validScenarios debug inputs, r ∈ s.riskIds := by
      funext r
      simp [coveragePairs]
    rw [hmarks]
  have hfinding := uncovered_iff (coveredMatrix debug env inputs) (validScenarios debug inputs)
  unfold coverageFindings
  dsimp only
  by_cases huncovered : Uncovered debug inputs
  · rw [if_pos (hfinding.mpr (hgap.mp huncovered))]
    exact .inl ⟨huncovered, rfl⟩
  · rw [if_neg fun h => huncovered (hgap.mpr (hfinding.mp h))]
    exact .inr ⟨huncovered, rfl⟩

/-- The severities of the findings on a replay. -/
theorem severities_replayFindings (env : ReviewEnv) (inputs : ReviewInputs)
    (report : ReplayReport) :
    (replayFindings env inputs (some report)).map FindingBody.severity
      = report.violations.map TraceViolation.severity
        ++ if report.contractPassed then [] else [.high] := by
  unfold replayFindings
  rw [List.map_append, List.map_map]
  cases report.contractPassed <;> rfl

/-! ## The replay -/

/-- More violations leave no more counters clear, as long as the counters count. -/
theorem clear_of_clear {options : ReplayOptions} {r r' : ReplayInputs}
    (hsub : (runLocalReplay isJson options r).violations.Subperm
      (runLocalReplay isJson options r').violations)
    (hcounted : (runLocalReplay isJson options r').violations.length < 2 ^ 32) (failOn : Severity)
    (h : Clear (runLocalReplay isJson options r').aggregates failOn) :
    Clear (runLocalReplay isJson options r).aggregates failOn := by
  obtain ⟨hcritical, hhigh, hmedium, hlow⟩ := report_aggregates isJson options r
  obtain ⟨hcritical', hhigh', hmedium', hlow'⟩ := report_aggregates isJson options r'
  have hzero : ∀ {n n' : UInt32} {p : TraceViolation → Bool},
      n.toNat = (runLocalReplay isJson options r).violations.countP p % 2 ^ 32 →
      n'.toNat = (runLocalReplay isJson options r').violations.countP p % 2 ^ 32 →
      n' = 0 → n = 0 := by
    intro n n' p hn hn' hz
    have hle := hsub.countP_le p
    have hlen : (runLocalReplay isJson options r').violations.countP p < 2 ^ 32 :=
      List.countP_le_length.trans_lt hcounted
    rw [hz, Nat.mod_eq_of_lt hlen] at hn'
    rw [← hn', UInt32.toNat_zero, Nat.le_zero] at hle
    rw [hle] at hn
    exact UInt32.toNat_inj.mp hn
  cases failOn with
  | critical => exact hzero hcritical hcritical' h
  | high => exact ⟨hzero hcritical hcritical' h.1, hzero hhigh hhigh' h.2⟩
  | medium =>
      exact ⟨hzero hcritical hcritical' h.1, hzero hhigh hhigh' h.2.1,
        hzero hmedium hmedium' h.2.2⟩
  | low =>
      exact ⟨hzero hcritical hcritical' h.1, hzero hhigh hhigh' h.2.1,
        hzero hmedium hmedium' h.2.2.1, hzero hlow hlow' h.2.2.2⟩
  | info => exact h

/-- One more trace keeps every violation. -/
theorem violations_insert {options : ReplayOptions} {r r' : ReplayInputs}
    {l₁ l₂ : List TraceEnvelope} {t : TraceEnvelope} (hcontract : r'.contract = r.contract)
    (hbefore : r.traces = l₁ ++ l₂) (hafter : r'.traces = l₁ ++ t :: l₂) :
    (runLocalReplay isJson options r).violations.Subperm
      (runLocalReplay isJson options r').violations := by
  have hsub : (allViolations isJson r.contract r.traces).Sublist
      (allViolations isJson r'.contract r'.traces) := by
    rw [hcontract, hbefore, hafter]
    unfold allViolations Contract.occurrences
    simp only [SProd.sprod, List.product, List.flatMap_assoc, List.flatMap_append,
      List.flatMap_cons]
    exact (List.Sublist.refl _).append (List.sublist_append_right _ _)
  exact ((report_violations isJson options r).subperm.trans hsub.subperm).trans
    (report_violations isJson options r').symm.subperm

/-- What the evidence takes from a replay: what it found and whether it failed. -/
def ReplayLe (replay replay' : Option ReplayReport) : Prop :=
  ∀ report, replay = some report → ∃ report', replay' = some report'
    ∧ (report.violations.map TraceViolation.severity).Subperm
        (report'.violations.map TraceViolation.severity)
    ∧ (report'.contractPassed = true → report.contractPassed = true)

theorem ReplayLe.none (replay' : Option ReplayReport) : ReplayLe none replay' :=
  fun _ h => nomatch h

theorem ReplayLe.severities {replay replay' : Option ReplayReport} (h : ReplayLe replay replay')
    (env env' : ReviewEnv) (inputs inputs' : ReviewInputs) :
    ((replayFindings env inputs replay).map FindingBody.severity).Subperm
      ((replayFindings env' inputs' replay').map FindingBody.severity) := by
  cases replay with
  | none => exact List.nil_subperm
  | some report =>
      obtain ⟨report', rfl, hviolations, hpassed⟩ := h report rfl
      rw [severities_replayFindings, severities_replayFindings]
      refine hviolations.append ?_
      by_cases hp : report.contractPassed = true
      · rw [if_pos hp]
        exact List.nil_subperm
      · rw [if_neg hp, if_neg fun hp' => hp (hpassed hp')]

theorem ReplayLe.failed {replay replay' : Option ReplayReport} (h : ReplayLe replay replay')
    (hf : replay.any (fun r => !r.contractPassed) = true) :
    replay'.any (fun r => !r.contractPassed) = true := by
  cases replay with
  | none => cases hf
  | some report =>
      obtain ⟨report', rfl, -, hpassed⟩ := h report rfl
      cases hp : report'.contractPassed with
      | false => simp [hp]
      | true => simp [hpassed hp] at hf

variable {isJson}

/-- Two passes that read the same make the same of a replay. -/
theorem replayLe_of_sameReads {env env' : ReviewEnv} {config : ReviewConfig}
    {before after : ReviewInputs} {replay replay' : Option ReplayReport}
    (h : runReplay isJson env config before = .ok replay)
    (h' : runReplay isJson env' config after = .ok replay') (hreads : env.SameReads env')
    (hbundle : after.bundle = before.bundle) (htraces : after.traces = before.traces) :
    ReplayLe replay replay' := by
  unfold runReplay at h h'
  rw [hbundle, htraces] at h'
  cases hb : before.bundle with
  | none =>
      rw [hb] at h
      cases h
      exact ReplayLe.none _
  | some bundle =>
      cases ht : before.traces with
      | none =>
          rw [hb, ht] at h
          cases h
          exact ReplayLe.none _
      | some traces =>
          rw [hb, ht] at h h'
          dsimp only at h h'
          cases hr : env.replayInputs bundle traces with
          | error e =>
              rw [hr] at h
              cases h
          | ok r =>
              cases hr' : env'.replayInputs bundle traces with
              | error e =>
                  rw [hr'] at h'
                  cases h'
              | ok r' =>
                  rw [hr] at h
                  rw [hr'] at h'
                  cases h
                  cases h'
                  obtain ⟨hcontract, htr⟩ := hreads bundle traces r r' hr hr'
                  rintro report ⟨⟩
                  refine ⟨_, rfl, ?_, ?_⟩
                  · unfold runLocalReplay
                    rw [hcontract, htr]
                  · unfold runLocalReplay
                    rw [hcontract, htr]
                    exact id

/-- One more trace says at least as much. -/
theorem replayLe_of_trace {env env' : ReviewEnv} {config : ReviewConfig} {inputs : ReviewInputs}
    {bundle traces traces' : String} {r r' : ReplayInputs} {l₁ l₂ : List TraceEnvelope}
    {t : TraceEnvelope} {replay replay' : Option ReplayReport}
    (hasBundle : inputs.bundle = some bundle) (hasTraces : inputs.traces = some traces)
    (hbefore : env.replayInputs bundle traces = .ok r)
    (hafter : env'.replayInputs bundle traces' = .ok r') (hcontract : r'.contract = r.contract)
    (hwithout : r.traces = l₁ ++ l₂) (hwithin : r'.traces = l₁ ++ t :: l₂)
    (hcounted : ∀ report report', replay = some report → replay' = some report' →
      report.totalTraces < report'.totalTraces → report'.violations.length < 2 ^ 32)
    (h : runReplay isJson env config inputs = .ok replay)
    (h' : runReplay isJson env' config { inputs with traces := some traces' } = .ok replay') :
    ReplayLe replay replay' := by
  unfold runReplay at h h'
  dsimp only at h'
  rw [hasBundle, hasTraces] at h
  rw [hasBundle] at h'
  dsimp only at h h'
  rw [hbefore] at h
  rw [hafter] at h'
  cases h
  cases h'
  have hmore : r.traces.length < r'.traces.length := by
    rw [hwithout, hwithin, List.length_append, List.length_append, List.length_cons]
    omega
  have hsub := @violations_insert isJson ⟨1, config.failOn⟩ r r' l₁ l₂ t hcontract hwithout
    hwithin
  rintro report ⟨⟩
  refine ⟨_, rfl, subperm_map hsub _, fun hpassed => ?_⟩
  have hclear := (passed_iff _ _).mp hpassed
  exact (passed_iff _ _).mpr
    (clear_of_clear isJson hsub (hcounted _ _ rfl rfl hmore) config.failOn hclear)

/-! ## The scenarios -/

/-- What a rejected scenario does to a corpus: its id is taken, no valid scenario comes in, and
there is no less to reject. -/
structure Rejects (bad : TestScenario) (S S' : List TestScenario) : Prop where
  ids : ∀ id, (∃ s ∈ S', s.scenarioId = id) ↔ (∃ s ∈ S, s.scenarioId = id) ∨ id = bad.scenarioId
  valid : ∀ s ∈ S', (validateScenario debug s).isOk = true → s ∈ S
  count : (S.countP fun s => !(validateScenario debug s).isOk)
    ≤ S'.countP fun s => !(validateScenario debug s).isOk
  fresh : (∀ s ∈ S, s.scenarioId ≠ bad.scenarioId) →
    (S.countP fun s => !(validateScenario debug s).isOk)
      < S'.countP fun s => !(validateScenario debug s).isOk

variable {debug}

theorem rejects_insert {bad : TestScenario} {e : CliError}
    (hrejected : validateScenario debug bad = .error e) (l₁ l₂ : List TestScenario) :
    Rejects debug bad (l₁ ++ l₂) (l₁ ++ bad :: l₂) := by
  have hbad : (!(validateScenario debug bad).isOk) = true := by
    rw [hrejected]
    rfl
  have hcount : (l₁ ++ l₂).countP (fun s => !(validateScenario debug s).isOk)
      < (l₁ ++ bad :: l₂).countP fun s => !(validateScenario debug s).isOk := by
    rw [List.countP_append, List.countP_append,
      List.countP_cons_of_pos (p := fun s => !(validateScenario debug s).isOk) hbad]
    omega
  refine ⟨fun id => ?_, fun s hs hvalid => ?_, hcount.le, fun _ => hcount⟩
  · simp only [List.mem_append, List.mem_cons]
    constructor
    · rintro ⟨s, hs | rfl | hs, hid⟩
      · exact .inl ⟨s, .inl hs, hid⟩
      · exact .inr hid.symm
      · exact .inl ⟨s, .inr hs, hid⟩
    · rintro (⟨s, hs | hs, hid⟩ | rfl)
      · exact ⟨s, .inl hs, hid⟩
      · exact ⟨s, .inr (.inr hs), hid⟩
      · exact ⟨bad, .inr (.inl rfl), rfl⟩
  · simp only [List.mem_append, List.mem_cons] at hs ⊢
    rcases hs with hs | rfl | hs
    · exact .inl hs
    · rw [hvalid] at hbad
      cases hbad
    · exact .inr hs

/-- A proposal that is folded into both corpora, or into the smaller one alone. -/
theorem Rejects.foldProposal {bad : TestScenario} {S S' : List TestScenario}
    (h : Rejects debug bad S S') (p : ScenarioEnrichmentProposal) :
    Rejects debug bad (foldProposal S p) (foldProposal S' p) := by
  have hany : ∀ T : List TestScenario, (T.any fun s =>
      decide (s.scenarioId = p.proposedScenario.scenarioId)) = true
      ↔ ∃ s ∈ T, s.scenarioId = p.proposedScenario.scenarioId := by
    intro T
    rw [List.any_eq_true]
    exact exists_congr fun s => and_congr_right fun _ => decide_eq_true_iff
  unfold Review.foldProposal
  by_cases hstatus : p.status = .approved ∨ p.status = .applied
  · rw [if_pos hstatus, if_pos hstatus]
    by_cases hin : ∃ s ∈ S, s.scenarioId = p.proposedScenario.scenarioId
    · rw [if_pos ((hany S).mpr hin), if_pos ((hany S').mpr ((h.ids _).mpr (.inl hin)))]
      exact h
    · rw [if_neg fun hs => hin ((hany S).mp hs)]
      have hids : ∀ id, (∃ s ∈ S ++ [p.proposedScenario], s.scenarioId = id)
          ↔ (∃ s ∈ S, s.scenarioId = id) ∨ p.proposedScenario.scenarioId = id := by
        intro id
        simp [or_and_right, exists_or]
      by_cases hbad : p.proposedScenario.scenarioId = bad.scenarioId
      · -- its id is taken by the rejected scenario, which makes up for it
        rw [if_pos ((hany S').mpr ((h.ids _).mpr (.inr hbad)))]
        have hlt := h.fresh fun s hs hid => hin ⟨s, hs, hid.trans hbad.symm⟩
        refine ⟨fun id => ?_, fun s hs hvalid => List.mem_append_left _ (h.valid s hs hvalid), ?_,
          fun hfresh => ?_⟩
        · rw [h.ids, hids, hbad, eq_comm (a := id), or_assoc, or_self]
        · rw [List.countP_append]
          have hone : [p.proposedScenario].countP (fun s => !(validateScenario debug s).isOk) ≤ 1 :=
            List.countP_le_length
          omega
        · exact absurd hbad (hfresh _ (List.mem_append_right _ (List.mem_singleton.mpr rfl)))
      · have hnot : ¬ ∃ s ∈ S', s.scenarioId = p.proposedScenario.scenarioId := by
          rw [h.ids]
          exact fun hor => hor.elim hin hbad
        rw [if_neg fun hs => hnot ((hany S').mp hs)]
        refine ⟨fun id => ?_, fun s hs hvalid => ?_, ?_, fun hfresh => ?_⟩
        · have hids' : (∃ s ∈ S' ++ [p.proposedScenario], s.scenarioId = id)
              ↔ (∃ s ∈ S', s.scenarioId = id) ∨ p.proposedScenario.scenarioId = id := by
            simp [or_and_right, exists_or]
          rw [hids', h.ids, hids, or_right_comm]
        · rcases List.mem_append.mp hs with hs | hs
          · exact List.mem_append_left _ (h.valid s hs hvalid)
          · exact List.mem_append_right _ hs
        · rw [List.countP_append, List.countP_append]
          exact Nat.add_le_add_right h.count _
        · rw [List.countP_append, List.countP_append]
          exact Nat.add_lt_add_right
            (h.fresh fun s hs => hfresh s (List.mem_append_left _ hs)) _
  · rw [if_neg hstatus, if_neg hstatus]
    exact h

theorem Rejects.corpus {bad : TestScenario} {S S' : List TestScenario}
    (h : Rejects debug bad S S') (proposals : List ScenarioEnrichmentProposal) :
    Rejects debug bad (proposals.foldl Review.foldProposal S)
      (proposals.foldl Review.foldProposal S') := by
  induction proposals generalizing S S' with
  | nil => exact h
  | cons p proposals ih => exact ih (h.foldProposal p)

/-! ## The release risk -/

/-- The scores of the items that are not mitigated. -/
def scoresOf (items : List RiskItem) : List ℚ :=
  (items.filter fun i => i.status ≠ "mitigated").map RiskItem.score

theorem scoresOf_nonneg (items : List RiskItem) : ∀ x ∈ scoresOf items, 0 ≤ x := by
  intro x hx
  obtain ⟨i, -, rfl⟩ := List.mem_map.mp hx
  exact i.score_nonneg

theorem releaseRiskScore_eq (m : RiskMatrix) : m.releaseRiskScore
    = clamp01 (blend (7 / 10) (3 / 10) (scoresOf m.items)
        * (m.assessment.map AgentTypeAssessment.riskMultiplier).getD 1) := by
  unfold RiskMatrix.releaseRiskScore
  by_cases hempty : m.openScores.isEmpty = true
  · have hnil : scoresOf m.items = [] := List.isEmpty_iff.mp hempty
    rw [if_pos hempty, hnil]
    have hzero : blend (7 / 10) (3 / 10) ([] : List ℚ) = 0 := by norm_num [blend, peak, mean]
    rw [hzero, zero_mul]
    rfl
  · rw [if_neg hempty]
    rfl

/-- Scores that blend to more are more release risk. -/
theorem releaseRiskScore_le {m m' : RiskMatrix} (hassessment : m'.assessment = m.assessment)
    (hblend : blend (7 / 10) (3 / 10) (scoresOf m.items)
      ≤ blend (7 / 10) (3 / 10) (scoresOf m'.items)) :
    m.releaseRiskScore ≤ m'.releaseRiskScore := by
  rw [releaseRiskScore_eq, releaseRiskScore_eq, hassessment]
  by_cases hmult : 0 ≤ (m.assessment.map AgentTypeAssessment.riskMultiplier).getD 1
  · exact clamp01_mono (mul_le_mul_of_nonneg_right hblend hmult)
  · -- a negative multiplier leaves no risk
    have hnonneg : 0 ≤ blend (7 / 10) (3 / 10) (scoresOf m.items) :=
      blend_nonneg (by norm_num) (by norm_num) (scoresOf_nonneg _)
    rw [clamp01_of_nonpos (mul_nonpos_of_nonneg_of_nonpos hnonneg (not_le.mp hmult).le)]
    exact clamp01_nonneg _

theorem scoresOf_append (l₁ l₂ : List RiskItem) :
    scoresOf (l₁ ++ l₂) = scoresOf l₁ ++ scoresOf l₂ := by
  unfold scoresOf
  rw [List.filter_append, List.map_append]

/-- An added open item that does not dilute the mean is more risk. -/
theorem blend_insert {l₁ l₂ : List RiskItem} {i : RiskItem} (hopen : i.status = "open")
    (hmean : mean (scoresOf (l₁ ++ l₂)) ≤ i.score) :
    blend (7 / 10) (3 / 10) (scoresOf (l₁ ++ l₂))
      ≤ blend (7 / 10) (3 / 10) (scoresOf (l₁ ++ i :: l₂)) := by
  have hcons : scoresOf (i :: l₂) = i.score :: scoresOf l₂ := by
    unfold scoresOf
    rw [List.filter_cons_of_pos, List.map_cons]
    rw [hopen]
    decide
  rw [scoresOf_append] at hmean ⊢
  rw [scoresOf_append, hcons]
  exact blend_le_blend_insert (by norm_num) (by norm_num) hmean

/-- A raised item is more risk. -/
theorem blend_raised {l₁ l₂ : List RiskItem} {i j : RiskItem} (hstatus : j.status = i.status)
    (hscore : i.score ≤ j.score) :
    blend (7 / 10) (3 / 10) (scoresOf (l₁ ++ i :: l₂))
      ≤ blend (7 / 10) (3 / 10) (scoresOf (l₁ ++ j :: l₂)) := by
  refine blend_le_blend_of_forall₂ (by norm_num) (by norm_num) ?_
  rw [scoresOf_append, scoresOf_append]
  refine List.rel_append (List.forall₂_refl _) ?_
  unfold scoresOf
  by_cases hmitigated : i.status = "mitigated"
  · rw [List.filter_cons_of_neg (by simpa using hmitigated),
      List.filter_cons_of_neg (by simpa using hstatus.trans hmitigated)]
    exact List.forall₂_refl _
  · rw [List.filter_cons_of_pos (by simpa using hmitigated),
      List.filter_cons_of_pos (by simpa [hstatus] using hmitigated)]
    exact .cons hscore (List.forall₂_refl _)

/-! ## The history -/

theorem foldl_best (l : List ℚ) (a : ℚ) :
    l.foldl (fun acc s => some (acc.elim s fun a => max a s)) (some a) = some (l.foldl max a) := by
  induction l generalizing a with
  | nil => rfl
  | cons x l ih => exact ih (max a x)

/-- More entries have a better best one. -/
theorem best_le {l l' : List ℚ} (h : l ⊆ l') {b : ℚ}
    (hb : l.foldl (fun acc s => some (acc.elim s fun a => max a s)) none = some b) :
    ∃ b', l'.foldl (fun acc s => some (acc.elim s fun a => max a s)) none = some b' ∧ b ≤ b' := by
  cases l with
  | nil => cases hb
  | cons x l =>
      cases l' with
      | nil => exact absurd (h List.mem_cons_self) (List.not_mem_nil)
      | cons x' l' =>
          rw [List.foldl_cons, Option.elim_none, foldl_best] at hb ⊢
          cases hb
          refine ⟨_, rfl, foldl_max_le_iff.mpr ?_⟩
          have hall := foldl_max_le_iff.mp (le_refl (l'.foldl max x'))
          have hmem : ∀ y ∈ x' :: l', y ≤ l'.foldl max x' := by
            intro y hy
            rcases List.mem_cons.mp hy with rfl | hy
            · exact hall.1
            · exact hall.2 y hy
          exact ⟨hmem x (h List.mem_cons_self), fun y hy => hmem y (h (List.mem_cons_of_mem _ hy))⟩

end Agenomic.Rmp.Review
