import Agenomic.Lib.JsonObject

/-!
# The unified RMP report

`build_rmp_report` folds the findings of three loops into one worst severity, and
from that and the review's own recommendation makes a verdict and a score. The
gating flags of the findings (`blocks_release`, `requires_human_review`) travel
beside their severities and are not looked at.

The verdict depends on the outcomes only through the review's recommendation and
the worst severity (`verdict`), so what holds of every set of findings is a finite
statement about these two. **`neverUnderstates_iff`** says exactly when the report
does not understate its evidence.
-/

namespace Agenomic.Rmp

open Lib

/-- Severity of a finding, least first. -/
inductive Severity where
  | info | low | medium | high | critical
  deriving DecidableEq, Repr

def Severity.rank : Severity → Nat
  | .info => 0
  | .low => 1
  | .medium => 2
  | .high => 3
  | .critical => 4

theorem Severity.rank_injective : Function.Injective Severity.rank := by
  intro a b h
  cases a <;> cases b <;> first | rfl | cases h

instance : Fintype Severity :=
  ⟨{.info, .low, .medium, .high, .critical}, by intro s; cases s <;> decide⟩

instance : LinearOrder Severity := LinearOrder.lift' Severity.rank Severity.rank_injective

/-- The release recommendation, most permissive first. -/
inductive ReleaseRecommendation where
  | approve | approveWithConditions | humanReviewRequired | block
  deriving DecidableEq, Repr

def ReleaseRecommendation.rank : ReleaseRecommendation → Nat
  | .approve => 0
  | .approveWithConditions => 1
  | .humanReviewRequired => 2
  | .block => 3

theorem ReleaseRecommendation.rank_injective : Function.Injective ReleaseRecommendation.rank := by
  intro a b h
  cases a <;> cases b <;> first | rfl | cases h

instance : Fintype ReleaseRecommendation :=
  ⟨{.approve, .approveWithConditions, .humanReviewRequired, .block}, by
    intro r; cases r <;> decide⟩

instance : LinearOrder ReleaseRecommendation :=
  LinearOrder.lift' ReleaseRecommendation.rank ReleaseRecommendation.rank_injective

/-! ## What the report is built from -/

/-- A finding of any loop, as the report reads it. -/
structure Finding where
  /-- The label of its kind. -/
  kind : String
  severity : Severity
  evidenceRefs : List String
  blocksRelease : Bool
  requiresHumanReview : Bool
  deriving DecidableEq, Repr

/-- A finding with the gating flags its severity sets. -/
def Finding.new (kind : String) (severity : Severity) : Finding where
  kind := kind
  severity := severity
  evidenceRefs := []
  blocksRelease := decide (severity = .critical)
  requiresHumanReview := decide (severity = .critical ∨ severity = .high)

/-- An enrichment proposal; the report reads its id. -/
structure ScenarioEnrichmentProposal where
  proposalId : String
  body : Json

structure ReviewOutcome where
  releaseRiskScore : ℚ
  recommendation : ReleaseRecommendation
  findings : List Finding

structure MonitorOutcome where
  findings : List Finding
  scenarioProposals : List ScenarioEnrichmentProposal
  /-- The hash of the tracking report. -/
  reportHash : Option String

structure ProtectOutcome where
  anomalyFindings : List Finding
  /-- The evidence of each alert. -/
  alerts : List (List String)
  scenarioProposals : List ScenarioEnrichmentProposal

structure RmpReport where
  finalRiskScore : ℚ
  releaseRecommendation : ReleaseRecommendation
  findingCounts : Std.ExtTreeMap String Nat
  review : Option ReviewOutcome
  monitor : Option MonitorOutcome
  protect : Option ProtectOutcome
  scenarioProposals : List ScenarioEnrichmentProposal
  evidenceRefs : List String
  ledgerProof : Option Json
  verificationStatus : String

/-! ## Building the report -/

/-- What is accumulated over the findings. -/
structure Tally where
  findingCounts : Std.ExtTreeMap String Nat
  evidenceRefs : List String
  worst : Option Severity

def Tally.zero : Tally := ⟨∅, [], none⟩

/-- The worse of what was seen and one more severity. -/
def worsen (worst : Option Severity) (s : Severity) : Option Severity :=
  some (worst.elim s fun w => max w s)

/-- One more finding. -/
def Tally.add (t : Tally) (f : Finding) : Tally where
  findingCounts := t.findingCounts.insert f.kind (t.findingCounts.getD f.kind 0 + 1)
  evidenceRefs := t.evidenceRefs ++ f.evidenceRefs
  worst := worsen t.worst f.severity

/-- All findings of a loop. -/
def Tally.count (t : Tally) (findings : List Finding) : Tally := findings.foldl Tally.add t

/-- More evidence. -/
def Tally.cite (t : Tally) (refs : List String) : Tally :=
  { t with evidenceRefs := t.evidenceRefs ++ refs }

/-- Keep the first proposal of each id. -/
def retainFirst (seen : List String) :
    List ScenarioEnrichmentProposal → List ScenarioEnrichmentProposal
  | [] => []
  | p :: ps =>
      if p.proposalId ∈ seen then retainFirst seen ps
      else p :: retainFirst (p.proposalId :: seen) ps

/-- What the worst finding is worth at least. -/
def severityFloor : Option Severity → ℚ
  | some .critical => 8 / 10
  | some .high => 6 / 10
  | some .medium => 35 / 100
  | some .low => 15 / 100
  | _ => 0

/-- The recommendation, from the review's own and the worst severity. -/
def verdict : Option ReleaseRecommendation → Option Severity → ReleaseRecommendation
  | some _, some .critical => .block
  | some .approve, some .high => .humanReviewRequired
  | some rec, _ => rec
  | none, some .critical => .block
  | none, some .high => .humanReviewRequired
  | none, some _ => .approveWithConditions
  | none, none => .approve

/-- `verification_passed` of a ledger proof. -/
def verificationStatus : Option Json → String
  | some (.obj fields) =>
      if Json.lookup "verification_passed" fields matches some (.bool true) then "verified"
      else "failed"
  | some _ => "failed"
  | none => "unverified"

/-- The findings of the review, when it ran. -/
def Tally.review (t : Tally) (review : Option ReviewOutcome) : Tally :=
  review.elim t fun r => t.count r.findings

/-- The findings of the monitor, and its report. -/
def Tally.monitor (t : Tally) (monitor : Option MonitorOutcome) : Tally :=
  monitor.elim t fun m =>
    (t.count m.findings).cite (m.reportHash.elim [] fun hash => [s!"track-report:{hash}"])

/-- The findings of protect, and its alerts. -/
def Tally.protect (t : Tally) (protect : Option ProtectOutcome) : Tally :=
  protect.elim t fun p => (t.count p.anomalyFindings).cite p.alerts.flatten

/-- The tally of all loops that ran. -/
def tally (review : Option ReviewOutcome) (monitor : Option MonitorOutcome)
    (protect : Option ProtectOutcome) : Tally :=
  ((Tally.zero.review review).monitor monitor).protect protect

/-- Assemble the unified report from whatever loops ran. -/
def buildRmpReport (review : Option ReviewOutcome) (monitor : Option MonitorOutcome)
    (protect : Option ProtectOutcome) (ledgerProof : Option Json) : RmpReport :=
  let t := tally review monitor protect
  { finalRiskScore := max (review.elim 0 ReviewOutcome.releaseRiskScore) (severityFloor t.worst)
    releaseRecommendation := verdict (review.map ReviewOutcome.recommendation) t.worst
    findingCounts := t.findingCounts
    review, monitor, protect
    scenarioProposals := retainFirst [] (monitor.elim [] MonitorOutcome.scenarioProposals
      ++ protect.elim [] ProtectOutcome.scenarioProposals)
    evidenceRefs := (t.evidenceRefs.mergeSort fun a b => decide (a ≤ b)).destutter (· ≠ ·)
    ledgerProof
    verificationStatus := verificationStatus ledgerProof }

/-! ## The worst severity -/

/-- What the loops found. -/
structure Outcomes where
  review : Option ReviewOutcome
  monitor : Option MonitorOutcome
  protect : Option ProtectOutcome

namespace Outcomes

/-- The findings of every loop. -/
def findings (o : Outcomes) : List Finding :=
  o.review.elim [] ReviewOutcome.findings ++ (o.monitor.elim [] MonitorOutcome.findings
    ++ o.protect.elim [] ProtectOutcome.anomalyFindings)

/-- The report on them. -/
def report (o : Outcomes) (ledgerProof : Option Json) : RmpReport :=
  buildRmpReport o.review o.monitor o.protect ledgerProof

end Outcomes

/-- The worst severity of some findings. -/
def worstOf (findings : List Finding) : Option Severity :=
  findings.foldl (fun w f => worsen w f.severity) none

theorem count_worst (t : Tally) (fs : List Finding) :
    (t.count fs).worst = fs.foldl (fun w f => worsen w f.severity) t.worst := by
  unfold Tally.count
  induction fs generalizing t with
  | nil => rfl
  | cons f fs ih => exact ih (t.add f)

/-- The tally has the worst severity of all findings, whatever loop they are from. -/
theorem tally_worst (o : Outcomes) :
    (tally o.review o.monitor o.protect).worst = worstOf o.findings := by
  have hreview : (Tally.zero.review o.review).worst
      = (o.review.elim [] ReviewOutcome.findings).foldl (fun w f => worsen w f.severity) none := by
    cases o.review with
    | none => rfl
    | some r => exact count_worst _ _
  have hmonitor : ∀ t : Tally, (t.monitor o.monitor).worst
      = (o.monitor.elim [] MonitorOutcome.findings).foldl (fun w f => worsen w f.severity)
          t.worst := by
    intro t
    cases o.monitor with
    | none => rfl
    | some m => exact count_worst _ _
  have hprotect : ∀ t : Tally, (t.protect o.protect).worst
      = (o.protect.elim [] ProtectOutcome.anomalyFindings).foldl (fun w f => worsen w f.severity)
          t.worst := by
    intro t
    cases o.protect with
    | none => rfl
    | some p => exact count_worst _ _
  unfold worstOf Outcomes.findings tally
  rw [List.foldl_append, List.foldl_append, hprotect, hmonitor, hreview]

/-- What the worst severity of no finding and of some findings is. -/
def IsWorst (findings : List Finding) : Option Severity → Prop
  | none => findings = []
  | some s => (∃ f ∈ findings, f.severity = s) ∧ ∀ f ∈ findings, f.severity ≤ s

theorem isWorst_worsen {fs : List Finding} {w : Option Severity} (h : IsWorst fs w) (f : Finding) :
    IsWorst (fs ++ [f]) (worsen w f.severity) := by
  cases w with
  | none =>
      have hnil : fs = [] := h
      subst hnil
      refine ⟨⟨f, List.mem_cons_self, rfl⟩, fun g hg => ?_⟩
      rw [List.mem_singleton.mp hg]
      exact le_rfl
  | some s =>
      obtain ⟨⟨g, hg, hgs⟩, hle⟩ := h
      refine ⟨?_, fun g' hg' => ?_⟩
      · rcases le_total s f.severity with hs | hs
        · exact ⟨f, by simp, (max_eq_right hs).symm⟩
        · exact ⟨g, by simp [hg], hgs.trans (max_eq_left hs).symm⟩
      · rcases List.mem_append.mp hg' with hold | hnew
        · exact (hle g' hold).trans (le_max_left _ _)
        · rw [List.mem_singleton.mp hnew]
          exact le_max_right _ _

/-- **The worst severity is one a finding has, and none is worse.** -/
theorem isWorst_worstOf (fs : List Finding) : IsWorst fs (worstOf fs) := by
  induction fs using List.reverseRecOn with
  | nil => exact rfl
  | append_singleton fs f ih =>
      unfold worstOf at ih ⊢
      rw [List.foldl_append]
      exact isWorst_worsen ih f

/-- One severity is at least as bad as the other; none at all is best. -/
def AtMost (w w' : Option Severity) : Prop := ∀ s, w = some s → ∃ s', w' = some s' ∧ s ≤ s'

/-- More findings have no better worst severity. -/
theorem worstOf_mono {fs fs' : List Finding} (h : fs ⊆ fs') : AtMost (worstOf fs) (worstOf fs') := by
  intro s hs
  have hw := isWorst_worstOf fs
  rw [hs] at hw
  obtain ⟨⟨f, hf, rfl⟩, -⟩ := hw
  have hw' := isWorst_worstOf fs'
  cases hs' : worstOf fs' with
  | none =>
      rw [hs'] at hw'
      have hnil : fs' = [] := hw'
      rw [hnil] at h
      exact absurd (h hf) List.not_mem_nil
  | some s' =>
      rw [hs'] at hw'
      exact ⟨s', rfl, hw'.2 f (h hf)⟩

/-! ## The verdict -/

/-- A worse severity has no milder verdict. -/
theorem verdict_mono (rec : Option ReleaseRecommendation) {w w' : Option Severity}
    (h : AtMost w w') : verdict rec w ≤ verdict rec w' := by
  cases w with
  | none =>
      clear h
      revert rec w'
      decide
  | some s =>
      obtain ⟨s', rfl, hle⟩ := h s rfl
      clear h
      revert rec s s'
      decide

theorem severityFloor_mono {w w' : Option Severity} (h : AtMost w w') :
    severityFloor w ≤ severityFloor w' := by
  cases w with
  | none =>
      cases w' with
      | none => exact le_rfl
      | some s' => cases s' <;> norm_num [severityFloor]
  | some s =>
      obtain ⟨s', rfl, hle⟩ := h s rfl
      clear h
      cases s <;> cases s' <;> first
        | exact absurd hle (by decide)
        | norm_num [severityFloor]

/-- The verdict is never milder than the review's own. -/
theorem le_verdict (rec : ReleaseRecommendation) (w : Option Severity) :
    rec ≤ verdict (some rec) w := by
  revert rec w
  decide

theorem verdict_eq_block_iff (rec : Option ReleaseRecommendation) (w : Option Severity) :
    verdict rec w = .block ↔ w = some .critical ∨ rec = some .block := by
  revert rec w
  decide

theorem human_le_verdict_iff (rec : Option ReleaseRecommendation) (w : Option Severity) :
    .humanReviewRequired ≤ verdict rec w ↔ w = some .critical
      ∨ (∃ r, rec = some r ∧ .humanReviewRequired ≤ r)
      ∨ (w = some .high ∧ (rec = none ∨ rec = some .approve)) := by
  revert rec w
  decide

/-- A stricter review has no milder verdict, unless the worst finding is of high severity
and the review goes from an approval to an approval with conditions. -/
theorem verdict_stricter_iff (rec : ReleaseRecommendation) (w : Option Severity) :
    (∀ rec', rec ≤ rec' → verdict (some rec) w ≤ verdict (some rec') w)
      ↔ ¬ (rec = .approve ∧ w = some .high) := by
  revert rec w
  decide

/-! ## When the report does not understate its evidence -/

namespace Outcomes

/-- The review's own recommendation. -/
def recommendation (o : Outcomes) : Option ReleaseRecommendation :=
  o.review.map ReviewOutcome.recommendation

theorem report_recommendation (o : Outcomes) (ledgerProof : Option Json) :
    (o.report ledgerProof).releaseRecommendation
      = verdict o.recommendation (worstOf o.findings) := by
  show verdict _ (tally o.review o.monitor o.protect).worst = _
  rw [tally_worst]
  rfl

theorem report_riskScore (o : Outcomes) (ledgerProof : Option Json) :
    (o.report ledgerProof).finalRiskScore
      = max (o.review.elim 0 ReviewOutcome.releaseRiskScore)
          (severityFloor (worstOf o.findings)) := by
  show max _ (severityFloor (tally o.review o.monitor o.protect).worst) = _
  rw [tally_worst]

/-- One finding put somewhere into a list. -/
def Inserts (f : Finding) (fs fs' : List Finding) : Prop :=
  ∃ before after, fs = before ++ after ∧ fs' = before ++ f :: after

/-- The outcomes with one more finding in one of the loops that ran. -/
inductive Adds (o : Outcomes) : Outcomes → Prop
  | review {r fs f} (hr : o.review = some r) (hf : Inserts f r.findings fs) :
      Adds o { o with review := some { r with findings := fs } }
  | monitor {m fs f} (hm : o.monitor = some m) (hf : Inserts f m.findings fs) :
      Adds o { o with monitor := some { m with findings := fs } }
  | protect {p fs f} (hp : o.protect = some p) (hf : Inserts f p.anomalyFindings fs) :
      Adds o { o with protect := some { p with anomalyFindings := fs } }

/-- The outcomes with a stricter recommendation of the review. -/
inductive Stricter (o : Outcomes) : Outcomes → Prop
  | review {r rec} (hr : o.review = some r) (hrec : r.recommendation ≤ rec) :
      Stricter o { o with review := some { r with recommendation := rec } }

/-- The report on these outcomes is no milder than on those. -/
def NoMilder (o o' : Outcomes) : Prop := ∀ ledgerProof ledgerProof',
  (o.report ledgerProof).releaseRecommendation ≤ (o'.report ledgerProof').releaseRecommendation
    ∧ (o.report ledgerProof).finalRiskScore ≤ (o'.report ledgerProof').finalRiskScore

/-- The report does not understate its evidence. -/
structure NeverUnderstates (o : Outcomes) : Prop where
  review : ∀ ledgerProof r, o.review = some r →
    r.recommendation ≤ (o.report ledgerProof).releaseRecommendation
  blocks : ∀ ledgerProof, (∃ f ∈ o.findings, f.blocksRelease = true ∨ f.severity = .critical) →
    (o.report ledgerProof).releaseRecommendation = .block
  human : ∀ ledgerProof, (∃ f ∈ o.findings, f.requiresHumanReview = true ∨ f.severity = .high) →
    .humanReviewRequired ≤ (o.report ledgerProof).releaseRecommendation
  adds : ∀ o', o.Adds o' → o.NoMilder o'
  stricter : ∀ o', o.Stricter o' → o.NoMilder o'

/-- What the code does not look at stands in no finding that matters: a finding that blocks
the release comes with a critical one or a blocking review; one that wants a human, with a
critical one, a review that wants one too, or no review and a finding of high severity; and
under a review that approves, with conditions or without, no finding is of high severity
unless one is critical. -/
structure FlagsFollowSeverity (o : Outcomes) : Prop where
  blocks : (∃ f ∈ o.findings, f.blocksRelease = true) →
    (∃ f ∈ o.findings, f.severity = .critical) ∨ o.recommendation = some .block
  human : (∃ f ∈ o.findings, f.requiresHumanReview = true) →
    (∃ f ∈ o.findings, f.severity = .critical)
      ∨ (∃ rec, o.recommendation = some rec ∧ .humanReviewRequired ≤ rec)
      ∨ (o.recommendation = none ∧ ∃ f ∈ o.findings, f.severity = .high)
  approval : (∃ f ∈ o.findings, f.severity = .high) →
    (∃ f ∈ o.findings, f.severity = .critical)
      ∨ ∀ rec, o.recommendation = some rec → .humanReviewRequired ≤ rec

theorem Adds.findings_subset {o o' : Outcomes} (h : o.Adds o') : o.findings ⊆ o'.findings := by
  have hsub : ∀ {f fs fs'}, Inserts f fs fs' → fs ⊆ fs' := by
    rintro f fs fs' ⟨before, after, rfl, rfl⟩
    exact List.append_subset.mpr ⟨List.subset_append_left _ _,
      List.Subset.trans (List.subset_cons_self f after) (List.subset_append_right _ _)⟩
  cases h with
  | review hr hf =>
      unfold findings
      rw [hr]
      exact List.append_subset.mpr ⟨List.Subset.trans (hsub hf) (List.subset_append_left _ _),
        List.subset_append_right _ _⟩
  | monitor hm hf =>
      unfold findings
      rw [hm]
      refine List.append_subset.mpr ⟨List.subset_append_left _ _, ?_⟩
      refine List.Subset.trans ?_ (List.subset_append_right _ _)
      exact List.append_subset.mpr ⟨List.Subset.trans (hsub hf) (List.subset_append_left _ _),
        List.subset_append_right _ _⟩
  | protect hp hf =>
      unfold findings
      rw [hp]
      refine List.append_subset.mpr ⟨List.subset_append_left _ _, ?_⟩
      refine List.Subset.trans ?_ (List.subset_append_right _ _)
      exact List.append_subset.mpr ⟨List.subset_append_left _ _,
        List.Subset.trans (hsub hf) (List.subset_append_right _ _)⟩

theorem Adds.recommendation {o o' : Outcomes} (h : o.Adds o') :
    o'.recommendation = o.recommendation := by
  cases h with
  | review hr hf =>
      unfold Outcomes.recommendation
      rw [hr]
      rfl
  | monitor hm hf => rfl
  | protect hp hf => rfl

theorem Adds.riskScore {o o' : Outcomes} (h : o.Adds o') :
    o'.review.elim 0 ReviewOutcome.releaseRiskScore
      = o.review.elim 0 ReviewOutcome.releaseRiskScore := by
  cases h with
  | review hr hf =>
      rw [hr]
      rfl
  | monitor hm hf => rfl
  | protect hp hf => rfl

/-- One more finding never makes the report milder. -/
theorem Adds.noMilder {o o' : Outcomes} (h : o.Adds o') : o.NoMilder o' := by
  intro ledgerProof ledgerProof'
  have hworst := worstOf_mono h.findings_subset
  rw [report_recommendation, report_recommendation, report_riskScore, report_riskScore,
    h.recommendation, h.riskScore]
  exact ⟨verdict_mono _ hworst, max_le_max le_rfl (severityFloor_mono hworst)⟩

/-- A severity that some finding has, when it is the worst, and only then. -/
theorem worstOf_eq_critical_iff (fs : List Finding) :
    worstOf fs = some .critical ↔ ∃ f ∈ fs, f.severity = .critical := by
  have hw := isWorst_worstOf fs
  constructor
  · intro h
    rw [h] at hw
    exact hw.1
  · rintro ⟨f, hf, hcrit⟩
    cases h : worstOf fs with
    | none =>
        rw [h] at hw
        rw [show fs = [] from hw] at hf
        exact absurd hf List.not_mem_nil
    | some s =>
        rw [h] at hw
        have hle := hw.2 f hf
        rw [hcrit] at hle
        revert hle
        cases s <;> decide

theorem worstOf_eq_high_iff (fs : List Finding) :
    worstOf fs = some .high ↔ (∃ f ∈ fs, f.severity = .high)
      ∧ ¬ ∃ f ∈ fs, f.severity = .critical := by
  rw [← worstOf_eq_critical_iff]
  have hw := isWorst_worstOf fs
  constructor
  · intro h
    rw [h] at hw ⊢
    exact ⟨hw.1, by decide⟩
  · rintro ⟨⟨f, hf, hhigh⟩, hncrit⟩
    cases h : worstOf fs with
    | none =>
        rw [h] at hw
        rw [show fs = [] from hw] at hf
        exact absurd hf List.not_mem_nil
    | some s =>
        rw [h] at hw hncrit
        have hle := hw.2 f hf
        rw [hhigh] at hle
        revert hle hncrit
        cases s <;> decide

theorem Stricter.noMilder_iff (o : Outcomes) : (∀ o', o.Stricter o' → o.NoMilder o')
    ↔ ¬ (o.recommendation = some .approve ∧ worstOf o.findings = some .high) := by
  constructor
  · rintro h ⟨happ, hhigh⟩
    obtain ⟨r, hr, hrec⟩ := Option.map_eq_some_iff.mp happ
    have hstrict : o.Stricter { o with review := some { r with
        recommendation := .approveWithConditions } } := by
      refine .review hr ?_
      rw [hrec]
      decide
    have hmild := (h _ hstrict none none).1
    rw [report_recommendation, report_recommendation, happ, hhigh] at hmild
    have hsame : worstOf (Outcomes.findings { o with review := some { r with
        recommendation := .approveWithConditions } }) = worstOf o.findings := by
      unfold findings
      rw [hr]
      rfl
    rw [hsame, hhigh] at hmild
    have hlower : verdict (some .approveWithConditions) (some .high)
        < verdict (some .approve) (some .high) := by decide
    exact absurd hmild (not_le.mpr hlower)
  · intro hnot o' hstrict ledgerProof ledgerProof'
    cases hstrict with
    | review hr hrec =>
        rename_i r rec
        have hsame : worstOf (Outcomes.findings { o with review := some { r with
            recommendation := rec } }) = worstOf o.findings := by
          unfold findings
          rw [hr]
          rfl
        have hown : o.recommendation = some r.recommendation := by
          unfold recommendation
          rw [hr]
          rfl
        rw [hown] at hnot
        constructor
        · rw [report_recommendation, report_recommendation, hsame, hown]
          refine (verdict_stricter_iff r.recommendation _).mpr ?_ rec hrec
          rintro ⟨happ, hhigh⟩
          exact hnot ⟨congrArg some happ, hhigh⟩
        · rw [report_riskScore, report_riskScore, hsame, hr]
          exact le_rfl

/-- **The report understates no evidence exactly when the gating flags and the severities
that the code does not weigh add nothing to those it does.** -/
theorem neverUnderstates_iff (o : Outcomes) : o.NeverUnderstates ↔ o.FlagsFollowSeverity := by
  have hcrit := worstOf_eq_critical_iff o.findings
  have hhigh := worstOf_eq_high_iff o.findings
  constructor
  · intro h
    have hstrict := (Stricter.noMilder_iff o).mp h.stricter
    -- an approval with a finding of high severity is ruled out by the stricter review
    have hhuman : .humanReviewRequired ≤ (o.report none).releaseRecommendation →
        worstOf o.findings = some .critical
          ∨ (∃ rec, o.recommendation = some rec ∧ .humanReviewRequired ≤ rec)
          ∨ (o.recommendation = none ∧ worstOf o.findings = some .high) := by
      intro hle
      rw [report_recommendation, human_le_verdict_iff] at hle
      rcases hle with hc | hr | ⟨hw, hn | ha⟩
      · exact .inl hc
      · exact .inr (.inl hr)
      · exact .inr (.inr ⟨hn, hw⟩)
      · exact absurd ⟨ha, hw⟩ hstrict
    refine ⟨?_, ?_, ?_⟩
    · rintro ⟨f, hf, hflag⟩
      have hblock := h.blocks none ⟨f, hf, .inl hflag⟩
      rw [report_recommendation, verdict_eq_block_iff, hcrit] at hblock
      exact hblock
    · rintro ⟨f, hf, hflag⟩
      rcases hhuman (h.human none ⟨f, hf, .inl hflag⟩) with hc | hr | ⟨hn, hw⟩
      · exact .inl (hcrit.mp hc)
      · exact .inr (.inl hr)
      · exact .inr (.inr ⟨hn, (hhigh.mp hw).1⟩)
    · rintro ⟨f, hf, hsev⟩
      rcases hhuman (h.human none ⟨f, hf, .inr hsev⟩) with hc | ⟨rec, hrec, hle⟩ | ⟨hn, hw⟩
      · exact .inl (hcrit.mp hc)
      · refine .inr fun rec' hrec' => ?_
        rw [hrec] at hrec'
        exact Option.some.inj hrec' ▸ hle
      · refine .inr fun rec' hrec' => ?_
        rw [hn] at hrec'
        cases hrec'
  · intro h
    -- a finding of high severity escalates, or is under a review that wants a human
    have hsev : (∃ f ∈ o.findings, f.severity = .high) →
        .humanReviewRequired ≤ verdict o.recommendation (worstOf o.findings) := by
      intro hex
      rw [human_le_verdict_iff]
      by_cases hc : ∃ f ∈ o.findings, f.severity = .critical
      · exact .inl (hcrit.mpr hc)
      · rcases h.approval hex with hc' | hall
        · exact absurd hc' hc
        · cases hrec : o.recommendation with
          | none => exact .inr (.inr ⟨hhigh.mpr ⟨hex, hc⟩, .inl rfl⟩)
          | some rec => exact .inr (.inl ⟨rec, rfl, hall rec hrec⟩)
    refine ⟨fun ledgerProof r hr => ?_, fun ledgerProof hflag => ?_, fun ledgerProof hflag => ?_,
      fun _ hadds => hadds.noMilder, (Stricter.noMilder_iff o).mpr ?_⟩
    · rw [report_recommendation, recommendation, hr]
      exact le_verdict r.recommendation _
    · rw [report_recommendation, verdict_eq_block_iff, hcrit]
      obtain ⟨f, hf, hb | hc⟩ := hflag
      · exact h.blocks ⟨f, hf, hb⟩
      · exact .inl ⟨f, hf, hc⟩
    · rw [report_recommendation]
      obtain ⟨f, hf, hq | hs⟩ := hflag
      · rcases h.human ⟨f, hf, hq⟩ with hc | hr | ⟨-, hex⟩
        · exact (human_le_verdict_iff _ _).mpr (.inl (hcrit.mpr hc))
        · exact (human_le_verdict_iff _ _).mpr (.inr (.inl hr))
        · exact hsev hex
      · exact hsev ⟨f, hf, hs⟩
    · rintro ⟨happ, hw⟩
      obtain ⟨hex, hnc⟩ := hhigh.mp hw
      rcases h.approval hex with hc | hall
      · exact hnc hc
      · exact absurd (hall _ happ) (by decide)

/-- A review that approves with conditions, and one monitor finding of high severity. -/
def conditional : Outcomes where
  review := some ⟨1 / 10, .approveWithConditions, []⟩
  monitor := some ⟨[Finding.new "drift" .high], [], none⟩
  protect := none

/-- The finding asks for a human; the report approves with conditions. -/
theorem not_neverUnderstates_conditional : ¬ conditional.NeverUnderstates := by
  intro h
  have hle := h.human none ⟨Finding.new "drift" .high, List.mem_singleton_self _, .inl rfl⟩
  rw [report_recommendation] at hle
  exact absurd hle (by decide)

end Outcomes

end Agenomic.Rmp
