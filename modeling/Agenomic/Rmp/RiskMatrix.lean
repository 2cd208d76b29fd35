import Agenomic.Lib.Blend
import Agenomic.Track.Event

/-!
# The risk matrix

The typed risks of one agent, with the classification of the agent that scales them.
Review reads two things off a matrix: the release risk, a blend of the largest and the
mean score of the risks that are not mitigated, and which open risks no scenario covers.

A mark on a risk changes neither its score nor its status (`openScores_markCovered`), and
a mark covers the first item with its id. **`gap_foldl_markCovered`** says which open risks
stay uncovered under any list of marks.
-/

namespace Agenomic.Rmp

open Lib
open Track (Timestamp)

/-! ## The agent -/

/-- What the classification reads of an agent id card. -/
structure AgentIdCard where
  agentType : String
  allowedTools : List String
  autonomous : Bool
  humanApprovalRequiredFor : List String
  deriving DecidableEq, Repr

/-- Classification of the agent's autonomy and coupling, which scales its risks. -/
structure AgentTypeAssessment where
  agentType : String
  autonomyLevel : ℚ
  externalSideEffects : Bool
  humanInTheLoop : Bool
  rationale : String
  deriving DecidableEq, Repr

namespace AgentTypeAssessment

/-- A tool whose name speaks of effects outside. -/
def hasSideEffects (tool : String) : Bool :=
  ["payment", "email", "send", "write", "delete", "refund", "post", "exec"].any fun k =>
    decide (k.toList <:+: tool.toList.map Char.toLower)

/-- Deterministically classify from an agent id card. -/
def fromIdCard (card : AgentIdCard) : AgentTypeAssessment :=
  let humanInTheLoop := !card.humanApprovalRequiredFor.isEmpty
  { agentType :=
      if card.agentType ≠ "" then card.agentType
      else if card.autonomous then "autonomous"
      else "assistant"
    autonomyLevel := match card.autonomous, humanInTheLoop with
      | true, false => 9 / 10
      | true, true => 6 / 10
      | false, false => 4 / 10
      | false, true => 2 / 10
    externalSideEffects := card.allowedTools.any hasSideEffects
    humanInTheLoop
    rationale := "deterministic classification from agent id card" }

/-- Risk multiplier derived from autonomy and side effects. -/
def riskMultiplier (a : AgentTypeAssessment) : ℚ :=
  let m := 1 + a.autonomyLevel * (1 / 2)
  let m := if a.externalSideEffects then m + 3 / 10 else m
  let m := if !a.humanInTheLoop then m + 2 / 10 else m
  min m 2

end AgentTypeAssessment

/-! ## The risks -/

/-- A driver that scales the impact of a risk. -/
structure ImpactDriver where
  driver : String
  weight : ℚ
  deriving DecidableEq, Repr

/-- One risk in the matrix. -/
structure RiskItem where
  riskId : String
  title : String
  likelihood : ℚ
  impact : ℚ
  impactDrivers : List ImpactDriver
  /-- Scenario ids covering this risk. -/
  coveredByScenarios : List String
  /-- Finding ids observed for this risk. -/
  observedFindings : List String
  /-- `open`, `mitigated` or `accepted`. -/
  status : String
  updatedAt : Option Timestamp
  deriving DecidableEq, Repr

namespace RiskItem

/-- How much the drivers raise the impact. -/
def driverBoost (i : RiskItem) : ℚ :=
  if i.impactDrivers.isEmpty then 1
  else 1 + mean (i.impactDrivers.map fun d => clamp01 d.weight) * (1 / 2)

/-- Raw score: likelihood × impact, weighted by impact drivers. -/
def score (i : RiskItem) : ℚ := clamp01 (i.likelihood * i.impact * i.driverBoost)

/-- Whether at least one scenario covers this risk. -/
def isCovered (i : RiskItem) : Bool := !i.coveredByScenarios.isEmpty

/-- A scenario covers the risk. -/
def cover (scenarioId : String) (i : RiskItem) : RiskItem :=
  if scenarioId ∈ i.coveredByScenarios then i
  else { i with coveredByScenarios := i.coveredByScenarios ++ [scenarioId] }

/-- A finding is evidence of the risk. -/
def observe (now : Timestamp) (findingId : String) (i : RiskItem) : RiskItem :=
  if findingId ∈ i.observedFindings then i
  else { i with observedFindings := i.observedFindings ++ [findingId], updatedAt := some now }

theorem driverBoost_pos (i : RiskItem) : 0 < i.driverBoost := by
  unfold driverBoost
  by_cases hempty : i.impactDrivers.isEmpty = true
  · rw [if_pos hempty]
    exact zero_lt_one
  · rw [if_neg hempty]
    have hmean : 0 ≤ mean (i.impactDrivers.map fun d => clamp01 d.weight) := by
      refine mean_nonneg fun x hx => ?_
      obtain ⟨d, -, rfl⟩ := List.mem_map.mp hx
      exact clamp01_nonneg _
    positivity

theorem score_nonneg (i : RiskItem) : 0 ≤ i.score := clamp01_nonneg _

/-- A higher likelihood or impact scores higher. -/
theorem score_le_score {i j : RiskItem} (hdrivers : j.impactDrivers = i.impactDrivers)
    (hlikelihood : i.likelihood ≤ j.likelihood) (himpact : i.impact ≤ j.impact)
    (hnonneg : 0 ≤ j.likelihood) (hnonneg' : 0 ≤ i.impact) : i.score ≤ j.score := by
  have hboost : j.driverBoost = i.driverBoost := by
    unfold driverBoost
    rw [hdrivers]
  unfold score
  rw [hboost]
  exact clamp01_mono (mul_le_mul_of_nonneg_right
    (mul_le_mul hlikelihood himpact hnonneg' hnonneg) (driverBoost_pos i).le)

theorem isCovered_cover (scenarioId : String) (i : RiskItem) :
    (i.cover scenarioId).isCovered = true := by
  unfold cover isCovered
  by_cases hmem : scenarioId ∈ i.coveredByScenarios
  · rw [if_pos hmem]
    cases hcovered : i.coveredByScenarios with
    | nil =>
        rw [hcovered] at hmem
        cases hmem
    | cons => rfl
  · rw [if_neg hmem]
    cases i.coveredByScenarios <;> rfl

end RiskItem

/-- The full risk matrix for one agent. -/
structure RiskMatrix where
  specVersion : String
  matrixId : String
  agentId : String
  genomeHash : Option String
  assessment : Option AgentTypeAssessment
  items : List RiskItem
  createdAt : Option Timestamp
  updatedAt : Option Timestamp
  deriving DecidableEq, Repr

/-- Change the first item with an id. -/
def updateItem (riskId : String) (f : RiskItem → RiskItem) : List RiskItem → List RiskItem
  | [] => []
  | i :: rest => if i.riskId = riskId then f i :: rest else i :: updateItem riskId f rest

namespace RiskMatrix

/-- Create an empty matrix for an agent. -/
def new (matrixId : String) (now : Timestamp) (agentId : String) : RiskMatrix where
  specVersion := "agenomic.rmp.risk-matrix/v0.1"
  matrixId
  agentId
  genomeHash := none
  assessment := none
  items := []
  createdAt := some now
  updatedAt := none

/-- The scores of the risks that are not mitigated. -/
def openScores (m : RiskMatrix) : List ℚ :=
  (m.items.filter fun i => i.status ≠ "mitigated").map RiskItem.score

/-- Aggregate release-risk score: the max item score, blended with the mean and scaled by the
agent-type multiplier. -/
def releaseRiskScore (m : RiskMatrix) : ℚ :=
  if m.openScores.isEmpty then 0
  else
    let base := blend (7 / 10) (3 / 10) m.openScores
    let mult := (m.assessment.map AgentTypeAssessment.riskMultiplier).getD 1
    clamp01 (base * mult)

/-- The open risks. -/
def openItems (m : RiskMatrix) : List RiskItem := m.items.filter fun i => i.status = "open"

/-- Fraction of open risks covered by at least one scenario. -/
def coverageRatio (m : RiskMatrix) : ℚ :=
  if m.openItems.isEmpty then 1
  else (m.openItems.countP RiskItem.isCovered : ℚ) / m.openItems.length

/-- Find a risk item by id. -/
def item (m : RiskMatrix) (riskId : String) : Option RiskItem :=
  m.items.find? fun i => i.riskId = riskId

/-- Record that a scenario covers a risk. -/
def markCovered (now : Timestamp) (riskId scenarioId : String) (m : RiskMatrix) : RiskMatrix :=
  match m.item riskId with
  | none => m
  | some i =>
      if scenarioId ∈ i.coveredByScenarios then m
      else { m with items := updateItem riskId (RiskItem.cover scenarioId) m.items,
                    updatedAt := some now }

/-- Record production evidence (a finding) against a risk. -/
def recordObservation (now : Timestamp) (riskId findingId : String) (m : RiskMatrix) :
    RiskMatrix :=
  match m.item riskId with
  | none => m
  | some i =>
      if findingId ∈ i.observedFindings then m
      else { m with items := updateItem riskId (RiskItem.observe now findingId) m.items,
                    updatedAt := some now }

end RiskMatrix

/-! ## What a mark changes -/

/-- An update that leaves the item as it is when it is found. -/
theorem updateItem_of_find {riskId : String} {f : RiskItem → RiskItem} {items : List RiskItem}
    (h : ∀ i, items.find? (fun i => i.riskId = riskId) = some i → f i = i) :
    updateItem riskId f items = items := by
  induction items with
  | nil => rfl
  | cons i rest ih =>
      unfold updateItem
      by_cases hid : i.riskId = riskId
      · rw [if_pos hid, h i (List.find?_cons_of_pos (decide_eq_true hid))]
      · rw [if_neg hid, ih fun j hj => h j ?_]
        rw [List.find?_cons_of_neg (by simpa using hid)]
        exact hj

/-- What an update keeps of every item it keeps of the list. -/
theorem map_updateItem {α : Type} {g : RiskItem → α} {f : RiskItem → RiskItem}
    (h : ∀ i, g (f i) = g i) (riskId : String) (items : List RiskItem) :
    (updateItem riskId f items).map g = items.map g := by
  induction items with
  | nil => rfl
  | cons i rest ih =>
      unfold updateItem
      by_cases hid : i.riskId = riskId
      · rw [if_pos hid, List.map_cons, List.map_cons, h]
      · rw [if_neg hid, List.map_cons, List.map_cons, ih]

namespace RiskMatrix

/-- What the release risk reads of an item. -/
def riskView (i : RiskItem) : Bool × ℚ := (decide (i.status ≠ "mitigated"), i.score)

theorem openScores_eq (m : RiskMatrix) :
    m.openScores = ((m.items.map riskView).filter Prod.fst).map Prod.snd := by
  unfold openScores
  rw [List.filter_map, List.map_map]
  rfl

theorem riskView_cover (scenarioId : String) (i : RiskItem) :
    riskView (i.cover scenarioId) = riskView i := by
  unfold RiskItem.cover
  split <;> rfl

theorem riskView_observe (now : Timestamp) (findingId : String) (i : RiskItem) :
    riskView (i.observe now findingId) = riskView i := by
  unfold RiskItem.observe
  split <;> rfl

theorem items_markCovered (now : Timestamp) (riskId scenarioId : String) (m : RiskMatrix) :
    (m.markCovered now riskId scenarioId).items
      = updateItem riskId (RiskItem.cover scenarioId) m.items := by
  unfold markCovered item
  cases hfind : m.items.find? fun i => i.riskId = riskId with
  | none =>
      refine (updateItem_of_find fun i hi => ?_).symm
      rw [hfind] at hi
      cases hi
  | some i =>
      dsimp only
      by_cases hmem : scenarioId ∈ i.coveredByScenarios
      · rw [if_pos hmem]
        refine (updateItem_of_find fun j hj => ?_).symm
        rw [hfind] at hj
        cases hj
        exact if_pos hmem
      · rw [if_neg hmem]

theorem items_recordObservation (now : Timestamp) (riskId findingId : String) (m : RiskMatrix) :
    (m.recordObservation now riskId findingId).items
      = updateItem riskId (RiskItem.observe now findingId) m.items := by
  unfold recordObservation item
  cases hfind : m.items.find? fun i => i.riskId = riskId with
  | none =>
      refine (updateItem_of_find fun i hi => ?_).symm
      rw [hfind] at hi
      cases hi
  | some i =>
      dsimp only
      by_cases hmem : findingId ∈ i.observedFindings
      · rw [if_pos hmem]
        refine (updateItem_of_find fun j hj => ?_).symm
        rw [hfind] at hj
        cases hj
        exact if_pos hmem
      · rw [if_neg hmem]

theorem assessment_markCovered (now : Timestamp) (riskId scenarioId : String) (m : RiskMatrix) :
    (m.markCovered now riskId scenarioId).assessment = m.assessment := by
  unfold markCovered
  split
  · rfl
  · split <;> rfl

theorem assessment_recordObservation (now : Timestamp) (riskId findingId : String)
    (m : RiskMatrix) : (m.recordObservation now riskId findingId).assessment = m.assessment := by
  unfold recordObservation
  split
  · rfl
  · split <;> rfl

/-- A matrix whose risks weigh the same: same scores that count, same multiplier. -/
def SameRisk (m m' : RiskMatrix) : Prop :=
  m'.items.map riskView = m.items.map riskView ∧ m'.assessment = m.assessment

theorem SameRisk.trans {m m' m'' : RiskMatrix} (h : m.SameRisk m') (h' : m'.SameRisk m'') :
    m.SameRisk m'' := ⟨h'.1.trans h.1, h'.2.trans h.2⟩

theorem SameRisk.releaseRiskScore {m m' : RiskMatrix} (h : m.SameRisk m') :
    m'.releaseRiskScore = m.releaseRiskScore := by
  unfold RiskMatrix.releaseRiskScore
  rw [openScores_eq, openScores_eq, h.1, h.2]

theorem sameRisk_markCovered (now : Timestamp) (riskId scenarioId : String) (m : RiskMatrix) :
    m.SameRisk (m.markCovered now riskId scenarioId) :=
  ⟨by rw [items_markCovered, map_updateItem (riskView_cover scenarioId)],
    assessment_markCovered ..⟩

theorem sameRisk_recordObservation (now : Timestamp) (riskId findingId : String)
    (m : RiskMatrix) : m.SameRisk (m.recordObservation now riskId findingId) :=
  ⟨by rw [items_recordObservation, map_updateItem (riskView_observe now findingId)],
    assessment_recordObservation ..⟩

/-- Marks and observations in any number weigh nothing. -/
theorem sameRisk_foldl {α : Type} {f : RiskMatrix → α → RiskMatrix}
    (h : ∀ (m : RiskMatrix) a, m.SameRisk (f m a)) (l : List α) (m : RiskMatrix) :
    m.SameRisk (l.foldl f m) := by
  induction l generalizing m with
  | nil => exact ⟨rfl, rfl⟩
  | cons a l ih => exact (h m a).trans (ih (f m a))

end RiskMatrix

/-! ## The risks left uncovered -/

/-- Some open risk stays uncovered when every id of a set is marked: the marks of an id go to the
first item that has it. -/
def Gap (marked : String → Prop) : List RiskItem → Prop
  | [] => False
  | i :: rest =>
      (i.status = "open" ∧ i.isCovered = false ∧ ¬ marked i.riskId)
        ∨ Gap (fun r => marked r ∧ r ≠ i.riskId) rest

/-- Fewer marks leave more uncovered. -/
theorem Gap.anti {marked marked' : String → Prop} (h : ∀ r, marked' r → marked r)
    {items : List RiskItem} (hgap : Gap marked items) : Gap marked' items := by
  induction items generalizing marked marked' with
  | nil => exact hgap
  | cons i rest ih =>
      rcases hgap with ⟨hopen, hcovered, hnot⟩ | hrest
      · exact .inl ⟨hopen, hcovered, fun hm => hnot (h _ hm)⟩
      · exact .inr (ih (fun r hr => ⟨h r hr.1, hr.2⟩) hrest)

/-- One more item takes no cover from the others' gaps. -/
theorem Gap.insert {marked : String → Prop} {l₁ l₂ : List RiskItem}
    (h : Gap marked (l₁ ++ l₂)) (i : RiskItem) : Gap marked (l₁ ++ i :: l₂) := by
  induction l₁ generalizing marked with
  | nil => exact .inr (h.anti fun r hr => hr.1)
  | cons j l₁ ih => exact h.imp_right ih

/-- What says whether an item is open and covered, and which marks are its own. -/
def gapView (i : RiskItem) : String × Bool × String := (i.status, i.isCovered, i.riskId)

theorem Gap.congr {marked : String → Prop} {items items' : List RiskItem}
    (hviews : items'.map gapView = items.map gapView) (h : Gap marked items) :
    Gap marked items' := by
  induction items generalizing items' marked with
  | nil => cases h
  | cons i rest ih =>
      cases items' with
      | nil => cases hviews
      | cons i' rest' =>
          rw [List.map_cons, List.map_cons, List.cons.injEq] at hviews
          obtain ⟨hview, hrest⟩ := hviews
          unfold gapView at hview
          rw [Prod.mk.injEq, Prod.mk.injEq] at hview
          obtain ⟨hstatus, hcovered, hid⟩ := hview
          unfold Gap
          rw [hstatus, hcovered, hid]
          exact h.imp_right (ih hrest)

theorem gap_updateItem (marked : String → Prop) (riskId scenarioId : String)
    (items : List RiskItem) :
    Gap marked (updateItem riskId (RiskItem.cover scenarioId) items)
      ↔ Gap (fun r => marked r ∨ r = riskId) items := by
  induction items generalizing marked with
  | nil => exact .rfl
  | cons i rest ih =>
      unfold updateItem
      by_cases hid : i.riskId = riskId
      · -- the mark goes here, and later items of the id are left to the rest
        rw [if_pos hid]
        have hcovered := i.isCovered_cover scenarioId
        have hid' : (i.cover scenarioId).riskId = i.riskId := by
          unfold RiskItem.cover
          split <;> rfl
        unfold Gap
        rw [hcovered, hid', hid]
        have hmarks : (fun r => (marked r ∨ r = riskId) ∧ r ≠ riskId)
            = fun r => marked r ∧ r ≠ riskId := by
          funext r
          rw [or_and_right, eq_iff_iff]
          simp
        rw [hmarks]
        simp
      · rw [if_neg hid]
        unfold Gap
        have hmarks : (fun r => (marked r ∧ r ≠ i.riskId) ∨ r = riskId)
            = fun r => (marked r ∨ r = riskId) ∧ r ≠ i.riskId := by
          funext r
          rw [or_and_right, eq_iff_iff]
          refine or_congr_right ⟨fun hr => ⟨hr, fun hr' => hid (hr'.symm.trans hr)⟩, And.left⟩
        rw [ih, hmarks]
        simp [hid]

/-- **Which risks stay uncovered** after a list of marks. -/
theorem gap_foldl_markCovered (now : Timestamp) (marked : String → Prop)
    (pairs : List (String × String)) (m : RiskMatrix) :
    Gap marked (pairs.foldl (fun m p => m.markCovered now p.1 p.2) m).items
      ↔ Gap (fun r => marked r ∨ r ∈ pairs.map Prod.fst) m.items := by
  induction pairs generalizing m with
  | nil => simp
  | cons p pairs ih =>
      rw [List.foldl_cons, ih, RiskMatrix.items_markCovered, gap_updateItem]
      have hmarks : (fun r => (marked r ∨ r ∈ pairs.map Prod.fst) ∨ r = p.1)
          = fun r => marked r ∨ r ∈ (p :: pairs).map Prod.fst := by
        funext r
        rw [List.map_cons, List.mem_cons, or_assoc, or_comm (a := r = p.1)]
      rw [hmarks]

/-- With no marks, a gap is an open risk that is not covered. -/
theorem gap_none_iff (items : List RiskItem) :
    Gap (fun _ => False) items ↔ ∃ i ∈ items, i.status = "open" ∧ i.isCovered = false := by
  induction items with
  | nil => simp [Gap]
  | cons i rest ih =>
      unfold Gap
      rw [List.exists_mem_cons_iff, ← ih]
      simp

end Agenomic.Rmp
