import Agenomic.Gate.Decision

/-!
# What an approval changes

A call is held, a reviewer approves it, and it comes to the gate again with the approval.
Only the rules for irreversible tools look at the approval: they drop a block as well as a
hold, and the hold of a call that sends to someone unapproved stays
(`approvalClears_iff`).
-/

namespace Agenomic.Gate

open Lib Prompt

/-- The call with what a reviewer said of it. -/
def ToolCall.resume (call : ToolCall) (approval : HumanApproval) : ToolCall :=
  { call with humanApproval := some approval }

/-- An approval clears a hold and no block, and a call that was blocked is not executed. -/
def ApprovalClears (engine : RegoEngine) (r : GateRuleSet) (call : ToolCall)
    (approval : HumanApproval) : Prop :=
  ∀ before after : GateOutcome,
    evaluate engine r call .empty = .ok before →
    evaluate engine r (call.resume approval) .empty = .ok after →
    (before.decision = .block → after.decision = .block)
    ∧ (before.decision = .requireHumanApproval → after.decision = .allow)
    ∧ (before.decision = .allow → after.decision = .allow)
    ∧ (before.decision = .block → ∀ (executed : Bool),
        ∀ d ∈ resolutionDescriptors (call.resume approval) approval after executed,
          d.eventType ≠ "tool.call.executed")

variable {r : GateRuleSet} {call : ToolCall} {approval : HumanApproval}

/-- The first five families do not see the approval. -/
theorem blockedAnyway_resume : BlockedAnyway r (call.resume approval) ↔ BlockedAnyway r call :=
  Iff.rfl

theorem egressReview_resume : EgressReview r (call.resume approval) ↔ EgressReview r call :=
  Iff.rfl

theorem not_unapproved_resume (happroved : approval.isApproved = true) :
    ¬Unapproved r (call.resume approval) := by
  intro h
  have hno : approval.isApproved = false := h.2
  rw [happroved] at hno
  cases hno

theorem unapproved_of_none (hnone : call.humanApproval = none) :
    Unapproved r call ↔ call.tool ∈ r.irreversibleTools := by
  unfold Unapproved ToolCall.isApproved
  rw [hnone]
  simp

/-- A resumed call is blocked by the first five families only. -/
theorem blocks_resume (happroved : approval.isApproved = true) :
    Blocks (evaluateInvariants r (call.resume approval)) ↔ BlockedAnyway r call := by
  rw [blocks_evaluateInvariants, blockedAnyway_resume]
  have hno : ¬Unapproved r (call.resume approval) := not_unapproved_resume happroved
  simp [hno]

/-- A resumed call is held only when it sends to someone unapproved. -/
theorem holds_resume (happroved : approval.isApproved = true) :
    Holds (evaluateInvariants r (call.resume approval)) ↔ EgressReview r call := by
  rw [holds_evaluateInvariants, egressReview_resume]
  have hno : ¬Unapproved r (call.resume approval) := not_unapproved_resume happroved
  simp [hno]

/-- What is blocked on resumption is not executed. -/
theorem not_executed_of_block {outcome : GateOutcome} (hblock : outcome.decision = .block)
    (executed : Bool) :
    ∀ d ∈ resolutionDescriptors call approval outcome executed,
      d.eventType ≠ "tool.call.executed" := by
  have hno : ¬(approval.isApproved = true ∧ outcome.isAllowed = true) := by
    intro h
    have hallow := of_decide_eq_true h.2
    rw [hblock] at hallow
    cases hallow
  unfold resolutionDescriptors
  dsimp only
  rw [if_neg hno]
  intro d hd
  rcases List.mem_cons.mp hd with rfl | hd
  · show "human.review." ++ approval.disposition.label ≠ "tool.call.executed"
    cases approval.disposition <;> decide
  · rw [List.mem_singleton.mp hd]
    show "tool.call.blocked" ≠ "tool.call.executed"
    decide

/-- What the gate decides of a call and of the call as it is resumed. -/
theorem approvalClears_of_decisions {engine : RegoEngine}
    (h : ∀ before after, before = GateDecision.decide (evaluateInvariants r call) →
      after = GateDecision.decide (evaluateInvariants r (call.resume approval)) →
      (before = .block → after = .block) ∧ (before = .requireHumanApproval → after = .allow)
        ∧ (before = .allow → after = .allow)) :
    ApprovalClears engine r call approval := by
  intro before after hbefore hafter
  obtain ⟨o, ho, hdec⟩ := evaluate_empty engine r call
  obtain ⟨o', ho', hdec'⟩ := evaluate_empty engine r (call.resume approval)
  rw [ho] at hbefore
  rw [ho'] at hafter
  cases hbefore
  cases hafter
  obtain ⟨hblock, hreview, hallow⟩ := h _ _ hdec hdec'
  exact ⟨hblock, hreview, hallow, fun hb => not_executed_of_block (hblock hb)⟩

/-- **When an approval clears just the holds**: one of the first five families blocks the call, or
it is neither an untrusted call of an irreversible tool nor one that sends to someone unapproved. -/
theorem approvalClears_iff (engine : RegoEngine) (r : GateRuleSet) (call : ToolCall)
    (approval : HumanApproval) (hnone : call.humanApproval = none)
    (happroved : approval.isApproved = true) :
    ApprovalClears engine r call approval
      ↔ BlockedAnyway r call
        ∨ (¬(call.tool ∈ r.irreversibleTools ∧ call.provenance = .untrusted)
            ∧ ¬EgressReview r call) := by
  have hun := unapproved_of_none (r := r) hnone
  have hblock := @blocks_evaluateInvariants r call
  have hhold := @holds_evaluateInvariants r call
  rw [hun] at hblock hhold
  have hblock' := @blocks_resume r call approval happroved
  have hhold' := @holds_resume r call approval happroved
  constructor
  · intro h
    obtain ⟨before, hbefore, hdec⟩ := evaluate_empty engine r call
    obtain ⟨after, hafter, hdec'⟩ := evaluate_empty engine r (call.resume approval)
    obtain ⟨hkeeps, hclears, -, -⟩ := h before after hbefore hafter
    rw [hdec, hdec'] at hkeeps hclears
    by_cases hany : BlockedAnyway r call
    · exact Or.inl hany
    · refine Or.inr ⟨?_, ?_⟩
      · -- The block of an untrusted call would have to stay.
        intro hirr
        have hb := decide_eq_block.mpr (hblock.mpr (Or.inr hirr))
        exact hany (hblock'.mp (decide_eq_block.mp (hkeeps hb)))
      · intro hreview
        have htrusted : call.provenance ≠ .untrusted := by
          rw [hreview.2.2]
          decide
        have hnot : ¬Blocks (evaluateInvariants r call) := by
          rw [hblock]
          exact fun h => h.elim hany fun h => htrusted h.2
        have hheld := decide_eq_review.mpr ⟨hnot, hhold.mpr (Or.inl hreview)⟩
        exact (decide_eq_allow.mp (hclears hheld)).2 (hhold'.mpr hreview)
  · intro h
    refine approvalClears_of_decisions fun before after hbefore hafter => ?_
    rcases h with hany | ⟨hirr, hreview⟩
    · have hb := decide_eq_block.mpr (hblock.mpr (Or.inl hany))
      have ha := decide_eq_block.mpr (hblock'.mpr hany)
      rw [hbefore, hafter, hb, ha]
      exact ⟨fun _ => rfl, fun h => (by cases h), fun h => (by cases h)⟩
    · by_cases hany : BlockedAnyway r call
      · have hb := decide_eq_block.mpr (hblock.mpr (Or.inl hany))
        have ha := decide_eq_block.mpr (hblock'.mpr hany)
        rw [hbefore, hafter, hb, ha]
        exact ⟨fun _ => rfl, fun h => (by cases h), fun h => (by cases h)⟩
      · -- Nothing is left on resumption, and nothing blocked before.
        have ha := decide_eq_allow.mpr ⟨mt hblock'.mp hany, mt hhold'.mp hreview⟩
        have hnot : ¬Blocks (evaluateInvariants r call) := by
          rw [hblock]
          exact fun h => h.elim hany hirr
        rw [hbefore, hafter, ha]
        exact ⟨fun hb => absurd (decide_eq_block.mp hb) hnot, fun _ => rfl, fun _ => rfl⟩

/-- An approval by the reviewer on call. -/
def approvedByReviewer : HumanApproval where
  disposition := .approved
  role := "oncall-sre"
  justification := "verified"
  timestamp := "2026-06-23T10:00:00Z"

/-- A transfer whose arguments the model wrote. -/
def untrustedTransfer : ToolCall where
  tool := "transfer_funds"
  arguments := .object []
  provenance := .untrusted
  scopes := []
  destinations := []
  humanApproval := none

theorem untrustedTransfer_not_blockedAnyway : ¬BlockedAnyway .default untrustedTransfer := by
  have hpaths : untrustedTransfer.candidatePaths .default = [] := by decide +kernel
  rintro (hforbidden | ⟨allowed, hlook, -⟩ | (hself | ⟨path, hpath, -⟩) | ⟨path, hpath, -⟩
    | ⟨⟨hsink, -⟩, -⟩)
  · exact absurd hforbidden.1 (by decide)
  · cases hlook
  · exact absurd hself (by simp [GateRuleSet.default, untrustedTransfer, defaultSelfMutation])
  · rw [hpaths] at hpath
    cases hpath
  · rw [hpaths] at hpath
    cases hpath
  · exact absurd hsink (by simp [GateRuleSet.default, untrustedTransfer, defaultExternalSinks])

/-- The transfer is blocked, and allowed once it is approved. -/
theorem approval_lifts_block : ¬∀ (engine : RegoEngine) (r : GateRuleSet) (call : ToolCall)
    (approval : HumanApproval), call.humanApproval = none → approval.isApproved = true →
    ApprovalClears engine r call approval := by
  intro h
  have hclears := h (fun _ _ => .ok (true, [])) .default untrustedTransfer approvedByReviewer rfl
    rfl
  obtain ⟨before, hbefore, hdec⟩ :=
    evaluate_empty (fun _ _ => .ok (true, [])) .default untrustedTransfer
  obtain ⟨after, hafter, hdec'⟩ :=
    evaluate_empty (fun _ _ => .ok (true, [])) .default
      (untrustedTransfer.resume approvedByReviewer)
  have hirr : Unapproved .default untrustedTransfer := ⟨by
    simp [GateRuleSet.default, untrustedTransfer, defaultIrreversible], rfl⟩
  have hblocked : before.decision = .block := by
    rw [hdec]
    exact decide_eq_block.mpr (blocks_evaluateInvariants.mpr (Or.inr ⟨hirr, rfl⟩))
  have hstays := (hclears before after hbefore hafter).1 hblocked
  rw [hdec'] at hstays
  exact untrustedTransfer_not_blockedAnyway ((blocks_resume rfl).mp (decide_eq_block.mp hstays))

/-- A trusted deletion is held, and its approval clears the hold. -/
theorem approvalClears_iff_delete :
    let call : ToolCall :=
      { untrustedTransfer with tool := "delete_record", provenance := .trusted }
    ApprovalClears (fun _ _ => .ok (true, [])) .default call approvedByReviewer := by
  refine (approvalClears_iff _ _ _ _ rfl rfl).mpr (Or.inr ⟨fun h => ?_, fun h => ?_⟩)
  · cases h.2
  · exact absurd h.1.1 (by simp [GateRuleSet.default, defaultExternalSinks])

end Agenomic.Gate
