import Agenomic.Track.Engine

/-!
# The evidence of alerts

Every alert that an event raises names this event, and no other, as its evidence
(`observe_evidence`). The proof follows the detectors: it is enough that each step of a
detector says nothing else (`Watch.Says`).
-/

namespace Agenomic.Track

open Lib Prompt

/-- Whatever a step finds has a property. -/
def Watch.Says {σ : Type} (P : AlertBody → Prop) (w : Watch σ) : Prop := ∀ s, ∀ b ∈ (w s).2, P b

section Says

variable {σ : Type} {P : AlertBody → Prop}

theorem says_skip : Watch.Says P (Watch.skip : Watch σ) := fun _ _ h => absurd h List.not_mem_nil

theorem says_update (f : σ → σ) : Watch.Says P (Watch.update f) :=
  fun _ _ h => absurd h List.not_mem_nil

theorem says_seq {f g : Watch σ} (hf : Watch.Says P f) (hg : Watch.Says P g) :
    Watch.Says P (.seq f g) := by
  intro s b hb
  rcases List.mem_append.mp hb with hb | hb
  · exact hf s b hb
  · exact hg _ b hb

theorem says_when {p : Prop} [Decidable p] {f : Watch σ} (hf : Watch.Says P f) :
    Watch.Says P (.when p f) := by
  unfold Watch.when
  by_cases hp : p
  · rw [if_pos hp]
    exact hf
  · rw [if_neg hp]
    exact says_skip

theorem says_read {f : σ → Watch σ} (hf : ∀ s, Watch.Says P (f s)) : Watch.Says P (.read f) :=
  fun s b hb => hf s s b hb

end Says

/-- The one piece of evidence is an event. -/
def Evidence (eid : String) (b : AlertBody) : Prop := b.evidenceEventIds = [eid]

theorem raiseOnce_evidence {alerted : List String} {key eid : String} {body b : AlertBody}
    (hbody : Evidence eid body) (h : b ∈ (raiseOnce alerted key body).2) : Evidence eid b := by
  unfold raiseOnce at h
  by_cases hkey : key ∈ alerted
  · rw [if_pos hkey] at h
    exact absurd h List.not_mem_nil
  · rw [if_neg hkey] at h
    rw [List.mem_singleton.mp h]
    exact hbody

namespace LoopDetector

theorem raise_evidence {key : String} {loopType : LoopType} {message eid : String}
    {observed : Value} : Watch.Says (Evidence eid) (raise key loopType message eid observed) := by
  intro l b hb
  refine raiseOnce_evidence ?_ hb
  rfl

theorem observeVisit_evidence (step eid : String) :
    Watch.Says (Evidence eid) (observeVisit step eid) :=
  says_seq (says_update _) (says_read fun _ => says_when (raise_evidence))

theorem observeTransition_evidence (step eid : String) :
    Watch.Says (Evidence eid) (observeTransition step eid) := by
  refine says_read fun l => ?_
  cases l.lastStep with
  | none => exact says_skip
  | some prev =>
      exact says_seq (says_update _) (says_read fun _ => says_when (raise_evidence))

theorem observeStep_evidence (ev : TrackingEvent) :
    Watch.Says (Evidence ev.eventId) (observeStep ev) := by
  refine says_seq (says_update _) (says_seq ?_ ?_)
  · exact says_read fun _ => says_when (raise_evidence)
  · cases ev.workflowStepId with
    | none => exact says_skip
    | some step =>
        refine says_seq (says_read fun _ => says_when ?_) (says_update _)
        exact says_seq (observeVisit_evidence step _) (observeTransition_evidence step _)

theorem observeTool_evidence (ev : TrackingEvent) :
    Watch.Says (Evidence ev.eventId) (observeTool ev) := by
  unfold observeTool
  cases ev.tool with
  | none => exact says_skip
  | some tool =>
      exact says_seq (says_update _) (says_read fun _ => says_when (raise_evidence))

theorem observeModel_evidence (ev : TrackingEvent) :
    Watch.Says (Evidence ev.eventId) (observeModel ev) := by
  unfold observeModel
  cases ev.inputHash with
  | none => exact says_skip
  | some ih =>
      exact says_seq (says_update _) (says_read fun _ => says_when (raise_evidence))

theorem observeProgress_evidence (ev : TrackingEvent) :
    Watch.Says (Evidence ev.eventId) (observeProgress ev) := by
  refine says_when (says_read fun l => ?_)
  by_cases h : l.lastStateHash = some ((ev.outputHash.or ev.inputHash).getD "")
  · rw [if_pos h]
    exact says_seq (says_update _) (says_read fun _ => says_when (raise_evidence))
  · rw [if_neg h]
    exact says_update _

theorem observeFailure_evidence (ev : TrackingEvent) :
    Watch.Says (Evidence ev.eventId) (observeFailure ev) :=
  says_when (says_seq (says_update _) (says_read fun _ => says_when (raise_evidence)))

theorem observe_evidence (ev : TrackingEvent) :
    Watch.Says (Evidence ev.eventId) (observe ev) := by
  refine says_seq (says_read fun _ => says_when (raise_evidence)) ?_
  cases ev.eventType with
  | agentStepStarted => exact observeStep_evidence ev
  | toolCallCompleted => exact says_seq (observeTool_evidence ev) (observeFailure_evidence ev)
  | toolCallStarted => exact says_seq (observeTool_evidence ev) (observeFailure_evidence ev)
  | modelCallCompleted => exact says_seq (observeModel_evidence ev) (observeProgress_evidence ev)
  | agentStepCompleted => exact observeProgress_evidence ev
  | agentFailed => exact observeFailure_evidence ev
  | _ => exact says_skip

end LoopDetector

namespace DriftDetector

variable (d : Deps)

theorem raise_evidence {key : String} {driftType : DriftType} {mode : String}
    {severity : AlertSeverity} {message : String} {observed expected : Value} {eid : String}
    {blocks review : Bool} :
    Watch.Says (Evidence eid)
      (raise key driftType mode severity message observed expected eid blocks review) := by
  intro t b hb
  refine raiseOnce_evidence ?_ hb
  rfl

theorem raiseDeterministic_evidence {key : String} {driftType : DriftType}
    {severity : AlertSeverity} {message : String} {observed expected : Value} {ev : TrackingEvent}
    {blocks review : Bool} :
    Watch.Says (Evidence ev.eventId)
      (raiseDeterministic key driftType severity message observed expected ev blocks review) :=
  raise_evidence

theorem observeTool_evidence (ev : TrackingEvent) :
    Watch.Says (Evidence ev.eventId) (observeTool d ev) := by
  refine says_read fun t => ?_
  cases ev.tool with
  | none => exact says_skip
  | some tool =>
      dsimp only
      by_cases h : t.baseline.allowedTools ≠ [] ∧ tool.name ∉ t.baseline.allowedTools
      · rw [if_pos h]
        exact raiseDeterministic_evidence
      · rw [if_neg h]
        cases t.baseline.toolPermissions.lookup tool.name with
        | none => exact says_skip
        | some expected => exact says_when (raiseDeterministic_evidence)

theorem observeModel_evidence (ev : TrackingEvent) (model : ModelMeta) :
    Watch.Says (Evidence ev.eventId) (observeModel d ev model) := by
  refine says_read fun t => says_seq ?_ (says_seq ?_ ?_)
  · cases t.baseline.modelProvider with
    | none => exact says_skip
    | some bp => exact says_when (raiseDeterministic_evidence)
  · cases t.baseline.modelId with
    | none => exact says_skip
    | some bm => exact says_when (raiseDeterministic_evidence)
  · cases t.baseline.temperature with
    | none => exact says_skip
    | some bt =>
        cases model.temperature with
        | none => exact says_skip
        | some mt => exact says_when (raiseDeterministic_evidence)

theorem observeMetadata_evidence {ev : TrackingEvent} {key : String} {expected : Option String}
    {alert : String → String → Watch DriftDetector}
    (h : ∀ b s, Watch.Says (Evidence ev.eventId) (alert b s)) :
    Watch.Says (Evidence ev.eventId) (observeMetadata ev key expected alert) := by
  unfold observeMetadata
  cases expected with
  | none => exact says_skip
  | some b =>
      cases ev.metadataText key with
      | none => exact says_skip
      | some s => exact says_when (h b s)

theorem deterministic_evidence (ev : TrackingEvent) :
    Watch.Says (Evidence ev.eventId) (deterministic d ev) := by
  have hprompt : Watch.Says (Evidence ev.eventId) (observePrompt ev) :=
    says_read fun t => observeMetadata_evidence fun _ _ => raiseDeterministic_evidence
  have hmemory : Watch.Says (Evidence ev.eventId) (observeMemory ev) :=
    says_read fun t => observeMetadata_evidence fun _ _ => raiseDeterministic_evidence
  unfold deterministic
  cases ev.eventType with
  | toolCallStarted => exact observeTool_evidence d ev
  | toolCallCompleted => exact observeTool_evidence d ev
  | modelCallStarted | modelCallCompleted =>
      refine says_seq ?_ hprompt
      cases ev.model with
      | none => exact says_skip
      | some model => exact observeModel_evidence d ev model
  | policyEvaluated =>
      refine says_read fun t => ?_
      cases ev.policyResult.bind PolicyResult.policyId with
      | none => exact says_skip
      | some pid => exact says_when (raiseDeterministic_evidence)
  | memoryRead => exact hmemory
  | memoryWrite => exact hmemory
  | agentStepStarted =>
      refine says_read fun t => ?_
      cases ev.workflowStepId with
      | none => exact says_skip
      | some step => exact says_when (raiseDeterministic_evidence)
  | _ => exact says_skip

theorem behavioral_evidence (ev : TrackingEvent) :
    Watch.Says (Evidence ev.eventId) (behavioral ev) := by
  refine says_read fun t => ?_
  cases t.provider.bind fun classify => classify ev t.baseline with
  | none => exact says_skip
  | some bd => exact raise_evidence

theorem observe_evidence (ev : TrackingEvent) :
    Watch.Says (Evidence ev.eventId) (observe d ev) :=
  says_read fun _ => says_when
    (says_seq (says_when (deterministic_evidence d ev)) (says_when (behavioral_evidence ev)))

end DriftDetector

namespace IntentTracker

theorem raise_evidence {key : String} {issue : IntentIssue} {severity : AlertSeverity}
    {message : String} {expected observed : Value} {confidence : Confidence} {eid : String}
    {blocks review : Bool} :
    Watch.Says (Evidence eid)
      (raise key issue severity message expected observed confidence eid blocks review) := by
  intro t b hb
  refine raiseOnce_evidence ?_ hb
  rfl

theorem observeStep_evidence (ev : TrackingEvent) (intent : String) (confidence : Confidence) :
    Watch.Says (Evidence ev.eventId) (observeStep ev intent confidence) := by
  refine says_read fun t => ?_
  cases ev.workflowStepId with
  | none => exact says_skip
  | some step =>
      dsimp only
      cases t.config.stepIntents.lookup step with
      | none => exact says_skip
      | some allowed => exact says_when (raise_evidence)

theorem observeTool_evidence (ev : TrackingEvent) (intent : String) (confidence : Confidence) :
    Watch.Says (Evidence ev.eventId) (observeTool ev intent confidence) := by
  refine says_read fun t => ?_
  cases ev.tool with
  | none => exact says_skip
  | some tool =>
      dsimp only
      cases t.config.intentTools.lookup intent with
      | none => exact says_skip
      | some grant => exact says_when (raise_evidence)

theorem observeShift_evidence (intent : String) (confidence : Confidence) (eid : String) :
    Watch.Says (Evidence eid) (observeShift intent confidence eid) := by
  refine says_seq (says_read fun t => ?_) (says_update _)
  cases t.currentIntent with
  | none => exact says_skip
  | some prev => exact says_when (raise_evidence)

theorem observeIntent_evidence {ev : TrackingEvent} {intent : String} {confidence : Confidence}
    {explicit : Bool} :
    Watch.Says (Evidence ev.eventId) (observeIntent ev intent confidence explicit) := by
  refine says_seq (says_read fun _ => says_when (raise_evidence)) ?_
  refine says_seq (says_read fun _ => says_when (raise_evidence)) ?_
  refine says_seq (says_read fun _ => says_when (raise_evidence)) ?_
  refine says_seq (observeStep_evidence ev intent confidence) ?_
  refine says_seq (observeTool_evidence ev intent confidence) ?_
  exact says_when (observeShift_evidence intent confidence ev.eventId)

theorem observe_evidence (ev : TrackingEvent) :
    Watch.Says (Evidence ev.eventId) (observe ev) := by
  have hunclear : Watch.Says (Evidence ev.eventId) (observeUnclear ev) :=
    says_read fun _ => raise_evidence
  refine says_read fun t => says_when ?_
  by_cases htype : ev.eventType = .intentDetected
  · rw [if_pos htype]
    cases ev.intent with
    | none => exact hunclear
    | some i =>
        dsimp only
        by_cases hblank : isBlank i = false
        · rw [if_pos hblank]
          exact observeIntent_evidence
        · rw [if_neg hblank]
          exact hunclear
  · rw [if_neg htype]
    cases t.provider ev with
    | none => exact says_skip
    | some c => exact observeIntent_evidence

end IntentTracker

/-- **Every alert names the event that raised it.** -/
theorem TrackingEngine.observe_evidence (d : Deps) (ev : TrackingEvent) :
    Watch.Says (Evidence ev.eventId) (TrackingEngine.observe d ev) := by
  intro e b hb
  rcases List.mem_append.mp hb with hb | hb
  · rcases List.mem_append.mp hb with hb | hb
    · exact DriftDetector.observe_evidence d ev _ b hb
    · exact LoopDetector.observe_evidence ev _ b hb
  · exact IntentTracker.observe_evidence ev _ b hb

end Agenomic.Track
