import Agenomic.Track.Evidence
import Agenomic.Track.Run

/-!
# What the loop detectors leave alone

The detectors of loops share one state and one set of keys that have alerted. A detector of
one kind leaves the counters of the others as they are and raises no key of theirs
(`Watch.Leaves`): keys of different kinds start differently.
-/

namespace Agenomic.Track

open Lib Prompt

/-- A step leaves a part of the state as it is, and whatever it finds has a property. -/
def Watch.Leaves {σ α : Type} (part : σ → α) (P : AlertBody → Prop) (w : Watch σ) : Prop :=
  ∀ s, part (w s).1 = part s ∧ ∀ b ∈ (w s).2, P b

section Leaves

variable {σ α β : Type} {part : σ → α} {P Q : AlertBody → Prop}

theorem leaves_skip : Watch.Leaves part P (Watch.skip : Watch σ) := fun _ =>
  ⟨rfl, fun _ h => absurd h List.not_mem_nil⟩

theorem leaves_update {f : σ → σ} (h : ∀ s, part (f s) = part s) :
    Watch.Leaves part P (Watch.update f) := fun s =>
  ⟨h s, fun _ hb => absurd hb List.not_mem_nil⟩

theorem leaves_seq {f g : Watch σ} (hf : Watch.Leaves part P f) (hg : Watch.Leaves part P g) :
    Watch.Leaves part P (.seq f g) := by
  intro s
  obtain ⟨hfpart, hfound⟩ := hf s
  obtain ⟨hgpart, hmore⟩ := hg (f s).1
  refine ⟨hgpart.trans hfpart, fun b hb => ?_⟩
  rcases List.mem_append.mp hb with hb | hb
  · exact hfound b hb
  · exact hmore b hb

theorem leaves_when {p : Prop} [Decidable p] {f : Watch σ} (hf : Watch.Leaves part P f) :
    Watch.Leaves part P (.when p f) := by
  unfold Watch.when
  by_cases hp : p
  · rw [if_pos hp]
    exact hf
  · rw [if_neg hp]
    exact leaves_skip

theorem leaves_read {f : σ → Watch σ} (hf : ∀ s, Watch.Leaves part P (f s)) :
    Watch.Leaves part P (.read f) := fun s => hf s s

/-- A smaller part, and a weaker property. -/
theorem Watch.Leaves.mono {w : Watch σ} (h : Watch.Leaves part P w) (f : α → β)
    (hP : ∀ b, P b → Q b) : Watch.Leaves (f ∘ part) Q w := fun s =>
  ⟨congrArg f (h s).1, fun b hb => hP b ((h s).2 b hb)⟩

end Leaves

/-! ## Keys that start differently -/

/-- Neither text starts the other. -/
def Apart (s t : String) : Prop := ¬ s.toList <+: t.toList ∧ ¬ t.toList <+: s.toList

instance (s t : String) : Decidable (Apart s t) := inferInstanceAs (Decidable (_ ∧ _))

theorem Apart.symm {s t : String} (h : Apart s t) : Apart t s := ⟨h.2, h.1⟩

theorem Apart.append_ne {s t : String} (h : Apart s t) (x y : String) : s ++ x ≠ t ++ y := by
  intro heq
  have hs : s.toList <+: (t ++ y).toList := by
    rw [← heq, String.toList_append]
    exact List.prefix_append _ _
  have ht : t.toList <+: (t ++ y).toList := by
    rw [String.toList_append]
    exact List.prefix_append _ _
  rcases List.prefix_or_prefix_of_prefix hs ht with hst | hts
  · exact h.1 hst
  · exact h.2 hts

namespace LoopDetector

/-- What is counted of calls of tools, with the keys that have alerted for them. -/
def toolPart (l : LoopDetector) : LoopConfig × (String → UInt32) × (String → Bool) :=
  (l.config, l.toolCalls, fun key => decide ("tool:" ++ key ∈ l.alerted))

/-- What is counted of failures, with the numbers that have alerted for them. -/
def failurePart (l : LoopDetector) : LoopConfig × UInt32 × Option String × (UInt32 → Bool) :=
  (l.config, l.failureStreak, l.lastStateHash,
    fun n => decide ("failure_streak:" ++ toString n ∈ l.alerted))

def parts (l : LoopDetector) := (l.toolPart, l.failurePart)

/-- The kind of loop that an alert is about. -/
def aboutLoop (b : AlertBody) : Option String :=
  (b.details.bind fun v => v.get "loop_type").bind Value.asStr

/-- An alert of another kind. -/
def Other (b : AlertBody) : Prop :=
  aboutLoop b ≠ some LoopType.repeatedToolCall.label
    ∧ aboutLoop b ≠ some LoopType.repeatedFailure.label

/-- What raising adds to the keys, and what it finds. -/
theorem raise_eq (key : String) (loopType : LoopType) (message eid : String) (observed : Value)
    (l : LoopDetector) : raise key loopType message eid observed l =
      if key ∈ l.alerted then (l, []) else
        ({ l with alerted := key :: l.alerted },
          (raise key loopType message eid observed { l with alerted := [] }).2) := by
  unfold raise raiseOnce
  dsimp only
  by_cases hkey : key ∈ l.alerted
  · rw [if_pos hkey, if_pos hkey]
  · rw [if_neg hkey, if_neg hkey, if_neg List.not_mem_nil]

theorem raise_found {key : String} {loopType : LoopType} {message eid : String} {observed : Value}
    {l : LoopDetector} {b : AlertBody} (h : b ∈ (raise key loopType message eid observed l).2) :
    b.details = some (.object [("loop_type", .string loopType.label), ("observed", observed)]) := by
  unfold raise raiseOnce at h
  dsimp only at h
  by_cases hkey : key ∈ l.alerted
  · rw [if_pos hkey] at h
    exact absurd h List.not_mem_nil
  · rw [if_neg hkey] at h
    rw [List.mem_singleton.mp h]

theorem aboutLoop_of_details {b : AlertBody} {loopType : LoopType} {observed : Value}
    (h : b.details = some (.object [("loop_type", .string loopType.label), ("observed", observed)])) :
    aboutLoop b = some loopType.label := by
  unfold aboutLoop
  rw [h]
  rfl

/-- Raising by a key that is not of calls of tools leaves their part alone. -/
theorem raise_leaves_tool {key : String} {loopType : LoopType} {message eid : String}
    {observed : Value} (hkey : ∀ k, "tool:" ++ k ≠ key)
    (hother : loopType.label ≠ LoopType.repeatedToolCall.label) :
    Watch.Leaves toolPart (fun b => aboutLoop b ≠ some LoopType.repeatedToolCall.label)
      (raise key loopType message eid observed) := by
  intro l
  constructor
  · rw [raise_eq]
    by_cases hin : key ∈ l.alerted
    · rw [if_pos hin]
    · rw [if_neg hin]
      unfold toolPart
      simp only [List.mem_cons, hkey, false_or]
  · intro b hb
    rw [aboutLoop_of_details (raise_found hb)]
    exact fun h => hother (Option.some.inj h)

/-- Raising by a key that is not of failures leaves their part alone. -/
theorem raise_leaves_failure {key : String} {loopType : LoopType} {message eid : String}
    {observed : Value} (hkey : ∀ k, "failure_streak:" ++ k ≠ key)
    (hother : loopType.label ≠ LoopType.repeatedFailure.label) :
    Watch.Leaves failurePart (fun b => aboutLoop b ≠ some LoopType.repeatedFailure.label)
      (raise key loopType message eid observed) := by
  intro l
  constructor
  · rw [raise_eq]
    by_cases hin : key ∈ l.alerted
    · rw [if_pos hin]
    · rw [if_neg hin]
      unfold failurePart
      simp only [List.mem_cons, hkey, false_or]
  · intro b hb
    rw [aboutLoop_of_details (raise_found hb)]
    exact fun h => hother (Option.some.inj h)

/-- How the keys of the other kinds of loops start. -/
def otherStarts : List String :=
  ["max_duration", "cyclic_step:", "transition:", "max_iterations", "model:", "no_progress"]

theorem otherStarts_apart :
    ∀ start ∈ otherStarts, Apart "tool:" start ∧ Apart "failure_streak:" start := by
  decide +kernel

theorem tool_apart_failure : Apart "tool:" "failure_streak:" := by decide +kernel

/-- A key of another kind of loop leaves both parts alone. -/
theorem raise_leaves {start : String} (hstart : start ∈ otherStarts) {loopType : LoopType}
    (hother : loopType.label ≠ LoopType.repeatedToolCall.label
      ∧ loopType.label ≠ LoopType.repeatedFailure.label) (rest : String)
    {message eid : String} {observed : Value} :
    Watch.Leaves parts Other (raise (start ++ rest) loopType message eid observed) := by
  obtain ⟨htool, hfailure⟩ := otherStarts_apart start hstart
  intro l
  obtain ⟨ht, htfound⟩ := @raise_leaves_tool _ loopType message eid observed
    (fun k => htool.append_ne k rest) hother.1 l
  obtain ⟨hf, hffound⟩ := @raise_leaves_failure _ loopType message eid observed
    (fun k => hfailure.append_ne k rest) hother.2 l
  exact ⟨Prod.ext ht hf, fun b hb => ⟨htfound b hb, hffound b hb⟩⟩

/-- The same for a key that is the start alone. -/
theorem raise_leaves_alone {key : String} (hkey : key ∈ otherStarts) {loopType : LoopType}
    (hother : loopType.label ≠ LoopType.repeatedToolCall.label
      ∧ loopType.label ≠ LoopType.repeatedFailure.label)
    {message eid : String} {observed : Value} :
    Watch.Leaves parts Other (raise key loopType message eid observed) := by
  have hleaves := @raise_leaves key hkey loopType hother "" message eid observed
  rw [String.append_empty] at hleaves
  exact hleaves

theorem observeDuration_leaves (ev : TrackingEvent) :
    Watch.Leaves parts Other (observeDuration ev) := by
  refine leaves_read fun l => leaves_when ?_
  exact raise_leaves_alone (by simp [otherStarts]) (by decide)

theorem observeVisit_leaves (step eid : String) :
    Watch.Leaves parts Other (observeVisit step eid) := by
  refine leaves_seq (leaves_update fun _ => rfl) (leaves_read fun l => leaves_when ?_)
  exact raise_leaves (by simp [otherStarts]) (by decide) step

theorem observeTransition_leaves (step eid : String) :
    Watch.Leaves parts Other (observeTransition step eid) := by
  refine leaves_read fun l => ?_
  cases l.lastStep with
  | none => exact leaves_skip
  | some prev =>
      refine leaves_seq (leaves_update fun _ => rfl) (leaves_read fun l => leaves_when ?_)
      exact raise_leaves (by simp [otherStarts]) (by decide) _

theorem observeStep_leaves (ev : TrackingEvent) : Watch.Leaves parts Other (observeStep ev) := by
  refine leaves_seq (leaves_update fun _ => rfl) (leaves_seq ?_ ?_)
  · refine leaves_read fun l => leaves_when ?_
    exact raise_leaves_alone (by simp [otherStarts]) (by decide)
  · cases ev.workflowStepId with
    | none => exact leaves_skip
    | some step =>
        refine leaves_seq (leaves_read fun _ => leaves_when ?_) (leaves_update fun _ => rfl)
        exact leaves_seq (observeVisit_leaves step _) (observeTransition_leaves step _)

theorem observeModel_leaves (ev : TrackingEvent) : Watch.Leaves parts Other (observeModel ev) := by
  unfold observeModel
  cases ev.inputHash with
  | none => exact leaves_skip
  | some hash =>
      refine leaves_seq (leaves_update fun _ => rfl) (leaves_read fun l => leaves_when ?_)
      exact raise_leaves (by simp [otherStarts]) (by decide) _

/-- Progress, though it ends the failures, leaves the calls of tools alone. -/
theorem observeProgress_leaves (ev : TrackingEvent) :
    Watch.Leaves toolPart (fun b => aboutLoop b ≠ some LoopType.repeatedToolCall.label)
      (observeProgress ev) := by
  refine leaves_when (leaves_read fun l => ?_)
  dsimp only
  by_cases hsame : l.lastStateHash = some ((ev.outputHash.or ev.inputHash).getD "")
  · rw [if_pos hsame]
    refine leaves_seq (leaves_update fun _ => rfl) (leaves_read fun l => leaves_when ?_)
    refine raise_leaves_tool (fun k => ?_) (by decide)
    have hne := (otherStarts_apart "no_progress" (by simp [otherStarts])).1.append_ne k ""
    rw [String.append_empty] at hne
    exact hne
  · rw [if_neg hsame]
    exact leaves_update fun _ => rfl

theorem observeFailure_leaves (ev : TrackingEvent) :
    Watch.Leaves toolPart (fun b => aboutLoop b ≠ some LoopType.repeatedToolCall.label)
      (observeFailure ev) := by
  refine leaves_when (leaves_seq (leaves_update fun _ => rfl) (leaves_read fun l => leaves_when ?_))
  refine raise_leaves_tool (fun k => ?_) (by decide)
  exact tool_apart_failure.append_ne k _

theorem observeTool_leaves (ev : TrackingEvent) :
    Watch.Leaves failurePart (fun b => aboutLoop b ≠ some LoopType.repeatedFailure.label)
      (observeTool ev) := by
  unfold observeTool
  cases ev.tool with
  | none => exact leaves_skip
  | some tool =>
      refine leaves_seq (leaves_update fun _ => rfl) (leaves_read fun l => leaves_when ?_)
      refine raise_leaves_failure (fun k => ?_) (by decide)
      exact tool_apart_failure.symm.append_ne k _

/-- The detector after some events. -/
def watched (l : LoopDetector) (evs : List TrackingEvent) : LoopDetector :=
  evs.foldl (fun l ev => (observe ev l).1) l

end LoopDetector

/-- The tool and the input that an event of a call is about. -/
def callOf (ev : TrackingEvent) : Option (String × String) :=
  match ev.eventType with
  | .toolCallStarted | .toolCallCompleted =>
      ev.tool.map fun tool => (tool.name, ev.inputHash.getD "")
  | _ => none

/-- An event of a call of a tool. -/
def callEvent (eventType : TrackingEventType) (name hash : String) : TrackingEvent :=
  { plainEvent eventType with tool := some ⟨name, none, none, []⟩, inputHash := some hash }

end Agenomic.Track
