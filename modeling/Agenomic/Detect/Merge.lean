import Agenomic.Detect.Model
import Agenomic.Lib.Run

/-!
# Merging a detection into a genome

For every scalar field three values are compared: the one in the genome, the one that
was detected, and the one recorded by the last update that changed anything. Detection
wins where the genome still has the recorded value (`merge_get`), so a value set by
hand is kept for as long as no update records that very value.

**`hand_edit_survives`** is that law over whole histories of edits and updates. Once
such a value has been recorded it no longer counts as set by hand, and the next
detection that differs replaces it.
-/

namespace Agenomic.Detect

open Lib

/-- A change that is applied by detection. -/
inductive Change where
  | scalar (field before after : String)
  | toolAdded (name kind : String) (version : Option String)
  | toolRemoved (name : String)
  deriving DecidableEq, Repr

/-- A line of the commit body. -/
def Change.render : Change → String
  | .scalar field before after => s!"{field}: {before} → {after}"
  | .toolAdded name kind (some v) => s!"tools[+]: {name} ({kind}, {v})"
  | .toolAdded name kind none => s!"tools[+]: {name} ({kind})"
  | .toolRemoved name => s!"tools[-]: {name}"

structure MergeResult where
  merged : DetectedGenome
  changes : List Change
  frozen : List String
  deriving DecidableEq, Repr

/-- What the decisions so far have left behind. -/
structure Decisions where
  changes : List Change
  frozen : List String

/-- The field records an entry of a list. -/
def isToolField (field : String) : Bool := "tools[".toList.isPrefixOf field.toList

/-- The recorded scalars; of several records of a field the last one counts. -/
def priorScalarMap (prior : Option Provenance) : Std.ExtTreeMap String String :=
  match prior with
  | none => ∅
  | some p => p.sources.foldl
      (fun map s => if isToolField s.field then map else map.insert s.field s.value) ∅

/-- The recorded tools. -/
def priorToolNames (prior : Option Provenance) : List String :=
  match prior with
  | none => []
  | some p => (p.sources.filter fun s => isToolField s.field).map (·.value)

/-- Decide one field. -/
def pick (field : String) (current detected : Option String) (prior : Std.ExtTreeMap String String)
    (d : Decisions) : Option String × Decisions :=
  if current = detected then (current, d)
  else if prior[field]? = current then
    (detected, { d with changes := d.changes
      ++ [.scalar field (current.getD "(none)") (detected.getD "(none)")] })
  else (current, { d with frozen := d.frozen ++ [field] })

/-- Decide a field that is always set. -/
def mergeReq (field current detected : String) (prior : Std.ExtTreeMap String String)
    (d : Decisions) : String × Decisions :=
  let (value, d) := pick field (some current) (some detected) prior d
  (value.getD current, d)

/-- Tools by kind, then by name. -/
def ToolEntry.le (a b : ToolEntry) : Prop :=
  a.kind.ctorIdx < b.kind.ctorIdx ∨ a.kind.ctorIdx = b.kind.ctorIdx ∧ a.name ≤ b.name

instance : DecidableRel ToolEntry.le := fun _ _ => inferInstanceAs (Decidable (_ ∨ _))

/-- Detected tools, and current ones that are not to be pruned. -/
def mergeTools (current detected : List ToolEntry) (priorTools : List String) (prune : Bool)
    (d : Decisions) : List ToolEntry × Decisions :=
  let currentNames := current.map (·.name)
  let detectedNames := detected.map (·.name)
  let added := (detected.filter fun t => t.name ∉ currentNames).map fun t =>
    Change.toolAdded t.name t.kind.label t.version
  let currentOnly := current.filter fun t => t.name ∉ detectedNames
  let pruned := fun t : ToolEntry => prune && priorTools.contains t.name
  let removed := (currentOnly.filter pruned).map fun t => Change.toolRemoved t.name
  ((detected ++ currentOnly.filter fun t => !pruned t).insertionSort ToolEntry.le,
    { d with changes := d.changes ++ added ++ removed })

/-- Union by value: current items first. -/
def unionKeep (current detected : List String) : List String :=
  detected.foldl (fun out s => if s ∈ out then out else out ++ [s]) current

/-- Merge a detection into the current genome. -/
def merge (current detected : DetectedGenome) (prior : Option Provenance) (prune : Bool) :
    MergeResult :=
  let scalars := priorScalarMap prior
  let d : Decisions := ⟨[], []⟩
  let (agentId, d) := mergeReq "agent.id" current.agentId detected.agentId scalars d
  let (agentName, d) := mergeReq "agent.name" current.agentName detected.agentName scalars d
  let (domain, d) := mergeReq "agent.domain" current.domain detected.domain scalars d
  let (criticality, d) :=
    mergeReq "agent.criticality" current.criticality detected.criticality scalars d
  let (description, d) := pick "description" current.description detected.description scalars d
  let (framework, d) := pick "runtime.framework" current.framework detected.framework scalars d
  let (runtimeKind, d) :=
    pick "runtime.runtime_kind" current.runtimeKind detected.runtimeKind scalars d
  let (modelProvider, d) :=
    mergeReq "runtime.model_provider" current.modelProvider detected.modelProvider scalars d
  let (modelId, d) := mergeReq "runtime.model_id" current.modelId detected.modelId scalars d
  let (entrypoint, d) :=
    pick "runtime.entrypoint" current.entrypoint detected.entrypoint scalars d
  let (tools, d) := mergeTools current.tools detected.tools (priorToolNames prior) prune d
  { merged :=
      { current with
        agentId, agentName, domain, criticality, description, framework, runtimeKind
        modelProvider, modelId, entrypoint, tools
        authors := unionKeep current.authors detected.authors
        skills := unionKeep current.skills detected.skills
        knowledge := unionKeep current.knowledge detected.knowledge
        policies := unionKeep current.policies detected.policies
        evidence := detected.evidence }
    changes := d.changes
    frozen := (d.frozen.insertionSort (· ≤ ·)).dedup }

/-! ## One merge -/

/-- The scalar fields that are merged. -/
inductive ScalarField where
  | agentId
  | agentName
  | domain
  | criticality
  | description
  | framework
  | runtimeKind
  | modelProvider
  | modelId
  | entrypoint
  deriving DecidableEq, Repr

/-- The name a field is recorded under. -/
def ScalarField.name : ScalarField → String
  | .agentId => "agent.id"
  | .agentName => "agent.name"
  | .domain => "agent.domain"
  | .criticality => "agent.criticality"
  | .description => "description"
  | .framework => "runtime.framework"
  | .runtimeKind => "runtime.runtime_kind"
  | .modelProvider => "runtime.model_provider"
  | .modelId => "runtime.model_id"
  | .entrypoint => "runtime.entrypoint"

/-- The value of a field, none when it is absent. -/
def DetectedGenome.get (g : DetectedGenome) : ScalarField → Option String
  | .agentId => some g.agentId
  | .agentName => some g.agentName
  | .domain => some g.domain
  | .criticality => some g.criticality
  | .description => g.description
  | .framework => g.framework
  | .runtimeKind => g.runtimeKind
  | .modelProvider => some g.modelProvider
  | .modelId => some g.modelId
  | .entrypoint => g.entrypoint

/-- What is recorded for a field. -/
def recorded (prior : Option Provenance) (f : ScalarField) : Option String :=
  (priorScalarMap prior)[f.name]?

theorem pick_fst (field : String) (current detected : Option String)
    (prior : Std.ExtTreeMap String String) (d : Decisions) :
    (pick field current detected prior d).1
      = if prior[field]? = current then detected else current := by
  unfold pick
  by_cases heq : current = detected
  · rw [if_pos heq, heq, ite_self]
  · rw [if_neg heq]
    by_cases hprior : prior[field]? = current
    · rw [if_pos hprior, if_pos hprior]
    · rw [if_neg hprior, if_neg hprior]

theorem mergeReq_fst (field current detected : String) (prior : Std.ExtTreeMap String String)
    (d : Decisions) : some (mergeReq field current detected prior d).1
      = if prior[field]? = some current then some detected else some current := by
  have h := pick_fst field (some current) (some detected) prior d
  unfold mergeReq
  dsimp only
  rw [h]
  by_cases hprior : prior[field]? = some current
  · rw [if_pos hprior]
    rfl
  · rw [if_neg hprior]
    rfl

/-- **What a merge makes of a field**: detection wins where the genome has what is recorded. -/
theorem merge_get (current detected : DetectedGenome) (prior : Option Provenance) (prune : Bool)
    (f : ScalarField) : (merge current detected prior prune).merged.get f
      = if recorded prior f = current.get f then detected.get f else current.get f := by
  cases f with
  | agentId => exact mergeReq_fst ..
  | agentName => exact mergeReq_fst ..
  | domain => exact mergeReq_fst ..
  | criticality => exact mergeReq_fst ..
  | description => exact pick_fst ..
  | framework => exact pick_fst ..
  | runtimeKind => exact pick_fst ..
  | modelProvider => exact mergeReq_fst ..
  | modelId => exact mergeReq_fst ..
  | entrypoint => exact pick_fst ..

/-! ## Histories -/

/-- What an update takes from outside the merge. -/
structure UpdateInfo where
  detectedAt : String
  step : Option String
  bundleHash : String
  deriving DecidableEq, Repr

/-- The genome of a bundle and its sidecar. -/
structure BundleState where
  genome : DetectedGenome
  provenance : Option Provenance
  deriving DecidableEq, Repr

inductive HistoryOp where
  /-- The user leaves another genome. -/
  | edit (genome : DetectedGenome)
  | update (detected : DetectedGenome) (prune : Bool) (info : UpdateInfo)

/-- The sidecar an update writes. -/
def updateProvenance (result : MergeResult) (info : UpdateInfo) : Provenance :=
  { Provenance.fromDetection result.merged info.detectedAt with
    frozen := result.frozen
    lastUpdate := some ⟨info.step, info.bundleHash, result.changes.map Change.render⟩ }

/-- An update writes nothing when the merge has no changes. -/
def updateStep (s : BundleState) (detected : DetectedGenome) (prune : Bool) (info : UpdateInfo) :
    BundleState :=
  let result := merge s.genome detected s.provenance prune
  if result.changes = [] then s
  else ⟨result.merged, some (updateProvenance result info)⟩

def historyStep (s : BundleState) : HistoryOp → BundleState
  | .edit genome => { s with genome }
  | .update detected prune info => updateStep s detected prune info

/-- What the evidence of a detection would record for a field. -/
def evidenceFor (detected : DetectedGenome) (f : ScalarField) : Option String :=
  recorded (some (Provenance.fromDetection detected "")) f

/-- The operation leaves the value of a field alone: an edit keeps it, and an update that
writes does not record it. -/
def LeavesAlone (f : ScalarField) (v : Option String) (s : BundleState) : HistoryOp → Prop
  | .edit genome => genome.get f = v
  | .update detected prune _ =>
      (merge s.genome detected s.provenance prune).changes ≠ [] → evidenceFor detected f ≠ v

/-- The value stands in the genome and is not the recorded one. -/
structure SetByHand (f : ScalarField) (v : Option String) (s : BundleState) : Prop where
  value : s.genome.get f = v
  notRecorded : recorded s.provenance f ≠ v

/-- An update records the evidence of its detection. -/
theorem recorded_updateProvenance (current detected : DetectedGenome) (prior : Option Provenance)
    (prune : Bool) (info : UpdateInfo) (f : ScalarField) :
    recorded (some (updateProvenance (merge current detected prior prune) info)) f
      = evidenceFor detected f := rfl

theorem setByHand_step {f : ScalarField} {v : Option String} {s : BundleState} {op : HistoryOp}
    (h : SetByHand f v s) (hop : LeavesAlone f v s op) : SetByHand f v (historyStep s op) := by
  cases op with
  | edit genome => exact ⟨hop, h.notRecorded⟩
  | update detected prune info =>
      unfold historyStep updateStep
      dsimp only
      by_cases hchanges : (merge s.genome detected s.provenance prune).changes = []
      · rw [if_pos hchanges]
        exact h
      · rw [if_neg hchanges]
        refine ⟨?_, ?_⟩
        · show (merge s.genome detected s.provenance prune).merged.get f = v
          rw [merge_get, if_neg fun heq => h.notRecorded (heq.trans h.value)]
          exact h.value
        · rw [recorded_updateProvenance]
          exact hop hchanges

/-- **A value set by hand survives every later update**, as long as none records that value. -/
theorem hand_edit_survives {f : ScalarField} {s : BundleState} {genome : DetectedGenome}
    {ops : List HistoryOp} (hedit : recorded s.provenance f ≠ genome.get f)
    (h : Along historyStep (LeavesAlone f (genome.get f)) { s with genome } ops) :
    ∀ past, past <+: ops →
      (run historyStep s (.edit genome :: past)).genome.get f = genome.get f := by
  rintro past ⟨rest, rfl⟩
  have hstart : SetByHand f (genome.get f) { s with genome } := ⟨rfl, hedit⟩
  exact (run_invariant (SetByHand f (genome.get f)) (fun _ _ => setByHand_step) hstart
    h.of_append).value

/-- A bundle whose name was detected. -/
def exerciseBundle : BundleState :=
  ⟨.defaults, some (Provenance.fromDetection .defaults "2026-05-31T00:00:00Z")⟩

/-- A genome with another name and another model, as detection finds or a user leaves it. -/
def exerciseGenome (name model : String) : DetectedGenome :=
  { DetectedGenome.defaults with
    agentName := name
    modelId := model
    evidence :=
      [ ⟨"agent.name", name, .pyproject, "project.name"⟩,
        ⟨"runtime.model_id", model, .pyproject, "dependency"⟩ ] }

def exerciseUpdate (name model : String) : HistoryOp :=
  .update (exerciseGenome name model) false ⟨"2026-06-01T00:00:00Z", none, "b3:00"⟩

theorem hand_edit_survives_exercise :
    (run historyStep exerciseBundle [.edit (exerciseGenome "Mine" "gpt-4o"),
      exerciseUpdate "Found" "gpt-5", exerciseUpdate "Other" "gpt-6"]).genome.get .agentName
      = some "Mine" := by
  have hedit : recorded exerciseBundle.provenance .agentName
      ≠ (exerciseGenome "Mine" "gpt-4o").get .agentName := by decide
  have hafter : Along historyStep
      (LeavesAlone .agentName ((exerciseGenome "Mine" "gpt-4o").get .agentName))
      { exerciseBundle with genome := exerciseGenome "Mine" "gpt-4o" }
      [exerciseUpdate "Found" "gpt-5", exerciseUpdate "Other" "gpt-6"] :=
    ⟨fun _ => by decide, fun _ => by decide, trivial⟩
  exact hand_edit_survives hedit hafter _ List.prefix_rfl

/-- The name set by hand is neither the recorded one nor the one detected next; a later update
detects and records it, and the one after that replaces it. -/
theorem not_hand_edit_survives :
    recorded exerciseBundle.provenance .agentName ≠ (exerciseGenome "Mine" "gpt-4o").get .agentName
    ∧ (exerciseGenome "Found" "gpt-5").get .agentName
      ≠ (exerciseGenome "Mine" "gpt-4o").get .agentName
    ∧ (run historyStep exerciseBundle
        [.edit (exerciseGenome "Mine" "gpt-4o"), exerciseUpdate "Found" "gpt-5",
          exerciseUpdate "Mine" "gpt-6", exerciseUpdate "Found" "gpt-6"]).genome.get .agentName
      = some "Found" := by
  decide

end Agenomic.Detect
