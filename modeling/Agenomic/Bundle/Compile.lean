import Agenomic.Diff.Yaml
import Agenomic.Core
import Agenomic.Lib.Sorted
import Mathlib.Data.String.Basic

/-!
# Compiling a genome

A genome is brought into one normal form, whatever its shape, and the normal form is
compiled for each adapter into an artifact: a plan of what to launch, with which
prompts and bindings. The command to launch is declared by the `execution` block of the
genome; its lists are all read by `stringList`, which keeps the texts of a list, in
order and each once. Writing the artifacts is left out.
-/

namespace Agenomic.Bundle.Compile

open Lib
open Agenomic.Diff (Yaml)
open Agenomic.Prompt (Value)

/-! ## Adapters -/

inductive RuntimeAdapter where
  | plain
  | langgraph
  | crewai
  | googleAdk
  deriving DecidableEq, Repr

namespace RuntimeAdapter

def label : RuntimeAdapter → String
  | .plain => "plain"
  | .langgraph => "langgraph"
  | .crewai => "crewai"
  | .googleAdk => "google-adk"

def fileName (a : RuntimeAdapter) : String := s!"{a.label}.compiled"

/-- The place of an adapter among the others. -/
def rank : RuntimeAdapter → Nat
  | .plain => 0
  | .langgraph => 1
  | .crewai => 2
  | .googleAdk => 3

end RuntimeAdapter

/-! ## Artifacts -/

inductive GenomeShape where
  | cliV01
  | v1Alpha1
  | legacy
  deriving DecidableEq, Repr

def GenomeShape.label : GenomeShape → String
  | .cliV01 => "cli_v0.1"
  | .v1Alpha1 => "agenomic_v1alpha1"
  | .legacy => "legacy"

structure CompiledModel where
  provider : String
  id : String
  deriving DecidableEq, Repr

structure CompiledPromptRef where
  id : String
  path : String
  deriving DecidableEq, Repr

structure CompiledPrompts where
  system : Option String
  skills : List CompiledPromptRef
  deriving DecidableEq, Repr

structure CompiledBindings where
  lockfile : Option String
  behaviorContract : Option String
  toolLock : Option String
  knowledgeLock : Option String
  memorySchema : Option String
  replayManifest : Option String
  policySources : List String
  attestationFiles : List String
  deriving DecidableEq, Repr

structure CompiledEntrypoint where
  kind : String
  command : String
  args : List String
  deriving DecidableEq, Repr

structure CompiledRuntimeSpec where
  kind : String
  version : Option String
  deriving DecidableEq, Repr

structure CompiledEnv where
  required : List String := []
  optional : List String := []
  deriving DecidableEq, Repr

structure CompiledFilesystemPermissions where
  read : List String := []
  write : List String := []
  deriving DecidableEq, Repr

structure CompiledNetworkPermissions where
  allow : List String := []
  deriving DecidableEq, Repr

structure CompiledPermissions where
  filesystem : CompiledFilesystemPermissions := {}
  network : CompiledNetworkPermissions := {}
  deriving DecidableEq, Repr

structure CompiledExecution where
  source : String
  entrypoint : CompiledEntrypoint
  runtime : CompiledRuntimeSpec
  workingDirectory : String
  env : CompiledEnv
  permissions : CompiledPermissions
  deriving DecidableEq, Repr

structure CompiledSource where
  bundleRoot : String
  genomeShape : String
  frameworkHint : Option String
  runtimeKindHint : Option String
  deriving DecidableEq, Repr

structure CompiledAgent where
  id : Option String
  name : String
  deriving DecidableEq, Repr

structure CompiledRuntimeArtifact where
  schemaVersion : String
  adapter : RuntimeAdapter
  ready : Bool
  source : CompiledSource
  agent : CompiledAgent
  model : Option CompiledModel
  execution : Option CompiledExecution
  prompts : CompiledPrompts
  bindings : CompiledBindings
  adapterConfig : Value
  warnings : List String

/-- The normal form of a genome. -/
structure NormalizedBundle where
  shape : GenomeShape
  agentId : Option String
  agentName : String
  frameworkHint : Option String
  runtimeKindHint : Option String
  modelProvider : Option String
  modelId : Option String
  execution : Option CompiledExecution
  prompts : CompiledPrompts
  bindings : CompiledBindings
  warnings : List String

/-! ## Reading lists -/

/-- The texts of a list, in order and each once. -/
def stringList (node : Option (List Yaml)) : List String :=
  match node with
  | none => []
  | some seq => sortDedup (· ≤ ·) (seq.filterMap Yaml.asStr)

def stringField (parent : Option Yaml) (key : String) : Option String :=
  (parent.bind (·.get key)).bind Yaml.asStr

def promptIdFromPath (path : String) : String :=
  let file := String.ofList (path.toList.rtakeWhile (· ≠ '/'))
  (stripSuffix? ".md" file).getD file

/-- By path, then by identifier. -/
def CompiledPromptRef.le (a b : CompiledPromptRef) : Prop :=
  a.path < b.path ∨ (a.path = b.path ∧ a.id ≤ b.id)

instance : DecidableRel CompiledPromptRef.le :=
  fun a b => inferInstanceAs (Decidable (a.path < b.path ∨ (a.path = b.path ∧ a.id ≤ b.id)))

def promptList (node : Option (List Yaml)) : List CompiledPromptRef :=
  match node with
  | none => []
  | some seq =>
      (seq.filterMap fun v => v.asStr.map fun path =>
        { id := promptIdFromPath path, path := path }).insertionSort CompiledPromptRef.le

/-- A skill is a path, or a mapping that names one. -/
def cliSkillPrompt (item : Yaml) : Option CompiledPromptRef :=
  match item with
  | .string path => some { id := promptIdFromPath path, path := path }
  | .mapping _ =>
      (((item.get "prompt").or (item.get "prompt_path")).bind Yaml.asStr).map fun path =>
        { id := (((item.get "name").or (item.get "id")).bind Yaml.asStr).getD
            (promptIdFromPath path)
          path := path }
  | _ => none

def cliSkillPrompts (node : Option Yaml) : List CompiledPromptRef :=
  match node.bind Yaml.asSequence with
  | none => []
  | some seq => (seq.filterMap cliSkillPrompt).insertionSort CompiledPromptRef.le

def cliPolicySource (item : Yaml) : Option String :=
  match item with
  | .string path => some path
  | .mapping _ => (item.get "source").bind Yaml.asStr
  | _ => none

def cliPolicySources (node : Option Yaml) : List String :=
  match node.bind Yaml.asSequence with
  | none => []
  | some seq => sortDedup (· ≤ ·) (seq.filterMap cliPolicySource)

/-! ## The execution block -/

/-- The lists of a block that sits under some keys. -/
def listAt (node : Yaml) (keys : List String) : Option (List Yaml) :=
  (keys.foldl (fun v key => v.bind (·.get key)) (some node)).bind Yaml.asSequence

def parseDeclaredExecution (node : Yaml) : CliResult CompiledExecution := do
  let some entrypoint := node.get "entrypoint"
    | .error (.schema "execution.entrypoint is required")
  let some runtime := node.get "runtime"
    | .error (.schema "execution.runtime is required")
  let some kind := (entrypoint.get "kind").bind Yaml.asStr
    | .error (.schema "execution.entrypoint.kind must be a string")
  if kind ≠ "command" then
    .error (.schema
      s!"execution.entrypoint.kind `{kind}` is unsupported; MVP supports `command` only")
  else
    let some command := (entrypoint.get "command").bind Yaml.asStr
      | .error (.schema "execution.entrypoint.command must be a string")
    let some runtimeKind := (runtime.get "kind").bind Yaml.asStr
      | .error (.schema "execution.runtime.kind must be a string")
    .ok
      { source := "declared"
        entrypoint :=
          { kind := kind
            command := command
            args := stringList ((entrypoint.get "args").bind Yaml.asSequence) }
        runtime := { kind := runtimeKind, version := (runtime.get "version").bind Yaml.asStr }
        workingDirectory := ((node.get "working_directory").bind Yaml.asStr).getD "."
        env :=
          { required := stringList (listAt node ["env", "required"])
            optional := stringList (listAt node ["env", "optional"]) }
        permissions :=
          { filesystem :=
              { read := stringList (listAt node ["permissions", "filesystem", "read"])
                write := stringList (listAt node ["permissions", "filesystem", "write"]) }
            network := { allow := stringList (listAt node ["permissions", "network", "allow"]) } } }

def endsWith (text tail : String) : Bool := tail.toList.isSuffixOf text.toList

/-- Drop a trailing part as often as it is there. -/
def trimEndMatches (tail : String) : Nat → String → String
  | 0, text => text
  | fuel + 1, text =>
      match stripSuffix? tail text with
      | some rest => trimEndMatches tail fuel rest
      | none => text

def derivePythonCommand (entrypoint : String) : Option (String × List String) :=
  if isBlank entrypoint then
    none
  else if endsWith entrypoint ".py" then
    some ("python", [entrypoint])
  else
    let module := String.ofList (entrypoint.toList.takeWhile (· ≠ ':'))
    some ("python", ["-m", trimEndMatches ".__main__" module.length module])

def deriveExecution (runtimeKind entrypoint : Option String) : Option CompiledExecution := do
  let entrypoint ← entrypoint
  let runtimeKind ← runtimeKind.map fun kind => String.ofList (kind.toList.map Char.toLower)
  let (command, args) ←
    if runtimeKind = "python" then derivePythonCommand entrypoint
    else if runtimeKind = "node" then some ("node", [entrypoint])
    else if runtimeKind = "rust" then some ("cargo", ["run", "--release"])
    else if runtimeKind = "binary" then some (entrypoint, [])
    else none
  return {
    source := "derived"
    entrypoint := { kind := "command", command := command, args := args }
    runtime := { kind := runtimeKind, version := none }
    workingDirectory := "."
    env := {}
    permissions := {} }

def inferRuntimeKind (entrypoint : Option String) : Option String := do
  let entrypoint ← entrypoint
  if endsWith entrypoint ".py" || entrypoint.toList.contains ':' then
    some "python"
  else if endsWith entrypoint ".js" || endsWith entrypoint ".mjs" || endsWith entrypoint ".cjs" then
    some "node"
  else
    none

/-! ## The normal form -/

/-- An entry of a directory; a name that is no text is missing. -/
structure DirEntry where
  isFile : Bool
  name : Option String
  deriving DecidableEq, Repr

/-- The directory of the bundle: what is there, and what `attestations` lists. -/
structure Root where
  present : String → Bool
  attestations : Option (CliResult (List (CliResult DirEntry)))

def Root.relativeIfExists (root : Root) (relative : String) : Option String :=
  if root.present relative then some relative else none

def Root.firstExisting (root : Root) (candidates : List String) : Option String :=
  candidates.findSome? root.relativeIfExists

def Root.attestationFiles (root : Root) : CliResult (List String) :=
  match root.attestations with
  | none => .ok []
  | some listing => do
      let entries ← (← listing).mapM id
      let files := entries.filterMap fun e =>
        if e.isFile then e.name.map (s!"attestations/{·}") else none
      return files.insertionSort (· ≤ ·)

def detectShape (yaml : Yaml) : GenomeShape :=
  if (yaml.get "spec_version").isSome && ((yaml.get "agent").bind (·.get "id")).isSome then
    .cliV01
  else
    match (yaml.get "apiVersion").bind Yaml.asStr with
    | some v => if "agenomic/".toList.isPrefixOf v.toList then .v1Alpha1 else .legacy
    | none => .legacy

/-- What a genome declares to run; one without the block runs what was derived, if anything. -/
def declaredExecution (yaml : Yaml) (derived : Option CompiledExecution) :
    CliResult (Option CompiledExecution) :=
  match yaml.get "execution" with
  | some node => (parseDeclaredExecution node).map some
  | none => .ok derived

def normalizeCliV01 (root : Root) (yaml : Yaml) : CliResult NormalizedBundle := do
  let runtime := yaml.get "runtime"
  let entrypoint := stringField runtime "entrypoint"
  let runtimeKindHint := (stringField runtime "runtime_kind").or (inferRuntimeKind entrypoint)
  let execution ← declaredExecution yaml (deriveExecution runtimeKindHint entrypoint)
  let warnings :=
    if (yaml.get "execution").isNone && execution.isSome then
      ["execution block absent; compiled runtime plan was derived from runtime.entrypoint/runtime_kind"]
    else []
  let attestationFiles ← root.attestationFiles
  return {
    shape := .cliV01
    agentId := stringField (yaml.get "agent") "id"
    agentName := (stringField (yaml.get "agent") "name").getD "unknown-agent"
    frameworkHint := stringField runtime "framework"
    runtimeKindHint := runtimeKindHint
    modelProvider := stringField runtime "model_provider"
    modelId := stringField runtime "model_id"
    execution := execution
    prompts :=
      { system := root.relativeIfExists "prompts/system.md"
        skills := cliSkillPrompts (yaml.get "skills") }
    bindings :=
      { lockfile := root.firstExisting ["agent.lock.yaml", "agent.lock"]
        behaviorContract := root.relativeIfExists "behavior.contract.yaml"
        toolLock := root.relativeIfExists "tools/mcp.lock.yaml"
        knowledgeLock := root.relativeIfExists "knowledge/snapshots.yaml"
        memorySchema := root.relativeIfExists "memory/memory.schema.yaml"
        replayManifest := root.relativeIfExists "evals/replay_manifest.yaml"
        policySources := cliPolicySources (yaml.get "policies")
        attestationFiles := attestationFiles }
    warnings := warnings }

def normalizeV1Alpha1 (root : Root) (yaml : Yaml) : CliResult NormalizedBundle := do
  let artifacts := yaml.get "artifacts"
  let execution ← declaredExecution yaml none
  let warnings :=
    ["v1alpha1 genomes do not declare a stable agent id in-bundle; compiled artifact omits `agent.id`"]
      ++ if execution.isNone then
        ["v1alpha1 genome has no execution block; compiled runtime plan is metadata-only"]
      else []
  let attestationFiles ← root.attestationFiles
  return {
    shape := .v1Alpha1
    agentId := none
    agentName := (stringField (yaml.get "metadata") "name").getD "unknown-agent"
    frameworkHint := none
    runtimeKindHint := none
    modelProvider := none
    modelId := none
    execution := execution
    prompts :=
      { system := stringField artifacts "system_prompt"
        skills := promptList ((artifacts.bind (·.get "skills")).bind Yaml.asSequence) }
    bindings :=
      { lockfile := root.firstExisting ["agent.lock.yaml", "agent.lock"]
        behaviorContract := (stringField artifacts "behavior_contract").or
          (root.relativeIfExists "behavior.contract.yaml")
        toolLock := (stringField artifacts "tool_lock").or
          (root.relativeIfExists "tools/mcp.lock.yaml")
        knowledgeLock := root.relativeIfExists "knowledge/snapshots.yaml"
        memorySchema := (stringField artifacts "memory_schema").or
          (root.relativeIfExists "memory/memory.schema.yaml")
        replayManifest :=
          ((((artifacts.bind (·.get "evals")).bind Yaml.asSequence).bind List.head?).bind
            Yaml.asStr).or (root.relativeIfExists "evals/replay_manifest.yaml")
        policySources := stringList ((artifacts.bind (·.get "policies")).bind Yaml.asSequence)
        attestationFiles := attestationFiles }
    warnings := warnings }

def normalizeLegacy (root : Root) (yaml : Yaml) : CliResult NormalizedBundle := do
  let execution ← declaredExecution yaml none
  let warnings :=
    ["legacy genome shape detected; compiler extracted only common runtime metadata"]
      ++ if execution.isNone then
        ["legacy genome has no execution block; compiled runtime plan is metadata-only"]
      else []
  let attestationFiles ← root.attestationFiles
  return {
    shape := .legacy
    agentId := stringField (yaml.get "agent") "id"
    agentName := ((stringField (yaml.get "agent") "name").or
      (stringField (yaml.get "metadata") "name")).getD "unknown-agent"
    frameworkHint := stringField (yaml.get "runtime") "framework"
    runtimeKindHint := stringField (yaml.get "runtime") "runtime_kind"
    modelProvider := stringField (yaml.get "runtime") "model_provider"
    modelId := stringField (yaml.get "runtime") "model_id"
    execution := execution
    prompts :=
      { system := root.relativeIfExists "prompts/system.md"
        skills := promptList none }
    bindings :=
      { lockfile := root.firstExisting ["agent.lock.yaml", "agent.lock"]
        behaviorContract := root.relativeIfExists "behavior.contract.yaml"
        toolLock := root.relativeIfExists "tools/mcp.lock.yaml"
        knowledgeLock := root.relativeIfExists "knowledge/snapshots.yaml"
        memorySchema := root.relativeIfExists "memory/memory.schema.yaml"
        replayManifest := root.relativeIfExists "evals/replay_manifest.yaml"
        policySources := []
        attestationFiles := attestationFiles }
    warnings := warnings }

def normalizeBundle (root : Root) (yaml : Yaml) : CliResult NormalizedBundle :=
  match detectShape yaml with
  | .cliV01 => normalizeCliV01 root yaml
  | .v1Alpha1 => normalizeV1Alpha1 root yaml
  | .legacy => normalizeLegacy root yaml

/-! ## Compiling for an adapter -/

/-- The framework an adapter is for; the plain one is for any. -/
def RuntimeAdapter.framework : RuntimeAdapter → Option String
  | .plain => none
  | .langgraph => some "langgraph"
  | .crewai => some "crewai"
  | .googleAdk => some "google-adk"

def adapterFrameworkWarning (adapter : RuntimeAdapter) (declared : Option String) : String :=
  match declared with
  | some current =>
      s!"adapter `{adapter.label}` was requested, but genome declares runtime.framework `{current}`"
  | none =>
      s!"adapter `{adapter.label}` was requested, but genome does not declare a runtime.framework hint"

def adapterConfig (adapter : RuntimeAdapter) (n : NormalizedBundle) : Value :=
  let source := Value.string ((n.execution.map (·.source)).getD "missing")
  match adapter with
  | .plain =>
      .object [("entrypoint_source", source), ("launcher", .string "command"),
        ("transport", .string "subprocess")]
  | .langgraph =>
      .object [("binding_mode", .string "bundle-prompts-and-tools"),
        ("entrypoint_source", source), ("framework", .string "langgraph")]
  | .crewai =>
      .object [("binding_mode", .string "bundle-prompts-and-tools"),
        ("entrypoint_source", source), ("framework", .string "crewai")]
  | .googleAdk =>
      .object [("binding_mode", .string "bundle-prompts-and-tools"),
        ("entrypoint_source", source), ("framework", .string "google-adk"),
        ("launcher", .string "adk")]

/-- An adapter for a framework the genome does not declare. -/
def Mismatched (adapter : RuntimeAdapter) (n : NormalizedBundle) : Prop :=
  adapter.framework.isSome ∧ n.frameworkHint ≠ adapter.framework

instance (adapter : RuntimeAdapter) (n : NormalizedBundle) : Decidable (Mismatched adapter n) :=
  inferInstanceAs (Decidable (_ ∧ _))

def compileForAdapter (n : NormalizedBundle) (adapter : RuntimeAdapter) :
    CompiledRuntimeArtifact :=
  let warnings := n.warnings
    ++ (if Mismatched adapter n then [adapterFrameworkWarning adapter n.frameworkHint] else [])
    ++ (if n.execution.isNone then
        ["no execution contract could be declared or derived; adapter is metadata-only until an entrypoint is supplied"]
      else [])
    ++ (if n.modelProvider.isNone || n.modelId.isNone then
        ["model provider/id not fully declared in genome; downstream runtime wiring may need manual completion"]
      else [])
  { schemaVersion := "agenomic.runtime/v1"
    adapter := adapter
    ready := n.execution.isSome && !decide (Mismatched adapter n)
    source :=
      { bundleRoot := "."
        genomeShape := n.shape.label
        frameworkHint := n.frameworkHint
        runtimeKindHint := n.runtimeKindHint }
    agent := { id := n.agentId, name := n.agentName }
    model :=
      match n.modelProvider, n.modelId with
      | some provider, some id => some { provider := provider, id := id }
      | _, _ => none
    execution := n.execution
    prompts := n.prompts
    bindings := n.bindings
    adapterConfig := adapterConfig adapter n
    warnings := sortDedup (· ≤ ·) warnings }

/-- The adapters asked for, or the plain one and the one of the framework declared. -/
def chooseAdapters (n : NormalizedBundle) (requested : List RuntimeAdapter) :
    List RuntimeAdapter :=
  let adapters :=
    if requested.isEmpty then
      [.plain] ++ (match n.frameworkHint with
        | some "langgraph" => [.langgraph]
        | some "crewai" => [.crewai]
        | some "google-adk" => [.googleAdk]
        | _ => [])
    else requested
  sortDedup (fun a b => a.rank ≤ b.rank) adapters

/-- The artifacts of a genome, with the names of the files they are written to. -/
def compileRuntimeArtifacts (root : Root) (yaml : Yaml) (requested : List RuntimeAdapter) :
    CliResult (List (String × CompiledRuntimeArtifact)) := do
  let n ← normalizeBundle root yaml
  return (chooseAdapters n requested).map fun adapter =>
    (adapter.fileName, compileForAdapter n adapter)

/-! ## What becomes of the declared arguments -/

/-- The arguments a block declares. -/
def declaredArgs (node : Yaml) : List Yaml :=
  (((node.get "entrypoint").bind (·.get "args")).bind Yaml.asSequence).getD []

/-- An artifact passes the declared arguments: all of them, in their order. -/
def ArgsKept (node : Yaml) (a : CompiledRuntimeArtifact) : Prop :=
  ∃ e, a.execution = some e ∧ e.entrypoint.args.map some = (declaredArgs node).map Yaml.asStr

/-- Whatever genome declares the block, its artifacts pass the declared arguments. -/
def KeepsArgs (node : Yaml) : Prop :=
  ∀ (root : Root) (genome : Yaml) (n : NormalizedBundle) (adapter : RuntimeAdapter),
    genome.get "execution" = some node → normalizeBundle root genome = .ok n →
      ArgsKept node (compileForAdapter n adapter)

/-- The items are texts, each before the next. -/
def Ascending (items : List Yaml) : Prop :=
  ∃ texts : List String, items.map Yaml.asStr = texts.map some ∧ texts.Pairwise (· < ·)

theorem filterMap_asStr {items : List Yaml} {texts : List String}
    (h : items.map Yaml.asStr = texts.map some) : items.filterMap Yaml.asStr = texts := by
  have hid := congrArg (List.filterMap id) h
  simpa using hid

/-- The reader of lists gives back those lists that are in order already. -/
theorem stringList_eq_iff {items : List Yaml} :
    (stringList (some items)).map some = items.map Yaml.asStr ↔ Ascending items := by
  constructor
  · intro h
    exact ⟨_, h.symm, pairwise_lt_sortDedup _⟩
  · intro ⟨texts, htexts, hlt⟩
    change (sortDedup (· ≤ ·) (items.filterMap Yaml.asStr)).map some = _
    rw [filterMap_asStr htexts, sortDedup_of_pairwise_lt hlt, htexts]

/-- A list that is missing reads as an empty one. -/
theorem stringList_getD (node : Option (List Yaml)) :
    stringList (some (node.getD [])) = stringList node := by
  cases node with
  | none => rfl
  | some seq => rfl

/-- An accepted block runs with what its list of arguments is read as. -/
theorem parseDeclaredExecution_args {node : Yaml} {e : CompiledExecution}
    (h : parseDeclaredExecution node = .ok e) :
    e.entrypoint.args = stringList (some (declaredArgs node)) := by
  unfold declaredArgs
  rw [stringList_getD]
  unfold parseDeclaredExecution at h
  -- One case for each check, in the order they are made.
  split at h
  · rename_i entrypoint hentry
    split at h
    · split at h
      · split at h
        · cases h
        · split at h
          · split at h
            · cases h
              rw [hentry, Option.bind_some]
            · cases h
          · cases h
      · cases h
    · cases h
  · cases h

/-- Two calls one after the other succeed only when the first one does. -/
theorem steps_ok {α β γ : Type} {a : CliResult α} {b : CliResult β} {g : α → β → γ} {c : γ}
    (h : (do let x ← a; let y ← b; return g x y) = Except.ok c) :
    ∃ x y, a = .ok x ∧ c = g x y := by
  cases a with
  | error err => cases h
  | ok x =>
      cases b with
      | error err => cases h
      | ok y =>
          cases h
          exact ⟨x, y, rfl, rfl⟩

/-- Whatever the shape, a normal form runs what its genome declares. -/
theorem normalizeBundle_execution {root : Root} {genome : Yaml} {n : NormalizedBundle}
    (h : normalizeBundle root genome = .ok n) :
    ∃ derived, declaredExecution genome derived = .ok n.execution := by
  unfold normalizeBundle at h
  split at h
  · obtain ⟨execution, files, hexec, rfl⟩ := steps_ok h
    exact ⟨_, hexec⟩
  · obtain ⟨execution, files, hexec, rfl⟩ := steps_ok h
    exact ⟨_, hexec⟩
  · obtain ⟨execution, files, hexec, rfl⟩ := steps_ok h
    exact ⟨_, hexec⟩

/-- A declared block of a genome that is brought into normal form was accepted. -/
theorem normalizeBundle_declared {root : Root} {genome node : Yaml} {n : NormalizedBundle}
    (hnode : genome.get "execution" = some node) (h : normalizeBundle root genome = .ok n) :
    ∃ e, parseDeclaredExecution node = .ok e ∧ n.execution = some e := by
  obtain ⟨derived, hdeclared⟩ := normalizeBundle_execution h
  unfold declaredExecution at hdeclared
  rw [hnode] at hdeclared
  dsimp only at hdeclared
  cases hparse : parseDeclaredExecution node with
  | error err =>
      rw [hparse] at hdeclared
      cases hdeclared
  | ok e =>
      rw [hparse] at hdeclared
      exact ⟨e, rfl, (Except.ok.inj hdeclared).symm⟩

/-- A genome with nothing but the block, in an empty directory, is brought into normal form. -/
theorem normalizeBundle_alone {node : Yaml} {e : CompiledExecution}
    (h : parseDeclaredExecution node = .ok e) :
    ∃ n, normalizeBundle { present := fun _ => false, attestations := none }
      (.mapping [(.string "execution", node)]) = .ok n := by
  have hnode : (Yaml.mapping [(.string "execution", node)]).get "execution" = some node := rfl
  have hshape : detectShape (.mapping [(.string "execution", node)]) = .legacy := rfl
  unfold normalizeBundle
  rw [hshape]
  dsimp only
  unfold normalizeLegacy declaredExecution
  rw [hnode]
  dsimp only
  rw [h]
  exact ⟨_, rfl⟩

/-- What an artifact passes is what the reader of lists makes of the declared arguments. -/
theorem argsKept_iff {root : Root} {genome node : Yaml} {n : NormalizedBundle}
    (hnode : genome.get "execution" = some node) (h : normalizeBundle root genome = .ok n)
    (adapter : RuntimeAdapter) :
    ArgsKept node (compileForAdapter n adapter) ↔ Ascending (declaredArgs node) := by
  obtain ⟨e, hparse, hexec⟩ := normalizeBundle_declared hnode h
  rw [← stringList_eq_iff, ← parseDeclaredExecution_args hparse]
  constructor
  · intro ⟨e', he', hargs⟩
    have : e' = e := Option.some.inj (he'.symm.trans hexec)
    rw [← this]
    exact hargs
  · intro hargs
    exact ⟨e, hexec, hargs⟩

/-- The declared arguments reach the command exactly when they are texts that already stand
in strict order: any other list loses an item, a repetition or its order. -/
theorem keepsArgs_iff {node : Yaml} {e : CompiledExecution}
    (accepted : parseDeclaredExecution node = .ok e) :
    KeepsArgs node ↔ Ascending (declaredArgs node) := by
  constructor
  · intro hkeeps
    obtain ⟨n, hn⟩ := normalizeBundle_alone accepted
    exact (argsKept_iff rfl hn .plain).mp (hkeeps _ _ n .plain rfl hn)
  · intro hasc root genome n adapter hnode hn
    exact (argsKept_iff hnode hn adapter).mpr hasc

/-- An execution block that runs a command with some arguments. -/
def commandBlock (args : List String) : Yaml :=
  .mapping
    [(.string "entrypoint", .mapping
        [(.string "kind", .string "command"), (.string "command", .string "cargo"),
          (.string "args", .sequence (args.map .string))]),
      (.string "runtime", .mapping [(.string "kind", .string "rust")])]

/-- What an accepted command block is parsed to. -/
def commandExecution (args : List String) : CompiledExecution :=
  { source := "declared"
    entrypoint := { kind := "command", command := "cargo", args := args }
    runtime := { kind := "rust", version := none }
    workingDirectory := "."
    env := {}
    permissions := {} }

theorem keepsArgs_build_release :
    parseDeclaredExecution (commandBlock ["build", "release"])
        = .ok (commandExecution ["build", "release"])
      ∧ (KeepsArgs (commandBlock ["build", "release"])
        ↔ Ascending (declaredArgs (commandBlock ["build", "release"]))) :=
  have accepted : parseDeclaredExecution (commandBlock ["build", "release"])
      = .ok (commandExecution ["build", "release"]) := by decide +kernel
  ⟨accepted, keepsArgs_iff accepted⟩

/-- `cargo run --release` is compiled to `cargo --release run`. -/
theorem not_keepsArgs :
    ¬ ∀ (node : Yaml) (e : CompiledExecution),
      parseDeclaredExecution node = .ok e → KeepsArgs node := by
  intro h
  have accepted : parseDeclaredExecution (commandBlock ["run", "--release"])
      = .ok (commandExecution ["--release", "run"]) := by decide +kernel
  obtain ⟨n, hn⟩ := normalizeBundle_alone accepted
  obtain ⟨e, he, hargs⟩ := h _ _ accepted _ _ n .plain rfl hn
  obtain ⟨e', hparse, he'⟩ := normalizeBundle_declared rfl hn
  cases he.symm.trans he'
  cases hparse.symm.trans accepted
  exact absurd hargs (by decide)

end Agenomic.Bundle.Compile
