import Agenomic.Diff.Yaml
import Agenomic.Rmp.Report

/-!
# The changes between two bundles

A bundle is a list of files. Of its genome and its contract the diff looks at some fields
of the runtime, at the memory as a whole, and at four lists whose items are told apart by
a name or an id; of its other files at those below `prompts/`. Every list becomes a map
first, and two maps are compared key by key (`diffMaps`); what counts as a change of an
item is up to the category.
-/

namespace Agenomic.Diff

open Lib
open Agenomic.Prompt (Value)
open Agenomic.Rmp (Severity)

inductive DiffCategory where
  | model | tools | prompts | knowledge | policies | memory | contract | other
  deriving DecidableEq, Repr

structure DiffChange where
  changeType : String
  category : DiffCategory
  severity : Severity
  path : String
  before : Option Value
  after : Option Value
  explanation : String
  deriving DecidableEq

structure DiffReport where
  baselineHash : String
  candidateHash : String
  overallRisk : Severity
  replayRequired : Bool
  changes : List DiffChange

/-- What is compared; an empty list of categories includes all. -/
structure DiffOptions where
  included : List DiffCategory
  ignorePromptsWhitespace : Bool

/-- The files of a bundle, by path, and its root hash. -/
structure Bundle where
  pairs : List (String × Bytes)
  rootHash : String

/-! ## Maps -/

/-- The changes between two maps: what was added or is not the same, then what was removed. -/
def diffMaps {V : Type} (same : V → V → Bool) (added : String → V → DiffChange)
    (changed : String → V → V → List DiffChange) (removed : String → V → DiffChange)
    (b c : Std.ExtTreeMap String V) : List DiffChange :=
  (c.toList.flatMap fun (name, cv) =>
    match b[name]? with
    | none => [added name cv]
    | some bv => if same bv cv then [] else changed name bv cv)
  ++ b.toList.flatMap fun (name, bv) => if name ∈ c then [] else [removed name bv]

/-- Equality of JSON values. -/
def sameJson (v w : Value) : Bool := Value.same (some v) (some w)

/-- The text that tells an item of a list from the others. -/
def keyOf (key : String) (item : Yaml) : Option String := (item.get key).bind Yaml.asStr

/-- The items of a list by their keys; an item without a key is left out, and of those with
one key the last one stays. -/
def keyedMap (key : String) (items : List Yaml) : Std.ExtTreeMap String Value :=
  items.foldl (fun m item =>
    match keyOf key item with
    | some name => m.insert name item.jsonOrNull
    | none => m) ∅

/-- The items of a list in the genome. -/
def itemsAt (g : Option Yaml) (field : String) : List Yaml :=
  ((g.bind (·.get field)).bind Yaml.asSequence).getD []

def toolsMap (g : Option Yaml) : Std.ExtTreeMap String Value := keyedMap "name" (itemsAt g "tools")

def namedMap (g : Option Yaml) (field : String) : Std.ExtTreeMap String Value :=
  keyedMap "name" (itemsAt g field)

def idMap (g : Option Yaml) (field : String) : Std.ExtTreeMap String Value :=
  keyedMap "id" (itemsAt g field)

/-- The rules of a contract. -/
def rulesOf (c : Option Yaml) : List Yaml :=
  (((c.bind (·.get "contract")).bind (·.get "rules")).bind Yaml.asSequence).getD []

def contractRules (c : Option Yaml) : Std.ExtTreeMap String Value := keyedMap "id" (rulesOf c)

/-! ## The model -/

def runtimeValue (g : Option Yaml) (field : String) : Option Yaml :=
  (g.bind (·.get "runtime")).bind (·.get field)

def runtimeField (g : Option Yaml) (field : String) : Option String :=
  (runtimeValue g field).bind Yaml.asStr

/-- A change of a text in the runtime. -/
def runtimeChange (b c : Option Yaml) (field changeType : String) (severity : Severity)
    (explanation : String) : DiffChange where
  changeType
  category := .model
  severity
  path := s!"genome.yaml#runtime.{field}"
  before := (runtimeField b field).map .string
  after := (runtimeField c field).map .string
  explanation

/-- A change where a text of the runtime differs. -/
def diffRuntimeString (b c : Option Yaml) (field changeType : String) (severity : Severity)
    (explanation : String) : List DiffChange :=
  if runtimeField b field ≠ runtimeField c field then
    [runtimeChange b c field changeType severity explanation]
  else []

def diffModel (b c : Option Yaml) : List DiffChange :=
  diffRuntimeString b c "model_provider" "model_provider_changed" .high
    "Model provider changed — re-validate auth and behavior"
  -- a fingerprint that moved with the model is not reported on its own
  ++ (if runtimeField b "model_id" ≠ runtimeField c "model_id" then
      [runtimeChange b c "model_id" "model_id_changed" .high
        "Model ID changed — re-validate behavior"]
    else diffRuntimeString b c "model_fingerprint" "model_fingerprint_changed" .medium
      "Model fingerprint moved — replay required")
  ++ diffRuntimeString b c "revision" "model_revision_changed" .high
    "Model revision changed — resolved weights differ, replay required"
  ++ diffRuntimeString b c "task" "model_task_changed" .medium
    "Model task changed — re-validate behavior"
  ++ diffRuntimeString b c "endpoint_url" "model_endpoint_changed" .medium
    "Inference endpoint changed — re-validate connectivity and behavior"
  ++ (if Yaml.sameOption (runtimeValue b "parameters") (runtimeValue c "parameters") then []
    else
      [{ changeType := "model_parameters_changed"
         category := .model
         severity := .medium
         path := "genome.yaml#runtime.parameters"
         before := (runtimeValue b "parameters").map Yaml.jsonOrNull
         after := (runtimeValue c "parameters").map Yaml.jsonOrNull
         explanation := "Model parameters changed — re-validate behavior" }])

/-! ## The lists -/

/-- A change of an item of a list. -/
def itemChange (changeType : String) (category : DiffCategory) (severity : Severity)
    (path : String) (before after : Option Value) (explanation : String) : DiffChange :=
  ⟨changeType, category, severity, path, before, after, explanation⟩

def diffTools (b c : Option Yaml) : List DiffChange :=
  diffMaps sameJson
    (fun name v => itemChange "tool_added" .tools .medium s!"genome.yaml#tools[{name}]"
      none (some v) s!"Tool '{name}' added")
    (fun name bv cv => [itemChange "tool_changed" .tools .medium s!"genome.yaml#tools[{name}]"
      (some bv) (some cv) s!"Tool '{name}' definition changed"])
    (fun name v => itemChange "tool_removed" .tools .high s!"genome.yaml#tools[{name}]"
      (some v) none s!"Tool '{name}' removed")
    (toolsMap b) (toolsMap c)

/-- The snapshot of a knowledge source. -/
def snapshotHash (v : Value) : Option String := (v.get "snapshot_hash").bind Value.asStr

/-- Of a knowledge source that is not the same, only the snapshot is looked at. -/
def diffKnowledge (b c : Option Yaml) : List DiffChange :=
  diffMaps sameJson
    (fun name v => itemChange "knowledge_added" .knowledge .medium
      s!"genome.yaml#knowledge[{name}]" none (some v) s!"Knowledge source '{name}' added")
    (fun name bv cv =>
      if snapshotHash bv ≠ snapshotHash cv then
        [itemChange "knowledge_snapshot_changed" .knowledge .medium
          s!"genome.yaml#knowledge[{name}].snapshot_hash" ((snapshotHash bv).map .string)
          ((snapshotHash cv).map .string)
          s!"Knowledge '{name}' snapshot changed — replay required"]
      else [])
    (fun name v => itemChange "knowledge_removed" .knowledge .medium
      s!"genome.yaml#knowledge[{name}]" (some v) none s!"Knowledge '{name}' removed")
    (namedMap b "knowledge") (namedMap c "knowledge")

/-- A policy is added or removed; its content is not looked at. -/
def diffPolicies (b c : Option Yaml) : List DiffChange :=
  diffMaps (fun _ _ => true)
    (fun id v => itemChange "policy_added" .policies .high s!"genome.yaml#policies[{id}]"
      none (some v) s!"Policy '{id}' added")
    (fun _ _ _ => [])
    (fun id v => itemChange "policy_removed" .policies .high s!"genome.yaml#policies[{id}]"
      (some v) none s!"Policy '{id}' removed")
    (idMap b "policies") (idMap c "policies")

def diffMemory (b c : Option Yaml) : List DiffChange :=
  let before := b.bind (·.get "memory")
  let after := c.bind (·.get "memory")
  if Yaml.sameOption before after then []
  else
    [{ changeType := "memory_schema_changed"
       category := .memory
       severity := .critical
       path := "genome.yaml#memory"
       before := before.bind Yaml.toJson
       after := after.bind Yaml.toJson
       explanation := "Memory schema changed — rollback safety risk" }]

def diffContractRules (b c : Option Yaml) : List DiffChange :=
  diffMaps sameJson
    (fun id v => itemChange "contract_rule_added" .contract .medium
      s!"behavior.contract.yaml#rules[{id}]" none (some v) s!"Contract rule '{id}' added")
    (fun id bv cv => [itemChange "contract_rule_changed" .contract .medium
      s!"behavior.contract.yaml#rules[{id}]" (some bv) (some cv) s!"Contract rule '{id}' changed"])
    (fun id v => itemChange "contract_rule_removed" .contract .high
      s!"behavior.contract.yaml#rules[{id}]" (some v) none s!"Contract rule '{id}' removed")
    (contractRules b) (contractRules c)

/-! ## The prompts -/

/-- The words of a text. -/
def splitWhitespace (s : List Char) : List (List Char) :=
  (s.splitOnP isWhiteSpace).filter fun word => word ≠ []

/-- The words of a file, with single spaces between them. -/
def normalizeWs (bytes : Bytes) : Bytes :=
  utf8Encode (List.intercalate [' '] (splitWhitespace (utf8DecodeLossy bytes)))

/-- The path is one of a prompt. -/
def isPrompt (path : String) : Bool := "prompts/".toList.isPrefixOf path.toList

/-- The prompts of a bundle by their paths. -/
def promptsMap (pairs : List (String × Bytes)) : Std.ExtTreeMap String Bytes :=
  pairs.foldl (fun m pair => if isPrompt pair.1 then m.insert pair.1 pair.2 else m) ∅

/-- The contents of two prompts count as the same. -/
def samePrompt (ignoreWs : Bool) (b c : Bytes) : Bool :=
  if ignoreWs then normalizeWs b == normalizeWs c else b == c

def promptChange (changeType path explanation : String) : DiffChange :=
  ⟨changeType, .prompts, .medium, path, none, none, explanation⟩

def diffPrompts (b c : List (String × Bytes)) (ignoreWs : Bool) : List DiffChange :=
  diffMaps (samePrompt ignoreWs)
    (fun path _ => promptChange "prompt_added" path s!"Prompt '{path}' added")
    (fun path _ _ => [promptChange "prompt_changed" path s!"Prompt '{path}' content changed"])
    (fun path _ => promptChange "prompt_removed" path s!"Prompt '{path}' removed")
    (promptsMap b) (promptsMap c)

/-! ## The report -/

variable (parse : Bytes → Option Yaml)

/-- The document in a file, nothing when the file is missing or not YAML. -/
def fileYaml (pairs : List (String × Bytes)) (name : String) : Option Yaml :=
  (pairs.find? fun pair => pair.1 == name).bind fun pair => parse pair.2

def genomeOf (b : Bundle) : Option Yaml := fileYaml parse b.pairs "genome.yaml"

def contractOf (b : Bundle) : Option Yaml := fileYaml parse b.pairs "behavior.contract.yaml"

/-- All changes between two bundles. -/
def allChanges (b c : Bundle) (options : DiffOptions) : List DiffChange :=
  diffModel (genomeOf parse b) (genomeOf parse c)
  ++ diffTools (genomeOf parse b) (genomeOf parse c)
  ++ diffKnowledge (genomeOf parse b) (genomeOf parse c)
  ++ diffPolicies (genomeOf parse b) (genomeOf parse c)
  ++ diffMemory (genomeOf parse b) (genomeOf parse c)
  ++ diffContractRules (contractOf parse b) (contractOf parse c)
  ++ diffPrompts b.pairs c.pairs options.ignorePromptsWhitespace

/-- The changes of one of these kinds make a replay necessary. -/
def needsReplay (change : DiffChange) : Bool :=
  change.changeType == "model_fingerprint_changed"
    || change.changeType == "model_revision_changed"
    || change.changeType == "knowledge_snapshot_changed"

def diffBundles (b c : Bundle) (options : DiffOptions) : DiffReport :=
  let all := allChanges parse b c options
  let changes :=
    if options.included = [] then all
    else all.filter fun change => decide (change.category ∈ options.included)
  { baselineHash := b.rootHash
    candidateHash := c.rootHash
    overallRisk := (changes.map (·.severity)).foldl max .info
    replayRequired := changes.any needsReplay
    changes }

end Agenomic.Diff
