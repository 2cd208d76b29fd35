import Agenomic.Core

/-!
# Detected genomes and their provenance

A genome holds plain values; beside them it carries the evidence of the detection that
set them. The provenance sidecar keeps that evidence, sorted by field, so that a later
update can tell what detection wrote from what was written by hand.
-/

namespace Agenomic.Detect

open Lib

/-- A detection source, lowest precedence first. -/
inductive Source where
  | defaults
  | git
  | readme
  | goMod
  | cargo
  | packageJson
  | pyproject
  | dockerfile
  | agenomicYaml
  deriving DecidableEq, Repr

def Source.label : Source → String
  | .defaults => "defaults"
  | .git => "git"
  | .readme => "readme"
  | .goMod => "go-mod"
  | .cargo => "cargo"
  | .packageJson => "package-json"
  | .pyproject => "pyproject"
  | .dockerfile => "dockerfile"
  | .agenomicYaml => "agenomic-yaml"

structure Evidence where
  field : String
  value : String
  source : Source
  evidence : String
  deriving DecidableEq, Repr

/-- The kinds of tools, in the order they are sorted by. -/
inductive ToolKind where
  | linter
  | complexity
  | security
  | test
  | http
  | schema
  | memory
  | sql
  deriving DecidableEq, Repr

def ToolKind.label : ToolKind → String
  | .linter => "linter"
  | .complexity => "complexity"
  | .security => "security"
  | .test => "test"
  | .http => "http"
  | .schema => "schema"
  | .memory => "memory"
  | .sql => "sql"

structure ToolEntry where
  name : String
  kind : ToolKind
  version : Option String
  deriving DecidableEq, Repr

structure MemoryInfo where
  enabled : Bool
  backend : String
  deriving DecidableEq, Repr

structure DetectedGenome where
  specVersion : String
  agentId : String
  agentName : String
  domain : String
  criticality : String
  authors : List String
  description : Option String
  framework : Option String
  runtimeKind : Option String
  modelProvider : String
  modelId : String
  entrypoint : Option String
  memory : Option MemoryInfo
  tools : List ToolEntry
  skills : List String
  knowledge : List String
  policies : List String
  evidence : List Evidence
  deriving DecidableEq, Repr

namespace DetectedGenome

/-- The hard-coded placeholders. -/
def defaults : DetectedGenome where
  specVersion := "0.1"
  agentId := "agent://example/new"
  agentName := "Example Agent"
  domain := "general"
  criticality := "low"
  authors := []
  description := none
  framework := none
  runtimeKind := none
  modelProvider := "openai"
  modelId := "gpt-4o"
  entrypoint := none
  memory := none
  tools := []
  skills := []
  knowledge := []
  policies := []
  evidence :=
    [ ⟨"agent.id", "agent://example/new", .defaults, "built-in default"⟩,
      ⟨"agent.name", "Example Agent", .defaults, "built-in default"⟩,
      ⟨"runtime.model_provider", "openai", .defaults, "built-in default"⟩,
      ⟨"runtime.model_id", "gpt-4o", .defaults, "built-in default"⟩ ]

/-- The evidence in the order of its fields; entries of one field keep their order. -/
def sortedEvidence (g : DetectedGenome) : List Evidence :=
  g.evidence.insertionSort fun a b => a.field ≤ b.field

end DetectedGenome

/-- One recorded field origin. -/
structure SourceRecord where
  field : String
  value : String
  source : String
  evidence : String
  deriving DecidableEq, Repr

structure LastUpdate where
  step : Option String
  bundleHash : String
  changes : List String
  deriving DecidableEq, Repr

structure Provenance where
  detectorVersion : String
  detectedAt : String
  sources : List SourceRecord
  frozen : List String
  lastUpdate : Option LastUpdate
  deriving DecidableEq, Repr

def detectorVersion : String := "0.3.0-alpha.0"

/-- The provenance of a detection. -/
def Provenance.fromDetection (genome : DetectedGenome) (detectedAt : String) : Provenance where
  detectorVersion := Detect.detectorVersion
  detectedAt := detectedAt
  sources := genome.sortedEvidence.map fun e => ⟨e.field, e.value, e.source.label, e.evidence⟩
  frozen := []
  lastUpdate := none

end Agenomic.Detect
