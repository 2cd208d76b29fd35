import Agenomic.Detect.Merge
import Agenomic.Fs.Walk
import Agenomic.Prompt.Value

/-!
# Detection

Eight sources write one genome, lowest precedence first; then an inference over the
collected dependencies writes again. Each value that is written is recorded with its
source, and the inference asks the record whether a field was set.

The contents of the files are taken as parsed; what the code reads of the texts of git
remotes, README, `go.mod` and Dockerfile is read here too.
-/

namespace Agenomic.Detect

open Lib Prompt

/-! ## Writing a genome -/

namespace DetectedGenome

/-- Record that a source set a field to a value, in place of what was recorded of the field. -/
def record (source : Source) (field value evidence : String) (g : DetectedGenome) :
    DetectedGenome :=
  { g with evidence := (g.evidence.filter fun e => e.field ≠ field)
      ++ [⟨field, value, source, evidence⟩] }

/-- Set a scalar field. -/
def set (f : ScalarField) (value : String) (g : DetectedGenome) : DetectedGenome :=
  match f with
  | .agentId => { g with agentId := value }
  | .agentName => { g with agentName := value }
  | .domain => { g with domain := value }
  | .criticality => { g with criticality := value }
  | .description => { g with description := some value }
  | .framework => { g with framework := some value }
  | .runtimeKind => { g with runtimeKind := some value }
  | .modelProvider => { g with modelProvider := value }
  | .modelId => { g with modelId := value }
  | .entrypoint => { g with entrypoint := some value }

/-- Set a scalar field and record it. -/
def write (source : Source) (f : ScalarField) (value evidence : String) (g : DetectedGenome) :
    DetectedGenome := (g.set f value).record source f.name value evidence

/-- Write what there is to write. -/
def writeSome (source : Source) (f : ScalarField) (value : Option String) (evidence : String)
    (g : DetectedGenome) : DetectedGenome :=
  match value with
  | some v => g.write source f v evidence
  | none => g

end DetectedGenome

/-! ## What is read -/

/-- A dependency of a manifest. -/
structure Dependency where
  name : String
  version : Option String
  source : Source
  deriving DecidableEq, Repr

/-- A value of a TOML table, as far as a version is read of it. -/
inductive TomlValue where
  | string (s : String)
  | table (entries : List (String × TomlValue))
  | other

structure CargoPackage where
  name : Option String
  description : Option String

structure CargoToml where
  package : Option CargoPackage
  dependencies : Option (List (String × TomlValue))

structure PackageJson where
  name : Option String
  description : Option String
  dependencies : List (String × String)
  devDependencies : List (String × String)

structure Author where
  name : Option String
  email : Option String

structure Project where
  name : Option String
  description : Option String
  authors : List Author
  dependencies : List String
  /-- In the order of the keys. -/
  scripts : List (String × String)

/-- The contents of the files, parsed where they have a format; none for a file that is not
there. -/
structure Contents where
  /-- The URL of the remote `origin`. -/
  git : Option String
  readme : Option String
  goMod : Option String
  cargo : Option CargoToml
  packageJson : Option PackageJson
  /-- The `[project]` of a `pyproject.toml`. -/
  pyproject : Option (Option Project)
  dockerfile : Option String
  agenomicYaml : Option Value

/-- What the standard library says of letters, and a JSON array of strings. -/
structure TextEnv where
  /-- The upper case of a character, which may be several. -/
  upper : Char → List Char
  lower : String → String
  stringArray : String → Option (List String)

/-- A text that is not empty. -/
def nonEmpty (s : String) : Option String := if s = "" then none else some s

def trimText (s : String) : String := String.ofList (Fs.trim s.toList)

def textLines (text : String) : List String := (lines text.toList).map String.ofList

/-! ## The sources -/

/-- What stands behind the last of some characters, and what stands in front of it, if it is
there. -/
def splitLast (isSep : Char → Bool) (cs : List Char) : Option (List Char) × List Char :=
  let tail := (cs.reverse.takeWhile fun c => !isSep c).reverse
  if cs.any isSep then (some (cs.take (cs.length - tail.length - 1)), tail) else (none, tail)

/-- Extract `<org>/<repo>` from a git remote URL. -/
def parseOrgRepo (url : String) : Option String :=
  let trimmed := (Fs.trim url.toList).rdropWhile (· = '/')
  let withoutGit := if ".git".toList <:+ trimmed then trimmed.take (trimmed.length - 4) else trimmed
  let isSep := fun c => c = '/' || c = ':'
  match splitLast isSep withoutGit with
  | (some front, repo) =>
      let org := (splitLast isSep front).2
      if repo = [] ∨ org = [] then none else some (String.ofList (org ++ '/' :: repo))
  | (none, _) => none

def applyGit (c : Contents) (g : DetectedGenome) : DetectedGenome :=
  match c.git with
  | none => g
  | some url =>
      g.writeSome .git .agentId ((parseOrgRepo url).map ("agent://" ++ ·)) s!"origin={url}"

/-- The first heading of the first level. -/
def firstH1 (text : String) : Option String :=
  (textLines text).findSome? fun line =>
    ((stripPrefix? "# " (trimText line)).map trimText).bind nonEmpty

/-- The first paragraph, behind what was already read of it. -/
def paragraphFrom (para : String) : List String → String
  | [] => para
  | line :: rest =>
      let t := trimText line
      if "#".toList <+: t.toList ∨ t = "" then
        if para = "" then paragraphFrom para rest else para
      else paragraphFrom ((if para = "" then "" else para ++ " ") ++ t) rest

def firstParagraph (text : String) : Option String := nonEmpty (paragraphFrom "" (textLines text))

def applyReadme (c : Contents) (g : DetectedGenome) : DetectedGenome :=
  match c.readme with
  | none => g
  | some text =>
      (g.writeSome .readme .agentName (firstH1 text) "README.md first H1").writeSome
        .readme .description (firstParagraph text) "README.md first paragraph"

/-- The last segment of the module path. -/
def moduleName (text : String) : Option String :=
  let path := (textLines text).findSome? fun l =>
    (stripPrefix? "module " (trimText l)).map trimText
  path.bind fun m => nonEmpty (trimText (String.ofList (splitLast (· = '/') m.toList).2))

def applyGoMod (c : Contents) (g : DetectedGenome) : DetectedGenome :=
  match c.goMod with
  | none => g
  | some text =>
      (g.write .goMod .runtimeKind "go" "go.mod present").writeSome .goMod .agentName
        (moduleName text) "go.mod module path"

/-- What a detection has found so far. -/
structure Detection where
  genome : DetectedGenome
  deps : List Dependency

def cargoDepVersion : TomlValue → Option String
  | .string s => some s
  | .table entries =>
      match Value.lookup "version" entries with
      | some (.string s) => some s
      | _ => none
  | .other => none

variable (env : TextEnv)

/-- The dependencies of a `Cargo.toml`. -/
def cargoDeps (cargo : CargoToml) : List Dependency :=
  (cargo.dependencies.getD []).map fun entry =>
    ⟨env.lower entry.1, cargoDepVersion entry.2, .cargo⟩

def applyCargo (c : Contents) (s : Detection) : Detection :=
  match c.cargo with
  | none => s
  | some cargo =>
      let g := s.genome.write .cargo .runtimeKind "rust" "Cargo.toml present"
      let g := match cargo.package with
        | none => g
        | some pkg =>
            (g.writeSome .cargo .agentName (pkg.name.bind nonEmpty)
              "Cargo.toml package.name").writeSome
              .cargo .description (pkg.description.bind nonEmpty) "Cargo.toml package.description"
      ⟨g, s.deps ++ cargoDeps env cargo⟩

/-- The dependencies of a `package.json`, those for development last. -/
def packageJsonDeps (pkg : PackageJson) : List Dependency :=
  (pkg.dependencies ++ pkg.devDependencies).map fun entry =>
    ⟨env.lower entry.1, some entry.2, .packageJson⟩

def applyPackageJson (c : Contents) (s : Detection) : Detection :=
  match c.packageJson with
  | none => s
  | some pkg =>
      let g := s.genome.write .packageJson .runtimeKind "node" "package.json present"
      let g := g.writeSome .packageJson .agentName (pkg.name.bind nonEmpty) "package.json name"
      let g := g.writeSome .packageJson .description (pkg.description.bind nonEmpty)
        "package.json description"
      ⟨g, s.deps ++ packageJsonDeps env pkg⟩

def formatAuthor (a : Author) : Option String :=
  match a.name.bind nonEmpty, a.email.bind nonEmpty with
  | some n, some e => some s!"{n} <{e}>"
  | some n, none => some n
  | none, some e => some e
  | none, none => none

/-- Parse a requirement into its name and its version specification. -/
def parseRequirement (req : String) : Option (String × Option String) :=
  let req := Fs.trim req.toList
  let isName := fun c : Char => c.isAlphanum || c = '.' || c = '_' || c = '-'
  let name := (req.takeWhile isName).map Char.toLower
  if name = [] then none
  else
    let rest := Fs.trim (req.dropWhile isName)
    -- the extras, up to the first bracket that closes, and what stands before the next
    let rest := match rest with
      | '[' :: after =>
          Fs.trim (((after.dropWhile (· ≠ ']')).drop 1).takeWhile (· ≠ ']'))
      | _ => rest
    some (String.ofList name, nonEmpty (String.ofList rest))

/-- The dependencies of a `pyproject.toml`. -/
def pyprojectDeps (project : Project) : List Dependency :=
  project.dependencies.filterMap fun req =>
    (parseRequirement req).map fun r => ⟨r.1, r.2, .pyproject⟩

/-- The target of the first script. -/
def scriptTarget (project : Project) : Option String :=
  project.scripts.head?.bind fun script => nonEmpty script.2

/-- Set the authors, if there are any. -/
def setAuthors (authors : List String) (g : DetectedGenome) : DetectedGenome :=
  if authors = [] then g
  else { g.record .pyproject "agent.authors" (", ".intercalate authors) "project.authors" with
    authors }

def applyPyproject (c : Contents) (s : Detection) : Detection :=
  match c.pyproject with
  | some (some project) =>
      let g := s.genome.write .pyproject .runtimeKind "python" "pyproject.toml present"
      let g := g.writeSome .pyproject .agentName (project.name.bind nonEmpty) "project.name"
      let g := g.writeSome .pyproject .description
        ((project.description.map trimText).bind nonEmpty) "project.description"
      let g := setAuthors (project.authors.filterMap formatAuthor) g
      let g := g.writeSome .pyproject .entrypoint (scriptTarget project)
        ("project.scripts." ++ (project.scripts.head?.map Prod.fst).getD "")
      ⟨g, s.deps ++ pyprojectDeps project⟩
  | _ => s

/-- What is left of a text after a number of bytes; none when a character would be cut, which stops
the call. -/
def sliceFrom (n : Nat) (cs : List Char) : Option (List Char) :=
  match n, cs with
  | 0, cs => some cs
  | _, [] => none
  | n, c :: cs => if c.utf8Size ≤ n then sliceFrom (n - c.utf8Size) cs else none
  termination_by cs.length

/-- Normalise exec form to a space-joined string. -/
def normalizeExec (arg : String) : String :=
  if "[".toList <+: arg.toList then
    match env.stringArray arg with
    | some parts => " ".intercalate parts
    | none => arg
  else arg

/-- Read the lines of a Dockerfile, with the first `CMD` so far. -/
def entrypointFrom (fallback : Option String) : List String → Option (Option String)
  | [] => some fallback
  | line :: rest =>
      let t := Fs.trim line.toList
      let upper := t.flatMap env.upper
      if "ENTRYPOINT".toList <+: upper then do
        let arg := Fs.trim (← sliceFrom 10 t)
        if arg ≠ [] then some (some (normalizeExec env (String.ofList arg)))
        else entrypointFrom fallback rest
      else if "CMD ".toList <+: upper ∧ fallback = none then do
        let arg := Fs.trim (← sliceFrom 3 t)
        if arg ≠ [] then entrypointFrom (some (normalizeExec env (String.ofList arg))) rest
        else entrypointFrom fallback rest
      else entrypointFrom fallback rest

def parseEntrypoint (text : String) : Option (Option String) :=
  entrypointFrom env none (textLines text)

/-- Set the entrypoint from a Dockerfile, but only if no earlier source set it. -/
def applyDockerfile (c : Contents) (g : DetectedGenome) : Option DetectedGenome :=
  if g.entrypoint.isSome then some g
  else match c.dockerfile with
    | none => some g
    | some text =>
        (parseEntrypoint env text).map fun ep =>
          g.writeSome .dockerfile .entrypoint ep "Dockerfile ENTRYPOINT/CMD"

/-- Follow a path of mapping keys to a leaf that is a non-empty text. -/
def nestedStr (value : Value) : List String → Option String
  | [] => value.asStr.bind nonEmpty
  | key :: keys =>
      match value.get key with
      | some node => nestedStr node keys
      | none => none

/-- Where `agenomic.yaml` has a field. -/
def ScalarField.yamlPath : ScalarField → List String
  | .agentId => ["agent", "id"]
  | .agentName => ["agent", "name"]
  | .domain => ["agent", "domain"]
  | .criticality => ["agent", "criticality"]
  | .description => ["description"]
  | .framework => ["runtime", "framework"]
  | .runtimeKind => ["runtime", "runtime_kind"]
  | .modelProvider => ["runtime", "model_provider"]
  | .modelId => ["runtime", "model_id"]
  | .entrypoint => ["runtime", "entrypoint"]

/-- Overlay one field from `agenomic.yaml`. -/
def overlay (value : Value) (g : DetectedGenome) (f : ScalarField) : DetectedGenome :=
  g.writeSome .agenomicYaml f (nestedStr value f.yamlPath)
    ("agenomic.yaml " ++ ".".intercalate f.yamlPath)

def applyAgenomicYaml (c : Contents) (g : DetectedGenome) : DetectedGenome :=
  match c.agenomicYaml with
  | none => g
  | some value =>
      [ScalarField.agentId, .agentName, .domain, .criticality, .description, .framework,
        .runtimeKind, .modelProvider, .modelId, .entrypoint].foldl (overlay value) g

/-! ## Inference -/

/-- The evidence source currently backing a field. -/
def sourceOf (g : DetectedGenome) (field : String) : Option Source :=
  (g.evidence.find? fun e => e.field = field).map Evidence.source

/-- The field was set by something other than the built-in defaults. -/
def explicitlySet (g : DetectedGenome) (field : String) : Bool :=
  (sourceOf g field).any (· ≠ .defaults)

def depEvidence (dep : Dependency) : String :=
  let version := dep.version.getD ""
  s!"dependency {dep.name}{version}"

/-- The first rule with a dependency that matches, and that dependency. -/
def firstRule {α : Type} (deps : List Dependency) (rules : List (α × (String → Bool))) :
    Option (α × Dependency) :=
  rules.findSome? fun rule => (deps.find? fun d => rule.2 d.name).map fun d => (rule.1, d)

/-- The frameworks by priority, each with whether it sets the provider. -/
def frameworkRules : List ((String × Bool) × (String → Bool)) :=
  [ (("google-adk", false),
      fun n => n = "google-adk" ∨ n = "google-agents-cli" ∨ n = "agents-cli"),
    (("langgraph", false), fun n => n = "langgraph"),
    (("langchain", false), fun n => n = "langchain" ∨ "langchain-".toList <+: n.toList),
    (("openai-agents", true), fun n => n = "openai-agents" ∨ n = "openai-swarm"),
    (("crewai", false), fun n => n = "crewai"),
    (("llama-index", false), fun n => n = "llama-index") ]

def setProvider (provider : String) (dep : Dependency) (g : DetectedGenome) : DetectedGenome :=
  g.write dep.source .modelProvider provider (depEvidence dep)

def inferFramework (deps : List Dependency) (g : DetectedGenome) : DetectedGenome :=
  if explicitlySet g "runtime.framework" then g
  else match firstRule deps frameworkRules with
    | some ((framework, setsOpenai), dep) =>
        let g := g.write dep.source .framework framework (depEvidence dep)
        if setsOpenai then setProvider "openai" dep g else g
    | none => g.write .defaults .framework "custom" "no known framework dependency"

def providerRules : List (String × (String → Bool)) :=
  [ ("anthropic", fun n => n = "anthropic"),
    ("openai", fun n => n = "openai"),
    ("google", fun n => n = "google-generativeai" ∨ n = "google-genai" ∨ n = "vertexai"
      ∨ n = "google-adk" ∨ n = "google-agents-cli"),
    ("cohere", fun n => n = "cohere"),
    ("huggingface", fun n => n = "huggingface-hub" ∨ n = "huggingface_hub" ∨ n = "transformers") ]

def inferProvider (deps : List Dependency) (g : DetectedGenome) : DetectedGenome :=
  if explicitlySet g "runtime.model_provider" then g
  else match firstRule deps providerRules with
    | some (provider, dep) => setProvider provider dep g
    | none => g

def defaultModel (provider : String) : Option String :=
  if provider = "anthropic" then some "claude-sonnet-4-6"
  else if provider = "openai" then some "gpt-4o"
  else if provider = "google" then some "gemini-1.5-pro"
  else if provider = "cohere" then some "command-r-plus"
  else none

def inferModelId (g : DetectedGenome) : DetectedGenome :=
  if explicitlySet g "runtime.model_id" then g
  else g.writeSome .defaults .modelId (defaultModel g.modelProvider)
    s!"default for provider {g.modelProvider}"

def toolKind (name : String) : Option ToolKind :=
  if name ∈ ["ruff", "mypy", "pylint", "black"] then some .linter
  else if name ∈ ["radon", "lizard"] then some .complexity
  else if name ∈ ["bandit", "semgrep"] then some .security
  else if name ∈ ["pytest", "unittest2"] then some .test
  else if name ∈ ["requests", "httpx", "aiohttp"] then some .http
  else if name = "pydantic" then some .schema
  else if name ∈ ["redis", "chromadb", "weaviate-client", "pinecone-client"] then some .memory
  else if name ∈ ["sqlalchemy", "psycopg", "asyncpg"] then some .sql
  else none

/-- A tool, the source that declares it, and the evidence. -/
abbrev FoundTool := ToolEntry × Source × String

/-- The tool of a dependency. -/
def foundTool (dep : Dependency) : Option FoundTool :=
  (toolKind dep.name).map fun kind => (⟨dep.name, kind, dep.version⟩, dep.source, depEvidence dep)

/-- Two tools of one name and kind. -/
def SameTool (a b : FoundTool) : Prop := a.1.name = b.1.name ∧ a.1.kind = b.1.kind

instance : DecidableRel SameTool := fun _ _ => inferInstanceAs (Decidable (_ ∧ _))

/-- The tools by kind and name, repeats after the first left out. -/
def foundTools (deps : List Dependency) : List FoundTool :=
  ((deps.filterMap foundTool).insertionSort fun a b => ToolEntry.le a.1 b.1).destutter
    fun a b => ¬ SameTool a b

def inferTools (deps : List Dependency) (g : DetectedGenome) : DetectedGenome :=
  let tools := foundTools deps
  let g := tools.zipIdx.foldl (fun g t =>
    g.record t.1.2.1 s!"tools[{t.2}]" t.1.1.name t.1.2.2) g
  { g with tools := tools.map Prod.fst }

def memoryBackends : List String := ["chromadb", "pinecone-client", "redis", "weaviate-client"]

def inferMemory (deps : List Dependency) (g : DetectedGenome) : DetectedGenome :=
  match deps.find? fun d => d.name ∈ memoryBackends with
  | some dep =>
      { g.record dep.source "runtime.memory.backend" dep.name (depEvidence dep) with
        memory := some ⟨true, dep.name⟩ }
  | none => g

/-- Apply the inference tables, the dependencies by name. -/
def infer (deps : List Dependency) (g : DetectedGenome) : DetectedGenome :=
  let sorted := deps.insertionSort fun a b => a.name ≤ b.name
  inferMemory sorted (inferTools sorted (inferModelId
    (inferProvider sorted (inferFramework sorted g))))

/-! ## A run -/

/-- Options controlling a detection run. -/
structure DetectOptions where
  only : Option (List Source)
  noDetect : Bool
  nameOverride : Option String
  agentIdOverride : Option String
  deriving DecidableEq, Repr

/-- All sources, lowest precedence first. -/
def Source.precedence : List Source :=
  [.defaults, .git, .readme, .goMod, .cargo, .packageJson, .pyproject, .dockerfile, .agenomicYaml]

/-- Higher wins. -/
def Source.rank (s : Source) : Nat := Source.precedence.idxOf s

def applySource (c : Contents) (source : Source) (s : Detection) : Option Detection :=
  match source with
  | .defaults => some s
  | .git => some { s with genome := applyGit c s.genome }
  | .readme => some { s with genome := applyReadme c s.genome }
  | .goMod => some { s with genome := applyGoMod c s.genome }
  | .cargo => some (applyCargo env c s)
  | .packageJson => some (applyPackageJson env c s)
  | .pyproject => some (applyPyproject c s)
  | .dockerfile => (applyDockerfile env c s.genome).map fun g => { s with genome := g }
  | .agenomicYaml => some { s with genome := applyAgenomicYaml c s.genome }

/-- Apply the overrides of the command line, which take precedence over every source. -/
def applyOverrides (opts : DetectOptions) (g : DetectedGenome) : DetectedGenome :=
  let g := match opts.nameOverride.bind nonEmpty with
    | some name =>
        { g with agentName := name, evidence := g.evidence.filter fun e => e.field ≠ "agent.name" }
    | none => g
  match opts.agentIdOverride.bind nonEmpty with
  | some id => { g with agentId := id, evidence := g.evidence.filter fun e => e.field ≠ "agent.id" }
  | none => g

/-- The source is consulted. -/
def DetectOptions.consults (opts : DetectOptions) (source : Source) : Bool :=
  opts.only.all fun only => only.contains source

/-- Run detection on the contents of a repository; none when it stops at a character that would be
cut. -/
def run (c : Contents) (opts : DetectOptions) : Option DetectedGenome := do
  let g ← if opts.noDetect then some .defaults
    else do
      let s ← Source.precedence.foldlM (fun s source =>
        if source = .defaults then some s
        else if !opts.consults source then some s
        else applySource env c source s) ⟨.defaults, []⟩
      some (infer s.deps s.genome)
  some (applyOverrides opts g)

end Agenomic.Detect
