import Agenomic.Lib.Numbered
import Agenomic.Lib.Text

/-!
# The orchestration pass: workflows, their slugs and their manifests

A scanned project yields workflows, each under a slug made of the builder function's name,
of its file's or directory's, or of the workflow class's. Repeated slugs get the number of
the repeat, and each workflow is written to the file its slug names. `system.yaml` lists
the files.
-/

namespace Agenomic.Detect

open Lib

/-- One hand-off inside a graph, under its router when it is conditional. -/
structure DetectedEdge where
  source : String
  target : String
  router : Option String
  deriving DecidableEq, Repr

structure DetectedWorkflow where
  slug : String
  engine : String
  nodes : List String
  edges : List DetectedEdge
  entry : Option String
  signals : List String
  origin : String
  deriving DecidableEq, Repr

structure DetectedSystem where
  roles : List String
  edges : List DetectedEdge
  entrypoint : Option String
  signals : List String
  engine : String
  deriving DecidableEq, Repr

/-! ## Slugs -/

/-- The text without its leading copies of a part. -/
def trimStartMatches (part : List Char) : Nat → List Char → List Char
  | 0, cs => cs
  | fuel + 1, cs =>
      if part.isPrefixOf cs then trimStartMatches part fuel (cs.drop part.length) else cs

/-- **The text's length is enough: no copy is left in front.** -/
theorem isPrefixOf_trimStartMatches {part : List Char} (hpart : part ≠ []) :
    ∀ (fuel : Nat) (cs : List Char), cs.length ≤ fuel →
      part.isPrefixOf (trimStartMatches part fuel cs) = false
  | 0, cs, h => by
      have : cs = [] := List.length_eq_zero_iff.mp (Nat.le_zero.mp h)
      subst this
      cases part with
      | nil => exact absurd rfl hpart
      | cons c part => rfl
  | fuel + 1, cs, h => by
      unfold trimStartMatches
      by_cases hstart : part.isPrefixOf cs = true
      · rw [if_pos hstart]
        have hpos : 0 < part.length := List.length_pos_iff.mpr hpart
        exact isPrefixOf_trimStartMatches hpart fuel _ (by rw [List.length_drop]; omega)
      · rw [if_neg hstart]
        exact Bool.eq_false_iff.mpr hstart

/-- The text without its trailing copies of a part. -/
def trimEndMatches (part cs : List Char) : List Char :=
  (trimStartMatches part.reverse cs.length cs.reverse).reverse

/-- Two dashes stand next to each other. -/
def hasDoubleDash : List Char → Bool
  | '-' :: '-' :: _ => true
  | _ :: rest => hasDoubleDash rest
  | [] => false

/-- Every two dashes in a row, read from the left, made one. -/
def halveDashes : List Char → List Char
  | '-' :: '-' :: rest => '-' :: halveDashes rest
  | c :: rest => c :: halveDashes rest
  | [] => []

/-- The replacement is repeated while two dashes are left. -/
def squeezeDashes : Nat → List Char → List Char
  | 0, cs => cs
  | fuel + 1, cs => if hasDoubleDash cs then squeezeDashes fuel (halveDashes cs) else cs

theorem length_halveDashes_le : ∀ cs : List Char, (halveDashes cs).length ≤ cs.length := by
  intro cs
  fun_induction halveDashes cs with
  | case1 rest ih => simp only [List.length_cons]; omega
  | case2 c rest _ ih => simp only [List.length_cons]; omega
  | case3 => exact Nat.le_refl _

theorem length_halveDashes_lt : ∀ cs : List Char, hasDoubleDash cs = true →
    (halveDashes cs).length < cs.length := by
  intro cs
  fun_induction halveDashes cs with
  | case1 rest ih =>
      intro _
      have := length_halveDashes_le rest
      simp only [List.length_cons]
      omega
  | case2 c rest hnot ih =>
      intro h
      have hrest : hasDoubleDash rest = true := by
        rw [hasDoubleDash] at h
        · exact h
        · exact hnot
      have := ih hrest
      simp only [List.length_cons]
      omega
  | case3 =>
      intro h
      cases h

/-- **The loop ends within the text's length, with single dashes only.** -/
theorem hasDoubleDash_squeezeDashes : ∀ (fuel : Nat) (cs : List Char), cs.length ≤ fuel →
    hasDoubleDash (squeezeDashes fuel cs) = false
  | 0, cs, h => by
      have : cs = [] := List.length_eq_zero_iff.mp (Nat.le_zero.mp h)
      subst this
      rfl
  | fuel + 1, cs, h => by
      unfold squeezeDashes
      by_cases hdouble : hasDoubleDash cs = true
      · rw [if_pos hdouble]
        have := length_halveDashes_lt cs hdouble
        exact hasDoubleDash_squeezeDashes fuel _ (by omega)
      · rw [if_neg hdouble]
        exact Bool.eq_false_iff.mpr hdouble

def trimDashes (cs : List Char) : List Char :=
  (cs.dropWhile (· == '-')).rdropWhile (· == '-')

def slugFromFn (name : String) : String :=
  let strip := fun part cs => trimStartMatches part cs.length cs
  let trimmed := strip "create_".toList (strip "make_".toList (strip "build_".toList name.toList))
  let trimmed := trimEndMatches "_workflow".toList (trimEndMatches "_graph".toList trimmed)
  let base := if trimmed.isEmpty then name.toList else trimmed
  let slug := base.map fun c => if c.isAlphanum then c.toLower else '-'
  String.ofList (trimDashes (squeezeDashes slug.length slug))

/-- The parts of a path, the last one first. -/
def rsplitSlash (rel : String) : List String :=
  ((rel.toList.splitOn '/').map String.ofList).reverse

/-- The slug of a graph builder: of its function, else of its file, else of its directory. -/
def slugFor (fnName rel : String) : String :=
  let s := slugFromFn fnName
  if s ≠ "" ∧ s ∉ ["build", "make", "create", "graph"] then s
  else
    let parts := rsplitSlash rel
    let stem := String.ofList (trimEndMatches ".py".toList ((parts.headD rel).toList))
    if stem ≠ "" ∧ stem ≠ "graph" ∧ stem ≠ "workflow" then slugFromFn stem
    else ((parts[1]?.map slugFromFn).filter (· ≠ "")).getD "graph"

/-- Camel case to kebab case, letter by letter. -/
def camelToKebab (name : String) : String :=
  String.ofList <| (name.toList.zipIdx).flatMap fun ⟨c, i⟩ =>
    if c.isUpper then (if 0 < i then ['-', c.toLower] else [c.toLower]) else [c]

/-! ## What the scanners find -/

/-- A graph builder with the topology read from it, or a durable workflow class. -/
inductive Found where
  | builder (fnName rel : String) (nodes : List String) (edges : List DetectedEdge)
      (entry : Option String)
  | workflowClass (name rel : String)
  deriving DecidableEq, Repr

def Found.workflow : Found → DetectedWorkflow
  | .builder fnName rel nodes edges entry =>
      { slug := slugFor fnName rel, engine := "langgraph", nodes, edges, entry,
        signals := [], origin := rel ++ ":" ++ fnName }
  | .workflowClass name rel =>
      { slug := camelToKebab name, engine := "temporal", nodes := [], edges := [],
        entry := none, signals := [], origin := rel ++ ":" ++ name }

/-- Signals found anywhere go to the durable workflows that have none. -/
def propagateSignals (signals : List String) (workflows : List DetectedWorkflow) :
    List DetectedWorkflow :=
  workflows.map fun wf =>
    if wf.engine = "temporal" ∧ wf.signals = [] then { wf with signals } else wf

/-- The slug with the number of its use. -/
def suffixed (slug : String) (n : Nat) : String := slug ++ "-" ++ String.ofList (decimal n)

/-- The slug counter, and the workflows renamed in order: from the second use on, a slug
carries the number of its use. -/
def disambiguate (seen : String → Nat) : List DetectedWorkflow → List DetectedWorkflow
  | [] => []
  | wf :: rest =>
      let n := seen wf.slug + 1
      (if 1 < n then { wf with slug := suffixed wf.slug n } else wf) ::
        disambiguate (Function.update seen wf.slug n) rest

/-- The workflows of a project, from what the scanners found in it. -/
def detectWorkflows (signals : List String) (found : List Found) : List DetectedWorkflow :=
  disambiguate (fun _ => 0) (propagateSignals signals (found.map Found.workflow))

/-! ## Manifests -/

def orgAndRepo (agentId : String) : String × String :=
  let rest := trimStartMatches "agent://".toList agentId.toList.length agentId.toList
  match rest.splitOn '/' with
  | org :: first :: more => (String.ofList org, "/".intercalate ((first :: more).map String.ofList))
  | parts => (String.ofList (parts.headD []), "new")

def kebab (name : String) : String :=
  String.ofList (name.toList.map fun c => if c = '_' then '-' else c)

def yamlQuote (s : String) : String :=
  "'" ++ String.ofList (s.toList.flatMap fun c => if c = '\'' then ['\'', '\''] else [c]) ++ "'"

/-- The steps of a durable workflow: its body, and one wait after another. -/
def emitWaits : String → List String → String
  | _, [] => ""
  | prev, sig :: rest =>
      "  - id: await_" ++ sig ++ "\n    type: wait\n    depends_on: [" ++ prev
        ++ "]\n    wait_for:\n      signals: [" ++ sig ++ "]\n"
        ++ emitWaits ("await_" ++ sig) rest

/-- The step of one node, after the nodes its edges come from. -/
def emitNode (wf : DetectedWorkflow) (agentId org : String) (multiAgent : Bool)
    (node : String) : String :=
  let deps := wf.edges.filter fun e => e.target == node && e.source != "START"
  let names := (deps.map (·.source)).dedup.insertionSort (· ≤ ·)
  "  - id: " ++ node ++ "\n    type: agent\n"
    ++ (if multiAgent then
          "    agent: " ++ yamlQuote ("agent://" ++ org ++ "/" ++ kebab node) ++ "\n"
        else
          "    agent: " ++ yamlQuote agentId ++ "\n    skill: " ++ yamlQuote node ++ "\n")
    ++ (if deps.isEmpty then ""
        else
          "    depends_on: [" ++ ", ".intercalate names ++ "]\n"
            ++ match deps.findSome? (·.router) with
               | some router =>
                   "    when: " ++ yamlQuote (router ++ " -> " ++ node) ++ "\n"
               | none => "")

def emitSignals (signals : List String) : String :=
  if signals.isEmpty then ""
  else "signals:\n" ++ String.join (signals.map fun sig => "  - name: " ++ sig ++ "\n")

def emitWorkflowYaml (wf : DetectedWorkflow) (agentId : String) (multiAgent : Bool) : String :=
  let org := (orgAndRepo agentId).1
  let name := String.ofList (wf.slug.toList.map fun c => if c = '-' then ' ' else c)
  "# Generated by `agm` from " ++ wf.origin ++ " — review, then refine with `agm enrich`.\n"
    ++ "spec_version: '0.2'\nworkflow:\n"
    ++ "  id: " ++ yamlQuote ("workflow://" ++ org ++ "/" ++ wf.slug) ++ "\n"
    ++ "  name: " ++ yamlQuote name ++ "\n"
    ++ "  domain: 'general'\n  criticality: 'low'\nengine:\n"
    ++ "  kind: " ++ yamlQuote wf.engine ++ "\nsteps:\n"
    ++ (if wf.nodes.isEmpty then
          -- the body of a durable workflow is one placeholder step
          "  - id: run\n    type: agent\n    agent: " ++ yamlQuote agentId
            ++ "\n    description: "
            ++ yamlQuote "Durable workflow body (static detection cannot expand it; see origin)"
            ++ "\n" ++ emitWaits "run" wf.signals
        else String.join (wf.nodes.map (emitNode wf agentId org multiAgent)))
    ++ emitSignals wf.signals

/-- The hand-offs of a system that do not start at the sentinel. -/
def emitSystemEdge (e : DetectedEdge) : String :=
  if e.source = "START" then ""
  else
    "    - from: " ++ e.source ++ "\n      to: " ++ e.target ++ "\n"
      ++ match e.router with
         | some router => "      when: " ++ yamlQuote (router ++ " -> " ++ e.target) ++ "\n"
         | none => ""

def emitSystemYaml (sys : DetectedSystem) (agentId : String)
    (workflows : List (String × String)) : String :=
  let (org, repo) := orgAndRepo agentId
  "# Generated by `agm` — review, then refine with `agm enrich`.\n"
    ++ "spec_version: '0.2'\nsystem:\n"
    ++ "  id: " ++ yamlQuote ("system://" ++ org ++ "/" ++ repo) ++ "\n"
    ++ "  name: " ++ yamlQuote repo ++ "\n"
    ++ "  domain: 'general'\n  criticality: 'low'\nagents:\n"
    ++ String.join (sys.roles.map fun role =>
        "  - role: " ++ role ++ "\n    id: "
          ++ yamlQuote ("agent://" ++ org ++ "/" ++ kebab role) ++ "\n")
    ++ "orchestration:\n  style: graph\n  engine:\n    kind: " ++ yamlQuote sys.engine ++ "\n"
    ++ (match sys.entrypoint with
        | some entry => "  entrypoint: " ++ entry ++ "\n"
        | none => "")
    ++ (if sys.edges.isEmpty then ""
        else "  edges:\n" ++ String.join (sys.edges.map emitSystemEdge))
    ++ emitSignals sys.signals
    ++ (if workflows.isEmpty then ""
        else "workflows:\n" ++ String.join (workflows.map fun (slug, path) =>
          "  - id: " ++ yamlQuote ("workflow://" ++ org ++ "/" ++ slug)
            ++ "\n    path: " ++ path ++ "\n"))

/-! ## The bundle directory -/

/-- The files of a bundle by their path in it, and the paths that cannot be written. -/
structure BundleDir where
  files : String → Option String
  refused : String → Bool

def BundleDir.write (dir : BundleDir) (path text : String) : Option BundleDir :=
  if dir.refused path then none
  else some { dir with files := Function.update dir.files path (some text) }

def workflowPath (slug : String) : String := "workflows/" ++ slug ++ ".yaml"

/-- The directory, the paths written and the index of workflows, while writing. -/
structure Written where
  dir : BundleDir
  written : List String
  index : List (String × String)

/-- A manifest is written unless the file is there and is to be kept. -/
def Written.emit (w : Written) (force : Bool) (path text : String) : Option Written :=
  if force || (w.dir.files path).isNone then
    (w.dir.write path text).map fun dir => { w with dir, written := w.written ++ [path] }
  else some w

def writeWorkflow (agentId : String) (multi force : Bool) (w : Written)
    (wf : DetectedWorkflow) : Option Written :=
  let rel := workflowPath wf.slug
  { w with index := w.index ++ [(wf.slug, rel)] }.emit force rel
    (emitWorkflowYaml wf agentId multi)

/-- One manifest for each workflow, then the system's with the index of them. -/
def writeOrchestration (dir : BundleDir) (workflows : List DetectedWorkflow)
    (system : Option DetectedSystem) (agentId : String) (force : Bool) : Option Written := do
  let w ← workflows.foldlM (writeWorkflow agentId system.isSome force) ⟨dir, [], []⟩
  match system with
  | none => some w
  | some sys => w.emit force "system.yaml" (emitSystemYaml sys agentId w.index)

end Agenomic.Detect
