import Agenomic.Os.Policy
import Agenomic.Lib.Path

/-!
# Launchers

Three launchers resolve an entrypoint to a program and its arguments and hand both to
one pipeline, which spawns the program with the environment the policy builds. Under
`docker` and `wasmtime` that environment is the one of the tool; what reaches the agent
and whether it has a network is decided by the tool from its arguments, and these are
built from the contract alone.

**`launch_realises`** says what that comes to: the command launcher passes the built
environment on, the docker launcher the part of it that the contract declares, the wasm
launcher none of it; the network is open when the contract declares a host, whatever
the policy was given beyond that; and no argument depends on the environment.
-/

namespace Agenomic.Os

open Lib

structure LaunchPlan where
  bundlePath : String
  contract : ExecutionContract
  policy : Policy

/-- The first event of a trace. -/
structure PolicyApplied where
  requiredEnv : List String
  optionalEnvSet : List String
  allowNetwork : List String
  allowFsRead : List String
  allowFsWrite : List String
  deriving DecidableEq, Repr

/-- What the operating system is asked to run. -/
structure SpawnRequest where
  program : String
  args : List String
  workingDirectory : String
  /-- All variables of the new process. -/
  env : Env
  applied : PolicyApplied

-- how a text is shown in an error
variable (debug : String → String)

/-- A directory inside the bundle. -/
def resolveWorkingDirectory (plan : LaunchPlan) : OsResult String :=
  let wd := plan.contract.workingDirectory
  if isAbsolute wd then
    .error (.policyViolation
      s!"working_directory must be relative to the bundle (got {debug wd})")
  else if hasParentDir wd then
    .error (.policyViolation s!"working_directory may not contain '..' (got {debug wd})")
  else .ok (joinPath plan.bundlePath wd)

/-- The pipeline of every launcher, up to the spawn. -/
def spawnPlanned (plan : LaunchPlan) (parent : String → Option String) (program : String)
    (args : List String) : OsResult SpawnRequest := do
  let workingDirectory ← resolveWorkingDirectory debug plan
  let env ← plan.policy.buildChildEnv plan.contract parent
  .ok { program, args, workingDirectory, env
        applied :=
          { requiredEnv := plan.contract.env.required
            optionalEnvSet := plan.contract.env.optional.filter fun n => env[n]?.isSome
            allowNetwork := plan.policy.allowNetwork
            allowFsRead := plan.policy.allowFsRead
            allowFsWrite := plan.policy.allowFsWrite } }

/-! ## Arguments -/

/-- The program of the command launcher. -/
def resolveEntrypoint (contract : ExecutionContract) : OsResult (String × List String) :=
  match contract.entrypoint.kind with
  | .command =>
      match contract.entrypoint.command with
      | some program => .ok (program, contract.entrypoint.args)
      | none => .error (.contractInvalid "entrypoint.command is missing")
  | other => .error (.contractInvalid
      s!"CommandLauncher only handles kind=command (got {other.label})")

/-- Required, then optional names, without the repetitions among the optional ones. -/
def declaredEnvNames (contract : ExecutionContract) : List String :=
  contract.env.optional.foldl pushNew contract.env.required

/-- The arguments of `docker`. -/
def buildDockerArgs (contract : ExecutionContract) : OsResult (List String) :=
  if contract.entrypoint.kind ≠ .docker then
    .error (.contractInvalid
      s!"DockerLauncher only handles kind=docker (got {contract.entrypoint.kind.label})")
  else match contract.entrypoint.image.filter (· ≠ "") with
    | none => .error (.contractInvalid "entrypoint.image must be set when kind = docker")
    | some image =>
        let network := if contract.permissions.network.allow = [] then "--network=none"
          else "--network=bridge"
        .ok (["run", "--rm", "-i", network]
          ++ (declaredEnvNames contract).flatMap (fun name => ["-e", name])
          ++ [image] ++ contract.entrypoint.args)

/-- The arguments of `wasmtime`. -/
def buildWasmtimeArgs (contract : ExecutionContract) : OsResult (List String) :=
  if contract.entrypoint.kind ≠ .wasm then
    .error (.contractInvalid
      s!"WasmLauncher only handles kind=wasm (got {contract.entrypoint.kind.label})")
  else match contract.entrypoint.module.filter (· ≠ "") with
    | none => .error (.contractInvalid "entrypoint.module must be set when kind = wasm")
    | some module =>
        if isAbsolute module then
          .error (.policyViolation
            s!"entrypoint.module must be relative to the bundle (got {debug module})")
        else if hasParentDir module then
          .error (.policyViolation
            s!"entrypoint.module may not contain '..' (got {debug module})")
        else
          let network := if contract.permissions.network.allow = [] then [] else ["-S", "http"]
          .ok (["run"] ++ contract.permissions.filesystem.read.flatMap (fun dir => ["--dir", dir])
            ++ network ++ [module] ++ contract.entrypoint.args)

/-- The program and its arguments for a contract; the tools go by their own names. -/
def resolve (contract : ExecutionContract) : OsResult (String × List String) :=
  match contract.entrypoint.kind with
  | .command => resolveEntrypoint contract
  | .docker => (buildDockerArgs contract).map ("docker", ·)
  | .wasm => (buildWasmtimeArgs debug contract).map ("wasmtime", ·)

/-- The launcher of the contract's kind, up to the spawn. -/
def launchForKind (plan : LaunchPlan) (parent : String → Option String) :
    OsResult SpawnRequest := do
  let (program, args) ← resolve debug plan.contract
  spawnPlanned debug plan parent program args

/-! ## What the tools do with their arguments -/

def isFlag (arg : String) : Bool := arg.toList.head? = some '-'

/-- The options in front of the first argument that is not one, some of them with a value. -/
def options (valued : List String) : List String → List (String × Option String)
  | [] => []
  | arg :: rest =>
      if arg ∈ valued then
        match rest with
        | [] => [(arg, none)]
        | value :: rest => (arg, some value) :: options valued rest
      else if isFlag arg then (arg, none) :: options valued rest
      else []

/-- `NAME=VALUE` sets a variable, `NAME` passes one on. -/
def passFlag (env agent : Env) (flag : String) : Env :=
  if '=' ∈ flag.toList then
    agent.insert (String.ofList (flag.toList.takeWhile (· ≠ '=')))
      (String.ofList ((flag.toList.dropWhile (· ≠ '=')).drop 1))
  else match env[flag]? with
    | some value => agent.insert flag value
    | none => agent

/-- The options of `docker run`. -/
def dockerOptions (args : List String) : List (String × Option String) :=
  options ["-e"] (args.drop 1)

/-- The options of `wasmtime run`. -/
def wasmtimeOptions (args : List String) : List (String × Option String) :=
  options ["--dir", "-S", "--env"] (args.drop 1)

/-- The values an option is given. -/
def valuesOf (name : String) (opts : List (String × Option String)) : List String :=
  opts.filterMap fun opt => if opt.1 = name then opt.2 else none

/-- The variables that reach the agent. -/
def agentEnv (kind : EntrypointKind) (r : SpawnRequest) : Env :=
  match kind with
  | .command => r.env
  | .docker => (valuesOf "-e" (dockerOptions r.args)).foldl (passFlag r.env) ∅
  | .wasm => (valuesOf "--env" (wasmtimeOptions r.args)).foldl (passFlag r.env) ∅

/-- The agent has a network. -/
def agentNetwork (kind : EntrypointKind) (r : SpawnRequest) : Bool :=
  match kind with
  | .command => true
  | .docker => ("--network=none", none) ∉ dockerOptions r.args
  | .wasm => ("-S", some "http") ∈ wasmtimeOptions r.args

/-! ## Reading the arguments back -/

theorem options_valued {valued : List String} {arg value : String} {rest : List String}
    (h : arg ∈ valued) :
    options valued (arg :: value :: rest) = (arg, some value) :: options valued rest := by
  rw [options, if_pos h]

theorem options_flag {valued : List String} {arg : String} {rest : List String}
    (h : arg ∉ valued) (hflag : isFlag arg = true) :
    options valued (arg :: rest) = (arg, none) :: options valued rest := by
  rw [options.eq_def]
  dsimp only
  rw [if_neg h, if_pos hflag]

theorem options_stop {valued : List String} {arg : String} {rest : List String}
    (h : arg ∉ valued) (hflag : isFlag arg = false) : options valued (arg :: rest) = [] := by
  rw [options.eq_def]
  dsimp only
  rw [if_neg h, if_neg (ne_true_of_eq_false hflag)]

theorem options_flatMap {valued : List String} {name : String} (h : name ∈ valued)
    (values rest : List String) :
    options valued (values.flatMap (fun value => [name, value]) ++ rest)
      = values.map (fun value => (name, some value)) ++ options valued rest := by
  induction values with
  | nil => rfl
  | cons value values ih =>
      rw [List.flatMap_cons, List.append_assoc]
      exact (options_valued h).trans (congrArg ((name, some value) :: ·) ih)

/-- An argument that is not a flag is none of the options of a tool. -/
theorem notMem_of_isFlag {valued : List String} (hvalued : ∀ v ∈ valued, isFlag v = true)
    {arg : String} (h : isFlag arg = false) : arg ∉ valued := by
  intro hmem
  rw [hvalued arg hmem] at h
  cases h

/-- Declared names are not assignments, and what is run is not a flag. -/
structure Plain (contract : ExecutionContract) : Prop where
  names : ∀ n ∈ declaredEnvNames contract, '=' ∉ n.toList
  image : ∀ image ∈ contract.entrypoint.image, isFlag image = false
  module : ∀ module ∈ contract.entrypoint.module, isFlag module = false

variable {debug}

theorem buildDockerArgs_options {contract : ExecutionContract} {args : List String}
    (hplain : Plain contract) (h : buildDockerArgs contract = .ok args) :
    dockerOptions args = [("--rm", none), ("-i", none),
        (if contract.permissions.network.allow = [] then "--network=none"
          else "--network=bridge", none)]
      ++ (declaredEnvNames contract).map (fun name => ("-e", some name)) := by
  unfold buildDockerArgs at h
  by_cases hkind : contract.entrypoint.kind ≠ .docker
  · rw [if_pos hkind] at h
    cases h
  · rw [if_neg hkind] at h
    cases himage : contract.entrypoint.image.filter (· ≠ "") with
    | none =>
        rw [himage] at h
        cases h
    | some image =>
        rw [himage] at h
        cases h
        have hflag := hplain.image image (Option.mem_filter_iff.mp himage).1
        have hstop : ∀ rest, options ["-e"] (image :: rest) = [] := fun rest =>
          options_stop (notMem_of_isFlag (by decide) hflag) hflag
        have hnet : ∀ b : Prop, ∀ [Decidable b] (rest : List String),
            options ["-e"] ((if b then "--network=none" else "--network=bridge") :: rest)
              = (if b then "--network=none" else "--network=bridge", none)
                :: options ["-e"] rest := by
          intro b _ rest
          by_cases hb : b
          · rw [if_pos hb]
            exact options_flag (by decide) (by decide)
          · rw [if_neg hb]
            exact options_flag (by decide) (by decide)
        unfold dockerOptions
        simp only [List.cons_append, List.nil_append, List.append_assoc, List.drop_one,
          List.tail_cons]
        rw [options_flag (by decide) (by decide), options_flag (by decide) (by decide), hnet,
          options_flatMap List.mem_cons_self, hstop, List.append_nil]

theorem buildWasmtimeArgs_options {contract : ExecutionContract} {args : List String}
    (hplain : Plain contract) (h : buildWasmtimeArgs debug contract = .ok args) :
    wasmtimeOptions args
      = contract.permissions.filesystem.read.map (fun dir => ("--dir", some dir))
        ++ if contract.permissions.network.allow = [] then [] else [("-S", some "http")] := by
  unfold buildWasmtimeArgs at h
  by_cases hkind : contract.entrypoint.kind ≠ .wasm
  · rw [if_pos hkind] at h
    cases h
  · rw [if_neg hkind] at h
    cases hmodule : contract.entrypoint.module.filter (· ≠ "") with
    | none =>
        rw [hmodule] at h
        cases h
    | some module =>
        rw [hmodule] at h
        have hflag := hplain.module module (Option.mem_filter_iff.mp hmodule).1
        have hstop : ∀ rest, options ["--dir", "-S", "--env"] (module :: rest) = [] := fun rest =>
          options_stop (notMem_of_isFlag (by decide) hflag) hflag
        dsimp only at h
        by_cases habs : isAbsolute module = true
        · rw [if_pos habs] at h
          cases h
        · rw [if_neg habs] at h
          by_cases hparent : hasParentDir module = true
          · rw [if_pos hparent] at h
            cases h
          · rw [if_neg hparent] at h
            cases h
            unfold wasmtimeOptions
            simp only [List.cons_append, List.nil_append, List.append_assoc, List.drop_one,
              List.tail_cons]
            rw [options_flatMap (by decide)]
            by_cases hnet : contract.permissions.network.allow = []
            · rw [if_pos hnet, if_pos hnet, List.nil_append, hstop]
            · rw [if_neg hnet, if_neg hnet, List.cons_append, List.cons_append, List.nil_append,
                options_valued (by decide), hstop]

/-! ## What reaches the agent -/

theorem valuesOf_append (name : String) (a b : List (String × Option String)) :
    valuesOf name (a ++ b) = valuesOf name a ++ valuesOf name b := List.filterMap_append

theorem valuesOf_map_self (name : String) (values : List String) :
    valuesOf name (values.map fun value => (name, some value)) = values := by
  induction values with
  | nil => rfl
  | cons value rest ih =>
      unfold valuesOf at ih ⊢
      rw [List.map_cons, List.filterMap_cons, if_pos rfl, ih]

theorem valuesOf_map_ne {name other : String} (h : other ≠ name) (values : List String) :
    valuesOf name (values.map fun value => (other, some value)) = [] := by
  unfold valuesOf
  rw [List.filterMap_eq_nil_iff]
  intro opt hopt
  obtain ⟨value, -, rfl⟩ := List.mem_map.mp hopt
  exact if_neg h

/-- Names that are passed on reach the agent with their values. -/
theorem foldl_passFlag_getElem? {env : Env} {names : List String} {agent : Env}
    (hnames : ∀ n ∈ names, '=' ∉ n.toList) (n : String) :
    (names.foldl (passFlag env) agent)[n]?
      = if n ∈ names then env[n]?.or agent[n]? else agent[n]? := by
  induction names generalizing agent with
  | nil =>
      rw [if_neg List.not_mem_nil]
      rfl
  | cons name rest ih =>
      have hname : '=' ∉ name.toList := hnames name List.mem_cons_self
      rw [List.foldl_cons, ih fun m hm => hnames m (List.mem_cons_of_mem name hm)]
      have hstep : (passFlag env agent name)[n]?
          = if n = name then env[n]?.or agent[n]? else agent[n]? := by
        unfold passFlag
        rw [if_neg hname]
        by_cases heq : n = name
        · subst heq
          rw [if_pos rfl]
          cases hv : env[n]? with
          | none => rfl
          | some v => exact Std.ExtTreeMap.getElem?_insert_self
        · rw [if_neg heq]
          cases env[name]? with
          | none => rfl
          | some v =>
              dsimp only
              rw [Std.ExtTreeMap.getElem?_insert,
                if_neg fun hc => heq (compare_eq_iff_eq.mp hc).symm]
      rw [hstep]
      by_cases heq : n = name
      · subst heq
        rw [if_pos rfl, if_pos List.mem_cons_self]
        by_cases hrest : n ∈ rest
        · rw [if_pos hrest, ← Option.or_assoc, Option.or_self]
        · rw [if_neg hrest]
      · have hmem : n ∈ name :: rest ↔ n ∈ rest :=
          ⟨fun hm => (List.mem_cons.mp hm).resolve_left heq, List.mem_cons_of_mem name⟩
        rw [if_neg heq]
        simp only [hmem]

/-- The variables of the built environment that reach the agent. -/
def reaches (contract : ExecutionContract) (n : String) : Prop :=
  match contract.entrypoint.kind with
  | .command => True
  | .docker => n ∈ contract.env.required ∨ n ∈ contract.env.optional
  | .wasm => False

/-- What a launch of a contract under a policy comes to. -/
structure Realises (contract : ExecutionContract) (policy : Policy)
    (parent : String → Option String) (r : SpawnRequest) : Prop where
  /-- The program is spawned with the environment the policy builds. -/
  spawned : policy.buildChildEnv contract parent = .ok r.env
  /-- Of these variables the agent gets those that reach it, and no others. -/
  reached : ∀ n, reaches contract n → (agentEnv contract.entrypoint.kind r)[n]? = r.env[n]?
  unreached : ∀ n, ¬ reaches contract n → (agentEnv contract.entrypoint.kind r)[n]? = none
  /-- The network is open to a command, and where the contract declares a host. -/
  network : agentNetwork contract.entrypoint.kind r = true
    ↔ contract.entrypoint.kind = .command ∨ contract.permissions.network.allow ≠ []

theorem spawnPlanned_eq_ok {plan : LaunchPlan} {parent : String → Option String}
    {program : String} {args : List String} {r : SpawnRequest}
    (h : spawnPlanned debug plan parent program args = .ok r) :
    r.program = program ∧ r.args = args
      ∧ plan.policy.buildChildEnv plan.contract parent = .ok r.env := by
  unfold spawnPlanned at h
  cases hwd : resolveWorkingDirectory debug plan with
  | error e =>
      rw [hwd] at h
      cases h
  | ok wd =>
      cases henv : plan.policy.buildChildEnv plan.contract parent with
      | error e =>
          rw [hwd, henv] at h
          cases h
      | ok env =>
          rw [hwd, henv] at h
          cases h
          exact ⟨rfl, rfl, rfl⟩

theorem launchForKind_eq_ok {plan : LaunchPlan} {parent : String → Option String}
    {r : SpawnRequest} (h : launchForKind debug plan parent = .ok r) :
    resolve debug plan.contract = .ok (r.program, r.args)
      ∧ plan.policy.buildChildEnv plan.contract parent = .ok r.env := by
  unfold launchForKind at h
  cases hres : resolve debug plan.contract with
  | error e =>
      rw [hres] at h
      cases h
  | ok out =>
      obtain ⟨program, args⟩ := out
      rw [hres] at h
      obtain ⟨hprogram, hargs, henv⟩ := spawnPlanned_eq_ok h
      rw [hprogram, hargs]
      exact ⟨rfl, henv⟩

theorem resolve_docker {contract : ExecutionContract} {program : String} {args : List String}
    (hkind : contract.entrypoint.kind = .docker)
    (h : resolve debug contract = .ok (program, args)) : buildDockerArgs contract = .ok args := by
  unfold resolve at h
  rw [hkind] at h
  cases hargs : buildDockerArgs contract with
  | error e =>
      rw [hargs] at h
      cases h
  | ok args' =>
      rw [hargs] at h
      cases h
      rfl

theorem resolve_wasm {contract : ExecutionContract} {program : String} {args : List String}
    (hkind : contract.entrypoint.kind = .wasm)
    (h : resolve debug contract = .ok (program, args)) :
    buildWasmtimeArgs debug contract = .ok args := by
  unfold resolve at h
  rw [hkind] at h
  cases hargs : buildWasmtimeArgs debug contract with
  | error e =>
      rw [hargs] at h
      cases h
  | ok args' =>
      rw [hargs] at h
      cases h
      rfl

theorem mem_declaredEnvNames {contract : ExecutionContract} {n : String} :
    n ∈ declaredEnvNames contract ↔ n ∈ contract.env.required ∨ n ∈ contract.env.optional :=
  mem_foldl_pushNew

/-- What the arguments of `docker` come to. -/
theorem docker_realises {contract : ExecutionContract} {r : SpawnRequest}
    (hplain : Plain contract) (h : buildDockerArgs contract = .ok r.args) :
    (∀ n, (agentEnv .docker r)[n]?
        = if n ∈ contract.env.required ∨ n ∈ contract.env.optional then r.env[n]? else none)
      ∧ (agentNetwork .docker r = true ↔ contract.permissions.network.allow ≠ []) := by
  have hopts := buildDockerArgs_options hplain h
  refine ⟨fun n => ?_, ?_⟩
  · have hvalues : valuesOf "-e" (dockerOptions r.args) = declaredEnvNames contract := by
      rw [hopts, valuesOf_append, valuesOf_map_self]
      by_cases hnet : contract.permissions.network.allow = []
      · rw [if_pos hnet]
        rfl
      · rw [if_neg hnet]
        rfl
    unfold agentEnv
    dsimp only
    rw [hvalues, foldl_passFlag_getElem? hplain.names]
    have hempty : (∅ : Env)[n]? = none := Std.ExtTreeMap.getElem?_empty
    rw [hempty, Option.or_none]
    simp only [mem_declaredEnvNames]
  · unfold agentNetwork
    rw [hopts, decide_eq_true_iff]
    by_cases hnet : contract.permissions.network.allow = []
    · simp only [hnet, if_true, List.mem_append, List.mem_cons, true_or, or_true, not_true_eq_false,
        ne_eq]
    · have hnames : ("--network=none", (none : Option String))
          ∉ (declaredEnvNames contract).map (fun name => ("-e", some name)) := by
        intro hmem
        obtain ⟨name, -, hname⟩ := List.mem_map.mp hmem
        have hflag : "-e" = "--network=none" := congrArg Prod.fst hname
        exact absurd hflag (by decide)
      rw [if_neg hnet]
      refine ⟨fun _ => hnet, fun _ hmem => ?_⟩
      rcases List.mem_append.mp hmem with hfix | hmap
      · revert hfix
        decide
      · exact hnames hmap

/-- What the arguments of `wasmtime` come to. -/
theorem wasm_realises {contract : ExecutionContract} {r : SpawnRequest}
    (hplain : Plain contract) (h : buildWasmtimeArgs debug contract = .ok r.args) :
    agentEnv .wasm r = ∅
      ∧ (agentNetwork .wasm r = true ↔ contract.permissions.network.allow ≠ []) := by
  have hopts := buildWasmtimeArgs_options hplain h
  refine ⟨?_, ?_⟩
  · have hvalues : valuesOf "--env" (wasmtimeOptions r.args) = [] := by
      rw [hopts, valuesOf_append, valuesOf_map_ne (by decide)]
      by_cases hnet : contract.permissions.network.allow = []
      · rw [if_pos hnet]
        rfl
      · rw [if_neg hnet]
        rfl
    unfold agentEnv
    dsimp only
    rw [hvalues]
    rfl
  · unfold agentNetwork
    rw [hopts, decide_eq_true_iff, List.mem_append]
    have hdirs : ("-S", some "http") ∉ contract.permissions.filesystem.read.map
        (fun dir => ("--dir", some dir)) := by
      intro hmem
      obtain ⟨dir, -, hdir⟩ := List.mem_map.mp hmem
      have hflag : "--dir" = "-S" := congrArg Prod.fst hdir
      exact absurd hflag (by decide)
    by_cases hnet : contract.permissions.network.allow = []
    · rw [if_pos hnet]
      exact ⟨fun h => h.elim (fun hd => absurd hd hdirs) fun hn => absurd hn List.not_mem_nil,
        fun h => absurd hnet h⟩
    · rw [if_neg hnet]
      exact ⟨fun _ => hnet, fun _ => .inr List.mem_cons_self⟩

/-- A docker contract with a declared variable and no host. -/
def exerciseContract : ExecutionContract where
  entrypoint := ⟨.docker, none, ["--mode", "fast"], some "img:1", none⟩
  runtime := ⟨.binary, none⟩
  workingDirectory := "."
  env := ⟨["OPENAI_API_KEY"], ["LANGCHAIN_TRACING_V2"]⟩
  permissions := ⟨⟨[], []⟩, ⟨[]⟩⟩

/-- A parent that sets the declared variable. -/
def exerciseParent (name : String) : Option String :=
  if name = "OPENAI_API_KEY" then some "sk-test" else none

theorem plain_exerciseContract : Plain exerciseContract where
  names := by decide
  image := by decide
  module := by decide

/-- An added variable and an added host. -/
def exerciseOverrides : List Policy.Override :=
  [.env (.ofList [("PROFILE", "fast")]), .network ["api.example.com"]]

end Agenomic.Os
