import Agenomic.Os.Launcher
import Agenomic.Os.PortReads

/-!
# What a ported package is launched as

From the detected genome over the rendered block and the contract it is read as to the
process: a proposal whose argument comes back is launched with the command and the arguments
that were derived, in the bundle's directory, and the process inherits nothing of the
environment of its parent (**`launch_ported`**).
-/

namespace Agenomic.Os

open Lib Detect
open Diff (Yaml)

variable (debug : String → String)

/-- A contract that declares no variable gives the process those of the policy. -/
theorem getElem?_env_of_undeclared {p : Policy} {contract : ExecutionContract}
    {parent : String → Option String} {env : Env} (hnone : contract.env = ⟨[], []⟩)
    (h : p.buildChildEnv contract parent = .ok env) (n : String) :
    env[n]? = p.additionalEnv[n]? := by
  rw [Policy.buildChildEnv_getElem? h, hnone, if_neg]
  exact fun hdeclared => hdeclared.elim List.not_mem_nil List.not_mem_nil

/-- The launch of a derived contract. -/
theorem launch_derivedContract (runtime : Option RuntimeKind) (command : String)
    (args : List String) (bundlePath : String) (p : Policy) (parent : String → Option String) :
    ∃ s, launchForKind debug ⟨bundlePath, derivedContract runtime command args, p⟩ parent = .ok s
      ∧ s.program = command ∧ s.args = args ∧ s.workingDirectory = joinPath bundlePath "."
      ∧ ∀ n : String, s.env[n]? = p.additionalEnv[n]? := by
  have hwd : resolveWorkingDirectory debug ⟨bundlePath, derivedContract runtime command args, p⟩
      = .ok (joinPath bundlePath ".") := by
    unfold resolveWorkingDirectory
    exact (if_neg (by decide : ¬ isAbsolute "." = true)).trans
      (if_neg (by decide : ¬ hasParentDir "." = true))
  obtain ⟨env, henv⟩ : ∃ env,
      p.buildChildEnv (derivedContract runtime command args) parent = .ok env := ⟨_, rfl⟩
  obtain ⟨s, hs, hdir⟩ : ∃ s, spawnPlanned debug
      ⟨bundlePath, derivedContract runtime command args, p⟩ parent command args = .ok s
        ∧ s.workingDirectory = joinPath bundlePath "." := by
    unfold spawnPlanned
    rw [hwd, henv]
    exact ⟨_, rfl, rfl⟩
  obtain ⟨hprogram, hargs, hown⟩ := spawnPlanned_eq_ok hs
  exact ⟨s, hs, hprogram, hargs, hdir, getElem?_env_of_undeclared rfl hown⟩

/-- **A ported package is launched as it was derived**, whatever the policy is given beyond the
contract: the part of the entrypoint that is passed on has to come back from its item. -/
theorem launch_ported {r : Reader} (hr : r.Lawful) {fromStr : String → Except String Yaml}
    {refusal : Yaml → String} {path : String} {detected : DetectedGenome}
    (hread : Reads r fromStr (executionDocument (mapRuntimeKind detected).1
      (derivedEntrypoint detected).1 (derivedEntrypoint detected).2.1))
    (hback : ∀ t, passedOn detected = some t → ComesBack r t) :
    ∃ contract, ExecutionContract.fromGenomeYaml fromStr refusal
        (propose path detected).proposedExecutionYaml = .ok contract
      ∧ ∀ bundlePath ops parent, ∃ s,
        launchForKind debug ⟨bundlePath, contract, .derive contract ops⟩ parent = .ok s
          ∧ s.program = (derivedEntrypoint detected).1
          ∧ s.args = (derivedEntrypoint detected).2.1
          ∧ s.workingDirectory = joinPath bundlePath "."
          ∧ ∀ n : String, s.env[n]? = (Policy.derive contract ops).additionalEnv[n]? := by
  obtain ⟨hcommand, hne, hargs⟩ := derivedEntrypoint_cases hr detected
  obtain ⟨vs, hvs, hss⟩ := (mapM_asStr_iff hr _).mpr (hargs.mpr hback)
  refine ⟨_, (fromGenomeYaml_render hr hcommand hne hread _).mpr ⟨vs, _, hvs, hss, rfl⟩, ?_⟩
  exact fun bundlePath ops parent => launch_derivedContract debug _ _ _ bundlePath _ parent

/-- A package with a script, under a policy that adds a variable. -/
theorem launch_ported_agentPackage : ∃ contract,
    ExecutionContract.fromGenomeYaml (coreParser agentPackage) (fun _ => "")
        (propose "." agentPackage).proposedExecutionYaml = .ok contract
      ∧ ∀ bundlePath ops parent, ∃ s,
        launchForKind id ⟨bundlePath, contract, .derive contract ops⟩ parent = .ok s
          ∧ s.program = "python" ∧ s.args = ["-m", "codedrift"]
          ∧ s.workingDirectory = joinPath bundlePath "."
          ∧ ∀ n : String, s.env[n]? = (Policy.derive contract ops).additionalEnv[n]? := by
  refine launch_ported id lawful_coreReader (reads_readsOnly _ _) fun t ht => ?_
  have hword : t = "codedrift" := (Option.some_inj.mp ht).symm
  rw [hword]
  exact comesBack_word lawful_coreReader (by decide) (by decide)

end Agenomic.Os
