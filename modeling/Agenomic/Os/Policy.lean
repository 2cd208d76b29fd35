import Agenomic.Core

/-!
# Execution contracts and the policies derived from them

A contract declares an entrypoint, environment variables and permissions. A policy
starts as a copy of the permissions; hosts and variables can be added to it, and
`buildChildEnv` makes the environment of the child from both.

**`buildChildEnv_getElem?`**: that environment holds a declared variable with its
override or else its value in the parent, and every override that is not declared.
-/

namespace Agenomic.Os

open Lib

inductive OsError where
  | contractMissing
  | contractInvalid (reason : String)
  | policyViolation (reason : String)
  | missingRequiredEnv (name : String)
  deriving DecidableEq, Repr

abbrev OsResult (α : Type) := Except OsError α

/-- The variables of an environment. -/
abbrev Env := Std.ExtTreeMap String String

inductive EntrypointKind where
  | command
  | docker
  | wasm
  deriving DecidableEq, Repr

def EntrypointKind.label : EntrypointKind → String
  | .command => "command"
  | .docker => "docker"
  | .wasm => "wasm"

structure Entrypoint where
  kind : EntrypointKind
  command : Option String
  args : List String
  image : Option String
  module : Option String
  deriving DecidableEq, Repr

inductive RuntimeKind where
  | python
  | node
  | rust
  | binary
  deriving DecidableEq, Repr

def RuntimeKind.label : RuntimeKind → String
  | .python => "python"
  | .node => "node"
  | .rust => "rust"
  | .binary => "binary"

structure RuntimeSpec where
  kind : RuntimeKind
  version : Option String
  deriving DecidableEq, Repr

structure EnvSpec where
  required : List String
  optional : List String
  deriving DecidableEq, Repr

structure FilesystemPermissions where
  read : List String
  write : List String
  deriving DecidableEq, Repr

structure NetworkPermissions where
  allow : List String
  deriving DecidableEq, Repr

structure PermissionsSpec where
  filesystem : FilesystemPermissions
  network : NetworkPermissions
  deriving DecidableEq, Repr

structure ExecutionContract where
  entrypoint : Entrypoint
  runtime : RuntimeSpec
  workingDirectory : String
  env : EnvSpec
  permissions : PermissionsSpec
  deriving DecidableEq, Repr

/-- What the launcher is given to enforce or record. -/
structure Policy where
  allowNetwork : List String
  allowFsRead : List String
  allowFsWrite : List String
  /-- Merged into the child; wins over the parent. -/
  additionalEnv : Env

/-- Append a text that is not there yet. -/
def pushNew (out : List String) (s : String) : List String :=
  if s ∈ out then out else out ++ [s]

theorem mem_foldl_pushNew {x : String} {xs out : List String} :
    x ∈ xs.foldl pushNew out ↔ x ∈ out ∨ x ∈ xs := by
  induction xs generalizing out with
  | nil => exact ⟨.inl, fun h => h.elim id fun hx => absurd hx List.not_mem_nil⟩
  | cons y ys ih =>
      rw [List.foldl_cons, ih, List.mem_cons]
      unfold pushNew
      by_cases hy : y ∈ out
      · rw [if_pos hy]
        constructor
        · rintro (h | h)
          · exact .inl h
          · exact .inr (.inr h)
        · rintro (h | rfl | h)
          · exact .inl h
          · exact .inl hy
          · exact .inr h
      · rw [if_neg hy, List.mem_append, List.mem_singleton, or_assoc]

namespace Policy

/-- The policy that mirrors a contract. -/
def fromContract (contract : ExecutionContract) : Policy where
  allowNetwork := contract.permissions.network.allow
  allowFsRead := contract.permissions.filesystem.read
  allowFsWrite := contract.permissions.filesystem.write
  additionalEnv := ∅

/-- Append hosts that are not there yet. -/
def withNetworkOverrides (p : Policy) (hosts : List String) : Policy :=
  { p with allowNetwork := hosts.foldl pushNew p.allowNetwork }

/-- Merge variables; later ones win. -/
def withEnvOverrides (p : Policy) (env : Env) : Policy :=
  { p with additionalEnv := p.additionalEnv.insertMany env.toList }

/-- The override of a variable, or its value in the parent. -/
def lookup (p : Policy) (parent : String → Option String) (name : String) : Option String :=
  p.additionalEnv[name]?.or (parent name)

/-- The variables that must be set. -/
def insertRequired (p : Policy) (parent : String → Option String) :
    List String → Env → OsResult Env
  | [], env => .ok env
  | name :: rest, env =>
      match p.lookup parent name with
      | none => .error (.missingRequiredEnv name)
      | some value => p.insertRequired parent rest (env.insert name value)

/-- The variables that are passed on when they are set. -/
def insertOptional (p : Policy) (parent : String → Option String) : List String → Env → Env
  | [], env => env
  | name :: rest, env =>
      match p.lookup parent name with
      | none => p.insertOptional parent rest env
      | some value => p.insertOptional parent rest (env.insert name value)

/-- Overrides that are not there yet. -/
def insertOverrides : List (String × String) → Env → Env
  | [], env => env
  | (name, value) :: rest, env => insertOverrides rest (env.insertIfNew name value)

/-- The environment of the child. -/
def buildChildEnv (p : Policy) (contract : ExecutionContract) (parent : String → Option String) :
    OsResult Env := do
  let env ← p.insertRequired parent contract.env.required ∅
  .ok (insertOverrides p.additionalEnv.toList
    (p.insertOptional parent contract.env.optional env))

/-! ## What the child finds -/

theorem insertRequired_getElem? {p : Policy} {parent : String → Option String}
    {names : List String} {env env' : Env} (h : p.insertRequired parent names env = .ok env')
    (n : String) : env'[n]? = if n ∈ names then p.lookup parent n else env[n]? := by
  induction names generalizing env with
  | nil =>
      cases h
      rw [if_neg List.not_mem_nil]
  | cons name rest ih =>
      unfold insertRequired at h
      cases hv : p.lookup parent name with
      | none =>
          rw [hv] at h
          cases h
      | some value =>
          rw [hv] at h
          rw [ih h]
          by_cases hrest : n ∈ rest
          · rw [if_pos hrest, if_pos (List.mem_cons_of_mem name hrest)]
          · rw [if_neg hrest, Std.ExtTreeMap.getElem?_insert]
            by_cases heq : n = name
            · subst heq
              rw [if_pos (compare_eq_iff_eq.mpr rfl), if_pos List.mem_cons_self, hv]
            · have hne : ¬ compare name n = .eq := fun hc => heq (compare_eq_iff_eq.mp hc).symm
              rw [if_neg hne, if_neg fun hm => (List.mem_cons.mp hm).elim heq hrest]

theorem insertOptional_getElem? {p : Policy} {parent : String → Option String}
    {names : List String} {env : Env} (n : String) :
    (p.insertOptional parent names env)[n]?
      = if n ∈ names then (p.lookup parent n).or env[n]? else env[n]? := by
  induction names generalizing env with
  | nil => rw [if_neg List.not_mem_nil]; rfl
  | cons name rest ih =>
      unfold insertOptional
      by_cases heq : n = name
      · subst heq
        cases hv : p.lookup parent n with
        | none =>
            dsimp only
            rw [ih, hv, if_pos List.mem_cons_self]
            by_cases hrest : n ∈ rest
            · rw [if_pos hrest]
            · rw [if_neg hrest]
              rfl
        | some value =>
            dsimp only
            rw [ih, hv, if_pos List.mem_cons_self, Std.ExtTreeMap.getElem?_insert,
              if_pos (compare_eq_iff_eq.mpr rfl)]
            by_cases hrest : n ∈ rest
            · rw [if_pos hrest]
              rfl
            · rw [if_neg hrest]
              rfl
      · have hmem : n ∈ name :: rest ↔ n ∈ rest :=
          ⟨fun hm => (List.mem_cons.mp hm).resolve_left heq, List.mem_cons_of_mem name⟩
        have hne : ¬ compare name n = .eq := fun hc => heq (compare_eq_iff_eq.mp hc).symm
        cases hv : p.lookup parent name with
        | none =>
            dsimp only
            rw [ih]
            simp only [hmem]
        | some value =>
            dsimp only
            rw [ih, Std.ExtTreeMap.getElem?_insert, if_neg hne]
            simp only [hmem]

theorem insertOverrides_getElem? {kvs : List (String × String)} {env : Env} (n : String) :
    (insertOverrides kvs env)[n]? = env[n]?.or (kvs.lookup n) := by
  induction kvs generalizing env with
  | nil => rw [List.lookup_nil, Option.or_none]; rfl
  | cons kv rest ih =>
      obtain ⟨name, value⟩ := kv
      unfold insertOverrides
      rw [ih, Std.ExtTreeMap.getElem?_insertIfNew, List.lookup_cons]
      by_cases heq : n = name
      · subst heq
        rw [beq_self_eq_true, compare_eq_iff_eq.mpr rfl]
        by_cases hin : n ∈ env
        · obtain ⟨v, hv⟩ := Option.isSome_iff_exists.mp
            (Std.ExtTreeMap.isSome_getElem?_iff_mem.mpr hin)
          rw [if_neg (fun h => h.2 hin), hv]
          rfl
        · rw [if_pos ⟨rfl, hin⟩, Std.ExtTreeMap.getElem?_eq_none hin]
          rfl
      · have hne : ¬ compare name n = .eq := fun hc => heq (compare_eq_iff_eq.mp hc).symm
        rw [if_neg (fun h => hne h.1), beq_false_of_ne heq]

/-- A map is looked up by searching its pairs. -/
theorem lookup_toList (env : Env) (n : String) : env.toList.lookup n = env[n]? := by
  cases hl : env.toList.lookup n with
  | none =>
      cases h : env[n]? with
      | none => rfl
      | some v =>
          have hmem := Std.ExtTreeMap.mem_toList_iff_getElem?_eq_some.mpr h
          have hne := List.lookup_eq_none_iff.mp hl _ hmem
          exact absurd rfl (bne_iff_ne.mp hne)
  | some v =>
      obtain ⟨before, after, hlist, -⟩ := List.lookup_eq_some_iff.mp hl
      have hmem : (n, v) ∈ env.toList := by
        rw [hlist]
        exact List.mem_append_right _ List.mem_cons_self
      exact (Std.ExtTreeMap.mem_toList_iff_getElem?_eq_some.mp hmem).symm

/-- **What the child finds in its environment.** -/
theorem buildChildEnv_getElem? {p : Policy} {contract : ExecutionContract}
    {parent : String → Option String} {env : Env}
    (h : p.buildChildEnv contract parent = .ok env) (n : String) :
    env[n]? = if n ∈ contract.env.required ∨ n ∈ contract.env.optional
      then p.lookup parent n else p.additionalEnv[n]? := by
  unfold buildChildEnv at h
  cases hreq : p.insertRequired parent contract.env.required ∅ with
  | error e =>
      rw [hreq] at h
      cases h
  | ok mid =>
      rw [hreq] at h
      cases h
      rw [insertOverrides_getElem?, insertOptional_getElem?, insertRequired_getElem? hreq,
        lookup_toList]
      have hempty : (∅ : Env)[n]? = none := Std.ExtTreeMap.getElem?_empty
      have hown : (p.lookup parent n).or p.additionalEnv[n]? = p.lookup parent n := by
        unfold lookup
        cases p.additionalEnv[n]? with
        | none => rw [Option.none_or, Option.or_none]
        | some v => rfl
      by_cases hopt : n ∈ contract.env.optional
      · rw [if_pos hopt, if_pos (Or.inr hopt)]
        by_cases hreq' : n ∈ contract.env.required
        · rw [if_pos hreq', Option.or_self, hown]
        · rw [if_neg hreq', hempty, Option.or_none, hown]
      · rw [if_neg hopt]
        by_cases hreq' : n ∈ contract.env.required
        · rw [if_pos hreq', if_pos (Or.inl hreq'), hown]
        · rw [if_neg hreq', if_neg (fun h => h.elim hreq' hopt), hempty, Option.none_or]

/-! ## Derived policies -/

/-- What can be added to a policy. -/
inductive Override where
  | network (hosts : List String)
  | env (env : Env)

/-- The hosts that are added. -/
def Override.hosts : Override → List String
  | .network hosts => hosts
  | .env _ => []

def override (p : Policy) : Override → Policy
  | .network hosts => p.withNetworkOverrides hosts
  | .env env => p.withEnvOverrides env

/-- The policy of a contract with what is added to it, in order. -/
def derive (contract : ExecutionContract) (ops : List Override) : Policy :=
  ops.foldl override (fromContract contract)

theorem override_allowNetwork (p : Policy) (op : Override) :
    (p.override op).allowNetwork = op.hosts.foldl pushNew p.allowNetwork := by
  cases op with
  | network hosts => rfl
  | env env => rfl

/-- **A derived policy allows the hosts of the contract and those that were added.** -/
theorem mem_derive_allowNetwork {contract : ExecutionContract} {ops : List Override}
    {host : String} : host ∈ (derive contract ops).allowNetwork
      ↔ host ∈ contract.permissions.network.allow ∨ ∃ op ∈ ops, host ∈ op.hosts := by
  have hfold : ∀ (ops : List Override) (p : Policy),
      host ∈ (ops.foldl override p).allowNetwork
        ↔ host ∈ p.allowNetwork ∨ ∃ op ∈ ops, host ∈ op.hosts := by
    intro ops
    induction ops with
    | nil =>
        intro p
        exact ⟨.inl, fun h => h.elim id fun ⟨_, hop, _⟩ => absurd hop List.not_mem_nil⟩
    | cons op rest ih =>
        intro p
        rw [List.foldl_cons, ih, override_allowNetwork, mem_foldl_pushNew, or_assoc,
          List.exists_mem_cons_iff]
  exact hfold ops (fromContract contract)

end Policy

end Agenomic.Os
