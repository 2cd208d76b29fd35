import Agenomic.Os.Policy
import Agenomic.Diff.Yaml

/-!
# Reading an execution contract

The `execution:` block of a genome is taken out of the document and decoded field by
field. A field with a default may be missing; what is there must have its type, and a
text is nothing but a string of the document.

How a text is read as a document, and what is said of a block that is refused, is given.
-/

namespace Agenomic.Os

open Diff (Yaml)

def EntrypointKind.ofLabel (label : String) : Option EntrypointKind :=
  [.command, .docker, .wasm].find? fun kind => kind.label = label

def RuntimeKind.ofLabel (label : String) : Option RuntimeKind :=
  [.python, .node, .rust, .binary].find? fun kind => kind.label = label

/-! ## Decoding values -/

/-- The fields of a record, which is written as a mapping. -/
def decodeFields (v : Yaml) : Option (String → Option Yaml) :=
  match v.untag with
  | .mapping _ => some v.get
  | _ => none

/-- A name of an enumeration, written as a text or as a tag with nothing under it. -/
def decodeVariant {α : Type} (ofLabel : String → Option α) : Yaml → Option α
  | .string label => ofLabel label
  | .tagged tag content =>
      match content.untag with
      | .null => ofLabel ((Lib.stripPrefix? "!" tag).getD tag)
      | _ => none
  | _ => none

def decodeStrings (v : Yaml) : Option (List String) :=
  v.asSequence.bind fun items => items.mapM Yaml.asStr

/-- A field that has a default. -/
def decodeDefault {α : Type} (decode : Yaml → Option α) (default : α) : Option Yaml → Option α
  | none => some default
  | some v => decode v

/-- A field that is optional; null counts as missing. -/
def decodeOptional {α : Type} (decode : Yaml → Option α) : Option Yaml → Option (Option α)
  | none => some none
  | some .null => some none
  | some v => (decode v).map some

def decodeEntrypoint (v : Yaml) : Option Entrypoint := do
  let field ← decodeFields v
  let kind ← (field "kind").bind (decodeVariant EntrypointKind.ofLabel)
  let command ← decodeOptional Yaml.asStr (field "command")
  let args ← decodeDefault decodeStrings [] (field "args")
  let image ← decodeOptional Yaml.asStr (field "image")
  let module ← decodeOptional Yaml.asStr (field "module")
  return { kind, command, args, image, module }

def decodeRuntimeSpec (v : Yaml) : Option RuntimeSpec := do
  let field ← decodeFields v
  let kind ← (field "kind").bind (decodeVariant RuntimeKind.ofLabel)
  let version ← decodeOptional Yaml.asStr (field "version")
  return { kind, version }

def decodeEnvSpec (v : Yaml) : Option EnvSpec := do
  let field ← decodeFields v
  let required ← decodeDefault decodeStrings [] (field "required")
  let optional ← decodeDefault decodeStrings [] (field "optional")
  return { required, optional }

def decodeFilesystem (v : Yaml) : Option FilesystemPermissions := do
  let field ← decodeFields v
  let read ← decodeDefault decodeStrings [] (field "read")
  let write ← decodeDefault decodeStrings [] (field "write")
  return { read, write }

def decodeNetwork (v : Yaml) : Option NetworkPermissions := do
  let field ← decodeFields v
  let allow ← decodeDefault decodeStrings [] (field "allow")
  return { allow }

/-- No access to anything. -/
def PermissionsSpec.closed : PermissionsSpec := ⟨⟨[], []⟩, ⟨[]⟩⟩

def decodePermissions (v : Yaml) : Option PermissionsSpec := do
  let field ← decodeFields v
  let filesystem ← decodeDefault decodeFilesystem ⟨[], []⟩ (field "filesystem")
  let network ← decodeDefault decodeNetwork ⟨[]⟩ (field "network")
  return { filesystem, network }

def defaultWorkingDirectory : String := "."

def decodeContract (v : Yaml) : Option ExecutionContract := do
  let field ← decodeFields v
  let entrypoint ← (field "entrypoint").bind decodeEntrypoint
  let runtime ← (field "runtime").bind decodeRuntimeSpec
  let workingDirectory ←
    decodeDefault Yaml.asStr defaultWorkingDirectory (field "working_directory")
  let env ← decodeDefault decodeEnvSpec ⟨[], []⟩ (field "env")
  let permissions ← decodeDefault decodePermissions .closed (field "permissions")
  return { entrypoint, runtime, workingDirectory, env, permissions }

namespace ExecutionContract

/-- What an entrypoint of each kind needs. -/
def validate (contract : ExecutionContract) : OsResult Unit :=
  match contract.entrypoint.kind with
  | .command =>
      if contract.entrypoint.command.getD "" = "" then
        .error (.contractInvalid "entrypoint.command must be set when kind = command")
      else .ok ()
  | .docker =>
      if contract.entrypoint.image.getD "" = "" then
        .error (.contractInvalid "entrypoint.image must be set when kind = docker")
      else .ok ()
  | .wasm =>
      if contract.entrypoint.module.getD "" = "" then
        .error (.contractInvalid "entrypoint.module must be set when kind = wasm")
      else .ok ()

/-- Parse a genome document and take out the execution block. -/
def fromGenomeYaml (fromStr : String → Except String Yaml) (refusal : Yaml → String)
    (yaml : String) : OsResult ExecutionContract := do
  let v ← (fromStr yaml).mapError fun e =>
    OsError.contractInvalid s!"genome.yaml is not valid YAML: {e}"
  match v.get "execution" with
  | none => .error .contractMissing
  | some exec =>
      match decodeContract exec with
      | none => .error (.contractInvalid s!"execution block: {refusal exec}")
      | some contract => do
          contract.validate
          .ok contract

end ExecutionContract

end Agenomic.Os
