import Agenomic.Os.Block
import Agenomic.Os.Contract
import Agenomic.Detect.Model
import Agenomic.Lib.Split
import Agenomic.Lib.Text

/-!
# Port proposals

From a detected genome a command with its arguments is derived and an `execution:` block
is rendered by hand, with scalars quoted by `yamlScalar`. Permissions and environment start
closed, and what could not be inferred is listed as a gap.

The block is meant to be read back as an execution contract. A derived argument without a
character that asks for quotation marks is written plain, also where the format takes it
for something else than a text (`404`, `null`, `-`), and a quoted one escapes no line break.
-/

namespace Agenomic.Os

open Lib Detect
open Diff (Yaml)

inductive GapSeverity where
  | required
  | recommended
  | informational
  deriving DecidableEq, Repr

/-- A field that could not be filled with confidence. -/
structure Gap where
  field : String
  reason : String
  severity : GapSeverity
  deriving DecidableEq, Repr

structure PortProposal where
  sourcePath : String
  proposedExecutionYaml : String
  runtimeKind : Option RuntimeKind
  framework : Option String
  gaps : List Gap

/-! ## Deriving a command -/

def mapRuntimeKind (detected : DetectedGenome) : Option RuntimeKind × List Gap :=
  match detected.runtimeKind with
  | some "python" => (some .python, [])
  | some "node" => (some .node, [])
  | some "rust" => (some .rust, [])
  | some other =>
      (none,
        [⟨"execution.runtime.kind",
          s!"detected runtime `{other}` has no direct mapping in spec 0.2 (supported: python, "
            ++ "node, rust, binary); choose `binary` and provide an explicit command, or wait "
            ++ "for spec extension", .required⟩])
  | none =>
      (none,
        [⟨"execution.runtime.kind", "no runtime detected from manifests; declare it manually",
          .required⟩])

/-- A `pkg.module:func` is run as a module, named by its package; a script by its path. -/
def pythonEntrypoint (ep : String) : String × List String :=
  match splitFirst ':' ep.toList with
  | some (module, _) => ("python", ["-m", String.ofList (module.takeWhile (· ≠ '.'))])
  | none =>
      if (stripSuffix? ".py" ep).isSome then ("python", [ep]) else ("python", ["-m", ep])

def deriveEntrypoint (detected : DetectedGenome) (runtime : Option RuntimeKind) :
    String × List String × List Gap :=
  match runtime, detected.entrypoint with
  | some .python, some ep =>
      let (command, args) := pythonEntrypoint ep
      (command, args, [])
  | some .node, some ep => ("node", [ep], [])
  | some .rust, _ => ("cargo", ["run", "--release"], [])
  | some .python, none =>
      ("python", ["-m", "<package>"],
        [⟨"execution.entrypoint.args",
          "no Python entrypoint detected; defaulting to `python -m <package>` placeholder",
          .required⟩])
  | some .node, none =>
      ("node", ["<script>.js"],
        [⟨"execution.entrypoint.args", "no Node entrypoint detected; declare it manually",
          .required⟩])
  | _, _ =>
      ("<command>", [],
        [⟨"execution.entrypoint", "no entrypoint could be inferred", .required⟩])

/-! ## Rendering -/

/-- The characters that ask for no quotation marks. -/
def isPlainChar (c : Char) : Bool :=
  c.isAlphanum || c = '_' || c = '.' || c = '/' || c = '-'

def needsQuotes (s : String) : Bool := s = "" || s.toList.any fun c => !isPlainChar c

/-- Every occurrence of a character is replaced. -/
def replaceChar (c : Char) (new : List Char) (cs : List Char) : List Char :=
  cs.flatMap fun d => if d = c then new else [d]

def yamlScalar (s : String) : String :=
  if needsQuotes s then
    let escaped := replaceChar '"' ['\\', '"'] (replaceChar '\\' ['\\', '\\'] s.toList)
    "\"" ++ String.ofList escaped ++ "\""
  else s

def renderExecutionYaml (runtime : Option RuntimeKind) (command : String)
    (args : List String) : String :=
  writeLines
    (["execution:",
      "  entrypoint:",
      "    kind: command",
      "    command: " ++ yamlScalar command]
    ++ (if args.isEmpty then ["    args: []"]
      else "    args:" :: args.map fun a => "      - " ++ yamlScalar a)
    ++ ["  runtime:",
      match runtime with
      | some k => "    kind: " ++ k.label
      | none => "    kind: binary  # REVIEW: no runtime inferred",
      "  working_directory: \".\"",
      "  env:",
      "    required: []",
      "    optional: []",
      "  permissions:",
      "    filesystem:",
      "      read: []",
      "      write: []",
      "    network:",
      "      allow: []"])

/-- The proposal for a detected genome. -/
def propose (path : String) (detected : DetectedGenome) : PortProposal :=
  let (runtimeKind, runtimeGap) := mapRuntimeKind detected
  let (command, args, entrypointGaps) := deriveEntrypoint detected runtimeKind
  { sourcePath := path
    proposedExecutionYaml := renderExecutionYaml runtimeKind command args
    runtimeKind := runtimeKind
    framework := detected.framework
    gaps := runtimeGap ++ entrypointGaps
      ++ [⟨"execution.env.required",
          "no environment variables inferred; review the source for secrets/configuration that "
            ++ "must be declared", .recommended⟩,
        ⟨"execution.permissions",
          "permissions default to closed; declare filesystem/network access explicitly before "
            ++ "running under agenomic-os", .required⟩]
      ++ (match detected.framework with
        | some framework =>
            [⟨"execution.entrypoint",
              s!"detected framework `{framework}` is not natively supported at MVP; the proposed "
                ++ "entrypoint runs the underlying interpreter only", .informational⟩]
        | none => []) }

/-! ## The proposal as a document -/

/-- How `yamlScalar` writes a text. -/
def scalarToken (s : String) : Token :=
  if needsQuotes s then .quoted (String.ofList (Quoted.escape s.toList)) else .plain s

/-- Two replacements one after the other escape both characters: what the first one puts in
is not replaced by the second. -/
theorem replaceChar_replaceChar (cs : List Char) :
    replaceChar '"' ['\\', '"'] (replaceChar '\\' ['\\', '\\'] cs) = Quoted.escape cs := by
  induction cs with
  | nil => rfl
  | cons c rest ih =>
      unfold replaceChar at ih ⊢
      rw [List.flatMap_cons, List.flatMap_append, ih, Quoted.escape_cons, Quoted.escapeChar]
      by_cases hslash : c = '\\'
      · subst hslash
        rfl
      · rw [if_neg hslash]
        by_cases hquote : c = '"'
        · subst hquote
          rfl
        · rw [if_neg fun h => h.elim hslash hquote, List.flatMap_singleton, if_neg hquote]

theorem yamlScalar_eq (s : String) : yamlScalar s = (scalarToken s).text := by
  unfold yamlScalar scalarToken
  by_cases h : needsQuotes s = true
  · rw [if_pos h, if_pos h, replaceChar_replaceChar]
    rfl
  · rw [if_neg h, if_neg h]
    rfl

/-- A block that is empty. -/
def emptyList : Block := .items []

def runtimeKindBlock : Option RuntimeKind → Block
  | some k => .scalar (.plain k.label) ""
  | none => .scalar (.plain "binary") "  # REVIEW: no runtime inferred"

def executionDocument (runtime : Option RuntimeKind) (command : String) (args : List String) :
    Document :=
  [("execution", .entries
    [("entrypoint", .entries
      [("kind", .scalar (.plain "command") ""),
       ("command", .scalar (scalarToken command) ""),
       ("args", .items (args.map scalarToken))]),
     ("runtime", .entries [("kind", runtimeKindBlock runtime)]),
     ("working_directory", .scalar (.quoted ".") ""),
     ("env", .entries [("required", emptyList), ("optional", emptyList)]),
     ("permissions", .entries
      [("filesystem", .entries [("read", emptyList), ("write", emptyList)]),
       ("network", .entries [("allow", emptyList)])])])]

theorem renderExecutionYaml_eq (runtime : Option RuntimeKind) (command : String)
    (args : List String) :
    renderExecutionYaml runtime command args = (executionDocument runtime command args).text := by
  unfold renderExecutionYaml Document.text
  congr 1
  cases args with
  | nil =>
      cases runtime <;> simp [executionDocument, runtimeKindBlock, entryLines, Block.lines,
        emptyList, indent, Token.text, yamlScalar_eq, String.append_assoc]
  | cons a rest =>
      cases runtime <;> simp [executionDocument, runtimeKindBlock, entryLines, Block.lines,
        emptyList, indent, Token.text, yamlScalar_eq, String.append_assoc]

end Agenomic.Os
