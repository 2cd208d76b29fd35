import Agenomic.Diff.Yaml
import Agenomic.Fs.Walk
import Agenomic.Hash.Manifest

/-!
# Bundle archives

An archive packs the files that are walked in a directory, in their order. Reading it
back turns backslashes in the paths into slashes; extracting it writes what was read
below a destination. A summary is read off `genome.yaml` and `behavior.contract.yaml`:
those of the archive, or those at the root of the directory, whether or not they are
walked. Hashing, YAML, globs, tar and zstd are those of libraries.
-/

namespace Agenomic.Bundle

open Lib
open Agenomic.Fs (Entries Path Node)
open Agenomic.Hash (BundleManifest)
open Agenomic.Diff (Yaml)

/-- An entry of a tar archive. -/
structure TarEntry where
  regular : Bool
  path : Bytes
  content : Bytes
  deriving DecidableEq

/-- What is taken from other libraries. -/
structure External where
  glob : Fs.Glob
  blake3 : Bytes → Bytes
  parse : Bytes → Option Yaml
  /-- Pack regular files. -/
  tar : List (String × Bytes) → CliResult Bytes
  untar : Bytes → CliResult (List TarEntry)
  /-- Compress at a level. -/
  zstd : Int → Bytes → CliResult Bytes
  unzstd : Bytes → CliResult Bytes

variable (x : External)

/-! ## Building -/

structure BundleBuildResult where
  logicalBundleHash : String
  archiveHash : String
  manifest : BundleManifest
  sizeBytes : Nat

/-- The files of a directory that go into its bundle. -/
def walkedPairs (entries : Entries) : CliResult (List (String × Bytes)) := do
  let found ← Fs.walkBundle x.glob {} entries
  .ok (found.map fun e => (e.relativePath, e.content))

/-- The bytes of the archive of a directory, and what is returned with it. -/
def buildBundle (entries : Entries) (compressionLevel : Int) :
    CliResult (Bytes × BundleBuildResult) := do
  let pairs ← walkedPairs x entries
  let manifest ← Hash.computeManifestFromPairs x.blake3 pairs
  let tarBytes ← x.tar pairs
  let compressed ← x.zstd (max 1 (min 22 compressionLevel)) tarBytes
  .ok (compressed,
    { logicalBundleHash := manifest.rootHash
      archiveHash := String.ofList (hexEncode (x.blake3 compressed))
      manifest
      sizeBytes := compressed.length })

/-! ## Reading and extracting -/

def backslash : Char := Char.ofNat 92

def replaceBackslashes (s : List Char) : String :=
  String.ofList (s.map fun c => if c = backslash then '/' else c)

/-- The regular files of a tar archive, in order. -/
def readEntries : List TarEntry → CliResult (List (String × Bytes))
  | [] => .ok []
  | e :: rest =>
      if e.regular then
        let path := replaceBackslashes (utf8DecodeLossy e.path)
        if hasParentDir path then .error (.pathTraversal path)
        else do
          let more ← readEntries rest
          .ok ((path, e.content) :: more)
      else readEntries rest

def readArchiveToPairs (archive : Bytes) : CliResult (List (String × Bytes)) := do
  let tarBytes ← x.unzstd archive
  let entries ← x.untar tarBytes
  readEntries entries

/-- The names a relative path stands for. -/
def components (rel : String) : Path :=
  ((rel.toList.splitOn '/').filter fun s => s ≠ [] && s ≠ ['.']).map utf8Encode

/-- Make a directory, unless there is one. -/
def createDir (path : Path) (entries : Entries) : CliResult Entries :=
  match Fs.nodeAt entries path with
  | none => .ok (entries ++ [(path, .directory)])
  | some .directory => .ok entries
  | some (.file _) => .error (.io (Fs.shown path) "Not a directory")

def createDirs : List Path → Entries → CliResult Entries
  | [], entries => .ok entries
  | path :: rest, entries => do
      let entries ← createDir path entries
      createDirs rest entries

/-- Make a directory and those above it. -/
def createDirAll (path : Path) (entries : Entries) : CliResult Entries :=
  createDirs path.inits.tail entries

/-- Put a file at a path, over the one that is there. -/
def writeAtomic (path : Path) (content : Bytes) (entries : Entries) : CliResult Entries :=
  match Fs.nodeAt entries path with
  | none => .ok (entries ++ [(path, .file content)])
  | some .directory => .error (.io (Fs.shown path) "Is a directory")
  | some (.file _) =>
      .ok (entries.map fun e => if e.1 = path then (path, .file content) else e)

/-- Write files below a destination. -/
def extractPairs : List (String × Bytes) → Entries → CliResult Entries
  | [], destination => .ok destination
  | (rel, content) :: rest, destination =>
      if hasParentDir rel then .error (.pathTraversal rel)
      -- an absolute path leads out of the destination
      else if isAbsolute rel then extractPairs rest destination
      else do
        let destination ← createDirAll (components rel).dropLast destination
        let destination ← writeAtomic (components rel) content destination
        extractPairs rest destination

def extractBundle (archive : Bytes) (destination : Entries) : CliResult Entries := do
  let pairs ← readArchiveToPairs x archive
  extractPairs pairs destination

/-- The manifest of a directory. -/
def computeManifest (entries : Entries) : CliResult BundleManifest := do
  let found ← Fs.walkBundle x.glob {} entries
  let leaves := found.map fun e => Hash.leafHash x.blake3 e.relativePath e.content
  .ok { manifestVersion := Hash.manifestVersion
        algorithm := Hash.hashAlgorithm
        rootHash := String.ofList (hexEncode (Hash.merkleRoot x.blake3 leaves))
        fileCount := found.length
        totalSize := found.foldl (fun total e => min (total + e.content.length) Hash.u64Max) 0
        entries := found.map fun e =>
          ⟨e.relativePath, e.content.length,
            String.ofList (hexEncode (Hash.leafHash x.blake3 e.relativePath e.content))⟩ }

/-! ## Inspecting -/

structure ToolSummary where
  name : String
  protocol : Option String
  version : Option String
  deriving DecidableEq

/-- What a summary takes from the genome. -/
structure GenomeFacts where
  specVersion : String := "0.1"
  agentId : String := ""
  agentName : String := ""
  model : Option String := none
  modelFingerprint : Option String := none
  tools : List ToolSummary := []
  skillCount : Nat := 0
  deriving DecidableEq

/-- What a summary takes from the contract. -/
structure ContractFacts where
  contractId : Option String := none
  criticalRules : Nat := 0
  deriving DecidableEq

structure BundleSummary extends GenomeFacts, ContractFacts where
  toolCount : Nat
  logicalBundleHash : String
  fileCount : Nat
  totalSizeBytes : Nat
  deriving DecidableEq

/-- The text at an entry of a mapping. -/
def strAt (v : Yaml) (key : String) : Option String := (v.get key).bind Yaml.asStr

/-- The summary of a tool, which needs a name. -/
def toolSummary (t : Yaml) : Option ToolSummary :=
  let name := (strAt t "name").getD ""
  if name = "" then none else some ⟨name, strAt t "protocol", strAt t "version"⟩

/-- Take up what a genome says. -/
def readGenome (v : Yaml) (facts : GenomeFacts) : GenomeFacts where
  specVersion := (strAt v "spec_version").getD facts.specVersion
  agentId := ((v.get "agent").bind (strAt · "id")).getD facts.agentId
  agentName := ((v.get "agent").bind (strAt · "name")).getD facts.agentName
  model :=
    match (v.get "runtime").bind (strAt · "model_provider") with
    | some p =>
        let id := ((v.get "runtime").bind (strAt · "model_id")).getD ""
        some s!"{p}/{id}"
    | none => facts.model
  modelFingerprint :=
    ((v.get "runtime").bind (strAt · "model_fingerprint")).or facts.modelFingerprint
  tools := facts.tools
    ++ (((v.get "tools").bind Yaml.asSequence).getD []).filterMap toolSummary
  skillCount := (((v.get "skills").bind Yaml.asSequence).map List.length).getD facts.skillCount

/-- Take up what a contract says. -/
def readContract (v : Yaml) (facts : ContractFacts) : ContractFacts where
  contractId := ((v.get "contract").bind (strAt · "id")).or facts.contractId
  criticalRules := facts.criticalRules
    + ((((v.get "contract").bind (·.get "rules")).bind Yaml.asSequence).getD []).countP
      fun r => strAt r "severity" = some "critical"

/-- What the genome in a file adds; a file that is not YAML adds nothing. -/
def genomeFile (bytes : Bytes) (facts : GenomeFacts) : GenomeFacts :=
  match x.parse bytes with
  | some v => readGenome v facts
  | none => facts

/-- What the contract in a file adds. -/
def contractFile (bytes : Bytes) (facts : ContractFacts) : ContractFacts :=
  match x.parse bytes with
  | some v => readContract v facts
  | none => facts

/-- Take up a file. -/
def summarizeFile (facts : GenomeFacts × ContractFacts) (pair : String × Bytes) :
    GenomeFacts × ContractFacts :=
  if pair.1 = "genome.yaml" then (genomeFile x pair.2 facts.1, facts.2)
  else if pair.1 = "behavior.contract.yaml" then (facts.1, contractFile x pair.2 facts.2)
  else facts

def summarize (pairs : List (String × Bytes)) (manifest : BundleManifest) : BundleSummary :=
  let facts := pairs.foldl (summarizeFile x) ({}, {})
  { toGenomeFacts := facts.1
    toContractFacts := facts.2
    toolCount := facts.1.tools.length
    logicalBundleHash := manifest.rootHash
    fileCount := manifest.fileCount
    totalSizeBytes := manifest.totalSize }

/-- The files of a directory that a summary may be read off. -/
def yamlFiles : List String :=
  ["genome.yaml", "agent.lock.yaml", "agent.lock", "behavior.contract.yaml"]

/-- These files, where they stand at the root of a directory. -/
def collectYamlPairsFromDir (entries : Entries) : List (String × Bytes) :=
  yamlFiles.filterMap fun name => (Fs.fileAt entries [Fs.name name]).map fun bytes => (name, bytes)

/-- The summary of a directory. -/
def inspectDirectory (entries : Entries) : CliResult BundleSummary := do
  let manifest ← computeManifest x entries
  .ok (summarize x (collectYamlPairsFromDir entries) manifest)

/-- The summary of an archive. -/
def inspectArchive (archive : Bytes) : CliResult BundleSummary := do
  let pairs ← readArchiveToPairs x archive
  let manifest ← Hash.computeManifestFromPairs x.blake3 pairs
  .ok (summarize x pairs manifest)

end Agenomic.Bundle
