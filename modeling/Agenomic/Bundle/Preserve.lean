import Agenomic.Bundle.Extract

/-!
# Archives and the directories they were built from

What an archive preserves of its directory comes down to two things. Reading an archive
rewrites a path exactly when it has a backslash; and a summary of a directory is read
off files that need not have been walked.

**`preserved_iff`**: an archive preserves its bundle exactly when no walked path has a
backslash, and a genome or contract that was not walked says nothing.
-/

namespace Agenomic.Bundle

open Lib
open Agenomic.Fs (Entries Path Node Tree nodeAt)
open Agenomic.Hash (computeManifestFromPairs)

variable {x : External}

/-! ## Reading -/

/-- A stored file. -/
def tarEntry (p : String × Bytes) : TarEntry := ⟨true, utf8Encode p.1.toList, p.2⟩

/-- The libraries give back the files that were packed. -/
structure Lossless (x : External) (pairs : List (String × Bytes)) : Prop where
  tar : ∀ bytes, x.tar pairs = .ok bytes → x.untar bytes = .ok (pairs.map tarEntry)
  zstd : ∀ level bytes compressed, x.zstd level bytes = .ok compressed →
    x.unzstd compressed = .ok bytes

theorem replaceBackslashes_eq_iff (s : String) :
    replaceBackslashes s.toList = s ↔ backslash ∉ s.toList := by
  have hmap : ∀ cs : List Char,
      (cs.map fun c => if c = backslash then '/' else c) = cs ↔ backslash ∉ cs := by
    intro cs
    induction cs with
    | nil => exact ⟨fun _ => List.not_mem_nil, fun _ => rfl⟩
    | cons c cs ih =>
        rw [List.map_cons, List.cons.injEq, List.mem_cons, not_or, ih]
        refine and_congr_left fun _ => ?_
        by_cases hc : c = backslash
        · rw [if_pos hc, hc]
          exact ⟨fun h => absurd h (by decide), fun h => absurd rfl h⟩
        · rw [if_neg hc]
          exact ⟨fun _ h => hc h.symm, fun _ => rfl⟩
  unfold replaceBackslashes
  rw [← hmap, ← String.toList_inj, String.toList_ofList]

/-- Reading gives back the stored files exactly when it rewrites and refuses none. -/
theorem readEntries_eq_ok_iff : ∀ {pairs : List (String × Bytes)},
    (∀ p ∈ pairs, hasParentDir p.1 = false) →
    (readEntries (pairs.map tarEntry) = .ok pairs ↔ ∀ p ∈ pairs, backslash ∉ p.1.toList)
  | [], _ => ⟨fun _ p hp => absurd hp List.not_mem_nil, fun _ => rfl⟩
  | (path, content) :: rest, hparent => by
      have ih := readEntries_eq_ok_iff fun p hp => hparent p (List.mem_cons_of_mem _ hp)
      have hhere : hasParentDir path = false := hparent _ List.mem_cons_self
      rw [List.forall_mem_cons, List.map_cons]
      unfold readEntries tarEntry
      dsimp only
      rw [if_pos rfl, utf8DecodeLossy_utf8Encode, ← replaceBackslashes_eq_iff]
      constructor
      · intro h
        split at h
        · cases h
        · rw [bind_eq_ok] at h
          obtain ⟨more, hmore, h⟩ := h
          obtain ⟨hhead, htail⟩ := List.cons.inj (Except.ok.inj h)
          rw [htail] at hmore
          exact ⟨(Prod.mk.inj hhead).1, ih.mp hmore⟩
      · rintro ⟨heq, hrest⟩
        have hmore : readEntries (rest.map fun p => ⟨true, utf8Encode p.1.toList, p.2⟩)
            = .ok rest := ih.mpr hrest
        rw [heq, hhere, if_neg Bool.false_ne_true, hmore]
        rfl

/-! ## Manifests -/

/-- The manifest of a directory is that of its walked files. -/
theorem computeManifest_eq {entries : Entries} {pairs : List (String × Bytes)}
    (hwalk : walkedPairs x entries = .ok pairs) {m : Hash.BundleManifest}
    (hm : computeManifestFromPairs x.blake3 pairs = .ok m) : computeManifest x entries = .ok m := by
  unfold walkedPairs at hwalk
  rw [bind_eq_ok] at hwalk
  obtain ⟨found, hfound, hpairs⟩ := hwalk
  cases hpairs
  unfold computeManifestFromPairs at hm
  rw [bind_eq_ok] at hm
  obtain ⟨-, -, hm⟩ := hm
  cases hm
  unfold computeManifest
  rw [hfound]
  simp only [bind, Except.bind, Hash.leavesOf, List.map_map, List.length_map, List.foldl_map]
  rfl

/-! ## Summaries -/

/-- The content of the first file of a name. -/
def contentAt (name : String) (pairs : List (String × Bytes)) : Option Bytes :=
  (pairs.find? fun p => p.1 == name).map (·.2)

variable (x) in
/-- What a genome adds, if there is one. -/
def addGenome (genome : Option Bytes) (facts : GenomeFacts) : GenomeFacts :=
  (genome.map fun bytes => genomeFile x bytes facts).getD facts

variable (x) in
/-- What a contract adds, if there is one. -/
def addContract (contract : Option Bytes) (facts : ContractFacts) : ContractFacts :=
  (contract.map fun bytes => contractFile x bytes facts).getD facts

theorem contentAt_eq_none {name : String} {pairs : List (String × Bytes)}
    (h : name ∉ pairs.map Prod.fst) : contentAt name pairs = none := by
  unfold contentAt
  rw [Option.map_eq_none_iff, List.find?_eq_none]
  intro p hp heq
  exact h (List.mem_map.mpr ⟨p, hp, beq_iff_eq.mp heq⟩)

theorem contentAt_of_mem {pairs : List (String × Bytes)} (hnodup : (pairs.map Prod.fst).Nodup)
    {p : String × Bytes} (hp : p ∈ pairs) : contentAt p.1 pairs = some p.2 := by
  unfold contentAt
  rw [(find?_key_iff hnodup).mpr ⟨hp, rfl⟩]
  rfl

theorem contentAt_cons (name : String) (p : String × Bytes) (rest : List (String × Bytes)) :
    contentAt name (p :: rest) = if p.1 = name then some p.2 else contentAt name rest := by
  unfold contentAt
  rw [List.find?_cons]
  by_cases h : p.1 = name
  · rw [if_pos h, beq_iff_eq.mpr h]
    rfl
  · rw [if_neg h, beq_eq_false_iff_ne.mpr h]

/-- **The facts of a summary** are those of the genome and those of the contract. -/
theorem foldl_summarizeFile : ∀ {pairs : List (String × Bytes)}, (pairs.map Prod.fst).Nodup →
    ∀ facts, pairs.foldl (summarizeFile x) facts
      = (addGenome x (contentAt "genome.yaml" pairs) facts.1,
        addContract x (contentAt "behavior.contract.yaml" pairs) facts.2)
  | [], _, _ => rfl
  | p :: rest, hnodup, facts => by
      obtain ⟨hnot, hrest⟩ := List.nodup_cons.mp hnodup
      rw [List.foldl_cons, foldl_summarizeFile hrest, contentAt_cons, contentAt_cons]
      unfold summarizeFile
      by_cases hgenome : p.1 = "genome.yaml"
      · have hcontract : p.1 ≠ "behavior.contract.yaml" := by
          rw [hgenome]
          decide
        have hnone : contentAt "genome.yaml" rest = none := contentAt_eq_none (hgenome ▸ hnot)
        rw [if_pos hgenome, if_pos hgenome, if_neg hcontract, hnone]
        rfl
      · by_cases hcontract : p.1 = "behavior.contract.yaml"
        · have hnone : contentAt "behavior.contract.yaml" rest = none :=
            contentAt_eq_none (hcontract ▸ hnot)
          rw [if_neg hgenome, if_neg hgenome, if_pos hcontract, if_pos hcontract, hnone]
          rfl
        · rw [if_neg hgenome, if_neg hgenome, if_neg hcontract, if_neg hcontract]

theorem summarize_eq_iff {pairs pairs' : List (String × Bytes)} (h : (pairs.map Prod.fst).Nodup)
    (h' : (pairs'.map Prod.fst).Nodup) (m : Hash.BundleManifest) :
    summarize x pairs m = summarize x pairs' m
      ↔ addGenome x (contentAt "genome.yaml" pairs) {}
          = addGenome x (contentAt "genome.yaml" pairs') {}
        ∧ addContract x (contentAt "behavior.contract.yaml" pairs) {}
          = addContract x (contentAt "behavior.contract.yaml" pairs') {} := by
  unfold summarize
  rw [foldl_summarizeFile h, foldl_summarizeFile h']
  dsimp only
  constructor
  · intro heq
    exact ⟨congrArg BundleSummary.toGenomeFacts heq, congrArg BundleSummary.toContractFacts heq⟩
  · rintro ⟨hgenome, hcontract⟩
    rw [hgenome, hcontract]

/-- The files at the root of a directory that were looked for. -/
theorem contentAt_filterMap {name : String} {f : String → Option Bytes} :
    ∀ {names : List String}, name ∈ names →
      contentAt name (names.filterMap fun n => (f n).map fun bytes => (n, bytes)) = f name
  | [], h => absurd h List.not_mem_nil
  | n :: names, h => by
      rw [List.filterMap_cons]
      cases hf : f n with
      | none =>
          by_cases hn : n = name
          · subst hn
            rw [hf]
            refine contentAt_eq_none fun hmem => ?_
            obtain ⟨p, hp, rfl⟩ := List.mem_map.mp hmem
            obtain ⟨n', -, hfound⟩ := List.mem_filterMap.mp hp
            obtain ⟨bytes, hbytes, rfl⟩ := Option.map_eq_some_iff.mp hfound
            rw [show f n' = none from hf] at hbytes
            cases hbytes
          · exact contentAt_filterMap ((List.mem_cons.mp h).resolve_left (Ne.symm hn))
      | some bytes =>
          dsimp only [Option.map_some]
          rw [contentAt_cons]
          by_cases hn : n = name
          · rw [if_pos hn, ← hn, hf]
          · rw [if_neg hn]
            exact contentAt_filterMap ((List.mem_cons.mp h).resolve_left (Ne.symm hn))

theorem map_fst_filterMap {f : String → Option Bytes} : ∀ names : List String,
    (names.filterMap fun n => (f n).map fun bytes => (n, bytes)).map Prod.fst
      = names.filter fun n => (f n).isSome
  | [] => rfl
  | n :: names => by
      have ih := map_fst_filterMap (f := f) names
      rw [List.filterMap_cons, List.filter_cons]
      cases hf : f n with
      | none => exact ih
      | some bytes => exact congrArg (n :: ·) ih

theorem collectYamlPairsFromDir_nodup (entries : Entries) :
    ((collectYamlPairsFromDir entries).map Prod.fst).Nodup := by
  unfold collectYamlPairsFromDir
  rw [map_fst_filterMap]
  exact List.Nodup.filter _ (by decide)

/-- A walked file at the root is the one that is looked for there. -/
theorem IsWalk.contentAt_eq {t : Tree} {ignore : Option (Fs.IgnoreFile x.glob)}
    {pairs : List (String × Bytes)} (h : IsWalk x t ignore pairs)
    (hnodup : (pairs.map Prod.fst).Nodup) {name : String} (hroot : components name = [Fs.name name])
    (hmem : name ∈ pairs.map Prod.fst) :
    contentAt name pairs = Fs.fileAt t.entries [Fs.name name] := by
  obtain ⟨p, hp, rfl⟩ := List.mem_map.mp hmem
  have hat := nodeAt_of_mem t.nodup (h.mem_components hp).mem
  unfold Fs.fileAt
  rw [← hroot, hat, contentAt_of_mem hnodup hp]

/-! ## What is preserved -/

/-- What an archive is to preserve of the directory it was built from. -/
structure Preserved (x : External) (entries : Entries) (pairs : List (String × Bytes))
    (archive : Bytes) (result : BundleBuildResult) : Prop where
  read : readArchiveToPairs x archive = .ok pairs
  manifest : ∃ m, computeManifestFromPairs x.blake3 pairs = .ok m
    ∧ m.rootHash = result.logicalBundleHash
  /-- Below an empty directory. -/
  extracted : ∃ destination m, extractBundle x archive [] = .ok destination
    ∧ computeManifest x destination = .ok m ∧ m.rootHash = result.logicalBundleHash
  inspected : inspectArchive x archive = inspectDirectory x entries

/-- A directory whose archive reads the same. -/
structure Portable (x : External) (entries : Entries) (pairs : List (String × Bytes)) : Prop where
  paths : ∀ p ∈ pairs, backslash ∉ p.1.toList
  /-- A genome that was left out of the bundle says nothing. -/
  genome : "genome.yaml" ∉ pairs.map Prod.fst →
    ∀ bytes, Fs.fileAt entries [Fs.name "genome.yaml"] = some bytes → genomeFile x bytes {} = {}
  contract : "behavior.contract.yaml" ∉ pairs.map Prod.fst →
    ∀ bytes, Fs.fileAt entries [Fs.name "behavior.contract.yaml"] = some bytes →
      contractFile x bytes {} = {}

/-- What a build is made of. -/
theorem buildBundle_eq_ok {entries : Entries} {level : Int} {archive : Bytes}
    {result : BundleBuildResult} (h : buildBundle x entries level = .ok (archive, result)) :
    ∃ pairs m bytes, walkedPairs x entries = .ok pairs
      ∧ computeManifestFromPairs x.blake3 pairs = .ok m ∧ m.rootHash = result.logicalBundleHash
      ∧ x.tar pairs = .ok bytes ∧ x.zstd (max 1 (min 22 level)) bytes = .ok archive := by
  unfold buildBundle at h
  rw [bind_eq_ok] at h
  obtain ⟨pairs, hpairs, h⟩ := h
  rw [bind_eq_ok] at h
  obtain ⟨m, hm, h⟩ := h
  rw [bind_eq_ok] at h
  obtain ⟨bytes, hbytes, h⟩ := h
  rw [bind_eq_ok] at h
  obtain ⟨compressed, hcompressed, h⟩ := h
  cases h
  exact ⟨pairs, m, bytes, hpairs, hm, rfl, hbytes, hcompressed⟩

/-- A walk whose manifest could be made. -/
theorem isWalk_of_manifest {t : Tree} {pairs : List (String × Bytes)}
    (hwalk : walkedPairs x t.entries = .ok pairs) {m : Hash.BundleManifest}
    (hm : computeManifestFromPairs x.blake3 pairs = .ok m) : ∃ ignore, IsWalk x t ignore pairs := by
  obtain ⟨ignore, hload, haccepted, hpairs⟩ := walkedPairs_eq_ok_iff.mp hwalk
  refine ⟨ignore, hload, haccepted, fun p hp => ?_, (Hash.computeManifest_eq_ok hm).1⟩
  rw [hpairs] at hp
  exact mem_foundAt hp

/-- Reading the archive of a walk comes down to reading its entries. -/
theorem Lossless.readArchiveToPairs {pairs : List (String × Bytes)} (h : Lossless x pairs)
    {level : Int} {bytes archive : Bytes} (htar : x.tar pairs = .ok bytes)
    (hzstd : x.zstd level bytes = .ok archive) :
    readArchiveToPairs x archive = readEntries (pairs.map tarEntry) := by
  unfold Bundle.readArchiveToPairs
  rw [h.zstd _ _ _ hzstd]
  simp only [bind, Except.bind]
  rw [h.tar _ htar]

/-- What the genome of a directory adds is what that of its archive adds. -/
theorem addGenome_eq_iff {genome : Option Bytes} :
    ({} : GenomeFacts) = addGenome x genome {}
      ↔ ∀ bytes, genome = some bytes → genomeFile x bytes {} = {} := by
  unfold addGenome
  cases genome with
  | none => exact ⟨fun _ _ h => (nomatch h), fun _ => rfl⟩
  | some bytes =>
      constructor
      · intro h bytes' hbytes
        cases hbytes
        exact h.symm
      · intro h
        exact (h bytes rfl).symm

theorem addContract_eq_iff {contract : Option Bytes} :
    ({} : ContractFacts) = addContract x contract {}
      ↔ ∀ bytes, contract = some bytes → contractFile x bytes {} = {} := by
  unfold addContract
  cases contract with
  | none => exact ⟨fun _ _ h => (nomatch h), fun _ => rfl⟩
  | some bytes =>
      constructor
      · intro h bytes' hbytes
        cases hbytes
        exact h.symm
      · intro h
        exact (h bytes rfl).symm

/-- The summaries of a walked directory and of its files agree where the files that were
left out say nothing. -/
theorem IsWalk.summarize_eq_iff {t : Tree} {ignore : Option (Fs.IgnoreFile x.glob)}
    {pairs : List (String × Bytes)} (h : IsWalk x t ignore pairs) (m : Hash.BundleManifest) :
    summarize x pairs m = summarize x (collectYamlPairsFromDir t.entries) m
      ↔ ("genome.yaml" ∉ pairs.map Prod.fst → ∀ bytes,
          Fs.fileAt t.entries [Fs.name "genome.yaml"] = some bytes → genomeFile x bytes {} = {})
        ∧ ("behavior.contract.yaml" ∉ pairs.map Prod.fst → ∀ bytes,
          Fs.fileAt t.entries [Fs.name "behavior.contract.yaml"] = some bytes →
            contractFile x bytes {} = {}) := by
  have hnodup : (pairs.map Prod.fst).Nodup := by
    rw [List.nodup_iff_pairwise_ne, List.pairwise_map]
    exact h.sorted.imp fun hlt => hlt.ne
  rw [Bundle.summarize_eq_iff hnodup (collectYamlPairsFromDir_nodup t.entries) m]
  unfold collectYamlPairsFromDir
  rw [contentAt_filterMap (show "genome.yaml" ∈ yamlFiles by decide),
    contentAt_filterMap (show "behavior.contract.yaml" ∈ yamlFiles by decide)]
  refine and_congr ?_ ?_
  · by_cases hmem : "genome.yaml" ∈ pairs.map Prod.fst
    · rw [h.contentAt_eq hnodup (by decide) hmem]
      exact ⟨fun _ hnot => absurd hmem hnot, fun _ => rfl⟩
    · rw [contentAt_eq_none hmem]
      exact addGenome_eq_iff.trans ⟨fun hsays _ => hsays, fun hsays => hsays hmem⟩
  · by_cases hmem : "behavior.contract.yaml" ∈ pairs.map Prod.fst
    · rw [h.contentAt_eq hnodup (by decide) hmem]
      exact ⟨fun _ hnot => absurd hmem hnot, fun _ => rfl⟩
    · rw [contentAt_eq_none hmem]
      exact addContract_eq_iff.trans ⟨fun hsays _ => hsays, fun hsays => hsays hmem⟩

/-- **An archive preserves its bundle** exactly when no walked path has a backslash, and a
genome or contract that was not walked says nothing. -/
theorem preserved_iff (t : Tree) (level : Int) {pairs : List (String × Bytes)} {archive : Bytes}
    {result : BundleBuildResult} (hwalk : walkedPairs x t.entries = .ok pairs)
    (hbuild : buildBundle x t.entries level = .ok (archive, result))
    (hlossless : Lossless x pairs) :
    Preserved x t.entries pairs archive result ↔ Portable x t.entries pairs := by
  obtain ⟨pairs', m, bytes, hwalk', hm, hroot, htar, hzstd⟩ := buildBundle_eq_ok hbuild
  rw [hwalk] at hwalk'
  cases hwalk'
  obtain ⟨ignore, h⟩ := isWalk_of_manifest hwalk hm
  have hread := hlossless.readArchiveToPairs htar hzstd
  have hpaths := readEntries_eq_ok_iff fun p hp => (h.plain p hp).parent
  have hmanifest := computeManifest_eq hwalk hm
  -- both summaries are made under one manifest
  have hinspect : readArchiveToPairs x archive = .ok pairs →
      (inspectArchive x archive = inspectDirectory x t.entries
        ↔ summarize x pairs m = summarize x (collectYamlPairsFromDir t.entries) m) := by
    intro hok
    unfold inspectArchive inspectDirectory
    rw [hok, hmanifest]
    simp only [bind, Except.bind]
    rw [hm]
    exact ⟨fun heq => Except.ok.inj heq, fun heq => congrArg Except.ok heq⟩
  constructor
  · intro hpreserved
    obtain ⟨hgenome, hcontract⟩ :=
      (h.summarize_eq_iff m).mp ((hinspect hpreserved.read).mp hpreserved.inspected)
    exact ⟨hpaths.mp (hread ▸ hpreserved.read), hgenome, hcontract⟩
  · intro hportable
    have hok : readArchiveToPairs x archive = .ok pairs := hread.trans (hpaths.mpr hportable.paths)
    obtain ⟨destination, hextract, hextracted⟩ := extractPairs_ok h.separate h.plain
      (List.nil_append (filesOf pairs)) ⟨rfl, fun q hq => absurd hq List.not_mem_nil⟩
    refine ⟨hok, ⟨m, hm, hroot⟩, ⟨destination, m, ?_, ?_, hroot⟩, ?_⟩
    · unfold extractBundle
      rw [hok]
      exact hextract
    · exact computeManifest_eq (h.walkedPairs_extracted hextracted) hm
    · exact (hinspect hok).mpr ((h.summarize_eq_iff m).mpr ⟨hportable.genome, hportable.contract⟩)

/-! ## Two directories -/

/-- Libraries for small inputs: patterns without wildcards, archives with a line for each
file, and no compression. -/
def plainLibraries : External where
  glob := { Pattern := String, new := .ok, matchesText := fun p s => p == s }
  blake3 := Hash.firstBytes
  parse bytes :=
    if bytes = Fs.name "skills: []" then some (.mapping [(.string "skills", .sequence [])])
    else if bytes = Fs.name "spec_version: '7'" then
      some (.mapping [(.string "spec_version", .string "7")])
    else none
  tar pairs := .ok (pairs.flatMap fun p => utf8Encode p.1.toList ++ [0] ++ p.2 ++ [10])
  untar bytes := .ok ((bytes.splitOn 10).dropLast.map fun line =>
    ⟨true, line.takeWhile (· ≠ 0), (line.dropWhile (· ≠ 0)).tail⟩)
  zstd _ bytes := .ok bytes
  unzstd := .ok

theorem lossless_of_untar {pairs : List (String × Bytes)}
    (h : (plainLibraries.tar pairs).bind plainLibraries.untar = .ok (pairs.map tarEntry)) :
    Lossless plainLibraries pairs where
  tar bytes hbytes := by
    rw [hbytes] at h
    exact h
  zstd level bytes compressed hcompressed := by
    cases hcompressed
    rfl

/-- A directory that ignores one of its files. -/
def agentTree : Tree :=
  .ofEntries
    [([Fs.name ".agenomicignore"], .file (Fs.name "notes")),
      ([Fs.name "genome.yaml"], .file (Fs.name "skills: []")),
      ([Fs.name "notes"], .file [1]),
      ([Fs.name "prompts"], .directory),
      ([Fs.name "prompts", Fs.name "system"], .file [2, 3])]
    (by decide) (by decide) (by decide)

/-- What is walked in it. -/
def agentPairs : List (String × Bytes) :=
  [(".agenomicignore", Fs.name "notes"), ("genome.yaml", Fs.name "skills: []"),
    ("prompts/system", [2, 3])]

theorem preserved_iff_agent : ∃ archive result,
    buildBundle plainLibraries agentTree.entries 3 = .ok (archive, result)
      ∧ Preserved plainLibraries agentTree.entries agentPairs archive result := by
  have hwalk : walkedPairs plainLibraries agentTree.entries = .ok agentPairs := by decide +kernel
  have hlossless : Lossless plainLibraries agentPairs := lossless_of_untar (by decide +kernel)
  refine ⟨_, _, rfl, (preserved_iff agentTree 3 hwalk rfl hlossless).mpr ⟨?_, ?_, ?_⟩⟩
  · decide +kernel
  · intro hnot
    exact absurd (by decide) hnot
  · intro hnot bytes hbytes
    cases hbytes

/-- A directory with a backslash in the name of its file. -/
def backslashTree : Tree :=
  .ofEntries [([utf8Encode ['a', backslash, 'b']], .file [1])] (by decide) (by decide) (by decide)

/-- What is walked in it. -/
def backslashPairs : List (String × Bytes) := [(String.ofList ['a', backslash, 'b'], [1])]

/-- A directory that ignores its genome. -/
def ignoringTree : Tree :=
  .ofEntries
    [([Fs.name ".agenomicignore"], .file (Fs.name "genome.yaml")),
      ([Fs.name "genome.yaml"], .file (Fs.name "spec_version: '7'"))]
    (by decide) (by decide) (by decide)

/-- What is walked in it. -/
def ignoringPairs : List (String × Bytes) := [(".agenomicignore", Fs.name "genome.yaml")]

/-- A backslash does not come back, and an ignored genome is read all the same. -/
theorem not_preserved :
    (walkedPairs plainLibraries backslashTree.entries = .ok backslashPairs
      ∧ Lossless plainLibraries backslashPairs
      ∧ ∃ archive result, buildBundle plainLibraries backslashTree.entries 3 = .ok (archive, result)
        ∧ ¬ Preserved plainLibraries backslashTree.entries backslashPairs archive result)
    ∧ walkedPairs plainLibraries ignoringTree.entries = .ok ignoringPairs
      ∧ Lossless plainLibraries ignoringPairs
      ∧ ∃ archive result, buildBundle plainLibraries ignoringTree.entries 3 = .ok (archive, result)
        ∧ ¬ Preserved plainLibraries ignoringTree.entries ignoringPairs archive result := by
  refine ⟨⟨by decide +kernel, lossless_of_untar (by decide +kernel), _, _, rfl, fun h => ?_⟩,
    by decide +kernel, lossless_of_untar (by decide +kernel), _, _, rfl, fun h => ?_⟩
  · exact absurd h.read (by decide +kernel)
  · exact absurd h.inspected (by decide +kernel)

end Agenomic.Bundle
