import Agenomic.Detect.Merge
import Agenomic.Lib.Sorted

/-!
# What a merge reports, and merging again

The changes of a merge are written down next to its decisions: one for every scalar
taken from the detection, one for every tool that came or went (`merge_changes`). A tool
whose kind or version changed, and an author, a skill, a knowledge base or a policy that
was added, leave none behind.

**`noop_iff`** says when the list of changes is empty exactly where the merge left the
genome as it was, and **`merge_settles`** that merging what a merge made with the same
detection once more changes nothing.
-/

namespace Agenomic.Detect

open Lib

/-! ## The changes of a merge -/

def ScalarField.all : List ScalarField :=
  [.agentId, .agentName, .domain, .criticality, .description, .framework, .runtimeKind,
    .modelProvider, .modelId, .entrypoint]

theorem ScalarField.mem_all (f : ScalarField) : f ∈ ScalarField.all := by
  cases f <;> simp [all]

/-- The genome has the recorded value of the field, and the detection another one. -/
def Outdated (current detected : DetectedGenome) (prior : Option Provenance) (f : ScalarField) :
    Prop :=
  recorded prior f = current.get f ∧ current.get f ≠ detected.get f

/-- The changes of one decision. -/
def pickChanges (field : String) (recorded current detected : Option String) : List Change :=
  if recorded = current ∧ current ≠ detected then
    [.scalar field (current.getD "(none)") (detected.getD "(none)")]
  else []

theorem pick_changes (field : String) (current detected : Option String)
    (prior : Std.ExtTreeMap String String) (d : Decisions) :
    (pick field current detected prior d).2.changes
      = d.changes ++ pickChanges field prior[field]? current detected := by
  unfold pick pickChanges
  by_cases heq : current = detected
  · rw [if_pos heq, if_neg fun h => h.2 heq, List.append_nil]
  · rw [if_neg heq]
    by_cases hprior : prior[field]? = current
    · rw [if_pos hprior, if_pos ⟨hprior, heq⟩]
    · rw [if_neg hprior, if_neg fun h => hprior h.1, List.append_nil]

theorem mergeReq_changes (field current detected : String)
    (prior : Std.ExtTreeMap String String) (d : Decisions) :
    (mergeReq field current detected prior d).2.changes
      = d.changes ++ pickChanges field prior[field]? (some current) (some detected) :=
  pick_changes field (some current) (some detected) prior d

/-- The changes of the scalars, field by field. -/
def scalarChanges (current detected : DetectedGenome) (prior : Option Provenance) : List Change :=
  ScalarField.all.flatMap fun f =>
    pickChanges f.name (recorded prior f) (current.get f) (detected.get f)

/-- The tools a merge adds. -/
def addedTools (current detected : List ToolEntry) : List ToolEntry :=
  detected.filter fun t => t.name ∉ current.map (·.name)

/-- The tools only the current genome has. -/
def currentOnly (current detected : List ToolEntry) : List ToolEntry :=
  current.filter fun t => t.name ∉ detected.map (·.name)

/-- The tools a merge takes away. -/
def removedTools (current detected : List ToolEntry) (priorTools : List String) (prune : Bool) :
    List ToolEntry :=
  (currentOnly current detected).filter fun t => prune && priorTools.contains t.name

/-- The tools a merge keeps without detecting them. -/
def keptTools (current detected : List ToolEntry) (priorTools : List String) (prune : Bool) :
    List ToolEntry :=
  (currentOnly current detected).filter fun t => !(prune && priorTools.contains t.name)

/-- **The changes of a merge**: those of the scalars, then the tools that came and went. -/
theorem merge_changes (current detected : DetectedGenome) (prior : Option Provenance)
    (prune : Bool) : (merge current detected prior prune).changes
      = scalarChanges current detected prior
        ++ (addedTools current.tools detected.tools).map
            (fun t => Change.toolAdded t.name t.kind.label t.version)
        ++ (removedTools current.tools detected.tools (priorToolNames prior) prune).map
            (fun t => Change.toolRemoved t.name) := by
  unfold merge mergeTools scalarChanges ScalarField.all
  simp only [pick_changes, mergeReq_changes, List.flatMap_cons, List.flatMap_nil, List.append_nil,
    List.nil_append, List.append_assoc]
  rfl

theorem merge_tools (current detected : DetectedGenome) (prior : Option Provenance)
    (prune : Bool) : (merge current detected prior prune).merged.tools
      = (detected.tools ++ keptTools current.tools detected.tools (priorToolNames prior) prune
        ).insertionSort ToolEntry.le := rfl

theorem scalarChanges_eq_nil {current detected : DetectedGenome} {prior : Option Provenance} :
    scalarChanges current detected prior = [] ↔ ∀ f, ¬ Outdated current detected prior f := by
  unfold scalarChanges pickChanges Outdated
  rw [List.flatMap_eq_nil_iff]
  refine ⟨fun h f => ?_, fun h f _ => if_neg (h f)⟩
  intro houtdated
  have hf := h f f.mem_all
  rw [if_pos houtdated] at hf
  exact List.cons_ne_nil _ _ hf

/-- No field is outdated, no tool comes and none goes. -/
theorem changes_eq_nil {current detected : DetectedGenome} {prior : Option Provenance}
    {prune : Bool} : (merge current detected prior prune).changes = [] ↔
      (∀ f, ¬ Outdated current detected prior f) ∧ addedTools current.tools detected.tools = []
      ∧ removedTools current.tools detected.tools (priorToolNames prior) prune = [] := by
  rw [merge_changes, List.append_eq_nil_iff, List.append_eq_nil_iff, scalarChanges_eq_nil,
    List.map_eq_nil_iff, List.map_eq_nil_iff, and_assoc]

/-! ## Unions -/

theorem unionKeep_cons (current : List String) (s : String) (rest : List String) :
    unionKeep current (s :: rest)
      = unionKeep (if s ∈ current then current else current ++ [s]) rest := rfl

theorem mem_unionKeep {x : String} : ∀ {current detected : List String},
    x ∈ unionKeep current detected ↔ x ∈ current ∨ x ∈ detected
  | current, [] => by simp [unionKeep]
  | current, s :: rest => by
      rw [unionKeep_cons, mem_unionKeep]
      by_cases hs : s ∈ current
      · rw [if_pos hs, List.mem_cons]
        grind
      · rw [if_neg hs, List.mem_append, List.mem_singleton, List.mem_cons, or_assoc]

theorem unionKeep_of_subset : ∀ {current detected : List String}, detected ⊆ current →
    unionKeep current detected = current
  | _, [], _ => rfl
  | current, s :: rest, h => by
      rw [unionKeep_cons, if_pos (h List.mem_cons_self)]
      exact unionKeep_of_subset (List.subset_of_cons_subset h)

theorem unionKeep_eq_current {current detected : List String} :
    unionKeep current detected = current ↔ detected ⊆ current := by
  refine ⟨fun h x hx => ?_, unionKeep_of_subset⟩
  rw [← h]
  exact mem_unionKeep.mpr (.inr hx)

theorem unionKeep_again (current detected : List String) :
    unionKeep (unionKeep current detected) detected = unionKeep current detected :=
  unionKeep_of_subset fun _ hx => mem_unionKeep.mpr (.inr hx)

/-! ## Updates that change nothing -/

/-- Two genomes that differ in their evidence alone, and in the order and repetition of
their tools. -/
structure SameGenome (a b : DetectedGenome) : Prop where
  specVersion : a.specVersion = b.specVersion
  scalars : ∀ f, a.get f = b.get f
  memory : a.memory = b.memory
  tools : ∀ t, t ∈ a.tools ↔ t ∈ b.tools
  authors : a.authors = b.authors
  skills : a.skills = b.skills
  knowledge : a.knowledge = b.knowledge
  policies : a.policies = b.policies

/-- The detection has nothing that the genome lacks without a change to report it: no tool
of another kind or version under a name of the genome's, nothing in its lists. -/
structure NothingUnreported (current detected : DetectedGenome) : Prop where
  detectedTools : ∀ t ∈ detected.tools, t ∈ current.tools
  currentTools : ∀ t ∈ current.tools, t.name ∈ detected.tools.map (·.name) → t ∈ detected.tools
  authors : detected.authors ⊆ current.authors
  skills : detected.skills ⊆ current.skills
  knowledge : detected.knowledge ⊆ current.knowledge
  policies : detected.policies ⊆ current.policies

/-- A change is reported: a field is outdated, a tool comes or one goes. -/
def Reported (current detected : DetectedGenome) (prior : Option Provenance) (prune : Bool) :
    Prop :=
  (∃ f, Outdated current detected prior f)
  ∨ (∃ t ∈ detected.tools, t.name ∉ current.tools.map (·.name))
  ∨ ∃ t ∈ current.tools, t.name ∉ detected.tools.map (·.name) ∧ prune = true
      ∧ t.name ∈ priorToolNames prior

theorem mem_addedTools {current detected : List ToolEntry} {t : ToolEntry} :
    t ∈ addedTools current detected ↔ t ∈ detected ∧ t.name ∉ current.map (·.name) := by
  rw [addedTools, List.mem_filter, decide_eq_true_iff]

theorem mem_currentOnly {current detected : List ToolEntry} {t : ToolEntry} :
    t ∈ currentOnly current detected ↔ t ∈ current ∧ t.name ∉ detected.map (·.name) := by
  rw [currentOnly, List.mem_filter, decide_eq_true_iff]

theorem mem_removedTools {current detected : List ToolEntry} {priorTools : List String}
    {prune : Bool} {t : ToolEntry} : t ∈ removedTools current detected priorTools prune ↔
      t ∈ current ∧ t.name ∉ detected.map (·.name) ∧ prune = true ∧ t.name ∈ priorTools := by
  rw [removedTools, List.mem_filter, mem_currentOnly, Bool.and_eq_true, List.contains_iff_mem,
    and_assoc]

theorem mem_keptTools {current detected : List ToolEntry} {priorTools : List String}
    {prune : Bool} {t : ToolEntry} : t ∈ keptTools current detected priorTools prune ↔
      t ∈ current ∧ t.name ∉ detected.map (·.name) ∧ ¬ (prune = true ∧ t.name ∈ priorTools) := by
  rw [keptTools, List.mem_filter, mem_currentOnly, Bool.not_eq_true', ← Bool.not_eq_true,
    Bool.and_eq_true, List.contains_iff_mem, and_assoc]

theorem mem_merge_tools {current detected : DetectedGenome} {prior : Option Provenance}
    {prune : Bool} {t : ToolEntry} : t ∈ (merge current detected prior prune).merged.tools ↔
      t ∈ detected.tools
        ∨ t ∈ keptTools current.tools detected.tools (priorToolNames prior) prune := by
  rw [merge_tools, List.mem_insertionSort, List.mem_append]

theorem changes_ne_nil {current detected : DetectedGenome} {prior : Option Provenance}
    {prune : Bool} : (merge current detected prior prune).changes ≠ [] ↔
      Reported current detected prior prune := by
  rw [ne_eq, changes_eq_nil, List.eq_nil_iff_forall_not_mem, List.eq_nil_iff_forall_not_mem]
  simp only [mem_addedTools, mem_removedTools]
  unfold Reported
  grind

/-- A merge that reports a change has made one. -/
theorem not_sameGenome_of_reported {current detected : DetectedGenome}
    {prior : Option Provenance} {prune : Bool} (h : Reported current detected prior prune) :
    ¬ SameGenome (merge current detected prior prune).merged current := by
  intro hsame
  obtain ⟨f, hrecorded, hne⟩ | ⟨t, ht, hname⟩ | ⟨t, ht, hname, hprune, hprior⟩ := h
  · have hget := hsame.scalars f
    rw [merge_get, if_pos hrecorded] at hget
    exact hne hget.symm
  · have hmem := (hsame.tools t).mp (mem_merge_tools.mpr (.inl ht))
    exact hname (List.mem_map_of_mem hmem)
  · -- What went is neither detected nor kept.
    rcases mem_merge_tools.mp ((hsame.tools t).mpr ht) with hdetected | hkept
    · exact hname (List.mem_map_of_mem hdetected)
    · exact (mem_keptTools.mp hkept).2.2 ⟨hprune, hprior⟩

/-- A merge that reports nothing has changed nothing where nothing goes unreported. -/
theorem sameGenome_iff {current detected : DetectedGenome} {prior : Option Provenance}
    {prune : Bool} (h : ¬ Reported current detected prior prune) :
    SameGenome (merge current detected prior prune).merged current ↔
      NothingUnreported current detected := by
  unfold Reported at h
  push Not at h
  obtain ⟨hscalars, -, hremoved⟩ := h
  refine ⟨fun hsame => ?_, fun hnothing => ?_⟩
  · have hdetected : ∀ t ∈ detected.tools, t ∈ current.tools := fun t ht =>
      (hsame.tools t).mp (mem_merge_tools.mpr (.inl ht))
    refine ⟨hdetected, fun t ht hname => ?_, ?_, ?_, ?_, ?_⟩
    · rcases mem_merge_tools.mp ((hsame.tools t).mpr ht) with hmem | hkept
      · exact hmem
      · exact absurd hname (mem_keptTools.mp hkept).2.1
    · exact unionKeep_eq_current.mp hsame.authors
    · exact unionKeep_eq_current.mp hsame.skills
    · exact unionKeep_eq_current.mp hsame.knowledge
    · exact unionKeep_eq_current.mp hsame.policies
  · refine ⟨rfl, fun f => ?_, rfl, fun t => ?_, unionKeep_of_subset hnothing.authors,
      unionKeep_of_subset hnothing.skills, unionKeep_of_subset hnothing.knowledge,
      unionKeep_of_subset hnothing.policies⟩
    · rw [merge_get]
      by_cases hrecorded : recorded prior f = current.get f
      · have hget : current.get f = detected.get f := by
          by_contra hne
          exact hscalars f ⟨hrecorded, hne⟩
        rw [if_pos hrecorded, hget]
      · rw [if_neg hrecorded]
    · rw [mem_merge_tools, mem_keptTools]
      refine ⟨fun hmem => ?_, fun hmem => ?_⟩
      · rcases hmem with hmem | hmem
        · exact hnothing.detectedTools t hmem
        · exact hmem.1
      · by_cases hname : t.name ∈ detected.tools.map (·.name)
        · exact .inl (hnothing.currentTools t hmem hname)
        · exact .inr ⟨hmem, hname, fun hboth => hremoved t hmem hname hboth.1 hboth.2⟩

/-- **A merge without changes leaves the genome alone** exactly when it reports something or
there is nothing it would not report. -/
theorem noop_iff (current detected : DetectedGenome) (prior : Option Provenance)
    (prune : Bool) :
    ((merge current detected prior prune).changes = []
      ↔ SameGenome (merge current detected prior prune).merged current) ↔
      Reported current detected prior prune ∨ NothingUnreported current detected := by
  by_cases h : Reported current detected prior prune
  · refine iff_of_true (iff_of_false ?_ (not_sameGenome_of_reported h)) (.inl h)
    exact changes_ne_nil.mpr h
  · have hchanges : (merge current detected prior prune).changes = [] := by
      by_contra hne
      exact h (changes_ne_nil.mp hne)
    rw [sameGenome_iff h, iff_true_left hchanges]
    exact (or_iff_right h).symm

/-- A genome with one tool of the given version. -/
def toolGenome (version : String) : DetectedGenome :=
  { DetectedGenome.defaults with tools := [⟨"ruff", .linter, some version⟩] }

/-- A linter was upgraded; the merge takes the new version and reports nothing. -/
theorem not_noop_iff :
    ¬ ((merge (toolGenome "0.4") (toolGenome "0.5") none false).changes = []
      ↔ SameGenome (merge (toolGenome "0.4") (toolGenome "0.5") none false).merged
          (toolGenome "0.4")) := by
  intro h
  have hsame := h.mp (by decide)
  have hmem := (hsame.tools ⟨"ruff", .linter, some "0.5"⟩).mp (by decide)
  exact absurd hmem (by decide)

/-! ## Merging again -/

/-- The evidence of a detection: what is noted under a field is the field's value, what is
noted under an entry of the tools is a tool's name, and every scalar that can be absent and
is not has an entry. -/
structure AsDetected (g : DetectedGenome) : Prop where
  scalars : ∀ e ∈ g.evidence, ∀ f : ScalarField, e.field = f.name → g.get f = some e.value
  tools : ∀ e ∈ g.evidence, isToolField e.field = true → e.value ∈ g.tools.map (·.name)
  noted : ∀ f : ScalarField, DetectedGenome.defaults.get f = none → g.get f ≠ none →
    ∃ e ∈ g.evidence, e.field = f.name

/-- The sidecar of a merge: what it detected, with the fields it froze. -/
def settledProvenance (result : MergeResult) (detectedAt : String)
    (lastUpdate : Option LastUpdate) : Provenance :=
  { Provenance.fromDetection result.merged detectedAt with frozen := result.frozen, lastUpdate }

/-- What a record of a sidecar makes of the recorded scalars. -/
def noteScalar (map : Std.ExtTreeMap String String) (s : SourceRecord) :
    Std.ExtTreeMap String String :=
  if isToolField s.field then map else map.insert s.field s.value

theorem noteScalar_self (map : Std.ExtTreeMap String String) {s : SourceRecord}
    (h : isToolField s.field = false) : (noteScalar map s)[s.field]? = some s.value := by
  rw [noteScalar, h, if_neg Bool.false_ne_true, Std.ExtTreeMap.getElem?_insert_self]

theorem noteScalar_of_ne (map : Std.ExtTreeMap String String) {s : SourceRecord} {k : String}
    (h : s.field ≠ k) : (noteScalar map s)[k]? = map[k]? := by
  unfold noteScalar
  by_cases htool : isToolField s.field = true
  · rw [if_pos htool]
  · rw [if_neg htool, Std.ExtTreeMap.getElem?_insert, if_neg]
    rwa [Std.compare_eq_iff_eq]

/-- What is recorded for a field stands in one of its records. -/
theorem noteScalar_foldl_some {k v : String} (hk : isToolField k = false) :
    ∀ {sources : List SourceRecord} {map : Std.ExtTreeMap String String},
      (sources.foldl noteScalar map)[k]? = some v →
      map[k]? = some v ∨ ∃ s ∈ sources, s.field = k ∧ s.value = v
  | [], map, h => .inl h
  | s :: rest, map, h => by
      rw [List.foldl_cons] at h
      rcases noteScalar_foldl_some hk h with hmap | ⟨s', hs', hfound⟩
      · by_cases hfield : s.field = k
        · rw [← hfield, noteScalar_self map (hfield ▸ hk)] at hmap
          exact .inr ⟨s, List.mem_cons_self, hfield, Option.some.inj hmap⟩
        · rw [noteScalar_of_ne map hfield] at hmap
          exact .inl hmap
      · exact .inr ⟨s', List.mem_cons_of_mem s hs', hfound⟩

/-- A field with a record has something recorded. -/
theorem noteScalar_foldl_isSome {k : String} (hk : isToolField k = false) :
    ∀ {sources : List SourceRecord} {map : Std.ExtTreeMap String String},
      (map[k]?.isSome ∨ ∃ s ∈ sources, s.field = k) →
      (sources.foldl noteScalar map)[k]?.isSome
  | [], map, h => by
      obtain hmap | ⟨s, hs, -⟩ := h
      · exact hmap
      · cases hs
  | s :: rest, map, h => by
      rw [List.foldl_cons]
      refine noteScalar_foldl_isSome hk ?_
      by_cases hfield : s.field = k
      · left
        rw [← hfield, noteScalar_self map (hfield ▸ hk)]
        rfl
      · rw [noteScalar_of_ne map hfield]
        obtain hmap | ⟨s', hs', hfound⟩ := h
        · exact .inl hmap
        · rcases List.mem_cons.mp hs' with rfl | hrest
          · exact absurd hfound hfield
          · exact .inr ⟨s', hrest, hfound⟩

theorem isToolField_name (f : ScalarField) : isToolField f.name = false := by
  cases f <;> decide

theorem mem_sources {result : MergeResult} {detectedAt : String}
    {lastUpdate : Option LastUpdate} {s : SourceRecord} :
    s ∈ (settledProvenance result detectedAt lastUpdate).sources ↔
      ∃ e ∈ result.merged.evidence, s = ⟨e.field, e.value, e.source.label, e.evidence⟩ := by
  unfold settledProvenance Provenance.fromDetection DetectedGenome.sortedEvidence
  simp only [List.mem_map, List.mem_insertionSort]
  exact ⟨fun ⟨e, he, hs⟩ => ⟨e, he, hs.symm⟩, fun ⟨e, he, hs⟩ => ⟨e, he, hs.symm⟩⟩

/-- The sidecar records the detected value of a field or, of one that is always set, none. -/
theorem recorded_settled {result : MergeResult} {detected : DetectedGenome}
    (h : AsDetected detected) (hevidence : result.merged.evidence = detected.evidence)
    (detectedAt : String) (lastUpdate : Option LastUpdate) (f : ScalarField) :
    recorded (some (settledProvenance result detectedAt lastUpdate)) f = detected.get f
      ∨ recorded (some (settledProvenance result detectedAt lastUpdate)) f = none
        ∧ DetectedGenome.defaults.get f ≠ none := by
  cases hrecorded : recorded (some (settledProvenance result detectedAt lastUpdate)) f with
  | some v =>
      left
      rcases noteScalar_foldl_some (isToolField_name f) hrecorded with hmap | ⟨s, hs, hfield, hv⟩
      · simp at hmap
      · obtain ⟨e, he, rfl⟩ := mem_sources.mp hs
        rw [h.scalars e (hevidence ▸ he) f hfield, ← hv]
  | none =>
      have hnone : ¬ ∃ s ∈ (settledProvenance result detectedAt lastUpdate).sources,
          s.field = f.name := by
        intro hsome
        have hset : (recorded (some (settledProvenance result detectedAt lastUpdate)) f).isSome :=
          noteScalar_foldl_isSome (isToolField_name f) (.inr hsome)
        rw [hrecorded] at hset
        cases hset
      by_cases hdefault : DetectedGenome.defaults.get f = none
      · left
        by_contra hne
        obtain ⟨e, he, hfield⟩ := h.noted f hdefault (Ne.symm hne)
        exact hnone ⟨_, mem_sources.mpr ⟨e, hevidence ▸ he, rfl⟩, hfield⟩
      · exact .inr ⟨rfl, hdefault⟩

/-- A field that is always set. -/
theorem get_ne_none {f : ScalarField} (h : DetectedGenome.defaults.get f ≠ none)
    (g : DetectedGenome) : g.get f ≠ none := by
  cases f <;> first
    | exact Option.some_ne_none _
    | exact absurd rfl h

/-- After a merge no field is outdated any more. -/
theorem not_outdated_settled {result : MergeResult} {detected : DetectedGenome}
    (h : AsDetected detected) (hevidence : result.merged.evidence = detected.evidence)
    (detectedAt : String) (lastUpdate : Option LastUpdate) (f : ScalarField) :
    ¬ Outdated result.merged detected
      (some (settledProvenance result detectedAt lastUpdate)) f := by
  rintro ⟨hrecorded, hne⟩
  rcases recorded_settled h hevidence detectedAt lastUpdate f with hdetected | ⟨hnone, hset⟩
  · exact hne (hrecorded.symm.trans hdetected)
  · exact get_ne_none hset result.merged (hrecorded.symm.trans hnone)

/-- The recorded tools are detected ones. -/
theorem priorToolNames_settled {result : MergeResult} {detected : DetectedGenome}
    (h : AsDetected detected) (hevidence : result.merged.evidence = detected.evidence)
    (detectedAt : String) (lastUpdate : Option LastUpdate) {name : String}
    (hname : name ∈ priorToolNames (some (settledProvenance result detectedAt lastUpdate))) :
    name ∈ detected.tools.map (·.name) := by
  unfold priorToolNames at hname
  obtain ⟨s, hs, rfl⟩ := List.mem_map.mp hname
  obtain ⟨hsource, htool⟩ := List.mem_filter.mp hs
  obtain ⟨e, he, rfl⟩ := mem_sources.mp hsource
  exact h.tools e (hevidence ▸ he) htool

instance : Std.Total ToolEntry.le where
  total a b := by
    unfold ToolEntry.le
    rcases Nat.lt_trichotomy a.kind.ctorIdx b.kind.ctorIdx with hlt | heq | hgt
    · exact .inl (.inl hlt)
    · exact (le_total a.name b.name).imp (fun hle => .inr ⟨heq, hle⟩)
        fun hle => .inr ⟨heq.symm, hle⟩
    · exact .inr (.inl hgt)

instance : IsTrans ToolEntry ToolEntry.le where
  trans a b c hab hbc := by
    unfold ToolEntry.le at *
    rcases hab with hab | ⟨hab, hname⟩
    · rcases hbc with hbc | ⟨hbc, -⟩
      · exact .inl (hab.trans hbc)
      · exact .inl (hbc ▸ hab)
    · rcases hbc with hbc | ⟨hbc, hname'⟩
      · exact .inl (hab ▸ hbc)
      · exact .inr ⟨hab.trans hbc, hname.trans hname'⟩

/-- The tools that only the merged genome has are those the merge kept, in order. -/
theorem currentOnly_merge_tools (current detected : DetectedGenome) (prior : Option Provenance)
    (prune : Bool) :
    currentOnly (merge current detected prior prune).merged.tools detected.tools
      = (keptTools current.tools detected.tools (priorToolNames prior) prune).insertionSort
        ToolEntry.le := by
  rw [merge_tools, currentOnly, filter_insertionSort, List.filter_append]
  have hdetected : detected.tools.filter (fun t => t.name ∉ detected.tools.map (·.name)) = [] := by
    refine List.filter_eq_nil_iff.mpr fun t ht => ?_
    rw [decide_eq_true_iff, not_not]
    exact List.mem_map_of_mem ht
  have hkept : (keptTools current.tools detected.tools (priorToolNames prior) prune).filter
      (fun t => t.name ∉ detected.tools.map (·.name))
        = keptTools current.tools detected.tools (priorToolNames prior) prune := by
    refine List.filter_eq_self.mpr fun t ht => ?_
    exact decide_eq_true (mem_keptTools.mp ht).2.1
  rw [hdetected, hkept, List.nil_append]

/-- Two genomes with the same scalars, and the same of everything else. -/
theorem eq_of_get {a b : DetectedGenome} (h : ∀ f, a.get f = b.get f)
    (hspec : a.specVersion = b.specVersion) (hauthors : a.authors = b.authors)
    (hmemory : a.memory = b.memory) (htools : a.tools = b.tools) (hskills : a.skills = b.skills)
    (hknowledge : a.knowledge = b.knowledge) (hpolicies : a.policies = b.policies)
    (hevidence : a.evidence = b.evidence) : a = b := by
  have hid := Option.some.inj (h .agentId)
  have hname := Option.some.inj (h .agentName)
  have hdomain := Option.some.inj (h .domain)
  have hcriticality := Option.some.inj (h .criticality)
  have hdescription := h .description
  have hframework := h .framework
  have hruntime := h .runtimeKind
  have hprovider := Option.some.inj (h .modelProvider)
  have hmodel := Option.some.inj (h .modelId)
  have hentrypoint := h .entrypoint
  cases a
  cases b
  simp_all only [DetectedGenome.get]

/-- **Merging is idempotent**: the genome of a merge, merged with the same detection and the
sidecar the merge leaves, is the same genome, and no change is reported. -/
theorem merge_settles (current detected : DetectedGenome) (prior : Option Provenance)
    (prune : Bool) (detectedAt : String) (lastUpdate : Option LastUpdate)
    (h : AsDetected detected) :
    let result := merge current detected prior prune
    let again := merge result.merged detected
      (some (settledProvenance result detectedAt lastUpdate)) prune
    again.merged = result.merged ∧ again.changes = [] := by
  intro result again
  have hevidence : result.merged.evidence = detected.evidence := rfl
  have hscalars := not_outdated_settled h hevidence detectedAt lastUpdate
  have hnames : ∀ t ∈ currentOnly result.merged.tools detected.tools,
      t.name ∉ priorToolNames (some (settledProvenance result detectedAt lastUpdate)) := by
    intro t ht hname
    exact (mem_currentOnly.mp ht).2
      (priorToolNames_settled h hevidence detectedAt lastUpdate hname)
  have hkept : keptTools result.merged.tools detected.tools
      (priorToolNames (some (settledProvenance result detectedAt lastUpdate))) prune
        = currentOnly result.merged.tools detected.tools := by
    refine List.filter_eq_self.mpr fun t ht => ?_
    rw [Bool.not_eq_true', Bool.and_eq_false_iff, List.contains_eq_mem]
    exact .inr (decide_eq_false (hnames t ht))
  refine ⟨?_, ?_⟩
  · have hget : ∀ f, again.merged.get f = result.merged.get f := by
      intro f
      rw [merge_get]
      by_cases hrecorded : recorded (some (settledProvenance result detectedAt lastUpdate)) f
          = result.merged.get f
      · rw [if_pos hrecorded]
        by_contra hne
        exact hscalars f ⟨hrecorded, Ne.symm hne⟩
      · rw [if_neg hrecorded]
    have htools : again.merged.tools = result.merged.tools := by
      have hmerge : again.merged.tools = _ := merge_tools ..
      rw [hmerge, hkept, currentOnly_merge_tools, insertionSort_append_insertionSort, merge_tools]
    exact eq_of_get hget rfl (unionKeep_again ..) rfl htools (unionKeep_again ..)
      (unionKeep_again ..) (unionKeep_again ..) rfl
  · refine changes_eq_nil.mpr ⟨hscalars, ?_, ?_⟩
    · rw [List.eq_nil_iff_forall_not_mem]
      intro t ht
      obtain ⟨hdetected, hname⟩ := mem_addedTools.mp ht
      exact hname (List.mem_map_of_mem (mem_merge_tools.mpr (.inl hdetected)))
    · rw [List.eq_nil_iff_forall_not_mem]
      intro t ht
      obtain ⟨hcurrent, hname, -, hprior⟩ := mem_removedTools.mp ht
      exact hnames t (mem_currentOnly.mpr ⟨hcurrent, hname⟩) hprior

/-- A detection of a linter, over a genome with a name of its own. -/
def linterDetection : DetectedGenome :=
  { DetectedGenome.defaults with
    description := some "Finds defects."
    tools := [⟨"ruff", .linter, some "0.5"⟩, ⟨"ruff", .linter, none⟩]
    evidence :=
      [ ⟨"description", "Finds defects.", .pyproject, "project.description"⟩,
        ⟨"tools[0]", "ruff", .pyproject, "dependency ruff"⟩,
        ⟨"tools[1]", "ruff", .dockerfile, "pip install ruff"⟩ ] }

theorem asDetected_linterDetection : AsDetected linterDetection := by
  refine ⟨?_, by decide, ?_⟩
  · intro e he f hf
    fin_cases he <;> cases f <;> first
      | rfl
      | exact absurd hf (by decide)
  · intro f hdefault hset
    cases f <;> first
      | exact ⟨_, List.mem_cons_self, rfl⟩
      | exact absurd rfl hset
      | cases hdefault

theorem merge_settles_linter :
    let current := { toolGenome "0.4" with agentName := "Mine", authors := ["a", "a"] }
    let result := merge current linterDetection none true
    let again := merge result.merged linterDetection
      (some (settledProvenance result "2026-06-01T00:00:00Z" none)) true
    again.merged = result.merged ∧ again.changes = [] :=
  merge_settles _ _ none true "2026-06-01T00:00:00Z" none asDetected_linterDetection

end Agenomic.Detect
