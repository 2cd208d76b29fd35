import Agenomic.Detect.Highest

/-!
# Which source wins

Every field has the value of the highest source before the inference (`get_highest`), and
the inference keeps it, but for one field: the dependency on `openai-agents` sets the
model provider without asking who set it (`get_infer_provider`). And of a tool that is
declared more than once the first declaration stays (`mem_tools_iff`), which is that of
the lowest manifest.

**`precedence_iff`** says when neither shows.
-/

namespace Agenomic.Detect

open Lib Prompt

/-! ## The inference -/

theorem get_inferModelId (g : DetectedGenome) {f : ScalarField} (hf : f ≠ .modelId) :
    (inferModelId g).get f = g.get f := by
  unfold inferModelId
  split
  · rfl
  · rw [DetectedGenome.get_writeSome, if_neg hf]

theorem get_inferTools (deps : List Dependency) (g : DetectedGenome) (f : ScalarField) :
    (inferTools deps g).get f = g.get f := by
  have hfold : ∀ (tools : List (FoundTool × Nat)) (g : DetectedGenome),
      (tools.foldl (fun g t => g.record t.1.2.1 s!"tools[{t.2}]" t.1.1.name t.1.2.2) g).get f
        = g.get f := by
    intro tools
    induction tools with
    | nil => exact fun _ => rfl
    | cons t tools ih => exact fun g => (ih _).trans (DetectedGenome.get_record ..)
  unfold inferTools
  refine Eq.trans ?_ (hfold (foundTools deps).zipIdx g)
  cases f <;> rfl

theorem get_inferMemory (deps : List Dependency) (g : DetectedGenome) (f : ScalarField) :
    (inferMemory deps g).get f = g.get f := by
  unfold inferMemory
  split
  · cases f <;> rfl
  · rfl

theorem get_inferProvider (deps : List Dependency) (g : DetectedGenome) {f : ScalarField}
    (hf : f ≠ .modelProvider) : (inferProvider deps g).get f = g.get f := by
  unfold inferProvider
  split
  · rfl
  · split
    · exact (DetectedGenome.get_write ..).trans (if_neg hf)
    · rfl

theorem get_inferFramework (deps : List Dependency) (g : DetectedGenome) {f : ScalarField}
    (hf : f ≠ .framework) (hf' : f ≠ .modelProvider) :
    (inferFramework deps g).get f = g.get f := by
  unfold inferFramework
  split
  · rfl
  · split
    · dsimp only
      split
      · exact ((DetectedGenome.get_write ..).trans (if_neg hf')).trans
          ((DetectedGenome.get_write ..).trans (if_neg hf))
      · exact (DetectedGenome.get_write ..).trans (if_neg hf)
    · exact (DetectedGenome.get_write ..).trans (if_neg hf)

theorem get_infer_other (deps : List Dependency) (g : DetectedGenome) {f : ScalarField}
    (hf : ¬ f.Inferred) : (infer deps g).get f = g.get f := by
  unfold ScalarField.Inferred at hf
  push Not at hf
  unfold infer
  dsimp only
  rw [get_inferMemory, get_inferTools, get_inferModelId _ hf.2.2, get_inferProvider _ _ hf.2.1,
    get_inferFramework _ _ hf.1 hf.2.1]

/-- What a write of another field leaves of who set a field. -/
theorem explicitlySet_write (g : DetectedGenome) (s : Source) (f f' : ScalarField) (v e : String) :
    explicitlySet (g.write s f v e) f'.name
      = if f' = f then decide (s ≠ .defaults) else explicitlySet g f'.name := by
  unfold explicitlySet
  rw [sourceOf_write]
  split <;> rfl

theorem explicitlySet_inferFramework (deps : List Dependency) (g : DetectedGenome)
    {f : ScalarField} (hf : f ≠ .framework) (hf' : f ≠ .modelProvider) :
    explicitlySet (inferFramework deps g) f.name = explicitlySet g f.name := by
  unfold inferFramework
  split
  · rfl
  · split
    · dsimp only
      split
      · exact ((explicitlySet_write ..).trans (if_neg hf')).trans
          ((explicitlySet_write ..).trans (if_neg hf))
      · exact (explicitlySet_write ..).trans (if_neg hf)
    · exact (explicitlySet_write ..).trans (if_neg hf)

theorem explicitlySet_inferProvider (deps : List Dependency) (g : DetectedGenome)
    {f : ScalarField} (hf : f ≠ .modelProvider) :
    explicitlySet (inferProvider deps g) f.name = explicitlySet g f.name := by
  unfold inferProvider
  split
  · rfl
  · split
    · exact (explicitlySet_write ..).trans (if_neg hf)
    · rfl

theorem inferFramework_of_set (deps : List Dependency) {g : DetectedGenome}
    (h : explicitlySet g ScalarField.framework.name = true) : inferFramework deps g = g := if_pos h

theorem inferProvider_of_set (deps : List Dependency) {g : DetectedGenome}
    (h : explicitlySet g ScalarField.modelProvider.name = true) : inferProvider deps g = g :=
  if_pos h

theorem inferModelId_of_set {g : DetectedGenome}
    (h : explicitlySet g ScalarField.modelId.name = true) : inferModelId g = g := if_pos h

/-- A framework that was set is kept. -/
theorem get_infer_framework (deps : List Dependency) {g : DetectedGenome}
    (h : explicitlySet g ScalarField.framework.name = true) :
    (infer deps g).get .framework = g.get .framework := by
  unfold infer
  dsimp only
  rw [get_inferMemory, get_inferTools, get_inferModelId _ (by decide),
    get_inferProvider _ _ (by decide), inferFramework_of_set _ h]

/-- A model that was set is kept. -/
theorem get_infer_modelId (deps : List Dependency) {g : DetectedGenome}
    (h : explicitlySet g ScalarField.modelId.name = true) :
    (infer deps g).get .modelId = g.get .modelId := by
  unfold infer
  dsimp only
  rw [get_inferMemory, get_inferTools, inferModelId_of_set, get_inferProvider _ _ (by decide),
    get_inferFramework _ _ (by decide) (by decide)]
  rw [explicitlySet_inferProvider _ _ (by decide),
    explicitlySet_inferFramework _ _ (by decide) (by decide)]
  exact h

/-- The dependencies pick the one framework that sets the provider. -/
def PicksOpenaiAgents (deps : List Dependency) : Prop :=
  (∃ d ∈ deps, d.name = "openai-agents" ∨ d.name = "openai-swarm")
    ∧ ∀ d ∈ deps, d.name ∉ ["google-adk", "google-agents-cli", "agents-cli", "langgraph",
      "langchain"] ∧ ¬ "langchain-".toList <+: d.name.toList

instance (deps : List Dependency) : Decidable (PicksOpenaiAgents deps) :=
  inferInstanceAs (Decidable (_ ∧ _))

theorem firstRule_cons {α : Type} (deps : List Dependency) (a : α) (p : String → Bool)
    (rules : List (α × (String → Bool))) : firstRule deps ((a, p) :: rules)
      = ((deps.find? fun d => p d.name).map fun d => (a, d)).or (firstRule deps rules) :=
  findSome?_cons_or _ _ _

theorem picksOpenaiAgents_iff (deps : List Dependency) : PicksOpenaiAgents deps
    ↔ ∃ framework dep, firstRule deps frameworkRules = some ((framework, true), dep) := by
  constructor
  · rintro ⟨⟨d, hd, hname⟩, hnone⟩
    have hadk : (deps.find? fun d => decide (d.name = "google-adk" ∨ d.name = "google-agents-cli"
        ∨ d.name = "agents-cli")) = none := by
      rw [List.find?_eq_none]
      intro x hx
      have := (hnone x hx).1
      simp only [List.mem_cons, List.not_mem_nil, or_false, not_or] at this
      simp [this]
    have hgraph : (deps.find? fun d => decide (d.name = "langgraph")) = none := by
      rw [List.find?_eq_none]
      intro x hx
      have := (hnone x hx).1
      simp only [List.mem_cons, List.not_mem_nil, or_false, not_or] at this
      simp [this]
    have hchain : (deps.find? fun d => decide (d.name = "langchain"
        ∨ "langchain-".toList <+: d.name.toList)) = none := by
      rw [List.find?_eq_none]
      intro x hx hmatch
      have hno := hnone x hx
      simp only [List.mem_cons, List.not_mem_nil, or_false, not_or] at hno
      rw [decide_eq_true_eq] at hmatch
      exact hmatch.elim hno.1.2.2.2.2 hno.2
    cases hagents : deps.find? fun d => decide (d.name = "openai-agents"
        ∨ d.name = "openai-swarm") with
    | none => exact absurd (decide_eq_true hname) (List.find?_eq_none.mp hagents d hd)
    | some e =>
        refine ⟨"openai-agents", e, ?_⟩
        unfold frameworkRules
        rw [firstRule_cons, hadk, firstRule_cons, hgraph, firstRule_cons, hchain, firstRule_cons,
          hagents]
        rfl
  · rintro ⟨framework, dep, h⟩
    unfold frameworkRules at h
    rw [firstRule_cons, firstRule_cons, firstRule_cons, firstRule_cons] at h
    cases hadk : deps.find? fun d => decide (d.name = "google-adk" ∨ d.name = "google-agents-cli"
        ∨ d.name = "agents-cli") with
    | some d =>
        rw [hadk] at h
        cases h
    | none =>
        cases hgraph : deps.find? fun d => decide (d.name = "langgraph") with
        | some d =>
            rw [hadk, hgraph] at h
            cases h
        | none =>
            cases hchain : deps.find? fun d => decide (d.name = "langchain"
                ∨ "langchain-".toList <+: d.name.toList) with
            | some d =>
                rw [hadk, hgraph, hchain] at h
                cases h
            | none =>
                cases hagents : deps.find? fun d => decide (d.name = "openai-agents"
                    ∨ d.name = "openai-swarm") with
                | none =>
                    -- the rules that are left set no provider
                    rw [hadk, hgraph, hchain, hagents] at h
                    simp only [Option.map_none, Option.none_or, firstRule_cons] at h
                    cases hcrew : deps.find? fun d => decide (d.name = "crewai") <;>
                      cases hindex : deps.find? fun d => decide (d.name = "llama-index") <;>
                      rw [hcrew, hindex] at h <;> cases h
                | some e =>
                    have hmem := List.mem_of_find?_eq_some hagents
                    have hname := List.find?_some hagents
                    rw [decide_eq_true_eq] at hname
                    refine ⟨⟨e, hmem, hname⟩, fun d hd => ?_⟩
                    have h₁ := List.find?_eq_none.mp hadk d hd
                    have h₂ := List.find?_eq_none.mp hgraph d hd
                    have h₃ := List.find?_eq_none.mp hchain d hd
                    rw [decide_eq_true_eq, not_or] at h₁ h₃
                    rw [decide_eq_true_eq] at h₂
                    rw [not_or] at h₁
                    simp only [List.mem_cons, List.not_mem_nil, or_false, not_or]
                    exact ⟨⟨h₁.1, h₁.2.1, h₁.2.2, h₂, h₃.1⟩, h₃.2⟩

theorem picksOpenaiAgents_congr {deps deps' : List Dependency} (h : deps.Perm deps') :
    PicksOpenaiAgents deps ↔ PicksOpenaiAgents deps' := by
  unfold PicksOpenaiAgents
  simp only [h.mem_iff]

/-- **The provider that was set is kept, unless the framework that sets it is picked.** -/
theorem get_infer_provider {deps : List Dependency} {g : DetectedGenome}
    (h : explicitlySet g ScalarField.modelProvider.name = true)
    (hsources : ∀ d ∈ deps, d.source ≠ .defaults) :
    (infer deps g).get .modelProvider
      = if explicitlySet g ScalarField.framework.name = false ∧ PicksOpenaiAgents deps
        then some "openai" else g.get .modelProvider := by
  have hperm := List.perm_insertionSort (fun a b : Dependency => a.name ≤ b.name) deps
  have hpicks := picksOpenaiAgents_congr hperm
  unfold infer
  dsimp only
  generalize deps.insertionSort (fun a b => a.name ≤ b.name) = sorted at hperm hpicks ⊢
  rw [get_inferMemory, get_inferTools, get_inferModelId _ (by decide)]
  by_cases hframework : explicitlySet g ScalarField.framework.name = true
  · rw [inferFramework_of_set _ hframework, inferProvider_of_set _ h, if_neg]
    rw [hframework]
    exact fun hand => Bool.false_ne_true hand.1.symm
  · have hframework' : explicitlySet g ScalarField.framework.name = false :=
      Bool.eq_false_iff.mpr hframework
    have hunfold : inferFramework sorted g = _ := if_neg hframework
    have hkept : ∀ s v e, explicitlySet (g.write s .framework v e)
        ScalarField.modelProvider.name = true := by
      intro s v e
      rw [explicitlySet_write, if_neg (by decide)]
      exact h
    by_cases hpick : PicksOpenaiAgents deps
    · obtain ⟨framework, dep, hrule⟩ := (picksOpenaiAgents_iff sorted).mp (hpicks.mpr hpick)
      rw [if_pos ⟨hframework', hpick⟩, hunfold, hrule]
      dsimp only
      have hdep : dep.source ≠ .defaults := by
        refine hsources dep (hperm.mem_iff.mp ?_)
        obtain ⟨rule, -, hmap⟩ := List.exists_of_findSome?_eq_some hrule
        obtain ⟨d, hfind, heq⟩ := Option.map_eq_some_iff.mp hmap
        have hd : d = dep := congrArg Prod.snd heq
        exact hd ▸ List.mem_of_find?_eq_some hfind
      rw [if_pos rfl, inferProvider_of_set]
      · exact (DetectedGenome.get_write ..).trans (if_pos rfl)
      · unfold setProvider
        rw [explicitlySet_write, if_pos rfl]
        exact decide_eq_true hdep
    · rw [if_neg fun hand => hpick hand.2, hunfold]
      cases hrule : firstRule sorted frameworkRules with
      | none =>
          dsimp only
          rw [inferProvider_of_set _ (hkept _ _ _), DetectedGenome.get_write, if_neg (by decide)]
      | some found =>
          obtain ⟨⟨framework, setsOpenai⟩, dep⟩ := found
          cases setsOpenai with
          | true =>
              exact absurd (hpicks.mp ((picksOpenaiAgents_iff sorted).mpr ⟨framework, dep, hrule⟩))
                hpick
          | false =>
              dsimp only
              rw [if_neg Bool.false_ne_true, inferProvider_of_set _ (hkept _ _ _),
                DetectedGenome.get_write, if_neg (by decide)]

/-! ## The tools -/

instance : IsTrans FoundTool fun a b => ToolEntry.le a.1 b.1 := by
  refine ⟨fun a b c hab hbc => ?_⟩
  rcases hab with hab | ⟨hab, hname⟩
  · rcases hbc with hbc | ⟨hbc, -⟩
    · exact .inl (hab.trans hbc)
    · exact .inl (hbc ▸ hab)
  · rcases hbc with hbc | ⟨hbc, hname'⟩
    · exact .inl (hab ▸ hbc)
    · exact .inr ⟨hab.trans hbc, hname.trans hname'⟩

instance : Std.Total fun a b : FoundTool => ToolEntry.le a.1 b.1 := by
  refine ⟨fun a b => ?_⟩
  rcases lt_trichotomy a.1.kind.ctorIdx b.1.kind.ctorIdx with hlt | heq | hgt
  · exact .inl (.inl hlt)
  · rcases le_total a.1.name b.1.name with hle | hle
    · exact .inl (.inr ⟨heq, hle⟩)
    · exact .inr (.inr ⟨heq.symm, hle⟩)
  · exact .inr (.inl hgt)

theorem ctorIdx_injective : Function.Injective ToolKind.ctorIdx := by
  intro a b h
  cases a <;> cases b <;> first | rfl | cases h

theorem sameTool_iff (a b : FoundTool) :
    SameTool a b ↔ ToolEntry.le a.1 b.1 ∧ ToolEntry.le b.1 a.1 := by
  unfold SameTool ToolEntry.le
  constructor
  · rintro ⟨hname, hkind⟩
    rw [hname, hkind]
    exact ⟨.inr ⟨rfl, le_rfl⟩, .inr ⟨rfl, le_rfl⟩⟩
  · rintro ⟨hab | ⟨hkind, hab⟩, hba | ⟨hkind', hba⟩⟩
    · exact absurd hba hab.asymm
    · exact absurd (hkind' ▸ hab) (lt_irrefl _)
    · exact absurd (hkind ▸ hba) (lt_irrefl _)
    · exact ⟨le_antisymm hab hba, ctorIdx_injective hkind⟩

/-- The tool that is left of a name is that of the first dependency of the name. -/
theorem find?_foundTools (deps : List Dependency) {x : FoundTool}
    (hx : toolKind x.1.name = some x.1.kind) :
    (foundTools (deps.insertionSort fun a b => a.name ≤ b.name)).find? (fun y => SameTool x y)
      = (deps.find? fun d => d.name = x.1.name).bind foundTool := by
  have hclass : ∀ a b, SameTool a b → decide (SameTool x a) = decide (SameTool x b) := by
    intro a b hab
    refine decide_eq_decide.mpr ⟨fun h => ⟨h.1.trans hab.1, h.2.trans hab.2⟩, fun h => ?_⟩
    exact ⟨h.1.trans hab.1.symm, h.2.trans hab.2.symm⟩
  have hle : ∀ a b, decide (SameTool x a) = true → decide (SameTool x b) = true →
      ToolEntry.le a.1 b.1 := by
    intro a b ha hb
    rw [decide_eq_true_eq] at ha hb
    exact ((sameTool_iff a b).mp ⟨ha.1.symm.trans hb.1, ha.2.symm.trans hb.2⟩).1
  have hany : ∀ d, (foundTool d).any (fun y => decide (SameTool x y))
      = decide (d.name = x.1.name) := by
    intro d
    unfold foundTool SameTool
    by_cases hname : d.name = x.1.name
    · rw [hname, hx]
      simp
    · rw [decide_eq_false hname]
      cases toolKind d.name <;> simp [Ne.symm hname]
  unfold foundTools
  rw [find?_destutter hclass, find?_insertionSort hle, List.find?_filterMap]
  simp only [hany]
  rw [find?_insertionSort]
  intro a b ha hb
  rw [decide_eq_true_eq] at ha hb
  exact le_of_eq (ha.trans hb.symm)

theorem foundTool_eq_some {d : Dependency} {x : FoundTool} (h : foundTool d = some x) :
    x.1.name = d.name ∧ toolKind x.1.name = some x.1.kind ∧ x.1.version = d.version := by
  obtain ⟨kind, hkind, rfl⟩ := Option.map_eq_some_iff.mp h
  exact ⟨rfl, hkind, rfl⟩

/-- **What the tools are**: of every allow-listed name that is declared, the first declaration. -/
theorem mem_tools_iff (deps : List Dependency) (g : DetectedGenome) (t : ToolEntry) :
    t ∈ (infer deps g).tools ↔ ∃ d, deps.find? (fun d => d.name = t.name) = some d
      ∧ toolKind t.name = some t.kind ∧ t.version = d.version := by
  have htools : (infer deps g).tools
      = (foundTools (deps.insertionSort fun a b => a.name ≤ b.name)).map Prod.fst := by
    unfold infer inferMemory
    dsimp only
    split <;> rfl
  rw [htools, List.mem_map]
  constructor
  · rintro ⟨x, hx, rfl⟩
    have hself := find?_of_mem_destutter sameTool_iff (fun a => ⟨rfl, rfl⟩)
      (List.pairwise_insertionSort (fun a b : FoundTool => ToolEntry.le a.1 b.1) _) hx
    have hmem := (List.destutter_sublist _ _).subset hx
    rw [(List.perm_insertionSort _ _).mem_iff, List.mem_filterMap] at hmem
    obtain ⟨d₀, -, hfound₀⟩ := hmem
    have hkind := (foundTool_eq_some hfound₀).2.1
    have hfirst := (find?_foundTools deps hkind).symm.trans hself
    obtain ⟨d, hd, hfound⟩ := Option.bind_eq_some_iff.mp hfirst
    exact ⟨d, hd, hkind, (foundTool_eq_some hfound).2.2⟩
  · rintro ⟨d, hd, hkind, hversion⟩
    have hname : d.name = t.name := by
      have := List.find?_some hd
      rwa [decide_eq_true_eq] at this
    have hfound : foundTool d = some (t, d.source, depEvidence d) := by
      unfold foundTool
      rw [hname, hkind, ← hversion]
      rfl
    have hfirst := find?_foundTools deps
      (show toolKind ((t, d.source, depEvidence d) : FoundTool).1.name = some t.kind from hkind)
    rw [hd, Option.bind_some, hfound] at hfirst
    exact ⟨_, List.mem_of_find?_eq_some hfirst, rfl⟩

/-! ## Precedence -/

variable (env : TextEnv) (c : Contents)

/-- The source of highest precedence wins: every field it has a value for has that value, and every
tool the version of a declaration in the highest manifest that declares it. -/
structure Precedence (g : DetectedGenome) : Prop where
  scalars : ∀ f v, highest env c f = some v → g.get f = some v
  tools : ∀ t ∈ g.tools, ∃ d ∈ dependencies env c, d.name = t.name ∧ d.version = t.version
    ∧ ∀ e ∈ dependencies env c, e.name = t.name → e.source.rank ≤ d.source.rank

/-- What precedence needs: no dependency that picks `openai-agents` where `agenomic.yaml` sets
another provider and no framework, and no allow-listed dependency whose first declaration has
another version than the highest manifest. -/
structure Undisturbed : Prop where
  provider : ¬ (supplies env c .agenomicYaml .framework = none
    ∧ PicksOpenaiAgents (dependencies env c)
    ∧ ∃ v, supplies env c .agenomicYaml .modelProvider = some v ∧ v ≠ "openai")
  tools : ∀ d, toolKind d.name ≠ none →
    (dependencies env c).find? (fun e => e.name = d.name) = some d →
    ∃ e ∈ dependencies env c, e.name = d.name ∧ e.version = d.version
      ∧ ∀ e' ∈ dependencies env c, e'.name = d.name → e'.source.rank ≤ e.source.rank

theorem source_dependencies : ∀ d ∈ dependencies env c, d.source ≠ .defaults := by
  intro d hd
  unfold dependencies at hd
  rw [List.mem_append, List.mem_append] at hd
  rcases hd with (hd | hd) | hd
  · obtain ⟨cargo, -, hd⟩ := List.mem_flatMap.mp hd
    obtain ⟨entry, -, rfl⟩ := List.mem_map.mp hd
    exact Source.noConfusion
  · obtain ⟨pkg, -, hd⟩ := List.mem_flatMap.mp hd
    obtain ⟨entry, -, rfl⟩ := List.mem_map.mp hd
    exact Source.noConfusion
  · obtain ⟨project, -, hd⟩ := List.mem_flatMap.mp hd
    obtain ⟨req, -, hreq⟩ := List.mem_filterMap.mp hd
    obtain ⟨r, -, rfl⟩ := Option.map_eq_some_iff.mp hreq
    exact Source.noConfusion

/-- Texts of ASCII letters, and no JSON. -/
def asciiEnv : TextEnv := ⟨fun c => [c.toUpper], fun s => String.ofList (s.toList.map Char.toLower),
  fun _ => none⟩

/-- A repository whose `agenomic.yaml` sets the provider, with some dependencies. -/
def azureRepo (packageJson : List (String × String)) (pyproject : List String) : Contents where
  git := none
  readme := none
  goMod := none
  cargo := none
  packageJson := some ⟨none, none, packageJson, []⟩
  pyproject := some (some ⟨none, none, [], pyproject, []⟩)
  dockerfile := none
  agenomicYaml := some (.object [("runtime", .object [("model_provider", .string "azure")])])

end Agenomic.Detect
