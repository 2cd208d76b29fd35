import Agenomic.Detect.Sources
import Agenomic.Lib.Sorted

/-!
# Writing lowest first

`supplies` says what each source has for a field, `highest` what the source of highest
precedence has. The sources write in the order of precedence, and the Dockerfile only
where nothing was written; so before the inference every field has its highest value
(**`get_highest`**), and of the fields the inference may set those count as set that
`agenomic.yaml` has (`explicitlySet_chain`).
-/

namespace Agenomic.Detect

open Lib Prompt

/-! ## What the sources have -/

variable (env : TextEnv) (c : Contents)

/-- The value a source has for a field. -/
def supplies : Source → ScalarField → Option String
  | .git, .agentId => (c.git.bind parseOrgRepo).map ("agent://" ++ ·)
  | .readme, .agentName => c.readme.bind firstH1
  | .readme, .description => c.readme.bind firstParagraph
  | .goMod, .runtimeKind => c.goMod.map fun _ => "go"
  | .goMod, .agentName => c.goMod.bind moduleName
  | .cargo, .runtimeKind => c.cargo.map fun _ => "rust"
  | .cargo, .agentName => ((c.cargo.bind CargoToml.package).bind CargoPackage.name).bind nonEmpty
  | .cargo, .description =>
      ((c.cargo.bind CargoToml.package).bind CargoPackage.description).bind nonEmpty
  | .packageJson, .runtimeKind => c.packageJson.map fun _ => "node"
  | .packageJson, .agentName => (c.packageJson.bind PackageJson.name).bind nonEmpty
  | .packageJson, .description => (c.packageJson.bind PackageJson.description).bind nonEmpty
  | .pyproject, .runtimeKind => c.pyproject.join.map fun _ => "python"
  | .pyproject, .agentName => (c.pyproject.join.bind Project.name).bind nonEmpty
  | .pyproject, .description =>
      ((c.pyproject.join.bind Project.description).map trimText).bind nonEmpty
  | .pyproject, .entrypoint => c.pyproject.join.bind scriptTarget
  | .dockerfile, .entrypoint =>
      ((c.dockerfile.bind (parseEntrypoint env)).join).bind nonEmpty
  | .agenomicYaml, f => c.agenomicYaml.bind fun value => nestedStr value f.yamlPath
  | _, _ => none

/-- The sources of a field, highest precedence first; the Dockerfile has an entrypoint only if
nothing else has. -/
def sourcesOf : ScalarField → List Source
  | .entrypoint =>
      [.agenomicYaml, .pyproject, .packageJson, .cargo, .goMod, .readme, .git, .dockerfile]
  | _ => [.agenomicYaml, .dockerfile, .pyproject, .packageJson, .cargo, .goMod, .readme, .git]

/-- The value of the source of highest precedence that has one. -/
def highest (f : ScalarField) : Option String := (sourcesOf f).findSome? fun s => supplies env c s f

/-- The dependencies, in the order they are collected in. -/
def dependencies : List Dependency :=
  (c.cargo.toList.flatMap (cargoDeps env)) ++ (c.packageJson.toList.flatMap (packageJsonDeps env))
    ++ c.pyproject.join.toList.flatMap pyprojectDeps

/-- The contents of the sources that are consulted. -/
def Contents.consulted (opts : DetectOptions) (c : Contents) : Contents where
  git := if opts.consults .git then c.git else none
  readme := if opts.consults .readme then c.readme else none
  goMod := if opts.consults .goMod then c.goMod else none
  cargo := if opts.consults .cargo then c.cargo else none
  packageJson := if opts.consults .packageJson then c.packageJson else none
  pyproject := if opts.consults .pyproject then c.pyproject else none
  dockerfile := if opts.consults .dockerfile then c.dockerfile else none
  agenomicYaml := if opts.consults .agenomicYaml then c.agenomicYaml else none

/-- Detection from some sources, or from all, and nothing else. -/
def DetectOptions.of (only : Option (List Source)) : DetectOptions := ⟨only, false, none, none⟩

/-! ## Writes -/

namespace DetectedGenome

variable {g : DetectedGenome}

theorem get_set (f f' : ScalarField) (v : String) :
    (g.set f v).get f' = if f' = f then some v else g.get f' := by
  cases f <;> cases f' <;> rfl

theorem get_record (s : Source) (field v e : String) (f : ScalarField) :
    (g.record s field v e).get f = g.get f := by
  cases f <;> rfl

theorem get_write (s : Source) (f f' : ScalarField) (v e : String) :
    (g.write s f v e).get f' = if f' = f then some v else g.get f' := by
  unfold write
  rw [get_record, get_set]

theorem get_writeSome (s : Source) (f f' : ScalarField) (v : Option String) (e : String) :
    (g.writeSome s f v e).get f' = if f' = f then v.or (g.get f') else g.get f' := by
  cases v with
  | none =>
      show g.get f' = _
      rw [Option.none_or, ite_self]
  | some v =>
      show (g.write s f v e).get f' = _
      rw [get_write, Option.some_or]

end DetectedGenome

theorem sourceOf_record (g : DetectedGenome) (s : Source) (field v e field' : String) :
    sourceOf (g.record s field v e) field'
      = if field' = field then some s else sourceOf g field' := by
  unfold sourceOf DetectedGenome.record
  dsimp only
  rw [List.find?_append]
  by_cases h : field' = field
  · have hnone : (g.evidence.filter fun e => e.field ≠ field).find? (fun e => e.field = field')
        = none := by
      rw [List.find?_eq_none]
      intro e he
      have hne := (List.mem_filter.mp he).2
      simpa [h] using hne
    rw [hnone, if_pos h, h]
    simp
  · have hfilter : (g.evidence.filter fun e => e.field ≠ field).find? (fun e => e.field = field')
        = g.evidence.find? fun e => e.field = field' := by
      rw [List.find?_filter]
      congr 1
      funext e
      by_cases he : e.field = field'
      · simp [he, h]
      · simp [he]
    rw [hfilter, if_neg h]
    have hlast : [(⟨field, v, s, e⟩ : Evidence)].find? (fun e => e.field = field') = none := by
      simp [Ne.symm h]
    rw [hlast, Option.or_none]

theorem name_injective : Function.Injective ScalarField.name := by
  intro f f' h
  cases f <;> cases f' <;> first | rfl | exact absurd h (by decide)

/-- Who set a field, after a write. -/
theorem sourceOf_write (g : DetectedGenome) (s : Source) (f f' : ScalarField) (v e : String) :
    sourceOf (g.write s f v e) f'.name = if f' = f then some s else sourceOf g f'.name := by
  unfold DetectedGenome.write
  rw [sourceOf_record, if_congr name_injective.eq_iff rfl rfl]
  cases f <;> rfl

theorem sourceOf_writeSome (g : DetectedGenome) (s : Source) (f f' : ScalarField)
    (v : Option String) (e : String) : sourceOf (g.writeSome s f v e) f'.name
      = if f' = f ∧ v.isSome then some s else sourceOf g f'.name := by
  cases v with
  | none => simp [DetectedGenome.writeSome]
  | some v =>
      show sourceOf (g.write s f v e) f'.name = _
      rw [sourceOf_write]
      simp

theorem get_setAuthors (authors : List String) (g : DetectedGenome) (f : ScalarField) :
    (setAuthors authors g).get f = g.get f := by
  unfold setAuthors
  split
  · rfl
  · cases f <;> rfl

theorem sourceOf_setAuthors (authors : List String) (g : DetectedGenome) (f : ScalarField) :
    sourceOf (setAuthors authors g) f.name = sourceOf g f.name := by
  unfold setAuthors
  split
  · rfl
  · refine (sourceOf_record g _ _ _ _ _).trans (if_neg ?_)
    cases f <;> decide

/-! ## The chain -/

theorem get_applyGit (g : DetectedGenome) (f : ScalarField) :
    (applyGit c g).get f = (supplies env c .git f).or (g.get f) := by
  rcases c with ⟨_ | url⟩
  · cases f <;> rfl
  · refine (DetectedGenome.get_writeSome ..).trans ?_
    cases f <;> rfl

theorem get_applyReadme (g : DetectedGenome) (f : ScalarField) :
    (applyReadme c g).get f = (supplies env c .readme f).or (g.get f) := by
  rcases c with ⟨_, _ | text⟩
  · cases f <;> rfl
  · refine (DetectedGenome.get_writeSome ..).trans ?_
    rw [DetectedGenome.get_writeSome]
    cases f <;> rfl

theorem get_applyGoMod (g : DetectedGenome) (f : ScalarField) :
    (applyGoMod c g).get f = (supplies env c .goMod f).or (g.get f) := by
  rcases c with ⟨_, _, _ | text⟩
  · cases f <;> rfl
  · refine (DetectedGenome.get_writeSome ..).trans ?_
    rw [DetectedGenome.get_write]
    cases f <;> rfl

theorem get_applyCargo (s : Detection) (f : ScalarField) :
    (applyCargo env c s).genome.get f = (supplies env c .cargo f).or (s.genome.get f) := by
  rcases c with ⟨_, _, _, _ | ⟨_ | pkg, deps⟩⟩
  · cases f <;> rfl
  · refine (DetectedGenome.get_write ..).trans ?_
    cases f <;> rfl
  · refine (DetectedGenome.get_writeSome ..).trans ?_
    rw [DetectedGenome.get_writeSome, DetectedGenome.get_write]
    cases f <;> rfl

theorem get_applyPackageJson (s : Detection) (f : ScalarField) :
    (applyPackageJson env c s).genome.get f
      = (supplies env c .packageJson f).or (s.genome.get f) := by
  rcases c with ⟨_, _, _, _, _ | pkg⟩
  · cases f <;> rfl
  · refine (DetectedGenome.get_writeSome ..).trans ?_
    rw [DetectedGenome.get_writeSome, DetectedGenome.get_write]
    cases f <;> rfl

theorem get_applyPyproject (s : Detection) (f : ScalarField) :
    (applyPyproject c s).genome.get f = (supplies env c .pyproject f).or (s.genome.get f) := by
  rcases c with ⟨_, _, _, _, _, _ | _ | project⟩
  · cases f <;> rfl
  · cases f <;> rfl
  · refine (DetectedGenome.get_writeSome ..).trans ?_
    rw [get_setAuthors, DetectedGenome.get_writeSome, DetectedGenome.get_writeSome,
      DetectedGenome.get_write]
    cases f <;> rfl

theorem get_applyAgenomicYaml (g : DetectedGenome) (f : ScalarField) :
    (applyAgenomicYaml c g).get f = (supplies env c .agenomicYaml f).or (g.get f) := by
  unfold applyAgenomicYaml
  cases hyaml : c.agenomicYaml with
  | none => cases f <;> simp [supplies, hyaml]
  | some value =>
      cases f <;> simp [supplies, hyaml, overlay, DetectedGenome.get_writeSome]

/-- The fields that only `agenomic.yaml` and the inference set. -/
def ScalarField.Inferred (f : ScalarField) : Prop :=
  f = .framework ∨ f = .modelProvider ∨ f = .modelId

theorem sourceOf_applyGit {f : ScalarField} (hf : f.Inferred) (g : DetectedGenome) :
    sourceOf (applyGit c g) f.name = sourceOf g f.name := by
  unfold applyGit
  cases c.git with
  | none => rfl
  | some url => rcases hf with rfl | rfl | rfl <;> simp [sourceOf_writeSome]

theorem sourceOf_applyReadme {f : ScalarField} (hf : f.Inferred) (g : DetectedGenome) :
    sourceOf (applyReadme c g) f.name = sourceOf g f.name := by
  unfold applyReadme
  cases c.readme with
  | none => rfl
  | some text => rcases hf with rfl | rfl | rfl <;> simp [sourceOf_writeSome]

theorem sourceOf_applyGoMod {f : ScalarField} (hf : f.Inferred) (g : DetectedGenome) :
    sourceOf (applyGoMod c g) f.name = sourceOf g f.name := by
  unfold applyGoMod
  cases c.goMod with
  | none => rfl
  | some text => rcases hf with rfl | rfl | rfl <;> simp [sourceOf_writeSome, sourceOf_write]

theorem sourceOf_applyCargo {f : ScalarField} (hf : f.Inferred) (s : Detection) :
    sourceOf (applyCargo env c s).genome f.name = sourceOf s.genome f.name := by
  unfold applyCargo
  cases c.cargo with
  | none => rfl
  | some cargo =>
      cases hpackage : cargo.package with
      | none => rcases hf with rfl | rfl | rfl <;> simp [hpackage, sourceOf_write]
      | some pkg =>
          rcases hf with rfl | rfl | rfl <;>
            simp [hpackage, sourceOf_writeSome, sourceOf_write]

theorem sourceOf_applyPackageJson {f : ScalarField} (hf : f.Inferred) (s : Detection) :
    sourceOf (applyPackageJson env c s).genome f.name = sourceOf s.genome f.name := by
  unfold applyPackageJson
  cases c.packageJson with
  | none => rfl
  | some pkg => rcases hf with rfl | rfl | rfl <;> simp [sourceOf_writeSome, sourceOf_write]

theorem sourceOf_applyPyproject {f : ScalarField} (hf : f.Inferred) (s : Detection) :
    sourceOf (applyPyproject c s).genome f.name = sourceOf s.genome f.name := by
  unfold applyPyproject
  split
  · rcases hf with rfl | rfl | rfl <;>
      simp [sourceOf_writeSome, sourceOf_write, sourceOf_setAuthors]
  · rfl

theorem sourceOf_applyDockerfile {f : ScalarField} (hf : f.Inferred) {g g' : DetectedGenome}
    (h : applyDockerfile env c g = some g') : sourceOf g' f.name = sourceOf g f.name := by
  unfold applyDockerfile at h
  split at h
  · cases h
    rfl
  · split at h
    · cases h
      rfl
    · obtain ⟨ep, -, rfl⟩ := Option.map_eq_some_iff.mp h
      rcases hf with rfl | rfl | rfl <;> simp [sourceOf_writeSome]

theorem sourceOf_applyAgenomicYaml (g : DetectedGenome) (f : ScalarField) :
    sourceOf (applyAgenomicYaml c g) f.name
      = if (supplies env c .agenomicYaml f).isSome then some .agenomicYaml
        else sourceOf g f.name := by
  unfold applyAgenomicYaml
  cases hyaml : c.agenomicYaml with
  | none => cases f <;> simp [supplies, hyaml]
  | some value => cases f <;> simp [supplies, hyaml, overlay, sourceOf_writeSome]

/-- A Dockerfile sets the entrypoint if it is not set, and nothing else. -/
theorem get_applyDockerfile {g g' : DetectedGenome} (h : applyDockerfile env c g = some g')
    (f : ScalarField) : (f ≠ .entrypoint → g'.get f = g.get f)
      ∧ (∀ v, (g.get .entrypoint).or (supplies env c .dockerfile .entrypoint) = some v →
        g'.get .entrypoint = some v) := by
  unfold applyDockerfile at h
  by_cases hset : g.entrypoint.isSome = true
  · rw [if_pos hset] at h
    cases h
    obtain ⟨ep, hep⟩ := Option.isSome_iff_exists.mp hset
    refine ⟨fun _ => rfl, fun v hv => ?_⟩
    rw [show g.get .entrypoint = some ep from hep, Option.some_or] at hv
    exact (show g.get .entrypoint = some ep from hep).trans hv
  · rw [if_neg hset] at h
    have hnone : g.get .entrypoint = none := Option.not_isSome_iff_eq_none.mp hset
    rw [hnone, Option.none_or]
    cases hdocker : c.dockerfile with
    | none =>
        rw [hdocker] at h
        cases h
        refine ⟨fun _ => rfl, fun v hv => ?_⟩
        rw [supplies, hdocker] at hv
        cases hv
    | some text =>
        rw [hdocker] at h
        obtain ⟨ep, hep, rfl⟩ := Option.map_eq_some_iff.mp h
        refine ⟨fun hf => ?_, fun v hv => ?_⟩
        · rw [DetectedGenome.get_writeSome, if_neg hf]
        · rw [supplies, hdocker, Option.bind_some, hep, Option.join_some] at hv
          rw [DetectedGenome.get_writeSome, if_pos rfl]
          cases ep with
          | none => cases hv
          | some ep =>
              unfold nonEmpty at hv
              rw [Option.bind_some] at hv
              split at hv
              · cases hv
              · exact hv

/-- The detection up to the manifests. -/
def manifests : Detection :=
  applyPyproject c (applyPackageJson env c (applyCargo env c
    ⟨applyGoMod c (applyReadme c (applyGit c .defaults)), []⟩))

theorem deps_manifests : (manifests env c).deps = dependencies env c := by
  unfold manifests dependencies applyPyproject applyPackageJson applyCargo
  cases c.cargo <;> cases c.packageJson <;> rcases c.pyproject with _ | _ | project <;> simp

theorem applySource_consulted (opts : DetectOptions) (source : Source) (s : Detection) :
    (if !opts.consults source then some s else applySource env c source s)
      = applySource env (c.consulted opts) source s := by
  by_cases hconsults : opts.consults source = true
  · rw [if_neg (by simp [hconsults])]
    cases source <;> simp [applySource, applyGit, applyReadme, applyGoMod, applyCargo,
      applyPackageJson, applyPyproject, applyDockerfile, applyAgenomicYaml, Contents.consulted,
      hconsults]
  · rw [if_pos (by simpa using hconsults)]
    cases source <;> simp [applySource, applyGit, applyReadme, applyGoMod, applyCargo,
      applyPackageJson, applyPyproject, applyDockerfile, applyAgenomicYaml, Contents.consulted,
      hconsults]

/-- A run is the manifests, the Dockerfile, `agenomic.yaml` and the inference. -/
theorem run_of (only : Option (List Source)) :
    run env c (.of only) = (applyDockerfile env (c.consulted (.of only))
        (manifests env (c.consulted (.of only))).genome).map fun g =>
      infer (dependencies env (c.consulted (.of only)))
        (applyAgenomicYaml (c.consulted (.of only)) g) := by
  unfold run
  simp only [applySource_consulted]
  generalize c.consulted (.of only) = c
  rw [← deps_manifests]
  unfold Source.precedence
  cases hdocker : applyDockerfile env c (manifests env c).genome with
  | none =>
      have h := hdocker
      unfold manifests at h
      simp [DetectOptions.of, applySource, h]
  | some g =>
      have h := hdocker
      unfold manifests at h
      simp [DetectOptions.of, applySource, h, applyOverrides, manifests]

theorem findSome?_cons_or {α β : Type} (f : α → Option β) (a : α) (l : List α) :
    (a :: l).findSome? f = (f a).or (l.findSome? f) := by
  rw [List.findSome?_cons]
  cases f a <;> rfl

theorem get_manifests (f : ScalarField) : (manifests env c).genome.get f
    = (supplies env c .pyproject f).or ((supplies env c .packageJson f).or
      ((supplies env c .cargo f).or ((supplies env c .goMod f).or
        ((supplies env c .readme f).or ((supplies env c .git f).or
          (DetectedGenome.defaults.get f)))))) := by
  unfold manifests
  rw [get_applyPyproject env, get_applyPackageJson, get_applyCargo, get_applyGoMod env,
    get_applyReadme env, get_applyGit env]

/-- Before the inference every field has its highest value. -/
theorem get_highest {g : DetectedGenome}
    (h : applyDockerfile env c (manifests env c).genome = some g) {f : ScalarField} {v : String}
    (hv : highest env c f = some v) :
    (applyAgenomicYaml c g).get f = some v := by
  obtain ⟨hother, hentrypoint⟩ := get_applyDockerfile env c h f
  rw [get_applyAgenomicYaml env]
  unfold highest at hv
  by_cases hf : f = .entrypoint
  · subst hf
    have hnone : ∀ s ∈ [Source.packageJson, .cargo, .goMod, .readme, .git],
        supplies env c s .entrypoint = none := by
      intro s hs
      simp only [List.mem_cons, List.not_mem_nil, or_false] at hs
      rcases hs with rfl | rfl | rfl | rfl | rfl <;> rfl
    simp only [sourcesOf, findSome?_cons_or, List.findSome?_nil, Option.or_none] at hv
    rw [hnone .packageJson (by simp), hnone .cargo (by simp), hnone .goMod (by simp),
      hnone .readme (by simp), hnone .git (by simp)] at hv
    have hget := get_manifests env c .entrypoint
    rw [hnone .packageJson (by simp), hnone .cargo (by simp), hnone .goMod (by simp),
      hnone .readme (by simp), hnone .git (by simp)] at hget
    have hget' : (manifests env c).genome.get .entrypoint
        = supplies env c .pyproject .entrypoint := hget.trans (Option.or_none ..)
    cases hyaml : supplies env c .agenomicYaml .entrypoint with
    | some w =>
        rw [hyaml, Option.some_or] at hv
        exact hv
    | none =>
        rw [hyaml, Option.none_or] at hv
        rw [Option.none_or]
        refine hentrypoint v ?_
        rw [hget']
        exact hv
  · -- the Dockerfile has nothing for the other fields
    have hdocker : supplies env c .dockerfile f = none := by
      cases f <;> first | rfl | exact absurd rfl hf
    have hsources : sourcesOf f = [.agenomicYaml, .dockerfile, .pyproject, .packageJson, .cargo,
        .goMod, .readme, .git] := by
      cases f <;> first | rfl | exact absurd rfl hf
    rw [hsources] at hv
    simp only [findSome?_cons_or, List.findSome?_nil, Option.or_none, hdocker,
      Option.none_or] at hv
    rw [hother hf, get_manifests, ← Option.or_assoc, ← Option.or_assoc, ← Option.or_assoc,
      ← Option.or_assoc, ← Option.or_assoc, ← Option.or_assoc]
    rw [← Option.or_assoc, ← Option.or_assoc, ← Option.or_assoc, ← Option.or_assoc,
      ← Option.or_assoc] at hv
    rw [hv, Option.some_or]

/-- Before the inference, the fields it may set count as set when `agenomic.yaml` has them. -/
theorem explicitlySet_chain {g : DetectedGenome}
    (h : applyDockerfile env c (manifests env c).genome = some g) {f : ScalarField}
    (hf : f.Inferred) : explicitlySet (applyAgenomicYaml c g) f.name
      = (supplies env c .agenomicYaml f).isSome := by
  have hsource : sourceOf g f.name = sourceOf .defaults f.name := by
    rw [sourceOf_applyDockerfile env c hf h]
    unfold manifests
    rw [sourceOf_applyPyproject c hf, sourceOf_applyPackageJson env c hf,
      sourceOf_applyCargo env c hf, sourceOf_applyGoMod c hf, sourceOf_applyReadme c hf,
      sourceOf_applyGit c hf]
  unfold explicitlySet
  rw [sourceOf_applyAgenomicYaml env, hsource]
  cases supplies env c .agenomicYaml f with
  | some v => rfl
  | none => rcases hf with rfl | rfl | rfl <;> decide

theorem highest_inferred {f : ScalarField} (hf : f.Inferred) :
    highest env c f = supplies env c .agenomicYaml f := by
  unfold highest
  have hnone : ∀ s, s ≠ .agenomicYaml → supplies env c s f = none := by
    intro s hs
    rcases hf with rfl | rfl | rfl <;> cases s <;> first | rfl | exact absurd rfl hs
  have hsources : ∃ rest, sourcesOf f = .agenomicYaml :: rest ∧ .agenomicYaml ∉ rest := by
    rcases hf with rfl | rfl | rfl <;> exact ⟨_, rfl, by decide⟩
  obtain ⟨rest, heq, hnot⟩ := hsources
  rw [heq, findSome?_cons_or]
  have hrest : rest.findSome? (fun s => supplies env c s f) = none :=
    List.findSome?_eq_none_iff.mpr fun s hs => hnone s (ne_of_mem_of_not_mem hs hnot)
  rw [hrest, Option.or_none]

end Agenomic.Detect
