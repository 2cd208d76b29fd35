import Agenomic.Detect.Orchestration
import Agenomic.Lib.Split

/-!
# What the numbering of repeated slugs keeps apart

A slug that is used again is numbered, but the numbered slug is not compared with the slugs
that were found as they are. So the slugs of the detected workflows are distinct exactly
when no workflow was found under another's numbered slug. Then each workflow has its
file, and the index of `system.yaml` one entry a file. Otherwise two workflows share one,
and the second is not written or replaces the first.
-/

namespace Agenomic.Detect

open Lib

/-- The number is read off the suffixed slug from its last dash on. -/
theorem suffixed_injective : SuffixInjective suffixed := by
  intro a b m n h
  have hlist := congrArg (fun s => s.toList.reverse) h
  simp only [suffixed, String.toList_append, String.toList_ofList, List.reverse_append,
    String.reduceToList, List.reverse_cons, List.reverse_nil, List.nil_append,
    List.cons_append] at hlist
  have hdash : ∀ k, '-' ∉ (decimal k).reverse := by
    intro k hmem
    have := decimal_isDigit (List.mem_reverse.mp hmem)
    exact absurd this (by decide)
  obtain ⟨hnumber, hslug⟩ := (append_cons_inj_of_notMem_left (hdash m) (hdash n)).mp hlist
  refine ⟨String.ext (List.reverse_injective hslug), ?_⟩
  have := congrArg ofDecimal (List.reverse_injective hnumber)
  rwa [ofDecimal_decimal, ofDecimal_decimal] at this

theorem suffixed_ne (slug : String) (n : Nat) : suffixed slug n ≠ slug := by
  intro h
  have hlength := congrArg (fun s => s.toList.length) h
  simp only [suffixed, String.toList_append, List.length_append, String.reduceToList,
    List.length_cons] at hlength
  omega

/-- The renamed slugs are the found ones, numbered. -/
theorem map_slug_disambiguate (seen : String → Nat) (workflows : List DetectedWorkflow) :
    (disambiguate seen workflows).map (·.slug) =
      numbered suffixed seen (workflows.map (·.slug)) := by
  induction workflows generalizing seen with
  | nil => rfl
  | cons wf rest ih =>
      rw [disambiguate, List.map_cons, List.map_cons, numbered, ih]
      unfold nameOfUse
      by_cases hrepeat : 1 < seen wf.slug + 1
      · rw [if_pos hrepeat, if_pos hrepeat]
      · rw [if_neg hrepeat, if_neg hrepeat]

theorem map_slug_propagateSignals (signals : List String) (workflows : List DetectedWorkflow) :
    (propagateSignals signals workflows).map (·.slug) = workflows.map (·.slug) := by
  unfold propagateSignals
  rw [List.map_map]
  refine List.map_congr_left fun wf _ => ?_
  show (if wf.engine = "temporal" ∧ wf.signals = [] then { wf with signals } else wf).slug = wf.slug
  by_cases htemporal : wf.engine = "temporal" ∧ wf.signals = []
  · rw [if_pos htemporal]
  · rw [if_neg htemporal]

/-! ## Writing the manifests -/

theorem workflowPath_injective : Function.Injective workflowPath := by
  intro a b h
  have hlist := congrArg String.toList h
  simp only [workflowPath, String.toList_append] at hlist
  exact String.ext (List.append_cancel_left (List.append_cancel_right hlist))

theorem workflowPath_ne_system (slug : String) : workflowPath slug ≠ "system.yaml" := by
  intro h
  have hlist := congrArg String.toList h
  simp only [workflowPath, String.toList_append, String.reduceToList, List.cons_append] at hlist
  exact absurd (List.cons.inj hlist).1 (by decide)

/-- What one manifest's writing leaves: the file as it was when it is kept, the new text
otherwise, and every other file as it was. -/
theorem files_emit {w w' : Written} {force : Bool} {path text : String}
    (h : w.emit force path text = some w') :
    w'.index = w.index ∧
      w'.dir.files path = some ((if force then none else w.dir.files path).getD text) ∧
      ∀ other, other ≠ path → w'.dir.files other = w.dir.files other := by
  unfold Written.emit at h
  by_cases hwrite : (force || (w.dir.files path).isNone) = true
  · rw [if_pos hwrite] at h
    obtain ⟨dir, hdir, rfl⟩ := Option.map_eq_some_iff.mp h
    unfold BundleDir.write at hdir
    by_cases hrefused : w.dir.refused path = true
    · rw [if_pos hrefused] at hdir
      cases hdir
    rw [if_neg hrefused] at hdir
    cases hdir
    refine ⟨rfl, ?_, fun other hother => Function.update_of_ne hother _ _⟩
    show Function.update w.dir.files path (some text) path = _
    rw [Function.update_self]
    cases force with
    | true => rfl
    | false =>
        have hnone : w.dir.files path = none := by simpa using hwrite
        rw [if_neg Bool.false_ne_true, hnone]
        rfl
  · rw [if_neg hwrite] at h
    cases h
    refine ⟨rfl, ?_, fun _ _ => rfl⟩
    cases force with
    | true => exact absurd rfl hwrite
    | false =>
        obtain ⟨old, hold⟩ : ∃ old, w.dir.files path = some old := by
          cases hfile : w.dir.files path with
          | none => rw [hfile] at hwrite; exact absurd rfl hwrite
          | some old => exact ⟨old, rfl⟩
        rw [hold]
        rfl

/-- **With distinct slugs every workflow ends up in its own file.** -/
theorem files_foldlM_writeWorkflow {agentId : String} {multi force : Bool} :
    ∀ {workflows : List DetectedWorkflow} {w w' : Written},
      (workflows.map (·.slug)).Nodup →
      workflows.foldlM (writeWorkflow agentId multi force) w = some w' →
      w'.index = w.index ++ workflows.map (fun wf => (wf.slug, workflowPath wf.slug)) ∧
        (∀ wf ∈ workflows, w'.dir.files (workflowPath wf.slug) =
          some ((if force then none else w.dir.files (workflowPath wf.slug)).getD
            (emitWorkflowYaml wf agentId multi))) ∧
        ∀ path, path ∉ workflows.map (fun wf => workflowPath wf.slug) →
          w'.dir.files path = w.dir.files path := by
  intro workflows
  induction workflows with
  | nil =>
      intro w w' _ h
      cases h
      exact ⟨(List.append_nil _).symm, fun wf hwf => absurd hwf (List.not_mem_nil),
        fun _ _ => rfl⟩
  | cons wf rest ih =>
      intro w w' hnodup h
      rw [List.map_cons, List.nodup_cons] at hnodup
      obtain ⟨w₁, hwrite, hrest⟩ := Option.bind_eq_some_iff.mp h
      obtain ⟨hindex, hfile, hother⟩ := files_emit hwrite
      obtain ⟨hindex', hfiles', hother'⟩ := ih hnodup.2 hrest
      -- the file of this workflow is none of the later ones'
      have hapart : ∀ wf' ∈ rest, workflowPath wf'.slug ≠ workflowPath wf.slug := by
        intro wf' hwf' heq
        have := workflowPath_injective heq
        exact hnodup.1 (this ▸ List.mem_map_of_mem hwf')
      refine ⟨?_, ?_, ?_⟩
      · rw [hindex', hindex, List.map_cons, List.append_assoc]
        rfl
      · intro wf' hwf'
        rcases List.mem_cons.mp hwf' with rfl | hwf'
        · rw [hother', hfile]
          intro hmem
          obtain ⟨wf₂, hwf₂, heq⟩ := List.mem_map.mp hmem
          exact hapart wf₂ hwf₂ heq
        · rw [hfiles' wf' hwf', hother _ (hapart wf' hwf')]
      · intro path hpath
        rw [List.map_cons, List.mem_cons, not_or] at hpath
        rw [hother' path hpath.2, hother path hpath.1]

/-- No workflow is lost: the slugs are distinct, and however the manifests are written, each
workflow has its own file, an older one being kept unless forced, the index has one entry
for each file, and a forced `system.yaml` lists that index. -/
def Kept (workflows : List DetectedWorkflow) : Prop :=
  (workflows.map (·.slug)).Nodup ∧
    ∀ dir system agentId force w,
      writeOrchestration dir workflows system agentId force = some w →
        (∀ wf ∈ workflows, w.dir.files (workflowPath wf.slug) =
          some ((if force then none else dir.files (workflowPath wf.slug)).getD
            (emitWorkflowYaml wf agentId system.isSome))) ∧
        w.index = workflows.map (fun wf => (wf.slug, workflowPath wf.slug)) ∧
        (w.index.map Prod.snd).Nodup ∧
        ∀ sys, system = some sys → w.dir.files "system.yaml" =
          some ((if force then none else dir.files "system.yaml").getD
            (emitSystemYaml sys agentId w.index))

theorem kept_of_nodup {workflows : List DetectedWorkflow}
    (hnodup : (workflows.map (·.slug)).Nodup) : Kept workflows := by
  refine ⟨hnodup, ?_⟩
  intro dir system agentId force w h
  obtain ⟨w₁, hworkflows, hsystem⟩ := Option.bind_eq_some_iff.mp h
  obtain ⟨hindex, hfiles, hother⟩ := files_foldlM_writeWorkflow hnodup hworkflows
  rw [List.nil_append] at hindex
  have hpaths : (w₁.index.map Prod.snd).Nodup := by
    rw [hindex, List.map_map]
    have := hnodup.map workflowPath_injective
    rwa [List.map_map] at this
  cases system with
  | none =>
      cases hsystem
      exact ⟨hfiles, hindex, hpaths, fun sys hsys => nomatch hsys⟩
  | some sys =>
      obtain ⟨hindex₁, hfile₁, hother₁⟩ := files_emit hsystem
      refine ⟨?_, by rw [hindex₁, hindex], by rw [hindex₁]; exact hpaths, ?_⟩
      · intro wf hwf
        rw [hother₁ _ (workflowPath_ne_system wf.slug), hfiles wf hwf]
      · intro sys' hsys
        cases hsys
        rw [hfile₁, hindex₁, hother "system.yaml"]
        intro hmem
        obtain ⟨wf, _, heq⟩ := List.mem_map.mp hmem
        exact workflowPath_ne_system wf.slug heq

/-- **No workflow is lost exactly when none was found under another's numbered slug.** -/
theorem kept_iff (signals : List String) (found : List Found) :
    Kept (detectWorkflows signals found) ↔
      ∀ slug n, 2 ≤ n → n ≤ (found.map (·.workflow.slug)).count slug →
        suffixed slug n ∉ found.map (·.workflow.slug) := by
  have hslugs : (detectWorkflows signals found).map (·.slug) =
      numbered suffixed (fun _ => 0) (found.map (·.workflow.slug)) := by
    unfold detectWorkflows
    rw [map_slug_disambiguate, map_slug_propagateSignals, List.map_map]
    rfl
  rw [← nodup_numbered_iff suffixed_injective suffixed_ne, ← hslugs]
  constructor
  · intro h
    exact h.1
  · exact kept_of_nodup

/-- Two builders of one name in two files, and a third builder whose name reads as the
second one's numbered slug: the first manifest is taken for the third workflow's. -/
theorem not_kept_numbered_name :
    ¬ Kept (detectWorkflows []
      [ .builder "build_claim_2_graph" "agents.py" ["a"] [] none,
        .builder "build_claim_graph" "agents.py" ["b"] [] none,
        .builder "build_claim_graph" "more.py" ["c"] [] none ]) := by
  intro h
  exact absurd h.1 (by decide +kernel)

end Agenomic.Detect
