import Agenomic.Prompt.Flat
import Agenomic.Prompt.RenderTotal

/-!
# Expansion is substitution in the source

The result of a rendering holds the templates with every fragment expanded. With these
in the places of its own templates, a content renders to the same texts and messages
without any fragment (`render_flat`).
-/

namespace Agenomic.Prompt

open Lib Value

variable {p : Primitives} {source : FragmentSource} {content : Value} {expanded : Expansions}
  {declared values given : Members}

/-! ## Tokens and entries -/

theorem renderTokens_plain (tokens : List Expanded) :
    renderTokens declared values (tokens.map Expanded.plain)
      = renderTokens declared values tokens := by
  unfold renderTokens
  rw [List.flatMap_map]
  refine List.flatMap_congr fun t _ => ?_
  cases t with
  | literal text => rfl
  | var name fragmentType => rfl

theorem tokensAt_plain (expanded : Expansions) (path : String) :
    tokensAt (plainExpansions expanded) path = (tokensAt expanded path).map Expanded.plain := by
  unfold tokensAt
  rw [lookup_plainExpansions]
  cases lookup path expanded with
  | none => rfl
  | some tokens => rfl

theorem renderText_plain (expanded : Expansions) :
    renderText declared values (plainExpansions expanded)
      = renderText declared values expanded := by
  unfold renderText
  dsimp only
  rw [tokensAt_plain, renderTokens_plain, expandedSource_plain]

/-- **An entry renders as it did, from the text that was printed.** -/
theorem renderEntry_printed (entry : Value × Nat) :
    renderEntry declared values (plainExpansions expanded) (printedEntry expanded entry, entry.2)
      = renderEntry declared values expanded entry := by
  unfold renderEntry
  dsimp only
  rw [get_printedEntry (by decide), get_printedEntry (by decide), placeholderName_printedEntry,
    tokensAt_plain, renderTokens_plain, expandedSource_plain]

theorem Valid.renderChat_printed (h : Valid p source content expanded)
    (hkind : strAt content "kind" = some "chat") (history : List Value) :
    renderChat declared values (plainExpansions expanded)
        (entriesOf (printedContent content expanded)) history
      = renderChat declared values expanded (entriesOf content) history := by
  have hentries : (entriesOf (printedContent content expanded)).zipIdx.map
        (renderEntry declared values (plainExpansions expanded))
      = (entriesOf content).zipIdx.map (renderEntry declared values expanded) := by
    rw [h.zipIdx_printed hkind, List.map_map]
    exact List.map_congr_left fun e _ => renderEntry_printed e
  unfold renderChat
  rw [hentries]

theorem Valid.systemContentsOf_printed (h : Valid p source content expanded)
    (hkind : strAt content "kind" = some "chat") :
    systemContentsOf declared values (plainExpansions expanded)
        (entriesOf (printedContent content expanded))
      = systemContentsOf declared values expanded (entriesOf content) := by
  unfold systemContentsOf
  rw [h.zipIdx_printed hkind, List.filterMap_map]
  refine List.filterMap_congr fun e _ => ?_
  show (renderEntry declared values (plainExpansions expanded)
    (printedEntry expanded e, e.2)).systemContent = _
  rw [renderEntry_printed]

/-! ## Placeholders -/

/-- The placeholders of a flat chat are those of the chat. -/
theorem Valid.placeholders_printed (h : Valid p source content expanded)
    (hkind : strAt content "kind" = some "chat") :
    (entriesOf (printedContent content expanded)).map (fun entry => entry.get "placeholder")
      = (entriesOf content).map fun entry => entry.get "placeholder" := by
  have hprinted : entriesOf (printedContent content expanded)
      = (entriesOf content).zipIdx.map (printedEntry expanded) := by
    rw [← List.zipIdx_map_fst 0 (entriesOf (printedContent content expanded)),
      h.zipIdx_printed hkind, List.map_map]
    rfl
  rw [hprinted, List.map_map]
  have hfst := List.zipIdx_map_fst 0 (entriesOf content)
  calc (entriesOf content).zipIdx.map ((fun entry => entry.get "placeholder") ∘ printedEntry expanded)
      = (entriesOf content).zipIdx.map fun e => e.1.get "placeholder" :=
        List.map_congr_left fun e _ => get_printedEntry (by decide)
    _ = ((entriesOf content).zipIdx.map Prod.fst).map fun entry => entry.get "placeholder" := by
        rw [List.map_map]
        rfl
    _ = (entriesOf content).map fun entry => entry.get "placeholder" := by rw [hfst]

/-- What looks at placeholders only. -/
theorem duplicateSystem_congr {entries entries' : List Value}
    (h : entries.map (fun entry => entry.get "placeholder")
      = entries'.map fun entry => entry.get "placeholder")
    (systemContents : List String) (history : List Value) :
    duplicateSystem systemContents values entries history
      = duplicateSystem systemContents values entries' history := by
  have hplaces : ∀ items : List Value, duplicateSystem systemContents values items history
      = ((items.map fun entry => entry.get "placeholder").findSome? fun place =>
        (place.bind asStr).bind fun name =>
          duplicateAt systemContents (pointer "/variables" name) (messagesOf values name)).or
          (duplicateAt systemContents "/history" history) := by
    intro items
    rw [List.findSome?_map]
    unfold duplicateSystem strAt
    refine congrArg (Option.or · _) (congrArg (List.findSome? · items) (funext fun entry => ?_))
    dsimp only [Function.comp_apply]
    cases (entry.get "placeholder").bind asStr with
    | none => rfl
    | some name => rfl
  rw [hplaces, hplaces, h]

theorem checkHistory_congr {entries entries' : List Value}
    (h : entries.map (fun entry => entry.get "placeholder")
      = entries'.map fun entry => entry.get "placeholder")
    (isChat : Bool) (history : Option (List Value)) :
    checkHistory isChat entries history = checkHistory isChat entries' history := by
  have hany : ∀ items : List Value, (items.any fun entry => (entry.get "placeholder").isSome)
      = (items.map fun entry => entry.get "placeholder").any Option.isSome := by
    intro items
    rw [List.any_map]
    rfl
  unfold checkHistory
  rw [hany, hany, h]

/-! ## The result -/

/-- The result has the parts, whatever the digest of the content is. -/
theorem finishRender_eq_ok {parts : RenderedParts} {digest : String} {count : Nat}
    {warnings : List Issue} {r : Rendered}
    (h : finishRender p parts digest count warnings = .ok r) :
    r.text = parts.text ∧ r.messages = parts.messages ∧ r.expandedTemplate = parts.expanded
      ∧ parts.size ≤ maxRenderedCodePoints ∧ Ajs 0 (documentOf parts digest count) := by
  unfold finishRender at h
  by_cases hsize : maxRenderedCodePoints < parts.size
  · rw [if_pos hsize] at h
    cases h
  · rw [if_neg hsize] at h
    dsimp only at h
    cases hdigest : promptDigest p (documentOf parts digest count) with
    | error e =>
        rw [hdigest] at h
        cases h
    | ok hash =>
        rw [hdigest] at h
        cases h
        exact ⟨rfl, rfl, rfl, by omega, promptDigest_eq_ok.mp ⟨hash, hdigest⟩⟩

theorem finishRender_digest {parts : RenderedParts} {digest digest' : String} {count : Nat}
    {warnings : List Issue} {r : Rendered}
    (h : finishRender p parts digest count warnings = .ok r) (hnul : nul ∉ digest'.toList)
    (warnings' : List Issue) :
    ∃ r', finishRender p parts digest' count warnings' = .ok r' ∧ r'.text = r.text
      ∧ r'.messages = r.messages ∧ r'.expandedTemplate = r.expandedTemplate := by
  obtain ⟨htext, hmessages, hexpanded, hsize, hajs⟩ := finishRender_eq_ok h
  have hajs' : Ajs 0 (documentOf parts digest' count) := by
    obtain ⟨hdepth, -, hrest⟩ := hajs
    exact ⟨hdepth, ⟨by decide, hnul⟩, hrest⟩
  obtain ⟨hash, hhash⟩ := promptDigest_eq_ok (p := p).mpr hajs'
  unfold finishRender
  rw [if_neg (by omega)]
  dsimp only
  rw [hhash]
  exact ⟨_, rfl, htext.symm, hmessages.symm, hexpanded.symm⟩

/-- The parts that a content renders to. -/
def partsOf (content : Value) (expanded : Expansions) (values : Members) (history : List Value) :
    RenderedParts :=
  if strAt content "kind" = some "chat" then
    renderChat (membersAt content "variables") values expanded (entriesOf content) history
  else renderText (membersAt content "variables") values expanded

/-- What is checked before the parts are put together. -/
structure RenderChecks (p : Primitives) (content : Value) (given : Members) (o : RenderOptions)
    (expanded : Expansions) (values : Members) : Prop where
  unknown : checkUnknown o.strict (unknownVariables (membersAt content "variables") given) = .ok ()
  bound : bindValues given (membersAt content "partials")
    (sortByName (membersAt content "variables")) = .ok values
  secrets : checkSecrets p o.secretPolicy (membersAt content "variables") values = .ok ()
  history : checkHistory (decide (strAt content "kind" = some "chat")) (entriesOf content) o.history
    = .ok ()
  duplicates : strAt content "kind" = some "chat" → checkDuplicates o.allowDuplicateSystem
    (systemContentsOf (membersAt content "variables") values expanded (entriesOf content)) values
    (entriesOf content) (o.history.getD []) = .ok ()

/-- A rendering is its checks, and its parts put together. -/
theorem renderValidated_eq_ok {o : RenderOptions} {report : ValidationReport} {r : Rendered} :
    renderValidated p content given o report = .ok r ↔
      ∃ values, RenderChecks p content given o report.expanded values
        ∧ finishRender p (partsOf content report.expanded values (o.history.getD []))
          (report.contentDigest.getD "") (o.history.getD []).length
          (report.warnings ++ (unknownVariables (membersAt content "variables") given).map fun name =>
            (Issue.new "strict_disabled").var name) = .ok r := by
  unfold renderValidated partsOf
  dsimp only
  constructor
  · intro h
    obtain ⟨_, hunknown, h⟩ := bind_eq_ok.mp h
    obtain ⟨values, hvalues, h⟩ := bind_eq_ok.mp h
    obtain ⟨_, hsecrets, h⟩ := bind_eq_ok.mp h
    obtain ⟨_, hhistory, h⟩ := bind_eq_ok.mp h
    refine ⟨values, ?_⟩
    by_cases hchat : strAt content "kind" = some "chat"
    · rw [if_neg (by simp [hchat])] at h
      obtain ⟨_, hduplicates, h⟩ := bind_eq_ok.mp h
      rw [if_pos hchat]
      exact ⟨⟨hunknown, hvalues, hsecrets, hhistory, fun _ => hduplicates⟩, h⟩
    · rw [if_pos (by simp [hchat])] at h
      rw [if_neg hchat]
      exact ⟨⟨hunknown, hvalues, hsecrets, hhistory, fun hyes => absurd hyes hchat⟩, h⟩
  · intro ⟨values, hchecks, h⟩
    refine bind_eq_ok.mpr ⟨_, hchecks.unknown, bind_eq_ok.mpr ⟨values, hchecks.bound,
      bind_eq_ok.mpr ⟨_, hchecks.secrets, bind_eq_ok.mpr ⟨_, hchecks.history, ?_⟩⟩⟩⟩
    by_cases hchat : strAt content "kind" = some "chat"
    · rw [if_neg (by simp [hchat])]
      rw [if_pos hchat] at h
      exact bind_eq_ok.mpr ⟨_, hchecks.duplicates hchat, h⟩
    · rw [if_pos (by simp [hchat])]
      rw [if_neg hchat] at h
      exact h

/-! ## The flat content -/

theorem zipWith_zipIdx {α β γ : Type} (f : α → β → γ) (g : α × Nat → β) (items : List α)
    (start : Nat) : List.zipWith f items ((items.zipIdx start).map g)
      = (items.zipIdx start).map fun e => f e.1 (g e) := by
  induction items generalizing start with
  | nil => rfl
  | cons item rest ih =>
      rw [List.zipIdx_cons, List.map_cons, List.zipWith_cons_cons, List.map_cons, ih]

/-- The text that a result gives to an entry is what was printed. -/
theorem flatEntry_rendered (entry : Value × Nat) :
    flatEntry entry.1 (renderEntry declared values expanded entry).expanded
      = printedEntry expanded entry := by
  unfold flatEntry printedEntry
  by_cases hrole : hasRole entry.1 = true
  · rw [if_pos hrole, if_pos hrole]
    obtain ⟨role, hroleSome⟩ := Option.isSome_iff_exists.mp hrole
    unfold renderEntry
    rw [hroleSome]
    rfl
  · rw [if_neg hrole, if_neg hrole]

/-- **A content with the templates of its result is the one that was printed.** -/
theorem Valid.flatten_eq (h : Valid p source content expanded) (values : Members)
    (history : List Value) :
    flatten content (partsOf content expanded values history).expanded
      = printedContent content expanded := by
  have hbody : flatBody content (partsOf content expanded values history).expanded
      = printedBody content expanded := by
    unfold flatBody partsOf printedBody
    rcases (shaped_of_shape h.shape).kind with ⟨hkind, -⟩ | ⟨hkind, -⟩
    · rw [if_pos hkind, if_pos hkind, if_neg (by rw [hkind]; decide)]
      rfl
    · have htext : strAt content "kind" ≠ some "text" := by
        rw [hkind]
        decide
      rw [if_neg htext, if_neg htext, if_pos hkind]
      unfold renderChat asArray
      dsimp only
      rw [Option.getD_some, List.map_map, zipWith_zipIdx]
      exact congrArg Value.array (List.map_congr_left fun e _ => flatEntry_rendered e)
  unfold flatten printedContent
  rw [hbody]

section

variable {o : RenderOptions}

theorem strAt_kind_printed :
    strAt (printedContent content expanded) "kind" = strAt content "kind" :=
  strAt_withBody (by decide) (by decide)

theorem variables_printed :
    membersAt (printedContent content expanded) "variables" = membersAt content "variables" :=
  membersAt_withBody (by decide) (by decide)

theorem partials_printed :
    membersAt (printedContent content expanded) "partials" = membersAt content "partials" :=
  membersAt_withBody (by decide) (by decide)

theorem Valid.partsOf_printed (h : Valid p source content expanded) (values : Members)
    (history : List Value) :
    partsOf (printedContent content expanded) (plainExpansions expanded) values history
      = partsOf content expanded values history := by
  unfold partsOf
  rw [strAt_kind_printed, variables_printed]
  by_cases hkind : strAt content "kind" = some "chat"
  · rw [if_pos hkind, if_pos hkind]
    exact h.renderChat_printed hkind history
  · rw [if_neg hkind, if_neg hkind]
    exact renderText_plain expanded

/-- The checks of a rendering see the same in a flat content. -/
theorem RenderChecks.printed (hchecks : RenderChecks p content given o expanded values)
    (h : Valid p source content expanded) :
    RenderChecks p (printedContent content expanded) given o (plainExpansions expanded) values := by
  refine ⟨?_, ?_, ?_, ?_, ?_⟩
  · rw [variables_printed]
    exact hchecks.unknown
  · rw [variables_printed, partials_printed]
    exact hchecks.bound
  · rw [variables_printed]
    exact hchecks.secrets
  · rw [strAt_kind_printed]
    by_cases hkind : strAt content "kind" = some "chat"
    · rw [checkHistory_congr (h.placeholders_printed hkind)]
      exact hchecks.history
    · -- A text has no history, whatever its entries are.
      have hhistory := hchecks.history
      rw [decide_eq_false hkind] at hhistory ⊢
      cases hsome : o.history with
      | none => rfl
      | some history =>
          rw [hsome] at hhistory
          cases hhistory
  · intro hkind
    rw [strAt_kind_printed] at hkind
    have hduplicates := hchecks.duplicates hkind
    unfold checkDuplicates at hduplicates ⊢
    rw [variables_printed, h.systemContentsOf_printed hkind,
      duplicateSystem_congr (h.placeholders_printed hkind)]
    exact hduplicates

end

/-! ## The theorem -/

theorem render_eq_ok {o : RenderOptions} {r : Rendered} :
    render p content given source o = .ok r ↔
      (∃ expanded, Valid p source content expanded)
        ∧ renderValidated p content given o (validate p content source) = .ok r := by
  unfold render renderAs
  dsimp only
  rw [← validate_errors_eq_nil]
  by_cases herrors : (validate p content source).errors = []
  · rw [if_neg (not_not.mpr herrors), if_neg (by simp)]
    cases renderValidated p content given o (validate p content source) with
    | error e =>
        constructor
        · intro h
          cases h
        · intro h
          cases h.2
    | ok r' =>
        constructor
        · intro h
          cases h
          exact ⟨herrors, rfl⟩
        · intro h
          cases h.2
          rfl
  · rw [if_pos herrors]
    constructor
    · intro h
      cases h
    · intro h
      exact absurd h.1 herrors

theorem digest_nul (content : Value) : nul ∉ ((promptDigest p content).toOption.getD "").toList := by
  cases hdigest : promptDigest p content with
  | error e => exact List.not_mem_nil
  | ok digest => exact promptDigest_nul hdigest

/-- **Expansion is substitution in the source**: what a content with fragments renders to, the same
content with the expanded templates in the places of its own renders to without fragments. -/
theorem render_flat (content : Value) (given : Members) (source : FragmentSource)
    (o : RenderOptions) (r : Rendered) (h : render p content given source o = .ok r)
    (hlimits : checkLimits (flatten content r.expandedTemplate) = [])
    (hsecrets : ∀ t ∈ templateTexts (flatten content r.expandedTemplate), scan p t.1 = []) :
    ∃ r', render p (flatten content r.expandedTemplate) given noFragments o = .ok r'
      ∧ r'.text = r.text ∧ r'.messages = r.messages
      ∧ r'.expandedTemplate = r.expandedTemplate := by
  obtain ⟨⟨expanded, hvalid⟩, hrender⟩ := render_eq_ok.mp h
  obtain ⟨-, hexpanded, hdigest⟩ := hvalid.report
  obtain ⟨values, hchecks, hfinish⟩ := renderValidated_eq_ok.mp hrender
  rw [hexpanded] at hchecks hfinish
  have hflat : flatten content r.expandedTemplate = printedContent content expanded := by
    rw [(finishRender_eq_ok hfinish).2.2.1]
    exact hvalid.flatten_eq values (o.history.getD [])
  rw [hflat] at hlimits hsecrets ⊢
  have hvalid' := hvalid.flat hlimits hsecrets
  obtain ⟨-, hexpanded', hdigest'⟩ := hvalid'.report
  have hnul : nul ∉ ((validate p (printedContent content expanded) noFragments).contentDigest.getD
      "").toList := by
    rw [hdigest']
    exact digest_nul _
  obtain ⟨r', hr', hsame⟩ := finishRender_digest hfinish hnul
    ((validate p (printedContent content expanded) noFragments).warnings
      ++ (unknownVariables (membersAt (printedContent content expanded) "variables") given).map
        fun name => (Issue.new "strict_disabled").var name)
  refine ⟨r', render_eq_ok.mpr ⟨⟨_, hvalid'⟩, renderValidated_eq_ok.mpr ⟨values, ?_, ?_⟩⟩, hsame⟩
  · rw [hexpanded']
    exact hchecks.printed hvalid
  · rw [hexpanded', hvalid.partsOf_printed]
    exact hr'

/-- The greeting, with the text of its fragment in its own. -/
def greetingFlat : Value := flatten greetingContent (.string "Dear {name}, read {{x}}.")

theorem render_flat_greeting :
    ∃ r', render greetingPrimitives greetingFlat greetingVariables noFragments {} = .ok r'
      ∧ r'.text = some "Dear Ada, read {x}." := by
  have hrun : ((render greetingPrimitives greetingContent greetingVariables greetingSource
      {}).toOption.map fun r => (r.text, r.expandedTemplate))
      = some (some "Dear Ada, read {x}.",
        .string "Dear {name}, read {{x}}.") := by
    decide +kernel
  cases hr : render greetingPrimitives greetingContent greetingVariables greetingSource {} with
  | error e =>
      rw [hr] at hrun
      cases hrun
  | ok r =>
      rw [hr] at hrun
      obtain ⟨htext, hexpanded⟩ := Prod.mk.inj (Option.some.inj hrun)
      obtain ⟨r', hr', htext', -⟩ := render_flat greetingContent greetingVariables greetingSource {}
        r hr (by rw [hexpanded]; decide +kernel) (by rw [hexpanded]; decide +kernel)
      rw [hexpanded] at hr'
      exact ⟨r', hr', htext'.trans htext⟩

end Agenomic.Prompt
