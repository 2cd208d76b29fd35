import Agenomic.Prompt.Expansion
import Agenomic.Prompt.Validate

/-!
# Valid contents

A report without errors means that every stage found none (`validate_errors_eq_nil`).
From there on a content is known to be of the subset, of one of the two kinds, and to
have declarations, templates and partials that fit together.
-/

namespace Agenomic.Prompt

open Lib Value

/-! ## All stages -/

/-- Every stage of the validation found no errors. -/
structure Valid (p : Primitives) (source : FragmentSource) (content : Value)
    (expanded : Expansions) : Prop where
  shape : checkContentShape content = []
  limits : checkLimits content = []
  entries : checkChatEntries content = []
  read : syntaxErrors ((contentTemplates content).map readTemplate) = []
  pins : checkPins p ⟨source, false⟩ (membersAt content "fragments") = []
  expansion : expandTemplates p ⟨source, false⟩ (content.objectAt "fragments")
    ((contentTemplates content).map readTemplate) 0 = .ok expanded
  use : checkVariableUse content (membersAt content "variables") expanded = []
  required : checkRequired (membersAt content "variables") (membersAt content "partials")
    (placeholderEntries content) = []
  partials : checkPartials (membersAt content "variables") (membersAt content "partials") = []
  contract : checkOutputContract content = []
  secrets : scanContentSecrets p content = []

namespace ValidationReport

theorem stopWith_errors {errors warnings : List Issue} {findings : List ContentSecretFinding}
    {next : ValidationReport} :
    (stopWith errors warnings findings next).errors = [] ↔ errors = [] ∧ next.errors = [] := by
  unfold stopWith
  by_cases h : errors = []
  · rw [if_pos h]
    exact ⟨fun hnext => ⟨h, hnext⟩, fun hboth => hboth.2⟩
  · rw [if_neg h]
    exact ⟨fun herrors => absurd herrors h, fun hboth => absurd hboth.1 h⟩

theorem stopWith_nil {errors warnings : List Issue} {findings : List ContentSecretFinding}
    {next : ValidationReport} (h : errors = []) : stopWith errors warnings findings next = next :=
  if_pos h

end ValidationReport

open ValidationReport (stopWith_errors stopWith_nil)

variable {p : Primitives} {source : FragmentSource} {content : Value} {expanded : Expansions}

/-- **A report has no errors exactly when every stage found none.** -/
theorem validate_errors_eq_nil :
    (validate p content source).errors = [] ↔ ∃ expanded, Valid p source content expanded := by
  unfold validate Validator.run
  simp only [stopWith_errors]
  constructor
  · intro ⟨hshape, hlimits, hentries, hread, hpins, h⟩
    cases hexp : expandTemplates p ⟨source, false⟩ (content.objectAt "fragments")
        ((contentTemplates content).map readTemplate) 0 with
    | error issue =>
        rw [hexp] at h
        cases h
    | ok expanded =>
        rw [hexp] at h
        unfold runExpanded at h
        simp only [stopWith_errors] at h
        obtain ⟨huse, hrequired, hpartials, hcontract, hsecrets, -⟩ := h
        exact ⟨expanded, hshape, hlimits, hentries, hread, hpins, hexp, huse, hrequired, hpartials,
          hcontract, List.map_eq_nil_iff.mp hsecrets⟩
  · intro ⟨expanded, h⟩
    refine ⟨h.shape, h.limits, h.entries, h.read, h.pins, ?_⟩
    rw [h.expansion]
    unfold runExpanded
    simp only [stopWith_errors]
    exact ⟨h.use, h.required, h.partials, h.contract, by rw [h.secrets]; rfl, rfl, trivial⟩

/-- The report of a valid content. -/
theorem Valid.report (h : Valid p source content expanded) :
    (validate p content source).errors = [] ∧ (validate p content source).expanded = expanded
      ∧ (validate p content source).contentDigest = (promptDigest p content).toOption := by
  have hfinish : ∀ warnings,
      (runExpanded p content none (scanContentSecrets p content) warnings expanded).expanded
          = expanded
        ∧ (runExpanded p content none (scanContentSecrets p content) warnings
          expanded).contentDigest = (promptDigest p content).toOption := by
    intro warnings
    have hkind : checkKind content none = [] := rfl
    unfold runExpanded
    dsimp only
    rw [stopWith_nil h.use, stopWith_nil h.required, stopWith_nil h.partials,
      stopWith_nil h.contract, stopWith_nil (by rw [h.secrets]; rfl), stopWith_nil hkind]
    exact ⟨rfl, rfl⟩
  refine ⟨validate_errors_eq_nil.mpr ⟨expanded, h⟩, ?_⟩
  unfold validate Validator.run
  dsimp only
  rw [stopWith_nil h.shape, stopWith_nil h.limits, stopWith_nil h.entries, stopWith_nil h.read]
  have hpins := h.pins
  unfold membersAt at hpins
  rw [stopWith_nil hpins, h.expansion]
  exact hfinish _

/-! ## The shape -/

/-- What the shape of a content says. -/
structure Shaped (content : Value) : Prop where
  ajs : Ajs 0 content
  body : checkBody (content.get "kind") (content.get "body") = []
  declared : ∃ declared, content.objectAt "variables" = some declared
    ∧ checkDeclarations declared = []

/-- What the shape check lets pass. -/
theorem checkContentShape_eq_nil : checkContentShape content = [] ↔
    ∃ members, content = .object members ∧ strAt content "schema" = some contentSchema
      ∧ Ajs 0 content ∧ checkStructure members = [] ∧ checkContentMembers content = [] := by
  constructor
  · intro h
    unfold checkContentShape at h
    cases content with
    | object members =>
        dsimp only at h
        cases hschema : lookup "schema" members with
        | none =>
            rw [hschema] at h
            cases h
        | some schema =>
            rw [hschema] at h
            dsimp only at h
            by_cases hne : schema.asStr ≠ some contentSchema
            · rw [if_pos hne] at h
              cases h
            · rw [if_neg hne] at h
              cases hajs : ensureAjs (.object members) with
              | error e =>
                  rw [hajs] at h
                  cases h
              | ok u =>
                  rw [hajs] at h
                  dsimp only at h
                  by_cases hstructure : checkStructure members ≠ []
                  · rw [if_pos hstructure] at h
                    exact absurd h hstructure
                  · rw [if_neg hstructure] at h
                    have hget : (Value.object members).get "schema" = some schema := hschema
                    refine ⟨members, rfl, ?_, ensureAjs_eq_ok.mp hajs, not_not.mp hstructure, h⟩
                    unfold strAt
                    rw [hget, Option.bind_some]
                    exact not_not.mp hne
    | null => cases h
    | bool b => cases h
    | number n => cases h
    | string s => cases h
    | array items => cases h
  · intro ⟨members, heq, hschema, hajs, hstructure, hmembers⟩
    subst heq
    unfold strAt at hschema
    obtain ⟨schema, hget, hstr⟩ := Option.bind_eq_some_iff.mp hschema
    have hlookup : lookup "schema" members = some schema := hget
    unfold checkContentShape
    dsimp only
    rw [hlookup]
    dsimp only
    rw [if_neg (not_not.mpr hstr), ensureAjs_eq_ok.mpr hajs]
    dsimp only
    rw [if_neg (not_not.mpr hstructure)]
    exact hmembers

theorem shaped_of_shape (h : checkContentShape content = []) : Shaped content := by
  obtain ⟨members, rfl, -, hajs, -, hmembers⟩ := checkContentShape_eq_nil.mp h
  unfold checkContentMembers at hmembers
  simp only [List.append_eq_nil_iff] at hmembers
  obtain ⟨⟨⟨⟨-, hbody⟩, hdeclared⟩, -⟩, -⟩ := hmembers
  refine ⟨hajs, hbody, ?_⟩
  cases hvars : (Value.object members).objectAt "variables" with
  | none =>
      rw [hvars] at hdeclared
      cases hdeclared
  | some declared =>
      rw [hvars] at hdeclared
      exact ⟨declared, rfl, hdeclared⟩

/-- A content is a text with a template, or a chat with entries. -/
theorem Shaped.kind (h : Shaped content) :
    (strAt content "kind" = some "text" ∧ ∃ body, content.get "body" = some (.string body))
      ∨ (strAt content "kind" = some "chat"
        ∧ ∃ entries, content.get "body" = some (.array entries)) := by
  have hbody := h.body
  unfold checkBody at hbody
  by_cases htext : (content.get "kind").bind asStr = some "text"
  · rw [if_pos htext] at hbody
    left
    refine ⟨htext, ?_⟩
    cases hb : content.get "body" with
    | none =>
        rw [hb] at hbody
        cases hbody
    | some body =>
        rw [hb] at hbody
        cases body with
        | string s => exact ⟨s, rfl⟩
        | null => cases hbody
        | bool b => cases hbody
        | number n => cases hbody
        | array items => cases hbody
        | object members => cases hbody
  · rw [if_neg htext] at hbody
    by_cases hchat : (content.get "kind").bind asStr = some "chat"
    · rw [if_pos hchat] at hbody
      right
      refine ⟨hchat, ?_⟩
      cases hb : content.get "body" with
      | none =>
          rw [hb] at hbody
          cases hbody
      | some body =>
          rw [hb] at hbody
          cases body with
          | array items => exact ⟨items, rfl⟩
          | null => cases hbody
          | bool b => cases hbody
          | number n => cases hbody
          | string s => cases hbody
          | object members => cases hbody
    · rw [if_neg hchat] at hbody
      cases hbody

/-! ## Declarations -/

/-- A declaration gives a type, and whether the variable is required. -/
structure Declared (declaration : Value) : Prop where
  type : ∃ type ∈ variableTypes, declarationType declaration = some type
  required : ∃ required, (declaration.get "required").bind asBool = some required

theorem declared_of_check {name : String} {declaration : Value}
    (h : checkDeclaration name declaration = []) : Declared declaration := by
  unfold checkDeclaration at h
  dsimp only at h
  by_cases hname : isName name = false
  · rw [if_pos hname] at h
    cases h
  · rw [if_neg hname] at h
    cases declaration with
    | object members =>
        simp only [List.append_eq_nil_iff] at h
        obtain ⟨⟨⟨hmissing, -⟩, htype⟩, hrequired⟩ := h
        have hpresent : ∀ member ∈ ["type", "required"], (lookup member members).isSome = true := by
          intro member hmem
          have hnone := List.filterMap_eq_nil_iff.mp hmissing member hmem
          by_contra hnot
          rw [if_neg hnot] at hnone
          cases hnone
        obtain ⟨type, htypeSome⟩ := Option.isSome_iff_exists.mp (hpresent "type" (by decide))
        obtain ⟨required, hrequiredSome⟩ :=
          Option.isSome_iff_exists.mp (hpresent "required" (by decide))
        rw [htypeSome] at htype
        rw [hrequiredSome] at hrequired
        dsimp only at htype hrequired
        refine ⟨?_, ?_⟩
        · unfold declarationType strAt
          have hget : (Value.object members).get "type" = some type := htypeSome
          rw [hget, Option.bind_some]
          cases hstr : type.asStr with
          | none =>
              rw [hstr] at htype
              cases htype
          | some text =>
              rw [hstr, Option.any_some] at htype
              by_cases hmem : decide (text ∈ variableTypes) = true
              · exact ⟨text, of_decide_eq_true hmem, rfl⟩
              · rw [if_neg hmem] at htype
                cases htype
        · have hget : (Value.object members).get "required" = some required := hrequiredSome
          rw [hget, Option.bind_some]
          by_cases hbool : (asBool required).isSome = true
          · exact Option.isSome_iff_exists.mp hbool
          · rw [if_neg hbool] at hrequired
            cases hrequired
    | null => cases h
    | bool b => cases h
    | number n => cases h
    | string s => cases h
    | array items => cases h

/-- Every declaration of a valid content is one. -/
theorem Shaped.declaration (h : Shaped content) {name : String} {declaration : Value}
    (hmem : (name, declaration) ∈ membersAt content "variables") : Declared declaration := by
  obtain ⟨declared, hdeclared, hcheck⟩ := h.declared
  unfold membersAt at hmem
  rw [hdeclared] at hmem
  unfold checkDeclarations at hcheck
  have hall := List.flatMap_eq_nil_iff.mp (List.append_eq_nil_iff.mp hcheck).2
  exact declared_of_check (hall (name, declaration) (mem_sortByName.mpr hmem))

/-! ## The entries of a chat -/

/-- An entry with a role and a template. -/
structure IsTemplate (entry : Value) (role text : String) : Prop where
  hasRole : entry.get "role" = some (.string role)
  known : role ∈ templateRoles
  hasContent : entry.get "content" = some (.string text)
  noPlaceholder : entry.get "placeholder" = none

/-- An entry that is a placeholder. -/
structure IsPlaceholder (entry : Value) (name : String) (optional : Bool) : Prop where
  noRole : entry.get "role" = none
  hasName : entry.get "placeholder" = some (.string name)
  named : isName name = true
  hasOptional : entry.get "optional" = some (.bool optional)

theorem asStr_eq_some {v : Value} {s : String} (h : v.asStr = some s) : v = .string s := by
  cases v with
  | string text =>
      cases h
      rfl
  | null => cases h
  | bool b => cases h
  | number n => cases h
  | array items => cases h
  | object members => cases h

theorem asBool_eq_some {v : Value} {b : Bool} (h : asBool v = some b) : v = .bool b := by
  cases v with
  | bool c =>
      cases h
      rfl
  | null => cases h
  | string s => cases h
  | number n => cases h
  | array items => cases h
  | object members => cases h

/-- An entry without an issue is one of the two. -/
theorem entry_cases {entry : Value} {path : String} (h : entryIssue entry path = none) :
    (∃ role text, IsTemplate entry role text)
      ∨ ∃ name optional, IsPlaceholder entry name optional := by
  unfold entryIssue at h
  dsimp only at h
  cases entry with
  | object members =>
      dsimp only at h
      cases hrole : lookup "role" members with
      | some role =>
          left
          cases hplace : lookup "placeholder" members with
          | some name =>
              rw [hrole, hplace] at h
              cases h
          | none =>
              rw [hrole, hplace] at h
              simp only [Option.isSome_some, Option.isSome_none, Bool.and_false, Bool.false_eq_true,
                if_false, if_true] at h
              by_cases hcount : members.length ≠ 2 ∨ lookup "content" members = none
              · rw [if_pos hcount] at h
                cases h
              · rw [if_neg hcount] at h
                by_cases hunknown : ((some role).bind asStr).getD "" ∉ templateRoles
                · rw [if_pos hunknown] at h
                  cases h
                · rw [if_neg hunknown] at h
                  have hknown := not_not.mp hunknown
                  cases hstr : role.asStr with
                  | none =>
                      rw [Option.bind_some, hstr] at hknown
                      exact absurd hknown (by decide)
                  | some text =>
                      rw [Option.bind_some, hstr] at hknown
                      cases asStr_eq_some hstr
                      cases hcontent : lookup "content" members with
                      | none =>
                          rw [hcontent] at h
                          cases h
                      | some content =>
                          rw [hcontent] at h
                          cases content with
                          | string body => exact ⟨text, body, hrole, hknown, hcontent, hplace⟩
                          | null => cases h
                          | bool b => cases h
                          | number n => cases h
                          | array items => cases h
                          | object ms => cases h
      | none =>
          right
          cases hplace : lookup "placeholder" members with
          | none =>
              rw [hrole, hplace] at h
              cases h
          | some name =>
              rw [hrole, hplace] at h
              simp only [Option.isSome_some, Option.isSome_none, Bool.false_and, Bool.false_eq_true,
                if_false, if_true] at h
              by_cases hcount : members.length ≠ 2 ∨ lookup "optional" members = none
              · rw [if_pos hcount] at h
                cases h
              · rw [if_neg hcount] at h
                by_cases hunnamed : ((some name).bind asStr).any isName = false
                · rw [if_pos hunnamed] at h
                  cases h
                · rw [if_neg hunnamed] at h
                  by_cases hflag : ((lookup "optional" members).bind asBool).isSome = false
                  · rw [if_pos hflag] at h
                    cases h
                  · rw [Option.bind_some] at hunnamed
                    cases hstr : name.asStr with
                    | none =>
                        rw [hstr] at hunnamed
                        exact absurd rfl hunnamed
                    | some text =>
                        rw [hstr, Option.any_some] at hunnamed
                        cases asStr_eq_some hstr
                        have hsome := Bool.not_eq_false _ ▸ hflag
                        obtain ⟨optional, hoptional⟩ := Option.isSome_iff_exists.mp hsome
                        obtain ⟨w, hw, hbool⟩ := Option.bind_eq_some_iff.mp hoptional
                        cases asBool_eq_some hbool
                        exact ⟨text, optional, hrole, hplace, Bool.not_eq_false _ ▸ hunnamed, hw⟩
  | null => cases h
  | bool b => cases h
  | number n => cases h
  | string s => cases h
  | array items => cases h

/-- The entries of a valid chat are templates and placeholders. -/
theorem Valid.entry (h : Valid p source content expanded) (hchat : strAt content "kind" = some "chat")
    {entry : Value} {index : Nat} (hmem : (entry, index) ∈ (entriesOf content).zipIdx) :
    (∃ role text, IsTemplate entry role text)
      ∨ ∃ name optional, IsPlaceholder entry name optional := by
  have hentries := h.entries
  unfold checkChatEntries at hentries
  rw [if_pos hchat] at hentries
  exact entry_cases (List.filterMap_eq_nil_iff.mp hentries (entry, index) hmem)

/-! ## The templates -/

theorem ajs_mem_entries (h : Shaped content) {entry : Value} (hmem : entry ∈ entriesOf content) :
    Ajs 0 entry := by
  unfold entriesOf at hmem
  cases hbody : content.get "body" with
  | none =>
      rw [hbody] at hmem
      exact absurd hmem List.not_mem_nil
  | some body =>
      rw [hbody, Option.bind_some] at hmem
      have hajs := ajs_get h.ajs hbody
      cases body with
      | array items => exact (ajsItems_iff.mp hajs.2 entry hmem).mono (Nat.zero_le _)
      | null => exact absurd hmem List.not_mem_nil
      | bool b => exact absurd hmem List.not_mem_nil
      | number n => exact absurd hmem List.not_mem_nil
      | string s => exact absurd hmem List.not_mem_nil
      | object members => exact absurd hmem List.not_mem_nil

/-- The template of an entry, and when there is none. -/
theorem entryTemplate_of_template {entry : Value} {role text : String}
    (h : IsTemplate entry role text) (index : Nat) :
    entryTemplate (entry, index) = some ⟨contentPath index, some text⟩ := by
  cases entry with
  | object members =>
      have hrole : lookup "role" members = some (.string role) := h.hasRole
      have hcontent : lookup "content" members = some (.string text) := h.hasContent
      unfold entryTemplate
      dsimp only
      rw [hrole, hcontent, if_pos (by simp)]
      rfl
  | null => cases h.hasRole
  | bool b => cases h.hasRole
  | number n => cases h.hasRole
  | string s => cases h.hasRole
  | array items => cases h.hasRole

theorem entryTemplate_of_placeholder {entry : Value} {name : String} {optional : Bool}
    (h : IsPlaceholder entry name optional) (index : Nat) : entryTemplate (entry, index) = none := by
  cases entry with
  | object members =>
      have hrole : lookup "role" members = none := h.noRole
      unfold entryTemplate
      dsimp only
      rw [hrole, if_neg (by simp)]
  | null => rfl
  | bool b => rfl
  | number n => rfl
  | string s => rfl
  | array items => rfl

theorem contentTemplates_text {body : String} (hkind : strAt content "kind" = some "text")
    (hbody : content.get "body" = some (.string body)) :
    contentTemplates content = [⟨"/body", some body⟩] := by
  unfold contentTemplates
  rw [hbody]
  dsimp only
  rw [if_pos hkind]
  rfl

theorem contentTemplates_chat {entries : List Value} (hkind : strAt content "kind" = some "chat")
    (hbody : content.get "body" = some (.array entries)) :
    contentTemplates content = entries.zipIdx.filterMap entryTemplate := by
  unfold contentTemplates
  rw [hbody]
  dsimp only
  rw [if_neg (by rw [hkind]; decide)]

theorem entriesOf_chat {entries : List Value} (hbody : content.get "body" = some (.array entries)) :
    entriesOf content = entries := by
  unfold entriesOf
  rw [hbody]
  rfl

/-- The templates of a valid content hold no NUL. -/
theorem Valid.template_nul (h : Valid p source content expanded) {t : Template}
    (ht : t ∈ contentTemplates content) : nul ∉ (t.text.getD "").toList := by
  have hshaped := shaped_of_shape h.shape
  rcases hshaped.kind with ⟨hkind, body, hbody⟩ | ⟨hkind, entries, hbody⟩
  · rw [contentTemplates_text hkind hbody] at ht
    cases List.mem_singleton.mp ht
    exact ajs_get hshaped.ajs hbody
  · rw [contentTemplates_chat hkind hbody] at ht
    obtain ⟨⟨entry, index⟩, hmem, hsome⟩ := List.mem_filterMap.mp ht
    have hentries := entriesOf_chat hbody
    have hajs := ajs_mem_entries hshaped (hentries ▸ (List.mem_zipIdx' hmem).2 ▸ List.getElem_mem _)
    rcases h.entry hkind (hentries ▸ hmem) with ⟨role, text, hentry⟩ | ⟨name, optional, hentry⟩
    · rw [entryTemplate_of_template hentry] at hsome
      cases hsome
      exact ajs_get hajs hentry.hasContent
    · rw [entryTemplate_of_placeholder hentry] at hsome
      cases hsome

/-! ## The expansions -/

theorem exists_of_forall₂_left {α β : Type} {R : α → β → Prop} {as : List α} {bs : List β}
    (h : List.Forall₂ R as bs) {a : α} (ha : a ∈ as) : ∃ b ∈ bs, R a b := by
  induction h with
  | nil => exact absurd ha List.not_mem_nil
  | cons hab _ ih =>
      rcases List.mem_cons.mp ha with rfl | ha
      · exact ⟨_, List.mem_cons_self, hab⟩
      · obtain ⟨b, hb, hr⟩ := ih ha
        exact ⟨b, List.mem_cons_of_mem _ hb, hr⟩

theorem exists_of_forall₂_right {α β : Type} {R : α → β → Prop} {as : List α} {bs : List β}
    (h : List.Forall₂ R as bs) {b : β} (hb : b ∈ bs) : ∃ a ∈ as, R a b := by
  induction h with
  | nil => exact absurd hb List.not_mem_nil
  | cons hab _ ih =>
      rcases List.mem_cons.mp hb with rfl | hb
      · exact ⟨_, List.mem_cons_self, hab⟩
      · obtain ⟨a, ha, hr⟩ := ih hb
        exact ⟨a, List.mem_cons_of_mem _ ha, hr⟩

/-- The expansion of a template, under its path. -/
structure ExpansionOf (t : ReadTemplate) (e : String × List Expanded) : Prop where
  path : e.1 = t.1.path
  merged : Merged e.2
  size : (expandedSource e.2).length ≤ maxExpandedCodePoints

theorem expandTemplates_each {v : Validator} {fragments : Option Members}
    {templates : List ReadTemplate}
    (hfine : ∀ t ∈ templates, ∀ token ∈ readTokens t, token.Fine (· ≠ nul)) {budget : Nat}
    (h : expandTemplates p v fragments templates budget = .ok expanded) :
    List.Forall₂ ExpansionOf templates expanded := by
  induction templates generalizing budget expanded with
  | nil =>
      cases h
      exact .nil
  | cons t rest ih =>
      unfold expandTemplates at h
      obtain ⟨out, hout, h⟩ := bind_eq_ok.mp h
      obtain ⟨more, hmore, h⟩ := bind_eq_ok.mp h
      cases h
      refine .cons ⟨rfl, ?_, expand_size hout⟩
        (ih (fun u hu => hfine u (List.mem_cons_of_mem _ hu)) hmore)
      exact expand_merged _ _ _ _ _ _ _ (hfine t List.mem_cons_self) hout

/-- Every template of a valid content was read, into tokens without NUL. -/
theorem Valid.readTokens_fine (h : Valid p source content expanded) {t : ReadTemplate}
    (ht : t ∈ (contentTemplates content).map readTemplate) :
    ∀ token ∈ readTokens t, token.Fine (· ≠ nul) := by
  obtain ⟨template, htemplate, rfl⟩ := List.mem_map.mp ht
  have hnul := h.template_nul htemplate
  unfold readTokens readTemplate
  dsimp only
  cases htokens : tokenize (template.text.getD "") with
  | error e => exact fun token htoken => absurd htoken List.not_mem_nil
  | ok tokens => exact tokenize_fine_nul htokens hnul

theorem Valid.expansions (h : Valid p source content expanded) :
    List.Forall₂ ExpansionOf ((contentTemplates content).map readTemplate) expanded :=
  expandTemplates_each (fun _ ht => h.readTokens_fine ht) h.expansion

/-- What is expanded under a path is merged. -/
theorem Valid.merged (h : Valid p source content expanded) {path : String}
    {tokens : List Expanded} (hpath : lookup path expanded = some tokens) : Merged tokens := by
  obtain ⟨t, -, hexp⟩ := exists_of_forall₂_right h.expansions (lookup_mem hpath)
  exact hexp.merged

/-- Every template has an expansion. -/
theorem Valid.lookup_template (h : Valid p source content expanded) {t : Template}
    (ht : t ∈ contentTemplates content) : ∃ tokens, lookup t.path expanded = some tokens := by
  obtain ⟨e, he, hexp⟩ := exists_of_forall₂_left h.expansions (List.mem_map_of_mem ht)
  obtain ⟨path, out⟩ := e
  have hpath : path = t.path := hexp.path
  subst hpath
  exact lookup_isSome he

end Agenomic.Prompt
