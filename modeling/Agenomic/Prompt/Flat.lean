import Agenomic.Prompt.Render
import Agenomic.Prompt.Valid

/-!
# Flat contents

A flat content has the templates of a result in the places of its own, with every
fragment expanded, and no fragments. It is valid when the content is (`Valid.flat`):
every stage sees the same declarations, partials and placeholders, and the templates that
were printed are read back as what they are.
-/

namespace Agenomic.Prompt

open Lib Value

/-! ## Definitions -/

/-- Replace a member of an object. -/
def setMember (key : String) (value : Value) : Value → Value
  | .object members => .object (members.map fun m => (m.1, if m.1 = key then value else m.2))
  | v => v

/-- A content with another body, and without fragments. -/
def withBody (body content : Value) : Value :=
  setMember "fragments" (.object []) (setMember "body" body content)

/-- An entry with the text of the entry of a result. -/
def flatEntry (entry rendered : Value) : Value :=
  if hasRole entry then setMember "content" (orNull (rendered.get "content")) entry else entry

/-- The body of a content with the texts of the template of a result. -/
def flatBody (content template : Value) : Value :=
  if strAt content "kind" = some "text" then template
  else .array (List.zipWith flatEntry (entriesOf content) ((asArray template).getD []))

/-- A content with the templates of a result, and without fragments. -/
def flatten (content template : Value) : Value := withBody (flatBody content template) content

/-- The text of an expanded template. -/
def printed (expanded : Expansions) (path : String) : String :=
  String.ofList (expandedSource (tokensAt expanded path))

def printedEntry (expanded : Expansions) (entry : Value × Nat) : Value :=
  if hasRole entry.1 then
    setMember "content" (.string (printed expanded (contentPath entry.2))) entry.1
  else entry.1

def printedBody (content : Value) (expanded : Expansions) : Value :=
  if strAt content "kind" = some "text" then .string (printed expanded "/body")
  else .array ((entriesOf content).zipIdx.map (printedEntry expanded))

/-- A content with its expanded templates, and without fragments. -/
def printedContent (content : Value) (expanded : Expansions) : Value :=
  withBody (printedBody content expanded) content

/-- The expansions without what the fragments said of variables. -/
def plainExpansions (expanded : Expansions) : Expansions :=
  expanded.map fun e => (e.1, e.2.map Expanded.plain)

/-! ## Members -/

theorem get_setMember {key : String} {value v : Value} (h : (v.get key).isSome = true) :
    (setMember key value v).get key = some value := by
  cases v with
  | object members =>
      obtain ⟨w, hw⟩ := Option.isSome_iff_exists.mp h
      have hw : lookup key members = some w := hw
      show lookup key (members.map fun m => (m.1, if m.1 = key then value else m.2)) = _
      rw [lookup_map fun k w => if k = key then value else w, hw, Option.map_some, if_pos rfl]
  | null => cases h
  | bool b => cases h
  | number n => cases h
  | string s => cases h
  | array items => cases h

theorem get_setMember_of_ne {key other : String} (h : other ≠ key) (value v : Value) :
    (setMember key value v).get other = v.get other := by
  cases v with
  | object members =>
      show lookup other (members.map fun m => (m.1, if m.1 = key then value else m.2)) = _
      rw [lookup_map fun k w => if k = key then value else w]
      show _ = lookup other members
      cases hw : lookup other members with
      | none => rfl
      | some w => rw [Option.map_some, if_neg h]
  | null => rfl
  | bool b => rfl
  | number n => rfl
  | string s => rfl
  | array items => rfl

/-- A member of the subset in the place of another leaves a value in it. -/
theorem ajs_setMember {depth : Nat} {key : String} {value v : Value} (h : Ajs depth v)
    (hvalue : Ajs (depth + 1) value) : Ajs depth (setMember key value v) := by
  cases v with
  | object members =>
      refine ⟨h.1, ajsMembers_iff.mpr fun m hm => ?_⟩
      obtain ⟨old, hold, rfl⟩ := List.mem_map.mp hm
      have hmember := ajsMembers_iff.mp h.2 old hold
      refine ⟨hmember.1, ?_⟩
      dsimp only
      by_cases hkey : old.1 = key
      · rw [if_pos hkey]
        exact hvalue
      · rw [if_neg hkey]
        exact hmember.2
  | null => exact h
  | bool b => exact h
  | number n => exact h
  | string s => exact h
  | array items => exact h

section

variable {content body : Value}

theorem get_withBody_of_ne {key : String} (hbody : key ≠ "body") (hfragments : key ≠ "fragments") :
    (withBody body content).get key = content.get key := by
  unfold withBody
  rw [get_setMember_of_ne hfragments, get_setMember_of_ne hbody]

theorem get_withBody_body (h : (content.get "body").isSome = true) :
    (withBody body content).get "body" = some body := by
  unfold withBody
  rw [get_setMember_of_ne (by decide), get_setMember h]

theorem get_withBody_fragments (h : (content.get "fragments").isSome = true) :
    (withBody body content).get "fragments" = some (.object []) := by
  unfold withBody
  rw [get_setMember]
  rw [get_setMember_of_ne (by decide)]
  exact h

theorem strAt_withBody {key : String} (hbody : key ≠ "body") (hfragments : key ≠ "fragments") :
    strAt (withBody body content) key = strAt content key := by
  unfold strAt
  rw [get_withBody_of_ne hbody hfragments]

theorem objectAt_withBody {key : String} (hbody : key ≠ "body") (hfragments : key ≠ "fragments") :
    (withBody body content).objectAt key = content.objectAt key := by
  unfold objectAt
  rw [get_withBody_of_ne hbody hfragments]

theorem membersAt_withBody {key : String} (hbody : key ≠ "body") (hfragments : key ≠ "fragments") :
    membersAt (withBody body content) key = membersAt content key := by
  unfold membersAt
  rw [objectAt_withBody hbody hfragments]

end

/-! ## Entries -/

section

variable {expanded : Expansions} {entry : Value × Nat}

theorem get_printedEntry {key : String} (h : key ≠ "content") :
    (printedEntry expanded entry).get key = entry.1.get key := by
  unfold printedEntry
  by_cases hrole : hasRole entry.1 = true
  · rw [if_pos hrole, get_setMember_of_ne h]
  · rw [if_neg hrole]

theorem hasRole_printedEntry : hasRole (printedEntry expanded entry) = hasRole entry.1 := by
  unfold hasRole
  rw [get_printedEntry (by decide)]

theorem placeholderName_printedEntry :
    placeholderName (printedEntry expanded entry) = placeholderName entry.1 := by
  unfold placeholderName strAt
  rw [get_printedEntry (by decide)]

/-- An entry without an issue has none when its text is another one. -/
theorem entryIssue_printedEntry {path : String} (h : entryIssue entry.1 path = none) :
    entryIssue (printedEntry expanded entry) path = none := by
  unfold printedEntry
  by_cases hrole : hasRole entry.1 = true
  · rw [if_pos hrole]
    obtain ⟨entry, index⟩ := entry
    cases entry with
    | object members =>
        have hrole : (lookup "role" members).isSome = true := hrole
        have hlookup : ∀ key, lookup key (members.map fun m =>
            (m.1, if m.1 = "content" then .string (printed expanded (contentPath index)) else m.2))
            = (lookup key members).map fun w =>
              if key = "content" then .string (printed expanded (contentPath index)) else w :=
          fun key => lookup_map (fun k w => if k = "content" then _ else w) key members
        have hroleEq := hlookup "role"
        have hplaceEq := hlookup "placeholder"
        have hcontentEq := hlookup "content"
        simp only [if_neg (show ¬("role" = "content") by decide), Option.map_id'] at hroleEq
        simp only [if_neg (show ¬("placeholder" = "content") by decide), Option.map_id'] at hplaceEq
        simp only [if_pos] at hcontentEq
        unfold setMember
        unfold entryIssue at h ⊢
        dsimp only at h ⊢
        rw [hroleEq, hplaceEq, hcontentEq, List.length_map, hrole]
        rw [hrole] at h
        cases hplace : lookup "placeholder" members with
        | some name =>
            rw [hplace] at h
            cases h
        | none =>
            rw [hplace] at h
            simp only [Option.isSome_none, Bool.and_false, Bool.false_eq_true, if_false,
              if_true] at h ⊢
            cases hcontent : lookup "content" members with
            | none =>
                rw [hcontent] at h
                simp at h
            | some text =>
                rw [hcontent] at h
                dsimp only [Option.map_some] at h ⊢
                by_cases hcount : members.length ≠ 2 ∨ (some text : Option Value) = none
                · rw [if_pos hcount] at h
                  cases h
                · rw [if_neg hcount] at h
                  rw [if_neg (by simpa using hcount)]
                  by_cases hunknown : ((lookup "role" members).bind asStr).getD "" ∉ templateRoles
                  · rw [if_pos hunknown] at h
                    cases h
                  · rw [if_neg hunknown]
    | null => cases hrole
    | bool b => cases hrole
    | number n => cases hrole
    | string s => cases hrole
    | array items => cases hrole
  · rw [if_neg hrole]
    exact h

/-- An entry stays what it is, with the text that is printed. -/
theorem isTemplate_printedEntry {role text : String} (h : IsTemplate entry.1 role text) :
    IsTemplate (printedEntry expanded entry) role (printed expanded (contentPath entry.2)) := by
  have hrole : hasRole entry.1 = true := by
    unfold hasRole
    rw [h.hasRole]
    rfl
  refine ⟨?_, h.known, ?_, ?_⟩
  · rw [get_printedEntry (by decide)]
    exact h.hasRole
  · unfold printedEntry
    rw [if_pos hrole, get_setMember]
    rw [h.hasContent]
    rfl
  · rw [get_printedEntry (by decide)]
    exact h.noPlaceholder

theorem isPlaceholder_printedEntry {name : String} {optional : Bool}
    (h : IsPlaceholder entry.1 name optional) :
    IsPlaceholder (printedEntry expanded entry) name optional := by
  refine ⟨?_, ?_, h.named, ?_⟩
  · rw [get_printedEntry (by decide)]
    exact h.noRole
  · rw [get_printedEntry (by decide)]
    exact h.hasName
  · rw [get_printedEntry (by decide)]
    exact h.hasOptional

/-- Entries keep their places. -/
theorem zipIdx_map_zipIdx {α β : Type} (f : α × Nat → β) (items : List α) (start : Nat) :
    ((items.zipIdx start).map f).zipIdx start
      = (items.zipIdx start).map fun e => (f e, e.2) := by
  induction items generalizing start with
  | nil => rfl
  | cons item rest ih =>
      rw [List.zipIdx_cons, List.map_cons, List.zipIdx_cons, List.map_cons, ih]

end

/-! ## What is printed -/

/-- A printed text holds only what the tokens hold. -/
theorem nul_not_mem_source {tokens : List Token} (h : ∀ t ∈ tokens, t.Fine (· ≠ nul)) :
    nul ∉ source tokens := by
  have hname : ∀ {name : String}, isName name = true → nul ∉ name.toList := by
    intro name hname hnul
    exact absurd ((isName_iff.mp hname).2.2.1 nul hnul) (by decide)
  have hopen : nul ≠ '{' := by decide
  have hclose : nul ≠ '}' := by decide
  have hgreater : nul ≠ '>' := by decide
  intro hmem
  obtain ⟨t, ht, hmem⟩ := List.mem_flatMap.mp hmem
  have hfine := h t ht
  cases t with
  | literal text =>
      obtain ⟨c, hc, hmem⟩ := List.mem_flatMap.mp hmem
      have heq : nul = c := by
        by_cases hbrace : c = '{' ∨ c = '}'
        · rw [if_pos hbrace] at hmem
          simpa using hmem
        · rw [if_neg hbrace] at hmem
          simpa using hmem
      exact hfine.2 c hc heq.symm
  | var name offset =>
      unfold Token.source at hmem
      simp only [List.mem_cons, List.mem_append, List.not_mem_nil, or_false] at hmem
      rcases hmem with heq | hmem | heq
      · exact hopen heq
      · exact hname hfine hmem
      · exact hclose heq
  | inclusion name offset =>
      unfold Token.source at hmem
      simp only [List.mem_cons, List.mem_append, List.not_mem_nil, or_false] at hmem
      rcases hmem with heq | heq | hmem | heq
      · exact hopen heq
      · exact hgreater heq
      · exact hname hfine hmem
      · exact hclose heq

variable {p : Primitives} {source : FragmentSource} {content : Value} {expanded : Expansions}

theorem Valid.printed_nul (h : Valid p source content expanded) (path : String) :
    nul ∉ (printed expanded path).toList := by
  unfold printed tokensAt
  rw [String.toList_ofList]
  cases htokens : lookup path expanded with
  | none => exact List.not_mem_nil
  | some tokens =>
      rw [Option.getD_some]
      refine nul_not_mem_source fun t ht => ?_
      obtain ⟨e, he, rfl⟩ := List.mem_map.mp ht
      exact (h.merged htokens).fine e he

/-- The template of an expansion. -/
def reprint (expanded : Expansions) (t : Template) : Template :=
  ⟨t.path, some (printed expanded t.path)⟩

/-- An expansion that is printed is read back and expands to itself. -/
theorem printed_read {t : ReadTemplate} {e : String × List Expanded} (h : ExpansionOf t e)
    (hfound : lookup e.1 expanded = some e.2) (v : Validator) :
    ∃ tokens, readTemplate (reprint expanded t.1) = (reprint expanded t.1, .ok tokens)
      ∧ ∀ fragments budget, expand p v t.1.path maxFragmentDepth tokens fragments [] none budget
        = .ok (e.2.map Expanded.plain, budget) := by
  obtain ⟨tokens, htokens, hexpand⟩ :=
    expand_printed h.merged h.size maxFragmentDepth
  refine ⟨tokens, ?_, fun fragments budget => hexpand fragments [] budget⟩
  unfold readTemplate reprint printed tokensAt
  dsimp only
  rw [← h.path, hfound, Option.getD_some, Option.getD_some, htokens]

/-- **The printed templates are read, and expand to what they were printed from.** -/
theorem expandTemplates_printed {v : Validator} {templates : List ReadTemplate}
    {part : Expansions} (h : List.Forall₂ ExpansionOf templates part)
    (hfound : ∀ e ∈ part, lookup e.1 expanded = some e.2) (budget : Nat)
    (fragments : Option Members) :
    syntaxErrors (templates.map fun t => readTemplate (reprint expanded t.1)) = []
      ∧ expandTemplates p v fragments (templates.map fun t => readTemplate (reprint expanded t.1))
        budget = .ok (plainExpansions part) := by
  induction h with
  | nil => exact ⟨rfl, rfl⟩
  | @cons t e templates part hte _ ih =>
      obtain ⟨herrors, hrest⟩ := ih fun e' he' => hfound e' (List.mem_cons_of_mem _ he')
      obtain ⟨tokens, hread, hexpand⟩ :=
        printed_read (p := p) hte (hfound e List.mem_cons_self) v
      refine ⟨?_, ?_⟩
      · rw [List.map_cons, hread]
        exact herrors
      · rw [List.map_cons, hread]
        unfold expandTemplates
        refine bind_eq_ok.mpr ⟨_, hexpand fragments budget, bind_eq_ok.mpr ⟨_, hrest, ?_⟩⟩
        unfold plainExpansions reprint
        rw [List.map_cons, hte.path]

/-! ## The paths of templates -/

theorem contentPath_inj {i j : Nat} (h : contentPath i = contentPath j) : i = j := by
  unfold contentPath entryPath at h
  have hchars := congrArg String.toList h
  simp only [String.toList_append, String.toList_ofList, List.append_cancel_right_eq,
    List.append_cancel_left_eq] at hchars
  rw [← ofDecimal_decimal i, hchars, ofDecimal_decimal]

theorem path_of_entryTemplate {entry : Value × Nat} {t : Template}
    (h : entryTemplate entry = some t) : t.path = contentPath entry.2 := by
  obtain ⟨entry, index⟩ := entry
  unfold entryTemplate at h
  cases entry with
  | object members =>
      dsimp only at h
      by_cases hrole : (lookup "role" members).isSome = true
      · rw [if_pos hrole] at h
        cases h
        rfl
      · rw [if_neg hrole] at h
        cases h
  | null => cases h
  | bool b => cases h
  | number n => cases h
  | string s => cases h
  | array items => cases h

/-- The templates of a content have different paths. -/
theorem nodup_paths (content : Value) : ((contentTemplates content).map Template.path).Nodup := by
  unfold contentTemplates
  cases content.get "body" with
  | none => exact List.nodup_nil
  | some body =>
      dsimp only
      by_cases htext : strAt content "kind" = some "text"
      · rw [if_pos htext]
        exact List.nodup_singleton _
      · rw [if_neg htext]
        cases body with
        | array entries =>
            dsimp only
            have hindices : entries.zipIdx.Pairwise fun e e' => e.2 ≠ e'.2 := by
              rw [← List.pairwise_map, List.zipIdx_map_snd]
              exact List.nodup_range'
            unfold List.Nodup
            rw [List.pairwise_map]
            refine hindices.filterMap entryTemplate ?_
            intro e e' hne t ht t' ht' heq
            rw [path_of_entryTemplate ht, path_of_entryTemplate ht'] at heq
            exact hne (contentPath_inj heq)
        | null => exact List.nodup_nil
        | bool b => exact List.nodup_nil
        | number n => exact List.nodup_nil
        | string s => exact List.nodup_nil
        | object members => exact List.nodup_nil

theorem paths_eq {templates : List ReadTemplate} {part : Expansions}
    (h : List.Forall₂ ExpansionOf templates part) :
    part.map Prod.fst = templates.map fun t => t.1.path := by
  induction h with
  | nil => rfl
  | cons hte _ ih => rw [List.map_cons, List.map_cons, ih, hte.path]

/-- What is expanded is found under its path. -/
theorem Valid.found (h : Valid p source content expanded) :
    ∀ e ∈ expanded, lookup e.1 expanded = some e.2 := by
  intro e he
  refine lookup_of_mem ?_ he
  rw [paths_eq h.expansions, List.map_map]
  exact nodup_paths content

/-! ## The shape of a flat content -/

theorem checkStructure_eq_nil {members : Members} : checkStructure members = [] ↔
    (∀ key ∈ contentMembers, (lookup key members).isSome = true)
      ∧ ∀ key ∈ members.map Prod.fst, key ∈ contentMembers := by
  unfold checkStructure sortedKeys
  rw [List.append_eq_nil_iff, List.filterMap_eq_nil_iff, List.filterMap_eq_nil_iff]
  refine and_congr (forall₂_congr fun key _ => ?_) ?_
  · by_cases hkey : (lookup key members).isSome = true
    · simp [hkey]
    · simp [hkey]
  · constructor
    · intro h key hkey
      obtain ⟨m, hm, rfl⟩ := List.mem_map.mp hkey
      have hnone := h m.1 (List.mem_map_of_mem (mem_sortByName.mpr hm))
      by_contra hnot
      rw [if_neg hnot] at hnone
      cases hnone
    · intro h key hkey
      obtain ⟨m, hm, rfl⟩ := List.mem_map.mp hkey
      exact if_pos (h m.1 (List.mem_map_of_mem (mem_sortByName.mp hm)))

/-- Other values under the same names change nothing. -/
theorem checkStructure_map {members : Members} (f : String → Value → Value)
    (h : checkStructure members = []) :
    checkStructure (members.map fun m => (m.1, f m.1 m.2)) = [] := by
  rw [checkStructure_eq_nil] at h ⊢
  refine ⟨fun key hkey => ?_, fun key hkey => h.2 key ?_⟩
  · rw [lookup_map f, Option.isSome_map]
    exact h.1 key hkey
  · rwa [List.map_map] at hkey

theorem Shaped.body_isSome (h : Shaped content) : (content.get "body").isSome = true := by
  rcases h.kind with ⟨-, body, hbody⟩ | ⟨-, entries, hbody⟩
  · rw [hbody]
    rfl
  · rw [hbody]
    rfl

theorem Valid.get_printed_body (h : Valid p source content expanded) :
    (printedContent content expanded).get "body" = some (printedBody content expanded) :=
  get_withBody_body (shaped_of_shape h.shape).body_isSome

theorem printedBody_text (hkind : strAt content "kind" = some "text") :
    printedBody content expanded = .string (printed expanded "/body") := if_pos hkind

theorem printedBody_chat {entries : List Value} (hkind : strAt content "kind" = some "chat")
    (hbody : content.get "body" = some (.array entries)) :
    printedBody content expanded = .array (entries.zipIdx.map (printedEntry expanded)) := by
  unfold printedBody
  rw [if_neg (by rw [hkind]; decide), entriesOf_chat hbody]

/-- The body of a flat content is of the subset. -/
theorem Valid.printedBody_ajs (h : Valid p source content expanded) :
    Ajs 1 (printedBody content expanded) := by
  have hshaped := shaped_of_shape h.shape
  rcases hshaped.kind with ⟨hkind, -⟩ | ⟨hkind, entries, hbody⟩
  · rw [printedBody_text hkind]
    exact h.printed_nul _
  · have hajs := hshaped.ajs
    rw [printedBody_chat hkind hbody]
    refine ⟨by decide, ajsItems_iff.mpr fun item hitem => ?_⟩
    obtain ⟨e, he, rfl⟩ := List.mem_map.mp hitem
    have hentry : Ajs 2 e.1 := by
      cases content with
      | object members =>
          have hbodyAjs := (ajsMembers_iff.mp hajs.2 _ (lookup_mem hbody)).2
          exact ajsItems_iff.mp hbodyAjs.2 e.1 ((List.mem_zipIdx' he).2 ▸ List.getElem_mem _)
      | null => cases hbody
      | bool b => cases hbody
      | number n => cases hbody
      | string s => cases hbody
      | array items => cases hbody
    unfold printedEntry
    by_cases hrole : hasRole e.1 = true
    · rw [if_pos hrole]
      exact ajs_setMember hentry (h.printed_nul _)
    · rw [if_neg hrole]
      exact hentry

theorem Valid.checkBody_printed (h : Valid p source content expanded) :
    checkBody (content.get "kind") (some (printedBody content expanded)) = [] := by
  have hshaped := shaped_of_shape h.shape
  have hcheck := hshaped.body
  rcases hshaped.kind with ⟨hkind, -⟩ | ⟨hkind, entries, hbody⟩
  · rw [printedBody_text hkind]
    exact if_pos hkind
  · have hchat : (content.get "kind").bind asStr = some "chat" := hkind
    rw [hbody] at hcheck
    rw [printedBody_chat hkind hbody]
    unfold checkBody at hcheck ⊢
    rw [hchat, if_neg (by decide), if_pos rfl] at hcheck ⊢
    dsimp only at hcheck ⊢
    rw [List.length_map, List.length_zipIdx]
    by_cases hempty : entries = []
    · rw [if_pos hempty] at hcheck
      cases hcheck
    · rw [if_neg hempty] at hcheck
      rw [if_neg]
      · exact hcheck
      · intro hmap
        exact hempty (List.zipIdx_eq_nil_iff.mp (List.map_eq_nil_iff.mp hmap))

/-- **The shape of a flat content is right.** -/
theorem Valid.shape_printed (h : Valid p source content expanded) :
    checkContentShape (printedContent content expanded) = [] := by
  obtain ⟨members, heq, hschema, hajs, hstructure, hmembers⟩ := checkContentShape_eq_nil.mp h.shape
  have hbodyAjs := h.printedBody_ajs
  have hobject : printedContent content expanded = .object
      ((members.map fun m => (m.1, if m.1 = "body" then printedBody content expanded else m.2)).map
        fun m => (m.1, if m.1 = "fragments" then .object [] else m.2)) := by
    unfold printedContent withBody
    rw [heq]
    rfl
  refine checkContentShape_eq_nil.mpr ⟨_, hobject, ?_, ?_, ?_, ?_⟩
  · unfold printedContent
    rw [strAt_withBody (by decide) (by decide)]
    exact hschema
  · exact ajs_setMember (ajs_setMember hajs hbodyAjs) ⟨by decide, trivial⟩
  · exact checkStructure_map (fun k w => if k = "fragments" then .object [] else w)
      (checkStructure_map (fun k w => if k = "body" then printedBody content expanded else w)
        hstructure)
  · unfold checkContentMembers at hmembers ⊢
    simp only [List.append_eq_nil_iff] at hmembers ⊢
    obtain ⟨⟨⟨⟨⟨hformat, hversion⟩, -⟩, hdeclared⟩, hpartials⟩, hfragments⟩ := hmembers
    have hfragmentsSome : (content.get "fragments").isSome = true := by
      cases hget : content.get "fragments" with
      | some fragments => rfl
      | none =>
          unfold objectAt at hfragments
          rw [hget] at hfragments
          cases hfragments
    rw [h.get_printed_body]
    unfold printedContent
    rw [strAt_withBody (by decide) (by decide), strAt_withBody (by decide) (by decide),
      get_withBody_of_ne (by decide) (by decide), objectAt_withBody (by decide) (by decide),
      objectAt_withBody (by decide) (by decide)]
    refine ⟨⟨⟨⟨⟨hformat, hversion⟩, h.checkBody_printed⟩, hdeclared⟩, hpartials⟩, ?_⟩
    unfold objectAt
    rw [get_withBody_fragments hfragmentsSome]
    rfl

/-! ## The other stages -/

/-- The entries of a flat chat, with their places. -/
theorem Valid.zipIdx_printed (h : Valid p source content expanded)
    (hkind : strAt content "kind" = some "chat") :
    (entriesOf (printedContent content expanded)).zipIdx
      = (entriesOf content).zipIdx.map fun e => (printedEntry expanded e, e.2) := by
  rcases (shaped_of_shape h.shape).kind with ⟨htext, -⟩ | ⟨-, entries, hbody⟩
  · rw [hkind] at htext
    exact absurd htext (by decide)
  · have hprinted := h.get_printed_body
    rw [printedBody_chat hkind hbody] at hprinted
    rw [entriesOf_chat hbody, entriesOf_chat hprinted]
    exact zipIdx_map_zipIdx (printedEntry expanded) entries 0

/-- **The templates of a flat content are those that were printed.** -/
theorem Valid.contentTemplates_printed (h : Valid p source content expanded) :
    contentTemplates (printedContent content expanded)
      = (contentTemplates content).map (reprint expanded) := by
  have hprinted := h.get_printed_body
  have hflat : strAt (printedContent content expanded) "kind" = strAt content "kind" :=
    strAt_withBody (by decide) (by decide)
  rcases (shaped_of_shape h.shape).kind with ⟨hkind, body, hbody⟩ | ⟨hkind, entries, hbody⟩
  · rw [printedBody_text hkind] at hprinted
    rw [contentTemplates_text hkind hbody, contentTemplates_text (hflat.trans hkind) hprinted]
    rfl
  · have hzip := h.zipIdx_printed hkind
    rw [printedBody_chat hkind hbody] at hprinted
    rw [entriesOf_chat hbody, entriesOf_chat hprinted] at hzip
    rw [contentTemplates_chat hkind hbody, contentTemplates_chat (hflat.trans hkind) hprinted, hzip,
      List.filterMap_map, List.map_filterMap]
    refine List.filterMap_congr fun e he => ?_
    rw [← entriesOf_chat hbody] at he
    show entryTemplate (printedEntry expanded e, e.2) = (entryTemplate (e.1, e.2)).map _
    rcases h.entry hkind he with ⟨role, text, hentry⟩ | ⟨name, optional, hentry⟩
    · rw [entryTemplate_of_template hentry,
        entryTemplate_of_template (isTemplate_printedEntry hentry)]
      rfl
    · rw [entryTemplate_of_placeholder hentry,
        entryTemplate_of_placeholder (isPlaceholder_printedEntry hentry)]
      rfl

theorem Valid.entries_printed (h : Valid p source content expanded) :
    checkChatEntries (printedContent content expanded) = [] := by
  have hentries := h.entries
  have hflat : strAt (printedContent content expanded) "kind" = strAt content "kind" :=
    strAt_withBody (by decide) (by decide)
  unfold checkChatEntries at hentries ⊢
  rw [hflat]
  by_cases hkind : strAt content "kind" = some "chat"
  · rw [if_pos hkind] at hentries ⊢
    rw [h.zipIdx_printed hkind, List.filterMap_map]
    refine List.filterMap_eq_nil_iff.mpr fun e he => ?_
    exact entryIssue_printedEntry (List.filterMap_eq_nil_iff.mp hentries e he)
  · rw [if_neg hkind]

theorem lookup_plainExpansions (expanded : Expansions) (path : String) :
    lookup path (plainExpansions expanded)
      = (lookup path expanded).map fun tokens => tokens.map Expanded.plain :=
  lookup_map (fun _ (tokens : List Expanded) => tokens.map Expanded.plain) path expanded

/-- Fewer types are compared when the fragments are forgotten. -/
theorem checkTokens_plain {tokens : List Expanded} {path : String} {declared : Members}
    (h : checkTokens tokens path declared = []) :
    checkTokens (tokens.map Expanded.plain) path declared = [] := by
  unfold checkTokens at h ⊢
  rw [List.flatMap_map]
  refine List.flatMap_eq_nil_iff.mpr fun t ht => ?_
  have hcheck := List.flatMap_eq_nil_iff.mp h t ht
  cases t with
  | literal text => rfl
  | var name fragmentType =>
      unfold Expanded.plain checkToken
      unfold checkToken at hcheck
      dsimp only at hcheck ⊢
      cases hdeclared : lookup name declared with
      | none =>
          rw [hdeclared] at hcheck
          cases hcheck
      | some declaration =>
          rw [hdeclared] at hcheck
          dsimp only at hcheck ⊢
          by_cases hmessages : declarationType declaration = some "messages"
          · rw [if_pos hmessages] at hcheck
            cases hcheck
          · rw [if_neg hmessages]

/-- The checks of the entries look at nothing that is not in a flat chat. -/
theorem checkEntriesUse_printed {declared : Members} {entries : List (Value × Nat)}
    {seen : List String} (h : checkEntriesUse declared expanded seen entries = []) :
    checkEntriesUse declared (plainExpansions expanded) seen
      (entries.map fun e => (printedEntry expanded e, e.2)) = [] := by
  induction entries generalizing seen with
  | nil => rfl
  | cons e rest ih =>
      rw [List.map_cons]
      unfold checkEntriesUse at h ⊢
      dsimp only at h ⊢
      rw [hasRole_printedEntry, placeholderName_printedEntry, lookup_plainExpansions]
      by_cases hrole : hasRole e.1 = true
      · rw [if_pos hrole, List.append_eq_nil_iff] at h ⊢
        refine ⟨?_, ih h.2⟩
        have htokens := h.1
        cases hlookup : lookup (contentPath e.2) expanded with
        | none => rfl
        | some tokens =>
            rw [hlookup] at htokens
            exact checkTokens_plain htokens
      · rw [if_neg hrole, List.append_eq_nil_iff] at h ⊢
        exact ⟨h.1, ih h.2⟩

theorem Valid.use_printed (h : Valid p source content expanded) :
    checkVariableUse (printedContent content expanded) (membersAt content "variables")
      (plainExpansions expanded) = [] := by
  have huse := h.use
  have hflat : strAt (printedContent content expanded) "kind" = strAt content "kind" :=
    strAt_withBody (by decide) (by decide)
  unfold checkVariableUse at huse ⊢
  rw [hflat]
  rcases (shaped_of_shape h.shape).kind with ⟨hkind, -⟩ | ⟨hkind, -⟩
  · rw [if_pos hkind, List.append_eq_nil_iff] at huse ⊢
    refine ⟨?_, huse.2⟩
    have htokens := huse.1
    rw [lookup_plainExpansions]
    cases hlookup : lookup "/body" expanded with
    | none => rfl
    | some tokens =>
        rw [hlookup] at htokens
        exact checkTokens_plain htokens
  · have htext : strAt content "kind" ≠ some "text" := by
      rw [hkind]
      decide
    rw [if_neg htext] at huse ⊢
    rw [h.zipIdx_printed hkind]
    exact checkEntriesUse_printed huse

theorem Valid.placeholderEntries_printed (h : Valid p source content expanded) :
    placeholderEntries (printedContent content expanded) = placeholderEntries content := by
  have hflat : strAt (printedContent content expanded) "kind" = strAt content "kind" :=
    strAt_withBody (by decide) (by decide)
  unfold placeholderEntries
  rw [hflat]
  rcases (shaped_of_shape h.shape).kind with ⟨hkind, -⟩ | ⟨hkind, -⟩
  · rw [if_pos hkind, if_pos hkind]
  · have htext : strAt content "kind" ≠ some "text" := by
      rw [hkind]
      decide
    rw [if_neg htext, if_neg htext, h.zipIdx_printed hkind, List.filterMap_map]
    refine List.filterMap_congr fun e _ => ?_
    show (if hasRole (printedEntry expanded e) = true then none else some (e.2,
      placeholderName (printedEntry expanded e),
      (((printedEntry expanded e).get "optional").bind asBool).getD false)) = _
    rw [hasRole_printedEntry, placeholderName_printedEntry, get_printedEntry (by decide)]

/-- Outside of its templates a flat content has the texts of the content. -/
theorem Valid.secrets_printed (h : Valid p source content expanded)
    (hsecrets : ∀ t ∈ templateTexts (printedContent content expanded), scan p t.1 = []) :
    scanContentSecrets p (printedContent content expanded) = [] := by
  have hother : otherTexts (printedContent content expanded) = otherTexts content := by
    unfold otherTexts printedContent
    rw [membersAt_withBody (by decide) (by decide), get_withBody_of_ne (by decide) (by decide)]
  have hcontent := h.secrets
  unfold scanContentSecrets at hcontent ⊢
  rw [List.flatMap_append, List.append_eq_nil_iff] at hcontent ⊢
  rw [hother]
  refine ⟨List.flatMap_eq_nil_iff.mpr fun t ht => ?_, hcontent.2⟩
  exact List.map_eq_nil_iff.mpr (hsecrets t ht)

/-- **A flat content is valid**, when it is within the limits and its templates hold no secrets:
it expands to what the content expands to. -/
theorem Valid.flat (h : Valid p source content expanded)
    (hlimits : checkLimits (printedContent content expanded) = [])
    (hsecrets : ∀ t ∈ templateTexts (printedContent content expanded), scan p t.1 = []) :
    Valid p noFragments (printedContent content expanded) (plainExpansions expanded) := by
  have hfragments : (printedContent content expanded).objectAt "fragments" = some [] := by
    unfold objectAt printedContent
    rw [get_withBody_fragments]
    · rfl
    · obtain ⟨original, heq, -, -, horiginal, -⟩ := checkContentShape_eq_nil.mp h.shape
      rw [heq]
      exact (checkStructure_eq_nil.mp horiginal).1 "fragments" (by decide)
  have hvariables : membersAt (printedContent content expanded) "variables"
      = membersAt content "variables" := membersAt_withBody (by decide) (by decide)
  have hpartials : membersAt (printedContent content expanded) "partials"
      = membersAt content "partials" := membersAt_withBody (by decide) (by decide)
  have htemplates : (contentTemplates (printedContent content expanded)).map readTemplate
      = ((contentTemplates content).map readTemplate).map fun t =>
        readTemplate (reprint expanded t.1) := by
    rw [h.contentTemplates_printed, List.map_map, List.map_map]
    rfl
  obtain ⟨hread, hexpand⟩ := expandTemplates_printed (p := p) (v := ⟨noFragments, false⟩)
    h.expansions h.found 0 (some [])
  rw [← htemplates] at hread hexpand
  refine ⟨h.shape_printed, hlimits, h.entries_printed, hread, ?_, ?_, ?_, ?_, ?_, ?_,
    h.secrets_printed hsecrets⟩
  · unfold membersAt
    rw [hfragments]
    rfl
  · rw [hfragments]
    exact hexpand
  · rw [hvariables]
    exact h.use_printed
  · rw [hvariables, hpartials, h.placeholderEntries_printed]
    exact h.required
  · rw [hvariables, hpartials]
    exact h.partials
  · have hcontract := h.contract
    unfold checkOutputContract printedContent at *
    rw [get_withBody_of_ne (by decide) (by decide)]
    exact hcontract

end Agenomic.Prompt
