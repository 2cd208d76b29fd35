import Agenomic.Prompt.Binding

/-!
# Valid contents render

When a content is valid and its required variables are given, of their types, rendering
does not fail for lack of anything: it fails only when the output is too large or a
given message repeats a system message. What it returns is the expansion with every
variable replaced by the rendering of a value (`render_total`).
-/

namespace Agenomic.Prompt

open Lib Value

/-! ## Substitution -/

/-- The rendering of a variable: of what is given, or of its partial. -/
def scalarOf (content : Value) (given : Members) (name : String) : Option (List Char) := do
  let declaration ← lookup name (membersAt content "variables")
  let value ← (lookup name given).or (lookup name (membersAt content "partials"))
  some (renderScalar ((declarationType declaration).getD "") value)

/-- Replace every variable; none when there is one without a rendering. -/
def substitute (scalar : String → Option (List Char)) : List Expanded → Option (List Char)
  | [] => some []
  | .literal text :: rest => do
      let more ← substitute scalar rest
      some (text ++ more)
  | .var name _ :: rest => do
      let piece ← scalar name
      let more ← substitute scalar rest
      some (piece ++ more)

/-- The messages of one entry. -/
def entryMessages (content : Value) (given : Members) (expanded : Expansions)
    (entry : Value × Nat) : Option (List Value) :=
  match entry.1.get "role" with
  | some role => do
      let tokens ← lookup (contentPath entry.2) expanded
      let text ← substitute (scalarOf content given) tokens
      some [.object [("content", .string (String.ofList text)), ("role", role)]]
  | none =>
      match lookup (placeholderName entry.1) given with
      | none => some []
      | some value => asArray value

/-- The messages of entries. -/
def entriesMessages (content : Value) (given : Members) (expanded : Expansions) :
    List (Value × Nat) → Option (List Value)
  | [] => some []
  | entry :: rest => do
      let messages ← entryMessages content given expanded entry
      let more ← entriesMessages content given expanded rest
      some (messages ++ more)

/-- Every variable of the expansions was replaced. -/
structure Substituted (content : Value) (given : Members) (expanded : Expansions) (r : Rendered) :
    Prop where
  text : strAt content "kind" = some "text" → ∃ tokens text, lookup "/body" expanded = some tokens
    ∧ substitute (scalarOf content given) tokens = some text ∧ r.text = some (String.ofList text)
  chat : strAt content "kind" = some "chat" → ∃ messages,
    entriesMessages content given expanded (entriesOf content).zipIdx = some messages
      ∧ r.messages = some messages

variable {p : Primitives} {source : FragmentSource} {content : Value} {expanded : Expansions}
  {given values : Members}

/-! ## The variables of templates -/

/-- A variable that a template uses is declared, and is no list of messages. -/
theorem declared_of_checkToken {path name : String} {fragmentType : Option (String × Option Value)}
    {declared : Members} (h : checkToken path declared (.var name fragmentType) = []) :
    ∃ declaration, lookup name declared = some declaration
      ∧ declarationType declaration ≠ some "messages" := by
  unfold checkToken at h
  dsimp only at h
  cases hdeclared : lookup name declared with
  | none =>
      rw [hdeclared] at h
      cases h
  | some declaration =>
      rw [hdeclared] at h
      dsimp only at h
      refine ⟨declaration, rfl, fun hmessages => ?_⟩
      rw [if_pos hmessages] at h
      cases h

/-- It is bound to what is given or to its partial. -/
theorem lookup_values (h : Valid p source content expanded) (hgiven : Assigns content given)
    (hbound : BoundTo content given values) {name : String} {declaration : Value}
    (hdeclared : lookup name (membersAt content "variables") = some declaration)
    (htype : declarationType declaration ≠ some "messages") :
    ∃ value, (lookup name given).or (lookup name (membersAt content "partials")) = some value
      ∧ lookup name values = some value ∧ Ajs 0 value := by
  have hvalue := hbound name
  rw [hdeclared, Option.bind_some] at hvalue
  obtain ⟨value, hchoose, -⟩ := chooseValue_ok h hgiven hdeclared
  have hvalues : lookup name values = some value := hvalue.trans hchoose
  unfold chooseValue at hchoose
  cases hg : lookup name given with
  | some v =>
      rw [hg] at hchoose
      cases hchoose
      obtain ⟨_, -, hajs, -⟩ := hgiven.typed name value hg
      exact ⟨value, rfl, hvalues, hajs⟩
  | none =>
      rw [hg] at hchoose
      dsimp only at hchoose
      cases hp : lookup name (membersAt content "partials") with
      | some v =>
          rw [hp] at hchoose
          cases hchoose
          exact ⟨value, rfl, hvalues,
            ajs_membersAt (shaped_of_shape h.shape).ajs _ (lookup_mem hp)⟩
      | none =>
          rw [hp] at hchoose
          dsimp only at hchoose
          obtain ⟨⟨type, -, htypeSome⟩, -⟩ :=
            (shaped_of_shape h.shape).declaration (lookup_mem hdeclared)
          rw [if_neg] at hchoose
          · cases hchoose
          · rintro ⟨hmessages, -⟩
            rw [htypeSome] at htype hmessages
            exact htype (congrArg some hmessages)

/-- **Every variable of checked tokens is replaced.** -/
theorem renderTokens_substitute (h : Valid p source content expanded)
    (hgiven : Assigns content given) (hbound : BoundTo content given values) {path : String}
    {tokens : List Expanded}
    (htokens : checkTokens tokens path (membersAt content "variables") = []) :
    substitute (scalarOf content given) tokens
      = some (renderTokens (membersAt content "variables") values tokens) := by
  induction tokens with
  | nil => rfl
  | cons token rest ih =>
      unfold checkTokens at htokens ih
      rw [List.flatMap_cons, List.append_eq_nil_iff] at htokens
      have ih := ih htokens.2
      unfold renderTokens at ih ⊢
      rw [List.flatMap_cons]
      cases token with
      | literal text =>
          unfold substitute
          rw [ih]
          rfl
      | var name fragmentType =>
          obtain ⟨declaration, hdeclared, htype⟩ := declared_of_checkToken htokens.1
          obtain ⟨value, hor, hvalues, -⟩ := lookup_values h hgiven hbound hdeclared htype
          have hscalar : scalarOf content given name
              = some (renderToken (membersAt content "variables") values (.var name fragmentType)) := by
            unfold scalarOf renderToken
            dsimp only
            rw [hvalues, hdeclared, hor]
            rfl
          unfold substitute
          rw [hscalar, ih]
          rfl

/-! ## What is rendered holds no NUL -/

theorem renderScalar_nul {varType : String} {value : Value} (h : Ajs 0 value) :
    nul ∉ renderScalar varType value := by
  unfold renderScalar
  cases value with
  | string text =>
      dsimp only
      by_cases ht : varType = "string"
      · rw [if_pos ht]
        exact h
      · rw [if_neg ht]
        exact nul_not_mem_canonicalChars h
  | number n =>
      dsimp only
      by_cases ht : varType = "integer"
      · rw [if_pos ht]
        obtain ⟨i, hi⟩ := h
        rw [hi]
        intro hmem
        exact absurd (Json.writeNumber_printable hmem) (by decide)
      · rw [if_neg ht]
        exact nul_not_mem_canonicalChars h
  | bool flag =>
      dsimp only
      by_cases ht : varType = "boolean"
      · rw [if_pos ht]
        cases flag <;> decide
      · rw [if_neg ht]
        exact nul_not_mem_canonicalChars h
  | null => exact nul_not_mem_canonicalChars h
  | array items => exact nul_not_mem_canonicalChars h
  | object members => exact nul_not_mem_canonicalChars h

theorem renderTokens_nul (h : Valid p source content expanded) (hgiven : Assigns content given)
    (hbound : BoundTo content given values) {path : String} {tokens : List Expanded}
    (hmerged : Merged tokens)
    (htokens : checkTokens tokens path (membersAt content "variables") = []) :
    nul ∉ renderTokens (membersAt content "variables") values tokens := by
  intro hmem
  unfold renderTokens at hmem
  obtain ⟨token, htoken, hmem⟩ := List.mem_flatMap.mp hmem
  cases token with
  | literal text => exact (hmerged.fine _ htoken).2 nul hmem rfl
  | var name fragmentType =>
      have hcheck := List.flatMap_eq_nil_iff.mp htokens _ htoken
      obtain ⟨declaration, hdeclared, htype⟩ := declared_of_checkToken hcheck
      obtain ⟨value, -, hvalues, hajs⟩ := lookup_values h hgiven hbound hdeclared htype
      unfold renderToken at hmem
      dsimp only at hmem
      rw [hvalues] at hmem
      exact renderScalar_nul hajs hmem

theorem promptDigest_nul {v : Value} {digest : String} (h : promptDigest p v = .ok digest) :
    nul ∉ digest.toList := by
  unfold promptDigest at h
  obtain ⟨_, -, h⟩ := bind_eq_ok.mp h
  cases h
  unfold sha256Prefixed
  intro hmem
  rw [String.toList_append] at hmem
  rcases List.mem_append.mp hmem with hmem | hmem
  · exact absurd hmem (by decide)
  · rw [String.toList_ofList] at hmem
    have hhex : isHexDigit nul = true := hexEncode_isHexDigit hmem
    exact absurd hhex (by decide)

/-! ## The rendered document -/

/-- The document of a result is of the subset when its varying parts are. -/
theorem ajs_documentOf {parts : RenderedParts} {digest : String} {count : Nat}
    (hdigest : nul ∉ digest.toList) (hcount : count < 2 ^ 53) (hkind : nul ∉ parts.kind.toList)
    (htext : ∀ text, parts.text = some text → nul ∉ text.toList)
    (hdocument : Ajs 1 parts.document) : Ajs 0 (documentOf parts digest count) := by
  have hnumber : Ajs 1 (.number (.int count)) := by
    refine ⟨count, ?_⟩
    unfold ajsInteger
    dsimp only
    rw [if_pos]
    unfold maxSafeInteger
    rw [abs_of_nonneg (Int.natCast_nonneg count)]
    omega
  have hoptional : Ajs 1 (optString parts.text) := by
    unfold optString
    cases htextSome : parts.text with
    | none => trivial
    | some text => exact htext text htextSome
  have hschema : nul ∉ renderedPromptSchema.toList := by decide
  exact ⟨by decide, ⟨by decide, hdigest⟩, ⟨by decide, hnumber⟩, ⟨by decide, hkind⟩,
    ⟨by decide, hdocument⟩, ⟨by decide, hschema⟩, ⟨by decide, hoptional⟩, trivial⟩

/-- The size and the digest are the last checks. -/
theorem finishRender_of_ajs {parts : RenderedParts} {digest : String} {count : Nat}
    (h : Ajs 0 (documentOf parts digest count)) (warnings : List Issue) :
    finishRender p parts digest count warnings = .error (Issue.new "rendered_output_too_large")
      ∨ ∃ r, finishRender p parts digest count warnings = .ok r ∧ r.text = parts.text
        ∧ r.messages = parts.messages := by
  unfold finishRender
  by_cases hsize : maxRenderedCodePoints < parts.size
  · rw [if_pos hsize]
    exact .inl rfl
  · rw [if_neg hsize]
    obtain ⟨hash, hhash⟩ := promptDigest_eq_ok (p := p).mpr h
    dsimp only
    rw [hhash]
    exact .inr ⟨_, rfl, rfl, rfl⟩

/-! ## Entries -/

/-- The checks of the entries of a chat. -/
theorem checkEntriesUse_eq_nil {declared : Members} {entries : List (Value × Nat)}
    {seen : List String} (h : checkEntriesUse declared expanded seen entries = []) :
    ∀ e ∈ entries,
      (hasRole e.1 = true → ∀ tokens, lookup (contentPath e.2) expanded = some tokens →
        checkTokens tokens (contentPath e.2) declared = [])
      ∧ (hasRole e.1 = false →
        checkPlaceholder declared (entryPath e.2) (placeholderName e.1) = []) := by
  induction entries generalizing seen with
  | nil => exact fun e he => absurd he List.not_mem_nil
  | cons entry rest ih =>
      obtain ⟨entry, index⟩ := entry
      unfold checkEntriesUse at h
      by_cases hrole : hasRole entry = true
      · rw [if_pos hrole, List.append_eq_nil_iff] at h
        intro e he
        rcases List.mem_cons.mp he with rfl | he
        · refine ⟨fun _ tokens htokens => ?_, fun hno => by rw [hrole] at hno; cases hno⟩
          have hcheck := h.1
          rw [htokens] at hcheck
          exact hcheck
        · exact ih h.2 e he
      · rw [if_neg hrole] at h
        simp only [List.append_eq_nil_iff] at h
        intro e he
        rcases List.mem_cons.mp he with rfl | he
        · exact ⟨fun hyes => absurd hyes hrole, fun _ => h.1.1⟩
        · exact ih h.2 e he

/-- The variable of a placeholder is a list of messages. -/
theorem declared_of_checkPlaceholder {declared : Members} {path name : String}
    (h : checkPlaceholder declared path name = []) :
    ∃ declaration, lookup name declared = some declaration
      ∧ declarationType declaration = some "messages" := by
  unfold checkPlaceholder at h
  cases hdeclared : lookup name declared with
  | none =>
      rw [hdeclared] at h
      cases h
  | some declaration =>
      rw [hdeclared] at h
      dsimp only at h
      refine ⟨declaration, rfl, ?_⟩
      by_contra hne
      rw [if_pos hne] at h
      cases h

/-- A variable for messages is bound to the messages that are given, or to none. -/
theorem messagesOf_eq (h : Valid p source content expanded) (hgiven : Assigns content given)
    (hbound : BoundTo content given values) {name : String} {declaration : Value}
    (hdeclared : lookup name (membersAt content "variables") = some declaration)
    (htype : declarationType declaration = some "messages") :
    (match lookup name given with
      | none => some []
      | some value => asArray value) = some (messagesOf values name) := by
  have hvalue := hbound name
  rw [hdeclared, Option.bind_some] at hvalue
  unfold messagesOf
  rw [hvalue]
  unfold chooseValue
  cases hg : lookup name given with
  | some v =>
      obtain ⟨declaration', hdeclared', -, hhas⟩ := hgiven.typed name v hg
      rw [hdeclared] at hdeclared'
      cases hdeclared'
      obtain ⟨items, rfl, -⟩ := hhas.messages (by rw [htype]; rfl)
      rfl
  | none =>
      dsimp only
      cases hp : lookup name (membersAt content "partials") with
      | some v =>
          -- There is no partial for a list of messages.
          have hcheck : checkPartial (membersAt content "variables") name v = [] :=
            List.flatMap_eq_nil_iff.mp h.partials (name, v) (mem_sortByName.mpr (lookup_mem hp))
          unfold checkPartial at hcheck
          dsimp only at hcheck
          rw [hdeclared] at hcheck
          dsimp only at hcheck
          rw [if_pos htype] at hcheck
          cases hcheck
      | none =>
          dsimp only
          by_cases hopt : (declarationType declaration).getD "" = "messages"
              ∧ declarationRequired declaration = false
          · rw [if_pos hopt]
            rfl
          · rw [if_neg hopt]
            rfl

/-- A list that is bound to a variable fits in memory. -/
theorem messagesOf_length (hcontent : content.WellFormed)
    (hgivenWf : (Value.object given).WellFormed) (hbound : BoundTo content given values)
    (name : String) : (messagesOf values name).length < 2 ^ 53 := by
  have hvalue := hbound name
  unfold messagesOf
  cases hv : lookup name values with
  | none => decide
  | some value =>
      have hwf : value.WellFormed := by
        rw [hv] at hvalue
        obtain ⟨declaration, -, hchoose⟩ := Option.bind_eq_some_iff.mp hvalue.symm
        unfold chooseValue at hchoose
        cases hg : lookup name given with
        | some v =>
            rw [hg] at hchoose
            cases hchoose
            exact wellFormed_of_mem hgivenWf.2 (lookup_mem hg)
        | none =>
            rw [hg] at hchoose
            dsimp only at hchoose
            cases hp : lookup name (membersAt content "partials") with
            | some v =>
                rw [hp] at hchoose
                cases hchoose
                unfold membersAt at hp
                cases hpartials : content.objectAt "partials" with
                | none =>
                    rw [hpartials] at hp
                    cases hp
                | some partials =>
                    rw [hpartials, Option.getD_some] at hp
                    unfold objectAt at hpartials
                    obtain ⟨w, hw, hobj⟩ := Option.bind_eq_some_iff.mp hpartials
                    have hwfw := hcontent.get hw
                    cases w with
                    | object members =>
                        cases hobj
                        exact wellFormed_of_mem hwfw.2 (lookup_mem hp)
                    | null => cases hobj
                    | bool b => cases hobj
                    | number n => cases hobj
                    | string s => cases hobj
                    | array items => cases hobj
            | none =>
                rw [hp] at hchoose
                dsimp only at hchoose
                by_cases hopt : (declarationType declaration).getD "" = "messages"
                    ∧ declarationRequired declaration = false
                · rw [if_pos hopt] at hchoose
                  cases hchoose
                  exact ⟨by decide, trivial⟩
                · rw [if_neg hopt] at hchoose
                  cases hchoose
      cases value with
      | array items => exact hwf.1
      | null => exact Nat.two_pow_pos 53
      | bool b => exact Nat.two_pow_pos 53
      | number n => exact Nat.two_pow_pos 53
      | string s => exact Nat.two_pow_pos 53
      | object members => exact Nat.two_pow_pos 53

/-! ## The two kinds -/

theorem hasRole_of_template {entry : Value} {role text : String}
    (h : IsTemplate entry role text) : hasRole entry = true := by
  unfold hasRole
  rw [h.hasRole]
  rfl

theorem hasRole_of_placeholder {entry : Value} {name : String} {optional : Bool}
    (h : IsPlaceholder entry name optional) : hasRole entry = false := by
  unfold hasRole
  rw [h.noRole]
  rfl

theorem placeholderName_eq {entry : Value} {name : String} {optional : Bool}
    (h : IsPlaceholder entry name optional) : placeholderName entry = name := by
  unfold placeholderName strAt
  rw [h.hasName]
  rfl

/-- What is known of one entry of a chat that is rendered. -/
structure EntryRenders (content : Value) (given values : Members) (expanded : Expansions)
    (entry : Value × Nat) : Prop where
  messages : entryMessages content given expanded entry
    = some (renderEntry (membersAt content "variables") values expanded entry).messages
  document : Ajs 2 (renderEntry (membersAt content "variables") values expanded entry).document

/-- **Every entry of a valid chat renders.** -/
theorem entryRenders (h : Valid p source content expanded) (hcontent : content.WellFormed)
    (hgivenWf : (Value.object given).WellFormed) (hgiven : Assigns content given)
    (hbound : BoundTo content given values) (hchat : strAt content "kind" = some "chat")
    {entry : Value × Nat} (hmem : entry ∈ (entriesOf content).zipIdx) :
    EntryRenders content given values expanded entry := by
  obtain ⟨entry, index⟩ := entry
  have huse := h.use
  unfold checkVariableUse at huse
  rw [if_neg (by rw [hchat]; decide)] at huse
  obtain ⟨htemplate, hplaceholder⟩ := checkEntriesUse_eq_nil huse (entry, index) hmem
  rcases h.entry hchat hmem with ⟨role, text, hentry⟩ | ⟨name, optional, hentry⟩
  · -- A template: its tokens are all replaced.
    have hbody : ∃ entries, content.get "body" = some (.array entries) := by
      rcases (shaped_of_shape h.shape).kind with ⟨hkind, -⟩ | ⟨-, hbody⟩
      · rw [hchat] at hkind
        exact absurd hkind (by decide)
      · exact hbody
    obtain ⟨entries, hbody⟩ := hbody
    have ht : (⟨contentPath index, some text⟩ : Template) ∈ contentTemplates content := by
      rw [contentTemplates_chat hchat hbody]
      exact List.mem_filterMap.mpr
        ⟨(entry, index), entriesOf_chat hbody ▸ hmem, entryTemplate_of_template hentry index⟩
    obtain ⟨tokens, htokens⟩ := h.lookup_template ht
    have hcheck := htemplate (hasRole_of_template hentry) tokens htokens
    have hsubst := renderTokens_substitute h hgiven hbound hcheck
    have hnul := renderTokens_nul h hgiven hbound (h.merged htokens) hcheck
    have hrole : Ajs 3 (.string role) := by
      have hroles : ∀ r ∈ templateRoles, nul ∉ r.toList := by decide
      exact hroles role hentry.known
    refine ⟨?_, ?_⟩
    · unfold entryMessages renderEntry tokensAt
      dsimp only
      rw [hentry.hasRole]
      dsimp only
      rw [htokens, Option.bind_eq_bind, Option.bind_some, hsubst]
      rfl
    · unfold renderEntry tokensAt
      dsimp only
      rw [hentry.hasRole, htokens]
      dsimp only
      rw [Option.getD_some]
      refine ⟨by decide, ⟨by decide, ?_⟩, ⟨by decide, hrole⟩, trivial⟩
      show nul ∉ (String.ofList _).toList
      rw [String.toList_ofList]
      exact hnul
  · -- A placeholder: its variable is a list of messages.
    obtain ⟨declaration, hdeclared, htype⟩ :=
      declared_of_checkPlaceholder (hplaceholder (hasRole_of_placeholder hentry))
    have hmessages := messagesOf_eq h hgiven hbound hdeclared htype
    have hlength := messagesOf_length hcontent hgivenWf hbound (placeholderName entry)
    have hname : nul ∉ (placeholderName entry).toList := by
      rw [placeholderName_eq hentry]
      intro hnul
      exact absurd ((isName_iff.mp hentry.named).2.2.1 nul hnul) (by decide)
    refine ⟨?_, ?_⟩
    · unfold entryMessages renderEntry
      dsimp only
      rw [hentry.noRole]
      exact hmessages
    · unfold renderEntry
      dsimp only
      rw [hentry.noRole]
      refine ⟨by decide, ⟨by decide, (messagesOf values (placeholderName entry)).length, ?_⟩,
        ⟨by decide, hname⟩, trivial⟩
      unfold ajsInteger
      dsimp only
      rw [if_pos]
      unfold maxSafeInteger
      rw [abs_of_nonneg (Int.natCast_nonneg _)]
      omega

theorem entriesMessages_eq {entries : List (Value × Nat)}
    (h : ∀ e ∈ entries, EntryRenders content given values expanded e) :
    entriesMessages content given expanded entries
      = some ((entries.map (renderEntry (membersAt content "variables") values expanded)).flatMap
        RenderedEntry.messages) := by
  induction entries with
  | nil => rfl
  | cons e rest ih =>
      unfold entriesMessages
      rw [(h e List.mem_cons_self).messages, ih fun e he => h e (List.mem_cons_of_mem _ he)]
      rfl

/-! ## The theorem -/

theorem unknownVariables_eq_nil (hgiven : Assigns content given) :
    unknownVariables (membersAt content "variables") given = [] := by
  unfold unknownVariables
  rw [List.filter_eq_nil_iff]
  intro name hname hnone
  obtain ⟨⟨_, value⟩, hmem, rfl⟩ := List.mem_map.mp hname
  obtain ⟨w, hw⟩ := lookup_isSome (mem_sortByName.mp hmem)
  obtain ⟨declaration, hdeclared, -, -⟩ := hgiven.typed _ w hw
  rw [hdeclared] at hnone
  cases hnone

theorem nodup_membersAt (h : content.WellFormed) (key : String) :
    ((membersAt content key).map Prod.fst).Nodup := by
  unfold membersAt objectAt
  cases hget : content.get key with
  | none => exact List.nodup_nil
  | some w =>
      rw [Option.bind_some]
      cases hobj : w.asObject with
      | none => exact List.nodup_nil
      | some members => exact (h.get hget).nodup hobj

/-- What a valid text renders to. -/
theorem renderText_total (h : Valid p source content expanded) (hgiven : Assigns content given)
    (hbound : BoundTo content given values) (hkind : strAt content "kind" = some "text") :
    ∃ tokens text, lookup "/body" expanded = some tokens
      ∧ substitute (scalarOf content given) tokens = some text
      ∧ (renderText (membersAt content "variables") values expanded).text = some (String.ofList text)
      ∧ nul ∉ text := by
  have hbody : ∃ body, content.get "body" = some (.string body) := by
    rcases (shaped_of_shape h.shape).kind with ⟨-, hbody⟩ | ⟨hchat, -⟩
    · exact hbody
    · rw [hkind] at hchat
      exact absurd hchat (by decide)
  obtain ⟨body, hbody⟩ := hbody
  have ht : (⟨"/body", some body⟩ : Template) ∈ contentTemplates content := by
    rw [contentTemplates_text hkind hbody]
    exact List.mem_cons_self
  obtain ⟨tokens, htokens⟩ := h.lookup_template ht
  have huse := h.use
  unfold checkVariableUse at huse
  rw [if_pos hkind, htokens] at huse
  have hcheck := (List.append_eq_nil_iff.mp huse).1
  refine ⟨tokens, _, htokens, renderTokens_substitute h hgiven hbound hcheck, ?_,
    renderTokens_nul h hgiven hbound (h.merged htokens) hcheck⟩
  unfold renderText tokensAt
  rw [htokens]
  rfl

/-- What is left of rendering a valid content, when its variables are bound. -/
theorem renderValidated_eq (h : Valid p source content expanded) (hgiven : Assigns content given)
    (hvalues : bindValues given (membersAt content "partials")
      (sortByName (membersAt content "variables")) = .ok values)
    {o : RenderOptions} (hhistory : o.history = none) (hpolicy : o.secretPolicy = .off) :
    ∃ warnings, renderValidated p content given o (validate p content source)
      = if strAt content "kind" = some "chat" then do
          checkDuplicates o.allowDuplicateSystem
            (systemContentsOf (membersAt content "variables") values expanded (entriesOf content))
            values (entriesOf content) []
          finishRender p
            (renderChat (membersAt content "variables") values expanded (entriesOf content) [])
            ((promptDigest p content).toOption.getD "") 0 warnings
        else finishRender p (renderText (membersAt content "variables") values expanded)
          ((promptDigest p content).toOption.getD "") 0 warnings := by
  obtain ⟨-, hexpanded, hdigest⟩ := h.report
  have hunknown : checkUnknown o.strict (unknownVariables (membersAt content "variables") given)
      = .ok () := by
    rw [unknownVariables_eq_nil hgiven]
    unfold checkUnknown
    cases o.strict <;> rfl
  refine ⟨(validate p content source).warnings ++ (unknownVariables
    (membersAt content "variables") given).map fun name => (Issue.new "strict_disabled").var name, ?_⟩
  unfold renderValidated
  dsimp only
  rw [hexpanded, hdigest, hunknown, hvalues, hpolicy, hhistory]
  by_cases hchat : strAt content "kind" = some "chat"
  · rw [if_pos hchat, decide_eq_true hchat]
    rfl
  · rw [if_neg hchat, decide_eq_false hchat]
    rfl

/-- What a valid chat renders to. -/
theorem renderChat_total (h : Valid p source content expanded) (hcontent : content.WellFormed)
    (hgivenWf : (Value.object given).WellFormed) (hgiven : Assigns content given)
    (hbound : BoundTo content given values) (hchat : strAt content "kind" = some "chat") :
    entriesMessages content given expanded (entriesOf content).zipIdx
        = (renderChat (membersAt content "variables") values expanded (entriesOf content) []).messages
      ∧ Ajs 1 (renderChat (membersAt content "variables") values expanded (entriesOf content)
        []).document := by
  have heach : ∀ e ∈ (entriesOf content).zipIdx, EntryRenders content given values expanded e :=
    fun _ he => entryRenders h hcontent hgivenWf hgiven hbound hchat he
  refine ⟨?_, ?_⟩
  · rw [entriesMessages_eq heach]
    unfold renderChat
    dsimp only
    rw [List.append_nil]
  · refine ⟨by decide, ?_⟩
    rw [ajsItems_iff]
    intro document hdocument
    simp only [List.map_map, List.mem_map] at hdocument
    obtain ⟨e, he, rfl⟩ := hdocument
    exact (heach e he).document

/-- The only issue of messages that repeat a system message. -/
theorem checkDuplicates_cases (allowed : Bool) (systemContents : List String) (values : Members)
    (entries history : List Value) :
    checkDuplicates allowed systemContents values entries history = .ok ()
      ∨ ∃ issue, checkDuplicates allowed systemContents values entries history = .error issue
        ∧ issue.code = "duplicate_system_message" := by
  have hat : ∀ path items issue, duplicateAt systemContents path items = some issue →
      issue.code = "duplicate_system_message" := by
    intro path items issue h
    unfold duplicateAt at h
    obtain ⟨⟨item, index⟩, -, h⟩ := List.exists_of_findSome?_eq_some h
    dsimp only at h
    by_cases hdup : duplicatesSystem systemContents item = true
    · rw [if_pos hdup] at h
      cases h
      rfl
    · rw [if_neg hdup] at h
      cases h
  unfold checkDuplicates
  by_cases hallowed : allowed = true
  · rw [if_pos hallowed]
    exact .inl rfl
  · rw [if_neg hallowed]
    cases hdup : duplicateSystem systemContents values entries history with
    | none => exact .inl rfl
    | some issue =>
        refine .inr ⟨issue, rfl, ?_⟩
        unfold duplicateSystem at hdup
        rcases Option.or_eq_some_iff.mp hdup with hsome | ⟨-, hsome⟩
        · obtain ⟨entry, -, hsome⟩ := List.exists_of_findSome?_eq_some hsome
          cases hname : strAt entry "placeholder" with
          | none =>
              rw [hname] at hsome
              cases hsome
          | some name =>
              rw [hname] at hsome
              exact hat _ _ _ hsome
        · exact hat _ _ _ hsome

/-- **A valid content renders, when its required variables are given**: it fails only when the
output is too large or a message repeats a system message, and what it returns has every variable
of the expansions replaced. -/
theorem render_total (content : Document) (given : Map) (source : FragmentSource)
    (o : RenderOptions) (hvalid : (validate p content.1 source).ok = true)
    (hgiven : Assigns content.1 given.1) (hhistory : o.history = none)
    (hpolicy : o.secretPolicy = .off) :
    (∃ r, render p content.1 given.1 source o = .ok r
        ∧ Substituted content.1 given.1 (validate p content.1 source).expanded r)
      ∨ ∃ e, render p content.1 given.1 source o = .error e
        ∧ (e.reason = "rendered_output_too_large" ∨ e.reason = "duplicate_system_message") := by
  obtain ⟨expanded, h⟩ := validate_errors_eq_nil.mp (of_decide_eq_true hvalid)
  obtain ⟨herrors, hexpanded, -⟩ := h.report
  obtain ⟨values, hvalues, hbound⟩ :=
    bindValues_assigned h (nodup_membersAt content.2 "variables") hgiven
  obtain ⟨warnings, heq⟩ := renderValidated_eq h hgiven hvalues hhistory hpolicy
  have hrender : render p content.1 given.1 source o
      = (renderValidated p content.1 given.1 o (validate p content.1 source)).mapError
        RenderError.of := by
    unfold render renderAs
    dsimp only
    rw [if_neg (not_not.mpr herrors), if_neg (by simp)]
  have hdigestNul : nul ∉ ((promptDigest p content.1).toOption.getD "").toList := by
    cases hd : promptDigest p content.1 with
    | error e => exact List.not_mem_nil
    | ok digest => exact promptDigest_nul hd
  rw [hrender, heq, hexpanded]
  rcases (shaped_of_shape h.shape).kind with ⟨hkind, -⟩ | ⟨hkind, -⟩
  · have hchat : strAt content.1 "kind" ≠ some "chat" := by
      rw [hkind]
      decide
    obtain ⟨tokens, text, htokens, hsubst, htext, hnul⟩ := renderText_total h hgiven hbound hkind
    have hajs : Ajs 0 (documentOf (renderText (membersAt content.1 "variables") values expanded)
        ((promptDigest p content.1).toOption.getD "") 0) := by
      refine ajs_documentOf hdigestNul (Nat.two_pow_pos 53) (by show nul ∉ "text".toList; decide)
        (fun t ht => ?_) trivial
      rw [htext] at ht
      cases ht
      rw [String.toList_ofList]
      exact hnul
    rw [if_neg hchat]
    rcases finishRender_of_ajs (p := p) hajs warnings with hlarge | ⟨r, hr, hrtext, -⟩
    · rw [hlarge]
      exact .inr ⟨_, rfl, .inl rfl⟩
    · rw [hr]
      refine .inl ⟨r, rfl, ⟨fun _ => ⟨tokens, text, htokens, hsubst, hrtext.trans htext⟩, ?_⟩⟩
      exact fun hk => absurd hk hchat
  · obtain ⟨hmessages, hdocument⟩ := renderChat_total h content.2 given.2 hgiven hbound hkind
    have hajs : Ajs 0 (documentOf
        (renderChat (membersAt content.1 "variables") values expanded (entriesOf content.1) [])
        ((promptDigest p content.1).toOption.getD "") 0) :=
      ajs_documentOf hdigestNul (Nat.two_pow_pos 53) (by show nul ∉ "chat".toList; decide)
        (fun t ht => by cases ht) hdocument
    rw [if_pos hkind]
    rcases checkDuplicates_cases o.allowDuplicateSystem
      (systemContentsOf (membersAt content.1 "variables") values expanded (entriesOf content.1))
      values (entriesOf content.1) [] with hok | ⟨issue, hissue, hcode⟩
    · rw [hok]
      rcases finishRender_of_ajs (p := p) hajs warnings with hlarge | ⟨r, hr, -, hrmessages⟩
      · refine .inr ⟨RenderError.of (Issue.new "rendered_output_too_large"), ?_, .inl rfl⟩
        show Except.mapError _ (finishRender _ _ _ _ _) = _
        rw [hlarge]
        rfl
      · refine .inl ⟨r, ?_, ⟨?_, fun _ => ⟨_, ?_, hrmessages⟩⟩⟩
        · show Except.mapError _ (finishRender _ _ _ _ _) = _
          rw [hr]
          rfl
        · intro hk
          rw [hkind] at hk
          exact absurd hk (by decide)
        · exact hmessages
    · rw [hissue]
      exact .inr ⟨RenderError.of issue, rfl, .inr hcode⟩

/-! ## A greeting with a fragment -/

/-- The digests of a few messages, told apart by their lengths and a character. -/
def greetingSha256 (message : Bytes) : Bytes :=
  (hexDecode (match message.length, message.getD 26 0 with
    | 245, _ => "e416e3e3a170bb11a2425aca2f4bed57ddd1964019503187aae9d5d9bd68521a"
    | 385, _ => "32b4f0660c8407b9af4bd945465ae1126fe3514a59fbb167815ba8c7c9925240"
    | 257, _ => "44b47f534d5bcea5bf3bfd8a33732e73db9eccca80214281f9998770ec40fb45"
    | 208, 51 => "fba2d3b4f3c61af23d7f0811060371fcb059062fa30047a591be00dd4badf3ce"
    | 208, 52 => "c729b7256903cf9fa2ab0e312440443b902010f6e4f7b3a8b622ffd768314246"
    | _, _ => "").toList).getD []

def greetingPrimitives : Primitives where
  sha256 := greetingSha256
  blake3 := fun _ => []
  VerifyingKey := Unit
  verifyStrict := fun _ _ _ => false
  base64Decode := fun _ => none
  parseTimestamp := fun _ => none
  findIter := fun _ _ => []

/-- A text for a name, with these fragments. -/
def greeting (body : String) (fragments : Members) : Value :=
  .object
    [ ("body", .string body), ("fragments", .object fragments), ("kind", .string "text"),
      ("output_contract", .null), ("partials", .object []), ("renderer_version", .string "1"),
      ("schema", .string contentSchema), ("template_format", .string templateFormat),
      ("variables", .object [("name",
        .object [("required", .bool true), ("type", .string "string")])]) ]

/-- The one fragment that there is. -/
def greetingSource : FragmentSource := fun promptId version =>
  if promptId = "prm_a" ∧ version = 1 then
    some ⟨some "fragment", greeting "Dear \x7bname\x7d," []⟩
  else none

def greetingContent : Value :=
  greeting "\x7b>intro\x7d read \x7b\x7bx\x7d\x7d." [("intro", .object
    [ ("content_digest", .string
        "sha256:e416e3e3a170bb11a2425aca2f4bed57ddd1964019503187aae9d5d9bd68521a"),
      ("prompt_id", .string "prm_a"), ("version", .number (.int 1)) ])]

def greetingVariables : Members := [("name", .string "Ada")]

theorem greetingContent_wellFormed : greetingContent.WellFormed := by
  simp only [greetingContent, greeting, WellFormed, WellFormedMembers]
  decide

theorem greetingVariables_wellFormed : (Value.object greetingVariables).WellFormed := by
  simp only [greetingVariables, WellFormed, WellFormedMembers]
  decide

set_option maxRecDepth 10000 in
theorem validate_greeting :
    (validate greetingPrimitives greetingContent greetingSource).ok = true := by
  decide +kernel

theorem assigns_greeting : Assigns greetingContent greetingVariables := by
  refine ⟨?_, ?_⟩
  · intro name value h
    unfold greetingVariables lookup at h
    by_cases hname : "name" = name
    · subst hname
      cases h
      refine ⟨_, rfl, ?_, ?_⟩
      · show nul ∉ "Ada".toList
        decide
      · refine ⟨fun _ => rfl, fun htype => ?_, fun htype => ?_, fun htype => ?_⟩
        · exact absurd htype (by decide)
        · exact absurd htype (by decide)
        · exact absurd htype (by decide)
    · rw [if_neg hname] at h
      cases h
  · intro name declaration h _
    by_cases hname : "name" = name
    · exact ⟨.string "Ada", by rw [← hname]; rfl⟩
    · have hnone : lookup name (membersAt greetingContent "variables") = none := if_neg hname
      rw [hnone] at h
      cases h

theorem render_total_greeting :
    (∃ r, render greetingPrimitives greetingContent greetingVariables greetingSource {} = .ok r
        ∧ Substituted greetingContent greetingVariables
          (validate greetingPrimitives greetingContent greetingSource).expanded r)
      ∨ ∃ e, render greetingPrimitives greetingContent greetingVariables greetingSource {}
          = .error e
        ∧ (e.reason = "rendered_output_too_large" ∨ e.reason = "duplicate_system_message") :=
  render_total ⟨greetingContent, greetingContent_wellFormed⟩
    ⟨greetingVariables, greetingVariables_wellFormed⟩ greetingSource {} validate_greeting
    assigns_greeting rfl rfl

end Agenomic.Prompt
