import Agenomic.Prompt.Valid
import Agenomic.Prompt.Render

/-!
# Binding the variables of a valid content

A valid content has a partial for every variable that is not required and is not a list
of messages. So when the required variables are given, of their types, every declared
variable is bound (`bindValues_assigned`), and every variable that a template uses is
bound to what was given or to its partial (`Bound.scalar`).
-/

namespace Agenomic.Prompt

open Lib Value

/-! ## Types -/

/-- A message: a role, and a content that is a text, a list or null. -/
def IsMessage (item : Value) : Prop :=
  ∃ role content, item.get "role" = some (.string role) ∧ role ∈ messageRoles
    ∧ item.get "content" = some content
    ∧ (content.isString = true ∨ (asArray content).isSome = true ∨ content = .null)

/-- A value of a type. -/
structure HasType (varType : String) (value : Value) : Prop where
  string : varType = "string" → value.isString = true
  integer : varType = "integer" → (asNumber value).isSome = true
  boolean : varType = "boolean" → (asBool value).isSome = true
  messages : varType = "messages" → ∃ items, value = .array items ∧ ∀ m ∈ items, IsMessage m

theorem checkMessageValue_ok {item : Value} (h : IsMessage item) (path : String)
    (variableName : Option String) : checkMessageValue item path variableName = .ok () := by
  obtain ⟨role, content, hrole, hknown, hcontent, hkind⟩ := h
  cases item with
  | object members =>
      have hrole : lookup "role" members = some (.string role) := hrole
      have hcontent : lookup "content" members = some content := hcontent
      unfold checkMessageValue
      dsimp only
      rw [hrole, hcontent]
      dsimp only
      rw [if_neg, if_pos]
      · rcases hkind with h | h | h
        · simp [h]
        · simp [h]
        · simp [h]
      · simpa [asStr] using hknown
  | null => cases hrole
  | bool b => cases hrole
  | number n => cases hrole
  | string s => cases hrole
  | array items => cases hrole

theorem checkMessages_ok {items : List (Value × Nat)} (h : ∀ m ∈ items, IsMessage m.1)
    (path : String) (variableName : Option String) :
    checkMessages path variableName items = .ok () := by
  induction items with
  | nil => rfl
  | cons item rest ih =>
      unfold checkMessages
      rw [checkMessageValue_ok (h item List.mem_cons_self)]
      exact ih fun m hm => h m (List.mem_cons_of_mem _ hm)

/-- A value of the subset that has a declared type passes its check. -/
theorem checkValue_ok {varType : String} {value : Value} (hknown : varType ∈ variableTypes)
    (hajs : Ajs 0 value) (h : HasType varType value) (path name : String) :
    checkValue varType value path name = .ok () := by
  unfold checkValue
  dsimp only
  by_cases hstring : varType = "string"
  · rw [if_pos hstring]
    have htype := h.string hstring
    cases value with
    | string text =>
        dsimp only
        rw [checkAjsString_eq_ok.mpr hajs]
        rfl
    | null => cases htype
    | bool b => cases htype
    | number n => cases htype
    | array items => cases htype
    | object members => cases htype
  · rw [if_neg hstring]
    by_cases hinteger : varType = "integer"
    · rw [if_pos hinteger]
      have htype := h.integer hinteger
      cases value with
      | number n =>
          obtain ⟨i, hi⟩ := hajs
          dsimp only
          rw [hi]
          rfl
      | null => cases htype
      | bool b => cases htype
      | string s => cases htype
      | array items => cases htype
      | object members => cases htype
    · rw [if_neg hinteger]
      by_cases hboolean : varType = "boolean"
      · rw [if_pos hboolean, if_pos (h.boolean hboolean)]
      · rw [if_neg hboolean]
        by_cases hjson : varType = "json"
        · rw [if_pos hjson, (checkAjs_eq_ok path 0 value).mpr hajs]
          rfl
        · rw [if_neg hjson]
          have hmessages : varType = "messages" := by
            simpa [variableTypes, hstring, hinteger, hboolean, hjson] using hknown
          obtain ⟨items, rfl, hitems⟩ := h.messages hmessages
          refine checkMessages_ok (fun m hm => hitems m.1 ?_) path (some name)
          exact (List.mem_zipIdx' (x := m.1) (i := m.2) hm).2 ▸ List.getElem_mem _

/-! ## Values -/

/-- Every given value is of the type of its variable, and the required ones are given. -/
structure Assigns (content : Value) (given : Members) : Prop where
  typed : ∀ name value, lookup name given = some value → ∃ declaration,
    lookup name (membersAt content "variables") = some declaration ∧ Ajs 0 value
      ∧ HasType ((declarationType declaration).getD "") value
  required : ∀ name declaration,
    lookup name (membersAt content "variables") = some declaration →
    declarationRequired declaration = true → ∃ value, lookup name given = some value

variable {p : Primitives} {source : FragmentSource} {content : Value} {expanded : Expansions}
  {given : Members}

/-- A partial of a valid content has the type of its variable. -/
theorem Valid.partial_hasType (h : Valid p source content expanded) {name : String}
    {declaration value : Value}
    (hdeclared : lookup name (membersAt content "variables") = some declaration)
    (hprovided : lookup name (membersAt content "partials") = some value) :
    HasType ((declarationType declaration).getD "") value := by
  have hcheck : checkPartial (membersAt content "variables") name value = [] :=
    List.flatMap_eq_nil_iff.mp h.partials (name, value) (mem_sortByName.mpr (lookup_mem hprovided))
  unfold checkPartial at hcheck
  dsimp only at hcheck
  rw [hdeclared] at hcheck
  dsimp only at hcheck
  by_cases hmessages : declarationType declaration = some "messages"
  · rw [if_pos hmessages] at hcheck
    cases hcheck
  · rw [if_neg hmessages] at hcheck
    by_cases hscalar : ((asArray value).isSome || value.isObject) = true
    · rw [if_pos hscalar] at hcheck
      cases hcheck
    · rw [if_neg hscalar] at hcheck
      by_cases hfits : scalarFits (declarationType declaration) value = true
      · obtain ⟨⟨type, hknown, htype⟩, -⟩ :=
          (shaped_of_shape h.shape).declaration (lookup_mem hdeclared)
        rw [htype] at hfits hmessages ⊢
        rw [Option.getD_some]
        unfold scalarFits at hfits
        refine ⟨?_, ?_, ?_, ?_⟩
        · rintro rfl
          rwa [if_pos rfl] at hfits
        · rintro rfl
          rwa [if_neg (by decide), if_pos rfl] at hfits
        · rintro rfl
          rwa [if_neg (by decide), if_neg (by decide), if_pos rfl] at hfits
        · rintro rfl
          exact absurd rfl hmessages
      · rw [if_neg hfits] at hcheck
        cases hcheck

theorem ajs_membersAt {v : Value} {key : String} (h : Ajs 0 v) :
    ∀ m ∈ membersAt v key, Ajs 0 m.2 := by
  intro m hm
  unfold membersAt objectAt at hm
  cases hget : v.get key with
  | none =>
      rw [hget] at hm
      exact absurd hm List.not_mem_nil
  | some w =>
      rw [hget, Option.bind_some] at hm
      have hajs := ajs_get h hget
      cases w with
      | object members => exact ((ajsMembers_iff.mp hajs.2 m hm).2).mono (Nat.zero_le _)
      | null => exact absurd hm List.not_mem_nil
      | bool b => exact absurd hm List.not_mem_nil
      | number n => exact absurd hm List.not_mem_nil
      | string s => exact absurd hm List.not_mem_nil
      | array items => exact absurd hm List.not_mem_nil

/-- A variable that is not required and is no list of messages has a partial. -/
theorem Valid.has_partial (h : Valid p source content expanded) {name : String}
    {declaration : Value} (hmem : (name, declaration) ∈ membersAt content "variables")
    (htype : declarationType declaration ≠ some "messages")
    (hrequired : declarationRequired declaration = false) :
    ∃ value, lookup name (membersAt content "partials") = some value := by
  have hcheck : checkDeclaredRequired (membersAt content "partials") name declaration = [] :=
    List.flatMap_eq_nil_iff.mp (List.append_eq_nil_iff.mp h.required).2 (name, declaration)
      (mem_sortByName.mpr hmem)
  unfold checkDeclaredRequired at hcheck
  rw [if_neg htype, hrequired] at hcheck
  cases hprovided : lookup name (membersAt content "partials") with
  | some value => exact ⟨value, rfl⟩
  | none =>
      rw [hprovided] at hcheck
      cases hcheck

/-- **Every declared variable has a value, and the value passes its check.** -/
theorem chooseValue_ok (h : Valid p source content expanded) (hgiven : Assigns content given)
    {name : String} {declaration : Value}
    (hdeclared : lookup name (membersAt content "variables") = some declaration) :
    ∃ value, chooseValue given (membersAt content "partials") name declaration = some value
      ∧ checkValue ((declarationType declaration).getD "") value (pointer "/variables" name) name
        = .ok () := by
  have hshaped := shaped_of_shape h.shape
  obtain ⟨⟨type, hknown, htype⟩, -⟩ := hshaped.declaration (lookup_mem hdeclared)
  have hknown' : (declarationType declaration).getD "" ∈ variableTypes := by
    rw [htype]
    exact hknown
  unfold chooseValue
  cases hvalue : lookup name given with
  | some value =>
      obtain ⟨declaration', hdeclared', hajs, hhas⟩ := hgiven.typed name value hvalue
      rw [hdeclared] at hdeclared'
      cases hdeclared'
      exact ⟨value, rfl, checkValue_ok hknown' hajs hhas _ _⟩
  | none =>
      dsimp only
      cases hprovided : lookup name (membersAt content "partials") with
      | some value =>
          exact ⟨value, rfl, checkValue_ok hknown'
            (ajs_membersAt hshaped.ajs _ (lookup_mem hprovided)) (h.partial_hasType hdeclared hprovided)
            _ _⟩
      | none =>
          -- Neither given nor with a partial: the variable is an optional list of messages.
          have hrequired : declarationRequired declaration = false := by
            by_contra hreq
            obtain ⟨value, hsome⟩ := hgiven.required name declaration hdeclared
              (Bool.not_eq_false _ ▸ hreq)
            rw [hvalue] at hsome
            cases hsome
          have hmessages : declarationType declaration = some "messages" := by
            by_contra hne
            obtain ⟨value, hsome⟩ := h.has_partial (lookup_mem hdeclared) hne hrequired
            rw [hprovided] at hsome
            cases hsome
          dsimp only
          rw [hmessages, Option.getD_some, if_pos ⟨rfl, hrequired⟩]
          exact ⟨_, rfl, rfl⟩

theorem bindValues_eq {partials declared : Members}
    (h : ∀ d ∈ declared, ∃ value, chooseValue given partials d.1 d.2 = some value
      ∧ checkValue ((declarationType d.2).getD "") value (pointer "/variables" d.1) d.1 = .ok ()) :
    bindValues given partials declared = .ok (declared.map fun d =>
      (d.1, (chooseValue given partials d.1 d.2).getD .null)) := by
  induction declared with
  | nil => rfl
  | cons d rest ih =>
      obtain ⟨value, hvalue, hcheck⟩ := h d List.mem_cons_self
      unfold bindValues
      rw [hvalue]
      dsimp only
      rw [hcheck, ih fun e he => h e (List.mem_cons_of_mem _ he), List.map_cons, hvalue]
      rfl

/-- What the variables of a content are bound to. -/
def BoundTo (content : Value) (given values : Members) : Prop :=
  ∀ name, lookup name values = (lookup name (membersAt content "variables")).bind fun declaration =>
    chooseValue given (membersAt content "partials") name declaration

/-- **The variables of a valid content can be bound.** -/
theorem bindValues_assigned (h : Valid p source content expanded)
    (hnodup : ((membersAt content "variables").map Prod.fst).Nodup)
    (hgiven : Assigns content given) :
    ∃ values, bindValues given (membersAt content "partials")
        (sortByName (membersAt content "variables")) = .ok values
      ∧ BoundTo content given values := by
  have hchoose : ∀ d ∈ sortByName (membersAt content "variables"), ∃ value,
      chooseValue given (membersAt content "partials") d.1 d.2 = some value
        ∧ checkValue ((declarationType d.2).getD "") value (pointer "/variables" d.1) d.1
          = .ok () := by
    intro d hd
    exact chooseValue_ok h hgiven (lookup_of_mem hnodup (mem_sortByName.mp hd))
  refine ⟨_, bindValues_eq hchoose, fun name => ?_⟩
  rw [lookup_map fun name declaration =>
      (chooseValue given (membersAt content "partials") name declaration).getD .null,
    lookup_perm (sortByName_perm _) hnodup]
  cases hdeclared : lookup name (membersAt content "variables") with
  | none => rfl
  | some declaration =>
      obtain ⟨value, hvalue, -⟩ := chooseValue_ok h hgiven hdeclared
      rw [Option.map_some, Option.bind_some, hvalue]
      rfl

end Agenomic.Prompt
