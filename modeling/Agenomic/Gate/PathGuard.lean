import Agenomic.Gate.Decision

/-!
# Which paths the gate looks at

A path can be named in the arguments of a call as the text under a path key, as an item of
a list under one, or, for a tool that writes, as a word of any text. The gate checks whole
texts: those of all the arguments for a tool that writes, those directly under a path key
for the others. It therefore does not look at the items of a list, and a step out of the
working tree at the start or the end of a word is not seen when the word is not all of its
text.

**`seesPaths_iff`**: when the guard sees every path of a call.
-/

namespace Agenomic.Gate

open Lib Prompt

/-! ## The parts of a value -/

/-- The first value stands somewhere in the second. -/
inductive Within (v : Value) : Value → Prop where
  | here : Within v v
  | item {items : List Value} {w : Value} : w ∈ items → Within v w → Within v (.array items)
  | member {members : Members} {k : String} {w : Value} :
      (k, w) ∈ members → Within v w → Within v (.object members)

theorem Within.trans {u v w : Value} (huv : Within u v) (hvw : Within v w) : Within u w := by
  induction hvw with
  | here => exact huv
  | item hmem _ ih => exact .item hmem ih
  | member hmem _ ih => exact .member hmem ih

mutual

/-- The texts of a value are those that stand in it. -/
theorem within_of_mem_stringLeaves {s : String} :
    ∀ v : Value, s ∈ stringLeaves v → Within (.string s) v
  | .string t, h => by
      unfold stringLeaves at h
      rw [List.mem_singleton.mp h]
      exact .here
  | .array items, h => by
      unfold stringLeaves at h
      obtain ⟨w, hw, hin⟩ := within_of_mem_itemLeaves items h
      exact .item hw hin
  | .object members, h => by
      unfold stringLeaves at h
      obtain ⟨k, w, hw, hin⟩ := within_of_mem_memberLeaves members h
      exact .member hw hin
  | .null, h => by
      unfold stringLeaves at h
      cases h
  | .bool _, h => by
      unfold stringLeaves at h
      cases h
  | .number _, h => by
      unfold stringLeaves at h
      cases h

theorem within_of_mem_itemLeaves {s : String} :
    ∀ items : List Value, s ∈ itemLeaves items → ∃ w ∈ items, Within (.string s) w
  | [], h => absurd h List.not_mem_nil
  | v :: rest, h => by
      unfold itemLeaves at h
      rcases List.mem_append.mp h with h | h
      · exact ⟨v, List.mem_cons_self, within_of_mem_stringLeaves v h⟩
      · obtain ⟨w, hw, hin⟩ := within_of_mem_itemLeaves rest h
        exact ⟨w, List.mem_cons_of_mem v hw, hin⟩

theorem within_of_mem_memberLeaves {s : String} :
    ∀ members : Members, s ∈ memberLeaves members →
      ∃ k w, (k, w) ∈ members ∧ Within (.string s) w
  | [], h => absurd h List.not_mem_nil
  | (k, v) :: rest, h => by
      unfold memberLeaves at h
      rcases List.mem_append.mp h with h | h
      · exact ⟨k, v, List.mem_cons_self, within_of_mem_stringLeaves v h⟩
      · obtain ⟨k', w, hw, hin⟩ := within_of_mem_memberLeaves rest h
        exact ⟨k', w, List.mem_cons_of_mem _ hw, hin⟩

end

theorem itemLeaves_subset {w : Value} {items : List Value} (hw : w ∈ items) :
    stringLeaves w ⊆ itemLeaves items := by
  induction items with
  | nil => cases hw
  | cons v rest ih =>
      intro s hs
      unfold itemLeaves
      rcases List.mem_cons.mp hw with rfl | hw
      · exact List.mem_append_left _ hs
      · exact List.mem_append_right _ (ih hw hs)

theorem memberLeaves_subset {k : String} {w : Value} {members : Members}
    (hw : (k, w) ∈ members) : stringLeaves w ⊆ memberLeaves members := by
  induction members with
  | nil => cases hw
  | cons m rest ih =>
      intro s hs
      obtain ⟨k', v⟩ := m
      unfold memberLeaves
      rcases List.mem_cons.mp hw with heq | hw
      · cases heq
        exact List.mem_append_left _ hs
      · exact List.mem_append_right _ (ih hw hs)

theorem mem_stringLeaves {s : String} {v : Value} :
    s ∈ stringLeaves v ↔ Within (.string s) v := by
  constructor
  · intro h
    exact within_of_mem_stringLeaves v h
  · intro h
    induction h with
    | here =>
        unfold stringLeaves
        exact List.mem_cons_self
    | item hmem _ ih =>
        unfold stringLeaves
        exact itemLeaves_subset hmem ih
    | member hmem _ ih =>
        unfold stringLeaves
        exact memberLeaves_subset hmem ih

/-- What stands under one of the keys, in some object of the value. -/
def Keyed (keys : List String) (v w : Value) : Prop :=
  ∃ members k, Within (.object members) v ∧ k ∈ keys ∧ (k, w) ∈ members

variable {push : Value → List String} {keys : List String}

mutual

theorem keyed_of_mem_underKeys {s : String} :
    ∀ v : Value, s ∈ underKeys push keys v → ∃ w, Keyed keys v w ∧ s ∈ push w
  | .array items, h => by
      unfold underKeys at h
      obtain ⟨x, hx, w, ⟨members, k, hin, hkey⟩, hs⟩ := keyed_of_mem_itemsUnderKeys items h
      exact ⟨w, ⟨members, k, .item hx hin, hkey⟩, hs⟩
  | .object members, h => by
      unfold underKeys at h
      rcases keyed_of_mem_membersUnderKeys members h with
        ⟨k, w, hk, hw, hs⟩ | ⟨k, x, hx, w, ⟨inner, k', hin, hkey⟩, hs⟩
      · exact ⟨w, ⟨members, k, .here, hk, hw⟩, hs⟩
      · exact ⟨w, ⟨inner, k', .member hx hin, hkey⟩, hs⟩
  | .null, h => by
      unfold underKeys at h
      cases h
  | .bool _, h => by
      unfold underKeys at h
      cases h
  | .number _, h => by
      unfold underKeys at h
      cases h
  | .string _, h => by
      unfold underKeys at h
      cases h

theorem keyed_of_mem_itemsUnderKeys {s : String} :
    ∀ items : List Value, s ∈ itemsUnderKeys push keys items →
      ∃ x ∈ items, ∃ w, Keyed keys x w ∧ s ∈ push w
  | [], h => absurd h List.not_mem_nil
  | v :: rest, h => by
      unfold itemsUnderKeys at h
      rcases List.mem_append.mp h with h | h
      · exact ⟨v, List.mem_cons_self, keyed_of_mem_underKeys v h⟩
      · obtain ⟨x, hx, hw⟩ := keyed_of_mem_itemsUnderKeys rest h
        exact ⟨x, List.mem_cons_of_mem v hx, hw⟩

theorem keyed_of_mem_membersUnderKeys {s : String} :
    ∀ members : Members, s ∈ membersUnderKeys push keys members →
      (∃ k w, k ∈ keys ∧ (k, w) ∈ members ∧ s ∈ push w)
        ∨ ∃ k x, (k, x) ∈ members ∧ ∃ w, Keyed keys x w ∧ s ∈ push w
  | [], h => absurd h List.not_mem_nil
  | (k, v) :: rest, h => by
      unfold membersUnderKeys at h
      rcases List.mem_append.mp h with h | h
      · rcases List.mem_append.mp h with h | h
        · by_cases hk : k ∈ keys
          · rw [if_pos hk] at h
            exact .inl ⟨k, v, hk, List.mem_cons_self, h⟩
          · rw [if_neg hk] at h
            cases h
        · exact .inr ⟨k, v, List.mem_cons_self, keyed_of_mem_underKeys v h⟩
      · rcases keyed_of_mem_membersUnderKeys rest h with ⟨k', w, hk, hw, hs⟩ | ⟨k', x, hx, hw⟩
        · exact .inl ⟨k', w, hk, List.mem_cons_of_mem _ hw, hs⟩
        · exact .inr ⟨k', x, List.mem_cons_of_mem _ hx, hw⟩

end

theorem itemsUnderKeys_of_mem {w : Value} {items : List Value} (hw : w ∈ items) :
    underKeys push keys w ⊆ itemsUnderKeys push keys items := by
  induction items with
  | nil => cases hw
  | cons v rest ih =>
      intro s hs
      unfold itemsUnderKeys
      rcases List.mem_cons.mp hw with rfl | hw
      · exact List.mem_append_left _ hs
      · exact List.mem_append_right _ (ih hw hs)

theorem membersUnderKeys_of_mem {k : String} {w : Value} {members : Members}
    (hw : (k, w) ∈ members) :
    (if k ∈ keys then push w else []) ++ underKeys push keys w
      ⊆ membersUnderKeys push keys members := by
  induction members with
  | nil => cases hw
  | cons m rest ih =>
      intro s hs
      obtain ⟨k', v⟩ := m
      unfold membersUnderKeys
      rcases List.mem_cons.mp hw with heq | hw
      · cases heq
        exact List.mem_append_left _ hs
      · exact List.mem_append_right _ (ih hw hs)

/-- What is collected under the keys is what `push` takes from the values under them. -/
theorem mem_underKeys {s : String} {v : Value} :
    s ∈ underKeys push keys v ↔ ∃ w, Keyed keys v w ∧ s ∈ push w := by
  constructor
  · intro h
    exact keyed_of_mem_underKeys v h
  · intro ⟨w, ⟨members, k, hin, hk, hw⟩, hs⟩
    generalize hobj : Value.object members = o at hin
    induction hin with
    | here =>
        subst hobj
        unfold underKeys
        refine membersUnderKeys_of_mem hw (List.mem_append_left _ ?_)
        rw [if_pos hk]
        exact hs
    | item hmem _ ih =>
        unfold underKeys
        exact itemsUnderKeys_of_mem hmem ih
    | member hmem _ ih =>
        unfold underKeys
        exact membersUnderKeys_of_mem hmem (List.mem_append_right _ ih)

/-! ## Words -/

/-- The words of a text, between white space. -/
def words (s : String) : List String :=
  ((s.toList.splitOnP isWhiteSpace).filter (· ≠ [])).map String.ofList

/-- The pieces of a list stand in it: the first one at its start. -/
theorem splitOnP_pieces {α : Type} (p : α → Bool) : ∀ l : List α,
    ∃ first more, l.splitOnP p = first :: more ∧ first <+: l ∧ ∀ piece ∈ more, piece <:+: l
  | [] => ⟨[], [], List.splitOnP_nil, List.nil_prefix, fun _ h => absurd h List.not_mem_nil⟩
  | a :: rest => by
      obtain ⟨first, more, hsplit, hfirst, hmore⟩ := splitOnP_pieces p rest
      rw [List.splitOnP_cons_eq_if_modifyHead, hsplit]
      by_cases ha : p a = true
      · rw [if_pos ha]
        refine ⟨[], first :: more, rfl, List.nil_prefix, fun piece hpiece => ?_⟩
        have hrest : piece <:+: rest := by
          rcases List.mem_cons.mp hpiece with rfl | hpiece
          · exact hfirst.isInfix
          · exact hmore piece hpiece
        exact hrest.trans (List.suffix_cons a rest).isInfix
      · rw [if_neg ha]
        refine ⟨a :: first, more, rfl, List.cons_prefix_cons.mpr ⟨rfl, hfirst⟩,
          fun piece hpiece => ?_⟩
        exact (hmore piece hpiece).trans (List.suffix_cons a rest).isInfix

theorem toList_of_word {s w : String} (h : w ∈ words s) : w.toList <:+: s.toList := by
  obtain ⟨piece, hpiece, rfl⟩ := List.mem_map.mp h
  obtain ⟨first, more, hsplit, hfirst, hmore⟩ := splitOnP_pieces isWhiteSpace s.toList
  have hmem := (List.mem_filter.mp hpiece).1
  rw [hsplit] at hmem
  rw [String.toList_ofList]
  rcases List.mem_cons.mp hmem with rfl | hmem
  · exact hfirst.isInfix
  · exact hmore piece hmem

/-- A text is protected where one of its words is. -/
theorem matchesProtected_of_word {s w : String} (h : w ∈ words s) {fragments : List String}
    (hw : (matchesProtected w fragments).isSome = true) :
    (matchesProtected s fragments).isSome = true := by
  unfold matchesProtected at hw ⊢
  rw [List.find?_isSome] at hw ⊢
  obtain ⟨f, hf, hmatch⟩ := hw
  rw [Bool.and_eq_true, decide_eq_true_eq, decide_eq_true_eq] at hmatch
  refine ⟨f, hf, ?_⟩
  rw [Bool.and_eq_true, decide_eq_true_eq, decide_eq_true_eq]
  exact ⟨hmatch.1, hmatch.2.trans (toList_of_word h)⟩

/-! ## What the guard sees -/

section Guard

variable (r : GateRuleSet) (call : ToolCall)

/-- The path leads out of the working tree or to something protected. -/
def Suspicious (p : String) : Prop :=
  hasTraversal p = true ∨ (matchesProtected p r.protectedPaths).isSome = true

/-- A text that stands directly under a path key. -/
def DirectPath (p : String) : Prop := Keyed pathKeys call.arguments (.string p)

/-- A text in a list that stands under a path key. -/
def ListedPath (p : String) : Prop :=
  ∃ items, Keyed pathKeys call.arguments (.array items) ∧ .string p ∈ items

/-- A word of some text of the arguments. -/
def WordPath (p : String) : Prop :=
  ∃ leaf, Within (.string leaf) call.arguments ∧ p ∈ words leaf

/-- The call names the path. -/
def NamesPath (p : String) : Prop :=
  DirectPath call p ∨ ListedPath call p
    ∨ (call.tool ∈ r.effectfulWriteTools ∧ WordPath call p)

/-- The call is blocked, whatever the policies. -/
def Guarded : Prop :=
  ∀ (engine : RegoEngine) (policy : PolicyBundle) (outcome : GateOutcome),
    evaluate engine r call policy = .ok outcome → outcome.decision = .block

/-- A suspicious path that the call names gets it blocked. -/
def SeesPaths : Prop := ∀ p, NamesPath r call p → Suspicious r p → Guarded r call

/-- A suspicious path that the guard does not look at: one in a list, when only texts under
path keys are checked, and a step out of the tree that is a word of a text, but no step out
of the tree in the text. -/
def Overlooked (p : String) : Prop :=
  call.tool ∉ r.selfMutationTools
    ∧ ((call.tool ∉ r.effectfulWriteTools ∧ ListedPath call p ∧ Suspicious r p)
      ∨ (call.tool ∈ r.effectfulWriteTools ∧ hasTraversal p = true
        ∧ ∃ leaf, Within (.string leaf) call.arguments ∧ p ∈ words leaf
          ∧ hasTraversal leaf = false))

/-- A text that is checked as a path. -/
def Checked (p : String) : Prop :=
  if call.tool ∈ r.effectfulWriteTools then Within (.string p) call.arguments
  else DirectPath call p

/-- The call is blocked for another text, or by a rule that is not about paths. -/
def BlockedOtherwise : Prop :=
  (∃ p, Checked r call p ∧ Suspicious r p)
    ∨ ToolForbidden r call ∨ ScopeForbidden r call
    ∨ (Egress r call ∧ (HasPii call ∨ call.provenance = .untrusted))
    ∨ (Unapproved r call ∧ call.provenance = .untrusted)

variable {r call}

theorem guarded_iff : Guarded r call ↔ Blocks (evaluateInvariants r call) := by
  constructor
  · intro h
    obtain ⟨outcome, hok, hdecision⟩ := evaluate_empty (fun _ _ => .ok (true, [])) r call
    rw [← decide_eq_block, ← hdecision]
    exact h _ _ outcome hok
  · intro h engine policy outcome hok
    unfold evaluate at hok
    cases hp : policy.evaluate engine (policyContext r call) with
    | error e =>
        rw [hp] at hok
        cases hok
    | ok p =>
        rw [hp] at hok
        cases hok
        unfold outcomeOf
        dsimp only
        rw [decide_eq_block, blocks_sortDedup, blocks_append]
        exact .inl h

/-- A text is a candidate when it is checked, but for the tools that are blocked by name. -/
theorem mem_candidatePaths (hself : call.tool ∉ r.selfMutationTools) {p : String} :
    p ∈ call.candidatePaths r ↔ Checked r call p := by
  unfold ToolCall.candidatePaths Checked
  by_cases hwrite : call.tool ∈ r.effectfulWriteTools
  · rw [if_pos (.inl hwrite), if_pos hwrite]
    exact mem_stringLeaves
  · rw [if_neg (not_or.mpr ⟨hwrite, hself⟩), if_neg hwrite, mem_underKeys]
    constructor
    · intro ⟨w, hkeyed, hpush⟩
      cases w with
      | string s =>
          unfold pushString at hpush
          rw [List.mem_singleton.mp hpush]
          exact hkeyed
      | _ => cases hpush
    · intro hkeyed
      exact ⟨_, hkeyed, List.mem_cons_self⟩

/-- Without a tool that is blocked by name, the invariants block for a text that is checked
or by a rule that is not about paths. -/
theorem blocks_iff (hself : call.tool ∉ r.selfMutationTools) :
    Blocks (evaluateInvariants r call) ↔ BlockedOtherwise r call := by
  have hpaths : SelfModifies r call ∨ Escapes r call
      ↔ ∃ p, Checked r call p ∧ Suspicious r p := by
    unfold SelfModifies Escapes Suspicious
    simp only [hself, false_or, mem_candidatePaths hself]
    constructor
    · rintro (⟨p, hp, h⟩ | ⟨p, hp, h⟩)
      · exact ⟨p, hp, .inr h⟩
      · exact ⟨p, hp, .inl h⟩
    · rintro ⟨p, hp, h | h⟩
      · exact .inr ⟨p, hp, h⟩
      · exact .inl ⟨p, hp, h⟩
  rw [blocks_evaluateInvariants]
  unfold BlockedAnyway BlockedOtherwise
  rw [← hpaths]
  tauto

/-- A suspicious path that the call names is overlooked, or some text that is checked is
suspicious. -/
theorem overlooked_or_checked (hself : call.tool ∉ r.selfMutationTools) {p : String}
    (hnames : NamesPath r call p) (hp : Suspicious r p) :
    Overlooked r call p ∨ ∃ q, Checked r call q ∧ Suspicious r q := by
  by_cases hwrite : call.tool ∈ r.effectfulWriteTools
  · have hchecked : ∀ {q}, Within (.string q) call.arguments → Checked r call q := by
      intro q hq
      unfold Checked
      rw [if_pos hwrite]
      exact hq
    rcases hnames with ⟨members, k, hin, -, hmem⟩ | ⟨items, ⟨members, k, hin, -, hmem⟩, hitem⟩
      | ⟨-, leaf, hin, hword⟩
    · exact .inr ⟨p, hchecked ((Within.member hmem .here).trans hin), hp⟩
    · exact .inr ⟨p, hchecked ((Within.member hmem (.item hitem .here)).trans hin), hp⟩
    · rcases hp with htrav | hprot
      · by_cases hleaf : hasTraversal leaf = true
        · exact .inr ⟨leaf, hchecked hin, .inl hleaf⟩
        · exact .inl ⟨hself, .inr ⟨hwrite, htrav, leaf, hin, hword, Bool.eq_false_iff.mpr hleaf⟩⟩
      · exact .inr ⟨leaf, hchecked hin, .inr (matchesProtected_of_word hword hprot)⟩
  · rcases hnames with hdirect | hlisted | ⟨hin, -⟩
    · refine .inr ⟨p, ?_, hp⟩
      unfold Checked
      rw [if_neg hwrite]
      exact hdirect
    · exact .inl ⟨hself, .inl ⟨hwrite, hlisted, hp⟩⟩
    · exact absurd hin hwrite

/-- **When the guard sees every path.** A call with suspicious paths is blocked exactly when
none of them is overlooked, or the call is blocked for another text or by another rule. -/
theorem seesPaths_iff (r : GateRuleSet) (call : ToolCall) :
    SeesPaths r call ↔ ((∃ p, Overlooked r call p) → BlockedOtherwise r call) := by
  constructor
  · intro hsees ⟨p, hover⟩
    have hself := hover.1
    have hguarded : Guarded r call := by
      rcases hover.2 with ⟨-, hlisted, hp⟩ | ⟨hwrite, htrav, leaf, hin, hword, -⟩
      · exact hsees p (.inr (.inl hlisted)) hp
      · exact hsees p (.inr (.inr ⟨hwrite, leaf, hin, hword⟩)) (.inl htrav)
    exact (blocks_iff hself).mp (guarded_iff.mp hguarded)
  · intro hothers p hnames hp
    rw [guarded_iff]
    by_cases hself : call.tool ∈ r.selfMutationTools
    · -- the tool is blocked by its name
      rw [blocks_evaluateInvariants]
      exact .inl (.inr (.inr (.inl (.inl hself))))
    · rw [blocks_iff hself]
      rcases overlooked_or_checked hself hnames hp with hover | hchecked
      · exact hothers ⟨p, hover⟩
      · exact .inl hchecked

/-- A call of a shell with one command. -/
def shellCall (command : String) : ToolCall where
  tool := "bash"
  arguments := .object [("command", .string command)]
  provenance := .trusted
  scopes := []
  destinations := []
  humanApproval := none

/-- A call that reads some files. -/
def readCall (files : List String) : ToolCall where
  tool := "read_file"
  arguments := .object [("file", .array (files.map .string))]
  provenance := .trusted
  scopes := []
  destinations := []
  humanApproval := none

/-- The command `cat ../notes` and the list of files that holds `../notes` are let through. -/
theorem not_seesPaths :
    ¬SeesPaths .default (shellCall "cat ../notes")
      ∧ ¬SeesPaths .default (readCall ["../notes"]) := by
  constructor
  · intro h
    have hnames : NamesPath .default (shellCall "cat ../notes") "../notes" :=
      .inr (.inr ⟨by decide, "cat ../notes", .member List.mem_cons_self .here, by decide⟩)
    exact absurd (guarded_iff.mp (h _ hnames (.inl (by decide)))) (by
      rw [← decide_eq_block]
      decide +kernel)
  · intro h
    have hnames : NamesPath .default (readCall ["../notes"]) "../notes" :=
      .inr (.inl ⟨_, ⟨_, "file", .here, by decide, List.mem_cons_self⟩, List.mem_cons_self⟩)
    exact absurd (guarded_iff.mp (h _ hnames (.inl (by decide)))) (by
      rw [← decide_eq_block]
      decide +kernel)

end Guard

end Agenomic.Gate
