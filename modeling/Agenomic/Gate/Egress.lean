import Agenomic.Gate.Decision

/-!
# Where a call really sends

The gate approves a destination by the host it takes from it (`recipientHost`): what follows
the last `@` of everything after the scheme. A URL may have an `@` behind its authority, and
then this is not the host that is reached (`realHost`).
-/

namespace Agenomic.Gate

open Lib Prompt

/-- A host without its port. An address in brackets has colons of its own. -/
def withoutPort : List Char → List Char
  | '[' :: rest => '[' :: (rest.takeWhile (· ≠ ']') ++ (rest.dropWhile (· ≠ ']')).take 1)
  | host => host.takeWhile (· ≠ ':')

/-- The host that a destination names. Of a URL it is in the authority, which ends at the first
`/`, `?` or `#`. -/
def realHost (dest : List Char) : List Char :=
  match afterScheme dest with
  | some rest => withoutPort (afterLast '@' (rest.takeWhile fun c => c ∉ ['/', '?', '#']))
  | none => afterLast '@' dest

/-- A host is an approved domain, or ends in one after a dot. -/
def UnderApproved (host : List Char) (r : GateRuleSet) : Prop :=
  ∃ entry ∈ r.approvedRecipients, ∃ domain : List Char,
    domain = entry.toList.dropWhile (· = '@') ∧ domain ≠ []
      ∧ (host = domain ∨ ∃ labels, host = labels ++ '.' :: domain)

theorem domainApproved_iff {host : List Char} {r : GateRuleSet} :
    domainApproved host r = true ↔ UnderApproved host r := by
  unfold domainApproved UnderApproved
  simp only [List.any_eq_true, Bool.and_eq_true, Bool.or_eq_true, decide_eq_true_eq,
    List.isSuffixOf_iff_suffix]
  constructor
  · rintro ⟨entry, hentry, hne, hhost | ⟨labels, hlabels⟩⟩
    · exact ⟨entry, hentry, _, rfl, hne, Or.inl hhost⟩
    · exact ⟨entry, hentry, _, rfl, hne, Or.inr ⟨labels, hlabels.symm⟩⟩
  · rintro ⟨entry, hentry, _, rfl, hne, hhost | ⟨labels, hlabels⟩⟩
    · exact ⟨entry, hentry, hne, Or.inl hhost⟩
    · exact ⟨entry, hentry, hne, Or.inr ⟨labels, hlabels.symm⟩⟩

/-- A destination is listed, or its real host is approved. -/
def FollowsRealHost (dest : String) (r : GateRuleSet) : Prop :=
  dest ∈ r.approvedRecipients ∨ UnderApproved (realHost dest.toList) r

/-- A destination that is not listed and whose real host is not approved, while what the gate takes
for its host is. -/
def Masked (dest : String) (r : GateRuleSet) : Prop :=
  dest ∉ r.approvedRecipients ∧ UnderApproved (recipientHost dest.toList) r
    ∧ ¬UnderApproved (realHost dest.toList) r

theorem isApproved_iff {dest : String} {r : GateRuleSet} : isApproved dest r = true
    ↔ dest ∈ r.approvedRecipients ∨ UnderApproved (recipientHost dest.toList) r := by
  simp only [isApproved, Bool.or_eq_true, decide_eq_true_eq, domainApproved_iff]

/-- What the gate approves follows the real host, unless it is masked. -/
theorem followsRealHost_iff_not_masked {dest : String} {r : GateRuleSet}
    (h : isApproved dest r = true) : FollowsRealHost dest r ↔ ¬Masked dest r := by
  unfold FollowsRealHost Masked
  rcases isApproved_iff.mp h with hlisted | hunder
  · simp [hlisted]
  · by_cases hlisted : dest ∈ r.approvedRecipients
    · simp [hlisted]
    · simp [hlisted, hunder]

/-- An allowed call has a destination, and all of them follow the real host. -/
def EgressFollows (engine : RegoEngine) (r : GateRuleSet) (call : ToolCall)
    (policy : PolicyBundle) : Prop :=
  ∀ outcome, evaluate engine r call policy = .ok outcome → outcome.decision = .allow →
    call.resolvedDestinations ≠ [] ∧ ∀ d ∈ call.resolvedDestinations, FollowsRealHost d r

/-- Some other rule, or the policies, keep a call from being allowed. -/
def HeldOtherwise (engine : RegoEngine) (r : GateRuleSet) (call : ToolCall)
    (policy : PolicyBundle) : Prop :=
  ToolForbidden r call ∨ ScopeForbidden r call ∨ SelfModifies r call ∨ Escapes r call
    ∨ Unapproved r call ∨ ¬PolicyAllows engine r call policy

section

variable {engine : RegoEngine} {r : GateRuleSet} {call : ToolCall} {policy : PolicyBundle}

/-- Everything that a call sends to is approved, and there is something. -/
theorem anyExternal_eq_false : anyExternal r call = false
    ↔ call.resolvedDestinations ≠ [] ∧ ∀ d ∈ call.resolvedDestinations, isApproved d r = true := by
  unfold anyExternal externalDestinations
  simp only [decide_eq_false_iff_not, not_or, not_not, List.filter_eq_nil_iff]
  simp [and_comm]

/-- When a call that may leak something is allowed. -/
theorem evaluate_allow_iff (hsink : call.tool ∈ r.externalSinkTools)
    (hrisk : call.provenance = .untrusted ∨ HasPii call) :
    (∃ outcome, evaluate engine r call policy = .ok outcome ∧ outcome.decision = .allow)
      ↔ anyExternal r call = false ∧ ¬HeldOtherwise engine r call policy := by
  have hreview : ¬EgressReview r call := by
    rintro ⟨-, hpii, htrusted⟩
    rcases hrisk with hun | h
    · rw [hun] at htrusted
      cases htrusted
    · exact hpii h
  have hleak : Egress r call ∧ (HasPii call ∨ call.provenance = .untrusted)
      ↔ anyExternal r call = true :=
    ⟨fun h => h.1.2, fun h => ⟨⟨hsink, h⟩, hrisk.symm⟩⟩
  have hprovenance : call.provenance = .untrusted ∨ call.provenance = .trusted := by
    cases call.provenance with
    | trusted => exact Or.inr rfl
    | untrusted => exact Or.inl rfl
  have hinvariants : (¬Blocks (evaluateInvariants r call) ∧ ¬Holds (evaluateInvariants r call))
      ↔ anyExternal r call = false ∧ ¬(ToolForbidden r call ∨ ScopeForbidden r call
          ∨ SelfModifies r call ∨ Escapes r call ∨ Unapproved r call) := by
    rw [blocks_evaluateInvariants, holds_evaluateInvariants]
    unfold BlockedAnyway
    rw [hleak]
    constructor
    · intro ⟨hblock, hhold⟩
      refine ⟨Bool.eq_false_of_not_eq_true fun hext => hblock ?_, ?_⟩
      · exact Or.inl (Or.inr (Or.inr (Or.inr (Or.inr hext))))
      · rintro (h | h | h | h | h)
        · exact hblock (Or.inl (Or.inl h))
        · exact hblock (Or.inl (Or.inr (Or.inl h)))
        · exact hblock (Or.inl (Or.inr (Or.inr (Or.inl h))))
        · exact hblock (Or.inl (Or.inr (Or.inr (Or.inr (Or.inl h)))))
        · -- Without an approval the call is blocked or held, as it is trusted or not.
          rcases hprovenance with hun | htrusted
          · exact hblock (Or.inr ⟨h, hun⟩)
          · exact hhold (Or.inr ⟨h, htrusted⟩)
    · intro ⟨hext, hno⟩
      refine ⟨?_, ?_⟩
      · rintro ((h | h | h | h | h) | ⟨h, -⟩)
        · exact hno (Or.inl h)
        · exact hno (Or.inr (Or.inl h))
        · exact hno (Or.inr (Or.inr (Or.inl h)))
        · exact hno (Or.inr (Or.inr (Or.inr (Or.inl h))))
        · rw [hext] at h
          cases h
        · exact hno (Or.inr (Or.inr (Or.inr (Or.inr h))))
      · rintro (h | ⟨h, -⟩)
        · exact hreview h
        · exact hno (Or.inr (Or.inr (Or.inr (Or.inr h))))
  unfold evaluate HeldOtherwise PolicyAllows
  cases hp : policy.evaluate engine (policyContext r call) with
  | error e => simp [Except.map]
  | ok p =>
      have hallow := @outcomeOf_allow r call p
      rw [← and_assoc, hinvariants] at hallow
      simp only [Except.map, Except.ok.injEq, exists_eq_left', hallow, not_or, not_not, and_assoc]

end

/-- Rules that approve one domain. -/
def corpRules : GateRuleSet := { GateRuleSet.default with approvedRecipients := ["corp.com"] }

/-- What the model wants to send somewhere. -/
def postTo (url : String) : ToolCall where
  tool := "http_post"
  arguments := .object [("url", .string url), ("body", .string "data")]
  provenance := .untrusted
  scopes := []
  destinations := []
  humanApproval := none

end Agenomic.Gate
