import Agenomic.Prompt.Expand

/-!
# What an expansion is

The pieces of text of an expansion are merged: none is empty and no two stand side by
side (`expand_merged`). An expansion can be printed and read back, and what is read back
expands to itself, without the fragments (`expand_printed`).
-/

namespace Agenomic.Prompt

open Lib Value

/-- The pieces are not empty, hold no NUL, and stand apart. -/
structure Merged (out : List Expanded) : Prop where
  fine : ∀ t ∈ out, t.token.Fine (· ≠ nul)
  chain : (out.map Expanded.token).IsChain Token.Apart

theorem merged_nil : Merged [] :=
  ⟨fun _ ht => absurd ht List.not_mem_nil, List.IsChain.nil⟩

/-- A piece that can stand behind others may be put there. -/
theorem merged_concat {out : List Expanded} {t : Expanded} (h : Merged out)
    (ht : t.token.Fine (· ≠ nul))
    (hlast : ∀ last, out.getLast? = some last → Token.Apart last.token t.token) :
    Merged (out ++ [t]) := by
  refine ⟨fun u hu => ?_, ?_⟩
  · rcases List.mem_append.mp hu with hu | hu
    · exact h.fine u hu
    · cases List.mem_singleton.mp hu
      exact ht
  · rw [List.map_append, List.isChain_append]
    refine ⟨h.chain, List.isChain_singleton _, ?_⟩
    intro x hx y hy
    cases hy
    rw [List.getLast?_map] at hx
    obtain ⟨last, hl, rfl⟩ := Option.map_eq_some_iff.mp hx
    exact hlast last hl

theorem Merged.of_append_left {out more : List Expanded} (h : Merged (out ++ more)) :
    Merged out := by
  refine ⟨fun t ht => h.fine t (List.mem_append_left _ ht), ?_⟩
  have hchain := h.chain
  rw [List.map_append, List.isChain_append] at hchain
  exact hchain.1

/-- One step of merging keeps the pieces apart. -/
theorem pushMerged_merged {out : List Expanded} {t : Expanded} (h : Merged out)
    (ht : t.token.Fine (· ≠ nul)) : Merged (pushMerged out t) := by
  cases t with
  | var name fragmentType => exact merged_concat h ht fun _ _ _ => rfl
  | literal text =>
      cases text with
      | nil => exact h
      | cons c cs =>
          unfold pushMerged
          dsimp only
          rcases List.eq_nil_or_concat' out with rfl | ⟨init, last, rfl⟩
          · exact merged_concat h ht fun last hl => absurd hl (by simp)
          · rw [List.getLast?_concat]
            cases last with
            | var name fragmentType =>
                refine merged_concat h ht fun last hl hlit => ?_
                rw [List.getLast?_concat] at hl
                cases hl
                cases hlit
            | literal lastText =>
                dsimp only
                rw [List.dropLast_concat]
                have hinit : Merged init := h.of_append_left
                have hold : (Expanded.literal lastText).token.Fine (· ≠ nul) :=
                  h.fine _ (List.mem_append_right _ List.mem_cons_self)
                refine merged_concat hinit ⟨by simp, fun d hd => ?_⟩ fun last hl hlit => ?_
                · rcases List.mem_append.mp hd with hd | hd
                  · exact hold.2 d hd
                  · exact ht.2 d hd
                · -- In front of the merged piece stands what stood in front of its first part.
                  have hchain := h.chain
                  rw [List.map_append, List.isChain_append] at hchain
                  exact hchain.2.2 last.token (by rw [List.getLast?_map, hl]; rfl)
                    (Expanded.literal lastText).token rfl hlit

theorem foldl_pushMerged_merged {out ts : List Expanded} (h : Merged out)
    (hts : ∀ t ∈ ts, t.token.Fine (· ≠ nul)) : Merged (ts.foldl pushMerged out) := by
  induction ts generalizing out with
  | nil => exact h
  | cons t ts ih =>
      exact ih (pushMerged_merged h (hts t List.mem_cons_self))
        fun u hu => hts u (List.mem_cons_of_mem _ hu)

theorem mergeLiterals_merged {ts : List Expanded} (hts : ∀ t ∈ ts, t.token.Fine (· ≠ nul)) :
    Merged (mergeLiterals ts) := foldl_pushMerged_merged merged_nil hts

/-- What stands apart is not changed by merging. -/
theorem foldl_pushMerged_eq {out ts : List Expanded} (h : Merged (out ++ ts)) :
    ts.foldl pushMerged out = out ++ ts := by
  induction ts generalizing out with
  | nil => rw [List.append_nil]; rfl
  | cons t ts ih =>
      have hsplit : out ++ t :: ts = (out ++ [t]) ++ ts := by simp
      have hpush : pushMerged out t = out ++ [t] := by
        cases t with
        | var name fragmentType => rfl
        | literal text =>
            obtain ⟨hne, -⟩ := h.fine (.literal text) (by simp)
            cases text with
            | nil => exact absurd rfl hne
            | cons c cs =>
                unfold pushMerged
                dsimp only
                rcases List.eq_nil_or_concat' out with rfl | ⟨init, last, rfl⟩
                · rfl
                · rw [List.getLast?_concat]
                  cases last with
                  | var name fragmentType => rfl
                  | literal lastText =>
                      have hchain := h.chain
                      rw [List.map_append, List.isChain_append] at hchain
                      have hapart := hchain.2.2 (Expanded.literal lastText).token
                        (by rw [List.getLast?_map, List.getLast?_concat]; rfl)
                        (Expanded.literal (c :: cs)).token rfl rfl
                      cases hapart
      rw [List.foldl_cons, hpush, hsplit]
      exact ih (hsplit ▸ h)

theorem mergeLiterals_eq {ts : List Expanded} (h : Merged ts) : mergeLiterals ts = ts :=
  foldl_pushMerged_eq (show Merged ([] ++ ts) from h)

/-! ## Expansions are merged -/

theorem Token.Fine.mono {allowed allowed' : Char → Prop} (h : ∀ c, allowed c → allowed' c)
    {t : Token} (ht : t.Fine allowed) : t.Fine allowed' := by
  cases t with
  | literal text => exact ⟨ht.1, fun c hc => h c (ht.2 c hc)⟩
  | var name offset => exact ht
  | inclusion name offset => exact ht

/-- The tokens of a text without NUL. -/
theorem tokenize_fine_nul {template : String} {ts : List Token} (h : tokenize template = .ok ts)
    (hnul : nul ∉ template.toList) : ∀ t ∈ ts, t.Fine (· ≠ nul) := by
  intro t ht
  refine (tokenize_fine h t ht).mono fun c hc heq => ?_
  exact hnul (heq ▸ hc)

theorem ajs_get {depth : Nat} {v w : Value} {key : String} (h : Ajs depth v)
    (hw : v.get key = some w) : Ajs depth w := by
  cases v with
  | object members => exact ((ajsMembers_iff.mp h.2 _ (lookup_mem hw)).2).mono (Nat.le_succ _)
  | null => cases hw
  | bool b => cases hw
  | number n => cases hw
  | string s => cases hw
  | array items => cases hw

/-- A text of a value of the subset holds no NUL. -/
theorem nul_not_mem_strAt {depth : Nat} {v : Value} {key s : String} (h : Ajs depth v)
    (hs : strAt v key = some s) : nul ∉ s.toList := by
  unfold strAt at hs
  obtain ⟨w, hw, hstr⟩ := Option.bind_eq_some_iff.mp hs
  have hajs := ajs_get h hw
  cases w with
  | string text =>
      cases hstr
      exact hajs
  | null => cases hstr
  | bool b => cases hstr
  | number n => cases hstr
  | array items => cases hstr
  | object members => cases hstr

variable {p : Primitives} {v : Validator} {path : String}

/-- A content with the digest of a pin that names one is of the subset. -/
theorem entryMatches_ajs {entry : VersionEntry} {pin : Value} {key : String × Nat}
    (hkey : pinKey pin = some key) (h : entryMatches p entry pin = true) : Ajs 0 entry.content := by
  have hdigest : ∃ digest, pinDigest pin = some digest := by
    unfold pinKey at hkey
    obtain ⟨members, hmembers, hkey⟩ := Option.bind_eq_some_iff.mp hkey
    have hmembers := (Option.filter_eq_some_iff.mp hmembers).1
    obtain ⟨_, -, hkey⟩ := Option.bind_eq_some_iff.mp hkey
    obtain ⟨_, -, hkey⟩ := Option.bind_eq_some_iff.mp hkey
    obtain ⟨digest, hdigest, -⟩ := Option.bind_eq_some_iff.mp hkey
    refine ⟨digest, ?_⟩
    cases pin with
    | object ms =>
        cases hmembers
        exact hdigest
    | null => cases hmembers
    | bool b => cases hmembers
    | number n => cases hmembers
    | string s => cases hmembers
    | array items => cases hmembers
  obtain ⟨digest, hdigest⟩ := hdigest
  have heq := of_decide_eq_true h
  rw [hdigest] at heq
  rw [← promptDigest_eq_ok (p := p)]
  cases hcontent : promptDigest p entry.content with
  | ok d => exact ⟨d, rfl⟩
  | error e =>
      rw [hcontent] at heq
      cases heq

/-- How a fragment is expanded is all right: from tokens without NUL come merged pieces. -/
def GivesMerged (f : Expand) : Prop :=
  ∀ tokens fragments stack origin budget out,
    (∀ t ∈ tokens, t.Fine (· ≠ nul)) → f tokens fragments stack origin budget = .ok out →
    Merged out.1

theorem expandInclusion_fine {inner : Option Expand} (hinner : ∀ f, inner = some f → GivesMerged f)
    {fragments : Option Members} {stack : List String} {origin : Origin} {name : String}
    {offset budget : Nat} {out : List Expanded × Nat}
    (h : expandInclusion p v path inner fragments stack origin name offset budget = .ok out) :
    ∀ t ∈ out.1, t.token.Fine (· ≠ nul) := by
  unfold expandInclusion at h
  dsimp only at h
  cases hpin : fragments.bind (lookup name) with
  | none =>
      rw [hpin] at h
      cases h
  | some pin =>
      rw [hpin] at h
      dsimp only at h
      cases hkey : pinKey pin with
      | none =>
          rw [hkey] at h
          cases h
      | some key =>
          rw [hkey] at h
          dsimp only at h
          by_cases hcycle : versionKey key.1 key.2 ∈ stack
          · rw [if_pos hcycle] at h
            cases h
          · rw [if_neg hcycle] at h
            cases inner with
            | none => cases h
            | some f =>
                dsimp only at h
                by_cases hlimit : maxFragmentExpansions < budget + 1
                · rw [if_pos hlimit] at h
                  cases h
                · rw [if_neg hlimit] at h
                  cases hentry : v.source key.1 key.2 with
                  | none =>
                      rw [hentry] at h
                      dsimp only at h
                      by_cases hlenient : v.tolerateUnresolved = true
                      · rw [if_pos hlenient] at h
                        cases h
                        exact fun t ht => absurd ht List.not_mem_nil
                      · rw [if_neg hlenient] at h
                        cases h
                  | some entry =>
                      rw [hentry] at h
                      dsimp only at h
                      by_cases hmatch : entryMatches p entry pin = false
                      · rw [if_pos hmatch] at h
                        cases h
                      · rw [if_neg hmatch] at h
                        have hajs := entryMatches_ajs hkey (Bool.not_eq_false _ ▸ hmatch)
                        cases hkind : fragmentKindIssue entry path (versionKey key.1 key.2) with
                        | some issue =>
                            rw [hkind] at h
                            cases h
                        | none =>
                            rw [hkind] at h
                            dsimp only at h
                            cases htokens : tokenize ((strAt entry.content "body").getD "") with
                            | error e =>
                                rw [htokens] at h
                                cases h
                            | ok tokens =>
                                rw [htokens] at h
                                have hnul : nul ∉ ((strAt entry.content "body").getD "").toList := by
                                  cases hbody : strAt entry.content "body" with
                                  | none => simp
                                  | some body => exact nul_not_mem_strAt hajs hbody
                                exact (hinner f rfl _ _ _ _ _ _ (tokenize_fine_nul htokens hnul)
                                  h).fine

theorem expandTokens_fine {inner : Option Expand} (hinner : ∀ f, inner = some f → GivesMerged f)
    {fragments : Option Members} {stack : List String} {origin : Origin} {tokens : List Token}
    (htokens : ∀ t ∈ tokens, t.Fine (· ≠ nul)) {budget : Nat} {out : List Expanded × Nat}
    (h : expandTokens p v path inner fragments stack origin tokens budget = .ok out) :
    ∀ t ∈ out.1, t.token.Fine (· ≠ nul) := by
  induction tokens generalizing budget out with
  | nil =>
      cases h
      exact fun t ht => absurd ht List.not_mem_nil
  | cons token rest ih =>
      unfold expandTokens at h
      obtain ⟨first, hfirst, h⟩ := bind_eq_ok.mp h
      obtain ⟨more, hmore, h⟩ := bind_eq_ok.mp h
      cases h
      have htoken := htokens token List.mem_cons_self
      intro t ht
      rcases List.mem_append.mp ht with ht | ht
      · cases token with
        | literal text =>
            cases hfirst
            cases List.mem_singleton.mp ht
            exact htoken
        | var name offset =>
            cases hfirst
            cases List.mem_singleton.mp ht
            exact htoken
        | inclusion name offset => exact expandInclusion_fine hinner hfirst t ht
      · exact ih (fun u hu => htokens u (List.mem_cons_of_mem _ hu)) hmore t ht

theorem finishExpansion_eq_ok {raw out : List Expanded × Nat} :
    finishExpansion path raw = .ok out ↔ out = (mergeLiterals raw.1, raw.2)
      ∧ (expandedSource (mergeLiterals raw.1)).length ≤ maxExpandedCodePoints := by
  unfold finishExpansion
  dsimp only
  by_cases hsize : maxExpandedCodePoints < (expandedSource (mergeLiterals raw.1)).length
  · rw [if_pos hsize]
    constructor
    · intro h
      cases h
    · intro h
      exact absurd h.2 (by omega)
  · rw [if_neg hsize]
    constructor
    · intro h
      cases h
      exact ⟨rfl, by omega⟩
    · intro h
      rw [h.1]

/-- **What an expansion gives is merged.** -/
theorem expand_merged (depth : Nat) : GivesMerged (expand p v path depth) := by
  induction depth with
  | zero =>
      intro tokens fragments stack origin budget out htokens h
      unfold expand at h
      obtain ⟨raw, hraw, h⟩ := bind_eq_ok.mp h
      rw [(finishExpansion_eq_ok.mp h).1]
      exact mergeLiterals_merged (expandTokens_fine (fun f hf => by cases hf) htokens hraw)
  | succ depth ih =>
      intro tokens fragments stack origin budget out htokens h
      unfold expand at h
      obtain ⟨raw, hraw, h⟩ := bind_eq_ok.mp h
      rw [(finishExpansion_eq_ok.mp h).1]
      exact mergeLiterals_merged
        (expandTokens_fine (fun f hf => by cases hf; exact ih) htokens hraw)

theorem expand_size {depth : Nat} {tokens : List Token} {fragments : Option Members}
    {stack : List String} {origin : Origin} {budget : Nat} {out : List Expanded × Nat}
    (h : expand p v path depth tokens fragments stack origin budget = .ok out) :
    (expandedSource out.1).length ≤ maxExpandedCodePoints := by
  have hfinish : ∃ raw, finishExpansion path raw = .ok out := by
    cases depth with
    | zero =>
        unfold expand at h
        obtain ⟨raw, -, h⟩ := bind_eq_ok.mp h
        exact ⟨raw, h⟩
    | succ depth =>
        unfold expand at h
        obtain ⟨raw, -, h⟩ := bind_eq_ok.mp h
        exact ⟨raw, h⟩
  obtain ⟨raw, hraw⟩ := hfinish
  obtain ⟨rfl, hsize⟩ := finishExpansion_eq_ok.mp hraw
  exact hsize

/-! ## What was printed expands to itself -/

namespace Expanded

/-- A piece without the type that a fragment gave to its variable. -/
def plain : Expanded → Expanded
  | .literal text => .literal text
  | .var name _ => .var name none

theorem plain_token (t : Expanded) : t.plain.token = t.token := by
  cases t with
  | literal text => rfl
  | var name fragmentType => rfl

theorem token_erase (t : Expanded) : t.token.erase = t.token := by
  cases t with
  | literal text => rfl
  | var name fragmentType => rfl

end Expanded

theorem map_plain_token (out : List Expanded) :
    (out.map Expanded.plain).map Expanded.token = out.map Expanded.token := by
  rw [List.map_map]
  exact List.map_congr_left fun t _ => t.plain_token

theorem expandedSource_plain (out : List Expanded) :
    expandedSource (out.map Expanded.plain) = expandedSource out := by
  unfold expandedSource
  rw [map_plain_token]

theorem Merged.plain {out : List Expanded} (h : Merged out) : Merged (out.map Expanded.plain) := by
  refine ⟨fun t ht => ?_, by rw [map_plain_token]; exact h.chain⟩
  obtain ⟨u, hu, rfl⟩ := List.mem_map.mp ht
  rw [Expanded.plain_token]
  exact h.fine u hu

/-- Tokens without inclusions expand to themselves. -/
theorem expandTokens_plain {inner : Option Expand} {fragments : Option Members}
    {stack : List String} {tokens : List Token} {out : List Expanded} (budget : Nat)
    (h : tokens.map Token.erase = out.map Expanded.token) :
    expandTokens p v path inner fragments stack none tokens budget
      = .ok (out.map Expanded.plain, budget) := by
  induction out generalizing tokens with
  | nil =>
      cases List.map_eq_nil_iff.mp h
      rfl
  | cons t out ih =>
      cases tokens with
      | nil => cases h
      | cons token tokens =>
          obtain ⟨hhead, htail⟩ := List.cons.inj h
          have hfirst : expandToken p v path inner fragments stack none budget token
              = .ok ([t.plain], budget) := by
            cases t with
            | literal text =>
                cases token with
                | literal text' =>
                    cases hhead
                    rfl
                | var name offset => cases hhead
                | inclusion name offset => cases hhead
            | var name fragmentType =>
                cases token with
                | literal text' => cases hhead
                | var name' offset =>
                    cases hhead
                    rfl
                | inclusion name offset => cases hhead
          unfold expandTokens
          rw [hfirst]
          refine bind_eq_ok.mpr ⟨_, rfl, ?_⟩
          rw [ih htail]
          rfl

/-- **A printed expansion is read back and expands to itself.** -/
theorem expand_printed {out : List Expanded} (h : Merged out)
    (hsize : (expandedSource out).length ≤ maxExpandedCodePoints) (depth : Nat) :
    ∃ tokens, tokenize (String.ofList (expandedSource out)) = .ok tokens
      ∧ ∀ (fragments : Option Members) (stack : List String) (budget : Nat),
        expand p v path depth tokens fragments stack none budget
          = .ok (out.map Expanded.plain, budget) := by
  have hfine : ∀ t ∈ out.map Expanded.token, t.Fine (· ≠ nul) := by
    intro t ht
    obtain ⟨u, hu, rfl⟩ := List.mem_map.mp ht
    exact h.fine u hu
  obtain ⟨tokens, htokens, herase⟩ := tokenize_source hfine h.chain
  have htoken : tokens.map Token.erase = out.map Expanded.token := by
    rw [herase, List.map_map]
    exact List.map_congr_left fun t _ => t.token_erase
  have hfinish : ∀ budget, finishExpansion path (out.map Expanded.plain, budget)
      = .ok (out.map Expanded.plain, budget) := by
    intro budget
    rw [finishExpansion_eq_ok, mergeLiterals_eq h.plain, expandedSource_plain]
    exact ⟨rfl, hsize⟩
  refine ⟨tokens, htokens, fun fragments stack budget => ?_⟩
  cases depth with
  | zero =>
      unfold expand
      rw [expandTokens_plain budget htoken]
      exact hfinish budget
  | succ depth =>
      unfold expand
      rw [expandTokens_plain budget htoken]
      exact hfinish budget

end Agenomic.Prompt
