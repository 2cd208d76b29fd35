import Agenomic.Prompt.Template

/-!
# Reading templates undoes printing them

`tokenize_source` says that printed tokens are read back. Here is the other half: what
is read prints as the template it was read from (`tokenizeFrom_source_eq`), its pieces
of text never stand side by side, and every placeholder knows its place
(`tokenizeFrom_located`). Together they make the accepted templates exactly the printed
ones (`tokenize_inverse`).
-/

namespace Agenomic.Prompt

open Lib

/-- The offset of a placeholder. -/
def Token.offset? : Token → Option Nat
  | .literal _ => none
  | .var _ offset => some offset
  | .inclusion _ offset => some offset

/-- A token with a name that is accepted; a text that is not empty. -/
def Token.Legal : Token → Prop := Token.Fine fun _ => True

/-- The tokens of a template. -/
structure ReadAs (template : List Char) (tokens : List Token) : Prop where
  source : source tokens = template
  legal : ∀ token ∈ tokens, token.Legal
  apart : tokens.IsChain Token.Apart
  /-- A placeholder is where its opening brace is. -/
  located : ∀ before token after offset, tokens = before ++ token :: after →
    token.offset? = some offset →
      offset = (Prompt.source before).length ∧ template[offset]? = some '{'

/-! ## What is read prints as it was -/

theorem pushEscaped_append (a b : List Char) : pushEscaped (a ++ b) = pushEscaped a ++ pushEscaped b :=
  List.flatMap_append

theorem source_append (ts us : List Token) : source (ts ++ us) = source ts ++ source us :=
  List.flatMap_append

theorem source_cons (t : Token) (ts : List Token) : source (t :: ts) = t.source ++ source ts := rfl

theorem source_flushLiteral (literal : List Char) :
    source (flushLiteral literal) = pushEscaped literal := by
  unfold flushLiteral
  by_cases hempty : literal = []
  · rw [if_pos hempty, hempty]
    rfl
  · rw [if_neg hempty]
    exact List.append_nil _

/-- A placeholder prints as what stood between its braces. -/
theorem braced_source {inner : List Char} {index : Nat} {chars : List Char} {token : Token}
    (h : braced inner index chars = .ok token) :
    token.source = '{' :: (inner ++ ['}']) ∧ token.isLiteral = false
      ∧ token.offset? = some index := by
  unfold braced at h
  split at h
  · rename_i name
    by_cases hname : isName (String.ofList name) = true
    · rw [if_pos hname] at h
      cases h
      refine ⟨?_, rfl, rfl⟩
      have hprinted : (Token.inclusion (String.ofList name) index).source
          = '{' :: '>' :: ((String.ofList name).toList ++ ['}']) := rfl
      rw [hprinted, String.toList_ofList]
      rfl
    · rw [if_neg hname] at h
      cases h
  · obtain ⟨name, hclassify, h⟩ := bind_eq_ok.mp h
    cases h
    obtain ⟨rfl, -⟩ := classify_eq_ok.mp hclassify
    exact ⟨rfl, rfl, rfl⟩

/-- The braces of a placeholder and what stands between them, cut off the rest. -/
theorem cut_braced {rest : List Char} (h : (rest.takeWhile (· ≠ '}')).length ≠ rest.length) :
    rest = rest.takeWhile (· ≠ '}') ++ '}' :: rest.drop ((rest.takeWhile (· ≠ '}')).length + 1) := by
  induction rest with
  | nil => exact absurd rfl h
  | cons c rest ih =>
      by_cases hc : c = '}'
      · subst hc
        simp
      · have hkeep : (c :: rest).takeWhile (· ≠ '}') = c :: rest.takeWhile (· ≠ '}') :=
          List.takeWhile_cons_of_pos (by simpa using hc)
        rw [hkeep] at h ⊢
        rw [List.length_cons, List.length_cons] at h
        rw [List.length_cons, List.drop_succ_cons, List.cons_append,
          ← ih fun heq => h (by rw [heq])]

/-- **What is read prints as what was left of the template**, behind the literal read so far. -/
theorem tokenizeFrom_source_eq {chars rest : List Char} : ∀ {skip index : Nat} {literal : List Char}
    {ts : List Token}, skip ≤ rest.length → tokenizeFrom chars skip index literal rest = .ok ts →
      source ts = pushEscaped literal ++ rest.drop skip := by
  induction rest with
  | nil =>
      intro skip index literal ts _ h
      cases h
      rw [source_flushLiteral, List.drop_nil, List.append_nil]
  | cons ch rest ih =>
      intro skip index literal ts hskip h
      cases skip with
      | succ skip =>
          rw [List.drop_succ_cons]
          exact ih (by simpa using hskip) h
      | zero =>
          rw [List.drop_zero]
          unfold tokenizeFrom at h
          by_cases hopen : ch = '{'
          · rw [if_pos hopen] at h
            by_cases hdouble : rest.head? = some '{'
            · rw [if_pos hdouble] at h
              obtain ⟨tail, rfl⟩ := List.head?_eq_some_iff.mp hdouble
              rw [ih (by simp) h, pushEscaped_append, hopen, List.append_assoc]
              rfl
            · rw [if_neg hdouble] at h
              dsimp only at h
              by_cases hend : (rest.takeWhile (· ≠ '}')).length = rest.length
              · rw [if_pos hend] at h
                cases h
              · rw [if_neg hend] at h
                obtain ⟨token, htoken, h⟩ := bind_eq_ok.mp h
                obtain ⟨more, hmore, h⟩ := bind_eq_ok.mp h
                cases h
                have hcut := cut_braced hend
                have hlen : (rest.takeWhile (· ≠ '}')).length + 1 ≤ rest.length := by
                  have hle := (List.takeWhile_sublist (p := (· ≠ '}')) (l := rest)).length_le
                  omega
                have hrest : source more
                    = rest.drop ((rest.takeWhile (· ≠ '}')).length + 1) := ih hlen hmore
                rw [source_append, source_flushLiteral, source_cons, (braced_source htoken).1, hrest,
                  hopen, List.cons_append, List.append_assoc, List.singleton_append, ← hcut]
          · rw [if_neg hopen] at h
            by_cases hclose : ch = '}'
            · rw [if_pos hclose] at h
              by_cases hdouble : rest.head? = some '}'
              · rw [if_pos hdouble] at h
                obtain ⟨tail, rfl⟩ := List.head?_eq_some_iff.mp hdouble
                rw [ih (by simp) h, pushEscaped_append, hclose, List.append_assoc]
                rfl
              · rw [if_neg hdouble] at h
                cases h
            · rw [if_neg hclose] at h
              have hplain : pushEscaped [ch] = [ch] := by
                unfold pushEscaped
                rw [List.flatMap_singleton, if_neg (by simp [hopen, hclose])]
              rw [ih (Nat.zero_le _) h, pushEscaped_append, hplain, List.append_assoc]
              rfl

/-! ## No two pieces of text stand side by side -/

theorem apart_flushLiteral {token : Token} {more : List Token} (literal : List Char)
    (htoken : token.isLiteral = false) (hmore : more.IsChain Token.Apart) :
    (flushLiteral literal ++ token :: more).IsChain Token.Apart := by
  have htail : (token :: more).IsChain Token.Apart := by
    refine List.isChain_cons.mpr ⟨fun t _ hlit => ?_, hmore⟩
    rw [htoken] at hlit
    cases hlit
  unfold flushLiteral
  by_cases hempty : literal = []
  · rw [if_pos hempty]
    exact htail
  · rw [if_neg hempty]
    exact List.isChain_cons_cons.mpr ⟨fun _ => htoken, htail⟩

theorem tokenizeFrom_apart {chars rest : List Char} : ∀ {skip index : Nat} {literal : List Char}
    {ts : List Token}, tokenizeFrom chars skip index literal rest = .ok ts →
      ts.IsChain Token.Apart := by
  induction rest with
  | nil =>
      intro skip index literal ts h
      cases h
      unfold flushLiteral
      by_cases hempty : literal = []
      · rw [if_pos hempty]
        exact List.isChain_nil
      · rw [if_neg hempty]
        exact List.isChain_singleton _
  | cons ch rest ih =>
      intro skip index literal ts h
      cases skip with
      | succ skip => exact ih h
      | zero =>
          unfold tokenizeFrom at h
          by_cases hopen : ch = '{'
          · rw [if_pos hopen] at h
            by_cases hdouble : rest.head? = some '{'
            · rw [if_pos hdouble] at h
              exact ih h
            · rw [if_neg hdouble] at h
              dsimp only at h
              by_cases hend : (rest.takeWhile (· ≠ '}')).length = rest.length
              · rw [if_pos hend] at h
                cases h
              · rw [if_neg hend] at h
                obtain ⟨token, htoken, h⟩ := bind_eq_ok.mp h
                obtain ⟨more, hmore, h⟩ := bind_eq_ok.mp h
                cases h
                exact apart_flushLiteral literal (braced_source htoken).2.1 (ih hmore)
          · rw [if_neg hopen] at h
            by_cases hclose : ch = '}'
            · rw [if_pos hclose] at h
              by_cases hdouble : rest.head? = some '}'
              · rw [if_pos hdouble] at h
                exact ih h
              · rw [if_neg hdouble] at h
                cases h
            · rw [if_neg hclose] at h
              exact ih h

/-! ## Placeholders know their place -/

/-- Every placeholder is where the tokens in front of it end, counted from a start. -/
def Located : Nat → List Token → Prop
  | _, [] => True
  | start, token :: rest =>
      (∀ offset, token.offset? = some offset → offset = start)
        ∧ Located (start + token.source.length) rest

theorem located_append {ts us : List Token} : ∀ {start : Nat},
    Located start (ts ++ us) ↔ Located start ts ∧ Located (start + (source ts).length) us := by
  induction ts with
  | nil => exact ⟨fun h => ⟨trivial, h⟩, fun h => h.2⟩
  | cons t ts ih =>
      intro start
      rw [List.cons_append, Located, Located, ih, source_cons, List.length_append, Nat.add_assoc,
        and_assoc]

theorem located_flushLiteral (start : Nat) (literal : List Char) :
    Located start (flushLiteral literal) := by
  unfold flushLiteral
  by_cases hempty : literal = []
  · rw [if_pos hempty]
    trivial
  · rw [if_neg hempty]
    exact ⟨fun _ => (nomatch ·), trivial⟩

theorem tokenizeFrom_located {chars rest : List Char} : ∀ {skip index start : Nat}
    {literal : List Char} {ts : List Token}, start + (pushEscaped literal).length = index + skip →
      tokenizeFrom chars skip index literal rest = .ok ts → Located start ts := by
  induction rest with
  | nil =>
      intro skip index start literal ts _ h
      cases h
      exact located_flushLiteral start literal
  | cons ch rest ih =>
      intro skip index start literal ts hstart h
      have hpush : ∀ c, (pushEscaped (literal ++ [c])).length
          = (pushEscaped literal).length + (pushEscaped [c]).length := fun c => by
        rw [pushEscaped_append, List.length_append]
      cases skip with
      | succ skip => exact ih (by omega) h
      | zero =>
          unfold tokenizeFrom at h
          by_cases hopen : ch = '{'
          · rw [if_pos hopen] at h
            by_cases hdouble : rest.head? = some '{'
            · rw [if_pos hdouble] at h
              have htwo : (pushEscaped ['{']).length = 2 := rfl
              have hlen := hpush '{'
              exact ih (by omega) h
            · rw [if_neg hdouble] at h
              dsimp only at h
              by_cases hend : (rest.takeWhile (· ≠ '}')).length = rest.length
              · rw [if_pos hend] at h
                cases h
              · rw [if_neg hend] at h
                obtain ⟨token, htoken, h⟩ := bind_eq_ok.mp h
                obtain ⟨more, hmore, h⟩ := bind_eq_ok.mp h
                cases h
                obtain ⟨hsource, -, hoffset⟩ := braced_source htoken
                have hlen : token.source.length = (rest.takeWhile (· ≠ '}')).length + 2 := by
                  rw [hsource, List.length_cons, List.length_append, List.length_singleton]
                rw [located_append, source_flushLiteral]
                refine ⟨located_flushLiteral start literal, fun offset hsome => ?_, ?_⟩
                · rw [hoffset] at hsome
                  cases hsome
                  omega
                · have hnil : (pushEscaped []).length = 0 := rfl
                  exact ih (by omega) hmore
          · rw [if_neg hopen] at h
            by_cases hclose : ch = '}'
            · rw [if_pos hclose] at h
              by_cases hdouble : rest.head? = some '}'
              · rw [if_pos hdouble] at h
                have htwo : (pushEscaped ['}']).length = 2 := rfl
                have hlen := hpush '}'
                exact ih (by omega) h
              · rw [if_neg hdouble] at h
                cases h
            · rw [if_neg hclose] at h
              have hone : (pushEscaped [ch]).length = 1 := by
                unfold pushEscaped
                rw [List.flatMap_singleton, if_neg (by simp [hopen, hclose])]
                rfl
              have hlen := hpush ch
              exact ih (by omega) h

/-- A placeholder prints with an opening brace. -/
theorem head_source {token : Token} {offset : Nat} (h : token.offset? = some offset) :
    token.source.head? = some '{' := by
  cases token with
  | literal text => cases h
  | var name offset => rfl
  | inclusion name offset => rfl

/-! ## Both ways -/

/-- What is read of a template. -/
theorem tokenize_readAs {template : String} {tokens : List Token}
    (h : tokenize template = .ok tokens) : ReadAs template.toList tokens := by
  have hsource : source tokens = template.toList :=
    tokenizeFrom_source_eq (Nat.zero_le _) h
  have hstart : 0 + (pushEscaped []).length = 0 + 0 := rfl
  have hlocated : Located 0 tokens := tokenizeFrom_located hstart h
  refine ⟨hsource, tokenizeFrom_fine (fun _ _ => trivial) (fun _ _ => trivial) h,
    tokenizeFrom_apart h, ?_⟩
  rintro before token after offset rfl hoffset
  have hplace : offset = (source before).length := by
    rw [located_append] at hlocated
    rw [hlocated.2.1 offset hoffset, Nat.zero_add]
  refine ⟨hplace, ?_⟩
  rw [← hsource, source_append, source_cons, hplace, List.getElem?_append_right (Nat.le_refl _),
    Nat.sub_self, ← List.head?_eq_getElem?, List.head?_append_of_ne_nil, head_source hoffset]
  intro hnil
  have hhead := head_source hoffset
  rw [hnil] at hhead
  cases hhead

/-- **The tokenizer is the exact inverse of its printer.** What it reads of a template prints as
that template; legal tokens, with no two texts side by side, are read back from what they print,
up to offsets; and so what it accepts is exactly what such tokens print. -/
theorem tokenize_inverse :
    (∀ template tokens, tokenize template = .ok tokens → ReadAs template.toList tokens)
      ∧ (∀ tokens : List Token, (∀ token ∈ tokens, token.Legal) → tokens.IsChain Token.Apart →
        ∃ ts, tokenize (String.ofList (source tokens)) = .ok ts
          ∧ ts.map Token.erase = tokens.map Token.erase)
      ∧ ∀ template, (∃ tokens, tokenize template = .ok tokens)
        ↔ ∃ tokens : List Token, (∀ token ∈ tokens, token.Legal) ∧ tokens.IsChain Token.Apart
          ∧ source tokens = template.toList := by
  refine ⟨fun _ _ => tokenize_readAs, fun _ => tokenize_source, fun template => ⟨?_, ?_⟩⟩
  · rintro ⟨tokens, h⟩
    have hread := tokenize_readAs h
    exact ⟨tokens, hread.legal, hread.apart, hread.source⟩
  · rintro ⟨tokens, hlegal, hapart, hsource⟩
    obtain ⟨ts, hts, -⟩ := tokenize_source hlegal hapart
    rw [hsource, String.ofList_toList] at hts
    exact ⟨ts, hts⟩

end Agenomic.Prompt
