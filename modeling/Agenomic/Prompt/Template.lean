import Agenomic.Prompt.Refs

/-!
# Templates

A template is text with placeholders in braces: `{name}` stands for a variable and
`{>name}` includes a fragment; a doubled brace is a brace of the text. `source` prints
tokens, and `tokenize` reads them back: what was printed is read as the same tokens, up
to offsets, when no two pieces of text stand side by side and none is empty
(`tokenize_source`).
-/

namespace Agenomic.Prompt

open Lib

inductive Token where
  | literal (text : List Char)
  | var (name : String) (offset : Nat)
  | inclusion (name : String) (offset : Nat)
  deriving DecidableEq, Repr

structure SyntaxError where
  reason : String
  offset : Nat
  line : Nat
  column : Nat
  deriving DecidableEq, Repr

/-- An error at an offset of a template. -/
def SyntaxError.at (reason : String) (offset : Nat) (chars : List Char) : SyntaxError :=
  let position := ((chars.take offset).zipIdx).foldl (fun (line, column) (ch, index) =>
    if ch = '\n' then (line + 1, offset - index) else (line, column)) (1, offset + 1)
  ⟨reason, offset, position.1, position.2⟩

/-! ## Reading -/

/-- What a character that is not of a name says about a placeholder. -/
def placeholderFault (c : Char) : Option String :=
  if isNameChar c then none
  else if c = '!' then some "conversion"
  else if c = ':' then some "format_spec"
  else if c = '.' then some "attribute_access"
  else if c = '[' then some "index_access"
  else if ('\t' ≤ c ∧ c ≤ '\r') ∨ c = ' ' then some "whitespace_in_placeholder"
  else some "invalid_placeholder_name"

/-- The name in a placeholder. -/
def classify (inner : List Char) (offset : Nat) (chars : List Char) : Except SyntaxError String :=
  let fail reason := .error (SyntaxError.at reason offset chars)
  if inner = [] then fail "empty_placeholder"
  else if '{' ∈ inner then fail "nested_placeholder"
  else match inner.findSome? placeholderFault with
    | some reason => fail reason
    | none =>
        if inner.all Char.isDigit then fail "positional_placeholder"
        else if inner.head?.any Char.isDigit then fail "invalid_placeholder_name"
        else if 64 < inner.length then fail "placeholder_name_too_long"
        else .ok (String.ofList inner)

/-- The token of what stands between braces. -/
def braced (inner : List Char) (offset : Nat) (chars : List Char) : Except SyntaxError Token :=
  match inner with
  | '>' :: name =>
      if isName (String.ofList name) then .ok (.inclusion (String.ofList name) offset)
      else .error (.at "invalid_fragment_name" offset chars)
  | _ => do
      let name ← classify inner offset chars
      .ok (.var name offset)

def flushLiteral (literal : List Char) : List Token :=
  if literal = [] then [] else [.literal literal]

/-- The tokens of what is left of a template, behind the literal read so far; the first
characters are skipped when they were read already. -/
def tokenizeFrom (chars : List Char) (skip index : Nat) (literal : List Char) :
    List Char → Except SyntaxError (List Token)
  | [] => .ok (flushLiteral literal)
  | ch :: rest =>
      match skip with
      | skip + 1 => tokenizeFrom chars skip (index + 1) literal rest
      | 0 =>
          if ch = '{' then
            if rest.head? = some '{' then tokenizeFrom chars 1 (index + 1) (literal ++ ['{']) rest
            else
              let inner := rest.takeWhile (· ≠ '}')
              if inner.length = rest.length then .error (.at "unclosed_brace" index chars)
              else do
                let token ← braced inner index chars
                let more ← tokenizeFrom chars (inner.length + 1) (index + 1) [] rest
                .ok (flushLiteral literal ++ token :: more)
          else if ch = '}' then
            if rest.head? = some '}' then tokenizeFrom chars 1 (index + 1) (literal ++ ['}']) rest
            else .error (.at "unmatched_closing_brace" index chars)
          else tokenizeFrom chars 0 (index + 1) (literal ++ [ch]) rest

def tokenize (template : String) : Except SyntaxError (List Token) :=
  tokenizeFrom template.toList 0 0 [] template.toList

/-! ## Printing -/

def pushEscaped (text : List Char) : List Char :=
  text.flatMap fun c => if c = '{' ∨ c = '}' then [c, c] else [c]

/-- A token as it is printed. -/
def Token.source : Token → List Char
  | .literal text => pushEscaped text
  | .var name _ => '{' :: (name.toList ++ ['}'])
  | .inclusion name _ => '{' :: '>' :: (name.toList ++ ['}'])

def source (tokens : List Token) : List Char := tokens.flatMap Token.source

/-! ## Names -/

theorem not_isDigit_of_isAlpha {c : Char} (h : c.isAlpha = true) : c.isDigit = false := by
  simp only [Char.isAlpha, Char.isUpper, Char.isLower, Bool.or_eq_true, Bool.and_eq_true,
    decide_eq_true_eq, UInt32.le_iff_toNat_le, ge_iff_le] at h
  rw [Char.isDigit, Bool.and_eq_false_iff]
  simp only [decide_eq_false_iff_not, UInt32.le_iff_toNat_le, ge_iff_le]
  have hA : 'A'.val.toNat = 65 := rfl
  have ha : 'a'.val.toNat = 97 := rfl
  have h9 : '9'.val.toNat = 57 := rfl
  omega

theorem isAlphanum_iff {c : Char} : c.isAlphanum = true ↔ c.isAlpha = true ∨ c.isDigit = true := by
  rw [Char.isAlphanum, Bool.or_eq_true]

theorem isNameChar_ne {c : Char} (h : isNameChar c = true) : c ≠ '{' ∧ c ≠ '}' ∧ c ≠ '>' := by
  refine ⟨?_, ?_, ?_⟩
  · rintro rfl
    exact absurd h (by decide)
  · rintro rfl
    exact absurd h (by decide)
  · rintro rfl
    exact absurd h (by decide)

/-- The first character of a name is no digit, and all are characters of names. -/
theorem isName_iff {name : String} : isName name = true
    ↔ name.toList ≠ [] ∧ name.toList.length ≤ 64 ∧ (∀ c ∈ name.toList, isNameChar c = true)
      ∧ ∀ c, name.toList.head? = some c → c.isDigit = false := by
  unfold isName
  cases hchars : name.toList with
  | nil => simp
  | cons c rest =>
      have hfirst : (c.isAlpha || decide (c = '_')) = true
          ↔ isNameChar c = true ∧ c.isDigit = false := by
        unfold isNameChar
        simp only [Bool.or_eq_true, decide_eq_true_eq, isAlphanum_iff]
        constructor
        · rintro (halpha | rfl)
          · exact ⟨.inl (.inl halpha), not_isDigit_of_isAlpha halpha⟩
          · exact ⟨.inr rfl, by decide⟩
        · rintro ⟨(halpha | hdigit) | heq, hnot⟩
          · exact .inl halpha
          · rw [hnot] at hdigit
            cases hdigit
          · exact .inr heq
      rw [Bool.and_eq_true, Bool.and_eq_true, hfirst]
      simp only [decide_eq_true_eq, List.all_eq_true, List.mem_cons, List.length_cons,
        List.head?_cons, Option.some.injEq]
      constructor
      · rintro ⟨⟨hlen, hc, hdigit⟩, hrest⟩
        refine ⟨by simp, by omega, ?_, ?_⟩
        · rintro d (rfl | hd)
          · exact hc
          · exact hrest d hd
        · rintro d rfl
          exact hdigit
      · rintro ⟨_, hlen, hall, hhead⟩
        exact ⟨⟨by omega, hall c (.inl rfl), hhead c rfl⟩, fun d hd => hall d (.inr hd)⟩

theorem placeholderFault_eq_none {c : Char} : placeholderFault c = none ↔ isNameChar c = true := by
  unfold placeholderFault
  by_cases h : isNameChar c = true
  · rw [if_pos h]
    exact ⟨fun _ => h, fun _ => rfl⟩
  · rw [if_neg h]
    refine ⟨fun hnone => ?_, fun hname => absurd hname h⟩
    repeat' split at hnone
    all_goals cases hnone

/-- A placeholder is accepted exactly when a name stands in it. -/
theorem classify_eq_ok {inner : List Char} {offset : Nat} {chars : List Char} {name : String} :
    classify inner offset chars = .ok name ↔ inner = name.toList ∧ isName name = true := by
  unfold classify
  dsimp only
  constructor
  · intro h
    by_cases hempty : inner = []
    · rw [if_pos hempty] at h
      cases h
    · rw [if_neg hempty] at h
      by_cases hnested : '{' ∈ inner
      · rw [if_pos hnested] at h
        cases h
      · rw [if_neg hnested] at h
        cases hfault : inner.findSome? placeholderFault with
        | some reason =>
            rw [hfault] at h
            cases h
        | none =>
            rw [hfault] at h
            dsimp only at h
            by_cases hdigits : inner.all Char.isDigit = true
            · rw [if_pos hdigits] at h
              cases h
            · rw [if_neg hdigits] at h
              by_cases hhead : inner.head?.any Char.isDigit = true
              · rw [if_pos hhead] at h
                cases h
              · rw [if_neg hhead] at h
                by_cases hlen : 64 < inner.length
                · rw [if_pos hlen] at h
                  cases h
                · rw [if_neg hlen] at h
                  cases h
                  rw [isName_iff, String.toList_ofList]
                  refine ⟨rfl, hempty, by omega, fun c hc => ?_, fun c hc => ?_⟩
                  · exact placeholderFault_eq_none.mp (List.findSome?_eq_none_iff.mp hfault c hc)
                  · rw [hc] at hhead
                    exact Bool.not_eq_true _ ▸ hhead
  · rintro ⟨rfl, hname⟩
    obtain ⟨hempty, hlen, hall, hhead⟩ := isName_iff.mp hname
    have hnested : '{' ∉ name.toList := fun hmem => (isNameChar_ne (hall _ hmem)).1 rfl
    have hfault : name.toList.findSome? placeholderFault = none :=
      List.findSome?_eq_none_iff.mpr fun c hc => placeholderFault_eq_none.mpr (hall c hc)
    have hany : ¬ name.toList.head?.any Char.isDigit = true := by
      cases hchars : name.toList.head? with
      | none => simp
      | some c =>
          rw [Option.any_some, hhead c hchars]
          simp
    have hdigits : ¬ name.toList.all Char.isDigit = true := by
      intro hdigits
      obtain ⟨c, rest, hchars⟩ := List.exists_cons_of_ne_nil hempty
      have hc := List.all_eq_true.mp hdigits c (by rw [hchars]; exact List.mem_cons_self)
      rw [hhead c (by rw [hchars]; rfl)] at hc
      cases hc
    rw [if_neg hempty, if_neg hnested, hfault]
    dsimp only
    rw [if_neg hdigits, if_neg hany, if_neg (by omega), String.ofList_toList]

/-! ## What is printed is read back -/

namespace Token

def isLiteral : Token → Bool
  | .literal _ => true
  | _ => false

/-- A token that can be read: its text is not empty, or its name is a name. -/
def Fine (allowed : Char → Prop) : Token → Prop
  | .literal text => text ≠ [] ∧ ∀ c ∈ text, allowed c
  | .var name _ => isName name = true
  | .inclusion name _ => isName name = true

/-- Of two tokens side by side, not both are text. -/
def Apart (a b : Token) : Prop := a.isLiteral = true → b.isLiteral = false

/-- A token without its offset. -/
def erase : Token → Token
  | .literal text => .literal text
  | .var name _ => .var name 0
  | .inclusion name _ => .inclusion name 0

end Token

theorem tokenizeFrom_skip (chars xs : List Char) (index : Nat) (literal rest : List Char) :
    tokenizeFrom chars xs.length index literal (xs ++ rest)
      = tokenizeFrom chars 0 (index + xs.length) literal rest := by
  induction xs generalizing index with
  | nil => rfl
  | cons x xs ih =>
      rw [List.length_cons, List.cons_append, tokenizeFrom, ih]
      congr 1
      omega

/-- A text is read back as it was escaped. -/
theorem tokenizeFrom_escaped (chars text : List Char) (index : Nat) (literal rest : List Char) :
    tokenizeFrom chars 0 index literal (pushEscaped text ++ rest)
      = tokenizeFrom chars 0 (index + (pushEscaped text).length) (literal ++ text) rest := by
  induction text generalizing index literal with
  | nil =>
      rw [List.append_nil]
      rfl
  | cons c text ih =>
      unfold pushEscaped at ih ⊢
      rw [List.flatMap_cons, List.append_assoc, List.length_append]
      by_cases hbrace : c = '{' ∨ c = '}'
      · rw [if_pos hbrace]
        have hstep : tokenizeFrom chars 0 index literal
            ([c, c] ++ (text.flatMap (fun c => if c = '{' ∨ c = '}' then [c, c] else [c]) ++ rest))
            = tokenizeFrom chars 0 (index + 2) (literal ++ [c])
              (text.flatMap (fun c => if c = '{' ∨ c = '}' then [c, c] else [c]) ++ rest) := by
          rcases hbrace with rfl | rfl
          · rfl
          · rfl
        rw [hstep, ih, List.append_assoc]
        congr 1
        simp only [List.length_cons, List.length_nil]
        omega
      · rw [if_neg hbrace]
        have hopen : c ≠ '{' := fun h => hbrace (.inl h)
        have hclose : c ≠ '}' := fun h => hbrace (.inr h)
        rw [List.singleton_append, tokenizeFrom, if_neg hopen, if_neg hclose, ih, List.append_assoc]
        congr 1
        simp only [List.length_cons, List.length_nil]
        omega

theorem braced_var {name : String} (h : isName name = true) (index : Nat) (chars : List Char) :
    braced name.toList index chars = .ok (.var name index) := by
  obtain ⟨hempty, -, hall, -⟩ := isName_iff.mp h
  have hclassify : classify name.toList index chars = .ok name := classify_eq_ok.mpr ⟨rfl, h⟩
  obtain ⟨c, rest, hchars⟩ := List.exists_cons_of_ne_nil hempty
  rw [hchars] at hclassify ⊢
  have hc : c ≠ '>' := (isNameChar_ne (hall c (by rw [hchars]; exact List.mem_cons_self))).2.2
  unfold braced
  split
  · rename_i heq
    exact absurd (List.cons.inj heq).1 hc
  · rw [hclassify]
    rfl

theorem braced_inclusion {name : String} (h : isName name = true) (index : Nat)
    (chars : List Char) :
    braced ('>' :: name.toList) index chars = .ok (.inclusion name index) := by
  unfold braced
  split
  · rename_i heq
    cases heq
    rw [String.ofList_toList, if_pos h]
  · rename_i hne
    exact absurd rfl (hne _)

/-- What stands between braces is read up to the first closing one. -/
theorem tokenizeFrom_braced {inner : List Char} (hclose : '}' ∉ inner)
    (hopen : inner.head? ≠ some '{') {chars : List Char} {index : Nat} {token : Token}
    (htoken : braced inner index chars = .ok token) (literal rest : List Char) :
    tokenizeFrom chars 0 index literal ('{' :: (inner ++ '}' :: rest))
      = (do
          let more ← tokenizeFrom chars 0 (index + inner.length + 2) [] rest
          .ok (flushLiteral literal ++ token :: more)) := by
  have hhead : (inner ++ '}' :: rest).head? ≠ some '{' := by
    cases inner with
    | nil => simp
    | cons c inner => exact hopen
  have htake : (inner ++ '}' :: rest).takeWhile (· ≠ '}') = inner := by
    rw [List.takeWhile_append_of_pos]
    · simp
    · intro c hc
      exact decide_eq_true fun heq => hclose (heq ▸ hc)
  have hskip : tokenizeFrom chars (inner.length + 1) (index + 1) [] (inner ++ '}' :: rest)
      = tokenizeFrom chars 0 (index + inner.length + 2) [] rest := by
    have hskip := tokenizeFrom_skip chars (inner ++ ['}']) (index + 1) [] rest
    rw [List.length_append, List.append_assoc, List.singleton_append, List.length_singleton]
      at hskip
    rw [hskip]
    congr 1
    omega
  rw [tokenizeFrom, if_pos rfl, if_neg hhead]
  dsimp only
  rw [htake, if_neg (by simp), htoken, hskip]
  rfl

theorem tokenizeFrom_source {allowed : Char → Prop} (chars : List Char) {tokens : List Token}
    (hfine : ∀ t ∈ tokens, t.Fine allowed)
    (hchain : tokens.IsChain Token.Apart) :
    ∀ (index : Nat) (literal : List Char),
      (literal ≠ [] → ∀ t, tokens.head? = some t → t.isLiteral = false) →
      ∃ ts, tokenizeFrom chars 0 index literal (source tokens) = .ok ts
        ∧ ts.map Token.erase = (flushLiteral literal ++ tokens).map Token.erase := by
  induction tokens with
  | nil =>
      intro index literal _
      exact ⟨_, rfl, by rw [List.append_nil]⟩
  | cons token tokens ih =>
      intro index literal hhead
      have hrest := ih (fun t ht => hfine t (List.mem_cons_of_mem _ ht)) hchain.tail
      have hsource : source (token :: tokens) = token.source ++ source tokens :=
        List.flatMap_cons
      rw [hsource]
      cases token with
      | literal text =>
          obtain ⟨hne, -⟩ := hfine _ List.mem_cons_self
          have hliteral : literal = [] := by
            by_contra hlit
            cases hhead hlit _ rfl
          obtain ⟨ts, hts, herase⟩ := hrest (index + (pushEscaped text).length) text
            (fun _ t ht => by
              cases tokens with
              | nil => cases ht
              | cons u us =>
                  cases ht
                  exact (List.isChain_cons_cons.mp hchain).1 rfl)
          refine ⟨ts, ?_, ?_⟩
          · rw [Token.source, tokenizeFrom_escaped, hliteral, List.nil_append]
            exact hts
          · rw [herase, hliteral]
            unfold flushLiteral
            rw [if_neg hne, if_pos rfl]
            rfl
      | var name offset =>
          have hname : isName name = true := hfine _ List.mem_cons_self
          obtain ⟨-, -, hall, -⟩ := isName_iff.mp hname
          obtain ⟨ts, hts, herase⟩ := hrest (index + name.toList.length + 2) []
            (fun hne => absurd rfl hne)
          refine ⟨flushLiteral literal ++ .var name index :: ts, ?_, ?_⟩
          · have hopen : name.toList.head? ≠ some '{' := fun heq =>
              (isNameChar_ne (hall '{' (List.mem_of_mem_head? heq))).1 rfl
            rw [Token.source, List.cons_append, List.append_assoc, List.singleton_append,
              tokenizeFrom_braced (fun hmem => (isNameChar_ne (hall _ hmem)).2.1 rfl) hopen
                (braced_var hname index chars), hts]
            rfl
          · rw [List.map_append, List.map_append, List.map_cons, List.map_cons, herase]
            rfl
      | inclusion name offset =>
          have hname : isName name = true := hfine _ List.mem_cons_self
          obtain ⟨-, -, hall, -⟩ := isName_iff.mp hname
          obtain ⟨ts, hts, herase⟩ := hrest (index + ('>' :: name.toList).length + 2) []
            (fun hne => absurd rfl hne)
          refine ⟨flushLiteral literal ++ .inclusion name index :: ts, ?_, ?_⟩
          · have hclose : '}' ∉ '>' :: name.toList := by
              intro hmem
              rcases List.mem_cons.mp hmem with heq | hmem
              · cases heq
              · exact (isNameChar_ne (hall _ hmem)).2.1 rfl
            have hsrc : Token.source (.inclusion name offset) ++ source tokens
                = '{' :: (('>' :: name.toList) ++ '}' :: source tokens) := by
              simp [Token.source]
            rw [hsrc, tokenizeFrom_braced hclose (by simp) (braced_inclusion hname index chars), hts]
            rfl
          · rw [List.map_append, List.map_append, List.map_cons, List.map_cons, herase]
            rfl

/-- **What was printed is read back, up to offsets.** -/
theorem tokenize_source {allowed : Char → Prop} {tokens : List Token}
    (hfine : ∀ t ∈ tokens, t.Fine allowed)
    (hchain : tokens.IsChain Token.Apart) :
    ∃ ts, tokenize (String.ofList (source tokens)) = .ok ts
      ∧ ts.map Token.erase = tokens.map Token.erase := by
  unfold tokenize
  rw [String.toList_ofList]
  exact tokenizeFrom_source _ hfine hchain 0 [] fun hne => absurd rfl hne

/-! ## What is read -/

theorem braced_fine {inner : List Char} {index : Nat} {chars : List Char} {token : Token}
    (allowed : Char → Prop) (h : braced inner index chars = .ok token) : token.Fine allowed := by
  unfold braced at h
  split at h
  · by_cases hname : isName (String.ofList ‹_›) = true
    · rw [if_pos hname] at h
      cases h
      exact hname
    · rw [if_neg hname] at h
      cases h
  · obtain ⟨name, hclassify, h⟩ := bind_eq_ok.mp h
    cases h
    exact (classify_eq_ok.mp hclassify).2

theorem flushLiteral_fine {allowed : Char → Prop} {literal : List Char}
    (h : ∀ c ∈ literal, allowed c) : ∀ t ∈ flushLiteral literal, t.Fine allowed := by
  unfold flushLiteral
  by_cases hempty : literal = []
  · rw [if_pos hempty]
    exact fun _ hmem => absurd hmem List.not_mem_nil
  · rw [if_neg hempty]
    intro t ht
    cases List.mem_singleton.mp ht
    exact ⟨hempty, h⟩

theorem tokenizeFrom_fine {allowed : Char → Prop} {chars : List Char} {rest : List Char}
    (hrest : ∀ c ∈ rest, allowed c) : ∀ {skip index : Nat} {literal : List Char} {ts : List Token},
      (∀ c ∈ literal, allowed c) → tokenizeFrom chars skip index literal rest = .ok ts →
      ∀ t ∈ ts, t.Fine allowed := by
  induction rest with
  | nil =>
      intro skip index literal ts hliteral h
      cases h
      exact flushLiteral_fine hliteral
  | cons ch rest ih =>
      intro skip index literal ts hliteral h
      have hch : allowed ch := hrest ch List.mem_cons_self
      have ih := @ih fun c hc => hrest c (List.mem_cons_of_mem _ hc)
      have hpush : ∀ c ∈ literal ++ [ch], allowed c := by
        intro c hc
        rcases List.mem_append.mp hc with hc | hc
        · exact hliteral c hc
        · cases List.mem_singleton.mp hc
          exact hch
      cases skip with
      | succ skip => exact ih hliteral h
      | zero =>
          unfold tokenizeFrom at h
          by_cases hopen : ch = '{'
          · rw [if_pos hopen] at h
            by_cases hdouble : rest.head? = some '{'
            · rw [if_pos hdouble] at h
              exact ih (hopen ▸ hpush) h
            · rw [if_neg hdouble] at h
              dsimp only at h
              by_cases hend : (rest.takeWhile (· ≠ '}')).length = rest.length
              · rw [if_pos hend] at h
                cases h
              · rw [if_neg hend] at h
                obtain ⟨token, htoken, h⟩ := bind_eq_ok.mp h
                obtain ⟨more, hmore, h⟩ := bind_eq_ok.mp h
                cases h
                intro t ht
                rcases List.mem_append.mp ht with ht | ht
                · exact flushLiteral_fine hliteral t ht
                · rcases List.mem_cons.mp ht with rfl | ht
                  · exact braced_fine allowed htoken
                  · exact ih (fun c hc => absurd hc List.not_mem_nil) hmore t ht
          · rw [if_neg hopen] at h
            by_cases hclose : ch = '}'
            · rw [if_pos hclose] at h
              by_cases hdouble : rest.head? = some '}'
              · rw [if_pos hdouble] at h
                exact ih (hclose ▸ hpush) h
              · rw [if_neg hdouble] at h
                cases h
            · rw [if_neg hclose] at h
              exact ih hpush h

/-- What is read has names for its names, and its text comes from the template. -/
theorem tokenize_fine {template : String} {ts : List Token} (h : tokenize template = .ok ts) :
    ∀ t ∈ ts, t.Fine (· ∈ template.toList) :=
  tokenizeFrom_fine (fun _ hc => hc) (fun _ hc => absurd hc List.not_mem_nil) h

end Agenomic.Prompt
