import Agenomic.Prompt.Refs

/-!
# References to prompts

A reference names a prompt alone, with a version, with an alias, or by a URI within a
workspace. `parse` reads one and `display` prints it. What is read has legal names
(`parse_legal`), and a reference of legal names is read back from what it prints
(`parse_display`): its parts hold none of the characters they are separated by.

**`parse_roundtrip`**: no accepted text changes its meaning when it is printed again, and
no two references print alike.

How identifiers of workspaces are read and printed is a parameter, `UuidCodec`.
-/

namespace Agenomic.Prompt

open Lib

/-! ## Names -/

def isAlias (text : String) : Bool :=
  match text.toList with
  | [] => false
  | c :: rest => decide (rest.length < 32) && c.isLower
      && rest.all fun c => c.isLower || c.isDigit || c = '_' || c = '-'

def isUuidLower (text : String) : Bool :=
  decide (text.toList.length = 36) && text.toList.zipIdx.all fun (c, index) =>
    if index ∈ [8, 13, 18, 23] then c = '-' else c.isDigit || decide ('a' ≤ c ∧ c ≤ 'f')

/-- How the identifiers of workspaces are read and printed. -/
structure UuidCodec where
  Uuid : Type
  parseStr : String → Option Uuid
  display : Uuid → String

/-- An identifier is printed in groups of lower-case digits, and is read back from them. -/
structure UuidCodec.Correct (u : UuidCodec) : Prop where
  lower : ∀ w, isUuidLower (u.display w) = true
  parse_display : ∀ w, u.parseStr (u.display w) = some w

/-! ## References -/

inductive PromptRef (Uuid : Type) where
  | promptId (promptId : String)
  | version (promptId : String) (version : Nat)
  | aliased (promptId name : String)
  | uri (workspaceId : Uuid) (promptId : String) (version : Nat)
  deriving DecidableEq, Repr

structure PromptRefError where
  code : String
  reason : Option String
  deriving DecidableEq, Repr

def PromptRefError.invalid (reason : String) : PromptRefError := ⟨"prompt_ref_invalid", some reason⟩

def maxRefLen : Nat := 256

/-- What stands before and behind the first place of a separator. -/
def splitOnce (sep : List Char) : List Char → Option (List Char × List Char)
  | [] => if sep = [] then some ([], []) else none
  | c :: cs =>
      if sep.isPrefixOf (c :: cs) then some ([], (c :: cs).drop sep.length)
      else (splitOnce sep cs).map fun p => (c :: p.1, p.2)

def promptIdOf (text : List Char) : Except PromptRefError String :=
  if isPromptId (String.ofList text) then .ok (String.ofList text)
  else .error (.invalid "invalid_prompt_id")

def versionOf (text : List Char) : Except PromptRefError Nat :=
  match parseVersion (String.ofList text) with
  | some version => .ok version
  | none => .error (.invalid "invalid_version")

variable (u : UuidCodec)

def workspaceOf (text : List Char) : Except PromptRefError u.Uuid :=
  if isUuidLower (String.ofList text) then
    match u.parseStr (String.ofList text) with
    | some workspaceId => .ok workspaceId
    | none => .error (.invalid "invalid_workspace")
  else .error (.invalid "invalid_workspace")

-- The membership tests below share this instance by its name.
local instance lawfulChars : LawfulBEq (List Char) := inferInstance

def parseUri (scheme rest : List Char) : Except PromptRefError (PromptRef u.Uuid) :=
  if scheme ≠ "agenomic".toList then .error (.invalid "unsupported_scheme")
  else if '?' ∈ rest ∨ '#' ∈ rest then .error (.invalid "query_or_fragment")
  else if rest = [] then .error (.invalid "empty_segment")
  else if rest.getLast? = some '/' then .error (.invalid "trailing_slash")
  else if [] ∈ rest.splitOn '/' then .error (.invalid "empty_segment")
  else match rest.splitOn '/' with
    | [workspace, prompts, id, versions, version] =>
        if prompts ≠ "prompts".toList ∨ versions ≠ "versions".toList then
          .error (.invalid "invalid_uri_path")
        else do
          let workspaceId ← workspaceOf u workspace
          let promptId ← promptIdOf id
          let version ← versionOf version
          .ok (.uri workspaceId promptId version)
    | _ => .error (.invalid "invalid_uri_path")

/-- What a text of legal characters refers to, by the separators that it holds. -/
def parseForm (text : List Char) : Except PromptRefError (PromptRef u.Uuid) :=
  match splitOnce "://".toList text with
  | some (scheme, rest) => parseUri u scheme rest
  | none =>
      match splitOnce [':'] text, splitOnce ['@'] text with
      | some _, some _ => .error (.invalid "mixed_form")
      | some (id, version), none =>
          if id = [] ∨ version = [] then .error (.invalid "empty_segment")
          else do
            let promptId ← promptIdOf id
            let version ← versionOf version
            .ok (.version promptId version)
      | none, some (id, name) =>
          if id = [] ∨ name = [] then .error (.invalid "empty_segment")
          else do
            let promptId ← promptIdOf id
            if isAlias (String.ofList name) then .ok (.aliased promptId (String.ofList name))
            else .error (.invalid "invalid_alias")
      | none, none => do
          let promptId ← promptIdOf text
          .ok (.promptId promptId)

def parse (text : String) : Except PromptRefError (PromptRef u.Uuid) :=
  let chars := text.toList
  if chars = [] then .error (.invalid "empty_segment")
  else if maxRefLen < chars.length then .error (.invalid "too_long")
  else match chars.find? fun ch => !decide ('!' ≤ ch ∧ ch ≤ '~') with
    | some ch =>
        if ('\t' ≤ ch ∧ ch ≤ '\r') ∨ ch = ' ' then .error (.invalid "whitespace")
        else .error (.invalid "invalid_character")
    | none =>
        if chars.any Char.isUpper then .error (.invalid "uppercase")
        else if '%' ∈ chars then .error (.invalid "percent_encoded_separator")
        else parseForm u chars

def canonicalUri (workspaceId : u.Uuid) (promptId : String) (version : Nat) : String :=
  "agenomic://" ++ u.display workspaceId ++ "/prompts/" ++ promptId ++ "/versions/"
    ++ String.ofList (decimal version)

def display : PromptRef u.Uuid → String
  | .promptId promptId => promptId
  | .version promptId version => versionKey promptId version
  | .aliased promptId name => promptId ++ "@" ++ name
  | .uri workspaceId promptId version => canonicalUri u workspaceId promptId version

/-- A reference of legal names. -/
def PromptRef.Legal {Uuid : Type} : PromptRef Uuid → Prop
  | .promptId id => isPromptId id = true
  | .version id number => isPromptId id = true ∧ 0 < number ∧ number ≤ maxVersion
  | .aliased id name => isPromptId id = true ∧ isAlias name = true
  | .uri _ id number => isPromptId id = true ∧ 0 < number ∧ number ≤ maxVersion

/-! ## Splitting -/

theorem splitOnce_eq_some {sep before after : List Char} : ∀ {text : List Char},
    splitOnce sep text = some (before, after) → text = before ++ sep ++ after := by
  intro text
  induction text generalizing before with
  | nil =>
      intro h
      unfold splitOnce at h
      by_cases hsep : sep = []
      · rw [if_pos hsep] at h
        cases h
        rw [hsep]
        rfl
      · rw [if_neg hsep] at h
        cases h
  | cons c cs ih =>
      intro h
      unfold splitOnce at h
      by_cases hstart : sep.isPrefixOf (c :: cs) = true
      · rw [if_pos hstart] at h
        cases h
        obtain ⟨rest, hrest⟩ := List.isPrefixOf_iff_prefix.mp hstart
        rw [← hrest]
        simp
      · rw [if_neg hstart] at h
        obtain ⟨p, hp, heq⟩ := Option.map_eq_some_iff.mp h
        cases heq
        rw [ih hp]
        rfl

/-- A separator is not found where one of its characters is not. -/
theorem splitOnce_eq_none {sep text : List Char} {c : Char} (hc : c ∈ sep) (htext : c ∉ text) :
    splitOnce sep text = none := by
  cases h : splitOnce sep text with
  | none => rfl
  | some p =>
      refine absurd ?_ htext
      rw [splitOnce_eq_some h]
      simp [hc]

/-- The first place of a separator is the first place of its first character, when it is there. -/
theorem splitOnce_first {c : Char} {sep before after : List Char} (h : c ∉ before) :
    splitOnce (c :: sep) (before ++ c :: sep ++ after) = some (before, after) := by
  induction before with
  | nil =>
      have hstart : (c :: sep).isPrefixOf (c :: (sep ++ after)) = true :=
        List.isPrefixOf_iff_prefix.mpr ⟨after, rfl⟩
      rw [List.nil_append, List.cons_append, splitOnce, if_pos hstart]
      simp
  | cons b before ih =>
      rw [List.mem_cons, not_or] at h
      obtain ⟨hb, hbefore⟩ := h
      have hstart : ¬ (c :: sep).isPrefixOf (b :: (before ++ c :: sep ++ after)) = true := by
        rw [List.isPrefixOf_iff_prefix]
        intro hpre
        exact hb (List.cons_prefix_cons.mp hpre).1
      rw [List.cons_append, List.cons_append, splitOnce, if_neg hstart, ih hbefore]
      rfl

/-! ## What is read is legal -/

variable {u}

theorem promptIdOf_eq_ok {text : List Char} {promptId : String}
    (h : promptIdOf text = .ok promptId) : isPromptId promptId = true := by
  unfold promptIdOf at h
  by_cases hid : isPromptId (String.ofList text) = true
  · rw [if_pos hid] at h
    cases h
    exact hid
  · rw [if_neg hid] at h
    cases h

theorem foldl_decimal_pos : ∀ (cs : List Char) {acc : Nat}, 0 < acc →
    0 < cs.foldl (fun acc c => acc * 10 + digitValue c) acc
  | [], _, h => h
  | c :: cs, acc, h => by
      have hacc : 0 < acc * 10 + digitValue c := by omega
      exact foldl_decimal_pos cs hacc

/-- A numeral that does not start with a zero is no zero. -/
theorem ofDecimal_pos {digits : List Char} (hne : digits ≠ []) (hhead : digits.head? ≠ some '0')
    (hdigits : digits.all Char.isDigit = true) : 0 < ofDecimal digits := by
  obtain ⟨c, cs, rfl⟩ := List.exists_cons_of_ne_nil hne
  have hc : c.isDigit = true := List.all_eq_true.mp hdigits c List.mem_cons_self
  have hzero : c.toNat ≠ 48 := by
    intro heq
    have h0 : c = '0' := Char.toNat_inj.mp heq
    exact hhead (by rw [h0]; rfl)
  simp only [Char.isDigit, Bool.and_eq_true, decide_eq_true_eq, UInt32.le_iff_toNat_le,
    ge_iff_le] at hc
  have h48 : '0'.val.toNat = 48 := rfl
  have hval : c.val.toNat = c.toNat := rfl
  have hpos : 0 < 0 * 10 + digitValue c := by
    unfold digitValue
    omega
  exact foldl_decimal_pos cs hpos

theorem versionOf_eq_ok {text : List Char} {version : Nat} (h : versionOf text = .ok version) :
    0 < version ∧ version ≤ maxVersion := by
  unfold versionOf parseVersion at h
  dsimp only at h
  rw [String.toList_ofList] at h
  by_cases hlegal : 1 ≤ text.length ∧ text.length ≤ 10 ∧ text.head? ≠ some '0'
      ∧ text.all Char.isDigit = true ∧ ofDecimal text ≤ maxVersion
  · rw [if_pos hlegal] at h
    cases h
    obtain ⟨hlen, -, hhead, hdigits, hmax⟩ := hlegal
    have hne : text ≠ [] := List.length_pos_iff.mp hlen
    exact ⟨ofDecimal_pos hne hhead hdigits, hmax⟩
  · rw [if_neg hlegal] at h
    cases h

theorem parseUri_legal {scheme rest : List Char} {r : PromptRef u.Uuid}
    (h : parseUri u scheme rest = .ok r) : r.Legal := by
  unfold parseUri at h
  repeat' split at h
  all_goals try cases h
  obtain ⟨workspaceId, -, h⟩ := bind_eq_ok.mp h
  obtain ⟨promptId, hid, h⟩ := bind_eq_ok.mp h
  obtain ⟨version, hversion, h⟩ := bind_eq_ok.mp h
  cases h
  exact ⟨promptIdOf_eq_ok hid, versionOf_eq_ok hversion⟩

theorem parseForm_legal {text : List Char} {r : PromptRef u.Uuid}
    (h : parseForm u text = .ok r) : r.Legal := by
  unfold parseForm at h
  cases huri : splitOnce "://".toList text with
  | some p =>
      rw [huri] at h
      exact parseUri_legal h
  | none =>
      rw [huri] at h
      dsimp only at h
      cases hcolon : splitOnce [':'] text with
      | some p =>
          rw [hcolon] at h
          cases hat : splitOnce ['@'] text with
          | some q =>
              rw [hat] at h
              cases h
          | none =>
              rw [hat] at h
              dsimp only at h
              by_cases hempty : p.1 = [] ∨ p.2 = []
              · rw [if_pos hempty] at h
                cases h
              · rw [if_neg hempty] at h
                obtain ⟨promptId, hid, h⟩ := bind_eq_ok.mp h
                obtain ⟨version, hversion, h⟩ := bind_eq_ok.mp h
                cases h
                exact ⟨promptIdOf_eq_ok hid, versionOf_eq_ok hversion⟩
      | none =>
          rw [hcolon] at h
          cases hat : splitOnce ['@'] text with
          | some p =>
              rw [hat] at h
              dsimp only at h
              by_cases hempty : p.1 = [] ∨ p.2 = []
              · rw [if_pos hempty] at h
                cases h
              · rw [if_neg hempty] at h
                obtain ⟨promptId, hid, h⟩ := bind_eq_ok.mp h
                by_cases hname : isAlias (String.ofList p.2) = true
                · rw [if_pos hname] at h
                  cases h
                  exact ⟨promptIdOf_eq_ok hid, hname⟩
                · rw [if_neg hname] at h
                  cases h
          | none =>
              rw [hat] at h
              obtain ⟨promptId, hid, h⟩ := bind_eq_ok.mp h
              cases h
              exact promptIdOf_eq_ok hid

/-- **What is read has legal names.** -/
theorem parse_legal {text : String} {r : PromptRef u.Uuid} (h : parse u text = .ok r) :
    r.Legal := by
  unfold parse at h
  dsimp only at h
  repeat' split at h
  all_goals first
    | exact parseForm_legal h
    | cases h

/-! ## Characters of names -/

/-- A character of ids, aliases, versions and identifiers. -/
def IsPlain (c : Char) : Prop :=
  (97 ≤ c.toNat ∧ c.toNat ≤ 122) ∨ (48 ≤ c.toNat ∧ c.toNat ≤ 57) ∨ c.toNat = 95 ∨ c.toNat = 45

theorem isPlain_of_isLower {c : Char} (h : c.isLower = true) : IsPlain c := by
  simp only [Char.isLower, Bool.and_eq_true, decide_eq_true_eq, UInt32.le_iff_toNat_le,
    ge_iff_le] at h
  exact .inl h

theorem isPlain_of_isDigit {c : Char} (h : c.isDigit = true) : IsPlain c := by
  simp only [Char.isDigit, Bool.and_eq_true, decide_eq_true_eq, UInt32.le_iff_toNat_le,
    ge_iff_le] at h
  exact .inr (.inl h)

theorem plain_word {text : String}
    (h : (text.toList.all fun c => c.isLower || c = '_') = true) : ∀ c ∈ text.toList, IsPlain c := by
  intro c hc
  rcases Bool.or_eq_true_iff.mp (List.all_eq_true.mp h c hc) with hlower | hline
  · exact isPlain_of_isLower hlower
  · rw [of_decide_eq_true hline]
    exact .inr (.inr (.inl rfl))

/-- None of the characters that part names is one of theirs. -/
theorem IsPlain.ne {c : Char} (h : IsPlain c) (d : Char)
    (hd : d.toNat < 45 ∨ (45 < d.toNat ∧ d.toNat < 48) ∨ (57 < d.toNat ∧ d.toNat < 95)) : c ≠ d := by
  rintro rfl
  unfold IsPlain at h
  omega

theorem notMem_of_plain {text : List Char} (h : ∀ c ∈ text, IsPlain c) (d : Char)
    (hd : d.toNat < 45 ∨ (45 < d.toNat ∧ d.toNat < 48) ∨ (57 < d.toNat ∧ d.toNat < 95)) :
    d ∉ text := fun hmem => (h d hmem).ne d hd rfl

theorem mem_splitOnP {p : Char → Bool} {c : Char} : ∀ {text : List Char}, c ∈ text → p c = false →
    ∃ segment ∈ text.splitOnP p, c ∈ segment := by
  intro text
  induction text with
  | nil => exact fun hmem _ => absurd hmem List.not_mem_nil
  | cons x xs ih =>
      intro hmem hc
      rw [List.splitOnP_cons_eq_if_modifyHead]
      by_cases hx : p x = true
      · rw [if_pos hx]
        rcases List.mem_cons.mp hmem with rfl | hmem
        · rw [hx] at hc
          cases hc
        · obtain ⟨segment, hsegment, hin⟩ := ih hmem hc
          exact ⟨segment, List.mem_cons_of_mem _ hsegment, hin⟩
      · rw [if_neg hx]
        obtain ⟨first, more, hsplit⟩ := List.exists_cons_of_ne_nil (List.splitOnP_ne_nil p xs)
        rw [hsplit, List.modifyHead_cons]
        rcases List.mem_cons.mp hmem with rfl | hmem
        · exact ⟨_, List.mem_cons_self, List.mem_cons_self⟩
        · obtain ⟨segment, hsegment, hin⟩ := ih hmem hc
          rw [hsplit] at hsegment
          rcases List.mem_cons.mp hsegment with rfl | hsegment
          · exact ⟨_, List.mem_cons_self, List.mem_cons_of_mem _ hin⟩
          · exact ⟨segment, List.mem_cons_of_mem _ hsegment, hin⟩

theorem plain_of_isPromptId {text : String} (h : isPromptId text = true) :
    (∀ c ∈ text.toList, IsPlain c) ∧ text.toList ≠ [] ∧ text.toList.length ≤ 64 := by
  unfold isPromptId at h
  rw [Bool.and_eq_true, decide_eq_true_eq] at h
  obtain ⟨hlen, h⟩ := h
  cases hrest : stripPrefix? "prm_" text with
  | none =>
      rw [hrest] at h
      cases h
  | some rest =>
      rw [hrest] at h
      dsimp only at h
      have htext : text.toList = "prm_".toList ++ rest.toList := stripPrefix?_eq_some hrest
      have hplain : ∀ c ∈ text.toList, IsPlain c := by
        intro c hc
        rw [htext, List.mem_append] at hc
        rcases hc with hc | hc
        · exact plain_word (by decide +kernel) c hc
        · by_cases hsep : c = '_' ∨ c = '-'
          · rcases hsep with rfl | rfl
            · exact .inr (.inr (.inl rfl))
            · exact .inr (.inr (.inr rfl))
          · obtain ⟨segment, hsegment, hin⟩ := mem_splitOnP hc (p := fun c => c = '_' ∨ c = '-')
              (by simpa using hsep)
            have hall := List.all_eq_true.mp h segment hsegment
            rw [Bool.and_eq_true] at hall
            rcases Bool.or_eq_true_iff.mp (List.all_eq_true.mp hall.2 c hin) with hlower | hdigit
            · exact isPlain_of_isLower hlower
            · exact isPlain_of_isDigit hdigit
      refine ⟨hplain, ?_, ?_⟩
      · rw [htext]
        simp
      · exact le_trans (length_le_utf8Encode _) hlen

theorem plain_of_isAlias {text : String} (h : isAlias text = true) :
    (∀ c ∈ text.toList, IsPlain c) ∧ text.toList ≠ [] ∧ text.toList.length ≤ 32 := by
  unfold isAlias at h
  cases htext : text.toList with
  | nil =>
      rw [htext] at h
      cases h
  | cons first rest =>
      rw [htext] at h
      simp only [Bool.and_eq_true, decide_eq_true_eq, List.all_eq_true, Bool.or_eq_true] at h
      obtain ⟨⟨hlen, hfirst⟩, hrest⟩ := h
      refine ⟨fun c hc => ?_, List.cons_ne_nil _ _, ?_⟩
      · rcases List.mem_cons.mp hc with rfl | hc
        · exact isPlain_of_isLower hfirst
        · rcases hrest c hc with ((hlower | hdigit) | rfl) | rfl
          · exact isPlain_of_isLower hlower
          · exact isPlain_of_isDigit hdigit
          · exact .inr (.inr (.inl rfl))
          · exact .inr (.inr (.inr rfl))
      · rw [List.length_cons]
        omega

theorem plain_of_isUuidLower {text : String} (h : isUuidLower text = true) :
    (∀ c ∈ text.toList, IsPlain c) ∧ text.toList.length = 36 := by
  unfold isUuidLower at h
  rw [Bool.and_eq_true, decide_eq_true_eq, List.all_eq_true] at h
  refine ⟨fun c hc => ?_, h.1⟩
  obtain ⟨index, hindex⟩ := List.mem_iff_getElem?.mp hc
  have hdigit := h.2 (c, index) (List.mk_mem_zipIdx_iff_getElem?.mpr hindex)
  dsimp only at hdigit
  by_cases hdash : index ∈ [8, 13, 18, 23]
  · rw [if_pos hdash, decide_eq_true_eq] at hdigit
    rw [hdigit]
    exact .inr (.inr (.inr rfl))
  · rw [if_neg hdash, Bool.or_eq_true, decide_eq_true_eq] at hdigit
    rcases hdigit with hdigit | ⟨hlow, hhigh⟩
    · exact isPlain_of_isDigit hdigit
    · rw [Char.le_def, UInt32.le_iff_toNat_le] at hlow hhigh
      have ha : 'a'.val.toNat = 97 := rfl
      have hf : 'f'.val.toNat = 102 := rfl
      have hval : c.val.toNat = c.toNat := rfl
      unfold IsPlain
      omega

theorem plain_decimal {n : Nat} (hmax : n ≤ maxVersion) :
    (∀ c ∈ decimal n, IsPlain c) ∧ decimal n ≠ [] ∧ (decimal n).length ≤ 10 := by
  refine ⟨fun c hc => isPlain_of_isDigit (decimal_isDigit hc), decimal_ne_nil n, ?_⟩
  have hbound : maxVersion < 10 ^ 10 := by decide
  exact decimal_length_le (by decide) (by omega)

/-! ## What is printed is read back -/

theorem promptIdOf_legal {promptId : String} (h : isPromptId promptId = true) :
    promptIdOf promptId.toList = .ok promptId := by
  unfold promptIdOf
  rw [String.ofList_toList, if_pos h]

theorem versionOf_decimal {version : Nat} (hpos : 0 < version) (hmax : version ≤ maxVersion) :
    versionOf (decimal version) = .ok version := by
  obtain ⟨-, hne, hlen⟩ := plain_decimal hmax
  have hdigits : (decimal version).all Char.isDigit = true :=
    List.all_eq_true.mpr fun c hc => decimal_isDigit hc
  unfold versionOf parseVersion
  dsimp only
  rw [String.toList_ofList, ofDecimal_decimal, if_pos ⟨List.length_pos_iff.mpr hne, hlen,
    Json.decimal_head_ne_zero hpos, hdigits, hmax⟩]

theorem workspaceOf_display (hu : u.Correct) (w : u.Uuid) :
    workspaceOf u (u.display w).toList = .ok w := by
  unfold workspaceOf
  rw [String.ofList_toList, if_pos (hu.lower w), hu.parse_display w]

/-- A text of names and separators passes the checks on its characters. -/
theorem parse_eq_parseForm {text : String} (hne : text.toList ≠ [])
    (hlen : text.toList.length ≤ maxRefLen)
    (hchars : ∀ c ∈ text.toList, IsPlain c ∨ c ∈ [':', '@', '/']) :
    parse u text = parseForm u text.toList := by
  have hcode : ∀ c ∈ text.toList, 45 ≤ c.toNat ∧ c.toNat ≤ 122
      ∧ ¬ (65 ≤ c.toNat ∧ c.toNat ≤ 90) := by
    intro c hc
    rcases hchars c hc with hplain | hsep
    · unfold IsPlain at hplain
      omega
    · simp only [List.mem_cons, List.not_mem_nil, or_false] at hsep
      rcases hsep with rfl | rfl | rfl
      all_goals decide
  have hfind : (text.toList.find? fun ch => !decide ('!' ≤ ch ∧ ch ≤ '~')) = none := by
    refine List.find?_eq_none.mpr fun c hc => ?_
    obtain ⟨hlow, hhigh, -⟩ := hcode c hc
    have h33 : '!'.val.toNat = 33 := rfl
    have h126 : '~'.val.toNat = 126 := rfl
    have hval : c.val.toNat = c.toNat := rfl
    have hprintable : '!' ≤ c ∧ c ≤ '~' := by
      rw [Char.le_def, Char.le_def, UInt32.le_iff_toNat_le, UInt32.le_iff_toNat_le]
      omega
    rw [decide_eq_true hprintable]
    exact Bool.false_ne_true
  have hupper : ¬ text.toList.any Char.isUpper = true := by
    rw [List.any_eq_true]
    rintro ⟨c, hc, hcase⟩
    obtain ⟨-, -, hnot⟩ := hcode c hc
    simp only [Char.isUpper, decide_eq_true_eq, UInt32.le_iff_toNat_le, ge_iff_le] at hcase
    exact hnot hcase
  have hpercent : '%' ∉ text.toList := by
    intro hmem
    exact absurd (hcode _ hmem).1 (by decide)
  unfold parse
  dsimp only
  rw [if_neg hne, if_neg (by omega), hfind]
  dsimp only
  rw [if_neg hupper, if_neg hpercent]

/-- Two names with a separator between them are parted there, and nowhere else. -/
theorem parse_pair {text : String} {left right : List Char} {sep : Char} (hsep : sep ∈ [':', '@'])
    (htext : text.toList = left ++ [sep] ++ right) (hleft : ∀ c ∈ left, IsPlain c)
    (hright : ∀ c ∈ right, IsPlain c) (hlen : left.length + right.length < maxRefLen) :
    parse u text = parseForm u text.toList ∧ splitOnce "://".toList text.toList = none
      ∧ splitOnce [sep] text.toList = some (left, right)
      ∧ ∀ d ∈ [':', '@'], d ≠ sep → splitOnce [d] text.toList = none := by
  have hcode : sep.toNat = 58 ∨ sep.toNat = 64 := by
    simp only [List.mem_cons, List.not_mem_nil, or_false] at hsep
    rcases hsep with rfl | rfl
    · exact .inl rfl
    · exact .inr rfl
  have hout : ∀ d : Char, d ≠ sep →
      d.toNat < 45 ∨ (45 < d.toNat ∧ d.toNat < 48) ∨ (57 < d.toNat ∧ d.toNat < 95) →
      d ∉ text.toList := by
    intro d hne hd hmem
    rw [htext, List.mem_append, List.mem_append, List.mem_singleton] at hmem
    rcases hmem with (hmem | heq) | hmem
    · exact notMem_of_plain hleft d hd hmem
    · exact hne heq
    · exact notMem_of_plain hright d hd hmem
  refine ⟨parse_eq_parseForm ?_ ?_ ?_, ?_, ?_, ?_⟩
  · rw [htext]
    simp
  · rw [htext, List.length_append, List.length_append, List.length_singleton]
    omega
  · intro c hc
    rw [htext, List.mem_append, List.mem_append, List.mem_singleton] at hc
    rcases hc with (hc | rfl) | hc
    · exact .inl (hleft c hc)
    · refine .inr ?_
      simp only [List.mem_cons, List.not_mem_nil, or_false] at hsep ⊢
      exact hsep.elim .inl fun h => .inr (.inl h)
    · exact .inl (hright c hc)
  · have hslash : '/' ≠ sep := by
      rintro rfl
      revert hsep
      decide
    exact splitOnce_eq_none (c := '/') (by decide) (hout '/' hslash (by decide))
  · rw [htext]
    exact splitOnce_first (notMem_of_plain hleft sep (by omega))
  · intro d hd hne
    have hcode' : d.toNat = 58 ∨ d.toNat = 64 := by
      simp only [List.mem_cons, List.not_mem_nil, or_false] at hd
      rcases hd with rfl | rfl
      · exact .inl rfl
      · exact .inr rfl
    exact splitOnce_eq_none List.mem_cons_self (hout d hne (by omega))

theorem parse_versionKey {promptId : String} {version : Nat} (hid : isPromptId promptId = true)
    (hpos : 0 < version) (hmax : version ≤ maxVersion) :
    parse u (versionKey promptId version) = .ok (.version promptId version) := by
  obtain ⟨hplain, hne, hlen⟩ := plain_of_isPromptId hid
  obtain ⟨hdigits, hdecimal, hwidth⟩ := plain_decimal hmax
  have htext : (versionKey promptId version).toList
      = promptId.toList ++ [':'] ++ decimal version := by
    unfold versionKey
    rw [String.toList_append, String.toList_append, @String.toList_ofList (decimal version)]
    rfl
  have hbound : promptId.toList.length + (decimal version).length < maxRefLen := by
    have hmaxLen : maxRefLen = 256 := rfl
    omega
  obtain ⟨hparse, huri, hcolon, hother⟩ :=
    @parse_pair u _ _ _ ':' (by simp) htext hplain hdigits hbound
  rw [hparse]
  unfold parseForm
  rw [huri, hcolon, hother '@' (by simp) (by decide)]
  dsimp only
  rw [if_neg (by simp [hne, hdecimal]), promptIdOf_legal hid, versionOf_decimal hpos hmax]
  rfl

theorem parse_aliased {promptId name : String} (hid : isPromptId promptId = true)
    (hname : isAlias name = true) :
    parse u (promptId ++ "@" ++ name) = .ok (.aliased promptId name) := by
  obtain ⟨hplain, hne, hlen⟩ := plain_of_isPromptId hid
  obtain ⟨hplain', hne', hlen'⟩ := plain_of_isAlias hname
  have htext : (promptId ++ "@" ++ name).toList = promptId.toList ++ ['@'] ++ name.toList := by
    rw [String.toList_append, String.toList_append]
    rfl
  have hbound : promptId.toList.length + name.toList.length < maxRefLen := by
    have hmaxLen : maxRefLen = 256 := rfl
    omega
  obtain ⟨hparse, huri, hat, hother⟩ :=
    @parse_pair u _ _ _ '@' (by simp) htext hplain hplain' hbound
  rw [hparse]
  unfold parseForm
  rw [huri, hat, hother ':' (by simp) (by decide)]
  dsimp only
  rw [if_neg (by simp [hne, hne']), promptIdOf_legal hid, String.ofList_toList]
  exact if_pos hname

theorem parse_promptId {promptId : String} (hid : isPromptId promptId = true) :
    parse u promptId = .ok (.promptId promptId) := by
  obtain ⟨hplain, hne, hlen⟩ := plain_of_isPromptId hid
  rw [parse_eq_parseForm hne]
  · unfold parseForm
    rw [splitOnce_eq_none (c := '/') (by decide) (notMem_of_plain hplain '/' (by decide)),
      splitOnce_eq_none List.mem_cons_self (notMem_of_plain hplain ':' (by decide)),
      splitOnce_eq_none List.mem_cons_self (notMem_of_plain hplain '@' (by decide))]
    dsimp only
    rw [promptIdOf_legal hid]
    rfl
  · have hmaxLen : maxRefLen = 256 := rfl
    omega
  · exact fun c hc => .inl (hplain c hc)

/-- The path of a URI, part by part. -/
theorem toList_canonicalUri (w : u.Uuid) (promptId : String) (version : Nat) :
    (canonicalUri u w promptId version).toList = "agenomic".toList ++ "://".toList
      ++ ['/'].intercalate [(u.display w).toList, "prompts".toList, promptId.toList,
        "versions".toList, decimal version] := by
  unfold canonicalUri
  rw [String.toList_append, String.toList_append, String.toList_append, String.toList_append,
    String.toList_append, @String.toList_ofList (decimal version)]
  simp [List.intercalate]

theorem parse_canonicalUri (hu : u.Correct) (w : u.Uuid) {promptId : String} {version : Nat}
    (hid : isPromptId promptId = true) (hpos : 0 < version) (hmax : version ≤ maxVersion) :
    parse u (canonicalUri u w promptId version) = .ok (.uri w promptId version) := by
  obtain ⟨hplain, hne, hlen⟩ := plain_of_isPromptId hid
  obtain ⟨hdigits, hdecimal, hwidth⟩ := plain_decimal hmax
  obtain ⟨hhex, hsize⟩ := plain_of_isUuidLower (hu.lower w)
  have hscheme : ∀ c ∈ "agenomic".toList, IsPlain c := plain_word (by decide +kernel)
  let parts := [(u.display w).toList, "prompts".toList, promptId.toList, "versions".toList,
    decimal version]
  have hparts : ∀ part ∈ parts, (∀ c ∈ part, IsPlain c) ∧ part ≠ [] := by
    intro part hpart
    simp only [parts, List.mem_cons, List.not_mem_nil, or_false] at hpart
    rcases hpart with rfl | rfl | rfl | rfl | rfl
    · refine ⟨hhex, fun hnil => ?_⟩
      rw [hnil] at hsize
      cases hsize
    · exact ⟨plain_word (by decide +kernel), by decide⟩
    · exact ⟨hplain, hne⟩
    · exact ⟨plain_word (by decide +kernel), by decide⟩
    · exact ⟨hdigits, hdecimal⟩
  have hsplit : (['/'].intercalate parts).splitOn '/' = parts :=
    List.splitOn_intercalate '/' (fun part hpart =>
      notMem_of_plain (hparts part hpart).1 '/' (by decide)) (List.cons_ne_nil _ _)
  have hmem : ∀ c ∈ ['/'].intercalate parts, IsPlain c ∨ c = '/' := by
    intro c hc
    by_cases hslash : c = '/'
    · exact .inr hslash
    · obtain ⟨part, hpart, hin⟩ := mem_splitOnP hc (p := (· == '/')) (by simpa using hslash)
      have hpart' : part ∈ (['/'].intercalate parts).splitOn '/' := hpart
      rw [hsplit] at hpart'
      exact .inl ((hparts part hpart').1 c hin)
  have hlast : (['/'].intercalate parts).getLast? ≠ some '/' := by
    have hcut : ['/'].intercalate parts = ((u.display w).toList ++ '/' :: ("prompts".toList
        ++ '/' :: (promptId.toList ++ '/' :: ("versions".toList ++ ['/'])))) ++ decimal version := by
      simp [parts, List.intercalate]
    rw [hcut, List.getLast?_append_of_ne_nil _ hdecimal]
    intro hslash
    exact notMem_of_plain hdigits '/' (by decide) (List.mem_of_getLast? hslash)
  have htext := toList_canonicalUri w promptId version
  have hform : parse u (canonicalUri u w promptId version)
      = parseForm u (canonicalUri u w promptId version).toList := by
    refine parse_eq_parseForm ?_ ?_ ?_
    · rw [htext]
      simp
    · rw [htext]
      simp [List.intercalate, hsize]
      have hmaxLen : maxRefLen = 256 := rfl
      omega
    · intro c hc
      rw [htext, List.mem_append, List.mem_append] at hc
      rcases hc with (hc | hc) | hc
      · exact .inl (hscheme c hc)
      · have hsep : "://".toList = [':', '/', '/'] := rfl
        rw [hsep] at hc
        simp only [List.mem_cons, List.not_mem_nil, or_false] at hc ⊢
        exact .inr (hc.imp_right fun h => .inr (or_self_iff.mp h))
      · exact (hmem c hc).imp_right fun h => by simp [h]
  have hout : ∀ d : Char, d.toNat < 45 ∨ (57 < d.toNat ∧ d.toNat < 95) →
      d ∉ ['/'].intercalate parts := by
    intro d hd hin
    rcases hmem d hin with hin | rfl
    · unfold IsPlain at hin
      omega
    · exact absurd hd (by decide)
  have hcut : splitOnce "://".toList (canonicalUri u w promptId version).toList
      = some ("agenomic".toList, ['/'].intercalate parts) := by
    rw [htext]
    exact @splitOnce_first ':' ['/', '/'] _ _ (notMem_of_plain hscheme ':' (by decide))
  have hnonempty : ['/'].intercalate parts ≠ [] := by
    intro hnil
    rw [hnil] at hsplit
    exact absurd (congrArg List.length hsplit) (by simp [parts])
  have hsegments : [] ∉ parts := fun hnil => (hparts [] hnil).2 rfl
  rw [hform]
  unfold parseForm
  rw [hcut]
  dsimp only
  unfold parseUri
  rw [if_neg (fun h => h rfl), if_neg (not_or.mpr ⟨hout '?' (by decide), hout '#' (by decide)⟩),
    if_neg hnonempty, if_neg hlast, hsplit, if_neg hsegments]
  dsimp only [parts]
  rw [if_neg (by simp), workspaceOf_display hu, promptIdOf_legal hid, versionOf_decimal hpos hmax]
  rfl

/-- **A reference of legal names is read back from what it prints.** -/
theorem parse_display (hu : u.Correct) : ∀ {r : PromptRef u.Uuid}, r.Legal →
    parse u (display u r) = .ok r
  | .promptId _, h => parse_promptId h
  | .version _ _, h => parse_versionKey h.1 h.2.1 h.2.2
  | .aliased _ _, h => parse_aliased h.1 h.2
  | .uri w _ _, h => parse_canonicalUri hu w h.1 h.2.1 h.2.2

/-- **References round-trip**: what is read of a text is what is read of its print; the references
that can be read are those of legal names, and no two of them print alike. -/
theorem parse_roundtrip (hu : u.Correct) :
    (∀ text r, parse u text = .ok r → parse u (display u r) = .ok r)
      ∧ (∀ r : PromptRef u.Uuid, (∃ text, parse u text = .ok r) ↔ r.Legal)
      ∧ ∀ r r' : PromptRef u.Uuid, r.Legal → r'.Legal → display u r = display u r' → r = r' := by
  refine ⟨fun text r h => parse_display hu (parse_legal h), fun r => ⟨?_, ?_⟩, ?_⟩
  · intro ⟨text, h⟩
    exact parse_legal h
  · intro h
    exact ⟨display u r, parse_display hu h⟩
  · intro r r' h h' heq
    have hparse := parse_display hu h
    rw [heq, parse_display hu h'] at hparse
    exact (Except.ok.inj hparse).symm

/-- Identifiers kept as they are printed. -/
abbrev lowerUuids : UuidCodec where
  Uuid := { s : String // isUuidLower s = true }
  parseStr s := if h : isUuidLower s = true then some ⟨s, h⟩ else none
  display := Subtype.val

theorem lowerUuids_correct : lowerUuids.Correct where
  lower w := w.2
  parse_display w := dif_pos w.2

/-- A URI is read back from what it is printed as again. -/
theorem parse_roundtrip_uri :
    parse lowerUuids (display lowerUuids
      (.uri ⟨"0b6c2f1e-7a44-4c8e-9f1d-2a3b4c5d6e7f", by decide +kernel⟩ "prm_planner" 7))
      = .ok (.uri ⟨"0b6c2f1e-7a44-4c8e-9f1d-2a3b4c5d6e7f", by decide +kernel⟩ "prm_planner" 7) :=
  (parse_roundtrip lowerUuids_correct).1
    "agenomic://0b6c2f1e-7a44-4c8e-9f1d-2a3b4c5d6e7f/prompts/prm_planner/versions/7" _
    (by decide +kernel)

end Agenomic.Prompt
