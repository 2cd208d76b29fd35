import Agenomic.Core
import Agenomic.Lib.Keyed
import Agenomic.Lib.Split

/-!
# References to agents

A reference names an organisation and an agent, with an optional qualifier behind an at sign and
optional pairs of a query behind a question mark:
`agent://<org>/<slug>[@<qualifier>][?<query>]`. Each part is split off at its first separator.

What the parser accepts is well formed (`parse_wellFormed`), and what is well formed is written
so that every separator is the first of its kind. **`parse_canonical`**: the canonical form of a
well-formed reference is parsed to that reference.
-/

namespace Agenomic.Os.Uri

open Lib

/-- A text. -/
abbrev Str := List Char

/-! ## Data -/

/-- The errors of references. -/
inductive OsError where
  | uriInvalid (reason : String)
  | noHomeDirectory
  deriving DecidableEq, Repr

abbrev OsResult (α : Type) := Except OsError α

/-- The optional pinning suffix after `@`. -/
inductive Qualifier where
  | version (v : Str)
  | channel (c : Str)
  | digest (algorithm hex : Str)
  deriving DecidableEq, Repr

/-- Render in the canonical suffix form used after `@`. -/
def Qualifier.asSuffix : Qualifier → Str
  | .version v => v
  | .channel c => c
  | .digest algorithm hex => algorithm ++ ':' :: hex

/-- A directory segment for cache layouts. -/
def Qualifier.cacheSegment : Qualifier → Str
  | .version v => "v-".toList ++ v
  | .channel c => "ch-".toList ++ c
  | .digest algorithm hex => "d-".toList ++ algorithm ++ '-' :: hex

/-- Parsed query string. -/
structure Query where
  profile : Option Str := none
  runtime : Option Str := none
  extra : Std.ExtTreeMap Str Str := ∅

def Query.default : Query := {}

def Query.isEmpty (q : Query) : Bool :=
  q.profile.isNone && q.runtime.isNone && q.extra.isEmpty

/-- A parsed reference. -/
structure AgentReference where
  org : Str
  slug : Str
  qualifier : Option Qualifier
  query : Query

/-! ## Writing -/

/-- The text of a pair. -/
def pairText (p : Str × Str) : Str := p.1 ++ '=' :: p.2

/-- The pairs of a query, in the order in which they are written. -/
def Query.pairs (q : Query) : List (Str × Str) :=
  (q.profile.map fun p => ("profile".toList, p)).toList
    ++ (q.runtime.map fun r => ("runtime".toList, r)).toList ++ q.extra.toList

/-- A query behind its question mark; an empty one is left out. -/
def Query.text (q : Query) : Str :=
  if q.isEmpty then [] else '?' :: List.intercalate ['&'] (q.pairs.map pairText)

/-- A qualifier behind its at sign. -/
def qualifierText : Option Qualifier → Str
  | some q => '@' :: q.asSuffix
  | none => []

def scheme : Str := "agent://".toList

/-- Canonical string form. -/
def AgentReference.canonical (r : AgentReference) : Str :=
  scheme ++ (r.org ++ '/' :: r.slug ++ qualifierText r.qualifier ++ r.query.text)

/-! ## Parsing -/

def invalid (reason : String) : OsError := .uriInvalid reason

/-- What follows a leading part, when the text starts with it. -/
def stripPrefix (p s : Str) : Option Str := if p.isPrefixOf s then some (s.drop p.length) else none

-- how a text is shown in an error
variable (debug : Str → String)

def validateSegment (seg : Str) (label : String) : OsResult Unit :=
  if seg = [] then .error (invalid s!"empty <{label}> segment")
  else if seg = ['.'] ∨ seg = ['.', '.'] then
    .error (invalid s!"<{label}> may not be '.' or '..'")
  else if '/' ∈ seg then .error (invalid s!"<{label}> may not contain '/'")
  else if seg.head? = some '-' ∨ seg.getLast? = some '-' then
    .error (invalid s!"<{label}> may not start or end with '-'")
  else if !seg.all fun c => c.isLower || c.isDigit || c = '-' then
    .error (invalid
      s!"<{label}> must be lowercase ASCII letters, digits, or '-' (got {debug seg})")
  else .ok ()

/-- The characters of versions and channels. -/
def isQualifierChar (c : Char) : Bool := c.isAlphanum || c ∈ ['.', '-', '_', '+']

def parseQualifier (q : Str) : OsResult Qualifier :=
  match stripPrefix "sha256:".toList q with
  | some rest =>
      if rest = [] then .error (invalid "empty sha256 digest")
      else if !rest.all Char.isHexDigit then .error (invalid "sha256 digest must be hex")
      else .ok (.digest "sha256".toList (rest.map Char.toLower))
  | none =>
      if !q.all isQualifierChar then
        .error (invalid s!"qualifier contains unsupported character (got {debug q})")
      -- a leading digit looks like a version; anything else is a channel
      else if q.head?.any Char.isDigit then .ok (.version q)
      else .ok (.channel q)

/-- Set what a pair is about. -/
def Query.set (out : Query) (k v : Str) : Query :=
  if k = "profile".toList then { out with profile := some v }
  else if k = "runtime".toList then { out with runtime := some v }
  else { out with extra := out.extra.insert k v }

/-- Take in pairs; `seen` are the keys of those that went before. -/
def parsePairs : List Str → List Str → Query → OsResult Query
  | [], _, out => .ok out
  | pair :: rest, seen, out =>
      match splitFirst '=' pair with
      | none => .error (invalid s!"query pair {debug pair} missing '='")
      | some (k, v) =>
          if k = [] then .error (invalid "query key may not be empty")
          else if k ∈ seen then .error (invalid s!"duplicate query key {debug k}")
          else parsePairs rest (k :: seen) (out.set k v)

def parseQuery : Option Str → OsResult Query
  | none | some [] => .ok .default
  | some q => parsePairs debug (q.splitOn '&') [] .default

/-- What stands behind the scheme. -/
def stripScheme (input : Str) : OsResult Str :=
  match stripPrefix scheme input with
  | none => .error (invalid s!"missing `agent://` scheme in {debug input}")
  | some [] => .error (invalid "empty authority")
  | some rest => .ok rest

/-- Split off the query, before anything else: no '?' reaches the path. -/
def splitQuery (rest : Str) : Str × Option Str :=
  match splitFirst '?' rest with
  | some (p, q) => (p, some q)
  | none => (rest, none)

/-- Split off the qualifier. -/
def splitQualifier (pathAndQualifier : Str) : OsResult (Str × Option Str) :=
  match splitFirst '@' pathAndQualifier with
  | some (p, q) =>
      if '@' ∈ q then .error (invalid "multiple '@' qualifiers not allowed") else .ok (p, some q)
  | none => .ok (pathAndQualifier, none)

def splitPath (path : Str) : OsResult (Str × Str) :=
  match splitFirst '/' path with
  | some parts => .ok parts
  | none => .error (invalid "missing '/' between <org> and <slug>")

/-- The qualifier behind the at sign, when there is one. -/
def parseSuffix : Option Str → OsResult (Option Qualifier)
  | none => .ok none
  | some [] => .error (invalid "empty qualifier after '@'")
  | some q => (parseQualifier debug q).map some

def parse (input : Str) : OsResult AgentReference := do
  let rest ← stripScheme debug input
  let (pathAndQualifier, queryStr) := splitQuery rest
  let (path, qualifierStr) ← splitQualifier pathAndQualifier
  let (org, slug) ← splitPath path
  validateSegment debug org "org"
  validateSegment debug slug "slug"
  let qualifier ← parseSuffix debug qualifierStr
  let query ← parseQuery debug queryStr
  .ok { org, slug, qualifier, query }

/-! ## Well-formed references -/

/-- The name of an organisation or of an agent. -/
structure Segment (seg : Str) : Prop where
  nonempty : seg ≠ []
  first : seg.head? ≠ some '-'
  last : seg.getLast? ≠ some '-'
  chars : ∀ c ∈ seg, (c.isLower || c.isDigit || c = '-') = true

/-- The three kinds of qualifiers; a digest is in lower case. -/
inductive Qualifier.WellFormed : Qualifier → Prop
  | version {v : Str} (chars : ∀ c ∈ v, isQualifierChar c = true)
      (first : v.head?.any Char.isDigit = true) : WellFormed (.version v)
  | channel {c : Str} (nonempty : c ≠ []) (chars : ∀ x ∈ c, isQualifierChar x = true)
      (first : c.head?.any Char.isDigit = false) : WellFormed (.channel c)
  | digest {hex : Str} (nonempty : hex ≠ []) (chars : ∀ c ∈ hex, c.isHexDigit = true)
      (lower : hex.map Char.toLower = hex) : WellFormed (.digest "sha256".toList hex)

/-- A pair that is split where it was joined. -/
structure Pair (p : Str × Str) : Prop where
  key : p.1 ≠ []
  noEquals : '=' ∉ p.1
  noAmpersand : '&' ∉ pairText p

structure Query.WellFormed (q : Query) : Prop where
  pairs : ∀ p ∈ q.pairs, Pair p
  /-- The known keys stand elsewhere. -/
  extra : ∀ k ∈ q.extra, k ≠ "profile".toList ∧ k ≠ "runtime".toList

structure AgentReference.WellFormed (r : AgentReference) : Prop where
  org : Segment r.org
  slug : Segment r.slug
  qualifier : ∀ q, r.qualifier = some q → q.WellFormed
  query : r.query.WellFormed

variable {debug}

/-- **A segment is accepted** exactly when it is a name. -/
theorem validateSegment_iff {seg : Str} {label : String} :
    validateSegment debug seg label = .ok () ↔ Segment seg := by
  have hother : ∀ c : Char, (c.isLower || c.isDigit || c = '-') = false →
      Segment seg → c ∉ seg := by
    intro c hc h hmem
    rw [h.chars c hmem] at hc
    cases hc
  unfold validateSegment
  by_cases hempty : seg = []
  · rw [if_pos hempty]
    exact ⟨(nomatch ·), fun h => absurd hempty h.nonempty⟩
  rw [if_neg hempty]
  by_cases hdots : seg = ['.'] ∨ seg = ['.', '.']
  · rw [if_pos hdots]
    refine ⟨(nomatch ·), fun h => absurd ?_ (hother '.' (by decide) h)⟩
    rcases hdots with rfl | rfl
    · exact List.mem_cons_self
    · exact List.mem_cons_self
  rw [if_neg hdots]
  by_cases hslash : '/' ∈ seg
  · rw [if_pos hslash]
    exact ⟨(nomatch ·), fun h => absurd hslash (hother '/' (by decide) h)⟩
  rw [if_neg hslash]
  by_cases hdash : seg.head? = some '-' ∨ seg.getLast? = some '-'
  · rw [if_pos hdash]
    exact ⟨(nomatch ·), fun h => absurd hdash (not_or.mpr ⟨h.first, h.last⟩)⟩
  rw [if_neg hdash]
  obtain ⟨hfirst, hlast⟩ := not_or.mp hdash
  cases hall : seg.all fun c => c.isLower || c.isDigit || c = '-' with
  | false =>
      refine ⟨(nomatch ·), fun h => ?_⟩
      rw [List.all_eq_true.mpr h.chars] at hall
      cases hall
  | true => exact ⟨fun _ => ⟨hempty, hfirst, hlast, List.all_eq_true.mp hall⟩, fun _ => rfl⟩

@[simp] theorem stripPrefix_append (p s : Str) : stripPrefix p (p ++ s) = some s := by
  unfold stripPrefix
  rw [if_pos (List.isPrefixOf_iff_prefix.mpr (List.prefix_append p s)), List.drop_left]

theorem stripPrefix_eq_some {p s rest : Str} (h : stripPrefix p s = some rest) : s = p ++ rest := by
  unfold stripPrefix at h
  by_cases hp : p.isPrefixOf s = true
  · rw [if_pos hp] at h
    obtain ⟨t, rfl⟩ := List.isPrefixOf_iff_prefix.mp hp
    rw [List.drop_left] at h
    rw [Option.some.inj h]
  · rw [if_neg hp] at h
    cases h

/-! ## Qualifiers -/

/-- A version or channel does not start like a digest. -/
theorem stripPrefix_sha256 {q : Str} (h : ∀ c ∈ q, isQualifierChar c = true) :
    stripPrefix "sha256:".toList q = none := by
  cases hstrip : stripPrefix "sha256:".toList q with
  | none => rfl
  | some rest =>
      have hmem : ':' ∈ q := by
        rw [stripPrefix_eq_some hstrip]
        exact List.mem_append_left _ (by decide)
      exact absurd (h ':' hmem) (by decide)

theorem isHexDigit_toLower {c : Char} (h : c.isHexDigit = true) : c.toLower.isHexDigit = true := by
  by_cases hupper : c.isUpper = true
  · -- one of the letters from A to F
    have hletter : 65 ≤ c.toNat ∧ c.toNat ≤ 70 := by
      simp only [Char.isHexDigit, Char.isUpper, Char.isDigit, Bool.or_eq_true, Bool.and_eq_true,
        decide_eq_true_eq, Char.reduceVal, ge_iff_le, UInt32.le_iff_toNat_le, UInt32.reduceToNat,
        Char.toNat_val] at h hupper
      omega
    have hc : c = Char.ofNat c.toNat := (Char.ofNat_toNat c).symm
    obtain h | h | h | h | h | h : c.toNat = 65 ∨ c.toNat = 66 ∨ c.toNat = 67 ∨ c.toNat = 68
        ∨ c.toNat = 69 ∨ c.toNat = 70 := by omega
    all_goals
      rw [h] at hc
      rw [hc]
      decide
  · rw [Char.toLower_eq_of_not_isUpper hupper]
    exact h

theorem parseQualifier_wellFormed {q : Str} {r : Qualifier} (hne : q ≠ [])
    (h : parseQualifier debug q = .ok r) : r.WellFormed := by
  unfold parseQualifier at h
  cases hstrip : stripPrefix "sha256:".toList q with
  | some rest =>
      rw [hstrip] at h
      dsimp only at h
      by_cases hempty : rest = []
      · rw [if_pos hempty] at h
        cases h
      rw [if_neg hempty] at h
      cases hall : rest.all Char.isHexDigit with
      | false =>
          rw [hall] at h
          cases h
      | true =>
          rw [hall] at h
          cases h
          refine .digest (by simpa using hempty) (fun c hc => ?_) ?_
          · obtain ⟨x, hx, rfl⟩ := List.mem_map.mp hc
            exact isHexDigit_toLower (List.all_eq_true.mp hall x hx)
          · rw [List.map_map]
            exact List.map_congr_left fun c _ => Char.toLower_toLower_eq_toLower c
  | none =>
      rw [hstrip] at h
      dsimp only at h
      cases hall : q.all isQualifierChar with
      | false =>
          rw [hall] at h
          cases h
      | true =>
          rw [hall] at h
          have hchars := List.all_eq_true.mp hall
          cases hfirst : q.head?.any Char.isDigit with
          | true =>
              rw [hfirst] at h
              cases h
              exact .version hchars hfirst
          | false =>
              rw [hfirst] at h
              cases h
              exact .channel hne hchars hfirst

/-- **A well-formed qualifier** is parsed back from its suffix. -/
theorem parseQualifier_asSuffix {q : Qualifier} (h : q.WellFormed) :
    parseQualifier debug q.asSuffix = .ok q := by
  unfold parseQualifier
  cases h with
  | @version v chars first =>
      rw [Qualifier.asSuffix, stripPrefix_sha256 chars]
      dsimp only
      rw [List.all_eq_true.mpr chars, first]
      rfl
  | @channel c nonempty chars first =>
      rw [Qualifier.asSuffix, stripPrefix_sha256 chars]
      dsimp only
      rw [List.all_eq_true.mpr chars, first]
      rfl
  | @digest hex nonempty chars lower =>
      have hsuffix : (Qualifier.digest "sha256".toList hex).asSuffix
          = "sha256:".toList ++ hex := rfl
      rw [hsuffix, stripPrefix_append]
      dsimp only
      rw [if_neg nonempty, List.all_eq_true.mpr chars, lower]
      rfl

/-- The suffix of a qualifier has no separator of the parts around it. -/
theorem asSuffix_chars {q : Qualifier} (h : q.WellFormed) :
    q.asSuffix ≠ [] ∧ '@' ∉ q.asSuffix ∧ '?' ∉ q.asSuffix := by
  have hchars : ∀ {s : Str}, (∀ c ∈ s, isQualifierChar c = true) → '@' ∉ s ∧ '?' ∉ s := by
    intro s hs
    refine ⟨fun hc => ?_, fun hc => ?_⟩
    · exact absurd (hs _ hc) (by decide)
    · exact absurd (hs _ hc) (by decide)
  cases h with
  | @version v chars first =>
      refine ⟨fun hnil => ?_, hchars chars⟩
      rw [Qualifier.asSuffix] at hnil
      rw [hnil] at first
      cases first
  | @channel c nonempty chars first => exact ⟨nonempty, hchars chars⟩
  | @digest hex nonempty chars lower =>
      have hsuffix : (Qualifier.digest "sha256".toList hex).asSuffix
          = "sha256:".toList ++ hex := rfl
      rw [hsuffix]
      refine ⟨List.cons_ne_nil _ _, fun hc => ?_, fun hc => ?_⟩
      · rcases List.mem_append.mp hc with hc | hc
        · exact absurd hc (by decide)
        · exact absurd (chars _ hc) (by decide)
      · rcases List.mem_append.mp hc with hc | hc
        · exact absurd hc (by decide)
        · exact absurd (chars _ hc) (by decide)

/-! ## Queries -/

theorem set_profile (q : Query) (v : Str) :
    q.set "profile".toList v = { q with profile := some v } := if_pos rfl

theorem set_runtime (q : Query) (v : Str) :
    q.set "runtime".toList v = { q with runtime := some v } := by
  unfold Query.set
  rw [if_neg (by decide), if_pos rfl]

theorem set_extra {k : Str} (hprofile : k ≠ "profile".toList) (hruntime : k ≠ "runtime".toList)
    (q : Query) (v : Str) : q.set k v = { q with extra := q.extra.insert k v } := by
  unfold Query.set
  rw [if_neg hprofile, if_neg hruntime]

theorem mem_pairs {q : Query} {k v : Str} : (k, v) ∈ q.pairs
    ↔ k = "profile".toList ∧ q.profile = some v ∨ k = "runtime".toList ∧ q.runtime = some v
      ∨ q.extra[k]? = some v := by
  unfold Query.pairs
  rw [List.mem_append, List.mem_append, Std.ExtTreeMap.mem_toList_iff_getElem?_eq_some, or_assoc]
  cases q.profile <;> cases q.runtime <;> simp [eq_comm]

theorem Query.WellFormed.default : Query.default.WellFormed := by
  refine ⟨fun p hp => ?_, fun k hk => ?_⟩
  · rcases mem_pairs.mp hp with ⟨-, h⟩ | ⟨-, h⟩ | h
    · cases h
    · cases h
    · simp [Query.default] at h
  · simp [Query.default] at hk

/-- Setting what a pair says keeps a query well formed. -/
theorem Query.WellFormed.set {q : Query} (h : q.WellFormed) {k v : Str} (hpair : Pair (k, v)) :
    (q.set k v).WellFormed := by
  by_cases hprofile : k = "profile".toList
  · subst hprofile
    rw [set_profile]
    refine ⟨fun p hp => ?_, h.extra⟩
    obtain ⟨k', v'⟩ := p
    rcases mem_pairs.mp hp with ⟨rfl, hv⟩ | hrest
    · cases hv
      exact hpair
    · exact h.pairs _ (mem_pairs.mpr (.inr hrest))
  by_cases hruntime : k = "runtime".toList
  · subst hruntime
    rw [set_runtime]
    refine ⟨fun p hp => ?_, h.extra⟩
    obtain ⟨k', v'⟩ := p
    rcases mem_pairs.mp hp with hv | ⟨rfl, hv⟩ | hv
    · exact h.pairs _ (mem_pairs.mpr (.inl hv))
    · cases hv
      exact hpair
    · exact h.pairs _ (mem_pairs.mpr (.inr (.inr hv)))
  rw [set_extra hprofile hruntime]
  refine ⟨fun p hp => ?_, fun k' hk' => ?_⟩
  · obtain ⟨k', v'⟩ := p
    rcases mem_pairs.mp hp with hv | hv | hv
    · exact h.pairs _ (mem_pairs.mpr (.inl hv))
    · exact h.pairs _ (mem_pairs.mpr (.inr (.inl hv)))
    · dsimp only at hv
      rw [Std.ExtTreeMap.getElem?_insert] at hv
      by_cases hk : compare k k' = .eq
      · rw [if_pos hk] at hv
        cases hv
        rw [← Std.LawfulEqCmp.eq_of_compare hk]
        exact hpair
      · rw [if_neg hk] at hv
        exact h.pairs _ (mem_pairs.mpr (.inr (.inr hv)))
  · rcases Std.ExtTreeMap.mem_insert.mp hk' with hk | hk
    · rw [← Std.LawfulEqCmp.eq_of_compare hk]
      exact ⟨hprofile, hruntime⟩
    · exact h.extra k' hk

theorem parsePairs_wellFormed {pairs seen : List Str} {q r : Query}
    (hpairs : ∀ p ∈ pairs, '&' ∉ p) (hq : q.WellFormed)
    (h : parsePairs debug pairs seen q = .ok r) : r.WellFormed := by
  induction pairs generalizing seen q with
  | nil =>
      cases h
      exact hq
  | cons pair rest ih =>
      unfold parsePairs at h
      cases hsplit : splitFirst '=' pair with
      | none =>
          rw [hsplit] at h
          cases h
      | some parts =>
          obtain ⟨k, v⟩ := parts
          rw [hsplit] at h
          dsimp only at h
          by_cases hempty : k = []
          · rw [if_pos hempty] at h
            cases h
          rw [if_neg hempty] at h
          by_cases hseen : k ∈ seen
          · rw [if_pos hseen] at h
            cases h
          rw [if_neg hseen] at h
          obtain ⟨hequals, heq⟩ := splitFirst_eq_some_iff.mp hsplit
          have hpair : Pair (k, v) := by
            refine ⟨hempty, hequals, ?_⟩
            unfold pairText
            rw [← heq]
            exact hpairs pair List.mem_cons_self
          exact ih (fun p hp => hpairs p (List.mem_cons_of_mem _ hp)) (hq.set hpair) h

/-- Pairs with different keys are all taken in. -/
theorem parsePairs_pairText {pairs : List (Str × Str)} (hpairs : ∀ p ∈ pairs, Pair p)
    (hdistinct : (pairs.map Prod.fst).Nodup) {seen : List Str}
    (hseen : ∀ p ∈ pairs, p.1 ∉ seen) (q : Query) :
    parsePairs debug (pairs.map pairText) seen q
      = .ok (pairs.foldl (fun q p => q.set p.1 p.2) q) := by
  induction pairs generalizing seen q with
  | nil => rfl
  | cons p rest ih =>
      obtain ⟨k, v⟩ := p
      have hpair := hpairs (k, v) List.mem_cons_self
      obtain ⟨hfirst, hrest⟩ := List.nodup_cons.mp hdistinct
      have hnew : ∀ p ∈ rest, p.1 ∉ k :: seen := by
        intro p hp hmem
        rcases List.mem_cons.mp hmem with heq | hmem
        · exact hfirst (List.mem_map.mpr ⟨p, hp, heq⟩)
        · exact hseen p (List.mem_cons_of_mem _ hp) hmem
      rw [List.map_cons, parsePairs, pairText, splitFirst_append _ hpair.noEquals]
      dsimp only
      rw [if_neg hpair.key, if_neg (hseen (k, v) List.mem_cons_self),
        ih (fun p hp => hpairs p (List.mem_cons_of_mem _ hp)) hrest hnew]
      rfl

theorem nodup_pairs {q : Query} (h : q.WellFormed) : (q.pairs.map Prod.fst).Nodup := by
  have hextra : (q.extra.toList.map Prod.fst).Nodup := by
    rw [List.nodup_iff_pairwise_ne, List.pairwise_map]
    refine Std.ExtTreeMap.distinct_keys_toList.imp fun {a b} hne heq => hne ?_
    rw [heq]
    exact Std.ReflCmp.compare_self
  have hknown : ∀ k ∈ q.extra.toList.map Prod.fst, k ≠ "profile".toList ∧ k ≠ "runtime".toList := by
    intro k hk
    rw [Std.ExtTreeMap.map_fst_toList_eq_keys, Std.ExtTreeMap.mem_keys] at hk
    exact h.extra k hk
  unfold Query.pairs
  cases q.profile <;> cases q.runtime <;>
    simp only [Option.map_none, Option.map_some, Option.toList_none, Option.toList_some,
      List.nil_append, List.cons_append, List.map_cons, List.nodup_cons, List.mem_cons, not_or]
  · exact hextra
  · exact ⟨fun hmem => (hknown _ hmem).2 rfl, hextra⟩
  · exact ⟨fun hmem => (hknown _ hmem).1 rfl, hextra⟩
  · exact ⟨⟨by decide, fun hmem => (hknown _ hmem).1 rfl⟩, fun hmem => (hknown _ hmem).2 rfl, hextra⟩

/-- The pairs of a query make up the query. -/
theorem foldl_set_pairs {q : Query} (h : q.WellFormed) :
    q.pairs.foldl (fun q p => q.set p.1 p.2) .default = q := by
  have hextra : ∀ (l : List (Str × Str)),
      (∀ p ∈ l, p.1 ≠ "profile".toList ∧ p.1 ≠ "runtime".toList) → ∀ q : Query,
        l.foldl (fun q p => q.set p.1 p.2) q
          = { q with extra := l.foldl (fun m p => m.insert p.1 p.2) q.extra } := by
    intro l
    induction l with
    | nil => exact fun _ q => rfl
    | cons p rest ih =>
        intro hl q
        obtain ⟨hprofile, hruntime⟩ := hl p List.mem_cons_self
        rw [List.foldl_cons, set_extra hprofile hruntime,
          ih fun p hp => hl p (List.mem_cons_of_mem _ hp)]
        rfl
  have hknown : ∀ p ∈ q.extra.toList, p.1 ≠ "profile".toList ∧ p.1 ≠ "runtime".toList := by
    intro p hp
    refine h.extra p.1 ?_
    rw [← Std.ExtTreeMap.mem_keys, ← Std.ExtTreeMap.map_fst_toList_eq_keys]
    exact List.mem_map_of_mem hp
  obtain ⟨profile, runtime, extra⟩ := q
  unfold Query.pairs
  rw [List.foldl_append, hextra _ hknown]
  cases profile <;> cases runtime <;>
    simp only [Option.map_none, Option.map_some, Option.toList_none, Option.toList_some,
      List.append_nil, List.nil_append, List.singleton_append, List.foldl_cons, List.foldl_nil,
      set_profile, set_runtime, foldl_insert_toList, Query.default]

/-- The text of the pairs of a query. -/
theorem pairs_text_ne_nil {q : Query} (hne : q.isEmpty = false) :
    q.pairs ≠ [] ∧ List.intercalate ['&'] (q.pairs.map pairText) ≠ [] := by
  have hpairs : q.pairs ≠ [] := by
    intro hnil
    unfold Query.pairs at hnil
    rw [List.append_eq_nil_iff, List.append_eq_nil_iff, Option.toList_eq_nil_iff,
      Option.map_eq_none_iff, Option.toList_eq_nil_iff, Option.map_eq_none_iff,
      Std.ExtTreeMap.toList_eq_nil_iff] at hnil
    obtain ⟨⟨hprofile, hruntime⟩, hextra⟩ := hnil
    unfold Query.isEmpty at hne
    rw [hprofile, hruntime, hextra] at hne
    simp at hne
  refine ⟨hpairs, ?_⟩
  obtain ⟨p, rest, heq⟩ := List.exists_cons_of_ne_nil hpairs
  rw [heq, List.map_cons]
  cases rest with
  | nil => simp [pairText, List.intercalate_singleton]
  | cons p' rest => simp [pairText, List.intercalate_cons_cons]

theorem parseQuery_some {q : Str} (hq : q ≠ []) :
    parseQuery debug (some q) = parsePairs debug (q.splitOn '&') [] .default := by
  cases q with
  | nil => exact absurd rfl hq
  | cons c rest => rfl

/-- **A well-formed query** is parsed back from its pairs. -/
theorem parseQuery_pairs {q : Query} (h : q.WellFormed) (hne : q.isEmpty = false) :
    parseQuery debug (some (List.intercalate ['&'] (q.pairs.map pairText))) = .ok q := by
  obtain ⟨hpairs, htext⟩ := pairs_text_ne_nil hne
  rw [parseQuery_some htext, List.splitOn_intercalate '&' ?_ (by simpa using hpairs),
    parsePairs_pairText h.pairs (nodup_pairs h) (fun _ _ => List.not_mem_nil), foldl_set_pairs h]
  intro p hp
  obtain ⟨pair, hpair, rfl⟩ := List.mem_map.mp hp
  exact (h.pairs pair hpair).noAmpersand

theorem parseQuery_wellFormed {q : Option Str} {r : Query} (h : parseQuery debug q = .ok r) :
    r.WellFormed := by
  match q, h with
  | none, h | some [], h =>
      cases h
      exact .default
  | some (c :: rest), h =>
      exact parsePairs_wellFormed (fun p hp => notMem_of_mem_splitOn hp) .default h

/-! ## References -/

theorem parseSuffix_wellFormed {s : Option Str} {r : Option Qualifier}
    (h : parseSuffix debug s = .ok r) : ∀ q, r = some q → q.WellFormed := by
  match s, h with
  | none, h =>
      cases h
      exact nofun
  | some [], h => cases h
  | some (c :: rest), h =>
      have hq : (parseQualifier debug (c :: rest)).map some = .ok r := h
      cases hparse : parseQualifier debug (c :: rest) with
      | error e =>
          rw [hparse] at hq
          cases hq
      | ok q =>
          rw [hparse] at hq
          cases hq
          intro q' heq
          cases heq
          exact parseQualifier_wellFormed (List.cons_ne_nil _ _) hparse

/-- **What the parser accepts** is well formed. -/
theorem parse_wellFormed {s : Str} {r : AgentReference} (h : parse debug s = .ok r) :
    r.WellFormed := by
  unfold parse at h
  obtain ⟨rest, -, h⟩ := bind_eq_ok.mp h
  obtain ⟨⟨path, qualifierStr⟩, -, h⟩ := bind_eq_ok.mp h
  obtain ⟨⟨org, slug⟩, -, h⟩ := bind_eq_ok.mp h
  obtain ⟨_, horg, h⟩ := bind_eq_ok.mp h
  obtain ⟨_, hslug, h⟩ := bind_eq_ok.mp h
  obtain ⟨qualifier, hqualifier, h⟩ := bind_eq_ok.mp h
  obtain ⟨query, hquery, h⟩ := bind_eq_ok.mp h
  cases h
  exact ⟨validateSegment_iff.mp horg, validateSegment_iff.mp hslug,
    parseSuffix_wellFormed hqualifier, parseQuery_wellFormed hquery⟩

/-- A segment has no separator. -/
theorem Segment.notMem {seg : Str} (h : Segment seg) {c : Char}
    (hc : (c.isLower || c.isDigit || c = '-') = false) : c ∉ seg := by
  intro hmem
  rw [h.chars c hmem] at hc
  cases hc

/-- A query without members is the default. -/
theorem eq_default_of_isEmpty {q : Query} (h : q.isEmpty = true) : q = .default := by
  obtain ⟨profile, runtime, extra⟩ := q
  unfold Query.isEmpty at h
  rw [Bool.and_eq_true, Bool.and_eq_true, Option.isNone_iff_eq_none, Option.isNone_iff_eq_none,
    Std.ExtTreeMap.isEmpty_iff] at h
  obtain ⟨⟨hprofile, hruntime⟩, hextra⟩ := h
  dsimp only at hprofile hruntime hextra
  rw [hprofile, hruntime, hextra]
  rfl

/-- A query behind a text without a question mark is split off and parsed back. -/
theorem splitQuery_text {q : Query} (hq : q.WellFormed) {s : Str} (hs : '?' ∉ s) :
    ∃ text, splitQuery (s ++ q.text) = (s, text) ∧ parseQuery debug text = .ok q := by
  unfold splitQuery Query.text
  cases hempty : q.isEmpty with
  | true =>
      rw [if_pos rfl, List.append_nil, splitFirst_eq_none_iff.mpr hs]
      exact ⟨none, rfl, by rw [eq_default_of_isEmpty hempty]; rfl⟩
  | false =>
      rw [if_neg Bool.false_ne_true, splitFirst_append _ hs]
      exact ⟨_, rfl, parseQuery_pairs hq hempty⟩

/-- A qualifier behind a text without an at sign is split off and parsed back. -/
theorem splitQualifier_text {q : Option Qualifier} (hq : ∀ q', q = some q' → q'.WellFormed)
    {s : Str} (hs : '@' ∉ s) :
    ∃ text, splitQualifier (s ++ qualifierText q) = .ok (s, text)
      ∧ parseSuffix debug text = .ok q := by
  unfold splitQualifier
  cases q with
  | none =>
      rw [qualifierText, List.append_nil, splitFirst_eq_none_iff.mpr hs]
      exact ⟨none, rfl, rfl⟩
  | some q =>
      obtain ⟨hne, hat, -⟩ := asSuffix_chars (hq q rfl)
      rw [qualifierText, splitFirst_append _ hs]
      dsimp only
      rw [if_neg hat]
      refine ⟨_, rfl, ?_⟩
      have hparse : parseQualifier debug q.asSuffix = .ok q := parseQualifier_asSuffix (hq q rfl)
      cases hsuffix : q.asSuffix with
      | nil => exact absurd hsuffix hne
      | cons c rest =>
          rw [hsuffix] at hparse
          unfold parseSuffix
          dsimp only
          rw [hparse]
          rfl

/-- **The canonical form** of a well-formed reference is parsed to that reference. -/
theorem parse_canonical {r : AgentReference} (h : r.WellFormed) :
    parse debug r.canonical = .ok r := by
  have hpath : ∀ c : Char, (c.isLower || c.isDigit || c = '-') = false → c ≠ '/' →
      c ∉ r.org ++ '/' :: r.slug := by
    intro c hc hslash hmem
    rcases List.mem_append.mp hmem with hmem | hmem
    · exact h.org.notMem hc hmem
    rcases List.mem_cons.mp hmem with hmem | hmem
    · exact hslash hmem
    · exact h.slug.notMem hc hmem
  have hquestion : '?' ∉ r.org ++ '/' :: r.slug ++ qualifierText r.qualifier := by
    intro hmem
    rcases List.mem_append.mp hmem with hmem | hmem
    · exact hpath '?' (by decide) (by decide) hmem
    cases hq : r.qualifier with
    | none =>
        rw [hq] at hmem
        cases hmem
    | some q =>
        rw [hq] at hmem
        rcases List.mem_cons.mp hmem with hmem | hmem
        · exact absurd hmem (by decide)
        · exact (asSuffix_chars (h.qualifier q hq)).2.2 hmem
  have hstrip : stripScheme debug r.canonical
      = .ok (r.org ++ '/' :: r.slug ++ qualifierText r.qualifier ++ r.query.text) := by
    obtain ⟨c, rest, horg⟩ := List.exists_cons_of_ne_nil h.org.nonempty
    unfold stripScheme AgentReference.canonical
    rw [stripPrefix_append, horg]
    rfl
  obtain ⟨queryStr, hsplitQuery, hparseQuery⟩ : ∃ text,
      splitQuery (r.org ++ '/' :: r.slug ++ qualifierText r.qualifier ++ r.query.text)
          = (r.org ++ '/' :: r.slug ++ qualifierText r.qualifier, text)
        ∧ parseQuery debug text = .ok r.query := splitQuery_text h.query hquestion
  obtain ⟨suffix, hsplitQualifier, hparseSuffix⟩ : ∃ text,
      splitQualifier (r.org ++ '/' :: r.slug ++ qualifierText r.qualifier)
          = .ok (r.org ++ '/' :: r.slug, text)
        ∧ parseSuffix debug text = .ok r.qualifier :=
    splitQualifier_text h.qualifier (hpath '@' (by decide) (by decide))
  have hsplitPath : splitPath (r.org ++ '/' :: r.slug) = .ok (r.org, r.slug) := by
    unfold splitPath
    rw [splitFirst_append r.slug (h.org.notMem (by decide))]
  unfold parse
  refine bind_eq_ok.mpr ⟨_, hstrip, ?_⟩
  rw [hsplitQuery]
  refine bind_eq_ok.mpr ⟨_, hsplitQualifier, ?_⟩
  refine bind_eq_ok.mpr ⟨_, hsplitPath, ?_⟩
  refine bind_eq_ok.mpr ⟨_, validateSegment_iff.mpr h.org, ?_⟩
  refine bind_eq_ok.mpr ⟨_, validateSegment_iff.mpr h.slug, ?_⟩
  refine bind_eq_ok.mpr ⟨_, hparseSuffix, ?_⟩
  exact bind_eq_ok.mpr ⟨_, hparseQuery, rfl⟩

end Agenomic.Os.Uri
