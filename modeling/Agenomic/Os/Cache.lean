import Agenomic.Os.Uri

/-!
# The bundle cache

A bundle lies in the cache under its organisation, its agent and a name for the qualifier. The
name tells the three kinds of qualifiers apart by how it starts.

**`references_distinguished`**: canonical forms and places in the cache tell references apart,
and a place is always three components below the root.
-/

namespace Agenomic.Os.Uri

open Lib

/-! ## Paths -/

/-- A path below another; one that starts with a slash stands for itself. -/
def join (base name : Str) : Str :=
  if name.head? = some '/' then name
  else if base = [] ∨ base.getLast? = some '/' then base ++ name
  else base ++ '/' :: name

/-- The components between the slashes: a slash in front is one itself, and a dot is one only in
front. -/
def componentsOf : List Str → List Str
  | [] => []
  | first :: rest =>
      (if first ≠ [] then [first] else if rest ≠ [] then [['/']] else [])
        ++ rest.filter fun n => n ≠ [] ∧ n ≠ ['.']

def components (path : Str) : List Str := componentsOf (path.splitOn '/')

/-- A component that leads one down. -/
structure IsName (n : Str) : Prop where
  nonempty : n ≠ []
  notDot : n ≠ ['.']
  notParent : n ≠ ['.', '.']
  noSlash : '/' ∉ n

/-! ## The cache -/

inductive CacheLocation where
  | global
  | projectLocal (root : Str)
  deriving DecidableEq, Repr

-- the directory for the data of programs, when there is a home directory
variable (dataDir : Option Str)

/-- Resolve the root directory for this cache location. -/
def CacheLocation.root : CacheLocation → OsResult Str
  | .global =>
      match dataDir with
      | none => .error .noHomeDirectory
      | some dir => .ok (join dir "bundles".toList)
  | .projectLocal root => .ok (join (join root ".agenomic".toList) "bundles".toList)

/-- The name of a qualifier in the cache. -/
def qualifierSegment (qualifier : Option Qualifier) : Str :=
  (qualifier.map Qualifier.cacheSegment).getD "unversioned".toList

/-- Compute the on-disk directory for a specific reference under a location. -/
def CacheLocation.bundlePath (location : CacheLocation) (reference : AgentReference) :
    OsResult Str := do
  let root ← location.root dataDir
  .ok (join (join (join root reference.org) reference.slug) (qualifierSegment reference.qualifier))

/-! ## Joining -/

theorem filter_name {name : Str} (h : IsName name) :
    [name].filter (fun n => n ≠ [] ∧ n ≠ ['.']) = [name] := by
  rw [List.filter_cons, if_pos (by simp [h.nonempty, h.notDot])]
  rfl

/-- **Joining a name** adds it behind the components. -/
theorem components_join (base : Str) {name : Str} (h : IsName name) :
    components (join base name) = components base ++ [name] := by
  have hname : name.splitOn '/' = [name] := List.splitOn_eq_singleton h.noSlash
  have hfirst : name.head? ≠ some '/' := fun hhead => h.noSlash (List.mem_of_head? hhead)
  unfold join
  rw [if_neg hfirst]
  by_cases hbase : base = []
  · rw [if_pos (.inl hbase), hbase, List.nil_append]
    unfold components
    rw [hname, componentsOf, if_pos h.nonempty]
    rfl
  by_cases hlast : base.getLast? = some '/'
  · -- the last component is empty, and the name takes its place
    rw [if_pos (.inr hlast)]
    obtain ⟨b, rfl⟩ := List.getLast?_eq_some_iff.mp hlast
    obtain ⟨first, rest, hparts⟩ := List.exists_cons_of_ne_nil (List.splitOn_ne_nil '/' b)
    unfold components
    rw [List.append_assoc, List.singleton_append, List.splitOn_append_cons_self,
      List.splitOn_append_cons_self, hname, List.splitOn_nil, hparts, List.cons_append,
      List.cons_append, componentsOf, componentsOf, List.filter_append, List.filter_append,
      filter_name h]
    simp
  · rw [if_neg (not_or.mpr ⟨hbase, hlast⟩)]
    obtain ⟨first, rest, hparts⟩ := List.exists_cons_of_ne_nil (List.splitOn_ne_nil '/' base)
    have hsome : first ≠ [] ∨ rest ≠ [] := by
      by_contra hnot
      push Not at hnot
      have hback : ['/'].intercalate (base.splitOn '/') = base := List.intercalate_splitOn '/'
      rw [hparts, hnot.1, hnot.2] at hback
      exact hbase hback.symm
    unfold components
    rw [List.splitOn_append_cons_self, hname, hparts, List.cons_append, componentsOf, componentsOf,
      List.filter_append, filter_name h]
    by_cases hnil : first = []
    · rw [if_neg (not_not.mpr hnil), if_neg (not_not.mpr hnil),
        if_pos (hsome.resolve_left (not_not.mpr hnil)), if_pos (by simp), List.append_assoc]
    · rw [if_pos hnil, if_pos hnil, List.append_assoc]

theorem Segment.isName {seg : Str} (h : Segment seg) : IsName seg := by
  refine ⟨h.nonempty, ?_, ?_, h.notMem (by decide)⟩
  · rintro rfl
    exact h.notMem (c := '.') (by decide) List.mem_cons_self
  · rintro rfl
    exact h.notMem (c := '.') (by decide) List.mem_cons_self

/-! ## The name of a qualifier -/

/-- The letter the name of a qualifier starts with. -/
def initial : Option Qualifier → Char
  | none => 'u'
  | some (.version _) => 'v'
  | some (.channel _) => 'c'
  | some (.digest _ _) => 'd'

theorem head?_qualifierSegment (q : Option Qualifier) :
    (qualifierSegment q).head? = some (initial q) := by
  match q with
  | none => rfl
  | some (.version _) => rfl
  | some (.channel _) => rfl
  | some (.digest _ _) => rfl

/-- **The name of a qualifier** tells it from every other. -/
theorem qualifierSegment_inj {q₁ q₂ : Option Qualifier}
    (h₁ : ∀ q, q₁ = some q → q.WellFormed) (h₂ : ∀ q, q₂ = some q → q.WellFormed) :
    qualifierSegment q₁ = qualifierSegment q₂ ↔ q₁ = q₂ := by
  refine ⟨fun h => ?_, fun h => h ▸ rfl⟩
  have hinitial : initial q₁ = initial q₂ := by
    have hhead := congrArg List.head? h
    rw [head?_qualifierSegment, head?_qualifierSegment] at hhead
    exact Option.some.inj hhead
  match q₁, q₂, hinitial with
  | none, none, _ => rfl
  | some (.version v), some (.version v'), _ =>
      have hv : v = v' := List.append_cancel_left h
      rw [hv]
  | some (.channel c), some (.channel c'), _ =>
      have hc : c = c' := List.append_cancel_left h
      rw [hc]
  | some (.digest _ hex), some (.digest _ hex'), _ =>
      -- both are digests of one algorithm
      cases h₁ _ rfl
      cases h₂ _ rfl
      have hhex : hex = hex' := @List.append_cancel_left _ "d-sha256-".toList hex hex' h
      rw [hhex]
  | none, some q, hinitial => cases q <;> simp [initial] at hinitial
  | some q, none, hinitial => cases q <;> simp [initial] at hinitial
  | some (.version _), some (.channel _), hinitial => simp [initial] at hinitial
  | some (.version _), some (.digest _ _), hinitial => simp [initial] at hinitial
  | some (.channel _), some (.version _), hinitial => simp [initial] at hinitial
  | some (.channel _), some (.digest _ _), hinitial => simp [initial] at hinitial
  | some (.digest _ _), some (.version _), hinitial => simp [initial] at hinitial
  | some (.digest _ _), some (.channel _), hinitial => simp [initial] at hinitial

theorem notMem_slash {c : List Char} (h : ∀ x ∈ c, isQualifierChar x = true) : '/' ∉ c :=
  fun hmem => absurd (h _ hmem) (by decide)

/-- The name of a qualifier is a name. -/
theorem qualifierSegment_isName {q : Option Qualifier}
    (h : ∀ q', q = some q' → q'.WellFormed) : IsName (qualifierSegment q) := by
  have hhead := head?_qualifierSegment q
  have hdot : initial q ≠ '.' := by
    match q with
    | none => simp [initial]
    | some (.version _) => simp [initial]
    | some (.channel _) => simp [initial]
    | some (.digest _ _) => simp [initial]
  refine ⟨fun hnil => ?_, fun heq => ?_, fun heq => ?_, ?_⟩
  · rw [hnil] at hhead
    cases hhead
  · rw [heq] at hhead
    exact hdot (Option.some.inj hhead).symm
  · rw [heq] at hhead
    exact hdot (Option.some.inj hhead).symm
  · cases q with
    | none => decide
    | some q =>
        have hparts : ∀ {a b : Str}, '/' ∉ a → '/' ∉ b → '/' ∉ a ++ b := fun ha hb hmem =>
          (List.mem_append.mp hmem).elim ha hb
        cases h q rfl with
        | @version v chars first => exact hparts (by decide) (notMem_slash chars)
        | @channel c nonempty chars first => exact hparts (by decide) (notMem_slash chars)
        | @digest hex nonempty chars lower =>
            exact hparts (a := "d-sha256-".toList) (by decide) fun hmem =>
              absurd (chars _ hmem) (by decide)

/-! ## Telling references apart -/

/-- The path lies below the root, under these names. -/
def Below (names : List Str) (root path : Str) : Prop :=
  components path = components root ++ names ∧ ∀ n ∈ names, IsName n

theorem bundlePath_below {location : CacheLocation} {root : Str}
    (hroot : location.root dataDir = .ok root) {r : AgentReference} (h : r.WellFormed) :
    ∃ path, location.bundlePath dataDir r = .ok path
      ∧ Below [r.org, r.slug, qualifierSegment r.qualifier] root path := by
  refine ⟨_, bind_eq_ok.mpr ⟨root, hroot, rfl⟩, ?_, fun n hn => ?_⟩
  · rw [components_join _ (qualifierSegment_isName h.qualifier), components_join _ h.slug.isName,
      components_join _ h.org.isName, List.append_assoc, List.append_assoc]
    rfl
  · rcases List.mem_cons.mp hn with rfl | hn
    · exact h.org.isName
    rcases List.mem_cons.mp hn with rfl | hn
    · exact h.slug.isName
    · rw [List.mem_singleton.mp hn]
      exact qualifierSegment_isName h.qualifier

/-- Two references are told apart by their canonical forms, and as far as their bundles go by
their places in the cache. -/
structure Distinguished (debug : Str → String) (dataDir : Option Str) (r₁ r₂ : AgentReference) :
    Prop where
  /-- The canonical form is accepted and leads back. -/
  back : parse debug r₁.canonical = .ok r₁
  canonical : r₁.canonical = r₂.canonical → r₁ = r₂
  /-- Each place is three components below the root, and the places are one exactly when the
  organisation, the agent and the qualifier are. -/
  places : ∀ (location : CacheLocation) (root : Str), location.root dataDir = .ok root →
    ∃ p₁ p₂, location.bundlePath dataDir r₁ = .ok p₁ ∧ location.bundlePath dataDir r₂ = .ok p₂
      ∧ (∃ names, names.length = 3 ∧ Below names root p₁)
      ∧ (components p₁ = components p₂
        ↔ r₁.org = r₂.org ∧ r₁.slug = r₂.slug ∧ r₁.qualifier = r₂.qualifier)

/-- **Accepted references are told apart**, by their canonical forms and in the cache. -/
theorem references_distinguished {debug : Str → String} {s₁ s₂ : Str} {r₁ r₂ : AgentReference}
    (h₁ : parse debug s₁ = .ok r₁) (h₂ : parse debug s₂ = .ok r₂) :
    Distinguished debug dataDir r₁ r₂ := by
  have hwf₁ := parse_wellFormed h₁
  have hwf₂ := parse_wellFormed h₂
  refine ⟨parse_canonical hwf₁, fun hcanonical => ?_, fun location root hroot => ?_⟩
  · have hback : parse debug r₁.canonical = .ok r₁ := parse_canonical hwf₁
    rw [hcanonical, parse_canonical hwf₂] at hback
    cases hback
    rfl
  · obtain ⟨p₁, hp₁, hbelow₁⟩ := bundlePath_below dataDir hroot hwf₁
    obtain ⟨p₂, hp₂, hbelow₂⟩ := bundlePath_below dataDir hroot hwf₂
    refine ⟨p₁, p₂, hp₁, hp₂, ⟨_, rfl, hbelow₁⟩, ?_⟩
    rw [hbelow₁.1, hbelow₂.1, List.append_cancel_left_eq]
    simp only [List.cons.injEq, and_true]
    rw [qualifierSegment_inj hwf₁.qualifier hwf₂.qualifier]

/-- A reference with every part. -/
def fullReference : AgentReference where
  org := "acme".toList
  slug := "foo".toList
  qualifier := some (.digest "sha256".toList "ab".toList)
  query := { profile := some "local".toList
             extra := (∅ : Std.ExtTreeMap Str Str).insert "a?".toList "b=@".toList }

def plainReference : AgentReference := ⟨"acme".toList, "foo".toList, none, .default⟩

theorem parse_fullReference :
    parse String.ofList "agent://acme/foo@sha256:AB?a?=b=@&profile=local".toList
      = .ok fullReference := rfl

theorem references_distinguished_full :
    Distinguished String.ofList (some "/root/.local/share/agenomic".toList) fullReference
      plainReference :=
  references_distinguished _ parse_fullReference
    (show parse String.ofList "agent://acme/foo?".toList = .ok plainReference from rfl)

end Agenomic.Os.Uri
