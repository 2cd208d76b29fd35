import Agenomic.Lib.LinkTree
import Agenomic.Lib.Split
import Mathlib.Data.List.Infix
import Mathlib.Data.List.Basic

/-!
# Paths that leave the workspace

Before a path is given to a policy, it is looked up whether its real path is in the workspace. The
file may not exist yet, so the closest place above it that exists is taken for it.

**`escapeSeen_iff`**: this tells what opening the path would reach, unless the way ends at a link
that leads nowhere: such a link is judged by the directory it stands in. A workspace whose real path
is the top of the tree is the other exception, there everything else is taken for an escape.
-/

namespace Agenomic.Connector

open Lib

abbrev FileName := List Char

abbrev FilePath := List FileName

/-- A tree of files with names that can be written in a path. -/
structure FileTree extends LinkTree FileName where
  legal : ∀ path, nodeAt path ≠ none → ∀ n ∈ path, n ≠ [] ∧ '/' ∉ n

namespace RealPath

/-! ## Paths as texts -/

/-- One segment of a path, behind those before it. -/
def onSegment (path : FilePath) (segment : FileName) : FilePath :=
  if segment = [] ∨ segment = ['.'] then path
  else if segment = ['.', '.'] then path.dropLast
  else path ++ [segment]

/-- `path.resolve(cwd, p)` for an absolute directory. -/
def resolve (cwd p : List Char) : FilePath :=
  ((if p.head? = some '/' then p else cwd ++ '/' :: p).splitOn '/').foldl onSegment []

/-- The names of a path, each behind its separator. -/
def names (path : FilePath) : List Char := path.flatMap fun n => '/' :: n

def text (path : FilePath) : List Char := if path = [] then ['/'] else names path

/-- A path is another one, or its text begins with that of the other and a separator. -/
def within (path root : List Char) : Bool := path == root || (root ++ ['/']).isPrefixOf path

/-! ## The check -/

section Check

variable (t : FileTree) (links : Nat)

def existsSync (path : FilePath) : Bool := (t.realpath links path).isSome

/-- The closest place above a path that exists. -/
def closest : Nat → FilePath → FilePath
  | 0, probe => probe
  | fuel + 1, probe =>
      if existsSync t links probe || probe == [] then probe else closest fuel probe.dropLast

/-- The real path of the root, or the root as it is given. -/
def realRootText (root : List Char) : List Char :=
  match t.realpath links (resolve ['/'] root) with
  | some real => text real
  | none => root

def realPathEscapes (p cwd root : List Char) : Bool :=
  let abs := resolve cwd p
  match t.realpath links (closest t links abs.length abs) with
  | none => false
  | some real =>
      let lexicalInside := within (text abs) root
      let realInside := within (text real) (realRootText t links root)
      lexicalInside && !realInside

/-- Opening a path reaches a place that is not below the root. -/
def Outside (realRoot path : FilePath) : Prop :=
  ∃ place, (t.follow links path).place = some place ∧ ¬ realRoot <+: place

end Check

/-! ## Names that can be written -/

def Legal (path : FilePath) : Prop := ∀ n ∈ path, n ≠ [] ∧ '/' ∉ n

/-- Names of entries, as resolving a path leaves them. -/
structure Normal (path : FilePath) : Prop where
  legal : Legal path
  entries : ∀ n ∈ path, n ≠ ['.'] ∧ n ≠ ['.', '.']

theorem Normal.of_prefix {path path' : FilePath} (h : Normal path') (hpre : path <+: path') :
    Normal path :=
  ⟨fun n hn => h.legal n (hpre.subset hn), fun n hn => h.entries n (hpre.subset hn)⟩

theorem normal_onSegment {path : FilePath} {segment : FileName} (hsep : '/' ∉ segment)
    (h : Normal path) : Normal (onSegment path segment) := by
  unfold onSegment
  split
  · exact h
  · rename_i hskip
    split
    · exact h.of_prefix (List.dropLast_prefix path)
    · rename_i hup
      refine ⟨fun n hn => ?_, fun n hn => ?_⟩
      · rcases List.mem_append.mp hn with hpath | hlast
        · exact h.legal n hpath
        · rw [List.mem_singleton.mp hlast]
          exact ⟨fun hnil => hskip (.inl hnil), hsep⟩
      · rcases List.mem_append.mp hn with hpath | hlast
        · exact h.entries n hpath
        · rw [List.mem_singleton.mp hlast]
          exact ⟨fun hdot => hskip (.inr hdot), hup⟩

theorem normal_foldl : ∀ (segments : List FileName) {path : FilePath},
    (∀ s ∈ segments, '/' ∉ s) → Normal path → Normal (segments.foldl onSegment path)
  | [], _, _, h => h
  | s :: rest, path, hsegments, h => by
      rw [List.foldl_cons]
      exact normal_foldl rest (fun s hs => hsegments s (List.mem_cons_of_mem _ hs))
        (normal_onSegment (hsegments s List.mem_cons_self) h)

theorem normal_resolve (cwd p : List Char) : Normal (resolve cwd p) :=
  normal_foldl _ (fun _ hs => notMem_of_mem_splitOn hs)
    ⟨fun _ hn => absurd hn List.not_mem_nil, fun _ hn => absurd hn List.not_mem_nil⟩

theorem splitOn_append_of_notMem (s : List Char) : ∀ {n : FileName}, '/' ∉ n →
    (n ++ s).splitOn '/' = (s.splitOn '/').modifyHead (n ++ ·)
  | [], _ => by
      rw [List.nil_append]
      cases s.splitOn '/' <;> rfl
  | u :: n, h => by
      have hu : (u == '/') = false :=
        beq_eq_false_iff_ne.mpr fun heq => h (heq ▸ List.mem_cons_self)
      have hn : '/' ∉ n := fun hmem => h (List.mem_cons_of_mem _ hmem)
      rw [List.cons_append, List.splitOn_cons_eq_if_modifyHead, hu, if_neg Bool.false_ne_true,
        splitOn_append_of_notMem s hn, List.modifyHead_modifyHead]
      rfl

/-- The segments of the text of a path are its names. -/
theorem splitOn_names : ∀ {path : FilePath}, (∀ n ∈ path, '/' ∉ n) →
    (names path).splitOn '/' = [] :: path
  | [], _ => rfl
  | n :: path, h => by
      have hrest := splitOn_names fun m hm => h m (List.mem_cons_of_mem _ hm)
      have hnames : names (n :: path) = '/' :: (n ++ names path) := rfl
      rw [hnames, List.splitOn_cons_eq_if_modifyHead, if_pos (beq_self_eq_true _),
        splitOn_append_of_notMem _ (h n List.mem_cons_self), hrest]
      simp

theorem foldl_normal : ∀ {path before : FilePath}, Normal path →
    path.foldl onSegment before = before ++ path
  | [], before, _ => (List.append_nil before).symm
  | n :: path, before, h => by
      obtain ⟨hdot, hup⟩ := h.entries n List.mem_cons_self
      have hn : onSegment before n = before ++ [n] := by
        unfold onSegment
        rw [if_neg, if_neg hup]
        exact fun hskip => hskip.elim (h.legal n List.mem_cons_self).1 hdot
      have htail : Normal path :=
        ⟨fun m hm => h.legal m (List.mem_cons_of_mem _ hm),
          fun m hm => h.entries m (List.mem_cons_of_mem _ hm)⟩
      rw [List.foldl_cons, hn, foldl_normal htail, List.append_assoc, List.singleton_append]

/-- Resolving the text of a path gives the path back. -/
theorem resolve_text {path : FilePath} (h : Normal path) (cwd : List Char) :
    resolve cwd (text path) = path := by
  have hsep : ∀ n ∈ path, '/' ∉ n := fun n hn => (h.legal n hn).2
  have habs : (text path).head? = some '/' := by
    unfold text
    split
    · rfl
    · cases path with
      | nil => rename_i hnil; exact absurd rfl hnil
      | cons n rest => rfl
  unfold resolve
  rw [if_pos habs]
  by_cases hnil : path = []
  · subst hnil
    rfl
  · rw [text, if_neg hnil, splitOn_names hsep, List.foldl_cons]
    exact foldl_normal h

/-! ## Texts within texts -/

/-- The names of a path, each before its separator. -/
def endedNames (path : FilePath) : List Char := path.flatMap fun n => n ++ ['/']

theorem names_append_sep : ∀ path : FilePath, names path ++ ['/'] = '/' :: endedNames path
  | [] => rfl
  | n :: path => by
      have ih := names_append_sep path
      unfold names endedNames at ih ⊢
      rw [List.flatMap_cons, List.flatMap_cons, List.append_assoc, ih]
      simp

theorem endedNames_prefix_iff : ∀ {root path : FilePath}, (∀ n ∈ root, '/' ∉ n) →
    (∀ n ∈ path, '/' ∉ n) → (endedNames root <+: endedNames path ↔ root <+: path)
  | [], _, _, _ => ⟨fun _ => List.nil_prefix, fun _ => List.nil_prefix⟩
  | n :: root, [], _, _ => by
      refine ⟨fun h => ?_, fun h => ?_⟩
      · have hnil := List.prefix_nil.mp h
        simp [endedNames] at hnil
      · exact absurd (List.prefix_nil.mp h) (List.cons_ne_nil n root)
  | n :: root, m :: path, hroot, hpath => by
      have ih : endedNames root <+: endedNames path ↔ root <+: path :=
        endedNames_prefix_iff (fun a ha => hroot a (List.mem_cons_of_mem _ ha))
          fun a ha => hpath a (List.mem_cons_of_mem _ ha)
      have hn := hroot n List.mem_cons_self
      have hm := hpath m List.mem_cons_self
      have hcons : ∀ (a : FileName) (rest : FilePath),
          endedNames (a :: rest) = a ++ '/' :: endedNames rest := by
        intro a rest
        simp [endedNames]
      rw [List.cons_prefix_cons, ← ih, hcons, hcons]
      constructor
      · rintro ⟨tail, htail⟩
        rw [List.append_assoc, List.cons_append] at htail
        obtain ⟨heq, hrest⟩ := (append_cons_inj_of_notMem_left hn hm).mp htail
        exact ⟨heq, tail, hrest⟩
      · rintro ⟨rfl, tail, htail⟩
        exact ⟨tail, by rw [List.append_assoc, List.cons_append, htail]⟩

/-- A path of names is within another as its text is. -/
theorem within_names_iff {path root : FilePath} (hpath : Legal path) (hroot : Legal root) :
    within (names path) (names root) = true ↔ root <+: path := by
  rw [← endedNames_prefix_iff (fun n hn => (hroot n hn).2) fun n hn => (hpath n hn).2]
  have hsplit : within (names path) (names root) = true
      ↔ names root ++ ['/'] <+: names path ++ ['/'] := by
    unfold within
    rw [Bool.or_eq_true, beq_iff_eq, List.isPrefixOf_iff_prefix, List.prefix_concat_iff]
    constructor
    · rintro (heq | hpre)
      · exact .inl (by rw [heq])
      · exact .inr hpre
    · rintro (heq | hpre)
      · exact .inl (List.append_cancel_right heq).symm
      · exact .inr hpre
  rw [hsplit, names_append_sep, names_append_sep, List.cons_prefix_cons]
  exact ⟨fun h => h.2, fun h => ⟨rfl, h⟩⟩

/-- A path is within another one, but only the top of the tree is within the top. -/
theorem within_iff {path root : FilePath} (hpath : Legal path) (hroot : Legal root) :
    within (text path) (text root) = true ↔ root <+: path ∧ (root = [] → path = []) := by
  by_cases hr : root = []
  · subst hr
    cases path with
    | nil => simp [within, text]
    | cons n path =>
        have hne : n ≠ [] := (hpath n List.mem_cons_self).1
        have hsep : '/' ∉ n := (hpath n List.mem_cons_self).2
        obtain ⟨u, n, rfl⟩ := List.exists_cons_of_ne_nil hne
        have hu : '/' ≠ u := fun heq => hsep (heq ▸ List.mem_cons_self)
        simp [within, text, names, List.isPrefixOf, hu]
  · have htext : text root = names root := if_neg hr
    cases path with
    | nil =>
        obtain ⟨n, rest, rfl⟩ := List.exists_cons_of_ne_nil hr
        obtain ⟨u, n, rfl⟩ := List.exists_cons_of_ne_nil (hroot n List.mem_cons_self).1
        simp [within, text, names, List.isPrefixOf]
    | cons n path =>
        have hpathText : text (n :: path) = names (n :: path) := if_neg (List.cons_ne_nil n path)
        rw [htext, hpathText, within_names_iff hpath hroot]
        exact ⟨fun h => ⟨h, fun hnil => absurd hnil hr⟩, fun h => h.1⟩

/-! ## The closest place that exists -/

section Closest

variable {t : FileTree} {links : Nat}

/-- The longest beginning of a path that exists, and its real path. -/
structure Closest (t : FileTree) (links : Nat) (path probe real : FilePath) : Prop where
  above : probe <+: path
  real_eq : t.realpath links probe = some real
  last : ∀ n rest, path = probe ++ n :: rest → t.realpath links (probe ++ [n]) = none

theorem closest_spec : ∀ (fuel : Nat) {path probe : FilePath}, probe.length ≤ fuel →
    probe <+: path →
    (∀ n rest, path = probe ++ n :: rest → t.realpath links (probe ++ [n]) = none) →
    ∃ real, Closest t links path (closest t links fuel probe) real
  | 0, path, probe, hlen, habove, hlast => by
      have hnil : probe = [] := List.length_eq_zero_iff.mp (by omega)
      subst hnil
      exact ⟨[], habove, t.realpath_nil links, hlast⟩
  | fuel + 1, path, probe, hlen, habove, hlast => by
      unfold closest existsSync
      by_cases hnil : probe = []
      · subst hnil
        simp only [BEq.rfl, Bool.or_true, if_true]
        exact ⟨[], habove, t.realpath_nil links, hlast⟩
      · cases hreal : t.realpath links probe with
        | some real => exact ⟨real, habove, hreal, hlast⟩
        | none =>
            have hbeq : (probe == []) = false := beq_eq_false_iff_ne.mpr hnil
            rw [hbeq]
            refine closest_spec fuel ?_ ((List.dropLast_prefix probe).trans habove) ?_
            · rw [List.length_dropLast]
              omega
            · intro n rest hsplit
              -- the next name is the last one of the place that does not exist
              have hprobe : probe.dropLast ++ [n] = probe := by
                obtain ⟨tail, htail⟩ := habove
                obtain ⟨init, m, rfl⟩ := (List.eq_nil_or_concat probe).resolve_left hnil
                rw [List.concat_eq_append, List.dropLast_concat] at hsplit ⊢
                rw [List.concat_eq_append, List.append_assoc] at htail
                have hcons := List.append_cancel_left (htail.trans hsplit)
                rw [(List.cons.inj hcons).1]
              rw [hprobe]
              exact hreal

theorem closest_closest (path : FilePath) :
    ∃ real, Closest t links path (closest t links path.length path) real := by
  refine closest_spec path.length (le_refl _) (List.prefix_refl _) fun n rest h => ?_
  have hlen := congrArg List.length h
  rw [List.length_append, List.length_cons] at hlen
  omega

/-- There is one such place. -/
theorem Closest.eq_of_append {path probe real dir rest place : FilePath} {n : FileName}
    (h : Closest t links path probe real) (hpath : path = dir ++ n :: rest)
    (hdir : t.realpath links dir = some place) (hnext : t.realpath links (dir ++ [n]) = none) :
    dir = probe ∧ place = real := by
  have hsame : dir = probe := by
    have habove : dir <+: path := ⟨n :: rest, hpath.symm⟩
    rcases List.prefix_or_prefix_of_prefix habove h.above with hshort | hlong
    · obtain ⟨tail, rfl⟩ := hshort
      cases tail with
      | nil => exact (List.append_nil dir).symm
      | cons m tail =>
          -- the longer beginning exists, and so does the next name
          obtain ⟨more, hmore⟩ := h.above
          rw [hpath, List.append_assoc] at hmore
          have hm := (List.cons.inj (List.append_cancel_left hmore)).1
          have hexists := h.real_eq
          rw [← List.singleton_append, ← List.append_assoc, hm] at hexists
          obtain ⟨above, habove⟩ := t.realpath_of_append hexists
          rw [habove] at hnext
          cases hnext
    · obtain ⟨tail, rfl⟩ := hlong
      cases tail with
      | nil => exact List.append_nil probe
      | cons m tail =>
          have hnone := h.last m (tail ++ n :: rest) (by rw [hpath, List.append_assoc]; rfl)
          rw [← List.singleton_append, ← List.append_assoc] at hdir
          obtain ⟨above, habove⟩ := t.realpath_of_append hdir
          rw [habove] at hnone
          cases hnone
  subst hsame
  rw [h.real_eq] at hdir
  exact ⟨rfl, (Option.some_inj.mp hdir).symm⟩

theorem Closest.unique {path probe real dir place : FilePath} (h : Closest t links path probe real)
    (h' : Closest t links path dir place) : place = real := by
  obtain ⟨tail', htail'⟩ := h'.above
  cases tail' with
  | cons n rest =>
      exact (h.eq_of_append htail'.symm h'.real_eq (h'.last n rest htail'.symm)).2
  | nil =>
      obtain ⟨tail, htail⟩ := h.above
      cases tail with
      | cons n rest =>
          exact (h'.eq_of_append htail.symm h.real_eq (h.last n rest htail.symm)).2.symm
      | nil =>
          rw [List.append_nil] at htail htail'
          have hsame := h'.real_eq
          rw [htail', ← htail, h.real_eq] at hsame
          exact (Option.some_inj.mp hsame).symm

end Closest

/-! ## What the check sees -/

/-- The check tells what opening a path reaches. -/
def Seen (t : FileTree) (links : Nat) (p cwd : List Char) (root realRoot : FilePath) : Prop :=
  realPathEscapes t links p cwd (text root) = true ↔ Outside t links realRoot (resolve cwd p)

/-- What the check depends on. -/
structure Visible (t : FileTree) (links : Nat) (path root realRoot : FilePath) : Prop where
  /-- A link that leads nowhere leads to the side where it stands. -/
  dangling : ∀ dir n rest place, path = dir ++ n :: rest → t.realpath links dir = some place →
    t.realpath links (dir ++ [n]) = none → t.IsLink (place ++ [n]) →
    (Outside t links realRoot path ↔ ¬ realRoot <+: place)
  /-- A root that leads to the top is where the existing part of the path leads. -/
  top : realRoot = [] → root ≠ [] → ∀ dir place, Closest t links path dir place → place = []

section Seen

variable {t : FileTree} {links : Nat}

theorem legal_realpath {path place : FilePath} (h : t.realpath links path = some place) :
    Legal place := t.legal place (t.nodeAt_realpath h)

/-- What the check compares, for a path that is lexically below its root. -/
theorem realPathEscapes_iff {p cwd : List Char} {root realRoot probe real : FilePath}
    (hin : root <+: resolve cwd p) (hroot : t.realpath links root = some realRoot)
    (hprobe : Closest t links (resolve cwd p) probe real)
    (heq : closest t links (resolve cwd p).length (resolve cwd p) = probe) :
    realPathEscapes t links p cwd (text root) = true
      ↔ (root = [] → resolve cwd p = []) ∧ ¬ (realRoot <+: real ∧ (realRoot = [] → real = [])) := by
  have hnormal := normal_resolve cwd p
  have hnormalRoot := hnormal.of_prefix hin
  have hrealRoot : realRootText t links (text root) = text realRoot := by
    rw [realRootText, resolve_text hnormalRoot, hroot]
  unfold realPathEscapes
  dsimp only
  rw [heq, hprobe.real_eq]
  dsimp only
  rw [hrealRoot, Bool.and_eq_true, Bool.not_eq_true', ← Bool.not_eq_true,
    within_iff hnormal.legal hnormalRoot.legal,
    within_iff (legal_realpath hprobe.real_eq) (legal_realpath hroot)]
  exact ⟨fun h => ⟨h.1.2, h.2⟩, fun h => ⟨⟨hin, h.1⟩, h.2⟩⟩

/-- Without a link behind it, the closest place that exists is on the side of the path. -/
theorem outside_iff_of_not_link {path root realRoot probe real : FilePath}
    (hroot : t.realpath links root = some realRoot) (h : Closest t links path probe real)
    (hlink : ∀ n rest, path = probe ++ n :: rest → ¬ t.IsLink (real ++ [n])) :
    Outside t links realRoot path ↔ ¬ realRoot <+: real := by
  have hplace : ∀ place, (t.follow links path).place = some place →
      (realRoot <+: place ↔ realRoot <+: real) →
      (Outside t links realRoot path ↔ ¬ realRoot <+: real) := by
    intro place hplace hsame
    constructor
    · rintro ⟨place', hplace', hout⟩
      rw [hplace] at hplace'
      rw [← hsame, Option.some_inj.mp hplace']
      exact hout
    · exact fun hout => ⟨place, hplace, fun hin => hout (hsame.mp hin)⟩
  obtain ⟨tail, htail⟩ := h.above
  cases tail with
  | nil =>
      rw [List.append_nil] at htail
      obtain ⟨left, hfound⟩ := t.realpath_eq_some.mp h.real_eq
      refine hplace real ?_ Iff.rfl
      rw [← htail, hfound]
      rfl
  | cons n rest =>
      have hpath : path = probe ++ n :: rest := htail.symm
      rcases t.place_of_stops h.real_eq (h.last n rest hpath) (hlink n rest hpath)
        with hreal | ⟨hmissing, hnone⟩
      · exact hplace real (by rw [hpath]; exact hreal) Iff.rfl
      · refine hplace (real ++ [n]) (by rw [hpath]; exact hmissing) ?_
        rw [List.prefix_concat_iff]
        refine ⟨fun hor => hor.resolve_left fun heq => ?_, .inr⟩
        -- the root exists, and the missing entry does not
        exact t.nodeAt_realpath hroot (heq ▸ hnone)

/-- A root that leads to the top: nothing is outside, and the check wants the top itself. -/
theorem seen_top_iff {p cwd : List Char} {root probe real : FilePath}
    (hprobe : Closest t links (resolve cwd p) probe real)
    (hcheck : realPathEscapes t links p cwd (text root) = true
      ↔ (root = [] → resolve cwd p = []) ∧ ¬ ([] <+: real ∧ (([] : FilePath) = [] → real = []))) :
    Seen t links p cwd root [] ↔ Visible t links (resolve cwd p) root [] := by
  have hnot : ¬ Outside t links [] (resolve cwd p) := by
    rintro ⟨place, _, hout⟩
    exact hout List.nil_prefix
  unfold Seen
  rw [hcheck]
  constructor
  · intro h
    refine ⟨fun dir n rest place _ _ _ _ => ?_, fun _ hne dir place hclosest => ?_⟩
    · exact ⟨fun hout => absurd hout hnot, fun hout => absurd List.nil_prefix hout⟩
    · by_contra hplace
      rw [hprobe.unique hclosest] at hplace
      exact hnot (h.mp ⟨fun hnil => absurd hnil hne, fun hin => hplace (hin.2 rfl)⟩)
  · intro h
    refine ⟨fun hesc => absurd ⟨List.nil_prefix, fun _ => ?_⟩ hesc.2, fun hout => absurd hout hnot⟩
    by_cases hroot : root = []
    · -- the top of the tree is the only path that is below it
      have hnil : probe = [] := List.prefix_nil.mp (hesc.1 hroot ▸ hprobe.above)
      have hexists := hprobe.real_eq
      rw [hnil, t.realpath_nil] at hexists
      exact (Option.some_inj.mp hexists).symm
    · exact h.top rfl hroot probe real hprobe

end Seen

/-! ## A workspace with a link to a file that does not exist -/

def entryAt (entries : List (FilePath × LinkNode FileName)) (path : FilePath) :
    Option (LinkNode FileName) :=
  if path = [] then some .directory else entries.lookup path

def name (s : String) : FileName := s.toList

def wellFormed (entries : List (FilePath × LinkNode FileName)) : Bool :=
  entries.all fun e => (entryAt entries e.1.dropLast == some .directory)
    && e.1.all fun n => n != [] && !n.contains '/'

theorem mem_of_lookup {path : FilePath} {node : LinkNode FileName} :
    ∀ {entries : List (FilePath × LinkNode FileName)}, entries.lookup path = some node →
      (path, node) ∈ entries
  | [], h => by cases h
  | (k, v) :: rest, h => by
      rw [List.lookup_cons] at h
      split at h
      · rename_i heq
        rw [Option.some_inj.mp h, eq_of_beq heq]
        exact List.mem_cons_self
      · exact List.mem_cons_of_mem _ (mem_of_lookup h)

/-- A tree with these entries. -/
def FileTree.ofEntries (entries : List (FilePath × LinkNode FileName))
    (h : wellFormed entries = true) : FileTree where
  nodeAt := entryAt entries
  root := if_pos rfl
  parent := by
    intro path n hsome
    obtain ⟨node, hnode⟩ := Option.ne_none_iff_exists'.mp hsome
    rw [entryAt, if_neg (by simp)] at hnode
    have hentry := List.all_eq_true.mp h _ (mem_of_lookup hnode)
    rw [Bool.and_eq_true, List.dropLast_concat] at hentry
    exact eq_of_beq hentry.1
  legal := by
    intro path hsome n hn
    obtain ⟨node, hnode⟩ := Option.ne_none_iff_exists'.mp hsome
    rw [entryAt, if_neg (List.ne_nil_of_mem hn)] at hnode
    have hentry := List.all_eq_true.mp h _ (mem_of_lookup hnode)
    rw [Bool.and_eq_true] at hentry
    have hname := List.all_eq_true.mp hentry.2 n hn
    simpa using hname

/-- A workspace with a directory, and a link to a file that another directory could have. -/
def workspace : FileTree :=
  FileTree.ofEntries
    [ ([name "ws"], .directory), ([name "etc"], .directory),
      ([name "ws", name "src"], .directory),
      ([name "ws", name "link"], .link ⟨true, [.name (name "etc"), .name (name "new")]⟩) ]
    (by decide)

/-- How many links are followed for one path. -/
def maxLinks : Nat := 40

end RealPath

end Agenomic.Connector
