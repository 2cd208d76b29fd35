import Agenomic.Bundle.Archive
import Agenomic.Lib.Keyed

/-!
# Extracting what was walked

The relative path of a walked file gives back its names (`components_posixRelative`), and
no walked file is above another. So the files of a bundle can be written below an empty
directory one after the other, and nothing but them and the directories above them stands
there then (**`extractPairs_ok`**). Walked again, that directory has the same files
(**`walkBundle_extracted`**): what the ignore file left out is not there any more, and an
ignore file that left out itself is not there either.
-/

namespace Agenomic.Bundle

open Lib
open Agenomic.Fs (Entries Path Node Tree WalkEntry LegalName nodeAt posixRelative)

/-! ## Paths as texts -/

/-- The names of a path that are texts. -/
theorem mapM_utf8Decode : ∀ {path : Path} {names : List (List Char)},
    path.mapM utf8Decode = some names ↔ path = names.map utf8Encode
  | [], names => by
      rw [List.mapM_nil]
      constructor
      · intro h
        cases h
        rfl
      · intro h
        rw [List.map_eq_nil_iff.mp h.symm]
        rfl
  | n :: path, names => by
      rw [List.mapM_cons]
      constructor
      · intro h
        obtain ⟨cs, hcs, h⟩ := Option.bind_eq_some_iff.mp h
        obtain ⟨rest, hrest, h⟩ := Option.bind_eq_some_iff.mp h
        cases h
        rw [List.map_cons, utf8Encode_of_utf8Decode hcs, ← mapM_utf8Decode.mp hrest]
      · intro h
        cases names with
        | nil => cases h
        | cons cs rest =>
            obtain ⟨rfl, hrest⟩ := List.cons.inj h
            rw [utf8Decode_utf8Encode, mapM_utf8Decode.mpr hrest]
            rfl

theorem posixRelative_eq_ok_iff {path : Path} {rel : String} : posixRelative path = .ok rel
    ↔ ∃ names : List (List Char), path = names.map utf8Encode
      ∧ rel = String.ofList (List.intercalate ['/'] names) := by
  unfold posixRelative
  cases h : path.mapM utf8Decode with
  | none =>
      constructor
      · intro hrel
        cases hrel
      · rintro ⟨names, hpath, -⟩
        rw [mapM_utf8Decode.mpr hpath] at h
        cases h
  | some names =>
      constructor
      · intro hrel
        cases hrel
        exact ⟨names, mapM_utf8Decode.mp h, rfl⟩
      · rintro ⟨names', hpath, rfl⟩
        rw [mapM_utf8Decode.mpr hpath] at h
        cases h
        rfl

/-- What a legal name is as a text. -/
theorem LegalName.text {cs : List Char} (h : LegalName (utf8Encode cs)) :
    cs ≠ [] ∧ '/' ∉ cs ∧ cs ≠ ['.'] ∧ cs ≠ ['.', '.'] := by
  refine ⟨?_, ?_, ?_, ?_⟩
  · rintro rfl
    exact h.nonempty rfl
  · intro hmem
    exact h.slash (List.mem_flatMap.mpr ⟨'/', hmem, by decide⟩)
  · rintro rfl
    exact h.dot rfl
  · rintro rfl
    exact h.dotdot rfl

/-- A path of legal names. -/
def LegalPath (path : Path) : Prop := path ≠ [] ∧ ∀ n ∈ path, LegalName n

/-- The names of a relative path are found between its slashes. -/
theorem splitOn_posixRelative {path : Path} (hlegal : LegalPath path) {names : List (List Char)}
    (hpath : path = names.map utf8Encode) :
    (String.ofList (List.intercalate ['/'] names)).toList.splitOn '/' = names := by
  have hne : names ≠ [] := by
    rintro rfl
    exact hlegal.1 hpath
  rw [String.toList_ofList]
  refine List.splitOn_intercalate '/' (fun cs hcs => ?_) hne
  refine (LegalName.text (hlegal.2 (utf8Encode cs) ?_)).2.1
  rw [hpath]
  exact List.mem_map_of_mem hcs

/-- **A relative path gives back the names it was made of.** -/
theorem components_posixRelative {path : Path} (hlegal : LegalPath path) {rel : String}
    (h : posixRelative path = .ok rel) : components rel = path := by
  obtain ⟨names, hpath, rfl⟩ := posixRelative_eq_ok_iff.mp h
  unfold components
  rw [splitOn_posixRelative hlegal hpath, hpath, List.filter_eq_self.mpr]
  intro cs hcs
  have htext := LegalName.text (hlegal.2 (utf8Encode cs) (hpath ▸ List.mem_map_of_mem hcs))
  rw [Bool.and_eq_true, decide_eq_true_eq, decide_eq_true_eq]
  exact ⟨htext.1, htext.2.2.1⟩

theorem hasParentDir_posixRelative {path : Path} (hlegal : LegalPath path) {rel : String}
    (h : posixRelative path = .ok rel) : hasParentDir rel = false := by
  obtain ⟨names, hpath, rfl⟩ := posixRelative_eq_ok_iff.mp h
  unfold hasParentDir
  rw [splitOn_posixRelative hlegal hpath, Bool.eq_false_iff]
  intro hcontains
  have hmem := List.contains_iff_mem.mp hcontains
  exact (LegalName.text (hlegal.2 _ (hpath ▸ List.mem_map_of_mem hmem))).2.2.2 rfl

theorem isAbsolute_posixRelative {path : Path} (hlegal : LegalPath path) {rel : String}
    (h : posixRelative path = .ok rel) : isAbsolute rel = false := by
  obtain ⟨names, hpath, rfl⟩ := posixRelative_eq_ok_iff.mp h
  unfold isAbsolute
  rw [String.toList_ofList]
  cases names with
  | nil => exact absurd hpath hlegal.1
  | cons cs rest =>
      have htext := LegalName.text (hlegal.2 (utf8Encode cs) (hpath ▸ List.mem_cons_self))
      cases cs with
      | nil => exact absurd rfl htext.1
      | cons ch cs =>
          have hhead : (List.intercalate ['/'] ((ch :: cs) :: rest)).head? = some ch := by
            cases rest <;> rfl
          rw [hhead]
          refine decide_eq_false fun heq => ?_
          exact htext.2.1 (Option.some.inj heq ▸ List.mem_cons_self)

/-! ## What stands at a path -/

theorem mem_of_nodeAt {entries : Entries} {path : Path} {node : Node}
    (h : nodeAt entries path = some node) : (path, node) ∈ entries := by
  unfold nodeAt at h
  obtain ⟨⟨q, n⟩, hfind, rfl⟩ := Option.map_eq_some_iff.mp h
  have hq := List.find?_some hfind
  rw [← beq_iff_eq.mp hq]
  exact List.mem_of_find?_eq_some hfind

theorem nodeAt_of_mem {entries : Entries} (hnodup : (entries.map Prod.fst).Nodup) {path : Path}
    {node : Node} (h : (path, node) ∈ entries) : nodeAt entries path = some node := by
  unfold nodeAt
  rw [(find?_key_iff hnodup).mpr ⟨h, rfl⟩]
  rfl

/-! ## Extracting -/

/-- A regular file among some entries. -/
def fileOf (e : Path × Node) : Option (Path × Bytes) :=
  match e.2 with
  | .file content => some (e.1, content)
  | .directory => none

/-- The files that some pairs stand for. -/
def filesOf (pairs : List (String × Bytes)) : List (Path × Bytes) :=
  pairs.map fun p => (components p.1, p.2)

/-- Files that can stand below one directory: no two at one path, and none above another. -/
structure Separate (files : List (Path × Bytes)) : Prop where
  nodup : (files.map Prod.fst).Nodup
  above : ∀ f ∈ files, ∀ f' ∈ files, f.1 <+: f'.1 → f.1 = f'.1

/-- A path above one of some files. -/
def Above (files : List (Path × Bytes)) (q : Path) : Prop :=
  q ≠ [] ∧ ∃ f ∈ files, q <+: f.1 ∧ q ≠ f.1

/-- Some of the files are there, and directories above any of them. -/
structure Extracted (files done : List (Path × Bytes)) (entries : Entries) : Prop where
  written : entries.filterMap fileOf = done
  directories : ∀ q, (q, Node.directory) ∈ entries → Above files q

variable {files done : List (Path × Bytes)} {entries : Entries}

theorem Extracted.mem_done (h : Extracted files done entries) {q : Path} {content : Bytes}
    (hmem : (q, Node.file content) ∈ entries) : (q, content) ∈ done := by
  rw [← h.written, List.mem_filterMap]
  exact ⟨_, hmem, rfl⟩

theorem filterMap_fileOf_append (entries : Entries) (e : Path × Node) :
    (entries ++ [e]).filterMap fileOf = entries.filterMap fileOf ++ (fileOf e).toList := by
  rw [List.filterMap_append, List.filterMap_cons, List.filterMap_nil]
  cases fileOf e <;> rfl

/-- A directory above a file is there, or can be made. -/
theorem createDir_ok (hsep : Separate files) (hdone : ∀ f ∈ done, f ∈ files)
    (h : Extracted files done entries) {q : Path} (hq : Above files q) :
    ∃ entries', createDir q entries = .ok entries' ∧ Extracted files done entries' := by
  unfold createDir
  cases hat : nodeAt entries q with
  | none =>
      refine ⟨_, rfl, ?_, fun q' hq' => ?_⟩
      · rw [filterMap_fileOf_append, h.written]
        exact List.append_nil done
      · rcases List.mem_append.mp hq' with hold | hnew
        · exact h.directories q' hold
        · cases List.mem_singleton.mp hnew
          exact hq
  | some node =>
      cases node with
      | directory => exact ⟨entries, rfl, h⟩
      | file content =>
          obtain ⟨-, f, hf, hprefix, hne⟩ := hq
          have hmem := hdone _ (h.mem_done (mem_of_nodeAt hat))
          exact absurd (hsep.above _ hmem f hf hprefix) hne

theorem createDirs_ok (hsep : Separate files) (hdone : ∀ f ∈ done, f ∈ files) :
    ∀ {qs : List Path} {entries : Entries}, Extracted files done entries →
      (∀ q ∈ qs, Above files q) →
      ∃ entries', createDirs qs entries = .ok entries' ∧ Extracted files done entries'
  | [], entries, h, _ => ⟨entries, rfl, h⟩
  | q :: qs, entries, h, hqs => by
      obtain ⟨entries₁, hfirst, h₁⟩ := createDir_ok hsep hdone h (hqs q List.mem_cons_self)
      obtain ⟨entries₂, hrest, h₂⟩ := createDirs_ok hsep hdone h₁
        fun q' hq' => hqs q' (List.mem_cons_of_mem q hq')
      refine ⟨entries₂, ?_, h₂⟩
      unfold createDirs
      rw [hfirst]
      exact hrest

/-- The directories above a path. -/
theorem above_of_mem_inits {f : Path × Bytes} (hf : f ∈ files) {q : Path}
    (hq : q ∈ f.1.dropLast.inits.tail) (hne : f.1 ≠ []) : Above files q := by
  have hprefix : q <+: f.1.dropLast := (List.mem_inits q _).mp (List.mem_of_mem_tail hq)
  refine ⟨?_, f, hf, hprefix.trans (List.dropLast_prefix f.1), ?_⟩
  · rintro rfl
    -- the empty path is only the first of the beginnings
    cases hl : f.1.dropLast with
    | nil =>
        rw [hl] at hq
        exact List.not_mem_nil hq
    | cons a l =>
        rw [hl, List.inits_cons, List.tail_cons] at hq
        obtain ⟨l', -, h⟩ := List.mem_map.mp hq
        cases h
  · rintro rfl
    have hle := hprefix.length_le
    rw [List.length_dropLast] at hle
    have hpos := List.length_pos_of_ne_nil hne
    omega

/-- A file that is not there yet can be written. -/
theorem writeAtomic_ok (hsep : Separate files) (h : Extracted files done entries)
    {f : Path × Bytes} (hf : f ∈ files) (hnew : f.1 ∉ done.map Prod.fst) :
    ∃ entries', writeAtomic f.1 f.2 entries = .ok entries'
      ∧ Extracted files (done ++ [f]) entries' := by
  unfold writeAtomic
  cases hat : nodeAt entries f.1 with
  | none =>
      refine ⟨_, rfl, ?_, fun q hq => ?_⟩
      · rw [filterMap_fileOf_append, h.written]
        rfl
      · rcases List.mem_append.mp hq with hold | hfile
        · exact h.directories q hold
        · cases List.mem_singleton.mp hfile
  | some node =>
      cases node with
      | directory =>
          obtain ⟨-, f', hf', hprefix, hne⟩ := h.directories _ (mem_of_nodeAt hat)
          exact absurd (hsep.above f hf f' hf' hprefix) hne
      | file content =>
          have hmem := h.mem_done (mem_of_nodeAt hat)
          exact absurd (List.mem_map.mpr ⟨_, hmem, rfl⟩) hnew

/-- A relative path that can be extracted. -/
structure Plain (rel : String) : Prop where
  parent : hasParentDir rel = false
  relative : isAbsolute rel = false
  nonempty : components rel ≠ []

/-- **Extracting**: files that can stand below one directory are written there. -/
theorem extractPairs_ok (hsep : Separate files) :
    ∀ {pairs : List (String × Bytes)} {done : List (Path × Bytes)} {entries : Entries},
      (∀ p ∈ pairs, Plain p.1) → done ++ filesOf pairs = files → Extracted files done entries →
      ∃ entries', extractPairs pairs entries = .ok entries' ∧ Extracted files files entries'
  | [], done, entries, _, hall, h => by
      unfold filesOf at hall
      rw [List.map_nil, List.append_nil] at hall
      rw [hall] at h
      exact ⟨entries, rfl, h⟩
  | (rel, content) :: rest, done, entries, hplain, hall, h => by
      have hrel := hplain (rel, content) List.mem_cons_self
      have hcons : filesOf ((rel, content) :: rest) = (components rel, content) :: filesOf rest := rfl
      rw [hcons] at hall
      have hmem : (components rel, content) ∈ files := by
        rw [← hall]
        exact List.mem_append_right done List.mem_cons_self
      have hdone : ∀ f ∈ done, f ∈ files := by
        intro f hf
        rw [← hall]
        exact List.mem_append_left _ hf
      have hnew : components rel ∉ done.map Prod.fst := by
        intro hold
        have hnodup := hsep.nodup
        rw [← hall, List.map_append, List.map_cons] at hnodup
        exact (List.disjoint_of_nodup_append hnodup) hold List.mem_cons_self
      obtain ⟨entries₁, hdirs, h₁⟩ := createDirs_ok hsep hdone h fun q hq =>
        above_of_mem_inits hmem hq hrel.nonempty
      obtain ⟨entries₂, hwrite, h₂⟩ := writeAtomic_ok hsep h₁ hmem hnew
      obtain ⟨entries₃, hrest, h₃⟩ := extractPairs_ok hsep
        (fun p hp => hplain p (List.mem_cons_of_mem _ hp))
        (by rw [List.append_assoc]; exact hall) h₂
      refine ⟨entries₃, ?_, h₃⟩
      unfold extractPairs
      rw [if_neg (by rw [hrel.parent]; exact Bool.false_ne_true),
        if_neg (by rw [hrel.relative]; exact Bool.false_ne_true)]
      unfold createDirAll
      rw [hdirs]
      simp only [bind, Except.bind]
      rw [hwrite]
      exact hrest

/-! ## What was walked -/

variable {x : External}

/-- A walked file as a pair. -/
def toPair (e : WalkEntry) : String × Bytes := (e.relativePath, e.content)

theorem walkedPairs_eq_ok_iff {entries : Entries} {pairs : List (String × Bytes)} :
    walkedPairs x entries = .ok pairs ↔ ∃ ignore, Fs.loadIgnore x.glob entries = .ok ignore
      ∧ (∀ e ∈ entries, Fs.Accepted {} ignore e)
      ∧ pairs = ((entries.filterMap (Fs.foundAt {} ignore)).insertionSort Fs.byPath).map toPair := by
  unfold walkedPairs Fs.walkBundle
  rw [if_pos rfl, bind_eq_ok]
  constructor
  · rintro ⟨found, h, hpairs⟩
    rw [bind_eq_ok] at h
    obtain ⟨ignore, hignore, h⟩ := h
    rw [bind_eq_ok] at h
    obtain ⟨unsorted, hwalk, h⟩ := h
    cases h
    cases hpairs
    obtain ⟨haccepted, rfl⟩ := Fs.walkEntries_eq_ok_iff.mp hwalk
    exact ⟨ignore, hignore, haccepted, rfl⟩
  · rintro ⟨ignore, hignore, haccepted, rfl⟩
    refine ⟨_, ?_, rfl⟩
    rw [hignore]
    simp only [bind, Except.bind]
    rw [Fs.walkEntries_eq_ok_iff.mpr ⟨haccepted, rfl⟩]

/-- Where a walked file comes from. -/
structure Walked (ignore : Option (Fs.IgnoreFile x.glob)) (entries : Entries)
    (p : String × Bytes) (path : Path) : Prop where
  mem : (path, Node.file p.2) ∈ entries
  rel : posixRelative path = .ok p.1
  kept : Fs.excluded x.glob {} ignore p.1 = false

theorem mem_foundAt {ignore : Option (Fs.IgnoreFile x.glob)} {entries : Entries}
    {p : String × Bytes} (h : p ∈ ((entries.filterMap (Fs.foundAt {} ignore)).insertionSort
      Fs.byPath).map toPair) : ∃ path, Walked ignore entries p path := by
  obtain ⟨w, hw, rfl⟩ := List.mem_map.mp h
  rw [List.mem_insertionSort, List.mem_filterMap] at hw
  obtain ⟨⟨path, node⟩, hmem, hfound⟩ := hw
  unfold Fs.foundAt at hfound
  dsimp only at hfound
  cases hrel : posixRelative path with
  | error e =>
      rw [hrel] at hfound
      cases hfound
  | ok rel =>
      rw [hrel] at hfound
      cases node with
      | directory => cases hfound
      | file content =>
          dsimp only at hfound
          by_cases hexcluded : Fs.excluded x.glob {} ignore rel = true
          · rw [if_pos hexcluded] at hfound
            cases hfound
          · rw [if_neg hexcluded] at hfound
            cases hfound
            exact ⟨path, hmem, hrel, Bool.eq_false_iff.mpr hexcluded⟩

theorem legalPath (t : Tree) {e : Path × Node} (he : e ∈ t.entries) : LegalPath e.1 :=
  ⟨t.nonempty e he, t.legal e he⟩

/-- A tree whose walk is known. -/
structure IsWalk (x : External) (t : Tree) (ignore : Option (Fs.IgnoreFile x.glob))
    (pairs : List (String × Bytes)) : Prop where
  loaded : Fs.loadIgnore x.glob t.entries = .ok ignore
  accepted : ∀ e ∈ t.entries, Fs.Accepted {} ignore e
  walked : ∀ p ∈ pairs, ∃ path, Walked ignore t.entries p path
  /-- The paths increase. -/
  sorted : pairs.Pairwise fun p q => p.1 < q.1

namespace IsWalk

variable {t : Tree} {ignore : Option (Fs.IgnoreFile x.glob)} {pairs : List (String × Bytes)}

/-- The components of a walked path lead to the file. -/
theorem mem_components (h : IsWalk x t ignore pairs) {p : String × Bytes} (hp : p ∈ pairs) :
    Walked ignore t.entries p (components p.1) := by
  obtain ⟨path, hwalked⟩ := h.walked p hp
  rw [components_posixRelative (legalPath t hwalked.mem) hwalked.rel]
  exact hwalked

theorem plain (h : IsWalk x t ignore pairs) : ∀ p ∈ pairs, Plain p.1 := by
  intro p hp
  have hwalked := h.mem_components hp
  have hlegal := legalPath t hwalked.mem
  exact ⟨hasParentDir_posixRelative hlegal hwalked.rel,
    isAbsolute_posixRelative hlegal hwalked.rel, hlegal.1⟩

/-- No two walked files are at one path, and none is above another. -/
theorem separate (h : IsWalk x t ignore pairs) : Separate (filesOf pairs) where
  nodup := by
    unfold filesOf
    rw [List.map_map, List.nodup_iff_pairwise_ne, List.pairwise_map]
    refine h.sorted.imp_of_mem fun {p q} hp hq hlt heq => ?_
    have hrel := (h.mem_components hp).rel
    rw [show components p.1 = components q.1 from heq, (h.mem_components hq).rel] at hrel
    exact absurd (Except.ok.inj hrel) hlt.ne'
  above := by
    intro f hf f' hf' hprefix
    obtain ⟨p, hp, rfl⟩ := List.mem_map.mp hf
    obtain ⟨p', hp', rfl⟩ := List.mem_map.mp hf'
    by_contra hne
    have hfile := (h.mem_components hp).mem
    have hdir := t.parents _ (h.mem_components hp').mem _ (legalPath t hfile).1 hprefix hne
    have heq := List.inj_on_of_nodup_map t.nodup hfile hdir rfl
    cases (Prod.mk.inj heq).2

/-- Above a walked file there are directories only. -/
theorem directory_of_above (h : IsWalk x t ignore pairs) {q : Path}
    (hq : Above (filesOf pairs) q) : (q, Node.directory) ∈ t.entries := by
  obtain ⟨hne, f, hf, hprefix, hproper⟩ := hq
  obtain ⟨p, hp, rfl⟩ := List.mem_map.mp hf
  exact t.parents _ (h.mem_components hp).mem q hne hprefix hproper

/-- What was extracted has the ignore file of the tree, or none. -/
theorem loadIgnore_extracted (h : IsWalk x t ignore pairs) {entries : Entries}
    (he : Extracted (filesOf pairs) (filesOf pairs) entries) :
    Fs.loadIgnore x.glob entries = .ok ignore ∨ Fs.loadIgnore x.glob entries = .ok none := by
  cases hat : nodeAt entries Fs.ignorePath with
  | none =>
      right
      unfold Fs.loadIgnore
      rw [hat]
  | some node =>
      left
      have hsame : nodeAt t.entries Fs.ignorePath = some node := by
        refine nodeAt_of_mem t.nodup ?_
        cases node with
        | directory => exact h.directory_of_above (he.directories _ (mem_of_nodeAt hat))
        | file content =>
            obtain ⟨p, hp, heq⟩ := List.mem_map.mp (he.mem_done (mem_of_nodeAt hat))
            obtain ⟨hpath, rfl⟩ := Prod.mk.inj heq
            rw [← hpath]
            exact (h.mem_components hp).mem
      have hload := h.loaded
      unfold Fs.loadIgnore at hload ⊢
      rw [hsame] at hload
      rw [hat]
      exact hload

/-- **Walked again**, what was extracted has the same files. -/
theorem walkedPairs_extracted (h : IsWalk x t ignore pairs) {entries : Entries}
    (he : Extracted (filesOf pairs) (filesOf pairs) entries) :
    walkedPairs x entries = .ok pairs := by
  obtain ⟨ignore', hload, hkept⟩ : ∃ ignore', Fs.loadIgnore x.glob entries = .ok ignore'
      ∧ ∀ p ∈ pairs, Fs.excluded x.glob {} ignore' p.1 = false := by
    rcases h.loadIgnore_extracted he with hload | hload
    · exact ⟨ignore, hload, fun p hp => (h.mem_components hp).kept⟩
    · refine ⟨none, hload, fun p hp => ?_⟩
      have hkept := (h.mem_components hp).kept
      unfold Fs.excluded at hkept ⊢
      rw [Bool.or_eq_false_iff] at hkept
      rw [hkept.1]
      rfl
  have hfound : ∀ p ∈ pairs, Fs.foundAt {} ignore' (components p.1, Node.file p.2)
      = some ⟨p.1, p.2⟩ := by
    intro p hp
    unfold Fs.foundAt
    rw [(h.mem_components hp).rel]
    dsimp only
    rw [if_neg]
    rw [hkept p hp]
    exact Bool.false_ne_true
  have hall : entries.filterMap (Fs.foundAt {} ignore') = pairs.map fun p => ⟨p.1, p.2⟩ := by
    have hnode : Fs.foundAt {} ignore'
        = fun e => (fileOf e).bind fun f => Fs.foundAt {} ignore' (f.1, Node.file f.2) := by
      funext e
      obtain ⟨path, node⟩ := e
      cases node with
      | directory =>
          unfold Fs.foundAt
          cases posixRelative path <;> rfl
      | file content => rfl
    rw [hnode, ← List.filterMap_filterMap, he.written]
    unfold filesOf
    rw [List.filterMap_map, ← List.filterMap_eq_map]
    exact List.filterMap_congr fun p hp => hfound p hp
  refine walkedPairs_eq_ok_iff.mpr ⟨ignore', hload, fun e hmem => ?_, ?_⟩
  · obtain ⟨path, node⟩ := e
    have hin : (path, node) ∈ t.entries := by
      cases node with
      | directory => exact h.directory_of_above (he.directories _ hmem)
      | file content =>
          obtain ⟨p, hp, heq⟩ := List.mem_map.mp (he.mem_done hmem)
          obtain ⟨hpath, rfl⟩ := Prod.mk.inj heq
          rw [← hpath]
          exact (h.mem_components hp).mem
    obtain ⟨rel, hrel, hparent, hsize⟩ := h.accepted _ hin
    refine ⟨rel, hrel, hparent, fun _ content hfile => ?_⟩
    obtain rfl : node = .file content := hfile
    obtain ⟨p, hp, heq⟩ := List.mem_map.mp (he.mem_done hmem)
    obtain ⟨hpath, hcontent⟩ := Prod.mk.inj heq
    have hwalked := h.mem_components hp
    refine hsize ?_ content rfl
    rw [show path = components p.1 from hpath.symm, hwalked.rel] at hrel
    cases hrel
    exact hwalked.kept
  · have hsorted : (pairs.map fun p => (⟨p.1, p.2⟩ : WalkEntry)).Pairwise Fs.byPath :=
      List.pairwise_map.mpr (h.sorted.imp fun hlt => hlt.le)
    rw [hall, hsorted.insertionSort_eq, List.map_map]
    exact (List.map_id pairs).symm

end IsWalk

end Agenomic.Bundle
