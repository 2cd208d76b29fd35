import Agenomic.Bundle.Excluded

/-!
# What is below an ignored directory

A line of the ignore file is matched against the path of a file: against the whole path,
against the last name when the line has no slash inside, and against the beginnings of the
path in front of its slashes when the line has no slash inside or ends with one. The walk
asks for each file by itself, and nothing is remembered of a directory that was matched.

**`matchesPath_below`**: a path below a directory is matched exactly when a line carries
over from the directory or matches the path in its own right. A line that matches only
the last name of a directory, or has a slash inside and none at its end, does not carry
over.
-/

namespace Agenomic.Bundle.Ignored

open Lib
open Agenomic.Fs (Glob Path IgnoreFile WalkEntry excluded matchesAny segments trimEndSlashes
  posixRelative)
open Agenomic.Fs.IgnoreFile (beforeSlashes matchesLine matchesPath)
open Agenomic.Fs.Links (FileType Tree readIgnore walkBundle walkEntry walkEntries)

variable {g : Glob}

/-- The second path is below the first. -/
def Below (dir rel : String) : Prop := dir.toList ++ ['/'] <+: rel.toList

instance (dir rel : String) : Decidable (Below dir rel) :=
  inferInstanceAs (Decidable (_ <+: _))

/-! ## Lines -/

/-- The line holds for what is below the directories it matches. -/
def forDirectories (line : g.Pattern × String) : Bool :=
  line.2.toList.getLast? == some '/' || !(trimEndSlashes line.2.toList).contains '/'

/-- The line matches the whole path of the directory, or of one above it, and holds for
what is below. -/
def carried (dir : String) (line : g.Pattern × String) : Bool :=
  forDirectories line && (dir :: beforeSlashes dir).any (g.matchesText line.1)

/-- The line matches the whole path, or its last name. -/
def ownName (rel : String) (line : g.Pattern × String) : Bool :=
  g.matchesText line.1 rel
    || (!(trimEndSlashes line.2.toList).contains '/'
      && ((segments rel).getLast?.map (g.matchesText line.1)).getD false)

/-- The line matches a path below the directory without regard to the directory: the whole
path, its last name, or a directory further down. -/
def ownMatch (dir rel : String) (line : g.Pattern × String) : Bool :=
  ownName rel line
    || (forDirectories line
      && ((beforeSlashes rel).filter fun q => dir.length < q.length).any (g.matchesText line.1))

/-- The beginnings of a path in front of a slash. -/
theorem mem_beforeSlashes {rel q : String} :
    q ∈ beforeSlashes rel ↔ ∃ rest, rel.toList = q.toList ++ '/' :: rest := by
  unfold beforeSlashes
  rw [List.mem_map]
  constructor
  · intro ⟨i, hi, hq⟩
    rw [List.mem_filter, decide_eq_true_eq] at hi
    obtain ⟨hlt, hslash⟩ := List.getElem?_eq_some_iff.mp hi.2
    refine ⟨rel.toList.drop (i + 1), ?_⟩
    rw [← hq, String.toList_ofList, ← hslash, List.cons_getElem_drop_succ,
      List.take_append_drop]
  · intro ⟨rest, hrest⟩
    refine ⟨q.toList.length, List.mem_filter.mpr ⟨?_, ?_⟩, ?_⟩
    · rw [List.mem_range, ← String.length_toList, hrest, List.length_append, List.length_cons]
      omega
    · rw [hrest, decide_eq_true_eq, List.getElem?_append_right (Nat.le_refl _), Nat.sub_self]
      rfl
    · rw [hrest, List.take_left, String.ofList_toList]

/-- What stands in front of the slashes of a path below a directory: what does in that of
the directory, the directory, and what leads from there to the path. -/
theorem mem_beforeSlashes_below {dir rel q : String} (h : Below dir rel) :
    q ∈ beforeSlashes rel
      ↔ q ∈ dir :: beforeSlashes dir ∨ (q ∈ beforeSlashes rel ∧ dir.length < q.length) := by
  obtain ⟨rest, hrest⟩ := h
  rw [List.append_assoc, List.singleton_append] at hrest
  rw [List.mem_cons, mem_beforeSlashes, mem_beforeSlashes]
  constructor
  · intro ⟨more, hmore⟩
    rw [← hrest] at hmore
    rcases List.append_eq_append_iff.mp hmore with ⟨as, hq, has⟩ | ⟨bs, hdir, hbs⟩
    · -- the directory is a beginning of `q`
      cases as with
      | nil =>
          rw [List.append_nil] at hq
          exact .inl (.inl (String.toList_injective hq))
      | cons c cs =>
          refine .inr ⟨⟨more, hrest.symm.trans hmore⟩, ?_⟩
          rw [← String.length_toList, ← String.length_toList, hq, List.length_append,
            List.length_cons]
          omega
    · cases bs with
      | nil =>
          rw [List.append_nil] at hdir
          exact .inl (.inl (String.toList_injective hdir.symm))
      | cons c cs =>
          obtain ⟨hc, -⟩ := List.cons.inj hbs
          rw [← hc] at hdir
          exact .inl (.inr ⟨cs, hdir⟩)
  · rintro ((hq | ⟨more, hmore⟩) | ⟨hmem, -⟩)
    · rw [hq]
      exact ⟨rest, hrest.symm⟩
    · refine ⟨more ++ '/' :: rest, ?_⟩
      rw [← hrest, hmore, List.append_assoc, List.cons_append]
    · exact hmem

theorem matchesLine_below {dir rel : String} (h : Below dir rel) (line : g.Pattern × String) :
    matchesLine rel line = true ↔ carried dir line = true ∨ ownMatch dir rel line = true := by
  have hslashes : (beforeSlashes rel).any (g.matchesText line.1) = true
      ↔ (dir :: beforeSlashes dir).any (g.matchesText line.1) = true
        ∨ ((beforeSlashes rel).filter fun q => dir.length < q.length).any
            (g.matchesText line.1) = true := by
    rw [List.any_eq_true, List.any_eq_true, List.any_eq_true]
    constructor
    · intro ⟨q, hq, hmatch⟩
      rcases (mem_beforeSlashes_below h).mp hq with hq | ⟨hq, hlt⟩
      · exact .inl ⟨q, hq, hmatch⟩
      · exact .inr ⟨q, List.mem_filter.mpr ⟨hq, decide_eq_true hlt⟩, hmatch⟩
    · rintro (⟨q, hq, hmatch⟩ | ⟨q, hq, hmatch⟩)
      · exact ⟨q, (mem_beforeSlashes_below h).mpr (.inl hq), hmatch⟩
      · exact ⟨q, (List.mem_filter.mp hq).1, hmatch⟩
  have hline : matchesLine rel line
      = (ownName rel line || (forDirectories line
        && (beforeSlashes rel).any (g.matchesText line.1))) := rfl
  unfold carried ownMatch
  rw [hline, Bool.or_eq_true, Bool.or_eq_true, Bool.and_eq_true, Bool.and_eq_true,
    Bool.and_eq_true, hslashes, and_or_left]
  exact or_left_comm

/-- A path below a directory is ignored when a line carries over from the directory, or
for a reason of its own. -/
theorem matchesPath_below {dir rel : String} (h : Below dir rel) (ignore : IgnoreFile g) :
    ignore.matchesPath rel = true
      ↔ ignore.any (carried dir) = true ∨ ignore.any (ownMatch dir rel) = true := by
  unfold matchesPath
  simp only [List.any_eq_true, matchesLine_below h]
  constructor
  · rintro ⟨line, hline, hmatch | hmatch⟩
    · exact .inl ⟨line, hline, hmatch⟩
    · exact .inr ⟨line, hline, hmatch⟩
  · rintro (⟨line, hline, hmatch⟩ | ⟨line, hline, hmatch⟩)
    · exact ⟨line, hline, .inl hmatch⟩
    · exact ⟨line, hline, .inr hmatch⟩

/-! ## The walk -/

variable {options : Fs.Links.WalkOptions} {ignore : Option (IgnoreFile g)}

/-- The tree has a directory at the path. -/
def DirectoryAt (t : Tree) (dir : String) : Prop :=
  ∃ path, (path, .plain (.node .directory)) ∈ t.entries ∧ posixRelative path = .ok dir

/-- The tree has a regular file at the path. -/
def FileAt (t : Tree) (rel : String) : Prop :=
  ∃ path content, (path, .plain (.node (.file content))) ∈ t.entries
    ∧ posixRelative path = .ok rel

/-- What one entry gives to the walk: a file that no pattern leaves out. -/
theorem walkEntry_file {e : Path × FileType} {here : Option WalkEntry}
    (h : walkEntry g options ignore e = .ok here) {rel : String} :
    (∃ w, here = some w ∧ w.relativePath = rel)
      ↔ (∃ content, e.2 = .plain (.node (.file content))) ∧ posixRelative e.1 = .ok rel
        ∧ excluded g options.toWalkOptions ignore rel = false := by
  unfold walkEntry at h
  split at h
  · cases h
  · obtain ⟨r, hr, h⟩ := bind_eq_ok.mp h
    rw [hr]
    split at h
    · cases h
    · split at h
      · rename_i hexcluded
        cases h
        constructor
        · intro ⟨w, hw, _⟩
          cases hw
        · intro ⟨_, hrel, hnot⟩
          cases hrel
          rw [hexcluded] at hnot
          cases hnot
      · rename_i hexcluded
        split at h
        · rename_i content htype
          split at h
          · cases h
          · cases h
            constructor
            · intro ⟨w, hw, hrel⟩
              cases hw
              cases hrel
              exact ⟨⟨content, htype⟩, rfl, Bool.eq_false_iff.mpr hexcluded⟩
            · intro ⟨_, hrel, _⟩
              cases hrel
              exact ⟨_, rfl, rfl⟩
        · rename_i hother
          cases h
          constructor
          · intro ⟨w, hw, _⟩
            cases hw
          · intro ⟨⟨content, hfile⟩, _⟩
            exact absurd hfile (hother content)

theorem walkEntries_file {entries : Fs.Links.Entries} {found : List WalkEntry}
    (h : walkEntries g options ignore entries = .ok found) {rel : String} :
    (∃ w ∈ found, w.relativePath = rel)
      ↔ ∃ e ∈ entries, (∃ content, e.2 = .plain (.node (.file content)))
        ∧ posixRelative e.1 = .ok rel ∧ excluded g options.toWalkOptions ignore rel = false := by
  induction entries generalizing found with
  | nil =>
      cases h
      constructor
      · intro ⟨w, hw, _⟩
        cases hw
      · intro ⟨e, he, _⟩
        cases he
  | cons e rest ih =>
      obtain ⟨here, more, hhere, hmore, rfl⟩ := walkEntries_cons_eq_ok.mp h
      rw [List.exists_mem_cons_iff, ← ih hmore, ← walkEntry_file hhere]
      constructor
      · intro ⟨w, hw, hrel⟩
        rcases List.mem_append.mp hw with hw | hw
        · exact .inl ⟨w, Option.mem_toList.mp hw, hrel⟩
        · exact .inr ⟨w, hw, hrel⟩
      · rintro (⟨w, hw, hrel⟩ | ⟨w, hw, hrel⟩)
        · exact ⟨w, List.mem_append_left _ (Option.mem_toList.mpr hw), hrel⟩
        · exact ⟨w, List.mem_append_right _ hw, hrel⟩

/-- The walk finds the files of the tree that no pattern leaves out. -/
theorem walkBundle_file {t : Tree} {found : List WalkEntry}
    (hread : readIgnore g options t.entries = .ok ignore)
    (h : walkBundle g options t.entries = .ok found) {rel : String} :
    (∃ w ∈ found, w.relativePath = rel)
      ↔ FileAt t rel ∧ excluded g options.toWalkOptions ignore rel = false := by
  unfold walkBundle at h
  rw [hread] at h
  obtain ⟨unsorted, hunsorted, h⟩ := bind_eq_ok.mp (show walkEntries g options ignore t.entries
    >>= (fun found => .ok (found.insertionSort Fs.byPath)) = .ok found from h)
  cases h
  simp only [List.mem_insertionSort]
  rw [walkEntries_file hunsorted]
  constructor
  · rintro ⟨⟨path, type⟩, he, ⟨content, rfl⟩, hrel, hnot⟩
    exact ⟨⟨path, content, he, hrel⟩, hnot⟩
  · intro ⟨⟨path, content, he, hrel⟩, hnot⟩
    exact ⟨_, he, ⟨content, rfl⟩, hrel, hnot⟩

/-- Without the lines that carry over, some pattern leaves the path out. -/
def leftOutBelow (options : Fs.Links.WalkOptions) (ignore : IgnoreFile g) (dir rel : String) :
    Bool :=
  matchesAny g rel options.defaultExcludes || matchesAny g rel options.securityExcludes
    || ignore.any (ownMatch dir rel)

theorem excluded_below {lines : IgnoreFile g} {dir rel : String} (h : Below dir rel) :
    excluded g options.toWalkOptions (some lines) rel = true
      ↔ lines.any (carried dir) = true ∨ leftOutBelow options lines dir rel = true := by
  unfold excluded leftOutBelow
  simp only [Option.map_some, Option.getD_some, Bool.or_eq_true, matchesPath_below h]
  exact or_left_comm

/-- No file below an ignored directory is found. -/
def Hides (lines : IgnoreFile g) (t : Tree) (found : List WalkEntry) : Prop :=
  ∀ dir, DirectoryAt t dir → lines.matchesPath dir = true →
    ∀ w ∈ found, ¬Below dir w.relativePath

/-- **What ignoring a directory does.** Its files are hidden exactly when each ignored
directory from which no line carries over holds only files that are left out anyhow. -/
theorem hides_iff {t : Tree} {lines : IgnoreFile g} {found : List WalkEntry}
    (hread : readIgnore g options t.entries = .ok (some lines))
    (hwalk : walkBundle g options t.entries = .ok found) :
    Hides lines t found
      ↔ ∀ dir, DirectoryAt t dir → lines.matchesPath dir = true →
        lines.any (carried dir) = false →
          ∀ rel, FileAt t rel → Below dir rel → leftOutBelow options lines dir rel = true := by
  constructor
  · intro hhides dir hdir hmatch hcarried rel hfile hbelow
    by_cases hexcluded : excluded g options.toWalkOptions (some lines) rel = true
    · rcases (excluded_below hbelow).mp hexcluded with h | h
      · rw [hcarried] at h
        cases h
      · exact h
    · -- a file that nothing leaves out is found
      obtain ⟨w, hw, rfl⟩ :=
        (walkBundle_file hread hwalk).mpr ⟨hfile, Bool.eq_false_iff.mpr hexcluded⟩
      exact absurd hbelow (hhides dir hdir hmatch w hw)
  · intro hothers dir hdir hmatch w hw hbelow
    obtain ⟨hfile, hnot⟩ := (walkBundle_file hread hwalk).mp ⟨w, hw, rfl⟩
    have hexcluded : excluded g options.toWalkOptions (some lines) w.relativePath = true := by
      rw [excluded_below hbelow]
      by_cases hcarried : lines.any (carried dir) = true
      · exact .inl hcarried
      · exact .inr (hothers dir hdir hmatch (Bool.eq_false_iff.mpr hcarried) _ hfile hbelow)
    rw [hexcluded] at hnot
    cases hnot

/-- An ignore file with one line. -/
def ignoreSecret : Path × FileType :=
  ([Fs.name ".agenomicignore"], .plain (.node (.file (Fs.name "secret/"))))

/-- What its line is read as. -/
def secretLines : IgnoreFile plainGlob := [("secret", "secret/")]

/-- A directory for secrets beside the ignore file. -/
def rootTree : Tree where
  entries := [ignoreSecret, ([Fs.name "secret"], .plain (.node .directory)),
    ([Fs.name "secret", Fs.name "token"], .plain (.node (.file [7])))]
  nodup := by decide
  nonempty := by decide
  legal := by decide
  parents := by decide

/-- A directory for secrets further down. -/
def nestedTree : Tree where
  entries := [ignoreSecret, ([Fs.name "agents"], .plain (.node .directory)),
    ([Fs.name "agents", Fs.name "secret"], .plain (.node .directory)),
    ([Fs.name "agents", Fs.name "secret", Fs.name "token"], .plain (.node (.file [7])))]
  nodup := by decide
  nonempty := by decide
  legal := by decide
  parents := by decide

/-- What is found of the ignore file itself. -/
def foundIgnore : WalkEntry := ⟨".agenomicignore", Fs.name "secret/"⟩

theorem hides_iff_root :
    readIgnore plainGlob {} rootTree.entries = .ok (some secretLines)
      ∧ walkBundle plainGlob {} rootTree.entries = .ok [foundIgnore]
      ∧ (Hides secretLines rootTree [foundIgnore]
        ↔ ∀ dir, DirectoryAt rootTree dir → secretLines.matchesPath dir = true →
          secretLines.any (carried dir) = false →
            ∀ rel, FileAt rootTree rel → Below dir rel →
              leftOutBelow {} secretLines dir rel = true) :=
  have hread : readIgnore plainGlob {} rootTree.entries = .ok (some secretLines) := rfl
  have hwalk : walkBundle plainGlob {} rootTree.entries = .ok [foundIgnore] := by decide +kernel
  ⟨hread, hwalk, hides_iff hread hwalk⟩

/-- The line `secret/` matches the directory `agents/secret` by its last name, and the walk
finds the file in it. -/
theorem not_hides :
    ¬ ∀ (g : Glob) (options : Fs.Links.WalkOptions) (t : Tree) (lines : IgnoreFile g)
      (found : List WalkEntry), readIgnore g options t.entries = .ok (some lines) →
        walkBundle g options t.entries = .ok found → Hides lines t found := by
  intro h
  have hread : readIgnore plainGlob {} nestedTree.entries = .ok (some secretLines) := rfl
  have hwalk : walkBundle plainGlob {} nestedTree.entries
      = .ok [foundIgnore, ⟨"agents/secret/token", [7]⟩] := by decide +kernel
  have hdir : DirectoryAt nestedTree "agents/secret" :=
    ⟨[Fs.name "agents", Fs.name "secret"], by decide, by decide +kernel⟩
  exact h plainGlob {} nestedTree secretLines _ hread hwalk "agents/secret" hdir
    (by decide +kernel) ⟨"agents/secret/token", [7]⟩ (by decide) (by decide +kernel)

end Agenomic.Bundle.Ignored
