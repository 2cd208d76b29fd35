import Agenomic.Core
import Agenomic.Lib.Lines
import Agenomic.Lib.Path

/-!
# Walking a directory

A directory is the list of what stands below it, at any depth, in the order in which it
is walked; a `Tree` is such a list as a file system keeps it. The walk refuses names
that are not UTF-8 and files that are too large, leaves out what some pattern excludes,
and returns the other files in the order of their paths. Globs are those of a library.

**`walkEntries_eq_ok_iff`**: the walk succeeds exactly when it refuses nothing, and then
finds the files that are not excluded, each by itself.
-/

namespace Agenomic.Fs

open Lib

/-! ## Directories -/

/-- A path below a directory: the bytes of its names. -/
abbrev Path := List Bytes

inductive Node where
  | directory
  | file (content : Bytes)
  deriving DecidableEq, Repr

/-- What stands below a directory. -/
abbrev Entries := List (Path × Node)

/-- The bytes of an ASCII name. -/
def name (s : String) : Bytes := utf8Encode s.toList

/-- What a file may be called. -/
structure LegalName (n : Bytes) : Prop where
  nonempty : n ≠ []
  slash : 47 ∉ n
  nul : 0 ∉ n
  dot : n ≠ name "."
  dotdot : n ≠ name ".."

instance (n : Bytes) : Decidable (LegalName n) :=
  decidable_of_iff (n ≠ [] ∧ 47 ∉ n ∧ 0 ∉ n ∧ n ≠ name "." ∧ n ≠ name "..")
    ⟨fun ⟨h₁, h₂, h₃, h₄, h₅⟩ => ⟨h₁, h₂, h₃, h₄, h₅⟩,
      fun ⟨h₁, h₂, h₃, h₄, h₅⟩ => ⟨h₁, h₂, h₃, h₄, h₅⟩⟩

/-- A directory tree of regular files. -/
structure Tree where
  entries : Entries
  nodup : (entries.map Prod.fst).Nodup
  nonempty : ∀ e ∈ entries, e.1 ≠ []
  legal : ∀ e ∈ entries, ∀ n ∈ e.1, LegalName n
  /-- What is above an entry is a directory. -/
  parents : ∀ e ∈ entries, ∀ q, q ≠ [] → q <+: e.1 → q ≠ e.1 → (q, .directory) ∈ entries

/-- A tree, where what is above an entry is among its beginnings. -/
def Tree.ofEntries (entries : Entries) (nodup : (entries.map Prod.fst).Nodup)
    (legal : ∀ e ∈ entries, e.1 ≠ [] ∧ ∀ n ∈ e.1, LegalName n)
    (parents : ∀ e ∈ entries, ∀ q ∈ e.1.inits, q ≠ [] → q ≠ e.1 → (q, .directory) ∈ entries) :
    Tree where
  entries := entries
  nodup := nodup
  nonempty e he := (legal e he).1
  legal e he := (legal e he).2
  parents e he q hne hq hproper := parents e he q ((List.mem_inits q e.1).mpr hq) hne hproper

/-- What stands at a path. -/
def nodeAt (entries : Entries) (path : Path) : Option Node :=
  (entries.find? fun e => e.1 == path).map (·.2)

/-- The content of the regular file at a path. -/
def fileAt (entries : Entries) (path : Path) : Option Bytes :=
  match nodeAt entries path with
  | some (.file content) => some content
  | _ => none

/-! ## Patterns -/

/-- The globs of a library: reading a pattern, and matching a text. -/
structure Glob where
  Pattern : Type
  new : String → Except String Pattern
  matchesText : Pattern → String → Bool

variable (g : Glob)

/-- Build artifacts, version control, metadata of the system. -/
def defaultExcludes : List String :=
  [".git/", ".git", ".hg/", ".svn/", ".DS_Store", "Thumbs.db", "target/", "node_modules/",
    "__pycache__/", ".pytest_cache/", ".venv/", ".tox/", "dist/", ".agenomic/",
    "*.bundle.tar.zst", ".agenomic-*", ".claude/"]

/-- Credentials, keys, dotenvs. -/
def securityExcludes : List String :=
  [".env", ".env.*", "*.pem", "*.key", "id_rsa", "id_dsa", "id_ecdsa", "id_ed25519", "*.p12",
    "*.pfx"]

/-- The names of a relative path. -/
def segments (rel : String) : List String := (rel.toList.splitOn '/').map String.ofList

def patternMatches (rel pat : String) : Bool :=
  -- with a slash at its end a pattern is for directories and what is below them
  let (clean, dirOnly) := match stripSuffix? "/" pat with
    | some stripped => (stripped, true)
    | none => (pat, false)
  match g.new clean with
  | .error _ => false
  | .ok p =>
      g.matchesText p rel
        || ((dirOnly || !clean.toList.contains '/') && (segments rel).any (g.matchesText p))

def matchesAny (rel : String) (patterns : List String) : Bool := patterns.any (patternMatches g rel)

/-! ## The ignore file -/

/-- A text without the white space at its ends. -/
def trim (s : List Char) : List Char := (s.dropWhile isWhiteSpace).rdropWhile isWhiteSpace

/-- A text without the slashes at its end. -/
def trimEndSlashes (s : List Char) : List Char := s.rdropWhile (· == '/')

/-- The patterns of an ignore file, each with its line. -/
abbrev IgnoreFile := List (g.Pattern × String)

namespace IgnoreFile

/-- Read the lines of an ignore file. -/
def parseLines : List (List Char) → CliResult (IgnoreFile g)
  | [] => .ok []
  | line :: rest =>
      let trimmed := trim line
      if trimmed = [] || trimmed.head? = some '#' || trimmed.head? = some '!' then parseLines rest
      else
        let pat := String.ofList (trimEndSlashes trimmed)
        match g.new pat with
        | .error e => .error (.internal s!"bad ignore pattern '{pat}': {e}")
        | .ok p => do
            let more ← parseLines rest
            .ok ((p, String.ofList trimmed) :: more)

def parse (text : List Char) : CliResult (IgnoreFile g) := parseLines g (lines text)

variable {g}

/-- The beginnings of a path that end in front of a slash. -/
def beforeSlashes (rel : String) : List String :=
  ((List.range rel.length).filter fun i => rel.toList[i]? = some '/').map fun i =>
    String.ofList (rel.toList.take i)

def matchesLine (rel : String) (line : g.Pattern × String) : Bool :=
  let plain := trimEndSlashes line.2.toList
  g.matchesText line.1 rel
    || (!plain.contains '/' && ((segments rel).getLast?.map (g.matchesText line.1)).getD false)
    || ((line.2.toList.getLast? == some '/' || !plain.contains '/')
      && (beforeSlashes rel).any (g.matchesText line.1))

def matchesPath (ignore : IgnoreFile g) (rel : String) : Bool := ignore.any (matchesLine rel)

end IgnoreFile

/-- Where the ignore file of a directory is. -/
def ignorePath : Path := [name ".agenomicignore"]

/-- The patterns of the ignore file at the root of a directory, if it has one. -/
def loadIgnore (entries : Entries) : CliResult (Option (IgnoreFile g)) :=
  match nodeAt entries ignorePath with
  | none => .ok none
  | some .directory => .error (.io ".agenomicignore" "Is a directory")
  | some (.file content) =>
      match utf8Decode content with
      | none => .error (.io ".agenomicignore" "stream did not contain valid UTF-8")
      | some text => do
          let ignore ← IgnoreFile.parse g text
          .ok (some ignore)

/-! ## The walk -/

structure WalkOptions where
  followIgnoreFile : Bool := true
  defaultExcludes : List String := Fs.defaultExcludes
  securityExcludes : List String := Fs.securityExcludes
  maxFileSizeBytes : Nat := 50 * 1024 * 1024

/-- A file that was found. -/
structure WalkEntry where
  relativePath : String
  /-- What its absolute path leads to. -/
  content : Bytes
  deriving DecidableEq

/-- How a path is shown. -/
def shown (path : Path) : String :=
  String.ofList (List.intercalate ['/'] (path.map utf8DecodeLossy))

/-- The path with slashes between its names, which have to be UTF-8. -/
def posixRelative (path : Path) : CliResult String :=
  match path.mapM utf8Decode with
  | some names => .ok (String.ofList (List.intercalate ['/'] names))
  | none => .error (.internal s!"non-UTF8 path component in {shown path}")

/-- Some pattern leaves the path out. -/
def excluded (options : WalkOptions) (ignore : Option (IgnoreFile g)) (rel : String) : Bool :=
  matchesAny g rel options.defaultExcludes || matchesAny g rel options.securityExcludes
    || (ignore.map fun ig => ig.matchesPath rel).getD false

/-- Look at one entry; a directory that is excluded is walked into all the same. -/
def walkEntry (options : WalkOptions) (ignore : Option (IgnoreFile g)) (e : Path × Node) :
    CliResult (Option WalkEntry) := do
  let rel ← posixRelative e.1
  if hasParentDir rel then .error (.pathTraversal rel)
  else if excluded g options ignore rel then .ok none
  else match e.2 with
    | .directory => .ok none
    | .file content =>
        if content.length > options.maxFileSizeBytes then
          .error (.internal s!"file {rel} exceeds max size {options.maxFileSizeBytes}")
        else .ok (some ⟨rel, content⟩)

/-- Look at the entries one after the other. -/
def walkEntries (options : WalkOptions) (ignore : Option (IgnoreFile g)) :
    Entries → CliResult (List WalkEntry)
  | [] => .ok []
  | e :: rest => do
      let found ← walkEntry g options ignore e
      let more ← walkEntries options ignore rest
      .ok (found.toList ++ more)

/-- The order of paths. -/
def byPath (a b : WalkEntry) : Prop := a.relativePath ≤ b.relativePath

instance : DecidableRel byPath := fun _ _ => inferInstanceAs (Decidable (_ ≤ _))

/-- The files of a directory, in the order of their paths. -/
def walkBundle (options : WalkOptions) (entries : Entries) : CliResult (List WalkEntry) := do
  let ignore ← if options.followIgnoreFile then loadIgnore g entries else .ok none
  let found ← walkEntries g options ignore entries
  .ok (found.insertionSort byPath)

/-! ## What the walk finds -/

variable {g}

/-- The walk does not refuse an entry. -/
def Accepted (options : WalkOptions) (ignore : Option (IgnoreFile g)) (e : Path × Node) : Prop :=
  ∃ rel, posixRelative e.1 = .ok rel ∧ hasParentDir rel = false
    ∧ (excluded g options ignore rel = false →
      ∀ content, e.2 = .file content → content.length ≤ options.maxFileSizeBytes)

/-- What the walk finds at an entry. -/
def foundAt (options : WalkOptions) (ignore : Option (IgnoreFile g)) (e : Path × Node) :
    Option WalkEntry :=
  match posixRelative e.1, e.2 with
  | .ok rel, .file content => if excluded g options ignore rel then none else some ⟨rel, content⟩
  | _, _ => none

theorem walkEntry_eq_ok_iff {options : WalkOptions} {ignore : Option (IgnoreFile g)}
    {e : Path × Node} {found : Option WalkEntry} : walkEntry g options ignore e = .ok found
      ↔ Accepted options ignore e ∧ found = foundAt options ignore e := by
  obtain ⟨path, node⟩ := e
  unfold walkEntry Accepted foundAt
  dsimp only
  cases hrel : posixRelative path with
  | error e =>
      constructor
      · intro h
        cases h
      · rintro ⟨⟨rel, h, -⟩, -⟩
        cases h
  | ok rel =>
      simp only [bind, Except.bind, Except.ok.injEq, exists_eq_left']
      by_cases hparent : hasParentDir rel = true
      · rw [if_pos hparent, hparent]
        constructor
        · intro h
          cases h
        · rintro ⟨⟨h, -⟩, -⟩
          cases h
      rw [if_neg hparent, Bool.eq_false_iff.mpr hparent]
      cases node with
      | directory =>
          dsimp only
          rw [ite_self]
          constructor
          · intro h
            cases h
            exact ⟨⟨rfl, fun _ _ h => nomatch h⟩, rfl⟩
          · rintro ⟨-, rfl⟩
            rfl
      | file content =>
          dsimp only
          by_cases hexcluded : excluded g options ignore rel = true
          · rw [if_pos hexcluded, if_pos hexcluded, hexcluded]
            constructor
            · intro h
              cases h
              exact ⟨⟨rfl, fun h => nomatch h⟩, rfl⟩
            · rintro ⟨-, rfl⟩
              rfl
          rw [if_neg hexcluded, if_neg hexcluded, Bool.eq_false_iff.mpr hexcluded]
          by_cases hsize : content.length > options.maxFileSizeBytes
          · rw [if_pos hsize]
            constructor
            · intro h
              cases h
            · rintro ⟨⟨-, hle⟩, -⟩
              exact absurd (hle rfl content rfl) (not_le.mpr hsize)
          · rw [if_neg hsize]
            constructor
            · intro h
              cases h
              refine ⟨⟨rfl, fun _ c hfile => ?_⟩, rfl⟩
              cases hfile
              exact not_lt.mp hsize
            · rintro ⟨-, rfl⟩
              rfl

/-- **The walk, entry by entry.** -/
theorem walkEntries_eq_ok_iff {options : WalkOptions} {ignore : Option (IgnoreFile g)}
    {entries : Entries} {found : List WalkEntry} :
    walkEntries g options ignore entries = .ok found
      ↔ (∀ e ∈ entries, Accepted options ignore e)
        ∧ found = entries.filterMap (foundAt options ignore) := by
  induction entries generalizing found with
  | nil =>
      constructor
      · intro h
        cases h
        exact ⟨fun e he => absurd he List.not_mem_nil, rfl⟩
      · rintro ⟨-, rfl⟩
        rfl
  | cons e rest ih =>
      have hcons : (e :: rest).filterMap (foundAt options ignore)
          = (foundAt options ignore e).toList ++ rest.filterMap (foundAt options ignore) := by
        rw [List.filterMap_cons]
        cases foundAt options ignore e <;> rfl
      unfold walkEntries
      rw [List.forall_mem_cons, hcons, bind_eq_ok]
      constructor
      · rintro ⟨here, hhere, h⟩
        rw [bind_eq_ok] at h
        obtain ⟨more, hmore, h⟩ := h
        cases h
        obtain ⟨haccepted, rfl⟩ := walkEntry_eq_ok_iff.mp hhere
        obtain ⟨hrest, rfl⟩ := ih.mp hmore
        exact ⟨⟨haccepted, hrest⟩, rfl⟩
      · rintro ⟨⟨haccepted, hrest⟩, rfl⟩
        refine ⟨_, walkEntry_eq_ok_iff.mpr ⟨haccepted, rfl⟩, ?_⟩
        rw [bind_eq_ok]
        exact ⟨_, ih.mpr ⟨hrest, rfl⟩, rfl⟩

end Agenomic.Fs
