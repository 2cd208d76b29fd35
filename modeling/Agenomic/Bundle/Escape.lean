import Agenomic.Bundle.Preserve

/-!
# Where extraction writes

Extraction joins the path of each entry to the destination and replaces the file there: it
writes a temporary file beside it and renames that one. Here the file system is the whole
one, from its root, and it is noted which files are created or replaced in it.

**`staysBelow_iff`**: these files are all below the destination exactly when every entry
that is reached, and whose temporary file can be made, leads below the destination. An
absolute path leads where it says, also one that starts with a backslash; an empty path or
a dot leads to the destination, with the temporary file beside it.
-/

namespace Agenomic.Bundle.Escape

open Lib
open Agenomic.Fs (Entries Path Node nodeAt shown)

/-! ## Replacing a file -/

/-- A name up to its last dot, and what is behind it; a dot in front is part of the name. -/
def splitExtension (name : Bytes) : Bytes × Option Bytes :=
  let before := (name.reverse.dropWhile (· ≠ 46)).tail.reverse
  if before = [] then (name, none)
  else (before, some (name.reverse.takeWhile (· ≠ 46)).reverse)

/-- A word as sixteen digits. -/
def hex16 (n : Nat) : List Char :=
  (List.range 16).reverse.map fun i => hexDigit (n / 16 ^ i % 16)

/-- The name of the temporary file beside a file. -/
def tempName (name : Bytes) (suffix : Nat) : Bytes :=
  let (stem, extension) := splitExtension name
  let kept := (extension.map fun e => utf8DecodeLossy e ++ ['.']).getD []
  stem ++ utf8Encode ('.' :: kept ++ "tmp.".toList ++ hex16 suffix)

/-- The path of the temporary file; the root has no name that could be changed. -/
def tempPath (path : Path) (suffix : Nat) : Path :=
  match path.getLast? with
  | none => path
  | some name => path.dropLast ++ [tempName name suffix]

/-- A file system, and the files that were created or replaced in it. -/
structure Disk where
  entries : Entries
  touched : List Path := []
  deriving DecidableEq

def pathText (path : Path) : String := "/" ++ shown path

def isDirectory (entries : Entries) (path : Path) : Bool :=
  path = [] || nodeAt entries path = some .directory

/-- No name on the path has a byte that ends a text for the system. -/
def noNul (path : Path) : Bool := path.all fun n => !n.contains 0

/-- Make a directory and those above it. -/
def makeDirs (dir : Path) (entries : Entries) : CliResult Entries :=
  if noNul dir then
    match createDirAll dir entries with
    | .ok entries => .ok entries
    | .error _ => .error (.io (pathText dir) "Not a directory")
  else .error (.io (pathText dir) "file name contained an unexpected NUL byte")

/-- A file can be created at the path, or the one there emptied. -/
def canCreate (entries : Entries) (path : Path) : Bool := noNul path && !isDirectory entries path

def remove (path : Path) (entries : Entries) : Entries := entries.filter fun e => e.1 ≠ path

def put (path : Path) (content : Bytes) (entries : Entries) : Entries :=
  remove path entries ++ [(path, .file content)]

/-- Put a file at a path, over the one that is there. A path that ends in a slash or a dot
is no place for a file. -/
def writeAtomic (suffix : Nat) (path : Path) (named : Bool) (content : Bytes) (disk : Disk) :
    Disk × CliResult Unit :=
  let temp := tempPath path suffix
  if canCreate disk.entries temp then
    let written := put temp content disk.entries
    if named && !isDirectory written path then
      (⟨put path content (remove temp written), disk.touched ++ [temp, path]⟩, .ok ())
    else
      (⟨remove temp written, disk.touched ++ [temp]⟩, .error (.io (pathText path) "Not a file"))
  else (disk, .error (.io (pathText temp) "Is a directory"))

/-! ## Extracting -/

/-- Where a path leads that is joined to the destination. -/
def target (dest : Path) (rel : String) : Path :=
  if isAbsolute rel then components rel else dest ++ components rel

/-- The path ends in a name. -/
def named (rel : String) : Bool :=
  match (rel.toList.splitOn '/').getLast? with
  | none => false
  | some s => s ≠ [] && s ≠ ['.']

/-- Make the directories above a path; the root has none. -/
def makeParent (path : Path) (entries : Entries) : CliResult Entries :=
  if path = [] then .ok entries else makeDirs path.dropLast entries

variable (dest : Path) (suffix : Nat → Nat)

/-- Extract a file, where the temporary file gets this suffix. -/
def extractEntry (n : Nat) (rel : String) (content : Bytes) (disk : Disk) :
    Disk × CliResult Unit :=
  match makeParent (target dest rel) disk.entries with
  | .error e => (disk, .error e)
  | .ok entries => writeAtomic n (target dest rel) (named rel) content { disk with entries }

def extractPairs : List (String × Bytes) → Nat → Disk → Disk × CliResult Unit
  | [], _, disk => (disk, .ok ())
  | (rel, content) :: rest, n, disk =>
      if hasParentDir rel then (disk, .error (.pathTraversal rel))
      else
        match extractEntry dest (suffix n) rel content disk with
        | (disk, .error e) => (disk, .error e)
        | (disk, .ok ()) => extractPairs rest (n + 1) disk

/-- Extract an archive; the suffixes of the temporary files are drawn at random. -/
def extractBundle (x : External) (archive : Bytes) (entries : Entries) : Disk × CliResult Unit :=
  match readArchiveToPairs x archive with
  | .error e => (⟨entries, []⟩, .error e)
  | .ok pairs =>
      match makeDirs dest entries with
      | .error e => (⟨entries, []⟩, .error e)
      | .ok made => extractPairs dest suffix pairs 0 ⟨made, []⟩

/-! ## Below the destination -/

/-- The path is below the directory, and not the directory. -/
def Below (dir path : Path) : Prop := dir <+: path ∧ dir ≠ path

instance (dir path : Path) : Decidable (Below dir path) := inferInstanceAs (Decidable (_ ∧ _))

theorem below_iff {dir path : Path} (hne : path ≠ []) : Below dir path ↔ dir <+: path.dropLast := by
  unfold Below
  constructor
  · intro ⟨hpre, hproper⟩
    refine List.prefix_of_prefix_length_le hpre (List.dropLast_prefix path) ?_
    have hle := hpre.length_le
    have hlen : dir.length ≠ path.length := fun h => hproper (hpre.eq_of_length h)
    rw [List.length_dropLast]
    omega
  · intro hpre
    refine ⟨hpre.trans (List.dropLast_prefix path), ?_⟩
    intro heq
    have hle := hpre.length_le
    have hpos := List.length_pos_of_ne_nil hne
    rw [heq, List.length_dropLast] at hle
    omega

theorem tempPath_of_ne_nil {path : Path} (hne : path ≠ []) (n : Nat) :
    ∃ name, tempPath path n = path.dropLast ++ [name] := by
  unfold tempPath
  rw [List.getLast?_eq_some_getLast hne]
  exact ⟨_, rfl⟩

theorem tempPath_ne_nil {path : Path} (hne : path ≠ []) (n : Nat) : tempPath path n ≠ [] := by
  obtain ⟨name, h⟩ := tempPath_of_ne_nil hne n
  rw [h]
  exact List.append_ne_nil_of_right_ne_nil _ (List.cons_ne_nil _ _)

/-- A temporary file is below what its file is below. -/
theorem below_tempPath {path : Path} (hne : path ≠ []) (n : Nat) (dir : Path) :
    Below dir (tempPath path n) ↔ Below dir path := by
  rw [below_iff (tempPath_ne_nil hne n), below_iff hne]
  obtain ⟨name, h⟩ := tempPath_of_ne_nil hne n
  rw [h, List.dropLast_concat]

/-! ## Directories -/

theorem nodeAt_append (entries : Entries) (q path : Path) (node : Node) :
    nodeAt (entries ++ [(q, node)]) path
      = (nodeAt entries path).or (if q = path then some node else none) := by
  unfold nodeAt
  rw [List.find?_append]
  cases entries.find? fun e => e.1 == path with
  | some e => rfl
  | none =>
      rw [Option.none_or]
      by_cases h : q = path
      · rw [if_pos h, List.find?_cons_of_pos (by exact beq_iff_eq.mpr h)]
        rfl
      · rw [if_neg h, List.find?_cons_of_neg (by exact fun hq => h (beq_iff_eq.mp hq))]
        rfl

/-- Making a directory changes what is there at its path only. -/
theorem nodeAt_createDir {q path : Path} {entries made : Entries}
    (h : createDir q entries = .ok made) (hne : path ≠ q) :
    nodeAt made path = nodeAt entries path := by
  unfold createDir at h
  cases hat : nodeAt entries q with
  | none =>
      rw [hat] at h
      cases h
      rw [nodeAt_append, if_neg hne.symm, Option.or_none]
  | some node =>
      rw [hat] at h
      cases node with
      | directory =>
          cases h
          rfl
      | file content => cases h

/-- It makes no files, and none is lost. -/
theorem file_createDir {q path : Path} {entries made : Entries} {content : Bytes}
    (h : createDir q entries = .ok made) :
    nodeAt made path = some (.file content) ↔ nodeAt entries path = some (.file content) := by
  by_cases heq : path = q
  · subst heq
    unfold createDir at h
    cases hat : nodeAt entries path with
    | none =>
        rw [hat] at h
        cases h
        rw [nodeAt_append, hat, if_pos rfl]
        constructor <;> intro hfile <;> cases hfile
    | some node =>
        rw [hat] at h
        cases node with
        | directory =>
            cases h
            rw [hat]
        | file content => cases h
  · rw [nodeAt_createDir h heq]

theorem nodeAt_createDirs {path : Path} : ∀ {qs : List Path} {entries made : Entries},
    createDirs qs entries = .ok made → path ∉ qs → nodeAt made path = nodeAt entries path
  | [], _, _, h, _ => by
      cases h
      rfl
  | q :: qs, entries, made, h, hnot => by
      unfold createDirs at h
      obtain ⟨first, hfirst, hrest⟩ := bind_eq_ok.mp h
      rw [nodeAt_createDirs hrest (List.not_mem_of_not_mem_cons hnot),
        nodeAt_createDir hfirst (List.ne_of_not_mem_cons hnot)]

/-- Directories can be made unless a file is in the way. -/
theorem createDirs_ok_iff : ∀ {qs : List Path} {entries : Entries},
    (∃ made, createDirs qs entries = .ok made)
      ↔ ∀ q ∈ qs, ∀ content, nodeAt entries q ≠ some (.file content)
  | [], entries => ⟨fun _ _ h => absurd h List.not_mem_nil, fun _ => ⟨entries, rfl⟩⟩
  | q :: qs, entries => by
      unfold createDirs
      rw [List.forall_mem_cons]
      constructor
      · rintro ⟨made, h⟩
        obtain ⟨first, hfirst, hrest⟩ := bind_eq_ok.mp h
        refine ⟨?_, ?_⟩
        · intro content hfile
          unfold createDir at hfirst
          rw [hfile] at hfirst
          cases hfirst
        · intro q' hq' content hfile
          exact createDirs_ok_iff.mp ⟨made, hrest⟩ q' hq' content
            ((file_createDir hfirst).mpr hfile)
      · rintro ⟨hhead, hrest⟩
        obtain ⟨first, hfirst⟩ : ∃ first, createDir q entries = .ok first := by
          unfold createDir
          cases hat : nodeAt entries q with
          | none => exact ⟨_, rfl⟩
          | some node =>
              cases node with
              | directory => exact ⟨_, rfl⟩
              | file content => exact absurd hat (hhead content)
        have hfree : ∀ q' ∈ qs, ∀ content, nodeAt first q' ≠ some (.file content) :=
          fun q' hq' content hfile => hrest q' hq' content ((file_createDir hfirst).mp hfile)
        obtain ⟨made, hmade⟩ := createDirs_ok_iff.mpr hfree
        exact ⟨made, bind_eq_ok.mpr ⟨first, hfirst, hmade⟩⟩

/-! ## One entry -/

/-- The temporary file of an entry can be created: it has a place beside its file, the
directories above are there or can be made, and no directory has its name. -/
structure Opens (dest : Path) (n : Nat) (rel : String) (entries : Entries) : Prop where
  rooted : target dest rel ≠ []
  nul : noNul (tempPath (target dest rel) n) = true
  above : ∀ q ∈ (target dest rel).dropLast.inits.tail, ∀ content,
    nodeAt entries q ≠ some (.file content)
  free : nodeAt entries (tempPath (target dest rel) n) ≠ some .directory

theorem noNul_append {p q : Path} : noNul (p ++ q) = true ↔ noNul p = true ∧ noNul q = true := by
  unfold noNul
  rw [List.all_append, Bool.and_eq_true]

/-- The directories above a file do not meet its temporary file. -/
theorem nodeAt_makeParent {path : Path} (hne : path ≠ []) {n : Nat} {entries made : Entries}
    (h : createDirAll path.dropLast entries = .ok made) :
    nodeAt made (tempPath path n) = nodeAt entries (tempPath path n) := by
  refine nodeAt_createDirs h ?_
  intro hmem
  obtain ⟨name, htemp⟩ := tempPath_of_ne_nil hne n
  have hle := ((List.mem_inits _ _).mp (List.mem_of_mem_tail hmem)).length_le
  rw [htemp, List.length_append, List.length_singleton] at hle
  omega

variable {dest : Path} {suffix : Nat → Nat}

/-- An entry opens exactly when its directories and then its temporary file can be made. -/
theorem opens_iff {n : Nat} {rel : String} {entries : Entries} : Opens dest n rel entries
    ↔ ∃ made, makeParent (target dest rel) entries = .ok made
      ∧ canCreate made (tempPath (target dest rel) n) = true := by
  by_cases hne : target dest rel = []
  · -- the root is a directory
    constructor
    · intro h
      exact absurd hne h.rooted
    · intro ⟨made, hmade, hcreate⟩
      rw [hne] at hcreate
      unfold canCreate isDirectory tempPath at hcreate
      cases hcreate
  · obtain ⟨name, htemp⟩ := tempPath_of_ne_nil hne n
    unfold makeParent makeDirs canCreate isDirectory
    rw [if_neg hne]
    constructor
    · intro h
      have hnul := h.nul
      rw [htemp] at hnul
      obtain ⟨made, hmade⟩ := createDirs_ok_iff.mpr h.above
      have hmade' : createDirAll (target dest rel).dropLast entries = .ok made := hmade
      refine ⟨made, ?_, ?_⟩
      · rw [if_pos (noNul_append.mp hnul).1, hmade']
      · rw [h.nul, nodeAt_makeParent hne hmade', decide_eq_false (tempPath_ne_nil hne n),
          decide_eq_false h.free]
        rfl
    · intro ⟨made, hmade, hcreate⟩
      by_cases hnul : noNul (target dest rel).dropLast = true
      · rw [if_pos hnul] at hmade
        cases hall : createDirAll (target dest rel).dropLast entries with
        | error e =>
            rw [hall] at hmade
            cases hmade
        | ok made' =>
            rw [hall] at hmade
            cases hmade
            rw [nodeAt_makeParent hne hall, Bool.and_eq_true, Bool.not_eq_true',
              Bool.or_eq_false_iff] at hcreate
            exact ⟨hne, hcreate.1, createDirs_ok_iff.mp ⟨made, hall⟩,
              of_decide_eq_false hcreate.2.2⟩
      · rw [if_neg hnul] at hmade
        cases hmade

/-- An entry that opens leaves its temporary file and perhaps its file; others leave nothing. -/
theorem touched_extractEntry (n : Nat) (rel : String) (content : Bytes) (disk : Disk) :
    (∀ q ∈ (extractEntry dest n rel content disk).1.touched, Below dest q)
      ↔ (∀ q ∈ disk.touched, Below dest q)
        ∧ (Opens dest n rel disk.entries → Below dest (target dest rel)) := by
  unfold extractEntry
  cases hparent : makeParent (target dest rel) disk.entries with
  | error e =>
      have hnot : ¬ Opens dest n rel disk.entries := by
        intro h
        obtain ⟨made, hmade, -⟩ := opens_iff.mp h
        rw [hparent] at hmade
        cases hmade
      exact ⟨fun h => ⟨h, fun hopens => absurd hopens hnot⟩, fun h => h.1⟩
  | ok made =>
      dsimp only
      unfold writeAtomic
      by_cases hcreate : canCreate made (tempPath (target dest rel) n) = true
      · have hopens : Opens dest n rel disk.entries := opens_iff.mpr ⟨made, hparent, hcreate⟩
        have htemp := below_tempPath hopens.rooted n dest
        simp only [hcreate, if_true]
        split
        · simp only [List.forall_mem_append, List.forall_mem_cons, htemp]
          constructor
          · intro ⟨hold, hbelow, _⟩
            exact ⟨hold, fun _ => hbelow⟩
          · intro ⟨hold, hbelow⟩
            exact ⟨hold, hbelow hopens, hbelow hopens, List.forall_mem_nil _⟩
        · simp only [List.forall_mem_append, List.forall_mem_cons, htemp]
          constructor
          · intro ⟨hold, hbelow, _⟩
            exact ⟨hold, fun _ => hbelow⟩
          · intro ⟨hold, hbelow⟩
            exact ⟨hold, hbelow hopens, List.forall_mem_nil _⟩
      · have hnot : ¬ Opens dest n rel disk.entries := by
          intro h
          obtain ⟨made', hmade, hcan⟩ := opens_iff.mp h
          rw [hparent] at hmade
          cases hmade
          exact hcreate hcan
        simp only [hcreate, Bool.false_eq_true, if_false]
        exact ⟨fun h => ⟨h, fun hopens => absurd hopens hnot⟩, fun h => h.1⟩

/-! ## A whole archive -/

/-- What stands before an entry in a list with one more in front. -/
theorem forall_split_cons {α : Type} {P : List α → α → Prop} {a : α} {rest : List α} :
    (∀ before p after, a :: rest = before ++ p :: after → P before p)
      ↔ P [] a ∧ ∀ before p after, rest = before ++ p :: after → P (a :: before) p := by
  constructor
  · intro h
    refine ⟨h [] a rest rfl, ?_⟩
    intro before p after heq
    exact h (a :: before) p after (congrArg (a :: ·) heq)
  · intro ⟨hhead, hrest⟩ before p after heq
    cases before with
    | nil =>
        cases heq
        exact hhead
    | cons b before =>
        obtain ⟨rfl, htail⟩ := List.cons.inj heq
        exact hrest before p after htail

theorem extractPairs_cons_error {rel : String} {content : Bytes} {n : Nat} {disk next : Disk}
    {e : CliError} (hrel : hasParentDir rel = false)
    (h : extractEntry dest (suffix n) rel content disk = (next, .error e))
    (rest : List (String × Bytes)) :
    extractPairs dest suffix ((rel, content) :: rest) n disk = (next, .error e) := by
  rw [extractPairs, if_neg (ne_true_of_eq_false hrel), h]

theorem extractPairs_cons_ok {rel : String} {content : Bytes} {n : Nat} {disk next : Disk}
    (hrel : hasParentDir rel = false)
    (h : extractEntry dest (suffix n) rel content disk = (next, .ok ()))
    (rest : List (String × Bytes)) : extractPairs dest suffix ((rel, content) :: rest) n disk
      = extractPairs dest suffix rest (n + 1) next := by
  rw [extractPairs, if_neg (ne_true_of_eq_false hrel), h]

/-- Every entry that is reached and opens leads below the destination. -/
def ReachedBelow (dest : Path) (suffix : Nat → Nat) (pairs : List (String × Bytes)) (n : Nat)
    (disk : Disk) : Prop :=
  ∀ before p after, pairs = before ++ p :: after → ∀ reached,
    extractPairs dest suffix before n disk = (reached, .ok ()) →
      Opens dest (suffix (n + before.length)) p.1 reached.entries → Below dest (target dest p.1)

/-- The files that a run touches are below the destination exactly when they were before,
and every entry leads there that is reached and opens. -/
theorem touched_extractPairs : ∀ {pairs : List (String × Bytes)} (n : Nat) (disk : Disk),
    (∀ p ∈ pairs, hasParentDir p.1 = false) →
    ((∀ q ∈ (extractPairs dest suffix pairs n disk).1.touched, Below dest q)
      ↔ (∀ q ∈ disk.touched, Below dest q) ∧ ReachedBelow dest suffix pairs n disk)
  | [], n, disk, _ => by
      unfold extractPairs ReachedBelow
      constructor
      · intro h
        refine ⟨h, ?_⟩
        intro before p after heq
        cases before <;> cases heq
      · intro h
        exact h.1
  | (rel, content) :: rest, n, disk, hplain => by
      have hrel : hasParentDir rel = false := hplain (rel, content) List.mem_cons_self
      have hfirst := @touched_extractEntry dest (suffix n) rel content disk
      have hreached : ReachedBelow dest suffix ((rel, content) :: rest) n disk
          ↔ (Opens dest (suffix n) rel disk.entries → Below dest (target dest rel))
            ∧ ∀ before p after, rest = before ++ p :: after → ∀ reached,
              extractPairs dest suffix ((rel, content) :: before) n disk = (reached, .ok ()) →
                Opens dest (suffix (n + (before.length + 1))) p.1 reached.entries →
                  Below dest (target dest p.1) := by
        unfold ReachedBelow
        rw [forall_split_cons]
        refine and_congr_left fun _ => ?_
        constructor
        · intro h
          exact h disk rfl
        · intro h reached hrun
          cases hrun
          exact h
      rw [hreached]
      cases hentry : extractEntry dest (suffix n) rel content disk with
      | mk next result =>
          rw [hentry] at hfirst
          cases result with
          | error e =>
              -- nothing is reached behind an entry that fails
              have hstep := extractPairs_cons_error hrel hentry
              rw [hstep rest, hfirst]
              constructor
              · intro ⟨hold, hhere⟩
                refine ⟨hold, hhere, ?_⟩
                intro before p after _ reached hrun
                rw [hstep before] at hrun
                cases hrun
              · intro ⟨hold, hhere, _⟩
                exact ⟨hold, hhere⟩
          | ok done =>
              have hstep := extractPairs_cons_ok hrel hentry
              have hlater := touched_extractPairs (n + 1) next
                fun p hp => hplain p (List.mem_cons_of_mem _ hp)
              rw [hstep rest, hlater, hfirst, and_assoc]
              refine and_congr_right fun _ => and_congr_right fun _ => ?_
              unfold ReachedBelow
              refine forall_congr' fun before => ?_
              rw [hstep before, show n + 1 + before.length = n + (before.length + 1) by omega]

/-- What is read off an archive does not lead up. -/
theorem hasParentDir_readEntries : ∀ {entries : List TarEntry} {pairs : List (String × Bytes)},
    readEntries entries = .ok pairs → ∀ p ∈ pairs, hasParentDir p.1 = false
  | [], pairs, h => by
      cases h
      intro p hp
      exact absurd hp List.not_mem_nil
  | e :: rest, pairs, h => by
      unfold readEntries at h
      by_cases hregular : e.regular = true
      · rw [if_pos hregular] at h
        dsimp only at h
        split at h
        · cases h
        · rename_i hparent
          obtain ⟨more, hmore, h⟩ := bind_eq_ok.mp h
          cases h
          intro p hp
          rcases List.mem_cons.mp hp with rfl | hp
          · exact Bool.eq_false_iff.mpr hparent
          · exact hasParentDir_readEntries hmore p hp
      · rw [if_neg hregular] at h
        exact hasParentDir_readEntries h

/-- An entry that is rejected. -/
def Rejected (e : TarEntry) : Prop :=
  e.regular = true ∧ hasParentDir (replaceBackslashes (utf8DecodeLossy e.path)) = true

theorem readEntries_rejected : ∀ {entries : List TarEntry}, (∃ e ∈ entries, Rejected e) →
    ∃ err, readEntries entries = .error err
  | [], h => by
      obtain ⟨e, he, -⟩ := h
      exact absurd he List.not_mem_nil
  | e :: rest, h => by
      unfold readEntries
      by_cases hregular : e.regular = true
      · rw [if_pos hregular]
        dsimp only
        by_cases hparent : hasParentDir (replaceBackslashes (utf8DecodeLossy e.path)) = true
        · rw [if_pos hparent]
          exact ⟨_, rfl⟩
        · rw [if_neg hparent]
          obtain ⟨e', he', hrejected⟩ := h
          rcases List.mem_cons.mp he' with rfl | he'
          · exact absurd hrejected.2 hparent
          · obtain ⟨err, herr⟩ := readEntries_rejected ⟨e', he', hrejected⟩
            rw [herr]
            exact ⟨err, rfl⟩
      · rw [if_neg hregular]
        obtain ⟨e', he', hrejected⟩ := h
        rcases List.mem_cons.mp he' with rfl | he'
        · exact absurd hrejected.1 hregular
        · exact readEntries_rejected ⟨e', he', hrejected⟩

/-- Every file that extraction creates or replaces is below the destination, and an entry
that is rejected makes it fail. -/
structure StaysBelow (x : External) (dest : Path) (suffix : Nat → Nat) (archive : Bytes)
    (entries : Entries) : Prop where
  below : ∀ path ∈ (extractBundle dest suffix x archive entries).1.touched, Below dest path
  rejects : ∀ tarBytes tarEntries, x.unzstd archive = .ok tarBytes →
    x.untar tarBytes = .ok tarEntries → (∃ e ∈ tarEntries, Rejected e) →
      ∃ err, (extractBundle dest suffix x archive entries).2 = .error err

/-- An archive with a rejected entry is not extracted at all. -/
theorem extractBundle_rejected {x : External} {archive tarBytes : Bytes}
    {tarEntries : List TarEntry} (hunzstd : x.unzstd archive = .ok tarBytes)
    (huntar : x.untar tarBytes = .ok tarEntries) (h : ∃ e ∈ tarEntries, Rejected e)
    (dest : Path) (suffix : Nat → Nat) (entries : Entries) :
    ∃ err, extractBundle dest suffix x archive entries = (⟨entries, []⟩, .error err) := by
  obtain ⟨err, herr⟩ := readEntries_rejected h
  have hread : readArchiveToPairs x archive = .error err := by
    unfold readArchiveToPairs
    rw [hunzstd]
    simp only [bind, Except.bind]
    rw [huntar]
    exact herr
  refine ⟨err, ?_⟩
  unfold extractBundle
  rw [hread]

/-- **Extraction stays below the destination** exactly when every entry leads there that is
reached and opens. -/
theorem staysBelow_iff (x : External) (dest : Path) (suffix : Nat → Nat) (archive : Bytes)
    (entries : Entries) : StaysBelow x dest suffix archive entries
      ↔ ∀ pairs, readArchiveToPairs x archive = .ok pairs →
        ∀ made, makeDirs dest entries = .ok made → ReachedBelow dest suffix pairs 0 ⟨made, []⟩ := by
  have hbelow : (∀ path ∈ (extractBundle dest suffix x archive entries).1.touched, Below dest path)
      ↔ ∀ pairs, readArchiveToPairs x archive = .ok pairs →
        ∀ made, makeDirs dest entries = .ok made →
          ReachedBelow dest suffix pairs 0 ⟨made, []⟩ := by
    unfold extractBundle
    cases hread : readArchiveToPairs x archive with
    | error err =>
        constructor
        · intro _ pairs hpairs
          cases hpairs
        · intro _ path hpath
          exact absurd hpath List.not_mem_nil
    | ok pairs =>
        cases hdest : makeDirs dest entries with
        | error err =>
            constructor
            · intro _ pairs _ made hmade
              cases hmade
            · intro _ path hpath
              exact absurd hpath List.not_mem_nil
        | ok made =>
            obtain ⟨tarBytes, -, hrest⟩ := bind_eq_ok.mp hread
            obtain ⟨tarEntries, -, hentries⟩ := bind_eq_ok.mp hrest
            dsimp only
            rw [touched_extractPairs 0 ⟨made, []⟩ (hasParentDir_readEntries hentries)]
            constructor
            · intro ⟨_, h⟩ pairs' hpairs' made' hmade'
              cases hpairs'
              cases hmade'
              exact h
            · intro h
              exact ⟨List.forall_mem_nil _, h pairs rfl made rfl⟩
  constructor
  · intro h
    exact hbelow.mp h.below
  · intro h
    refine ⟨hbelow.mpr h, ?_⟩
    intro tarBytes tarEntries hunzstd huntar hrejected
    obtain ⟨err, herr⟩ := extractBundle_rejected hunzstd huntar hrejected dest suffix entries
    exact ⟨err, by rw [herr]⟩

/-- An archive with one entry, whose path starts with a backslash. -/
def backslashArchive : Bytes := utf8Encode [backslash, 'b', 'i', 'n'] ++ [0, 1, 10]

/-- It is extracted to `/bin`, and not below `/home`. -/
theorem not_staysBelow :
    ¬ StaysBelow plainLibraries [Fs.name "home"] id backslashArchive [] := by
  intro h
  have hbin : [Fs.name "bin"]
      ∈ (extractBundle [Fs.name "home"] id plainLibraries backslashArchive []).1.touched := by
    decide +kernel
  exact absurd (h.below _ hbin) (by decide)

end Agenomic.Bundle.Escape
