import Agenomic.Bundle.Extract
import Agenomic.Fs.Walk

/-!
# What excluded files do to a walk

An entry that a pattern leaves out is looked at before it is left out: a link is refused
and a name that is not UTF-8 is not a path that a pattern could match. Where no entry that
is left out is a link, the walk is that of the other entries (**`walkEntries_outside`**),
whatever stands at the paths that are left out.

**`walkBundle_agree`**: two trees that agree on the other entries are walked alike.
-/

namespace Agenomic.Fs.Links

open Lib

/-! ## Walking a directory with links

A directory may also hold symbolic links, which the walk does not follow, and sockets,
pipes and devices, which it passes over. Links are refused before anything else is asked
of an entry, unless they are allowed. Where a directory has files and directories only,
the walk is the one there is without links (**`walkBundle_plain`**).
-/

variable (g : Glob)

/-- What a path leads to. -/
inductive Target where
  | node (node : Node)
  /-- A socket, a pipe or a device. -/
  | special
  deriving DecidableEq, Repr

/-- What stands at a path. -/
inductive FileType where
  | plain (target : Target)
  /-- A link, and what it leads to in the end, if that exists. -/
  | symlink (target : Option Target)
  deriving DecidableEq, Repr

def FileType.isSymlink : FileType → Bool
  | .plain _ => false
  | .symlink _ => true

/-- What stands below a directory, in the order in which it is walked. -/
abbrev Entries := List (Path × FileType)

/-- A directory tree. -/
structure Tree where
  entries : Entries
  nodup : (entries.map Prod.fst).Nodup
  nonempty : ∀ e ∈ entries, e.1 ≠ []
  legal : ∀ e ∈ entries, ∀ n ∈ e.1, LegalName n
  /-- What is above an entry is a directory, and no link. -/
  parents : ∀ e ∈ entries, ∀ q ∈ e.1.inits, q ≠ [] → q ≠ e.1 →
    (q, .plain (.node .directory)) ∈ entries

/-- What a path leads to; a link that leads nowhere does not exist. -/
def resolve (entries : Entries) (path : Path) : Option Target :=
  (entries.find? fun e => e.1 == path).bind fun e =>
    match e.2 with
    | .plain target => some target
    | .symlink target => target

/-- The patterns of the ignore file at the root of a directory, if it has one. -/
def loadIgnore (entries : Entries) : CliResult (Option (IgnoreFile g)) :=
  match resolve entries ignorePath with
  | none => .ok none
  | some .special => .error (.io ".agenomicignore" "No such device or address")
  | some (.node node) => Fs.loadIgnore g [(ignorePath, node)]

structure WalkOptions extends Fs.WalkOptions where
  allowSymlinks : Bool := false

/-- Look at one entry. -/
def walkEntry (options : WalkOptions) (ignore : Option (IgnoreFile g)) (e : Path × FileType) :
    CliResult (Option WalkEntry) :=
  if e.2.isSymlink && !options.allowSymlinks then .error (.symlinkRejected (shown e.1))
  else do
    let rel ← posixRelative e.1
    if hasParentDir rel then .error (.pathTraversal rel)
    else if excluded g options.toWalkOptions ignore rel then .ok none
    else match e.2 with
      | .plain (.node (.file content)) =>
          if content.length > options.maxFileSizeBytes then
            .error (.internal s!"file {rel} exceeds max size {options.maxFileSizeBytes}")
          else .ok (some ⟨rel, content⟩)
      -- directories are walked into, links and special files passed over
      | _ => .ok none

def walkEntries (options : WalkOptions) (ignore : Option (IgnoreFile g)) :
    Entries → CliResult (List WalkEntry)
  | [] => .ok []
  | e :: rest => do
      let found ← walkEntry g options ignore e
      let more ← walkEntries options ignore rest
      .ok (found.toList ++ more)

/-- The ignore file, where it is followed. -/
def readIgnore (options : WalkOptions) (entries : Entries) : CliResult (Option (IgnoreFile g)) :=
  if options.followIgnoreFile then loadIgnore g entries else .ok none

def walkBundle (options : WalkOptions) (entries : Entries) : CliResult (List WalkEntry) := do
  let ignore ← readIgnore g options entries
  let found ← walkEntries g options ignore entries
  .ok (found.insertionSort byPath)

/-! ## Directories without links -/

/-- An entry of a directory without links. -/
def plain (e : Path × Node) : Path × FileType := (e.1, .plain (.node e.2))

variable {g}

theorem walkEntry_plain (options : WalkOptions) (ignore : Option (IgnoreFile g)) (e : Path × Node) :
    walkEntry g options ignore (plain e) = Fs.walkEntry g options.toWalkOptions ignore e := by
  obtain ⟨path, node⟩ := e
  cases node <;> rfl

theorem walkEntries_plain (options : WalkOptions) (ignore : Option (IgnoreFile g))
    (entries : Fs.Entries) : walkEntries g options ignore (entries.map plain)
      = Fs.walkEntries g options.toWalkOptions ignore entries := by
  induction entries with
  | nil => rfl
  | cons e rest ih =>
      rw [List.map_cons]
      unfold walkEntries Fs.walkEntries
      rw [walkEntry_plain, ih]

theorem resolve_plain (entries : Fs.Entries) (path : Path) :
    resolve (entries.map plain) path = (nodeAt entries path).map .node := by
  unfold resolve nodeAt
  rw [List.find?_map]
  show Option.bind (Option.map plain (entries.find? fun e => e.1 == path)) _ = _
  cases entries.find? fun e => e.1 == path <;> rfl

theorem loadIgnore_plain (entries : Fs.Entries) :
    loadIgnore g (entries.map plain) = Fs.loadIgnore g entries := by
  unfold loadIgnore Fs.loadIgnore
  rw [resolve_plain]
  cases h : nodeAt entries ignorePath with
  | none => rfl
  | some node => cases node <;> rfl

/-- **Without links** the walk is that of the files and directories. -/
theorem walkBundle_plain (options : WalkOptions) (entries : Fs.Entries) :
    walkBundle g options (entries.map plain) = Fs.walkBundle g options.toWalkOptions entries := by
  unfold walkBundle readIgnore Fs.walkBundle
  rw [loadIgnore_plain]
  simp only [walkEntries_plain]
  split <;> rfl

end Agenomic.Fs.Links

namespace Agenomic.Bundle

open Lib
open Agenomic.Fs (Path Glob IgnoreFile WalkEntry posixRelative excluded byPath ignorePath)
open Agenomic.Fs.Links

variable {g : Glob} {options : WalkOptions} {ignore : Option (IgnoreFile g)}

/-- A pattern leaves the entry out. -/
def leftOut (options : WalkOptions) (ignore : Option (IgnoreFile g)) (e : Path × FileType) : Bool :=
  match posixRelative e.1 with
  | .ok rel => excluded g options.toWalkOptions ignore rel
  | .error _ => false

/-- The entries that no pattern leaves out. -/
def outside (options : WalkOptions) (ignore : Option (IgnoreFile g)) (entries : Entries) : Entries :=
  entries.filter fun e => !leftOut options ignore e

/-- No link is left out, unless links are allowed. -/
def NoLinkLeftOut (options : WalkOptions) (ignore : Option (IgnoreFile g)) (entries : Entries) :
    Prop :=
  ∀ e ∈ entries, leftOut options ignore e = true → e.2.isSymlink = true →
    options.allowSymlinks = true

instance (entries : Entries) : Decidable (NoLinkLeftOut options ignore entries) :=
  inferInstanceAs (Decidable (∀ e ∈ entries, _ → _ → _))

/-- Two trees with one ignore file that have the same entries where no pattern leaves them out. -/
structure Agree (options : WalkOptions) (a b : Tree) : Prop where
  ignoreFile : resolve a.entries ignorePath = resolve b.entries ignorePath
  others : ∀ ignore, readIgnore g options a.entries = .ok ignore →
    ∀ e, leftOut options ignore e = false → (e ∈ a.entries ↔ e ∈ b.entries)

/-! ## The walk of the other entries -/

/-- What is left out gives nothing. -/
theorem walkEntry_leftOut {e : Path × FileType} (hlegal : LegalPath e.1)
    (hout : leftOut options ignore e = true)
    (hlink : e.2.isSymlink = true → options.allowSymlinks = true) :
    walkEntry g options ignore e = .ok none := by
  have hpass : ¬(e.2.isSymlink && !options.allowSymlinks) = true := by
    rw [Bool.and_eq_true, Bool.not_eq_true']
    rintro ⟨hsym, hallow⟩
    rw [hlink hsym] at hallow
    cases hallow
  unfold leftOut at hout
  unfold walkEntry
  rw [if_neg hpass]
  cases hrel : posixRelative e.1 with
  | error err =>
      rw [hrel] at hout
      cases hout
  | ok rel =>
      rw [hrel] at hout
      simp only [bind, Except.bind]
      rw [if_neg (by rw [hasParentDir_posixRelative hlegal hrel]; exact Bool.false_ne_true), if_pos hout]

/-- **The walk is that of the entries that are not left out.** -/
theorem walkEntries_outside {entries : Entries} (hlegal : ∀ e ∈ entries, LegalPath e.1)
    (hlinks : NoLinkLeftOut options ignore entries) :
    walkEntries g options ignore entries
      = walkEntries g options ignore (outside options ignore entries) := by
  induction entries with
  | nil => rfl
  | cons e rest ih =>
      have hrest := ih (fun e he => hlegal e (List.mem_cons_of_mem _ he))
        fun e he => hlinks e (List.mem_cons_of_mem _ he)
      unfold outside at hrest ⊢
      by_cases hout : leftOut options ignore e = true
      · rw [List.filter_cons_of_neg (by rw [hout]; exact Bool.false_ne_true), ← hrest]
        conv_lhs => rw [walkEntries]
        rw [walkEntry_leftOut (hlegal e List.mem_cons_self) hout (hlinks e List.mem_cons_self hout)]
        cases walkEntries g options ignore rest <;> rfl
      · rw [Bool.not_eq_true] at hout
        rw [List.filter_cons_of_pos (by rw [hout]; rfl)]
        rw [walkEntries, walkEntries, hrest]

/-! ## The order of the walk -/

/-- What one entry gives, and what the others give. -/
theorem walkEntries_cons_eq_ok {e : Path × FileType} {rest : Entries} {found : List WalkEntry} :
    walkEntries g options ignore (e :: rest) = .ok found
      ↔ ∃ here more, walkEntry g options ignore e = .ok here
        ∧ walkEntries g options ignore rest = .ok more ∧ found = here.toList ++ more := by
  rw [walkEntries, bind_eq_ok]
  constructor
  · rintro ⟨here, hhere, h⟩
    obtain ⟨more, hmore, hfound⟩ := bind_eq_ok.mp h
    cases hfound
    exact ⟨here, more, hhere, hmore, rfl⟩
  · rintro ⟨here, more, hhere, hmore, rfl⟩
    exact ⟨here, hhere, bind_eq_ok.mpr ⟨more, hmore, rfl⟩⟩

/-- Entries in another order give the same files. -/
theorem walkEntries_perm {entries entries' : Entries} (h : entries.Perm entries') :
    ∀ {found : List WalkEntry}, walkEntries g options ignore entries = .ok found →
      ∃ found', walkEntries g options ignore entries' = .ok found' ∧ found.Perm found' := by
  induction h with
  | nil =>
      intro found hfound
      exact ⟨found, hfound, .refl found⟩
  | cons e _ ih =>
      intro found hfound
      obtain ⟨here, more, hhere, hmore, rfl⟩ := walkEntries_cons_eq_ok.mp hfound
      obtain ⟨more', hmore', hperm⟩ := ih hmore
      exact ⟨_, walkEntries_cons_eq_ok.mpr ⟨here, more', hhere, hmore', rfl⟩, hperm.append_left _⟩
  | swap e e' rest =>
      intro found hfound
      obtain ⟨here', _, hhere', hrest, rfl⟩ := walkEntries_cons_eq_ok.mp hfound
      obtain ⟨here, more, hhere, hmore, rfl⟩ := walkEntries_cons_eq_ok.mp hrest
      refine ⟨_, walkEntries_cons_eq_ok.mpr ⟨here, _, hhere,
        walkEntries_cons_eq_ok.mpr ⟨here', more, hhere', hmore, rfl⟩, rfl⟩, ?_⟩
      rw [← List.append_assoc, ← List.append_assoc]
      exact List.perm_append_comm.append_right more
  | trans _ _ ih ih' =>
      intro found hfound
      obtain ⟨found', hfound', hperm⟩ := ih hfound
      obtain ⟨found'', hfound'', hperm'⟩ := ih' hfound'
      exact ⟨found'', hfound'', hperm.trans hperm'⟩

theorem walkEntry_eq_some {e : Path × FileType} {w : WalkEntry}
    (h : walkEntry g options ignore e = .ok (some w)) :
    e.2 = .plain (.node (.file w.content)) ∧ posixRelative e.1 = .ok w.relativePath := by
  unfold walkEntry at h
  split at h
  · cases h
  · obtain ⟨rel, hrel, h⟩ := bind_eq_ok.mp h
    split at h
    · cases h
    · split at h
      · cases h
      · split at h
        · rename_i content htype
          split at h
          · cases h
          · cases h
            exact ⟨htype, hrel⟩
        · cases h

/-- A file that is found stands at its path. -/
theorem mem_of_walkEntries {entries : Entries} {found : List WalkEntry}
    (h : walkEntries g options ignore entries = .ok found) : ∀ w ∈ found, ∃ path,
      (path, .plain (.node (.file w.content))) ∈ entries ∧ posixRelative path = .ok w.relativePath := by
  induction entries generalizing found with
  | nil =>
      intro w hw
      cases h
      cases hw
  | cons e rest ih =>
      intro w hw
      obtain ⟨here, more, hhere, hmore, rfl⟩ := walkEntries_cons_eq_ok.mp h
      rcases List.mem_append.mp hw with hw | hw
      · obtain ⟨path, type⟩ := e
        rw [Option.mem_toList] at hw
        rw [hw] at hhere
        obtain ⟨htype, hrel⟩ := walkEntry_eq_some hhere
        dsimp only at htype hrel
        rw [← htype]
        exact ⟨path, List.mem_cons_self, hrel⟩
      · obtain ⟨path, hmem, hrel⟩ := ih hmore w hw
        exact ⟨path, List.mem_cons_of_mem e hmem, hrel⟩

theorem legalPath_of_mem (t : Tree) {e : Path × FileType} (he : e ∈ t.entries) : LegalPath e.1 :=
  ⟨t.nonempty e he, t.legal e he⟩

/-- Two files of a tree with one path are one file. -/
theorem walkEntry_ext (t : Tree) {found : List WalkEntry} {entries : Entries}
    (hentries : entries ⊆ t.entries) (h : walkEntries g options ignore entries = .ok found)
    {w w' : WalkEntry} (hw : w ∈ found) (hw' : w' ∈ found) (hpath : w.relativePath = w'.relativePath) :
    w = w' := by
  obtain ⟨path, hmem, hrel⟩ := mem_of_walkEntries h w hw
  obtain ⟨path', hmem', hrel'⟩ := mem_of_walkEntries h w' hw'
  have hcomponents := components_posixRelative (legalPath_of_mem t (hentries hmem)) hrel
  rw [hpath, components_posixRelative (legalPath_of_mem t (hentries hmem')) hrel'] at hcomponents
  have hentry := List.inj_on_of_nodup_map t.nodup (hentries hmem) (hentries hmem') hcomponents.symm
  obtain ⟨-, hcontent⟩ := Prod.mk.inj hentry
  cases w
  cases w'
  cases hpath
  cases hcontent
  rfl

/-! ## Two trees -/

variable {a b : Tree}

/-- What two trees agree on is in both, in one order or another. -/
theorem Agree.perm (h : Agree (g := g) options a b) (hread : readIgnore g options a.entries = .ok ignore) :
    (outside options ignore a.entries).Perm (outside options ignore b.entries) := by
  have hnodup : ∀ t : Tree, (outside options ignore t.entries).Nodup := fun t =>
    (List.Nodup.of_map Prod.fst t.nodup).filter _
  refine (List.perm_ext_iff_of_nodup (hnodup a) (hnodup b)).mpr fun e => ?_
  unfold outside
  rw [List.mem_filter, List.mem_filter, Bool.not_eq_true']
  constructor
  · rintro ⟨hmem, hout⟩
    exact ⟨(h.others ignore hread e hout).mp hmem, hout⟩
  · rintro ⟨hmem, hout⟩
    exact ⟨(h.others ignore hread e hout).mpr hmem, hout⟩

theorem Agree.read_eq (h : Agree (g := g) options a b) :
    readIgnore g options a.entries = readIgnore g options b.entries := by
  unfold readIgnore loadIgnore
  rw [h.ignoreFile]

/-- **Where they agree, one is walked when the other is.** -/
theorem Agree.walk_eq_ok (h : Agree (g := g) options a b)
    (hlinks : ∀ ignore, readIgnore g options a.entries = .ok ignore →
      NoLinkLeftOut options ignore a.entries ∧ NoLinkLeftOut options ignore b.entries)
    {files : List WalkEntry} (hwalk : walkBundle g options a.entries = .ok files) :
    walkBundle g options b.entries = .ok files := by
  obtain ⟨ignore, hread, hwalk⟩ := bind_eq_ok.mp hwalk
  obtain ⟨found, hfound, hfiles⟩ := bind_eq_ok.mp hwalk
  cases hfiles
  obtain ⟨hlinka, hlinkb⟩ := hlinks ignore hread
  rw [walkEntries_outside (fun _ => legalPath_of_mem a) hlinka] at hfound
  obtain ⟨found', hfound', hperm⟩ := walkEntries_perm (h.perm hread) hfound
  have hsame : found.insertionSort byPath = found'.insertionSort byPath := by
    have hsorted : ∀ l : List WalkEntry, (l.insertionSort byPath).Pairwise byPath := fun l =>
      haveI : Std.Total byPath := ⟨fun w w' => le_total w.relativePath w'.relativePath⟩
      haveI : IsTrans WalkEntry byPath := ⟨fun _ _ _ h h' => le_trans h h'⟩
      List.pairwise_insertionSort byPath l
    refine List.Perm.eq_of_pairwise ?_ (hsorted found) (hsorted found') ?_
    · intro w w' hw hw' hle hle'
      rw [List.mem_insertionSort] at hw hw'
      exact walkEntry_ext a (List.filter_subset_self _) hfound hw (hperm.mem_iff.mpr hw')
        (le_antisymm hle hle')
    · exact (List.perm_insertionSort byPath found).trans
        (hperm.trans (List.perm_insertionSort byPath found').symm)
  rw [← walkEntries_outside (fun _ => legalPath_of_mem b) hlinkb] at hfound'
  rw [hsame]
  exact bind_eq_ok.mpr ⟨ignore, h.read_eq ▸ hread, bind_eq_ok.mpr ⟨found', hfound', rfl⟩⟩

theorem Agree.symm (h : Agree (g := g) options a b) : Agree (g := g) options b a where
  ignoreFile := h.ignoreFile.symm
  others := fun ignore hread e hout => (h.others ignore (h.read_eq.trans hread) e hout).symm

/-- **What is left out of two trees does not matter**: where no link is left out, and the trees
agree on the other entries, they have the same files, and where these entries are walked in the
same order, the same error. -/
theorem walkBundle_agree (h : Agree (g := g) options a b)
    (hlinks : ∀ ignore, readIgnore g options a.entries = .ok ignore →
      NoLinkLeftOut options ignore a.entries ∧ NoLinkLeftOut options ignore b.entries) :
    (∀ files, walkBundle g options a.entries = .ok files ↔ walkBundle g options b.entries = .ok files)
      ∧ ((∀ ignore, readIgnore g options a.entries = .ok ignore →
          outside options ignore a.entries = outside options ignore b.entries) →
        walkBundle g options a.entries = walkBundle g options b.entries) := by
  refine ⟨fun files => ⟨h.walk_eq_ok hlinks, h.symm.walk_eq_ok fun ignore hread => ?_⟩, ?_⟩
  · exact (hlinks ignore (h.read_eq.trans hread)).symm
  · intro horder
    unfold walkBundle
    rw [← h.read_eq]
    cases hread : readIgnore g options a.entries with
    | error err => rfl
    | ok ignore =>
        obtain ⟨hlinka, hlinkb⟩ := hlinks ignore hread
        simp only [bind, Except.bind]
        rw [walkEntries_outside (fun _ => legalPath_of_mem a) hlinka, horder ignore hread,
          ← walkEntries_outside (fun _ => legalPath_of_mem b) hlinkb]

/-! ## Two directories -/

/-- Patterns without wildcards. -/
def plainGlob : Glob := { Pattern := String, new := .ok, matchesText := fun p s => p == s }

/-- A build directory beside a file, with these entries in it. -/
def built (entries : Entries) : Entries :=
  [([Fs.name ".agenomicignore"], .plain (.node (.file (Fs.name "notes")))),
    ([Fs.name "target"], .plain (.node .directory))] ++ entries
    ++ [([Fs.name "genome.yaml"], .plain (.node (.file [1, 2])))]

/-- Nothing was built. -/
def cleanTree : Tree where
  entries := built []
  nodup := by decide
  nonempty := by decide
  legal := by decide
  parents := by decide

/-- A pipe and a file were built, and notes taken. -/
def builtTree : Tree where
  entries := built [([Fs.name "notes"], .plain (.node (.file [9]))),
    ([Fs.name "target", Fs.name "debug"], .plain .special),
    ([Fs.name "target", Fs.name "release"], .plain (.node (.file [7])))]
  nodup := by decide
  nonempty := by decide
  legal := by decide
  parents := by decide

/-- A link was built. -/
def linkedTree : Tree where
  entries := built [([Fs.name "target", Fs.name "debug"], .symlink none)]
  nodup := by decide
  nonempty := by decide
  legal := by decide
  parents := by decide

/-- What the ignore file of the trees says. -/
def notes : Option (IgnoreFile plainGlob) := some [("notes", "notes")]

theorem readIgnore_built (entries : Entries) :
    readIgnore plainGlob {} (built entries) = .ok notes := by
  unfold readIgnore loadIgnore resolve built
  rw [List.find?_append, List.find?_append]
  rfl

/-- A tree agrees with another when what it has beside the other is left out. -/
theorem agree_built {a b : Tree} {extra : Entries} (ha : a.entries = built []) (hb : b.entries = built extra)
    (hextra : ∀ e ∈ extra, leftOut {} notes e = true) : Agree (g := plainGlob) {} a b where
  ignoreFile := by
    rw [ha, hb]
    unfold resolve built
    rw [List.find?_append, List.find?_append, List.find?_append, List.find?_append]
    rfl
  others := by
    intro ignore hread e hout
    rw [ha, readIgnore_built] at hread
    cases hread
    rw [ha, hb]
    unfold built
    rw [List.mem_append, List.mem_append, List.mem_append, List.mem_append]
    constructor
    · rintro ((hmem | hmem) | hmem)
      · exact .inl (.inl hmem)
      · cases hmem
      · exact .inr hmem
    · rintro ((hmem | hmem) | hmem)
      · exact .inl (.inl hmem)
      · rw [hextra e hmem] at hout
        cases hout
      · exact .inr hmem

theorem walkBundle_agree_built :
    walkBundle plainGlob {} builtTree.entries = walkBundle plainGlob {} cleanTree.entries
      ∧ walkBundle plainGlob {} cleanTree.entries
        = .ok [⟨".agenomicignore", Fs.name "notes"⟩, ⟨"genome.yaml", [1, 2]⟩] := by
  have hclean : walkBundle plainGlob {} cleanTree.entries
      = .ok [⟨".agenomicignore", Fs.name "notes"⟩, ⟨"genome.yaml", [1, 2]⟩] := by decide +kernel
  refine ⟨?_, hclean⟩
  have hagree : Agree (g := plainGlob) {} cleanTree builtTree := agree_built rfl rfl (by decide +kernel)
  rw [hclean]
  refine ((walkBundle_agree hagree fun ignore hread => ?_).1 _).mp hclean
  rw [show cleanTree.entries = built [] from rfl, readIgnore_built] at hread
  cases hread
  exact ⟨by decide +kernel, by decide +kernel⟩

/-- Two files with names that are not UTF-8, walked in this order. -/
def latinTree : Tree where
  entries := [([[97, 233]], .plain (.node (.file [1]))), ([[98, 233]], .plain (.node (.file [2])))]
  nodup := by decide
  nonempty := by decide
  legal := by decide
  parents := by decide

/-- The same, walked in the other order. -/
def turnedTree : Tree where
  entries := [([[98, 233]], .plain (.node (.file [2]))), ([[97, 233]], .plain (.node (.file [1])))]
  nodup := by decide
  nonempty := by decide
  legal := by decide
  parents := by decide

/-- A link is refused although it is left out; and with no link, the first error is that of the
entry that is walked first. -/
theorem not_walkBundle_agree :
    (¬∀ (g : Glob) (a b : Tree), Agree (g := g) {} a b →
      walkBundle g {} a.entries = walkBundle g {} b.entries)
    ∧ ¬∀ (g : Glob) (a b : Tree), Agree (g := g) {} a b →
      (∀ e ∈ a.entries ++ b.entries, e.2.isSymlink = false) →
      walkBundle g {} a.entries = walkBundle g {} b.entries := by
  refine ⟨fun h => ?_, fun h => ?_⟩
  · have hagree : Agree (g := plainGlob) {} cleanTree linkedTree :=
      agree_built rfl rfl (by decide +kernel)
    have hclean : walkBundle plainGlob {} cleanTree.entries
        = .ok [⟨".agenomicignore", Fs.name "notes"⟩, ⟨"genome.yaml", [1, 2]⟩] := by decide +kernel
    have hlinked : walkBundle plainGlob {} linkedTree.entries
        = .error (.symlinkRejected "target/debug") := by decide +kernel
    have heq := h plainGlob cleanTree linkedTree hagree
    rw [hclean, hlinked] at heq
    cases heq
  · have hagree : Agree (g := plainGlob) {} latinTree turnedTree :=
      ⟨by decide +kernel, fun _ _ e _ => (List.Perm.swap _ _ []).mem_iff⟩
    have heq := h plainGlob latinTree turnedTree hagree (by decide)
    exact absurd heq (by decide +kernel)

end Agenomic.Bundle
