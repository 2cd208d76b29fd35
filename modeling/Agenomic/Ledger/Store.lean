import Agenomic.Ledger.Entry
import Agenomic.Lib.Directory

/-!
# The ledger store

A directory with the append-only log `ledger.jsonl`, one entry on a line, and
`manifest.json`, which counts the entries and names the head. The line is written
and flushed before the manifest is replaced, and every one of these calls can
fail: `LogOutcome` says how.

**`append_spec`** is all that is used of an append: it leaves a prefix of one line
behind, the whole line if it succeeds.
-/

namespace Agenomic.Ledger

open Lib

def ledgerManifestVersion : String := "agenomic.ledger.store/v0.1"

/-- File name of the store manifest. -/
def ledgerManifestFile : String := "manifest.json"

/-- File name of the append-only entry log. -/
def ledgerLogFile : String := "ledger.jsonl"

/-- Entries as the log writes them. -/
def entryLines : LineFormat LedgerEntry :=
  Json.lineFormat LedgerEntry.fields LedgerEntry.fieldNames LedgerEntry.ofFields
    LedgerEntry.keys_fields_nodup fun _ => LedgerEntry.ofFields_of_lookup fun _ => rfl

/-- How many entries there are, and the hash of the latest. -/
structure LedgerManifest where
  manifestVersion : String
  entryCount : Nat
  headHash : String
  deriving DecidableEq, Repr

namespace LedgerManifest

def fields (m : LedgerManifest) : Json.Fields :=
  [("manifest_version", .str m.manifestVersion), ("entry_count", .num m.entryCount),
    ("head_hash", .str m.headHash)]

/-- The manifest file. -/
def toVecPretty (m : LedgerManifest) : Bytes := utf8Encode (Json.writePretty m.fields)

/-- A manifest read back from its file. -/
def fromStr (raw : Bytes) : Option LedgerManifest := do
  let text ← utf8Decode raw
  let fs ← Json.members ["manifest_version", "entry_count", "head_hash"] (← Json.parse text)
  let manifestVersion ← Json.getStr "manifest_version" fs
  let entryCount ← Json.getNat "entry_count" fs
  let headHash ← Json.getStr "head_hash" fs
  some { manifestVersion, entryCount, headHash }

theorem fromStr_toVecPretty (m : LedgerManifest) : fromStr m.toVecPretty = some m := by
  have hfs : Json.members ["manifest_version", "entry_count", "head_hash"] (.obj m.fields)
      = some m.fields :=
    Json.members_obj (show ["manifest_version", "entry_count", "head_hash"].Nodup by decide)
  have h1 : Json.getStr "manifest_version" m.fields = some m.manifestVersion :=
    Json.getStr_of_lookup rfl
  have h2 : Json.getNat "entry_count" m.fields = some m.entryCount := Json.getNat_of_lookup rfl
  have h3 : Json.getStr "head_hash" m.fields = some m.headHash := Json.getStr_of_lookup rfl
  simp only [fromStr, toVecPretty, utf8Decode_utf8Encode, Json.parse_writePretty, hfs, h1, h2, h3,
    Option.bind_eq_bind, Option.bind_some]

/-- The manifest of an empty store. -/
def empty : LedgerManifest := ⟨ledgerManifestVersion, 0, genesisEntryHash⟩

end LedgerManifest

/-- How the calls an append makes fare: a write that fails leaves that many bytes. -/
structure LogOutcome where
  opened : Bool
  write : Option Nat
  synced : Bool
  saved : Bool
  deriving DecidableEq, Repr

/-- Every call succeeds. -/
def LogOutcome.ok : LogOutcome := ⟨true, none, true, true⟩

/-- The calls leave no bytes behind. -/
def LogOutcome.LeavesNothing (io : LogOutcome) : Prop := io.opened = false ∨ io.write = some 0

/-- What the calls leave of a line. -/
def LogOutcome.written (io : LogOutcome) (line : Bytes) : Bytes :=
  if !io.opened then []
  else match io.write with
    | some k => line.take k
    | none => line

theorem LogOutcome.written_eq (io : LogOutcome) (line : Bytes) :
    io.written line = [] ∨ (∃ k, io.write = some k ∧ io.written line = line.take k)
      ∨ io.written line = line := by
  rw [written]
  split
  · exact .inl rfl
  · split
    · rename_i k hk
      exact .inr (.inl ⟨k, hk, rfl⟩)
    · exact .inr (.inr rfl)

theorem LogOutcome.LeavesNothing.written {io : LogOutcome} (h : io.LeavesNothing)
    (line : Bytes) : io.written line = [] := by
  rw [LogOutcome.written]
  rcases h with h | h
  · rw [h]
    rfl
  · rw [h]
    cases io.opened <;> rfl

/-- An open store; the directory it is rooted at is passed along. -/
structure FileLedgerStore where
  manifest : LedgerManifest
  deriving DecidableEq, Repr

namespace FileLedgerStore

/-- Open the store of a directory, an empty one if there is none. -/
def «open» (d : Directory) : CliResult FileLedgerStore :=
  match d[ledgerManifestFile]? with
  | none => .ok ⟨LedgerManifest.empty⟩
  | some raw =>
      match LedgerManifest.fromStr raw with
      | none => .error (.schema "parse ledger manifest")
      | some m =>
          if m.manifestVersion ≠ ledgerManifestVersion then
            .error (.schema (s!"unsupported ledger manifest version {m.manifestVersion.quote} " ++
              s!"(expected {ledgerManifestVersion.quote})"))
          else .ok ⟨m⟩

/-- The manifest once it counts one more entry. -/
def count (s : FileLedgerStore) (e : LedgerEntry) : FileLedgerStore :=
  ⟨{ s.manifest with entryCount := s.manifest.entryCount + 1, headHash := e.entryHash }⟩

/-- Replace the manifest file, or leave it as it is. -/
def saveManifest (s : FileLedgerStore) (d : Directory) : Directory :=
  d.insert ledgerManifestFile s.manifest.toVecPretty

/-- Append one sealed entry. -/
def append (s : FileLedgerStore) (d : Directory) (io : LogOutcome) (e : LedgerEntry) :
    FileLedgerStore × Directory × CliResult Unit :=
  if !io.opened then (s, d, .error (.io ledgerLogFile "open failed"))
  else match io.write with
    | some k =>
        (s, d.appendBytes ledgerLogFile ((entryLines.line e).take k),
          .error (.io ledgerLogFile "write failed"))
    | none =>
        let d := d.appendBytes ledgerLogFile (entryLines.line e)
        if !io.synced then (s, d, .error (.io ledgerLogFile "fsync failed"))
        else
          -- the count advances before the manifest is known to be saved
          let s := s.count e
          if io.saved then (s, s.saveManifest d, .ok ())
          else (s, d, .error (.io ledgerManifestFile "write failed"))

/-- All entries in append order. -/
def readAll (d : Directory) : CliResult (List LedgerEntry) :=
  match d[ledgerLogFile]? with
  | none => .ok []
  | some raw =>
      match entryLines.read raw with
      | .ok es => .ok es
      | .error .notUtf8 => .error (.io ledgerLogFile "stream did not contain valid UTF-8")
      | .error (.badLine n) => .error (.ledgerIntegrity s!"corrupt ledger log line {n}")

/-- Number of entries the manifest counts. -/
def len (s : FileLedgerStore) : Nat := s.manifest.entryCount

/-! ## What an append leaves behind -/

theorem ledgerManifestFile_ne : ledgerManifestFile ≠ ledgerLogFile := by decide

theorem readAll_eq_ok {d : Directory} {es : List LedgerEntry} :
    readAll d = .ok es ↔ entryLines.read (d.content ledgerLogFile) = .ok es := by
  rw [Directory.content, readAll]
  cases hd : d[ledgerLogFile]? with
  | none =>
      rw [Option.getD_none, LineFormat.read_nil, Except.ok.injEq, Except.ok.injEq]
  | some raw =>
      rw [Option.getD_some]
      dsimp only
      cases entryLines.read raw with
      | ok es' =>
          dsimp only
          rw [Except.ok.injEq, Except.ok.injEq]
      | error e =>
          constructor
          · intro h
            cases e <;> cases h
          · intro h
            cases h

/-- The log of a directory holds exactly these entries, each on a whole line. -/
theorem readAll_encode {d : Directory} {es : List LedgerEntry}
    (h : d.content ledgerLogFile = entryLines.encode es) : readAll d = .ok es :=
  readAll_eq_ok.mpr (by rw [h, LineFormat.read_encode])

theorem content_saveManifest (s : FileLedgerStore) (d : Directory) :
    (s.saveManifest d).content ledgerLogFile = d.content ledgerLogFile := by
  rw [saveManifest, Directory.content, Directory.getElem?_insert_of_ne _ ledgerManifestFile_ne]
  rfl

/-- The manifest file reads as one of this version, or there is none. -/
def ManifestReadable (d : Directory) : Prop :=
  ∀ raw, d[ledgerManifestFile]? = some raw →
    ∃ m, LedgerManifest.fromStr raw = some m ∧ m.manifestVersion = ledgerManifestVersion

/-- The manifest in memory is of this version. -/
def Current (s : FileLedgerStore) : Prop := s.manifest.manifestVersion = ledgerManifestVersion

/-- A store opens exactly on a readable manifest, and then has a current one. -/
theorem open_of_readable {d : Directory} (h : ManifestReadable d) :
    ∃ s, FileLedgerStore.open d = .ok s ∧ s.Current := by
  rw [FileLedgerStore.open]
  cases hraw : d[ledgerManifestFile]? with
  | none => exact ⟨_, rfl, rfl⟩
  | some raw =>
      obtain ⟨m, hread, hm⟩ := h raw hraw
      dsimp only
      rw [hread]
      dsimp only
      rw [if_neg (not_not.mpr hm)]
      exact ⟨_, rfl, hm⟩

theorem readable_of_open {d : Directory} {s : FileLedgerStore}
    (h : FileLedgerStore.open d = .ok s) : ManifestReadable d ∧ s.Current := by
  rw [FileLedgerStore.open] at h
  split at h
  · rename_i hraw
    cases h
    refine ⟨fun raw hraw' => ?_, rfl⟩
    rw [hraw] at hraw'
    cases hraw'
  · rename_i raw hraw
    split at h
    · cases h
    rename_i m hread
    split at h
    · cases h
    · rename_i hm
      rw [not_not] at hm
      cases h
      refine ⟨fun raw' hraw' => ?_, hm⟩
      rw [hraw] at hraw'
      cases hraw'
      exact ⟨m, hread, hm⟩

theorem manifestReadable_appendBytes {d : Directory} (b : Bytes) (h : ManifestReadable d) :
    ManifestReadable (d.appendBytes ledgerLogFile b) := by
  intro raw hraw
  rw [Directory.appendBytes_of_ne _ ledgerManifestFile_ne.symm] at hraw
  exact h raw hraw

theorem manifestReadable_saveManifest {s : FileLedgerStore} (d : Directory) (h : s.Current) :
    ManifestReadable (s.saveManifest d) := by
  intro raw hraw
  rw [saveManifest, Directory.getElem?_insert_self] at hraw
  cases hraw
  exact ⟨_, LedgerManifest.fromStr_toVecPretty _, h⟩

/-- **What an append does**: it adds `written` to the log and touches the manifest only by
replacing it; it succeeds only with the whole line written. -/
theorem append_spec {s s' : FileLedgerStore} {d d' : Directory} {io : LogOutcome}
    {e : LedgerEntry} {res : CliResult Unit} (h : s.append d io e = (s', d', res)) :
    d'.content ledgerLogFile = d.content ledgerLogFile ++ io.written (entryLines.line e)
      ∧ (s.Current → s'.Current)
      ∧ (s.Current → ManifestReadable d → ManifestReadable d')
      ∧ (res = .ok () → io.written (entryLines.line e) = entryLines.line e) := by
  have hcontent : ∀ b, (d.appendBytes ledgerLogFile b).content ledgerLogFile
      = d.content ledgerLogFile ++ b := fun b =>
    Directory.content_eq (Directory.appendBytes_self d ledgerLogFile b)
  have hcount : s.Current → (s.count e).Current := fun h => h
  rw [append] at h
  rw [LogOutcome.written]
  split at h
  · rename_i ho
    cases h
    exact ⟨by rw [if_pos ho, List.append_nil], fun h => h, fun _ h => h, fun h => by cases h⟩
  rename_i ho
  rw [if_neg ho]
  split at h
  · cases h
    exact ⟨hcontent _, fun h => h, fun _ h => manifestReadable_appendBytes _ h,
      fun h => by cases h⟩
  dsimp only at h
  split at h
  · cases h
    exact ⟨hcontent _, fun h => h, fun _ h => manifestReadable_appendBytes _ h, fun _ => rfl⟩
  split at h
  · cases h
    exact ⟨by rw [content_saveManifest, hcontent], hcount,
      fun h _ => manifestReadable_saveManifest _ (hcount h), fun _ => rfl⟩
  · cases h
    exact ⟨hcontent _, hcount, fun _ h => manifestReadable_appendBytes _ h, fun _ => rfl⟩

/-- An append whose calls all succeed adds the line. -/
theorem append_ok (s : FileLedgerStore) (d : Directory) (e : LedgerEntry) :
    s.append d .ok e = (s.count e, (s.count e).saveManifest (d.appendBytes ledgerLogFile
      (entryLines.line e)), .ok ()) := rfl

end FileLedgerStore

end Agenomic.Ledger
