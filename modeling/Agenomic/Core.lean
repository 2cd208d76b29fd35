import Agenomic.Lib.Text

/-!
# The diagnostic errors of the workspace

The variants of `CliError` the modelled crates raise, with the texts they render.
Integer overflow is not one of them: it stops the call instead of returning, and
`overflow` stands for that.
-/

namespace Agenomic

open Lib

/-- What a call can fail with. -/
inductive CliError where
  | io (path source : String)
  | pathTraversal (path : String)
  | symlinkRejected (path : String)
  | schema (message : String)
  | internal (message : String)
  | ledgerIntegrity (reason : String)
  | ledgerSignatureInvalid (entryId : String)
  | ledgerKeyStore (message : String)
  | ledgerConflict (reason : String)
  | ledgerBusy (reason : String)
  | ledgerCloudUnavailable (reason : String)
  | atepIntegrity (reason : String)
  | atepSignatureInvalid (eventId : String)
  /-- An unsigned addition left its range. -/
  | overflow
  deriving DecidableEq, Repr

/-- The result of a fallible call. -/
abbrev CliResult (α : Type) := Except CliError α

/-- The text an error renders to. -/
def CliError.toText : CliError → String
  | .io path source => s!"io error at {path}: {source}"
  | .pathTraversal path => s!"path traversal detected: {path}"
  | .symlinkRejected path => s!"symlink rejected: {path}"
  | .schema message => s!"schema error: {message}"
  | .internal message => s!"internal error: {message}"
  | .ledgerIntegrity reason => s!"ledger integrity check failed: {reason}"
  | .ledgerSignatureInvalid entryId => s!"ledger signature verification failed for entry {entryId}"
  | .ledgerKeyStore message => s!"ledger key store error: {message}"
  | .ledgerConflict reason => s!"ledger append conflict: {reason}"
  | .ledgerBusy reason => s!"ledger is saturated: {reason}"
  | .ledgerCloudUnavailable reason => s!"ledger cloud mode is not yet available: {reason}"
  | .atepIntegrity reason => s!"ATEP integrity check failed: {reason}"
  | .atepSignatureInvalid eventId => s!"ATEP signature verification failed for event {eventId}"
  | .overflow => "attempt to add with overflow"

/-- A 64-bit unsigned addition that stops the call when it leaves its range. -/
def addU64 (a b : Nat) : CliResult Nat :=
  if a + b < 18446744073709551616 then .ok (a + b) else .error .overflow

theorem addU64_ok {a b : Nat} (h : a + b < 18446744073709551616) : addU64 a b = .ok (a + b) :=
  if_pos h

theorem addU64_eq {a b n : Nat} (h : addU64 a b = .ok n) : n = a + b := by
  unfold addU64 at h
  split at h
  · cases h
    rfl
  · cases h

theorem addU64_lt {a b n : Nat} (h : addU64 a b = .ok n) : a + b < 18446744073709551616 := by
  unfold addU64 at h
  split at h
  · assumption
  · cases h

/-- Read a bind of two fallible calls apart. -/
theorem bind_eq_ok {ε α β : Type} {x : Except ε α} {f : α → Except ε β} {b : β} :
    (x >>= f) = .ok b ↔ ∃ a, x = .ok a ∧ f a = .ok b := by
  cases x with
  | error e =>
      constructor
      · intro h; cases h
      · rintro ⟨a, h, _⟩; cases h
  | ok a =>
      constructor
      · intro h; exact ⟨a, rfl, h⟩
      · rintro ⟨a', h, hf⟩; cases h; exact hf

end Agenomic
