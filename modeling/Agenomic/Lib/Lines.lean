import Agenomic.Lib.Text

/-!
# Logs of lines

An append-only log with one record on each line. Reading it splits the text into
lines, skips the blank ones and reads every other line as a record; the first
line that is none fails the whole log.

A log of whole lines reads back as its records (**`read_encode`**), and so does one
whose last line feed is missing (`read_unended`): those are the two shapes a
log can have after a write that failed late.
-/

namespace Lib

/-! ## Lines -/

/-- The line in front of a line feed, a carriage return at its end being part of the break. -/
def stripReturn (l : List Char) : List Char := if l.getLast? = some '\r' then l.dropLast else l

/-- The lines of a text, behind what was already read of the first. -/
def linesFrom (line : List Char) : List Char → List (List Char)
  | [] => if line = [] then [] else [line]
  | c :: cs => if c = '\n' then stripReturn line :: linesFrom [] cs else linesFrom (line ++ [c]) cs

/-- The lines of a text, without their breaks. -/
def lines (text : List Char) : List (List Char) := linesFrom [] text

theorem linesFrom_append {l : List Char} (h : ∀ c ∈ l, c ≠ '\n') (line rest : List Char) :
    linesFrom line (l ++ rest) = linesFrom (line ++ l) rest := by
  induction l generalizing line with
  | nil => rw [List.append_nil]; rfl
  | cons c l ih =>
      rw [List.cons_append, linesFrom, if_neg (h c List.mem_cons_self),
        ih (fun x hx => h x (List.mem_cons_of_mem _ hx)), List.append_assoc, List.singleton_append]

theorem stripReturn_eq {l : List Char} (h : ∀ c ∈ l, c ≠ '\r') : stripReturn l = l := by
  rw [stripReturn, if_neg]
  intro hr
  exact h _ (List.mem_of_getLast? hr) rfl

/-- A line that holds no break is read off the front of a text. -/
theorem lines_cons {l : List Char} (h : ∀ c ∈ l, c ≠ '\n' ∧ c ≠ '\r') (rest : List Char) :
    lines (l ++ '\n' :: rest) = l :: lines rest := by
  rw [lines, linesFrom_append (fun c hc => (h c hc).1), List.nil_append, linesFrom, if_pos rfl,
    stripReturn_eq fun c hc => (h c hc).2]
  rfl

theorem lines_unended {l : List Char} (h : ∀ c ∈ l, c ≠ '\n') (hl : l ≠ []) : lines l = [l] := by
  have := linesFrom_append h [] []
  rw [List.append_nil, List.nil_append, linesFrom, if_neg hl] at this
  exact this

/-! ## Logs -/

/-- Why a log cannot be read. -/
inductive LogError where
  /-- It is not UTF-8. -/
  | notUtf8
  /-- A line, counted from one, is no record. -/
  | badLine (number : Nat)
  deriving DecidableEq, Repr

/-- How records are written on a line and read back. -/
structure LineFormat (α : Type) where
  write : α → List Char
  parse : List Char → Option α
  parse_write : ∀ a, parse (write a) = some a
  noBreak : ∀ a, ∀ c ∈ write a, c ≠ '\n' ∧ c ≠ '\r'
  notBlank : ∀ a, (write a).all isWhiteSpace = false

namespace LineFormat

variable {α : Type} (F : LineFormat α)

/-- The bytes of a record and its line feed. -/
def line (a : α) : Bytes := utf8Encode (F.write a ++ ['\n'])

/-- A log with the given records. -/
def encode (as : List α) : Bytes := as.flatMap F.line

/-- Read lines as records, the first of them numbered one above `n`. -/
def readLines (n : Nat) : List (List Char) → Except LogError (List α)
  | [] => .ok []
  | l :: ls =>
      if l.all isWhiteSpace then readLines (n + 1) ls
      else match F.parse l with
        | none => .error (.badLine (n + 1))
        | some a => (readLines (n + 1) ls).map fun as => a :: as

/-- Read a log. -/
def read (bytes : Bytes) : Except LogError (List α) :=
  match utf8Decode bytes with
  | none => .error .notUtf8
  | some text => F.readLines 0 (lines text)

variable {F}

theorem write_ne_nil (a : α) : F.write a ≠ [] := by
  intro h
  have := F.notBlank a
  rw [h] at this
  cases this

theorem encode_append (as bs : List α) : F.encode (as ++ bs) = F.encode as ++ F.encode bs :=
  List.flatMap_append

theorem encode_snoc (as : List α) (a : α) : F.encode (as ++ [a]) = F.encode as ++ F.line a := by
  rw [encode_append]
  congr 1
  exact List.flatMap_singleton _ _

theorem encode_eq_utf8Encode (as : List α) :
    F.encode as = utf8Encode (as.flatMap fun a => F.write a ++ ['\n']) := by
  rw [encode, utf8Encode, List.flatMap_assoc]
  rfl

/-- The lines of records, whatever stands behind them. -/
theorem lines_flatMap (as : List α) (rest : List Char) :
    lines ((as.flatMap fun a => F.write a ++ ['\n']) ++ rest) = as.map F.write ++ lines rest := by
  induction as with
  | nil => rfl
  | cons a as ih =>
      rw [List.flatMap_cons, List.append_assoc, List.append_assoc, List.singleton_append,
        lines_cons (F.noBreak a), ih]
      rfl

theorem readLines_map (as : List α) (n : Nat) : F.readLines n (as.map F.write) = .ok as := by
  induction as generalizing n with
  | nil => rfl
  | cons a as ih =>
      rw [List.map_cons, readLines, F.notBlank, if_neg Bool.false_ne_true, F.parse_write]
      dsimp only
      rw [ih]
      rfl

/-- **A log of whole lines reads back as its records.** -/
@[simp] theorem read_encode (as : List α) : F.read (F.encode as) = .ok as := by
  have hlines := lines_flatMap (F := F) as []
  rw [List.append_nil, show lines [] = [] from rfl, List.append_nil] at hlines
  rw [read, encode_eq_utf8Encode, utf8Decode_utf8Encode]
  dsimp only
  rw [hlines, readLines_map]

/-- A log reads back as its records when the last line feed is missing. -/
theorem read_unended (as : List α) (a : α) :
    F.read (F.encode as ++ utf8Encode (F.write a)) = .ok (as ++ [a]) := by
  have hlast : lines (F.write a) = [F.write a] :=
    lines_unended (fun c hc => (F.noBreak a c hc).1) (write_ne_nil a)
  rw [read, encode_eq_utf8Encode, ← utf8Encode_append, utf8Decode_utf8Encode]
  dsimp only
  rw [lines_flatMap, hlast, ← readLines_map (F := F) (as ++ [a]) 0, List.map_append,
    List.map_singleton]

/-- An empty log holds nothing. -/
theorem read_nil : F.read [] = .ok [] := read_encode []

/-! ## Writes that fail -/

/-- A log that reads as records with a property. -/
def Reads (F : LineFormat α) (p : List α → Prop) (log : Bytes) : Prop :=
  ∃ as, F.read log = .ok as ∧ p as

/-- A write of a line that stops there leaves nothing of it, or all but the line feed at
most. -/
def StopsClean (F : LineFormat α) (a : α) (k : Nat) : Prop := k = 0 ∨ (F.line a).length ≤ k + 1

theorem line_eq (a : α) : F.line a = utf8Encode (F.write a) ++ utf8Encode ['\n'] :=
  utf8Encode_append _ _

/-- What a clean stop leaves reads as the record or as nothing. -/
theorem read_take {as : List α} {a : α} {k : Nat} (h : F.StopsClean a k) :
    F.read (F.encode as ++ (F.line a).take k) = .ok as
      ∨ F.read (F.encode as ++ (F.line a).take k) = .ok (as ++ [a]) := by
  rcases h with rfl | hk
  · left
    rw [List.take_zero, List.append_nil, read_encode]
  · right
    rcases Nat.lt_or_ge k (F.line a).length with hlt | hge
    · have hlen : (F.line a).length = (utf8Encode (F.write a)).length + 1 := by
        rw [line_eq, List.length_append]
        rfl
      have htake : (F.line a).take k = utf8Encode (F.write a) := by
        rw [line_eq, show k = (utf8Encode (F.write a)).length by omega, List.take_left]
      rw [htake, read_unended]
    · rw [List.take_of_length_le hge, ← encode_snoc, read_encode]

/-- **A write onto whole lines that stops clean leaves a log that reads.** -/
theorem reads_take {p : List α → Prop} {as : List α} {a : α} {k : Nat} (hk : F.StopsClean a k)
    (has : p as) (ha : p (as ++ [a])) : F.Reads p (F.encode as ++ (F.line a).take k) := by
  rcases read_take hk with h | h
  · exact ⟨as, h, has⟩
  · exact ⟨as ++ [a], h, ha⟩

end LineFormat

end Lib
