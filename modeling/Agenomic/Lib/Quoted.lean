import Mathlib.Data.List.Basic

/-!
# Double-quoted scalars

What stands between the quotation marks of a double-quoted scalar is read in three steps:
the two characters of a Windows line break become one, escapes are replaced, and lines are
folded. Which characters may stand there at all, and which of them break a line, differs
between the versions of the format, so both are given.

A text that was quoted with nothing but backslashes and quotation marks escaped reads back
as its folded lines (`read_escape`), and that is the text itself exactly when no
character of it breaks a line: **`read_escape_eq_some_iff`**.
-/

namespace Lib.Quoted

/-- A character as it stands there, or one that an escape stands for. -/
inductive Piece where
  | raw (c : Char)
  | escaped (c : Char)

/-- What an escape of one letter stands for. -/
def escapeLetter : Char → Option Char
  | '0' => some (Char.ofNat 0)
  | 'a' => some (Char.ofNat 7)
  | 'b' => some (Char.ofNat 8)
  | 't' => some '\t'
  | 'n' => some '\n'
  | 'v' => some (Char.ofNat 11)
  | 'f' => some (Char.ofNat 12)
  | 'r' => some '\r'
  | 'e' => some (Char.ofNat 27)
  | ' ' => some ' '
  | '"' => some '"'
  | '/' => some '/'
  | '\\' => some '\\'
  | 'N' => some (Char.ofNat 0x85)
  | '_' => some (Char.ofNat 0xA0)
  | 'L' => some (Char.ofNat 0x2028)
  | 'P' => some (Char.ofNat 0x2029)
  | _ => none

/-- One line feed in place of a carriage return and a line feed. -/
def unixBreaks : List Char → List Char
  | [] => []
  | c :: rest =>
      if c = '\r' ∧ rest.head? = some '\n' then unixBreaks rest else c :: unixBreaks rest

/-- The escapes of one letter are replaced; the others, by the number of a character or at
the end of a line, are left out. -/
def pieces : List Char → Option (List Piece)
  | [] => some []
  | c :: rest =>
      if c = '\\' then
        match rest with
        | [] => none
        | d :: rest' => do
            let e ← escapeLetter d
            let ps ← pieces rest'
            return .escaped e :: ps
      else if c = '"' then none
      else (pieces rest).map (.raw c :: ·)

section

variable (accepts isBreak : Char → Bool)

/-- What a gap comes to in which `n` lines end: its blanks, a space, or the breaks but one. -/
def gap (blanks : List Char) (n : Nat) : List Char :=
  match n with
  | 0 => blanks
  | 1 => [' ']
  | k + 2 => List.replicate (k + 1) '\n'

/-- Fold the lines, in a gap with some blanks before its first line break. -/
def foldLines (blanks : List Char) (n : Nat) : List Piece → List Char
  | [] => gap blanks n
  | .escaped c :: rest => gap blanks n ++ c :: foldLines [] 0 rest
  | .raw c :: rest =>
      if isBreak c then foldLines blanks (n + 1) rest
      else if c = ' ' ∨ c = '\t' then
        foldLines (if n = 0 then blanks ++ [c] else blanks) n rest
      else gap blanks n ++ c :: foldLines [] 0 rest

/-- What the text between the quotation marks stands for. -/
def read (text : List Char) : Option (List Char) :=
  if text.all accepts then (pieces (unixBreaks text)).map (foldLines isBreak [] 0) else none

end

/-! ## Escaping backslashes and quotation marks -/

/-- A quoter that escapes what ends the scalar or starts an escape, and nothing else. -/
def escapeChar (c : Char) : List Char := if c = '\\' ∨ c = '"' then ['\\', c] else [c]

def escape (text : List Char) : List Char := text.flatMap escapeChar

/-- The pieces of an escaped text. -/
def marked (c : Char) : Piece := if c = '\\' ∨ c = '"' then .escaped c else .raw c

theorem escape_cons (c : Char) (text : List Char) :
    escape (c :: text) = escapeChar c ++ escape text := rfl

theorem pieces_escaped {c d : Char} (h : escapeLetter c = some d) (rest : List Char) :
    pieces ('\\' :: c :: rest) = (pieces rest).map (.escaped d :: ·) := by
  conv_lhs => unfold pieces
  rw [if_pos rfl]
  dsimp only
  rw [h]
  cases pieces rest <;> rfl

theorem pieces_raw {c : Char} (hc : ¬(c = '\\' ∨ c = '"')) (rest : List Char) :
    pieces (c :: rest) = (pieces rest).map (.raw c :: ·) := by
  conv_lhs => unfold pieces
  rw [if_neg fun h => hc (.inl h), if_neg fun h => hc (.inr h)]

theorem pieces_escape (text : List Char) : pieces (escape text) = some (text.map marked) := by
  induction text with
  | nil => rfl
  | cons c rest ih =>
      rw [escape_cons, List.map_cons, escapeChar, marked]
      by_cases hc : c = '\\' ∨ c = '"'
      · have he : escapeLetter c = some c := by
          rcases hc with rfl | rfl <;> rfl
        rw [if_pos hc, if_pos hc, List.cons_append, List.cons_append, List.nil_append,
          pieces_escaped he, ih]
        rfl
      · rw [if_neg hc, if_neg hc, List.singleton_append, pieces_raw hc, ih]
        rfl

theorem head?_escape (text : List Char) :
    (escape text).head? = some '\n' ↔ text.head? = some '\n' := by
  cases text with
  | nil => rfl
  | cons c rest =>
      rw [escape_cons, escapeChar]
      by_cases hc : c = '\\' ∨ c = '"'
      · rw [if_pos hc]
        rcases hc with rfl | rfl <;> simp
      · rw [if_neg hc]
        rfl

theorem unixBreaks_cons {c : Char} (hc : c ≠ '\r') (rest : List Char) :
    unixBreaks (c :: rest) = c :: unixBreaks rest := by
  rw [unixBreaks, if_neg fun h => hc h.1]

theorem unixBreaks_escape (text : List Char) :
    unixBreaks (escape text) = escape (unixBreaks text) := by
  induction text with
  | nil => rfl
  | cons c rest ih =>
      rw [escape_cons, escapeChar]
      by_cases hc : c = '\\' ∨ c = '"'
      · have hr : c ≠ '\r' := by
          rcases hc with rfl | rfl <;> decide
        rw [if_pos hc, List.cons_append, List.cons_append, List.nil_append,
          unixBreaks_cons (by decide), unixBreaks_cons hr, unixBreaks_cons hr, ih, escape_cons,
          escapeChar, if_pos hc]
        rfl
      · rw [if_neg hc, List.singleton_append, unixBreaks, unixBreaks]
        by_cases hcrlf : c = '\r' ∧ rest.head? = some '\n'
        · rw [if_pos hcrlf, if_pos ⟨hcrlf.1, (head?_escape rest).mpr hcrlf.2⟩, ih]
        · rw [if_neg hcrlf, if_neg fun h => hcrlf ⟨h.1, (head?_escape rest).mp h.2⟩, ih,
            escape_cons, escapeChar, if_neg hc]
          rfl

theorem all_escape {accepts : Char → Bool} (hslash : accepts '\\') (text : List Char) :
    (escape text).all accepts = text.all accepts := by
  induction text with
  | nil => rfl
  | cons c rest ih =>
      rw [escape_cons, List.all_append, ih, List.all_cons, escapeChar]
      by_cases hc : c = '\\' ∨ c = '"'
      · rw [if_pos hc]
        simp [hslash]
      · rw [if_neg hc]
        simp

section

variable {accepts isBreak : Char → Bool}

/-- An escaped text reads back as its lines, folded. -/
theorem read_escape (hslash : accepts '\\') (text : List Char) :
    read accepts isBreak (escape text)
      = if text.all accepts then
          some (foldLines isBreak [] 0 ((unixBreaks text).map marked))
        else none := by
  rw [read, all_escape hslash, unixBreaks_escape, pieces_escape]
  rfl

/-! ## What folding keeps -/

/-- What the versions of the format agree on. -/
structure BreaksLines (isBreak : Char → Bool) : Prop where
  carriageReturn : isBreak '\r' = true
  lineFeed : isBreak '\n' = true
  ascii : ∀ c, ' ' ≤ c → c ≤ '~' → isBreak c = false

theorem foldLines_of_no_break {text : List Char} (h : ∀ c ∈ text, isBreak c = false)
    (blanks : List Char) : foldLines isBreak blanks 0 (text.map marked) = blanks ++ text := by
  induction text generalizing blanks with
  | nil => exact (List.append_nil blanks).symm
  | cons c rest ih =>
      have hrest : ∀ d ∈ rest, isBreak d = false := fun d hd => h d (List.mem_cons_of_mem c hd)
      rw [List.map_cons, marked]
      by_cases hc : c = '\\' ∨ c = '"'
      · rw [if_pos hc, foldLines, ih hrest]
        rfl
      · rw [if_neg hc, foldLines, h c List.mem_cons_self, if_neg Bool.false_ne_true]
        by_cases hblank : c = ' ' ∨ c = '\t'
        · rw [if_pos hblank, if_pos rfl, ih hrest, List.append_assoc, List.singleton_append]
        · rw [if_neg hblank, ih hrest]
          rfl

theorem unixBreaks_of_no_break (hb : BreaksLines isBreak) {text : List Char}
    (h : ∀ c ∈ text, isBreak c = false) : unixBreaks text = text := by
  induction text with
  | nil => rfl
  | cons c rest ih =>
      have hc : c ≠ '\r' := by
        intro hc
        have := h c List.mem_cons_self
        rw [hc, hb.carriageReturn] at this
        cases this
      rw [unixBreaks_cons hc, ih fun d hd => h d (List.mem_cons_of_mem c hd)]

/-! ## What folding loses -/

theorem countP_eq_zero {text : List Char} (h : ∀ c ∈ text, isBreak c = false) :
    text.countP isBreak = 0 := by
  rw [List.countP_eq_zero]
  intro c hc
  rw [h c hc]
  exact Bool.false_ne_true

/-- Of the line breaks in a gap at least one is lost. -/
theorem countP_gap (hb : BreaksLines isBreak) {blanks : List Char}
    (hblanks : ∀ c ∈ blanks, isBreak c = false) (n : Nat) :
    (gap blanks n).countP isBreak ≤ n - 1 := by
  match n with
  | 0 => exact Nat.le_of_eq (countP_eq_zero hblanks)
  | 1 =>
      rw [gap, List.countP_singleton, hb.ascii ' ' (by decide) (by decide)]
      exact Nat.le_refl 0
  | k + 2 =>
      have hle := List.countP_le_length (p := isBreak) (l := List.replicate (k + 1) '\n')
      rw [List.length_replicate] at hle
      exact hle

/-- And so of those in a text. -/
theorem countP_foldLines (hb : BreaksLines isBreak) (text : List Char) {blanks : List Char}
    (hblanks : ∀ c ∈ blanks, isBreak c = false) (n : Nat) :
    (foldLines isBreak blanks n (text.map marked)).countP isBreak
      ≤ n + text.countP isBreak - 1 := by
  induction text generalizing blanks n with
  | nil => exact countP_gap hb hblanks n
  | cons c rest ih =>
      have hgap := countP_gap hb hblanks n
      have hnone : ∀ d ∈ ([] : List Char), isBreak d = false := fun d hd =>
        absurd hd List.not_mem_nil
      rw [List.map_cons, marked]
      by_cases hc : c = '\\' ∨ c = '"'
      · have hcb : isBreak c = false := by
          rcases hc with rfl | rfl
          · exact hb.ascii _ (by decide) (by decide)
          · exact hb.ascii _ (by decide) (by decide)
        have hrest := ih hnone 0
        rw [if_pos hc, foldLines, List.countP_append, List.countP_cons, List.countP_cons, hcb,
          if_neg Bool.false_ne_true]
        omega
      · rw [if_neg hc, foldLines]
        cases hcb : isBreak c with
        | true =>
            have hrest := ih hblanks (n + 1)
            rw [if_pos rfl, List.countP_cons, hcb, if_pos rfl]
            omega
        | false =>
            rw [if_neg Bool.false_ne_true, List.countP_cons, hcb, if_neg Bool.false_ne_true]
            by_cases hblank : c = ' ' ∨ c = '\t'
            · rw [if_pos hblank]
              refine ih (fun d hd => ?_) n
              by_cases hn : n = 0
              · rw [if_pos hn] at hd
                rcases List.mem_append.mp hd with hd | hd
                · exact hblanks d hd
                · rw [List.mem_singleton.mp hd, hcb]
              · rw [if_neg hn] at hd
                exact hblanks d hd
            · have hrest := ih hnone 0
              rw [if_neg hblank, List.countP_append, List.countP_cons, hcb,
                if_neg Bool.false_ne_true]
              omega

theorem countP_unixBreaks_le (text : List Char) :
    (unixBreaks text).countP isBreak ≤ text.countP isBreak := by
  induction text with
  | nil => exact Nat.le_refl 0
  | cons c rest ih =>
      rw [unixBreaks, List.countP_cons]
      by_cases h : c = '\r' ∧ rest.head? = some '\n'
      · rw [if_pos h]
        omega
      · rw [if_neg h, List.countP_cons]
        omega

/-- The text itself is read exactly if all its characters may stand there and none of them
breaks a line. -/
theorem read_escape_eq_some_iff (hslash : accepts '\\') (hb : BreaksLines isBreak)
    (text : List Char) :
    read accepts isBreak (escape text) = some text
      ↔ ∀ c ∈ text, accepts c = true ∧ isBreak c = false := by
  rw [read_escape hslash]
  by_cases hall : text.all accepts = true
  · rw [if_pos hall]
    rw [List.all_eq_true] at hall
    constructor
    · intro h c hc
      refine ⟨hall c hc, ?_⟩
      by_contra hcb
      -- a break is lost somewhere, so the texts differ in how many they have
      have hpos : 0 < text.countP isBreak :=
        List.countP_pos_iff.mpr ⟨c, hc, eq_true_of_ne_false hcb⟩
      have hlost := countP_foldLines hb (unixBreaks text)
        (fun d hd => absurd hd (List.not_mem_nil (a := d))) 0
      have hle : (unixBreaks text).countP isBreak ≤ text.countP isBreak :=
        countP_unixBreaks_le text
      rw [Option.some.inj h] at hlost
      omega
    · intro h
      have hnone : ∀ c ∈ text, isBreak c = false := fun c hc => (h c hc).2
      rw [unixBreaks_of_no_break hb hnone, foldLines_of_no_break hnone]
      rfl
  · rw [if_neg hall]
    constructor
    · intro h
      cases h
    · intro h
      exact absurd (List.all_eq_true.mpr fun c hc => (h c hc).1) hall

end

end Lib.Quoted
