import Agenomic.Lib.Pattern

/-!
# Redaction

Texts are redacted on the machine before anything is buffered or exported. The configured values
are replaced wherever they occur, the longest first, and then what looks like a credential. A text
is cleaned by redacting it, taking out its control sequences, redacting it again, and bounding it.

Every step of the last redaction replaces parts of the text by one marker. **`clean_redacts`**: so
a configured value that shares nothing with the marker does not survive, unless it ends with the
sign that stands for what a bound cut off.
-/

namespace Agenomic.Connector

open Lib

/-- A text as a script sees it: a sequence of 16-bit units. -/
abbrev JsText := List UInt16

/-- The units of a character: one, or a pair of surrogates. -/
def codeUnits (c : Char) : JsText :=
  if c.toNat < 65536 then [c.toNat.toUInt16]
  else
    [ (55296 + (c.toNat - 65536) / 1024).toUInt16,
      (56320 + (c.toNat - 65536) % 1024).toUInt16 ]

def js (s : String) : JsText := s.toList.flatMap codeUnits

namespace Redact

/-! ## Classes of units -/

def between (first last : Nat) (u : UInt16) : Bool := first ≤ u.toNat && u.toNat ≤ last

def oneOf (units : String) (u : UInt16) : Bool := (js units).contains u

def isDigit : UInt16 → Bool := between 48 57

def isUpper : UInt16 → Bool := between 65 90

def isLower : UInt16 → Bool := between 97 122

def isAlnum (u : UInt16) : Bool := isDigit u || isUpper u || isLower u

/-- `\w`. -/
def isWordUnit (u : UInt16) : Bool := isAlnum u || oneOf "_" u

/-- `\s`, and what `trim` takes off. -/
def isSpace (u : UInt16) : Bool :=
  between 9 13 u || u.toNat == 32 || u.toNat == 160 || u.toNat == 5760 || between 8192 8202 u
    || between 8232 8233 u || u.toNat == 8239 || u.toNat == 8287 || u.toNat == 12288
    || u.toNat == 65279

/-- A line terminator, which `.` does not match. -/
def isLineEnd (u : UInt16) : Bool := u.toNat == 10 || u.toNat == 13 || between 8232 8233 u

def lower (u : UInt16) : UInt16 := if isUpper u then u + 32 else u

/-- A text in small or capital letters. -/
def anyCase (s : String) : Pattern UInt16 :=
  .all ((js s).map fun a => .one fun u => lower u = lower a)

def text (s : String) : Pattern UInt16 := .word (js s)

def edge : Pattern UInt16 := .boundary isWordUnit

def plus (p : UInt16 → Bool) : Pattern UInt16 := .many 1 none true p

def star (p : UInt16 → Bool) : Pattern UInt16 := .many 0 none true p

def atLeast (n : Nat) (p : UInt16 → Bool) : Pattern UInt16 := .many n none true p

/-! ## What is replaced -/

def redacted : JsText := js "[REDACTED]"

/-- A beginning of a word, so many units of a class, and its end. -/
def keyed (first : Pattern UInt16) (rest : Pattern UInt16) : Pattern UInt16 :=
  .all [edge, first, rest, edge]

def isCapitalOrSpace (u : UInt16) : Bool := isUpper u || oneOf " " u

def privateKey : Pattern UInt16 :=
  .all [text "-----BEGIN ", star isCapitalOrSpace, text "PRIVATE KEY-----",
    .many 0 none false fun _ => true,
    .any [.all [text "-----END ", star isCapitalOrSpace, text "PRIVATE KEY-----"], .finish]]

/-- A value up to white space or a quote. -/
def value : Pattern UInt16 := plus fun u => !(isSpace u || oneOf "'\"" u)

def assigned : Pattern UInt16 :=
  .all [star isSpace, .one (oneOf ":="), star isSpace]

def keyName (first : String) : Pattern UInt16 :=
  .all [anyCase first, .optional (.one (oneOf "_-")), anyCase "key"]

def patterns : List (Pattern UInt16) :=
  let alnumDash := fun u => isAlnum u || oneOf "_-" u
  [ privateKey,
    keyed (.any [text "AKIA", text "ASIA"])
      (.many 16 (some 16) true fun u => isDigit u || isUpper u),
    keyed (.all [text "gh", .one (oneOf "pousr"), text "_"]) (atLeast 20 isAlnum),
    keyed (text "github_pat_") (atLeast 20 fun u => isAlnum u || oneOf "_" u),
    keyed (text "glpat-") (atLeast 16 alnumDash),
    keyed (.all [text "sk-", .optional (.any [text "ant-", text "proj-"])]) (atLeast 16 alnumDash),
    keyed (.all [text "xox", .one (oneOf "abpors"), text "-"])
      (atLeast 10 fun u => isAlnum u || oneOf "-" u),
    keyed (.all [.any [text "agm", text "agmrt", text "agmrr", text "agmcen", text "agmenr"],
      text "_"]) (atLeast 16 alnumDash),
    keyed (.all [text "eyJ", atLeast 8 alnumDash, text ".", atLeast 8 alnumDash, text "."])
      (atLeast 8 alnumDash),
    .all [edge, .any [anyCase "authorization", anyCase "x-api-key"], assigned,
      .optional (.all [anyCase "bearer", plus isSpace]), value],
    .all [edge, .any [anyCase "password", anyCase "passwd", anyCase "secret", anyCase "token",
      keyName "api", keyName "access"], assigned, value] ]

/-- The place of a password in an address, which is replaced between what stands around it. -/
def urlCredentials : JsText → Nat → Option Hit :=
  Pattern.findBetween
    (.all [text "://", plus fun u => !(isSpace u || oneOf "/:@" u), text ":"])
    (plus fun u => !(isSpace u || oneOf "@/" u)) (text "@")

def substringMin : Nat := 8

/-- A value that cannot be a credential. -/
def notACredential : Pattern UInt16 :=
  .all [.start,
    .any [.one fun u => !isLineEnd u, anyCase "true", anyCase "false", anyCase "yes", anyCase "no",
      anyCase "on", anyCase "off", anyCase "none", anyCase "null",
      .all [anyCase "enable", .optional (anyCase "d")],
      .all [anyCase "disable", .optional (anyCase "d")]],
    .finish]

def isEscapeEnd (u : UInt16) : Bool := between 64 90 u || between 92 95 u

/-- A control sequence. -/
def csi : Pattern UInt16 :=
  .all [.word [27], text "[", star (between 48 63), star (between 32 47), .one (between 64 126)]

def escape : Pattern UInt16 := .all [.word [27], .one isEscapeEnd]

/-- A short value as a whole token. -/
def shortSecret (secret : JsText) : Pattern UInt16 :=
  .all [.behind (.any [.start, .one fun u => !isAlnum u, csi, escape]), .word secret,
    .notAhead isAlnum]

/-- Control sequences, and commands to the terminal. -/
def ansi : Pattern UInt16 :=
  .any [csi,
    .all [.word [27], text "]", star (fun u => !(u.toNat == 7 || u.toNat == 27)),
      .any [.word [7], .all [.word [27], text "\\"]]],
    escape]

def isControl (u : UInt16) : Bool :=
  between 0 8 u || u.toNat == 11 || u.toNat == 12 || between 14 31 u || u.toNat == 127

end Redact

open Redact

/-! ## Redacting and cleaning -/

def trim (s : JsText) : JsText := ((s.dropWhile isSpace).reverse.dropWhile isSpace).reverse

/-- Replace every match of a pattern. -/
def replace (r : Pattern UInt16) (marker s : JsText) : JsText :=
  marker.intercalate (cut (r.find s) s)

/-- A configured value that is not looked for. -/
def skipped (secret : JsText) : Bool :=
  secret.isEmpty || (trim secret).isEmpty || notACredential.occurs (trim secret)

/-- The configured values, each once, the longest first. -/
def inOrder (secrets : List JsText) : List JsText :=
  secrets.eraseDups.insertionSort fun a b => b.length ≤ a.length

def redactSecret (out secret : JsText) : JsText :=
  if skipped secret then out
  else if substringMin ≤ secret.length then redacted.intercalate (cut (findWord secret out) out)
  else replace (shortSecret secret) redacted out

def redact (s : JsText) (secrets : List JsText) : JsText :=
  let out := (inOrder secrets).foldl redactSecret s
  let out := patterns.foldl (fun out re => replace re redacted out) out
  redacted.intercalate (cut (urlCredentials out) out)

/-- What stands for the rest of a text. -/
def ellipsis : UInt16 := 8230

def clean (s : JsText) (max : Nat) (secrets : List JsText) : JsText :=
  let stripped := replace (.one isControl) [] (replace ansi [] (redact s secrets))
  let stripped := redact stripped secrets
  if max < stripped.length then stripped.take max ++ [ellipsis] else stripped

example : redact (js "token is s3cret-value-123") [js "s3cret-value-123"]
    = js "token is [REDACTED]" := by decide

/-! ## What does not survive -/

/-- A secret that is looked for as it stands, and its parts. -/
theorem not_isInfix_redactSecret_self {secret out : JsText} (hlong : substringMin ≤ secret.length)
    (hcredential : skipped secret = false) (h : Apart secret redacted) :
    ¬ secret <:+: redactSecret out secret := by
  have hne : secret ≠ [] := by
    rintro rfl
    exact absurd hlong (by decide)
  unfold redactSecret
  rw [hcredential, if_neg Bool.false_ne_true, if_pos hlong]
  exact not_isInfix_intercalate h (pieces_ne_nil _ _ _) fun _ => not_isInfix_of_mem_cut_word hne

theorem not_isInfix_redactSecret {secret other out : JsText} (h : Apart secret redacted)
    (hnone : ¬ secret <:+: out) : ¬ secret <:+: redactSecret out other := by
  unfold redactSecret
  split
  · exact hnone
  · split
    · exact not_isInfix_cut h hnone _
    · exact not_isInfix_cut h hnone _

theorem not_isInfix_foldl {β : Type} {secret : JsText} {f : JsText → β → JsText}
    (hf : ∀ out b, ¬ secret <:+: out → ¬ secret <:+: f out b) :
    ∀ (bs : List β) {out : JsText}, ¬ secret <:+: out → ¬ secret <:+: bs.foldl f out
  | [], _, h => h
  | b :: rest, out, h => by
      rw [List.foldl_cons]
      exact not_isInfix_foldl hf rest (hf out b h)

theorem mem_inOrder {secret : JsText} {secrets : List JsText} :
    secret ∈ inOrder secrets ↔ secret ∈ secrets := by
  rw [inOrder, List.mem_insertionSort, List.mem_eraseDups]

/-- **A redacted text is without the secret.** -/
theorem not_isInfix_redact {secret s : JsText} {secrets : List JsText} (hmem : secret ∈ secrets)
    (hlong : substringMin ≤ secret.length) (hcredential : skipped secret = false)
    (h : Apart secret redacted) : ¬ secret <:+: redact s secrets := by
  obtain ⟨before, after, hsplit⟩ := List.append_of_mem (mem_inOrder.mpr hmem)
  have hsecrets : ¬ secret <:+: (inOrder secrets).foldl redactSecret s := by
    rw [hsplit, List.foldl_append, List.foldl_cons]
    refine not_isInfix_foldl (fun out other => not_isInfix_redactSecret h) after ?_
    exact not_isInfix_redactSecret_self hlong hcredential h
  have hpatterns := not_isInfix_foldl
    (fun out re hnone => not_isInfix_cut h hnone (Pattern.find re out)) patterns hsecrets
  exact not_isInfix_cut h hpatterns _

/-- What a bound leaves of a text, with a sign at its end, has no secret the text has not, but
for one that ends with the sign. -/
theorem not_isInfix_take_append {secret s : JsText} {u : UInt16} {n : Nat}
    (hnone : ¬ secret <:+: s) (hlast : secret.getLast? ≠ some u) :
    ¬ secret <:+: s.take n ++ [u] := by
  rintro ⟨a, b, hab⟩
  rcases List.eq_nil_or_concat b with rfl | ⟨b, v, rfl⟩
  · rcases List.eq_nil_or_concat secret with rfl | ⟨rest, w, rfl⟩
    · exact hnone (List.nil_infix)
    · rw [List.append_nil, List.concat_eq_append, ← List.append_assoc] at hab
      have hw := (List.append_inj' hab rfl).2
      refine hlast ?_
      rw [List.concat_eq_append, List.getLast?_append, List.getLast?_singleton]
      exact congrArg some (List.cons.inj hw).1
  · rw [List.concat_eq_append, ← List.append_assoc] at hab
    have hpre := (List.append_inj' hab rfl).1
    exact hnone (List.IsInfix.trans ⟨a, b, hpre⟩ (List.take_prefix n s).isInfix)

/-- **Configured credentials do not survive cleaning**, if they share nothing with the marker and
do not end with the sign of a bound. -/
theorem clean_redacts {secret s : JsText} {max : Nat} {secrets : List JsText}
    (hmem : secret ∈ secrets) (hlong : 8 ≤ secret.length) (hcredential : skipped secret = false)
    (h : Apart secret redacted) (hlast : secret.getLast? ≠ some ellipsis) :
    ¬ secret <:+: clean s max secrets := by
  have hredacted : ¬ secret <:+: redact (replace (.one isControl) []
      (replace ansi [] (redact s secrets))) secrets := not_isInfix_redact hmem hlong hcredential h
  unfold clean
  dsimp only
  split
  · exact not_isInfix_take_append hredacted hlast
  · exact hredacted

/-- No unit of the one is in the other. -/
def disjoint (word marker : JsText) : Bool := word.all fun u => !marker.contains u

theorem not_mem_of_disjoint {word marker : JsText} (h : disjoint word marker = true) :
    ∀ u ∈ word, u ∉ marker := by
  intro u hu hmem
  have hnot := List.all_eq_true.mp h u hu
  rw [Bool.not_eq_true', ← Bool.not_eq_true, List.contains_iff_mem] at hnot
  exact hnot hmem

/-- A word and a marker without a common unit share nothing. -/
theorem apart_of_disjoint {word marker : JsText} (hword : word ≠ []) (hmarker : marker ≠ [])
    (hdisjoint : disjoint word marker = true) : Apart word marker :=
  have h := not_mem_of_disjoint hdisjoint
  { ends := by
      intro part hne hsuffix hpre
      obtain ⟨u, hu⟩ := List.exists_mem_of_ne_nil part hne
      exact h u (hsuffix.subset hu) (hpre.subset hu)
    begins := by
      intro part hne hpre hsuffix
      obtain ⟨u, hu⟩ := List.exists_mem_of_ne_nil part hne
      exact h u (hpre.subset hu) (hsuffix.subset hu)
    inside := by
      intro hin
      obtain ⟨u, hu⟩ := List.exists_mem_of_ne_nil word hword
      exact h u hu (hin.subset hu)
    around := by
      intro hin
      obtain ⟨u, hu⟩ := List.exists_mem_of_ne_nil marker hmarker
      exact h u (hin.subset hu) hu }

theorem clean_redacts_password :
    ¬ js "hunter-2-hunter" <:+:
      clean (js "x=hunter-2\u001b[0m-hunter") 400 [js "hunter-2-hunter"] :=
  clean_redacts List.mem_cons_self (by decide) (by decide)
    (apart_of_disjoint (by decide) (by decide) (by decide))
    (by decide)

/-- The value and the marker share no run, whichever ends are compared. -/
def NoSharedRun (word marker : JsText) : Prop :=
  (∀ part, part ≠ [] → part <:+ word ∨ part <+: word → ¬ (part <+: marker ∨ part <:+ marker))
    ∧ ¬ word <:+: marker

/-- The sign that a bound leaves completes a value that the text does not have. -/
theorem not_clean_redacts : ¬ ∀ (secret s : JsText) (max : Nat) (secrets : List JsText),
    secret ∈ secrets → 8 ≤ secret.length → skipped secret = false → NoSharedRun secret redacted →
    ¬ secret <:+: clean s max secrets := by
  intro h
  have hapart := @not_mem_of_disjoint (js "abcdefg…") redacted (by decide)
  have hshared : NoSharedRun (js "abcdefg…") redacted := by
    refine ⟨fun part hne hword hmarker => ?_, fun hin => ?_⟩
    · obtain ⟨u, hu⟩ := List.exists_mem_of_ne_nil part hne
      exact hapart u (hword.elim (fun hs => hs.subset hu) fun hp => hp.subset hu)
        (hmarker.elim (fun hp => hp.subset hu) fun hs => hs.subset hu)
    · exact hapart 97 (by decide) (hin.subset (by decide))
  refine h (js "abcdefg…") (js "abcdefgh") 7 [js "abcdefg…"] List.mem_cons_self (by decide)
    (by decide) hshared ?_
  have hclean : clean (js "abcdefgh") 7 [js "abcdefg…"] = js "abcdefg…" := by decide +kernel
  rw [hclean]

end Agenomic.Connector
