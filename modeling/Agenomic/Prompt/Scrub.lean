import Agenomic.Lib.Keyed
import Agenomic.Lib.Regex
import Agenomic.Prompt.Refs

/-!
# Scrubbing

`scrub` puts a marker in the place of each stretch of findings that touch or overlap.
What is left of the text stands between markers, and no pattern reaches into or over a
marker, so a secret is left just when it stands in one of the stretches between them.

There it can only be one that was not found in the text itself. A match that is away
from the start of its stretch is a match in the text, and a match in the text starts
within a finding. At the start of a stretch this fails: before a stretch the text has
the last character of a finding, and the scrubbed text a bracket. A match that starts
there had no boundary before it, and has one now. **`scrub_clean_iff`** says that this is
the only way in which a secret is left, and **`leftover_behind_google`** after which
findings it happens.
-/

namespace Agenomic.Prompt

open Lib

/-! ## The patterns -/

def alphanumeric : List (Char × Char) := [('A', 'Z'), ('a', 'z'), ('0', '9')]

def jwtPart : Regex := .chars (alphanumeric ++ [('_', '_'), ('-', '-')]) 10 none

/-- The expressions that `patterns` writes out, in its order. -/
def secretRegexes : List Regex :=
  [ .seq .boundary (.seq (.anyCase "bearer".toList)
      (.seq (.chars [('\t', '\t'), ('\n', '\n'), ('\x0B', '\x0B'), ('\x0C', '\x0C'),
          ('\r', '\r'), (' ', ' ')] 1 none)
        (.chars (alphanumeric ++ [('-', '-'), ('_', '_'), ('.', '.'), ('=', '='), ('+', '+'),
          ('/', '/')]) 20 none))),
    .seq (.literal "-----BEGIN ".toList)
      (.seq (.chars [('A', 'Z'), (' ', ' ')] 0 none) (.literal "PRIVATE KEY-----".toList)),
    .seq .boundary (.seq (.literal "sk-".toList)
      (.chars (alphanumeric ++ [('-', '-'), ('_', '_')]) 20 none)),
    .seq .boundary (.seq (.oneOf ['s', 'r']) (.seq (.literal "k_".toList)
      (.seq (.alt (.literal "live".toList) (.literal "test".toList)) (.seq (.literal "_".toList)
        (.chars alphanumeric 16 none))))),
    .seq .boundary (.seq (.literal "AKIA".toList)
      (.seq (.chars [('0', '9'), ('A', 'Z')] 16 (some 16)) .boundary)),
    .seq .boundary (.seq (.literal "gh".toList) (.seq (.oneOf ['p', 'o', 'u', 's', 'r'])
      (.seq (.literal "_".toList) (.chars alphanumeric 36 none)))),
    .seq .boundary (.seq (.literal "hf_".toList) (.chars alphanumeric 20 none)),
    .seq .boundary (.seq (.literal "xox".toList) (.seq (.oneOf ['b', 'a', 'p', 'r', 's'])
      (.seq (.literal "-".toList) (.chars (alphanumeric ++ [('-', '-')]) 10 none)))),
    .seq .boundary (.seq (.literal "AIza".toList)
      (.chars (alphanumeric ++ [('-', '-'), ('_', '_')]) 35 (some 35))),
    .seq .boundary (.seq (.literal "eyJ".toList) (.seq jwtPart (.seq (.literal ".".toList)
      (.seq jwtPart (.seq (.literal ".".toList) jwtPart))))),
    .seq .boundary (.seq (.literal "agm_".toList) (.chars alphanumeric 24 none)) ]

/-- The patterns with their expressions. -/
def compiled : List ((String × String) × Regex) := patterns.zip secretRegexes

/-- The engine finds leftmost matches. -/
def Primitives.FindsLeftmost (p : Primitives) : Prop :=
  ∀ pattern ∈ compiled, ∀ text : String,
    Regex.Leftmost pattern.2 text.toList (p.findIter pattern.1.2 text)

/-- The engine ends a match where a backtracking engine ends it first. -/
def Primitives.FindsPreferred (p : Primitives) : Prop :=
  ∀ pattern ∈ compiled, ∀ text : String, ∀ hit ∈ p.findIter pattern.1.2 text,
    (Regex.ends text.toList pattern.2 hit.1).head? = some (hit.1 + hit.2)

/-! ## Scrubbing -/

structure Span where
  start : Nat
  stop : Nat
  pattern : String
  deriving DecidableEq, Repr

def SecretFinding.stop (f : SecretFinding) : Nat := f.offset + f.length

def SecretFinding.toSpan (f : SecretFinding) : Span := ⟨f.offset, f.stop, f.pattern⟩

/-- The spans from the last one on: a finding that touches it makes it longer. -/
def mergeFrom (last : Span) : List SecretFinding → List Span
  | [] => [last]
  | f :: found =>
      if f.offset ≤ last.stop then mergeFrom { last with stop := max last.stop f.stop } found
      else last :: mergeFrom f.toSpan found

def mergeSpans : List SecretFinding → List Span
  | [] => []
  | f :: found => mergeFrom f.toSpan found

/-- What stands for a secret of a pattern. -/
def marker (pattern : String) : List Char :=
  '[' :: ("REDACTED".toList ++ ':' :: (pattern.toList ++ [']']))

/-- The text from a position on, with the spans replaced. -/
def redact (chars : List Char) (position : Nat) : List Span → List Char
  | [] => chars.drop position
  | span :: spans =>
      (chars.drop position).take (span.start - position)
        ++ (marker span.pattern ++ redact chars span.stop spans)

variable (p : Primitives)

def containsSecret (text : String) : Bool :=
  patterns.any fun pattern => !(p.findIter pattern.2 text).isEmpty

def scrub (text : String) : String :=
  if scan p text = [] then text
  else String.ofList (redact text.toList 0 (mergeSpans (scan p text)))

/-- A place within a finding. -/
def covered (found : List SecretFinding) (i : Nat) : Bool :=
  found.any fun f => decide (f.offset ≤ i ∧ i < f.stop)

/-- The characters that follow, up to the next place that is within a finding. -/
def uncoveredFrom (found : List SecretFinding) : List Char → Nat → List Char
  | [], _ => []
  | c :: cs, i => if covered found i then [] else c :: uncoveredFrom found cs (i + 1)

/-- What a scan leaves of a text from a place on, up to the next finding. -/
def uncovered (text : String) (i : Nat) : List Char :=
  uncoveredFrom (scan p text) (text.toList.drop i) i

/-- A text that begins with a secret, nothing being before it. -/
def startsSecret (text : List Char) : Bool :=
  compiled.any fun pattern => !(Regex.ends text pattern.2 0).isEmpty

/-! ## What the patterns have in common -/

/-- What is found by running through the patterns. -/
theorem compiled_checked : ∀ pattern ∈ compiled,
    (pattern.2.proper = true ∧ pattern.2.edged = true ∧ pattern.2.avoids '[' = true
      ∧ pattern.2.avoids ':' = true ∧ pattern.2.avoids ']' = true)
    ∧ pattern.2.opensWithout '_' = true
    ∧ (pattern.1.1 = "google_api_key" ∨ pattern.2.closed = true
      ∨ pattern.2.greedy alphanumeric = true)
    ∧ pattern.2.hits "REDACTED".toList = []
    ∧ ∀ id ∈ patterns.map Prod.fst, pattern.2.hits id.toList = [] := by
  decide +kernel

theorem compiled_forms : ∀ pattern ∈ compiled,
    pattern.2.proper = true ∧ pattern.2.edged = true ∧ pattern.2.avoids '[' = true
      ∧ pattern.2.avoids ':' = true ∧ pattern.2.avoids ']' = true := by
  intro pattern hpattern
  exact (compiled_checked pattern hpattern).1

theorem compiled_opens : ∀ pattern ∈ compiled, pattern.2.opensWithout '_' = true := by
  intro pattern hpattern
  exact (compiled_checked pattern hpattern).2.1

/-- A match of any pattern but one does not end where a word goes on with a letter or digit. -/
theorem compiled_ends : ∀ pattern ∈ compiled, pattern.1.1 = "google_api_key"
    ∨ pattern.2.closed = true ∨ pattern.2.greedy alphanumeric = true := by
  intro pattern hpattern
  exact (compiled_checked pattern hpattern).2.2.1

/-- No pattern occurs in what a marker says. -/
theorem compiled_marker : ∀ pattern ∈ compiled,
    pattern.2.hits "REDACTED".toList = []
      ∧ ∀ id ∈ patterns.map Prod.fst, pattern.2.hits id.toList = [] := by
  intro pattern hpattern
  exact (compiled_checked pattern hpattern).2.2.2

/-! ## Findings -/

theorem compiled_fst : compiled.map Prod.fst = patterns :=
  List.map_fst_zip (by decide)

theorem exists_compiled {pattern : String × String} (h : pattern ∈ patterns) :
    ∃ regex, (pattern, regex) ∈ compiled := by
  rw [← compiled_fst] at h
  obtain ⟨⟨pattern', regex⟩, hmem, rfl⟩ := List.mem_map.mp h
  exact ⟨regex, hmem⟩

variable {p : Primitives}

theorem scan_pairwise (text : String) :
    (scan p text).Pairwise fun f g => f.offset ≤ g.offset := by
  unfold scan
  refine List.pairwise_map.mpr ?_
  have : Std.Total fun a b : Nat × SecretFinding =>
      a.2.offset < b.2.offset ∨ (a.2.offset = b.2.offset ∧ a.1 ≤ b.1) :=
    ⟨fun a b => by omega⟩
  have : IsTrans (Nat × SecretFinding) fun a b =>
      a.2.offset < b.2.offset ∨ (a.2.offset = b.2.offset ∧ a.1 ≤ b.1) :=
    ⟨fun a b c hab hbc => by omega⟩
  refine (List.pairwise_insertionSort _ _).imp ?_
  intro a b h
  omega

theorem mem_scan {text : String} {f : SecretFinding} :
    f ∈ scan p text ↔ ∃ pattern ∈ patterns, ∃ hit ∈ p.findIter pattern.2 text,
      f = ⟨pattern.1, hit.1, hit.2⟩ := by
  unfold scan
  dsimp only
  constructor
  · intro h
    obtain ⟨⟨order, g⟩, hg, rfl⟩ := List.mem_map.mp h
    obtain ⟨⟨pattern, n⟩, hpattern, hhit⟩ :=
      List.mem_flatMap.mp ((List.perm_insertionSort _ _).mem_iff.mp hg)
    obtain ⟨hit, hmem, heq⟩ := List.mem_map.mp hhit
    exact ⟨pattern, (List.mem_zipIdx' hpattern).2 ▸ List.getElem_mem _, hit, hmem,
      (congrArg Prod.snd heq).symm⟩
  · rintro ⟨pattern, hpattern, hit, hhit, rfl⟩
    obtain ⟨n, hn, hat⟩ := List.getElem_of_mem hpattern
    refine List.mem_map.mpr ⟨(n, ⟨pattern.1, hit.1, hit.2⟩), ?_, rfl⟩
    refine (List.perm_insertionSort _ _).mem_iff.mpr (List.mem_flatMap.mpr ⟨(pattern, n), ?_, ?_⟩)
    · exact List.mem_zipIdx_iff_getElem?.mpr (by rw [List.getElem?_eq_getElem hn, hat])
    · exact List.mem_map.mpr ⟨hit, hhit, rfl⟩

/-- A finding is a match, of a pattern with its id. -/
theorem scan_matches (hp : p.FindsLeftmost) {text : String} {f : SecretFinding}
    (h : f ∈ scan p text) : ∃ pattern ∈ compiled, f.pattern = pattern.1.1
      ∧ Regex.Matches text.toList pattern.2 f.offset f.stop := by
  obtain ⟨pattern, hpattern, hit, hhit, rfl⟩ := mem_scan.mp h
  obtain ⟨regex, hmem⟩ := exists_compiled hpattern
  exact ⟨(pattern, regex), hmem, rfl, (hp _ hmem text).sound hit hhit⟩

theorem covered_iff {found : List SecretFinding} {i : Nat} :
    covered found i = true ↔ ∃ f ∈ found, f.offset ≤ i ∧ i < f.stop := by
  unfold covered
  rw [List.any_eq_true]
  simp only [decide_eq_true_eq]

/-- A match starts within a finding. -/
theorem covered_of_matches (hp : p.FindsLeftmost) {text : String}
    {pattern : (String × String) × Regex} (hpattern : pattern ∈ compiled) {i e : Nat}
    (h : Regex.Matches text.toList pattern.2 i e) : covered (scan p text) i = true := by
  obtain ⟨hit, hhit, hcov⟩ := (hp pattern hpattern text).covers i e h
  refine covered_iff.mpr ⟨⟨pattern.1.1, hit.1, hit.2⟩, ?_, hcov⟩
  exact mem_scan.mpr ⟨pattern.1, (List.of_mem_zip hpattern).1, hit, hhit, rfl⟩

/-- There is a secret in a text just when one of the expressions occurs in it. -/
theorem containsSecret_iff (hp : p.FindsLeftmost) {text : String} :
    containsSecret p text = true ↔ ∃ pattern ∈ compiled, pattern.2.Occurs text.toList := by
  unfold containsSecret
  rw [List.any_eq_true]
  constructor
  · rintro ⟨pattern, hpattern, hne⟩
    obtain ⟨regex, hmem⟩ := exists_compiled hpattern
    refine ⟨(pattern, regex), hmem, (hp _ hmem text).ne_nil_iff.mp ?_⟩
    intro hnil
    dsimp only at hnil
    rw [hnil] at hne
    exact nomatch hne
  · rintro ⟨pattern, hpattern, hoccurs⟩
    refine ⟨pattern.1, (List.of_mem_zip hpattern).1, ?_⟩
    have hne := (hp pattern hpattern text).ne_nil_iff.mpr hoccurs
    cases hfound : p.findIter pattern.1.2 text with
    | nil => exact absurd hfound hne
    | cons hit rest => rfl

/-! ## Spans -/

/-- Spans that are not empty, from a position on, one after the other. -/
def Laid : Nat → List Span → Prop
  | _, [] => True
  | position, span :: spans =>
      position ≤ span.start ∧ span.start < span.stop ∧ Laid span.stop spans

theorem Laid.start {spans : List Span} : ∀ {position : Nat}, Laid position spans →
    ∀ span ∈ spans, position ≤ span.start ∧ span.start < span.stop := by
  induction spans with
  | nil => exact fun _ _ h => nomatch h
  | cons s spans ih =>
      intro position hlaid span hspan
      obtain ⟨hle, hlt, hrest⟩ := hlaid
      rcases List.mem_cons.mp hspan with rfl | hspan
      · exact ⟨hle, hlt⟩
      · obtain ⟨hle', hlt'⟩ := ih hrest span hspan
        exact ⟨by omega, hlt'⟩

variable {found : List SecretFinding}

/-- The stops and patterns of the spans are those of findings. -/
theorem mergeFrom_forall {P : Nat → Prop} {Q : String → Prop} {last : Span}
    (hlast : P last.stop ∧ Q last.pattern) (hfound : ∀ f ∈ found, P f.stop ∧ Q f.pattern) :
    ∀ span ∈ mergeFrom last found, P span.stop ∧ Q span.pattern := by
  induction found generalizing last with
  | nil =>
      intro span hspan
      rw [List.mem_singleton.mp hspan]
      exact hlast
  | cons f found ih =>
      have hf := hfound f List.mem_cons_self
      have hrest := fun g hg => hfound g (List.mem_cons_of_mem f hg)
      unfold mergeFrom
      split
      · refine ih ⟨?_, hlast.2⟩ hrest
        dsimp only
        rcases Nat.le_total last.stop f.stop with hle | hle
        · rw [Nat.max_eq_right hle]
          exact hf.1
        · rw [Nat.max_eq_left hle]
          exact hlast.1
      · intro span hspan
        rcases List.mem_cons.mp hspan with rfl | hspan
        · exact hlast
        · exact @ih f.toSpan hf hrest span hspan

/-- Merging keeps the places that are within findings, and lays the spans out in order. -/
theorem mergeFrom_spec {last : Span} {position : Nat} (hposition : position ≤ last.start)
    (hlast : last.start < last.stop) (hfound : ∀ f ∈ found, last.start ≤ f.offset)
    (hproper : ∀ f ∈ found, f.offset < f.stop)
    (hsorted : found.Pairwise fun f g => f.offset ≤ g.offset) :
    Laid position (mergeFrom last found) ∧ ∀ k,
      (∃ span ∈ mergeFrom last found, span.start ≤ k ∧ k < span.stop)
        ↔ (last.start ≤ k ∧ k < last.stop) ∨ covered found k = true := by
  induction found generalizing last position with
  | nil =>
      refine ⟨⟨hposition, hlast, trivial⟩, fun k => ?_⟩
      simp [mergeFrom, covered]
  | cons f found ih =>
      obtain ⟨hfirst, hrest⟩ := List.pairwise_cons.mp hsorted
      have hle := hfound f List.mem_cons_self
      have hf := hproper f List.mem_cons_self
      have hproper' := fun g hg => hproper g (List.mem_cons_of_mem f hg)
      have hcover : ∀ k, covered (f :: found) k = true
          ↔ (f.offset ≤ k ∧ k < f.stop) ∨ covered found k = true := by
        intro k
        rw [covered_iff, covered_iff, List.exists_mem_cons_iff]
      unfold mergeFrom
      split
      · rename_i htouch
        obtain ⟨hlaid, hcov⟩ := @ih { last with stop := max last.stop f.stop } position hposition
          (by dsimp only; omega) (fun g hg => hfound g (List.mem_cons_of_mem f hg)) hproper' hrest
        refine ⟨hlaid, fun k => ?_⟩
        rw [hcov k, hcover k]
        dsimp only
        constructor
        · rintro (⟨hk, hstop⟩ | h)
          · by_cases hin : k < last.stop
            · exact .inl ⟨hk, hin⟩
            · exact .inr (.inl ⟨by omega, by omega⟩)
          · exact .inr (.inr h)
        · rintro (h | h | h)
          · exact .inl ⟨h.1, by omega⟩
          · exact .inl ⟨by omega, by omega⟩
          · exact .inr h
      · rename_i hbeyond
        obtain ⟨hlaid, hcov⟩ := @ih f.toSpan last.stop
          (Nat.le_of_lt (Nat.lt_of_not_le hbeyond)) hf hfirst hproper' hrest
        refine ⟨⟨hposition, hlast, hlaid⟩, fun k => ?_⟩
        rw [List.exists_mem_cons_iff, hcov k, hcover k]
        exact Iff.rfl

/-! ## The stretches between the spans -/

/-- What is left of the text from a position on, between the spans. -/
def gaps (chars : List Char) (position : Nat) : List Span → List (List Char)
  | [] => [chars.drop position]
  | span :: spans => (chars.drop position).take (span.start - position)
      :: gaps chars span.stop spans

theorem uncoveredFrom_eq_self : ∀ (cs : List Char) (i : Nat),
    (∀ k, i ≤ k → covered found k = false) → uncoveredFrom found cs i = cs
  | [], _, _ => rfl
  | c :: cs, i, h => by
      unfold uncoveredFrom
      rw [h i (Nat.le_refl i), if_neg Bool.false_ne_true,
        uncoveredFrom_eq_self cs (i + 1) fun k hk => h k (by omega)]

theorem uncoveredFrom_eq_take {j : Nat} (hj : covered found j = true) :
    ∀ (cs : List Char) (i : Nat), i ≤ j → (∀ k, i ≤ k → k < j → covered found k = false) →
      uncoveredFrom found cs i = cs.take (j - i)
  | [], _, _, _ => List.take_nil.symm
  | c :: cs, i, hij, h => by
      unfold uncoveredFrom
      by_cases heq : i = j
      · subst heq
        rw [hj, if_pos rfl, Nat.sub_self, List.take_zero]
      · have hsucc : j - i = j - (i + 1) + 1 := by omega
        rw [h i (Nat.le_refl i) (by omega), if_neg Bool.false_ne_true, hsucc,
          List.take_succ_cons,
          uncoveredFrom_eq_take hj cs (i + 1) (by omega) fun k hk => h k (by omega)]

/-- The stretches are what follows the stops, up to the next finding. -/
theorem gaps_eq (chars : List Char) : ∀ (spans : List Span) (position : Nat),
    Laid position spans →
    (∀ k, position ≤ k →
      (covered found k = true ↔ ∃ span ∈ spans, span.start ≤ k ∧ k < span.stop)) →
    gaps chars position spans
      = (position :: spans.map Span.stop).map fun i => uncoveredFrom found (chars.drop i) i
  | [], position, _, hcov => by
      have hself := @uncoveredFrom_eq_self found (chars.drop position) position
        fun k hk => Bool.eq_false_iff.mpr fun hc => by simpa using (hcov k hk).mp hc
      rw [gaps, List.map_nil, List.map_singleton, hself]
  | span :: spans, position, hlaid, hcov => by
      obtain ⟨hle, hlt, hrest⟩ := hlaid
      have hstart : covered found span.start = true :=
        (hcov span.start hle).mpr ⟨span, List.mem_cons_self, Nat.le_refl _, hlt⟩
      have hbefore : ∀ k, position ≤ k → k < span.start → covered found k = false := by
        intro k hk hks
        refine Bool.eq_false_iff.mpr fun hc => ?_
        obtain ⟨s, hs, hsk, _⟩ := (hcov k hk).mp hc
        rcases List.mem_cons.mp hs with rfl | hs
        · omega
        · have hlater := (hrest.start s hs).1
          omega
      have ih := gaps_eq chars spans span.stop hrest (by
        intro k hk
        rw [hcov k (by omega), List.exists_mem_cons_iff, or_iff_right (by omega)])
      rw [gaps, ih, ← uncoveredFrom_eq_take hstart (chars.drop position) position hle hbefore]
      rfl

/-- A marker cuts a scrubbed text in two. -/
theorem occurs_marker {pattern : (String × String) × Regex} (hpattern : pattern ∈ compiled)
    {id : String} (hid : id ∈ patterns.map Prod.fst) (before after : List Char) :
    pattern.2.Occurs (before ++ (marker id ++ after))
      ↔ pattern.2.Occurs before ∨ pattern.2.Occurs after := by
  obtain ⟨hproper, _, hopen, hcolon, hclose⟩ := compiled_forms pattern hpattern
  obtain ⟨hredacted, hids⟩ := compiled_marker pattern hpattern
  have hnot : ∀ text, pattern.2.hits text = [] → ¬ pattern.2.Occurs text := by
    intro text hnil
    exact (hnil ▸ Regex.leftmost_hits hproper : Regex.Leftmost pattern.2 text []).not_occurs_of_nil
  have hform : before ++ (marker id ++ after)
      = before ++ '[' :: ("REDACTED".toList ++ ':' :: (id.toList ++ ']' :: after)) := by
    simp [marker]
  rw [hform, Regex.occurs_append_cons hproper hopen (by decide),
    Regex.occurs_append_cons hproper hcolon (by decide),
    Regex.occurs_append_cons hproper hclose (by decide),
    or_iff_right (hnot _ hredacted), or_iff_right (hnot _ (hids id hid))]

theorem occurs_redact {pattern : (String × String) × Regex} (hpattern : pattern ∈ compiled)
    (chars : List Char) : ∀ (spans : List Span) (position : Nat),
    (∀ span ∈ spans, span.pattern ∈ patterns.map Prod.fst) →
    (pattern.2.Occurs (redact chars position spans)
      ↔ ∃ gap ∈ gaps chars position spans, pattern.2.Occurs gap)
  | [], position, _ => by
      unfold redact gaps
      simp
  | span :: spans, position, hids => by
      have ih := occurs_redact hpattern chars spans span.stop fun s hs =>
        hids s (List.mem_cons_of_mem span hs)
      rw [redact, gaps, occurs_marker hpattern (hids span List.mem_cons_self), ih,
        List.exists_mem_cons_iff]

/-! ## A stretch by itself -/

theorem uncoveredFrom_getElem? : ∀ (cs : List Char) (i k : Nat),
    k < (uncoveredFrom found cs i).length →
    covered found (k + i) = false ∧ cs[k]? = (uncoveredFrom found cs i)[k]?
  | [], _, _, h => nomatch h
  | c :: cs, i, k, h => by
      unfold uncoveredFrom at h ⊢
      by_cases hc : covered found i = true
      · rw [if_pos hc] at h
        exact nomatch h
      · rw [if_neg hc] at h ⊢
        cases k with
        | zero =>
            rw [Nat.zero_add]
            exact ⟨Bool.eq_false_iff.mpr hc, rfl⟩
        | succ k =>
            obtain ⟨hplace, hchar⟩ := uncoveredFrom_getElem? cs (i + 1) k (Nat.lt_of_succ_lt_succ h)
            rw [Nat.add_right_comm]
            exact ⟨hplace, hchar⟩

/-- A stretch ends at a finding or at the end of the text. -/
theorem uncoveredFrom_end : ∀ (cs : List Char) (i : Nat),
    covered found ((uncoveredFrom found cs i).length + i) = true
      ∨ cs[(uncoveredFrom found cs i).length]? = none
  | [], _ => .inr rfl
  | c :: cs, i => by
      unfold uncoveredFrom
      by_cases hc : covered found i = true
      · rw [if_pos hc, List.length_nil, Nat.zero_add]
        exact .inl hc
      · rw [if_neg hc, List.length_cons, Nat.add_right_comm]
        exact uncoveredFrom_end cs (i + 1)

/-- A stretch has the characters of the text, and none of them is within a finding. -/
theorem uncovered_getElem? {text : String} {i k : Nat} (hk : k < (uncovered p text i).length) :
    covered (scan p text) (k + i) = false ∧ text.toList[k + i]? = (uncovered p text i)[k]? := by
  obtain ⟨hplace, hchar⟩ := uncoveredFrom_getElem? (text.toList.drop i) i k hk
  rw [List.getElem?_drop, Nat.add_comm] at hchar
  exact ⟨hplace, hchar⟩

theorem wordAt_uncovered {text : String} {i k : Nat} (hk : k < (uncovered p text i).length) :
    Regex.wordAt (uncovered p text i) k = Regex.wordAt text.toList (k + i) :=
  congrArg (Option.any isWord) (uncovered_getElem? hk).2.symm

/-- After a stretch the text is at its end, or a finding starts there. -/
theorem boundaryAt_finding (hp : p.FindsLeftmost) {text : String} {i : Nat}
    (hpos : 0 < (uncovered p text i).length)
    (hword : Regex.wordAt text.toList ((uncovered p text i).length + i) = true) :
    Regex.boundaryAt text.toList ((uncovered p text i).length + i) = true := by
  rcases @uncoveredFrom_end (scan p text) (text.toList.drop i) i with hcov | hnone
  · obtain ⟨f, hf, hle, hlt⟩ := covered_iff.mp hcov
    -- the place before is in the stretch, so the finding starts here
    have hlast := (uncovered_getElem? (Nat.sub_lt hpos Nat.one_pos)).1
    have hoffset : f.offset = (uncovered p text i).length + i := by
      by_contra hne
      refine Bool.eq_false_iff.mp hlast (covered_iff.mpr ⟨f, hf, ?_, ?_⟩)
      · unfold uncovered at hne hpos ⊢
        omega
      · unfold uncovered at hpos ⊢
        omega
    obtain ⟨pattern, hpattern, _, hmatch⟩ := scan_matches hp hf
    rw [hoffset] at hmatch
    exact hmatch.boundaryAt (compiled_forms pattern hpattern).2.1 hword
  · rw [List.getElem?_drop, Nat.add_comm] at hnone
    unfold Regex.wordAt uncovered at hword
    rw [hnone] at hword
    exact nomatch hword

/-- The stretch from this place starts inside a word of the text. -/
def InWord (p : Primitives) (text : String) (i : Nat) : Prop :=
  Regex.wordBefore text.toList i = true ∧ Regex.wordAt (uncovered p text i) 0 = true

theorem not_inWord_zero (text : String) : ¬ InWord p text 0 := by
  intro h
  exact nomatch h.1

/-- A boundary of a stretch by itself is one of the text, but where the stretch starts inside
a word. -/
theorem boundaryAt_uncovered (hp : p.FindsLeftmost) {text : String} {i k : Nat}
    (hstart : 0 < k ∨ ¬ InWord p text i) (hk : k ≤ (uncovered p text i).length)
    (h : Regex.boundaryAt (uncovered p text i) k = true) :
    Regex.boundaryAt text.toList (k + i) = true := by
  have hbefore : Regex.wordBefore (uncovered p text i) k
      = Regex.wordBefore text.toList (k + i) := by
    cases k with
    | zero =>
        -- a boundary at the start of the stretch is one before a word character
        have hword : Regex.wordAt (uncovered p text i) 0 = true := by
          unfold Regex.boundaryAt Regex.wordBefore at h
          simpa using h
        have hout := hstart.resolve_left (Nat.lt_irrefl 0)
        rw [Nat.zero_add]
        exact (Bool.eq_false_iff.mpr fun hw => hout ⟨hw, hword⟩).symm
    | succ k =>
        rw [Nat.add_right_comm]
        exact wordAt_uncovered hk
  by_cases hlt : k < (uncovered p text i).length
  · unfold Regex.boundaryAt at h ⊢
    rw [← hbefore, ← wordAt_uncovered hlt]
    exact h
  · -- at the end of the stretch, which ends in a word character
    have heq : k = (uncovered p text i).length := by omega
    have hnone : Regex.wordAt (uncovered p text i) k = false := by
      unfold Regex.wordAt
      rw [List.getElem?_eq_none (Nat.le_of_not_lt hlt)]
      rfl
    by_cases hword : Regex.wordAt text.toList (k + i) = true
    · have hpos : 0 < k := by
        by_contra hzero
        have hk0 : k = 0 := by omega
        rw [hk0] at h hnone
        unfold Regex.boundaryAt at h
        rw [hnone] at h
        exact nomatch h
      rw [heq] at hword hpos ⊢
      exact boundaryAt_finding hp hpos hword
    · unfold Regex.boundaryAt at h ⊢
      rw [← hbefore, Bool.eq_false_iff.mpr hword, ← hnone]
      exact h

/-- Away from such a start there is no secret in a stretch. -/
theorem not_matches_uncovered (hp : p.FindsLeftmost) {text : String} {i j e : Nat}
    {pattern : (String × String) × Regex} (hpattern : pattern ∈ compiled)
    (hstart : 0 < j ∨ ¬ InWord p text i) : ¬ Regex.Matches (uncovered p text i) pattern.2 j e := by
  intro h
  have hlt := h.lt (compiled_forms pattern hpattern).1
  have hlast := h.lt_length (e - 1) (by omega) (by omega)
  have hmatch : Regex.Matches text.toList pattern.2 (j - 0 + i) (e - 0 + i) := by
    refine h.shift (Nat.zero_le j) ?_ ?_
    · exact fun k _ hke => (uncovered_getElem? (by omega)).2
    · exact fun k hjk hke hb => boundaryAt_uncovered hp
        (hstart.imp_left fun hpos => by omega) (by omega) hb
  have hcov := covered_of_matches hp hpattern hmatch
  rw [Nat.sub_zero, (uncovered_getElem? (by omega)).1] at hcov
  exact nomatch hcov

theorem startsSecret_iff {text : List Char} : startsSecret text = true
    ↔ ∃ pattern ∈ compiled, ∃ e, Regex.Matches text pattern.2 0 e := by
  unfold startsSecret
  rw [List.any_eq_true]
  refine exists_congr fun pattern => and_congr_right fun _ => ?_
  constructor
  · intro h
    cases hends : Regex.ends text pattern.2 0 with
    | nil =>
        rw [hends] at h
        exact nomatch h
    | cons e rest => exact ⟨e, Regex.mem_ends.mp (hends ▸ List.mem_cons_self)⟩
  · rintro ⟨e, h⟩
    have hmem := Regex.mem_ends.mpr h
    cases hends : Regex.ends text pattern.2 0 with
    | nil =>
        rw [hends] at hmem
        exact nomatch hmem
    | cons _ _ => rfl

/-- A stretch has a secret in it just when it begins with one. -/
theorem occurs_uncovered (hp : p.FindsLeftmost) (text : String) (i : Nat) :
    (∃ pattern ∈ compiled, pattern.2.Occurs (uncovered p text i))
      ↔ i ≠ 0 ∧ startsSecret (uncovered p text i) = true := by
  rw [startsSecret_iff]
  constructor
  · rintro ⟨pattern, hpattern, j, e, h⟩
    have hj : j = 0 := by
      by_contra hne
      exact not_matches_uncovered hp hpattern (.inl (Nat.pos_of_ne_zero hne)) h
    have hi : i ≠ 0 := by
      intro hzero
      subst hzero
      exact not_matches_uncovered hp hpattern (.inr (not_inWord_zero text)) h
    subst hj
    exact ⟨hi, pattern, hpattern, e, h⟩
  · rintro ⟨_, pattern, hpattern, e, h⟩
    exact ⟨pattern, hpattern, 0, e, h⟩

/-! ## What scrubbing leaves -/

/-- The spans of what a scan found. -/
theorem mergeSpans_spec (hp : p.FindsLeftmost) (text : String) :
    Laid 0 (mergeSpans (scan p text))
      ∧ (∀ k, covered (scan p text) k = true
          ↔ ∃ span ∈ mergeSpans (scan p text), span.start ≤ k ∧ k < span.stop)
      ∧ ∀ span ∈ mergeSpans (scan p text),
          (∃ f ∈ scan p text, f.stop = span.stop) ∧ span.pattern ∈ patterns.map Prod.fst := by
  have hproper : ∀ f ∈ scan p text, f.offset < f.stop := by
    intro f hf
    obtain ⟨pattern, hpattern, _, hmatch⟩ := scan_matches hp hf
    exact hmatch.lt (compiled_forms pattern hpattern).1
  have hid : ∀ f ∈ scan p text, f.pattern ∈ patterns.map Prod.fst := by
    intro f hf
    obtain ⟨pattern, hpattern, heq, _⟩ := scan_matches hp hf
    rw [heq]
    exact List.mem_map_of_mem (List.of_mem_zip hpattern).1
  have hsorted := scan_pairwise (p := p) text
  cases hscan : scan p text with
  | nil => exact ⟨trivial, fun k => by simp [covered, mergeSpans], fun _ h => nomatch h⟩
  | cons f found =>
      rw [hscan] at hproper hid hsorted
      obtain ⟨hfirst, hrest⟩ := List.pairwise_cons.mp hsorted
      obtain ⟨hlaid, hcov⟩ := @mergeFrom_spec found f.toSpan 0 (Nat.zero_le _)
        (hproper f List.mem_cons_self) hfirst
        (fun g hg => hproper g (List.mem_cons_of_mem f hg)) hrest
      refine ⟨hlaid, fun k => ?_, ?_⟩
      · unfold mergeSpans
        dsimp only
        rw [hcov k, covered_iff, covered_iff, List.exists_mem_cons_iff]
        exact Iff.rfl
      · exact mergeFrom_forall (P := fun stop => ∃ g ∈ f :: found, g.stop = stop)
          (Q := fun id => id ∈ patterns.map Prod.fst)
          ⟨⟨f, List.mem_cons_self, rfl⟩, hid f List.mem_cons_self⟩
          fun g hg => ⟨⟨g, List.mem_cons_of_mem f hg, rfl⟩, hid g (List.mem_cons_of_mem f hg)⟩

/-- A stretch that is not empty and follows a finding follows a span. -/
theorem span_of_uncovered (hp : p.FindsLeftmost) {text : String} {f : SecretFinding}
    (hf : f ∈ scan p text) (hstart : startsSecret (uncovered p text f.stop) = true) :
    ∃ span ∈ mergeSpans (scan p text), span.stop = f.stop := by
  obtain ⟨_, hcov, _⟩ := mergeSpans_spec hp text
  obtain ⟨pattern, hpattern, e, hmatch⟩ := startsSecret_iff.mp hstart
  have hlen := hmatch.lt_length 0 (Nat.le_refl 0) (hmatch.lt (compiled_forms pattern hpattern).1)
  have hfree := (uncovered_getElem? hlen).1
  rw [Nat.zero_add] at hfree
  obtain ⟨found, hfound, _, hmf⟩ := scan_matches hp hf
  have hlt := hmf.lt (compiled_forms found hfound).1
  obtain ⟨span, hspan, hle, hin⟩ := (hcov (f.stop - 1)).mp
    (covered_iff.mpr ⟨f, hf, by omega, by omega⟩)
  refine ⟨span, hspan, ?_⟩
  by_contra hne
  exact Bool.eq_false_iff.mp hfree ((hcov f.stop).mpr ⟨span, hspan, by omega, by omega⟩)

theorem toList_scrub (hne : scan p text ≠ []) :
    (scrub p text).toList = redact text.toList 0 (mergeSpans (scan p text)) := by
  unfold scrub
  rw [if_neg hne, String.toList_ofList]

theorem scrub_eq_self {text : String} (h : scan p text = []) : scrub p text = text := if_pos h

/-- Nothing is found in a text without secrets. -/
theorem scan_eq_nil_iff (hp : p.FindsLeftmost) {text : String} :
    scan p text = [] ↔ containsSecret p text = false := by
  rw [← Bool.not_eq_true, containsSecret_iff hp]
  constructor
  · rintro hnil ⟨pattern, hpattern, i, e, h⟩
    have hcov := covered_of_matches hp hpattern h
    rw [hnil] at hcov
    exact nomatch hcov
  · intro hnone
    by_contra hne
    obtain ⟨f, hf⟩ := List.exists_mem_of_ne_nil _ hne
    obtain ⟨pattern, hpattern, _, hmatch⟩ := scan_matches hp hf
    exact hnone ⟨pattern, hpattern, _, _, hmatch⟩

/-- A secret is left just when it is in one of the stretches. -/
theorem containsSecret_scrub_stretch (hp : p.FindsLeftmost) {text : String}
    (hne : scan p text ≠ []) :
    containsSecret p (scrub p text) = true
      ↔ ∃ i ∈ 0 :: (mergeSpans (scan p text)).map Span.stop,
          i ≠ 0 ∧ startsSecret (uncovered p text i) = true := by
  obtain ⟨hlaid, hcov, hspans⟩ := mergeSpans_spec hp text
  have hgaps := @gaps_eq (scan p text) text.toList (mergeSpans (scan p text)) 0 hlaid
    fun k _ => hcov k
  rw [containsSecret_iff hp, toList_scrub hne]
  constructor
  · rintro ⟨pattern, hpattern, hoccurs⟩
    obtain ⟨gap, hgap, hin⟩ := (occurs_redact hpattern text.toList _ 0
      fun span hspan => (hspans span hspan).2).mp hoccurs
    rw [hgaps] at hgap
    obtain ⟨i, hi, rfl⟩ := List.mem_map.mp hgap
    exact ⟨i, hi, (occurs_uncovered hp text i).mp ⟨pattern, hpattern, hin⟩⟩
  · rintro ⟨i, hi, hstart⟩
    obtain ⟨pattern, hpattern, hin⟩ := (occurs_uncovered hp text i).mpr hstart
    refine ⟨pattern, hpattern, (occurs_redact hpattern text.toList _ 0
      fun span hspan => (hspans span hspan).2).mpr ⟨uncovered p text i, ?_, hin⟩⟩
    rw [hgaps]
    exact List.mem_map.mpr ⟨i, hi, rfl⟩

/-- **A secret is left just when a stretch after a finding begins with one.** -/
theorem containsSecret_scrub_iff (hp : p.FindsLeftmost) (text : String) :
    containsSecret p (scrub p text) = true
      ↔ ∃ f ∈ scan p text, startsSecret (uncovered p text f.stop) = true := by
  by_cases hnil : scan p text = []
  · rw [scrub_eq_self hnil, (scan_eq_nil_iff hp).mp hnil, hnil]
    simp
  · rw [containsSecret_scrub_stretch hp hnil]
    constructor
    · rintro ⟨i, hi, hne, hstart⟩
      rcases List.mem_cons.mp hi with rfl | hi
      · exact absurd rfl hne
      · obtain ⟨span, hspan, rfl⟩ := List.mem_map.mp hi
        obtain ⟨f, hf, hstop⟩ := ((mergeSpans_spec hp text).2.2 span hspan).1
        exact ⟨f, hf, hstop ▸ hstart⟩
    · rintro ⟨f, hf, hstart⟩
      obtain ⟨span, hspan, hstop⟩ := span_of_uncovered hp hf hstart
      obtain ⟨pattern, hpattern, _, hmatch⟩ := scan_matches hp hf
      have hlt := hmatch.lt (compiled_forms pattern hpattern).1
      refine ⟨f.stop, List.mem_cons_of_mem 0 (List.mem_map.mpr ⟨span, hspan, hstop⟩), ?_, hstart⟩
      omega

/-- **Scrubbing leaves no secret, and changes nothing when done again, just when no finding
is followed by a stretch that begins with a secret.** -/
theorem scrub_clean_iff (hp : p.FindsLeftmost) (text : String) :
    (containsSecret p (scrub p text) = false ∧ scrub p (scrub p text) = scrub p text)
      ↔ ∀ f ∈ scan p text, startsSecret (uncovered p text f.stop) = false := by
  have hleft : containsSecret p (scrub p text) = false
      ↔ ∀ f ∈ scan p text, startsSecret (uncovered p text f.stop) = false := by
    rw [← Bool.not_eq_true, containsSecret_scrub_iff hp text]
    simp only [not_exists, not_and, Bool.not_eq_true]
  constructor
  · intro h
    exact hleft.mp h.1
  · intro h
    have hclean := hleft.mpr h
    exact ⟨hclean, scrub_eq_self ((scan_eq_nil_iff hp).mpr hclean)⟩

theorem isWord_alphanumeric {c : Char} (h : isWord c = true) :
    inClass alphanumeric c = true ∨ c = '_' := by
  unfold isWord at h
  unfold inClass alphanumeric
  simp only [Bool.or_eq_true, decide_eq_true_eq, beq_iff_eq, List.any_cons, List.any_nil,
    Bool.or_false] at h ⊢
  tauto

/-- A Google key is the only finding after which a word goes on with a letter or a digit. -/
theorem google_of_startsSecret (hp : p.FindsLeftmost) (hfirst : p.FindsPreferred) {text : String}
    {f : SecretFinding} (hf : f ∈ scan p text)
    (hstart : startsSecret (uncovered p text f.stop) = true) : f.pattern = "google_api_key" := by
  obtain ⟨secret, hsecret, e, hmatch⟩ := startsSecret_iff.mp hstart
  have hlen := hmatch.lt_length 0 (Nat.le_refl 0) (hmatch.lt (compiled_forms secret hsecret).1)
  -- the secret is not one of the text, so the stretch starts inside a word
  have hin : InWord p text f.stop := by
    by_contra hout
    exact not_matches_uncovered hp hsecret (.inr hout) hmatch
  have hword : Regex.wordAt text.toList f.stop = true := by
    have heq := wordAt_uncovered (p := p) hlen
    rw [Nat.zero_add] at heq
    exact heq ▸ hin.2
  obtain ⟨found, hfound, hit, hhit, rfl⟩ := mem_scan.mp hf
  obtain ⟨regex, hmem⟩ := exists_compiled hfound
  rcases compiled_ends _ hmem with hgoogle | hclosed | hgreedy
  · exact hgoogle
  · have hb := ((hp _ hmem text).sound hit hhit).boundaryAt_end hclosed hin.1
    unfold Regex.boundaryAt at hb
    have hbefore : Regex.wordBefore text.toList (hit.1 + hit.2) = true := hin.1
    have hafter : Regex.wordAt text.toList (hit.1 + hit.2) = true := hword
    rw [hbefore, hafter] at hb
    exact nomatch hb
  · obtain ⟨c, hc, hcw⟩ := (Option.any_eq_true isWord _).mp hword
    have hnot := Regex.next_of_greedy hgreedy (hfirst _ hmem text hit hhit) hc
    rcases isWord_alphanumeric hcw with halpha | hunder
    · rw [hnot] at halpha
      exact nomatch halpha
    · have hchar := (uncovered_getElem? (p := p) hlen).2
      rw [Nat.zero_add] at hchar
      refine absurd ?_ (hmatch.ne_of_opensWithout (compiled_opens secret hsecret))
      rw [← hchar, ← hunder]
      exact hc

/-- **Only behind a Google key is a secret left**, whatever the text. -/
theorem leftover_behind_google (hp : p.FindsLeftmost) (hfirst : p.FindsPreferred) {text : String}
    (h : containsSecret p (scrub p text) = true) : ∃ f ∈ scan p text,
      f.pattern = "google_api_key" ∧ startsSecret (uncovered p text f.stop) = true := by
  obtain ⟨f, hf, hstart⟩ := (containsSecret_scrub_iff hp text).mp h
  exact ⟨f, hf, google_of_startsSecret hp hfirst hf hstart, hstart⟩

/-! ## An engine -/

/-- The matches of a pattern, by going through the text. -/
def searchPattern (source text : String) : List (Nat × Nat) :=
  match compiled.find? fun pattern => pattern.1.2 == source with
  | some pattern => pattern.2.hits text.toList
  | none => []

/-- Hashes, signatures and time stamps play no part in scrubbing. -/
def searchPrimitives : Primitives where
  sha256 := fun _ => []
  blake3 := fun _ => []
  VerifyingKey := Unit
  verifyStrict := fun _ _ _ => false
  base64Decode := fun _ => none
  parseTimestamp := fun _ => none
  findIter := searchPattern

theorem searchPattern_eq {pattern : (String × String) × Regex} (h : pattern ∈ compiled)
    (text : String) : searchPrimitives.findIter pattern.1.2 text = pattern.2.hits text.toList := by
  have hsources : (compiled.map fun pattern => pattern.1.2).Nodup := by decide +kernel
  change searchPattern pattern.1.2 text = _
  unfold searchPattern
  rw [(find?_key_iff hsources).mpr ⟨h, rfl⟩]

theorem searchPrimitives_findsLeftmost : searchPrimitives.FindsLeftmost := by
  intro pattern hpattern text
  rw [searchPattern_eq hpattern text]
  exact Regex.leftmost_hits (compiled_forms pattern hpattern).1

theorem searchPrimitives_findsPreferred : searchPrimitives.FindsPreferred := by
  intro pattern hpattern text hit hhit
  rw [searchPattern_eq hpattern text] at hhit
  exact Regex.hits_head hit hhit

/-- A key in a sentence. -/
theorem scrub_clean_sentence :
    containsSecret searchPrimitives
        (scrub searchPrimitives "x Bearer sk-a1B2a1B2a1B2a1B2a1B2a1B2 y") = false
      ∧ scrub searchPrimitives
          (scrub searchPrimitives "x Bearer sk-a1B2a1B2a1B2a1B2a1B2a1B2 y")
        = scrub searchPrimitives "x Bearer sk-a1B2a1B2a1B2a1B2a1B2a1B2 y" :=
  (scrub_clean_iff searchPrimitives_findsLeftmost _).mpr (by decide +kernel)

/-- A key of fixed length right before another key: the second one is not at a boundary in the
text, and is at one after the marker. -/
theorem not_scrub_clean_adjacent :
    searchPrimitives.FindsLeftmost ∧ containsSecret searchPrimitives (scrub searchPrimitives
        "AIza00000000000000000000000000000000000sk-aaaaaaaaaaaaaaaaaaaa") = true
      ∧ scrub searchPrimitives (scrub searchPrimitives
          "AIza00000000000000000000000000000000000sk-aaaaaaaaaaaaaaaaaaaa")
        ≠ scrub searchPrimitives
          "AIza00000000000000000000000000000000000sk-aaaaaaaaaaaaaaaaaaaa" :=
  ⟨searchPrimitives_findsLeftmost, by decide +kernel⟩

theorem leftover_behind_google_adjacent :
    ∃ f ∈ scan searchPrimitives "AIza00000000000000000000000000000000000sk-aaaaaaaaaaaaaaaaaaaa",
      f.pattern = "google_api_key" ∧ startsSecret (uncovered searchPrimitives
        "AIza00000000000000000000000000000000000sk-aaaaaaaaaaaaaaaaaaaa" f.stop) = true :=
  leftover_behind_google searchPrimitives_findsLeftmost searchPrimitives_findsPreferred
    (by decide +kernel)

end Agenomic.Prompt
