import Mathlib

/-!
# Regular expressions over the characters of a text

A pattern is built from word boundaries and repeated character classes by sequence and
choice. `Matches` says where a pattern matches, `ends` computes the places where a match
from a given place can end, in the order in which a backtracking engine tries them, and
`hits` goes through a text as such an engine does.

Two results are about texts that are put together. **`Matches.shift`**: a match carries
over to any text that agrees with the first one around it. **`occurs_append_cons`**: a
character that is no word character and that no class of the pattern has cuts a text in
two, and the pattern occurs in the whole just when it occurs in one of the parts.
-/

namespace Lib

/-- A word character, of ASCII. -/
def isWord (c : Char) : Bool :=
  decide ('0' ≤ c ∧ c ≤ '9') || decide ('A' ≤ c ∧ c ≤ 'Z') || c == '_'
    || decide ('a' ≤ c ∧ c ≤ 'z')

def inClass (cls : List (Char × Char)) (c : Char) : Bool :=
  cls.any fun range => decide (range.1 ≤ c ∧ c ≤ range.2)

inductive Regex
  | boundary
  /-- Characters of a class, so many at least and at most. -/
  | chars (cls : List (Char × Char)) (min : Nat) (max : Option Nat)
  | seq (r s : Regex)
  | alt (r s : Regex)
  deriving Repr

namespace Regex

def oneOf (cs : List Char) : Regex := chars (cs.map fun c => (c, c)) 1 (some 1)

def literal : List Char → Regex
  | [] => chars [] 0 (some 0)
  | [c] => oneOf [c]
  | c :: cs => seq (oneOf [c]) (literal cs)

/-- A text in small or capital letters. -/
def anyCase : List Char → Regex
  | [] => chars [] 0 (some 0)
  | [c] => oneOf [c, c.toUpper]
  | c :: cs => seq (oneOf [c, c.toUpper]) (anyCase cs)

/-- Is there a word character at this place of a text? -/
def wordAt (text : List Char) (i : Nat) : Bool := (text[i]?).any isWord

def wordBefore (text : List Char) : Nat → Bool
  | 0 => false
  | i + 1 => wordAt text i

def boundaryAt (text : List Char) (i : Nat) : Bool := wordBefore text i != wordAt text i

/-- How many characters a repetition takes at most. -/
def longest (cls : List (Char × Char)) (max : Option Nat) (cs : List Char) : Nat :=
  match max with
  | none => (cs.takeWhile (inClass cls)).length
  | some m => min m (cs.takeWhile (inClass cls)).length

/-- The numbers from one down to another. -/
def downFrom (low : Nat) : Nat → List Nat
  | 0 => if low = 0 then [0] else []
  | n + 1 => if low ≤ n + 1 then (n + 1) :: downFrom low n else []

/-- Where a match from a place can end, the preferred end first. -/
def ends (text : List Char) : Regex → Nat → List Nat
  | boundary, i => if boundaryAt text i then [i] else []
  | chars cls min max, i => (downFrom min (longest cls max (text.drop i))).map (i + ·)
  | seq r s, i => (ends text r i).flatMap (ends text s)
  | alt r s, i => ends text r i ++ ends text s i

/-- The pattern matches from one place of the text to another. -/
inductive Matches (text : List Char) : Regex → Nat → Nat → Prop
  | boundary {i : Nat} : boundaryAt text i = true → Matches text boundary i i
  | chars {cls : List (Char × Char)} {min : Nat} {max : Option Nat} {i n : Nat} :
      min ≤ n → (∀ m, max = some m → n ≤ m) →
      (∀ k, k < n → (text[i + k]?).any (inClass cls) = true) →
      Matches text (chars cls min max) i (i + n)
  | seq {r s : Regex} {i j e : Nat} :
      Matches text r i j → Matches text s j e → Matches text (seq r s) i e
  | altLeft {r s : Regex} {i e : Nat} : Matches text r i e → Matches text (alt r s) i e
  | altRight {r s : Regex} {i e : Nat} : Matches text s i e → Matches text (alt r s) i e

variable {text : List Char}

/-! ## The computed ends -/

theorem mem_downFrom {low n k : Nat} : k ∈ downFrom low n ↔ low ≤ k ∧ k ≤ n := by
  induction n with
  | zero =>
      unfold downFrom
      split
      · rename_i hlow
        rw [List.mem_singleton]
        omega
      · simp only [List.not_mem_nil, false_iff]
        omega
  | succ n ih =>
      unfold downFrom
      split
      · rw [List.mem_cons, ih]
        omega
      · simp only [List.not_mem_nil, false_iff]
        omega

theorem le_length_takeWhile {p : Char → Bool} : ∀ {cs : List Char} {n : Nat},
    n ≤ (cs.takeWhile p).length ↔ ∀ k, k < n → (cs[k]?).any p = true
  | cs, 0 => by simp
  | [], n + 1 => by
      simp only [List.takeWhile_nil, List.length_nil, Nat.le_zero, Nat.succ_ne_zero, false_iff]
      intro h
      exact absurd (h 0 (Nat.succ_pos n)) (by simp)
  | c :: cs, n + 1 => by
      have ih := @le_length_takeWhile p cs n
      by_cases hc : p c = true
      · rw [List.takeWhile_cons_of_pos hc, List.length_cons, Nat.add_le_add_iff_right, ih]
        constructor
        · intro h k hk
          cases k with
          | zero => simpa using hc
          | succ k => simpa using h k (by omega)
        · intro h k hk
          simpa using h (k + 1) (by omega)
      · rw [List.takeWhile_cons_of_neg hc]
        simp only [List.length_nil, Nat.le_zero, Nat.succ_ne_zero, false_iff]
        intro h
        exact hc (by simpa using h 0 (Nat.succ_pos n))

theorem le_longest_iff {cls : List (Char × Char)} {max : Option Nat} {cs : List Char} {n : Nat} :
    n ≤ longest cls max cs ↔
      (∀ m, max = some m → n ≤ m) ∧ ∀ k, k < n → (cs[k]?).any (inClass cls) = true := by
  unfold longest
  cases max with
  | none => simp [le_length_takeWhile]
  | some m =>
      dsimp only
      rw [Nat.le_min, le_length_takeWhile]
      simp

/-- **The ends that are computed are those of the matches.** -/
theorem mem_ends {r : Regex} {i e : Nat} : e ∈ ends text r i ↔ Matches text r i e := by
  constructor
  · intro h
    induction r generalizing i e with
    | boundary =>
        unfold ends at h
        split at h
        · rename_i hb
          rw [List.mem_singleton.mp h]
          exact .boundary hb
        · exact nomatch h
    | chars cls min max =>
        unfold ends at h
        obtain ⟨n, hn, rfl⟩ := List.mem_map.mp h
        obtain ⟨hmin, hrun⟩ := mem_downFrom.mp hn
        obtain ⟨hmax, hall⟩ := le_longest_iff.mp hrun
        exact .chars hmin hmax fun k hk => by simpa using hall k hk
    | seq r s ihr ihs =>
        unfold ends at h
        obtain ⟨j, hj, he⟩ := List.mem_flatMap.mp h
        exact .seq (ihr hj) (ihs he)
    | alt r s ihr ihs =>
        unfold ends at h
        rcases List.mem_append.mp h with h | h
        · exact .altLeft (ihr h)
        · exact .altRight (ihs h)
  · intro h
    induction h with
    | boundary hb => simp [ends, hb]
    | @chars cls min max i n hmin hmax hall =>
        unfold ends
        refine List.mem_map.mpr ⟨n, mem_downFrom.mpr ⟨hmin, ?_⟩, rfl⟩
        exact le_longest_iff.mpr ⟨hmax, fun k hk => by simpa using hall k hk⟩
    | seq _ _ ihr ihs => exact List.mem_flatMap.mpr ⟨_, ihr, ihs⟩
    | altLeft _ ih => exact List.mem_append_left _ ih
    | altRight _ ih => exact List.mem_append_right _ ih

theorem Matches.le {r : Regex} {i e : Nat} (h : Matches text r i e) : i ≤ e := by
  induction h with
  | boundary _ => exact Nat.le_refl _
  | chars _ _ _ => omega
  | seq _ _ ihr ihs => omega
  | altLeft _ ih => exact ih
  | altRight _ ih => exact ih

/-- Every character of a match is there. -/
theorem Matches.lt_length {r : Regex} {i e : Nat} (h : Matches text r i e) :
    ∀ k, i ≤ k → k < e → k < text.length := by
  induction h with
  | boundary _ =>
      intro k hik hki
      omega
  | @chars cls min max i n _ _ hall =>
      intro k hik hke
      have hchar := hall (k - i) (by omega)
      rw [Nat.add_sub_of_le hik] at hchar
      by_contra hlen
      rw [List.getElem?_eq_none (Nat.le_of_not_lt hlen)] at hchar
      exact nomatch hchar
  | @seq r s i j e _ _ ihr ihs =>
      intro k hik hke
      by_cases hj : k < j
      · exact ihr k hik hj
      · exact ihs k (Nat.le_of_not_lt hj) hke
  | altLeft _ ih => exact ih
  | altRight _ ih => exact ih

/-! ## What a pattern looks like -/

/-- No class of the pattern has the character. -/
def avoids (c : Char) : Regex → Bool
  | boundary => true
  | chars cls _ _ => !inClass cls c
  | seq r s | alt r s => avoids c r && avoids c s

/-- A match is never empty. -/
def proper : Regex → Bool
  | boundary => false
  | chars _ min _ => decide (0 < min)
  | seq r s => proper r || proper s
  | alt r s => proper r && proper s

/-- A class of single characters that are no word characters. -/
def separators (cls : List (Char × Char)) : Bool :=
  cls.all fun range => range.1 == range.2 && !isWord range.1

/-- A match starts at a boundary, or with a character that is no word character. -/
def edged : Regex → Bool
  | boundary => true
  | chars cls min _ => decide (0 < min) && separators cls
  | seq r _ => edged r
  | alt r s => edged r && edged s

/-- A match ends at a boundary, or with a character that is no word character. -/
def closed : Regex → Bool
  | boundary => true
  | chars cls min _ => decide (0 < min) && separators cls
  | seq _ s => closed s
  | alt r s => closed r && closed s

/-- A match does not start with the character. -/
def opensWithout (c : Char) : Regex → Bool
  | boundary => false
  | chars cls min _ => decide (0 < min) && !inClass cls c
  | seq boundary s => opensWithout c s
  | seq r _ => opensWithout c r
  | alt r s => opensWithout c r && opensWithout c s

/-- A match ends with as many characters as there are, of a class with these ranges. -/
def greedy (ranges : List (Char × Char)) : Regex → Bool
  | chars cls _ none => ranges.all fun range => range ∈ cls
  | seq _ s => greedy ranges s
  | _ => false

theorem Matches.lt {r : Regex} {i e : Nat} (h : Matches text r i e) (hr : proper r = true) :
    i < e := by
  induction h with
  | boundary _ => exact nomatch hr
  | chars hmin _ _ =>
      have hpos := of_decide_eq_true hr
      omega
  | seq hl hs ihr ihs =>
      unfold proper at hr
      have hlr := hl.le
      have hls := hs.le
      rcases Bool.or_eq_true_iff.mp hr with hr | hr
      · exact Nat.lt_of_lt_of_le (ihr hr) hls
      · exact Nat.lt_of_le_of_lt hlr (ihs hr)
  | altLeft _ ih => exact ih (Bool.and_eq_true_iff.mp hr).1
  | altRight _ ih => exact ih (Bool.and_eq_true_iff.mp hr).2

/-- A match has no character that the pattern avoids. -/
theorem Matches.ne_of_avoids {r : Regex} {i e : Nat} (h : Matches text r i e) {c : Char}
    (hr : avoids c r = true) : ∀ k, i ≤ k → k < e → text[k]? ≠ some c := by
  induction h with
  | boundary _ =>
      intro k hik hki
      omega
  | @chars cls min max i n _ _ hall =>
      intro k hik hke hc
      have hchar := hall (k - i) (by omega)
      rw [Nat.add_sub_of_le hik, hc] at hchar
      have hin : inClass cls c = true := hchar
      rw [avoids, hin] at hr
      exact nomatch hr
  | @seq r s i j e _ _ ihr ihs =>
      intro k hik hke
      obtain ⟨har, has⟩ := Bool.and_eq_true_iff.mp hr
      by_cases hj : k < j
      · exact ihr har k hik hj
      · exact ihs has k (Nat.le_of_not_lt hj) hke
  | altLeft _ ih => exact ih (Bool.and_eq_true_iff.mp hr).1
  | altRight _ ih => exact ih (Bool.and_eq_true_iff.mp hr).2

theorem isWord_of_separators {cls : List (Char × Char)} (h : separators cls = true) {c : Char}
    (hc : inClass cls c = true) : isWord c = false := by
  obtain ⟨range, hrange, hin⟩ := List.any_eq_true.mp hc
  obtain ⟨heq, hnot⟩ := Bool.and_eq_true_iff.mp (List.all_eq_true.mp h range hrange)
  obtain ⟨hle, hge⟩ := of_decide_eq_true hin
  rw [← eq_of_beq heq] at hge
  rw [← Char.le_antisymm hle hge]
  exact Bool.not_eq_true' _ ▸ hnot

theorem wordAt_of_separators {cls : List (Char × Char)} (h : separators cls = true) {k : Nat}
    (hk : (text[k]?).any (inClass cls) = true) : wordAt text k = false := by
  unfold wordAt
  cases hc : text[k]? with
  | none => rfl
  | some c =>
      rw [hc] at hk
      exact isWord_of_separators h hk

/-- A match does not start inside a word. -/
theorem Matches.boundaryAt {r : Regex} {i e : Nat} (h : Matches text r i e)
    (hr : edged r = true) (hw : wordAt text i = true) : boundaryAt text i = true := by
  induction h with
  | boundary hb => exact hb
  | @chars cls min max i n hmin _ hall =>
      obtain ⟨hpos, hcls⟩ := Bool.and_eq_true_iff.mp hr
      have hchar := hall 0 (Nat.lt_of_lt_of_le (of_decide_eq_true hpos) hmin)
      rw [Nat.add_zero] at hchar
      rw [wordAt_of_separators hcls hchar] at hw
      exact nomatch hw
  | seq _ _ ihr _ => exact ihr hr hw
  | altLeft _ ih => exact ih (Bool.and_eq_true_iff.mp hr).1 hw
  | altRight _ ih => exact ih (Bool.and_eq_true_iff.mp hr).2 hw

/-- A match does not end inside a word. -/
theorem Matches.boundaryAt_end {r : Regex} {i e : Nat} (h : Matches text r i e)
    (hr : closed r = true) (hw : wordBefore text e = true) : Regex.boundaryAt text e = true := by
  induction h with
  | boundary hb => exact hb
  | @chars cls min max i n hmin _ hall =>
      obtain ⟨hpos, hcls⟩ := Bool.and_eq_true_iff.mp hr
      cases n with
      | zero => exact absurd (of_decide_eq_true hpos) (Nat.not_lt.mpr hmin)
      | succ n =>
          have hlast := wordAt_of_separators hcls (hall n (Nat.lt_succ_self n))
          have hword : wordAt text (i + n) = true := hw
          rw [hlast] at hword
          exact nomatch hword
  | seq _ _ _ ihs => exact ihs hr hw
  | altLeft _ ih => exact ih (Bool.and_eq_true_iff.mp hr).1 hw
  | altRight _ ih => exact ih (Bool.and_eq_true_iff.mp hr).2 hw

theorem Matches.ne_of_opensWithout {r : Regex} {i e : Nat} (h : Matches text r i e) {c : Char}
    (hr : opensWithout c r = true) : text[i]? ≠ some c := by
  induction h with
  | boundary _ => exact nomatch hr
  | @chars cls min max i n hmin _ hall =>
      obtain ⟨hpos, hnot⟩ := Bool.and_eq_true_iff.mp hr
      have hchar := hall 0 (Nat.lt_of_lt_of_le (of_decide_eq_true hpos) hmin)
      rw [Nat.add_zero] at hchar
      intro hc
      rw [hc] at hchar
      have hin : inClass cls c = true := hchar
      rw [hin] at hnot
      exact nomatch hnot
  | @seq r s i j e hl _ ihr ihs =>
      cases hl with
      | boundary _ => exact ihs hr
      | chars _ _ _ => exact ihr hr
      | seq _ _ => exact ihr hr
      | altLeft _ => exact ihr hr
      | altRight _ => exact ihr hr
  | altLeft _ ih => exact ih (Bool.and_eq_true_iff.mp hr).1
  | altRight _ ih => exact ih (Bool.and_eq_true_iff.mp hr).2

/-! ## The preferred end -/

theorem head?_downFrom {low n k : Nat} (h : (downFrom low n).head? = some k) : k = n := by
  cases n with
  | zero =>
      have hmem := mem_downFrom.mp (List.mem_of_head? h)
      omega
  | succ n =>
      unfold downFrom at h
      split at h
      · exact (Option.some.inj h).symm
      · exact nomatch h

/-- After as many characters of a class as there are comes none of the class. -/
theorem next_of_takeWhile {q : Char → Bool} : ∀ (cs : List Char) {c : Char},
    cs[(cs.takeWhile q).length]? = some c → q c = false
  | [], _, h => nomatch h
  | d :: cs, c, h => by
      by_cases hd : q d = true
      · rw [List.takeWhile_cons_of_pos hd, List.length_cons, List.getElem?_cons_succ] at h
        exact next_of_takeWhile cs h
      · rw [List.takeWhile_cons_of_neg hd] at h
        rw [← Option.some.inj h]
        exact Bool.eq_false_iff.mpr hd

theorem inClass_mono {ranges cls : List (Char × Char)}
    (h : (ranges.all fun range => decide (range ∈ cls)) = true) {c : Char}
    (hc : inClass cls c = false) : inClass ranges c = false := by
  refine Bool.eq_false_iff.mpr fun hin => ?_
  obtain ⟨range, hrange, hle⟩ := List.any_eq_true.mp hin
  have hmem := of_decide_eq_true (List.all_eq_true.mp h range hrange)
  exact Bool.eq_false_iff.mp hc (List.any_eq_true.mpr ⟨range, hmem, hle⟩)

/-- The preferred match of a greedy pattern ends where the class does. -/
theorem next_of_greedy {ranges : List (Char × Char)} {r : Regex} {i e : Nat} {c : Char}
    (hr : greedy ranges r = true) (he : (ends text r i).head? = some e)
    (hc : text[e]? = some c) : inClass ranges c = false := by
  induction r generalizing i with
  | boundary => exact nomatch hr
  | chars cls min max =>
      cases max with
      | some m => exact nomatch hr
      | none =>
          unfold ends at he
          rw [List.head?_map] at he
          obtain ⟨n, hn, rfl⟩ := Option.map_eq_some_iff.mp he
          rw [head?_downFrom hn, ← List.getElem?_drop] at hc
          exact inClass_mono hr (next_of_takeWhile _ hc)
  | seq r s _ ihs =>
      unfold ends at he
      rw [List.head?_flatMap] at he
      obtain ⟨j, _, hj⟩ := List.exists_of_findSome?_eq_some he
      exact ihs hr hj
  | alt r s _ _ => exact nomatch hr

/-! ## Texts that are put together -/

/-- A match is found again in another text that has the same characters in its place, and
boundaries where it used them. -/
theorem Matches.shift {a b : List Char} {r : Regex} {i e d d' : Nat} (h : Matches a r i e)
    (hd : d ≤ i) (hchars : ∀ k, i ≤ k → k < e → b[k - d + d']? = a[k]?)
    (hbounds : ∀ k, i ≤ k → k ≤ e → Regex.boundaryAt a k = true →
      Regex.boundaryAt b (k - d + d') = true) :
    Matches b r (i - d + d') (e - d + d') := by
  induction h with
  | @boundary i hb => exact .boundary (hbounds i (Nat.le_refl _) (Nat.le_refl _) hb)
  | @chars cls min max i n hmin hmax hall =>
      have hend : i + n - d + d' = (i - d + d') + n := by omega
      rw [hend]
      refine .chars hmin hmax fun k hk => ?_
      have hplace : i - d + d' + k = i + k - d + d' := by omega
      rw [hplace, hchars (i + k) (by omega) (by omega)]
      exact hall k hk
  | @seq r s i j e hl hs ihr ihs =>
      have hij := hl.le
      have hje := hs.le
      refine .seq (ihr hd ?_ ?_) (ihs (by omega) ?_ ?_)
      · exact fun k hik hkj => hchars k hik (by omega)
      · exact fun k hik hkj => hbounds k hik (by omega)
      · exact fun k hjk hke => hchars k (by omega) hke
      · exact fun k hjk hke => hbounds k (by omega) hke
  | altLeft _ ih => exact .altLeft (ih hd hchars hbounds)
  | altRight _ ih => exact .altRight (ih hd hchars hbounds)

/-- The pattern matches somewhere in the text. -/
def Occurs (r : Regex) (text : List Char) : Prop := ∃ i e, Matches text r i e

section Cut

variable {a b : List Char} {c : Char}

theorem getElem?_cut : (a ++ c :: b)[a.length]? = some c := by
  rw [List.getElem?_append_right (Nat.le_refl _), Nat.sub_self, List.getElem?_cons_zero]

theorem wordAt_append_left (hc : isWord c = false) {k : Nat} (hk : k ≤ a.length) :
    wordAt (a ++ c :: b) k = wordAt a k := by
  unfold wordAt
  by_cases hlt : k < a.length
  · rw [List.getElem?_append_left hlt]
  · have hlen : k = a.length := by omega
    subst hlen
    rw [getElem?_cut, List.getElem?_eq_none (Nat.le_refl _)]
    exact hc

theorem getElem?_append_right' (k : Nat) : (a ++ c :: b)[k + (a.length + 1)]? = b[k]? := by
  rw [List.getElem?_append_right (by omega)]
  have hplace : k + (a.length + 1) - a.length = k + 1 := by omega
  rw [hplace, List.getElem?_cons_succ]

theorem wordAt_append_right (k : Nat) : wordAt (a ++ c :: b) (k + (a.length + 1)) = wordAt b k :=
  congrArg (fun o => Option.any isWord o) (getElem?_append_right' k)

theorem boundaryAt_append_left (hc : isWord c = false) {k : Nat} (hk : k ≤ a.length) :
    boundaryAt (a ++ c :: b) k = boundaryAt a k := by
  unfold boundaryAt
  rw [wordAt_append_left hc hk]
  cases k with
  | zero => rfl
  | succ k => rw [wordBefore, wordBefore, wordAt_append_left hc (Nat.le_of_succ_le hk)]

theorem boundaryAt_append_right (hc : isWord c = false) (k : Nat) :
    boundaryAt (a ++ c :: b) (k + (a.length + 1)) = boundaryAt b k := by
  have hbefore : wordBefore (a ++ c :: b) (k + (a.length + 1)) = wordBefore b k := by
    cases k with
    | zero =>
        rw [Nat.zero_add]
        change ((a ++ c :: b)[a.length]?).any isWord = false
        rw [getElem?_cut]
        exact hc
    | succ k =>
        have hplace : k + 1 + (a.length + 1) = k + (a.length + 1) + 1 := by omega
        rw [hplace, wordBefore, wordBefore, wordAt_append_right]
  unfold boundaryAt
  rw [hbefore, wordAt_append_right]

/-- **A character that the pattern avoids, and that is no word character, cuts a text in
two.** -/
theorem occurs_append_cons {r : Regex} (hr : proper r = true) (ha : avoids c r = true)
    (hc : isWord c = false) : Occurs r (a ++ c :: b) ↔ Occurs r a ∨ Occurs r b := by
  constructor
  · rintro ⟨i, e, h⟩
    by_cases he : e ≤ a.length
    · refine .inl ⟨i - 0 + 0, e - 0 + 0, h.shift (Nat.zero_le i) ?_ ?_⟩
      · intro k _ hke
        exact (List.getElem?_append_left (by omega)).symm
      · intro k _ hke hb
        rw [boundaryAt_append_left hc (by omega)] at hb
        exact hb
    · -- the match does not have the character, so it starts after it
      have hie := h.lt hr
      have hi : a.length + 1 ≤ i := by
        by_contra hle
        exact h.ne_of_avoids ha a.length (by omega) (by omega) getElem?_cut
      refine .inr ⟨i - (a.length + 1) + 0, e - (a.length + 1) + 0, h.shift hi ?_ ?_⟩
      · intro k hik _
        have hcut := getElem?_append_right' (a := a) (b := b) (c := c) (k - (a.length + 1))
        rw [Nat.sub_add_cancel (by omega)] at hcut
        exact hcut.symm
      · intro k hik _ hb
        have hcut := boundaryAt_append_right (a := a) (b := b) hc (k - (a.length + 1))
        rw [Nat.sub_add_cancel (by omega)] at hcut
        rw [Nat.add_zero, ← hcut]
        exact hb
  · rintro (⟨i, e, h⟩ | ⟨i, e, h⟩)
    · have hle := h.le
      refine ⟨i - 0 + 0, e - 0 + 0, h.shift (Nat.zero_le i) ?_ ?_⟩
      · intro k hik hke
        exact List.getElem?_append_left (h.lt_length k hik hke)
      · intro k hik hke hb
        have hk : k ≤ a.length := by
          by_cases hie : i < e
          · have hlast := h.lt_length (e - 1) (by omega) (by omega)
            omega
          · exact absurd (h.lt hr) hie
        exact (boundaryAt_append_left hc hk).trans hb
    · refine ⟨i - 0 + (a.length + 1), e - 0 + (a.length + 1), h.shift (Nat.zero_le i) ?_ ?_⟩
      · exact fun k _ _ => getElem?_append_right' k
      · exact fun k _ _ hb => (boundaryAt_append_right hc k).trans hb

end Cut

/-! ## Going through a text -/

/-- From a place on, the matches that do not start in one before them. -/
def hitsFrom (text : List Char) (r : Regex) : Nat → Nat → Nat → List (Nat × Nat)
  | 0, _, _ => []
  | fuel + 1, i, free =>
      if i < free then hitsFrom text r fuel (i + 1) free
      else match ends text r i with
        | [] => hitsFrom text r fuel (i + 1) free
        | e :: _ => (i, e - i) :: hitsFrom text r fuel (i + 1) e

/-- The places and lengths of the matches, from left to right. -/
def hits (r : Regex) (text : List Char) : List (Nat × Nat) :=
  hitsFrom text r (text.length + 1) 0 0

/-- What is found in a text: matches, and each match of the text starts in one of them. -/
structure Leftmost (r : Regex) (text : List Char) (found : List (Nat × Nat)) : Prop where
  sound : ∀ hit ∈ found, Matches text r hit.1 (hit.1 + hit.2)
  covers : ∀ i e, Matches text r i e → ∃ hit ∈ found, hit.1 ≤ i ∧ i < hit.1 + hit.2

/-- What is found ends at the preferred end. -/
theorem hitsFrom_head {r : Regex} : ∀ (fuel i free : Nat),
    ∀ hit ∈ hitsFrom text r fuel i free, (ends text r hit.1).head? = some (hit.1 + hit.2)
  | 0, _, _, _, h => nomatch h
  | fuel + 1, i, free, hit, h => by
      unfold hitsFrom at h
      split at h
      · exact hitsFrom_head fuel (i + 1) free hit h
      · split at h
        · exact hitsFrom_head fuel (i + 1) free hit h
        · rename_i e rest hends
          rcases List.mem_cons.mp h with rfl | h
          · have hm : Matches text r i e := mem_ends.mp (hends ▸ List.mem_cons_self)
            dsimp only
            rw [hends, Nat.add_sub_of_le hm.le]
            rfl
          · exact hitsFrom_head fuel (i + 1) e hit h

theorem hits_head {r : Regex} : ∀ hit ∈ hits r text,
    (ends text r hit.1).head? = some (hit.1 + hit.2) :=
  hitsFrom_head (text.length + 1) 0 0

theorem hitsFrom_covers {r : Regex} (hr : proper r = true) {j e : Nat}
    (h : Matches text r j e) : ∀ (fuel i free : Nat), i ≤ j → j < i + fuel → free ≤ j →
      ∃ hit ∈ hitsFrom text r fuel i free, hit.1 ≤ j ∧ j < hit.1 + hit.2
  | 0, i, _, hij, hji, _ => absurd hji (by omega)
  | fuel + 1, i, free, hij, hji, hfree => by
      unfold hitsFrom
      by_cases hi : i < free
      · rw [if_pos hi]
        exact hitsFrom_covers hr h fuel (i + 1) free (by omega) (by omega) hfree
      · rw [if_neg hi]
        split
        · rename_i hends
          -- nothing matches here, so the match of the text is further on
          have hne : i ≠ j := by
            intro heq
            subst heq
            exact nomatch hends ▸ mem_ends.mpr h
          exact hitsFrom_covers hr h fuel (i + 1) free (by omega) (by omega) hfree
        · rename_i e' rest hends
          have hm : Matches text r i e' := mem_ends.mp (hends ▸ List.mem_cons_self)
          have hlt := hm.lt hr
          by_cases hin : j < e'
          · exact ⟨(i, e' - i), List.mem_cons_self, hij, by dsimp only; omega⟩
          · obtain ⟨hit, hmem, hcov⟩ :=
              hitsFrom_covers hr h fuel (i + 1) e' (by omega) (by omega) (by omega)
            exact ⟨hit, List.mem_cons_of_mem _ hmem, hcov⟩

/-- **Going through a text finds the leftmost matches.** -/
theorem leftmost_hits {r : Regex} (hr : proper r = true) : Leftmost r text (hits r text) where
  sound := fun hit h => mem_ends.mp (List.mem_of_head? (hits_head hit h))
  covers := by
    intro i e h
    have hlen := h.lt_length i (Nat.le_refl i) (h.lt hr)
    exact hitsFrom_covers hr h (text.length + 1) 0 0 (Nat.zero_le i) (by omega) (Nat.zero_le i)

theorem Leftmost.not_occurs_of_nil {r : Regex} (h : Leftmost r text []) : ¬ Occurs r text := by
  rintro ⟨i, e, hm⟩
  obtain ⟨hit, hmem, _⟩ := h.covers i e hm
  exact nomatch hmem

/-- The pattern occurs in a text just when something is found. -/
theorem Leftmost.ne_nil_iff {r : Regex} {found : List (Nat × Nat)} (h : Leftmost r text found) :
    found ≠ [] ↔ Occurs r text := by
  constructor
  · intro hne
    obtain ⟨hit, hmem⟩ := List.exists_mem_of_ne_nil found hne
    exact ⟨hit.1, hit.1 + hit.2, h.sound hit hmem⟩
  · intro hoccurs hnil
    subst hnil
    exact h.not_occurs_of_nil hoccurs

end Regex

end Lib
