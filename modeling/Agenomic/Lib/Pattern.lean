import Mathlib

/-!
# Replacing what a pattern finds

Patterns as backtracking engines of scripting languages have them, over a list of units: greedy
and lazy repetitions of a class, anchors, word boundaries, a look behind by any pattern and a
look ahead for a unit. `ends` are the places where a match can end, the preferred one first.

To replace is to cut a text into the pieces between the matches and to join them with a marker.
A word that is in no piece, and that shares nothing with the marker (`Apart`), is not in what is
joined (**`not_isInfix_intercalate`**): whatever is replaced, no occurrence of it comes into being.
-/

namespace Lib

inductive Pattern (α : Type) where
  | empty
  | one (p : α → Bool)
  | many (min : Nat) (max : Option Nat) (greedy : Bool) (p : α → Bool)
  | seq (r s : Pattern α)
  | alt (r s : Pattern α)
  | start
  | finish
  /-- Between a unit of a word and one that is none, or the edge of the text. -/
  | boundary (word : α → Bool)
  | behind (r : Pattern α)
  | notAhead (p : α → Bool)

namespace Pattern

variable {α : Type}

/-- Units in sequence. -/
def word [DecidableEq α] : List α → Pattern α
  | [] => empty
  | a :: rest => seq (one fun b => b = a) (word rest)

/-- All of them in sequence. -/
def all : List (Pattern α) → Pattern α
  | [] => empty
  | [r] => r
  | r :: rest => seq r (all rest)

/-- The first that leads to a match. -/
def any : List (Pattern α) → Pattern α
  | [] => one fun _ => false
  | [r] => r
  | r :: rest => alt r (any rest)

def optional (r : Pattern α) : Pattern α := alt r empty

/-- How many units a repetition takes at most. -/
def longest (max : Option Nat) (p : α → Bool) (units : List α) : Nat :=
  match max with
  | none => (units.takeWhile p).length
  | some m => min m (units.takeWhile p).length

/-- The numbers of units a repetition can take, as they are tried. -/
def counts (low high : Nat) (greedy : Bool) : List Nat :=
  let up := (List.range (high + 1)).filter fun n => low ≤ n
  if greedy then up.reverse else up

def unitAt (text : List α) (p : α → Bool) (i : Nat) : Bool := (text[i]?).any p

def unitBefore (text : List α) (p : α → Bool) : Nat → Bool
  | 0 => false
  | i + 1 => unitAt text p i

/-- Where a match from a place can end, the preferred end first. -/
def ends (text : List α) : Pattern α → Nat → List Nat
  | empty, i => [i]
  | one p, i => if unitAt text p i then [i + 1] else []
  | many low max greedy p, i =>
      (counts low (longest max p (text.drop i)) greedy).map fun n => i + n
  | seq r s, i => (ends text r i).flatMap (ends text s)
  | alt r s, i => ends text r i ++ ends text s i
  | start, i => if i = 0 then [i] else []
  | finish, i => if i = text.length then [i] else []
  | boundary p, i => if unitBefore text p i != unitAt text p i then [i] else []
  | behind r, i => if (List.range (i + 1)).any fun j => i ∈ ends text r j then [i] else []
  | notAhead p, i => if unitAt text p i then [] else [i]

/-- The pattern occurs in the text. -/
def occurs (r : Pattern α) (text : List α) : Bool :=
  (List.range (text.length + 1)).any fun i => !(ends text r i).isEmpty

end Pattern

/-! ## Cutting and joining -/

section Cut

variable {α : Type}

/-- What is found at a place: where the part to replace begins and ends, and where to go on. -/
structure Hit where
  first : Nat
  last : Nat
  next : Nat

/-- What is found from a place on; where nothing is found, or nothing is taken, the next place is
tried. -/
def hitsFrom (find : Nat → Option Hit) (len : Nat) : (fuel i : Nat) → List Hit
  | 0, _ => []
  | fuel + 1, i =>
      if len < i then []
      else match find i with
        | none => hitsFrom find len fuel (i + 1)
        | some hit => hit :: hitsFrom find len fuel (max hit.next (i + 1))

def hits (find : Nat → Option Hit) (text : List α) : List Hit :=
  hitsFrom find text.length (text.length + 1) 0

/-- The pieces of a text between what is found. -/
def pieces (text : List α) : (i : Nat) → List Hit → List (List α)
  | i, [] => [text.drop i]
  | i, hit :: rest => (text.drop i).take (hit.first - i) :: pieces text hit.last rest

/-- Cut a text at what is found. -/
def cut (find : Nat → Option Hit) (text : List α) : List (List α) := pieces text 0 (hits find text)

/-- A match of a pattern, to replace it as a whole. -/
def Pattern.find (r : Pattern α) (text : List α) (i : Nat) : Option Hit :=
  (r.ends text i).head?.map fun e => ⟨i, e, e⟩

/-- A match of three patterns in sequence, to replace what the second one matched. -/
def Pattern.findBetween (r s t : Pattern α) (text : List α) (i : Nat) : Option Hit :=
  ((r.ends text i).flatMap fun a => (s.ends text a).flatMap fun b =>
    (t.ends text b).map fun c => (⟨a, b, c⟩ : Hit)).head?

/-- An occurrence of a word. -/
def findWord [DecidableEq α] (word text : List α) (i : Nat) : Option Hit :=
  if word <+: text.drop i then some ⟨i, i + word.length, i + word.length⟩ else none

/-- A piece is a part of the text. -/
theorem isInfix_of_mem_pieces {text piece : List α} : ∀ {found : List Hit} {i : Nat},
    piece ∈ pieces text i found → piece <:+: text
  | [], i, h => by
      rw [pieces, List.mem_singleton] at h
      rw [h]
      exact (List.drop_suffix i text).isInfix
  | hit :: rest, i, h => by
      rw [pieces, List.mem_cons] at h
      rcases h with rfl | h
      · exact (List.take_prefix _ _).isInfix.trans (List.drop_suffix i text).isInfix
      · exact isInfix_of_mem_pieces h

theorem pieces_ne_nil (text : List α) (i : Nat) (found : List Hit) : pieces text i found ≠ [] := by
  cases found with
  | nil => exact List.cons_ne_nil _ _
  | cons hit rest => exact List.cons_ne_nil _ _

variable [DecidableEq α]

omit [DecidableEq α] in
/-- A word in a part of a text is found in the text, at a place of that part. -/
theorem exists_prefix_of_isInfix_take {word text : List α} {i n : Nat}
    (h : word <:+: (text.drop i).take n) :
    ∃ k, i ≤ k ∧ k + word.length ≤ i + n ∧ word <+: text.drop k := by
  obtain ⟨a, b, hab⟩ := h
  have hlen : a.length + word.length + b.length ≤ n := by
    have hcount := congrArg List.length hab
    rw [List.length_append, List.length_append, List.length_take] at hcount
    omega
  refine ⟨i + a.length, Nat.le_add_right _ _, by omega, ?_⟩
  have hsplit : text.drop i = a ++ (word ++ (b ++ (text.drop i).drop n)) := by
    rw [← List.append_assoc, ← List.append_assoc, hab, List.take_append_drop]
  rw [← List.drop_drop, hsplit, List.drop_left]
  exact List.prefix_append _ _

omit [DecidableEq α] in
theorem lt_length_of_prefix_drop {word text : List α} {k : Nat} (hword : word ≠ [])
    (h : word <+: text.drop k) : k < text.length := by
  by_contra hle
  rw [List.drop_eq_nil_of_le (Nat.le_of_not_lt hle), List.prefix_nil] at h
  exact hword h

/-- Between the occurrences of a word it does not occur. -/
theorem not_isInfix_hitsFrom {word text piece : List α} (hword : word ≠ []) :
    ∀ {fuel i j : Nat}, text.length < fuel + j → i ≤ j →
      (∀ k, i ≤ k → k < j → ¬ word <+: text.drop k) →
      piece ∈ pieces text i (hitsFrom (findWord word text) text.length fuel j) →
      ¬ word <:+: piece := by
  -- the last piece, once the places up to its end have been tried
  have hlast : ∀ {i j : Nat}, text.length < j → (∀ k, i ≤ k → k < j → ¬ word <+: text.drop k) →
      piece ∈ pieces text i [] → ¬ word <:+: piece := by
    intro i j hlt hnone h hin
    rw [pieces, List.mem_singleton] at h
    have htake : (text.drop i).take text.length = text.drop i := by
      refine List.take_of_length_le ?_
      rw [List.length_drop]
      omega
    rw [h, ← htake] at hin
    obtain ⟨k, hik, -, hpre⟩ := exists_prefix_of_isInfix_take hin
    have hk := lt_length_of_prefix_drop hword hpre
    exact hnone k hik (by omega) hpre
  intro fuel
  induction fuel with
  | zero =>
      intro i j hfuel hij hnone h
      exact hlast (by omega) hnone h
  | succ fuel ih =>
      intro i j hfuel hij hnone h
      unfold hitsFrom at h
      by_cases hj : text.length < j
      · rw [if_pos hj] at h
        exact hlast hj hnone h
      · rw [if_neg hj] at h
        unfold findWord at h
        by_cases hfound : word <+: text.drop j
        · rw [if_pos hfound] at h
          dsimp only at h
          rw [pieces, List.mem_cons] at h
          have hpos := List.length_pos_iff.mpr hword
          rcases h with rfl | h
          · intro hin
            obtain ⟨k, hik, hlen, hpre⟩ := exists_prefix_of_isInfix_take hin
            dsimp only at hlen
            exact hnone k hik (by omega) hpre
          · have hmax : max (j + word.length) (j + 1) = j + word.length := by omega
            dsimp only at h
            rw [hmax] at h
            exact ih (by omega) (Nat.le_refl _) (fun k hk hlt => absurd hk (by omega)) h
        · rw [if_neg hfound] at h
          dsimp only at h
          refine ih (by omega) (by omega) (fun k hik hk => ?_) h
          by_cases heq : k = j
          · rw [heq]
            exact hfound
          · exact hnone k hik (by omega)

/-- **Cut at the occurrences of a word, a text has no piece with the word.** -/
theorem not_isInfix_of_mem_cut_word {word text piece : List α} (hword : word ≠ [])
    (h : piece ∈ cut (findWord word text) text) : ¬ word <:+: piece := by
  refine not_isInfix_hitsFrom hword ?_ (Nat.le_refl 0) (fun k _ hk => by omega) h
  omega

omit [DecidableEq α] in
theorem isInfix_of_mem_cut {find : Nat → Option Hit} {text piece : List α}
    (h : piece ∈ cut find text) : piece <:+: text := isInfix_of_mem_pieces h

end Cut

/-! ## Words and markers -/

section Apart

variable {α : Type}

/-- A word and a marker share nothing: no end of the one is a beginning of the other, and neither
is in the other. -/
structure Apart (word marker : List α) : Prop where
  ends : ∀ part, part ≠ [] → part <:+ word → ¬ part <+: marker
  begins : ∀ part, part ≠ [] → part <+: word → ¬ part <:+ marker
  inside : ¬ word <:+: marker
  around : ¬ marker <:+: word

/-- An occurrence in a text of three parts is in one of the outer parts, or touches the one in
the middle. -/
theorem isInfix_append_three {word p m t : List α} (h : word <:+: p ++ (m ++ t)) :
    word <:+: p ∨ word <:+: t ∨ word <:+: m ∨ m <:+: word
      ∨ (∃ part, part ≠ [] ∧ part <:+ word ∧ part <+: m)
      ∨ ∃ part, part ≠ [] ∧ part <+: word ∧ part <:+ m := by
  obtain ⟨a, b, hab⟩ := h
  rw [List.append_assoc] at hab
  rcases List.append_eq_append_iff.mp hab with ⟨c, rfl, hc⟩ | ⟨c, rfl, hc⟩
  · -- it begins in the first part
    rcases List.append_eq_append_iff.mp hc with ⟨d, rfl, -⟩ | ⟨d, rfl, hd⟩
    · exact .inl ⟨a, d, List.append_assoc _ _ _⟩
    · by_cases hnil : d = []
      · subst hnil
        exact .inl ⟨a, [], by rw [List.append_nil, List.append_nil]⟩
      · rcases List.append_eq_append_iff.mp hd with ⟨e, rfl, -⟩ | ⟨e, rfl, -⟩
        · exact .inr (.inr (.inr (.inl ⟨c, e, List.append_assoc _ _ _⟩)))
        · have hends : ∃ part, part ≠ [] ∧ part <:+ c ++ d ∧ part <+: d ++ e :=
            ⟨d, hnil, List.suffix_append c d, List.prefix_append d e⟩
          exact .inr (.inr (.inr (.inr (.inl hends))))
  · -- it begins behind it
    rcases List.append_eq_append_iff.mp hc with ⟨d, rfl, hd⟩ | ⟨d, rfl, hd⟩
    · exact .inr (.inl ⟨d, b, by rw [hd, List.append_assoc]⟩)
    · rcases List.append_eq_append_iff.mp hd with ⟨e, rfl, -⟩ | ⟨e, rfl, he⟩
      · exact .inr (.inr (.inl ⟨c, e, List.append_assoc _ _ _⟩))
      · by_cases hnil : d = []
        · subst hnil
          exact .inr (.inl ⟨[], b, by rw [he]; rfl⟩)
        · have hbegins : ∃ part, part ≠ [] ∧ part <+: d ++ e ∧ part <:+ c ++ d :=
            ⟨d, hnil, List.prefix_append d e, List.suffix_append c d⟩
          exact .inr (.inr (.inr (.inr (.inr hbegins))))

/-- **No occurrence comes into being** where pieces without a word are joined by a marker that
shares nothing with it. -/
theorem not_isInfix_intercalate {word marker : List α} (h : Apart word marker) :
    ∀ {pieces : List (List α)}, pieces ≠ [] → (∀ piece ∈ pieces, ¬ word <:+: piece) →
      ¬ word <:+: marker.intercalate pieces
  | [], hne, _ => absurd rfl hne
  | [piece], _, hpieces => by
      rw [List.intercalate_singleton]
      exact hpieces piece List.mem_cons_self
  | piece :: next :: rest, _, hpieces => by
      rw [List.intercalate_cons_cons, List.append_assoc]
      intro hin
      rcases isInfix_append_three hin with
        hin | hin | hin | hin | ⟨part, hne, hword, hmarker⟩ | ⟨part, hne, hword, hmarker⟩
      · exact hpieces piece List.mem_cons_self hin
      · refine not_isInfix_intercalate h (List.cons_ne_nil _ _) (fun q hq => ?_) hin
        exact hpieces q (List.mem_cons_of_mem _ hq)
      · exact h.inside hin
      · exact h.around hin
      · exact h.ends part hne hword hmarker
      · exact h.begins part hne hword hmarker

/-- A word that is not in a text is not in what becomes of it. -/
theorem not_isInfix_cut {word marker text : List α} (h : Apart word marker)
    (hnone : ¬ word <:+: text) (find : Nat → Option Hit) :
    ¬ word <:+: marker.intercalate (cut find text) :=
  not_isInfix_intercalate h (pieces_ne_nil _ _ _) fun _ hpiece hin =>
    hnone (hin.trans (isInfix_of_mem_cut hpiece))

end Apart

end Lib
