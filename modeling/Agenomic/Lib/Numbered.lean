import Mathlib.Data.List.Count
import Mathlib.Data.List.Nodup
import Mathlib.Logic.Function.Basic

/-!
# Numbering the repeats of a name

A list of names is made distinct by a suffix: the second and every later use of a name gets
the number of the use. The numbered list is the image of the pairs (name, number of the
use), and these are distinct whatever the names are. So two names of the result fall
together only where a suffixed name is also a name of the list (`nodup_numbered_iff`).
-/

namespace Lib

variable {α : Type} [DecidableEq α]

/-- Each name with the number of its use, `seen` uses being before the list. -/
def occurrences (seen : α → Nat) : List α → List (α × Nat)
  | [] => []
  | a :: rest => (a, seen a + 1) :: occurrences (Function.update seen a (seen a + 1)) rest

/-- The name of one use: the first is plain, the others carry their number. -/
def nameOfUse (suffix : α → Nat → α) (use : α × Nat) : α :=
  if 1 < use.2 then suffix use.1 use.2 else use.1

/-- The list with its repeats numbered. -/
def numbered (suffix : α → Nat → α) (seen : α → Nat) : List α → List α
  | [] => []
  | a :: rest =>
      nameOfUse suffix (a, seen a + 1) ::
        numbered suffix (Function.update seen a (seen a + 1)) rest

theorem numbered_eq_map (suffix : α → Nat → α) : ∀ (seen : α → Nat) (names : List α),
    numbered suffix seen names = (occurrences seen names).map (nameOfUse suffix)
  | _, [] => rfl
  | seen, a :: rest => by
      rw [numbered, occurrences, List.map_cons, numbered_eq_map suffix _ rest]

/-- **The uses of a name are numbered from one past those seen, up to the last.** -/
theorem mem_occurrences {a : α} {n : Nat} : ∀ {seen : α → Nat} {names : List α},
    (a, n) ∈ occurrences seen names ↔ seen a < n ∧ n ≤ seen a + names.count a := by
  intro seen names
  induction names generalizing seen with
  | nil =>
      simp only [occurrences, List.not_mem_nil, List.count_nil, false_iff]
      omega
  | cons b rest ih =>
      rw [occurrences, List.mem_cons, ih, Prod.mk.injEq]
      by_cases hab : a = b
      · subst hab
        rw [Function.update_self, List.count_cons_self]
        constructor
        · intro h
          rcases h with ⟨-, hn⟩ | ⟨hlow, hhigh⟩
          · omega
          · omega
        · intro h
          by_cases hn : n = seen a + 1
          · exact Or.inl ⟨rfl, hn⟩
          · exact Or.inr (by omega)
      · rw [Function.update_of_ne hab, List.count_cons_of_ne (Ne.symm hab)]
        constructor
        · intro h
          rcases h with ⟨heq, -⟩ | h
          · exact absurd heq hab
          · exact h
        · intro h
          exact Or.inr h

theorem nodup_occurrences : ∀ (seen : α → Nat) (names : List α), (occurrences seen names).Nodup
  | _, [] => List.nodup_nil
  | seen, a :: rest => by
      refine List.nodup_cons.mpr ⟨?_, nodup_occurrences _ rest⟩
      intro h
      -- the rest counts the uses of `a` from this one on
      have hlow := (mem_occurrences.mp h).1
      rw [Function.update_self] at hlow
      exact absurd hlow (Nat.lt_irrefl _)

/-- The suffixed names of different uses are different. -/
def SuffixInjective (suffix : α → Nat → α) : Prop :=
  ∀ a b m n, suffix a m = suffix b n → a = b ∧ m = n

/-- **The numbered names are distinct exactly when no name of the list is another's name
with the number of one of its later uses.** -/
theorem nodup_numbered_iff {suffix : α → Nat → α} (hinj : SuffixInjective suffix)
    (hne : ∀ a n, suffix a n ≠ a) (names : List α) :
    (numbered suffix (fun _ => 0) names).Nodup ↔
      ∀ a n, 2 ≤ n → n ≤ names.count a → suffix a n ∉ names := by
  rw [numbered_eq_map, List.nodup_map_iff_inj_on (nodup_occurrences _ names)]
  constructor
  · intro h a n hlow hhigh hmem
    -- the plain name and the suffixed one are two uses with one label
    have hplain : (suffix a n, 1) ∈ occurrences (fun _ => 0) names := by
      refine mem_occurrences.mpr ⟨Nat.one_pos, ?_⟩
      have := List.one_le_count_iff.mpr hmem
      omega
    have hsuffixed : (a, n) ∈ occurrences (fun _ => 0) names :=
      mem_occurrences.mpr ⟨by omega, by omega⟩
    have heq := h _ hplain _ hsuffixed (by
      unfold nameOfUse
      rw [if_neg (Nat.lt_irrefl 1), if_pos (show 1 < n by omega)])
    exact hne a n (congrArg Prod.fst heq)
  · intro h
    -- a plain name is never the label of a later use
    have hmixed : ∀ a m b n, (a, m) ∈ occurrences (fun _ => 0) names →
        (b, n) ∈ occurrences (fun _ => 0) names → ¬ 1 < m → 1 < n → a ≠ suffix b n := by
      intro a m b n ha hb hm hn heq
      have hmem : a ∈ names := by
        have := mem_occurrences.mp ha
        exact List.one_le_count_iff.mp (by omega)
      have hcount := (mem_occurrences.mp hb).2
      exact h b n (by omega) (by omega) (heq ▸ hmem)
    intro ⟨a, m⟩ ha ⟨b, n⟩ hb hlabel
    unfold nameOfUse at hlabel
    have hma := (mem_occurrences.mp ha).1
    have hnb := (mem_occurrences.mp hb).1
    by_cases hm : 1 < m <;> by_cases hn : 1 < n
    · rw [if_pos hm, if_pos hn] at hlabel
      obtain ⟨rfl, rfl⟩ := hinj _ _ _ _ hlabel
      rfl
    · rw [if_pos hm, if_neg hn] at hlabel
      exact absurd hlabel.symm (hmixed b n a m hb ha hn hm)
    · rw [if_neg hm, if_pos hn] at hlabel
      exact absurd hlabel (hmixed a m b n ha hb hm hn)
    · rw [if_neg hm, if_neg hn] at hlabel
      have hmn : m = n := by omega
      subst hmn hlabel
      rfl

end Lib
