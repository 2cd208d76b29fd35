import Agenomic.Gate.PathGuard

/-!
# What a context can hide

A text with a finding is put between two others, with a space on either side. What is looked
for in words or in groups of digits and dashes is found again, since a space ends them. A card
number is looked for in a run of digits, spaces and dashes, and such a run goes on over the
space: digits in the context become digits of the number, and with too many it is none.

**`keepsFinding_iff`**: a finding is found in every context exactly when it is no card number,
or one in a run that other characters of the text shut off on both sides.
-/

namespace Agenomic.Gate

open Lib Prompt

/-! ## Pieces of a list put together from others -/

section Pieces

variable {α : Type} {p : α → Bool}

/-- The last piece of the first list and the first of the second become one. -/
theorem splitOnP_append (xs ys : List α) : ∃ pieces last, xs.splitOnP p = pieces ++ [last]
    ∧ (xs ++ ys).splitOnP p = pieces ++ (ys.splitOnP p).modifyHead (last ++ ·) := by
  obtain ⟨first, more, hsplit⟩ := List.exists_cons_of_ne_nil (List.splitOnP_ne_nil p ys)
  rw [hsplit]
  induction xs with
  | nil => exact ⟨[], [], rfl, hsplit⟩
  | cons x xs ih =>
      obtain ⟨pieces, last, hlast, happend⟩ := ih
      rw [List.cons_append, List.splitOnP_cons_eq_if_modifyHead, List.splitOnP_cons_eq_if_modifyHead,
        happend, hlast]
      by_cases hx : p x = true
      · rw [if_pos hx, if_pos hx]
        exact ⟨[] :: pieces, last, rfl, rfl⟩
      · rw [if_neg hx, if_neg hx]
        cases pieces with
        | nil => exact ⟨[], x :: last, rfl, rfl⟩
        | cons piece pieces => exact ⟨(x :: piece) :: pieces, last, rfl, rfl⟩

/-- Pieces that are neither first nor last. -/
def innerPieces (p : α → Bool) (xs : List α) : List (List α) := (xs.splitOnP p).dropLast.tail

theorem mem_of_mem_innerPieces {piece xs : List α} (before after : List α)
    (h : piece ∈ innerPieces p xs) : piece ∈ (before ++ (xs ++ after)).splitOnP p := by
  obtain ⟨_, _, -, hbefore⟩ := splitOnP_append (p := p) before (xs ++ after)
  obtain ⟨pieces, last, hpieces, hafter⟩ := splitOnP_append (p := p) xs after
  rw [hbefore, hafter]
  unfold innerPieces at h
  rw [hpieces, List.dropLast_concat] at h
  refine List.mem_append_right _ ?_
  cases pieces with
  | nil => cases h
  | cons first inner => exact List.mem_cons_of_mem _ (List.mem_append_left _ h)

/-- Between two lists that are not split: a piece is an inner one, or takes up one of them. -/
theorem splitOnP_between {before xs after piece : List α} (hbefore : ∀ c ∈ before, p c = false)
    (hafter : ∀ c ∈ after, p c = false) (h : piece ∈ (before ++ (xs ++ after)).splitOnP p) :
    piece ∈ innerPieces p xs ∨ (∃ rest, piece = before ++ rest) ∨ ∃ rest, piece = rest ++ after := by
  obtain ⟨none, first, hfirst, hwhole⟩ := splitOnP_append (p := p) before (xs ++ after)
  obtain ⟨pieces, last, hpieces, hrest⟩ := splitOnP_append (p := p) xs after
  rw [List.splitOnP_eq_singleton hbefore] at hfirst
  rw [List.splitOnP_eq_singleton hafter] at hrest
  have hnone : none = [] := by
    cases none with
    | nil => rfl
    | cons => simp at hfirst
  subst hnone
  cases hfirst
  rw [hwhole, hrest] at h
  unfold innerPieces
  rw [hpieces, List.dropLast_concat]
  cases pieces with
  | nil => exact .inr (.inl ⟨last ++ after, List.mem_singleton.mp h⟩)
  | cons outer inner =>
      rcases List.mem_cons.mp h with hhead | h
      · exact .inr (.inl ⟨outer, hhead⟩)
      · rcases List.mem_append.mp h with hinner | hend
        · exact .inl hinner
        · exact .inr (.inr ⟨last, List.mem_singleton.mp hend⟩)

/-- What starts with a character that the first list does not have is not begun in it. -/
theorem infix_of_append_left {x : α} {w xs ys : List α} (hx : x ∉ xs) (h : x :: w <:+: xs ++ ys) :
    x :: w <:+: ys := by
  obtain ⟨before, after, heq⟩ := h
  rw [List.append_assoc] at heq
  rcases List.append_eq_append_iff.mp heq with ⟨more, hxs, hys⟩ | ⟨more, hbefore, hys⟩
  · cases more with
    | nil => exact ⟨[], after, by rw [List.nil_append]; exact hys⟩
    | cons y more =>
        rw [List.cons_append] at hys
        obtain ⟨rfl, -⟩ := List.cons.inj hys
        exact absurd (hxs ▸ List.mem_append_right _ List.mem_cons_self) hx
  · exact ⟨more, after, by rw [List.append_assoc]; exact hys.symm⟩

theorem infix_of_append_right {x : α} {w xs ys : List α} (hx : x ∉ ys)
    (h : w ++ [x] <:+: xs ++ ys) : w ++ [x] <:+: xs := by
  have hreverse := List.reverse_infix.mpr h
  rw [List.reverse_append, List.reverse_append] at hreverse
  have hleft := infix_of_append_left (fun hin => hx (List.mem_reverse.mp hin)) hreverse
  refine List.reverse_infix.mp ?_
  rw [List.reverse_append]
  exact hleft

end Pieces

/-! ## Findings in a context -/

/-- A text between two others. -/
def inContext (a s b : String) : String := a ++ " " ++ s ++ " " ++ b

theorem inContext_toList (a s b : String) :
    (inContext a s b).toList = a.toList ++ ' ' :: (s.toList ++ ' ' :: b.toList) := by
  have hspace : " ".toList = [' '] := by decide +kernel
  unfold inContext
  simp only [String.toList_append, hspace, List.append_assoc, List.nil_append,
    List.cons_append]

/-- Where a space ends a piece, the pieces are those of the three texts. -/
theorem splitOnP_inContext {p : Char → Bool} (hspace : p ' ' = true) (a s b : String) :
    (inContext a s b).toList.splitOnP p
      = a.toList.splitOnP p ++ (s.toList.splitOnP p ++ b.toList.splitOnP p) := by
  rw [inContext_toList, List.splitOnP_append_cons _ _ hspace, List.splitOnP_append_cons _ _ hspace]

theorem any_inContext {p : Char → Bool} {q : List Char → Bool} (hspace : p ' ' = true)
    (a s b : String) : ((inContext a s b).toList.splitOnP p).any q = true
      ↔ (a.toList.splitOnP p).any q = true ∨ (s.toList.splitOnP p).any q = true
        ∨ (b.toList.splitOnP p).any q = true := by
  rw [splitOnP_inContext hspace, List.any_append, List.any_append, Bool.or_eq_true, Bool.or_eq_true]

/-- A character that ends a run of digits, spaces and dashes. -/
def endsRun (c : Char) : Bool := !(c.isDigit || c = ' ' || c = '-')

/-- A text with a finding that is no card number, or with one that its own characters shut off. -/
structure Lasting (s : List Char) : Prop where
  found : hasSecret s = true ∨ hasSsn s = true ∨ hasEmail s = true
    ∨ (innerPieces endsRun s).any runIsCard = true

theorem classify_isSome {s : String} : (classify s).isSome = true ↔ hasSecret s.toList = true
    ∨ hasCreditCard s.toList = true ∨ hasSsn s.toList = true ∨ hasEmail s.toList = true := by
  unfold classify
  by_cases hsecret : hasSecret s.toList = true
  · simp [hsecret]
  · by_cases hcard : hasCreditCard s.toList = true
    · simp [hsecret, hcard]
    · by_cases hssn : hasSsn s.toList = true
      · simp [hsecret, hcard, hssn]
      · by_cases hemail : hasEmail s.toList = true
        · simp [hsecret, hcard, hssn, hemail]
        · simp [hsecret, hcard, hssn, hemail]

theorem scanPii_string (s : String) : scanPii (.string s) = classify s := by
  unfold scanPii stringLeaves
  cases h : classify s with
  | none => rw [List.findSome?_cons, h]; rfl
  | some kind => rw [List.findSome?_cons, h]

/-- What one text holds is found in the value. -/
theorem scanPii_isSome_of_leaf {v : Value} {s : String} (hleaf : s ∈ stringLeaves v)
    (h : (classify s).isSome = true) : (scanPii v).isSome = true := by
  unfold scanPii
  rw [List.findSome?_isSome_iff]
  exact ⟨s, hleaf, h⟩

theorem hasSecret_iff {s : List Char} : hasSecret s = true ↔
    ("-----BEGIN".toList <:+: s ∧ "PRIVATE KEY".toList <:+: s)
      ∨ (s.splitOnP fun c => isWhiteSpace c || c = '"' || c = Char.ofNat 39).any (fun t =>
        secretPrefixes.any fun start =>
          start.toList.isPrefixOf t && decide (start.toList.length + 8 < (utf8Encode t).length))
        = true := by
  unfold hasSecret
  by_cases hkey : "-----BEGIN".toList <:+: s ∧ "PRIVATE KEY".toList <:+: s
  · rw [if_pos hkey]
    exact ⟨fun _ => .inl hkey, fun _ => rfl⟩
  · rw [if_neg hkey]
    exact ⟨.inr, fun h => h.resolve_left hkey⟩

theorem infix_inContext (a s b : String) : s.toList <:+: (inContext a s b).toList := by
  rw [inContext_toList]
  exact ⟨a.toList ++ [' '], ' ' :: b.toList, by simp⟩

/-- What lasts is found in every context. -/
theorem Lasting.classify_inContext {s : String} (h : Lasting s.toList) (a b : String) :
    (classify (inContext a s b)).isSome = true := by
  rw [classify_isSome]
  rcases h.found with hsecret | hssn | hemail | hcard
  · refine .inl (hasSecret_iff.mpr ?_)
    rcases hasSecret_iff.mp hsecret with ⟨hbegin, hend⟩ | htoken
    · exact .inl ⟨hbegin.trans (infix_inContext a s b), hend.trans (infix_inContext a s b)⟩
    · exact .inr ((any_inContext (by decide) a s b).mpr (.inr (.inl htoken)))
  · exact .inr (.inr (.inl ((any_inContext (by decide) a s b).mpr (.inr (.inl hssn)))))
  · exact .inr (.inr (.inr ((any_inContext (by decide) a s b).mpr (.inr (.inl hemail)))))
  · right
    left
    obtain ⟨run, hrun, hiscard⟩ := List.any_eq_true.mp hcard
    refine List.any_eq_true.mpr ⟨run, ?_, hiscard⟩
    have hmem := mem_of_mem_innerPieces (a.toList ++ [' ']) (' ' :: b.toList) hrun
    rw [List.append_assoc, List.singleton_append] at hmem
    rw [inContext_toList]
    exact hmem

/-! ## A context of digits -/

/-- More digits than a card number has. -/
def manyDigits : String := String.ofList (List.replicate 20 '0')

theorem manyDigits_toList : manyDigits.toList = List.replicate 20 '0' := String.toList_ofList

/-- With so many digits a run is no card number. -/
theorem runIsCard_manyDigits (before after : List Char) :
    runIsCard (before ++ (List.replicate 20 '0' ++ after)) = false := by
  unfold runIsCard
  have hmany : 20 ≤ ((before ++ (List.replicate 20 '0' ++ after)).filter Char.isDigit).length := by
    have hzeros : (List.replicate 20 '0').filter Char.isDigit = List.replicate 20 '0' := by decide
    rw [List.filter_append, List.filter_append, hzeros]
    simp only [List.length_append, List.length_replicate]
    omega
  dsimp only
  rw [decide_eq_false (by omega : ¬ _ ≤ 19), Bool.and_false, Bool.false_and]

/-- Between so many digits only an inner run is a card number. -/
theorem hasCreditCard_manyDigits {s : String}
    (h : hasCreditCard (inContext manyDigits s manyDigits).toList = true) :
    (innerPieces endsRun s.toList).any runIsCard = true := by
  obtain ⟨run, hrun, hiscard⟩ := List.any_eq_true.mp h
  have hwhole : (inContext manyDigits s manyDigits).toList
      = (List.replicate 20 '0' ++ [' ']) ++ (s.toList ++ ' ' :: List.replicate 20 '0') := by
    rw [inContext_toList, manyDigits_toList]
    simp
  rw [hwhole] at hrun
  have hzero : ∀ c ∈ List.replicate 20 '0', endsRun c = false := by
    intro c hc
    rw [List.eq_of_mem_replicate hc]
    rfl
  have hbefore : ∀ c ∈ List.replicate 20 '0' ++ [' '], endsRun c = false := by
    intro c hc
    rcases List.mem_append.mp hc with hc | hc
    · exact hzero c hc
    · rw [List.mem_singleton.mp hc]
      rfl
  have hafter : ∀ c ∈ ' ' :: List.replicate 20 '0', endsRun c = false := by
    intro c hc
    rcases List.mem_cons.mp hc with rfl | hc
    · rfl
    · exact hzero c hc
  rcases splitOnP_between hbefore hafter hrun with hinner | ⟨rest, rfl⟩ | ⟨rest, rfl⟩
  · exact List.any_eq_true.mpr ⟨run, hinner, hiscard⟩
  · have hmany := runIsCard_manyDigits [] (' ' :: rest)
    rw [List.append_assoc] at hiscard
    exact absurd (hiscard.symm.trans hmany) (by decide)
  · have hmany := runIsCard_manyDigits (rest ++ [' ']) []
    rw [List.append_nil, List.append_assoc] at hmany
    exact absurd (hiscard.symm.trans hmany) (by decide)

/-- Nothing but the text itself is read across its ends. -/
theorem infix_manyDigits {s : String} {x y : Char} {w : List Char} (hx : x ≠ '0' ∧ x ≠ ' ')
    (hy : y ≠ '0' ∧ y ≠ ' ')
    (h : x :: (w ++ [y]) <:+: (inContext manyDigits s manyDigits).toList) :
    x :: (w ++ [y]) <:+: s.toList := by
  rw [inContext_toList, manyDigits_toList] at h
  have hleft : x ∉ List.replicate 20 '0' ++ [' '] := by simp [hx.1, hx.2]
  have hright : y ∉ ' ' :: List.replicate 20 '0' := by simp [hy.1, hy.2]
  have hsplit : x :: (w ++ [y]) <:+: (List.replicate 20 '0' ++ [' '])
      ++ (s.toList ++ ' ' :: List.replicate 20 '0') := by
    rw [List.append_assoc, List.singleton_append]
    exact h
  exact infix_of_append_right (w := x :: w) hright (infix_of_append_left hleft hsplit)

theorem hasSecret_manyDigits {s : String}
    (h : hasSecret (inContext manyDigits s manyDigits).toList = true) :
    hasSecret s.toList = true := by
  refine hasSecret_iff.mpr ?_
  rcases hasSecret_iff.mp h with ⟨hbegin, hkey⟩ | htoken
  · left
    have hbegin' : "-----BEGIN".toList = '-' :: ("----BEGI".toList ++ ['N']) := by decide +kernel
    have hkey' : "PRIVATE KEY".toList = 'P' :: ("RIVATE KE".toList ++ ['Y']) := by decide +kernel
    rw [hbegin'] at hbegin ⊢
    rw [hkey'] at hkey ⊢
    exact ⟨infix_manyDigits (by decide) (by decide) hbegin,
      infix_manyDigits (by decide) (by decide) hkey⟩
  · right
    rcases (any_inContext (by decide) manyDigits s manyDigits).mp htoken with hzeros | hs | hzeros
    · rw [manyDigits_toList] at hzeros
      exact absurd hzeros (by decide +kernel)
    · exact hs
    · rw [manyDigits_toList] at hzeros
      exact absurd hzeros (by decide +kernel)

/-- Between so many digits nothing is found but what lasts. -/
theorem lasting_of_manyDigits {s : String}
    (h : (classify (inContext manyDigits s manyDigits)).isSome = true) : Lasting s.toList := by
  rcases classify_isSome.mp h with hsecret | hcard | hssn | hemail
  · exact ⟨.inl (hasSecret_manyDigits hsecret)⟩
  · exact ⟨.inr (.inr (.inr (hasCreditCard_manyDigits hcard)))⟩
  · rcases (any_inContext (by decide) manyDigits s manyDigits).mp hssn with hzeros | hs | hzeros
    · rw [manyDigits_toList] at hzeros
      exact absurd hzeros (by decide)
    · exact ⟨.inr (.inl hs)⟩
    · rw [manyDigits_toList] at hzeros
      exact absurd hzeros (by decide)
  · rcases (any_inContext (by decide) manyDigits s manyDigits).mp hemail with hzeros | hs | hzeros
    · rw [manyDigits_toList] at hzeros
      exact absurd hzeros (by decide)
    · exact ⟨.inr (.inr (.inl hs))⟩
    · rw [manyDigits_toList] at hzeros
      exact absurd hzeros (by decide)

/-- What is found in a text is found wherever the text stands between spaces. -/
def KeepsFinding (s : String) : Prop := (scanPii (.string s)).isSome = true →
  ∀ (a b : String) (v : Value), a ++ " " ++ s ++ " " ++ b ∈ stringLeaves v → (scanPii v).isSome = true

/-- A context cannot hide what is found in a text exactly when it is no card number, or one that
is shut off on both sides. -/
theorem keepsFinding_iff (s : String) :
    KeepsFinding s ↔ ((scanPii (.string s)).isSome = true → Lasting s.toList) := by
  constructor
  · intro hkeeps hfound
    have hdigits := hkeeps hfound manyDigits manyDigits
      (.string (inContext manyDigits s manyDigits)) (List.mem_singleton_self _)
    rw [scanPii_string] at hdigits
    exact lasting_of_manyDigits hdigits
  · intro hlasting hfound a b v hleaf
    exact scanPii_isSome_of_leaf hleaf ((hlasting hfound).classify_inContext a b)

/-- A card number is hidden by digits next to it. -/
theorem not_keepsFinding : ¬∀ s : String, KeepsFinding s := by
  intro h
  have hcard : (classify "4111111111111111").isSome = true := by decide +kernel
  have hfound := h "4111111111111111" (by rw [scanPii_string]; exact hcard) "order 1234" "paid"
    (.string "order 1234 4111111111111111 paid") (by decide +kernel)
  rw [scanPii_string] at hfound
  exact absurd hfound (by decide +kernel)

end Agenomic.Gate
