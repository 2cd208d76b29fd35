import Agenomic.Lib.Bytes

/-!
# Directories

A directory maps file names to contents. A listing is the sorted list of the
names that pass a test, so it is determined by which names are there
(**`list_eq`**); every question about how a listing changes when files are
written, removed or renamed is a question about membership.
-/

namespace Lib

/-- The files of a directory, by name. -/
abbrev Directory := Std.ExtTreeMap String Bytes

namespace Directory

/-- The names that pass a test, in order. -/
def list (d : Directory) (p : String → Bool) : List String := d.keys.filter p

/-- Move a file to another name, over whatever stands there. -/
def rename (d : Directory) (src dst : String) : Directory :=
  match d[src]? with
  | none => d
  | some b => (d.erase src).insert dst b

/-- The content of a file, nothing when it is missing. -/
def content (d : Directory) (n : String) : Bytes := d[n]?.getD []

/-- Add bytes at the end of a file, creating it if need be. -/
def appendBytes (d : Directory) (n : String) (bytes : Bytes) : Directory :=
  d.insert n (d.content n ++ bytes)

theorem mem_list {d : Directory} {p : String → Bool} {n : String} :
    n ∈ d.list p ↔ n ∈ d ∧ p n = true := by
  rw [list, List.mem_filter, Std.ExtTreeMap.mem_keys]

theorem list_sorted (d : Directory) (p : String → Bool) : (d.list p).Pairwise (· < ·) := by
  refine List.Pairwise.filter p ?_
  exact (Std.ExtTreeMap.ordered_keys (t := d)).imp fun h => compare_lt_iff_lt.mp h

theorem list_nodup (d : Directory) (p : String → Bool) : (d.list p).Nodup :=
  (d.list_sorted p).imp fun h => ne_of_lt h

/-- **A sorted list of exactly the names that are there is the listing.** -/
theorem list_eq {d : Directory} {p : String → Bool} {ns : List String}
    (hs : ns.Pairwise (· < ·)) (hm : ∀ n, n ∈ ns ↔ n ∈ d ∧ p n = true) : d.list p = ns := by
  refine List.Pairwise.eq_of_mem_iff (d.list_sorted p) hs fun n => ?_
  rw [mem_list, hm]

/-- Two directories with the same names list the same. -/
theorem list_congr {d d' : Directory} {p : String → Bool}
    (h : ∀ n, p n = true → (n ∈ d' ↔ n ∈ d)) : d'.list p = d.list p := by
  refine list_eq (d.list_sorted p) fun n => ?_
  rw [mem_list]
  constructor
  · rintro ⟨hn, hp⟩; exact ⟨(h n hp).mpr hn, hp⟩
  · rintro ⟨hn, hp⟩; exact ⟨(h n hp).mp hn, hp⟩

/-- Dropping names drops them from the listing. -/
theorem list_filter {d d' : Directory} {p q : String → Bool}
    (h : ∀ n, p n = true → (n ∈ d' ↔ n ∈ d ∧ q n = true)) : d'.list p = (d.list p).filter q := by
  refine list_eq ((d.list_sorted p).filter q) fun n => ?_
  rw [List.mem_filter, mem_list]
  constructor
  · rintro ⟨⟨hn, hp⟩, hq⟩; exact ⟨(h n hp).mpr ⟨hn, hq⟩, hp⟩
  · rintro ⟨hn, hp⟩; exact ⟨⟨((h n hp).mp hn).1, hp⟩, ((h n hp).mp hn).2⟩

/-- Writing a name the listing ignores changes nothing in it. -/
theorem list_insert_of_ignored {d : Directory} {p : String → Bool} {n : String} (b : Bytes)
    (hp : p n = false) : Directory.list (d.insert n b) p = d.list p := by
  refine list_congr fun m hm => ?_
  rw [Std.ExtTreeMap.mem_insert]
  constructor
  · rintro (h | h)
    · rw [compare_eq_iff_eq] at h; subst h; rw [hp] at hm; cases hm
    · exact h
  · exact Or.inr

/-- Writing a file that is there changes nothing in the listing. -/
theorem list_insert_of_mem {d : Directory} {p : String → Bool} {n : String} (b : Bytes)
    (hn : n ∈ d) : Directory.list (d.insert n b) p = d.list p := by
  refine list_congr fun m _ => ?_
  rw [Std.ExtTreeMap.mem_insert]
  constructor
  · rintro (h | h)
    · rw [compare_eq_iff_eq] at h; exact h ▸ hn
    · exact h
  · exact Or.inr

/-- A new name joins the listing. -/
theorem list_insert_perm {d : Directory} {p : String → Bool} {n : String} (b : Bytes)
    (hp : p n = true) (hn : n ∉ d) : (Directory.list (d.insert n b) p).Perm (n :: d.list p) := by
  have hnew : n ∉ d.list p := fun h => hn (mem_list.mp h).1
  rw [List.perm_ext_iff_of_nodup (list_nodup _ _) (List.nodup_cons.mpr ⟨hnew, list_nodup _ _⟩)]
  intro m
  rw [List.mem_cons, mem_list, mem_list, Std.ExtTreeMap.mem_insert, compare_eq_iff_eq]
  constructor
  · rintro ⟨rfl | hm, hpm⟩
    · exact Or.inl rfl
    · exact Or.inr ⟨hm, hpm⟩
  · rintro (rfl | ⟨hm, hpm⟩)
    · exact ⟨Or.inl rfl, hp⟩
    · exact ⟨Or.inr hm, hpm⟩

/-- The last listed name is the one no other exceeds. -/
theorem getLast?_list {d : Directory} {p : String → Bool} {n : String} (hn : n ∈ d.list p)
    (hmax : ∀ m ∈ d.list p, m ≤ n) : (d.list p).getLast? = some n := by
  obtain ⟨l, hl⟩ : ∃ l, (d.list p).getLast? = some l := by
    cases h : (d.list p).getLast? with
    | none => rw [List.getLast?_eq_none_iff] at h; rw [h] at hn; cases hn
    | some l => exact ⟨l, rfl⟩
  obtain ⟨init, hinit⟩ := List.getLast?_eq_some_iff.mp hl
  have hsorted := d.list_sorted p
  rw [hinit, List.pairwise_append] at hsorted
  rw [hl]
  rw [hinit, List.mem_append, List.mem_singleton] at hn
  rcases hn with hn | rfl
  · have hlt : n < l := hsorted.2.2 n hn l (List.mem_singleton.mpr rfl)
    have hle : l ≤ n := hmax l (List.mem_of_getLast? hl)
    exact absurd hlt (not_lt.mpr hle)
  · rfl

/-! ## Contents -/

@[simp] theorem getElem?_insert_self (d : Directory) (n : String) (b : Bytes) :
    (d.insert n b)[n]? = some b := by
  simp

theorem getElem?_insert_of_ne {d : Directory} {n m : String} (b : Bytes) (h : n ≠ m) :
    (d.insert n b)[m]? = d[m]? := by
  rw [Std.ExtTreeMap.getElem?_insert, if_neg]
  rw [compare_eq_iff_eq]
  exact h

theorem getElem?_erase_of_ne {d : Directory} {n m : String} (h : n ≠ m) :
    (d.erase n)[m]? = d[m]? := by
  rw [Std.ExtTreeMap.getElem?_erase, if_neg]
  rw [compare_eq_iff_eq]
  exact h

@[simp] theorem getElem?_erase_self (d : Directory) (n : String) : (d.erase n)[n]? = none := by
  simp

theorem mem_iff_getElem? {d : Directory} {n : String} : n ∈ d ↔ ∃ b, d[n]? = some b := by
  rw [← Std.ExtTreeMap.isSome_getElem?_iff_mem, Option.isSome_iff_exists]

theorem content_eq {d : Directory} {n : String} {b : Bytes} (h : d[n]? = some b) :
    d.content n = b := by
  rw [content, h]; rfl

theorem appendBytes_self (d : Directory) (n : String) (b : Bytes) :
    (d.appendBytes n b)[n]? = some (d.content n ++ b) := getElem?_insert_self _ _ _

theorem content_appendBytes (d : Directory) (n : String) (b : Bytes) :
    (d.appendBytes n b).content n = d.content n ++ b := content_eq (appendBytes_self d n b)

theorem appendBytes_of_ne {d : Directory} {n m : String} (b : Bytes) (h : n ≠ m) :
    (d.appendBytes n b)[m]? = d[m]? := getElem?_insert_of_ne _ h

/-- Two additions to a file are one. -/
theorem appendBytes_append (d : Directory) (n : String) (a b : Bytes) :
    (d.appendBytes n a).appendBytes n b = d.appendBytes n (a ++ b) := by
  refine Std.ExtTreeMap.ext_getElem? fun m => ?_
  have hcontent := content_appendBytes d n a
  by_cases hm : n = m
  · subst hm
    rw [appendBytes_self, appendBytes_self, hcontent, List.append_assoc]
  · rw [appendBytes_of_ne _ hm, appendBytes_of_ne _ hm, appendBytes_of_ne _ hm]

/-- A renamed file stands under its new name only. -/
theorem getElem?_rename {d : Directory} {src dst : String} {b : Bytes} (h : d[src]? = some b)
    (m : String) :
    (d.rename src dst)[m]? = if m = dst then some b else if m = src then none else d[m]? := by
  rw [rename, h]
  dsimp only
  by_cases hd : m = dst
  · rw [if_pos hd, hd, getElem?_insert_self]
  · rw [if_neg hd, getElem?_insert_of_ne b (Ne.symm hd)]
    by_cases hs : m = src
    · rw [if_pos hs, hs, getElem?_erase_self]
    · rw [if_neg hs, getElem?_erase_of_ne (Ne.symm hs)]

end Directory

end Lib
