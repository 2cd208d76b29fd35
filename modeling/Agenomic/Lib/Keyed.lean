import Mathlib

/-!
# Maps listed by their keys

The list of a sorted map is settled by what the map holds at each key: over any sorted
list of keys that covers it, it is what is found there (**`toList_eq_filterMap`**). Where
the keys of a list do not repeat, looking one up finds its entry (**`find?_key_iff`**).
-/

namespace Lib

/-- **Looking up a key** in a list whose keys do not repeat. -/
theorem find?_key_iff {α κ : Type} [BEq κ] [LawfulBEq κ] {key : α → κ} {l : List α}
    (hnodup : (l.map key).Nodup) {k : κ} {a : α} :
    l.find? (fun b => key b == k) = some a ↔ a ∈ l ∧ key a = k := by
  constructor
  · intro h
    have hkey := List.find?_some h
    exact ⟨List.mem_of_find?_eq_some h, beq_iff_eq.mp hkey⟩
  · rintro ⟨ha, rfl⟩
    cases hfind : l.find? fun b => key b == key a with
    | none => exact absurd (beq_self_eq_true (key a)) (List.find?_eq_none.mp hfind a ha)
    | some b =>
        have hkey := List.find?_some hfind
        rw [List.inj_on_of_nodup_map hnodup (List.mem_of_find?_eq_some hfind) ha
          (beq_iff_eq.mp hkey)]

variable {κ β : Type} {cmp : κ → κ → Ordering} [Std.TransCmp cmp] [Std.LawfulEqCmp cmp]

/-- **A sorted map, listed along a sorted list of keys that covers it.** -/
theorem toList_eq_filterMap (t : Std.ExtTreeMap κ β cmp) {ks : List κ}
    (hs : ks.Pairwise fun a b => cmp a b = .lt) (hcover : ∀ k ∈ t, k ∈ ks) :
    t.toList = ks.filterMap fun k => t[k]?.map (k, ·) := by
  have hirrefl : Std.Irrefl fun a b : κ × β => cmp a.1 b.1 = .lt := by
    refine ⟨fun a h => ?_⟩
    have hself : cmp a.1 a.1 = .eq := Std.ReflCmp.compare_self
    rw [hself] at h
    cases h
  have htrans : IsTrans (κ × β) fun a b => cmp a.1 b.1 = .lt :=
    ⟨fun _ _ _ h h' => Std.TransCmp.lt_trans h h'⟩
  have hanti : Std.Antisymm fun a b : κ × β => cmp a.1 b.1 = .lt := by
    refine ⟨fun a b h h' => ?_⟩
    exact absurd (htrans.trans a b a h h') (hirrefl.irrefl a)
  refine List.Pairwise.eq_of_mem_iff (r := fun a b : κ × β => cmp a.1 b.1 = .lt)
    Std.ExtTreeMap.ordered_keys_toList ?_ fun p => ?_
  · rw [List.pairwise_filterMap]
    refine hs.imp fun {a b} hab p hp q hq => ?_
    obtain ⟨v, -, rfl⟩ := Option.map_eq_some_iff.mp hp
    obtain ⟨w, -, rfl⟩ := Option.map_eq_some_iff.mp hq
    exact hab
  · obtain ⟨k, v⟩ := p
    rw [Std.ExtTreeMap.mem_toList_iff_getElem?_eq_some, List.mem_filterMap]
    constructor
    · intro h
      have hmem : k ∈ t := by
        rw [Std.ExtTreeMap.mem_iff_isSome_getElem?, h]
        rfl
      exact ⟨k, hcover k hmem, by rw [h]; rfl⟩
    · rintro ⟨k', -, h⟩
      obtain ⟨v', hv, heq⟩ := Option.map_eq_some_iff.mp h
      cases heq
      exact hv

omit [Std.LawfulEqCmp cmp] in
/-- Inserting the entries of a list one by one. -/
theorem foldl_insert_eq_insertMany (l : List (κ × β)) (t : Std.ExtTreeMap κ β cmp) :
    l.foldl (fun t p => t.insert p.1 p.2) t = t.insertMany l := by
  induction l generalizing t with
  | nil => rfl
  | cons p rest ih => rw [List.foldl_cons, ih, Std.ExtTreeMap.insertMany_cons]

/-- What is at a key that is not inserted. -/
theorem getElem?_foldl_insert {l : List (κ × β)} {k : κ} (h : ∀ p ∈ l, p.1 ≠ k)
    (t : Std.ExtTreeMap κ β cmp) : (l.foldl (fun t p => t.insert p.1 p.2) t)[k]? = t[k]? := by
  induction l generalizing t with
  | nil => rfl
  | cons p rest ih =>
      have hne : ¬ cmp p.1 k = .eq := fun heq =>
        h p List.mem_cons_self (Std.LawfulEqCmp.eq_of_compare heq)
      rw [List.foldl_cons, ih (fun p hp => h p (List.mem_cons_of_mem _ hp)),
        Std.ExtTreeMap.getElem?_insert, if_neg hne]

/-- **The entries of a sorted map, inserted one by one**, make up the map. -/
theorem foldl_insert_toList (t : Std.ExtTreeMap κ β cmp) :
    t.toList.foldl (fun t p => t.insert p.1 p.2) ∅ = t := by
  refine Std.ExtTreeMap.ext_getElem? fun k => ?_
  cases hk : t[k]? with
  | some v =>
      rw [foldl_insert_eq_insertMany, ← Std.ExtTreeMap.ofList_eq_insertMany_empty]
      exact Std.ExtTreeMap.getElem?_ofList_of_mem Std.ReflCmp.compare_self
        Std.ExtTreeMap.distinct_keys_toList
        (Std.ExtTreeMap.mem_toList_iff_getElem?_eq_some.mpr hk)
  | none =>
      rw [getElem?_foldl_insert]
      · exact Std.ExtTreeMap.getElem?_empty
      · intro p hp heq
        obtain ⟨k', v⟩ := p
        rw [Std.ExtTreeMap.mem_toList_iff_getElem?_eq_some] at hp
        rw [heq.symm, hp] at hk
        cases hk

end Lib
