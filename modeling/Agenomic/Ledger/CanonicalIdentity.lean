import Agenomic.Ledger.Canonical

/-!
# Canonical text as the identity of a value

Two JSON values are the same when they differ at most in the order in which their
objects hold their members: an object is a finite map from its names (`Same`,
`same_obj_iff`). Sorting the fields of every object by the UTF-16 units of their
names picks one value out of every class of these (`sortKeys_eq_iff`), because the
units tell names apart (`encodeUtf16_injective`).

**`canonicalJson_faithful`**: the canonical texts of two values are equal exactly
when the values are the same, and reading a canonical text gives back the value.
-/

namespace Agenomic.Ledger

open Lib

/-! ## Values as a program holds them -/

mutual

/-- No object holds a name twice. -/
def Distinct : Json → Prop
  | .arr items => DistinctItems items
  | .obj fields => (Json.keys fields).Nodup ∧ DistinctFields fields
  | _ => True

def DistinctItems : List Json → Prop
  | [] => True
  | x :: xs => Distinct x ∧ DistinctItems xs

def DistinctFields : List (String × Json) → Prop
  | [] => True
  | (_, v) :: fs => Distinct v ∧ DistinctFields fs

end

/-- A value in memory, whose objects are maps. -/
abbrev JsonValue := { v : Json // Distinct v }

mutual

/-- Equal as values: arrays item by item, objects as maps from their names. -/
def Same : Json → Json → Prop
  | .arr xs, w => ∃ ys, w = .arr ys ∧ SameItems xs ys
  | .obj fs, w => ∃ gs, w = .obj gs ∧ SameFields fs gs ∧ ∀ k ∈ Json.keys gs, k ∈ Json.keys fs
  | .null, w => w = .null
  | .bool b, w => w = .bool b
  | .num n, w => w = .num n
  | .str s, w => w = .str s

def SameItems : List Json → List Json → Prop
  | [], [] => True
  | x :: xs, y :: ys => Same x y ∧ SameItems xs ys
  | _, _ => False

/-- Every field has its like under the same name. -/
def SameFields : List (String × Json) → List (String × Json) → Prop
  | [], _ => True
  | (k, v) :: fs, gs => (∃ w, Json.lookup k gs = some w ∧ Same v w) ∧ SameFields fs gs

end

/-! ## Names and their units -/

/-- The units of a character. -/
def utf16Units (c : Char) : List Nat :=
  if c.toNat < 65536 then [c.toNat]
  else [55296 + (c.toNat - 65536) / 1024, 56320 + (c.toNat - 65536) % 1024]

/-- A character is no surrogate. -/
theorem toNat_not_surrogate (c : Char) : c.toNat < 55296 ∨ (57343 < c.toNat ∧ c.toNat < 1114112) :=
  c.valid

theorem utf16Units_append_injective {c d : Char} {us vs : List Nat}
    (h : utf16Units c ++ us = utf16Units d ++ vs) : c = d ∧ us = vs := by
  have hc := toNat_not_surrogate c
  have hd := toNat_not_surrogate d
  unfold utf16Units at h
  by_cases hcb : c.toNat < 65536
  · by_cases hdb : d.toNat < 65536
    · rw [if_pos hcb, if_pos hdb] at h
      obtain ⟨hhead, htail⟩ := List.cons.inj h
      exact ⟨Char.toNat_inj.mp hhead, htail⟩
    · -- a leading surrogate is no character
      rw [if_pos hcb, if_neg hdb] at h
      have hhead := (List.cons.inj h).1
      omega
  · by_cases hdb : d.toNat < 65536
    · rw [if_neg hcb, if_pos hdb] at h
      have hhead := (List.cons.inj h).1
      omega
    · rw [if_neg hcb, if_neg hdb] at h
      obtain ⟨hhigh, hrest⟩ := List.cons.inj h
      obtain ⟨hlow, htail⟩ := List.cons.inj hrest
      refine ⟨Char.toNat_inj.mp ?_, htail⟩
      omega

theorem flatMap_utf16Units_injective : ∀ {cs ds : List Char},
    cs.flatMap utf16Units = ds.flatMap utf16Units → cs = ds
  | [], [], _ => rfl
  | [], d :: ds, h => by
      rw [List.flatMap_nil, List.flatMap_cons] at h
      unfold utf16Units at h
      split at h
      all_goals cases h
  | c :: cs, [], h => by
      rw [List.flatMap_nil, List.flatMap_cons] at h
      unfold utf16Units at h
      split at h
      all_goals cases h
  | c :: cs, d :: ds, h => by
      rw [List.flatMap_cons, List.flatMap_cons] at h
      obtain ⟨rfl, htail⟩ := utf16Units_append_injective h
      rw [flatMap_utf16Units_injective htail]

theorem encodeUtf16_injective {s t : String} (h : encodeUtf16 s = encodeUtf16 t) : s = t :=
  String.toList_inj.mp (flatMap_utf16Units_injective h)

theorem utf16Le_trans (a b d : String) (hab : utf16Le a b = true) (hbd : utf16Le b d = true) :
    utf16Le a d = true := by
  unfold utf16Le at hab hbd ⊢
  rw [decide_eq_true_eq] at hab hbd ⊢
  exact le_trans hab hbd

theorem utf16Le_total (a b : String) : (utf16Le a b || utf16Le b a) = true := by
  unfold utf16Le
  rw [Bool.or_eq_true, decide_eq_true_eq, decide_eq_true_eq]
  exact le_total _ _

theorem utf16Le_antisymm {a b : String} (hab : utf16Le a b = true) (hba : utf16Le b a = true) :
    a = b := by
  unfold utf16Le at hab hba
  rw [decide_eq_true_eq] at hab hba
  exact encodeUtf16_injective (le_antisymm hab hba)

/-! ## Sorted fields -/

theorem pairwise_mergeSort_names {α : Type} (ps : List (String × α)) :
    (ps.mergeSort fun a b => utf16Le a.1 b.1).Pairwise fun a b => utf16Le a.1 b.1 = true :=
  @List.pairwise_mergeSort (String × α) (fun a b => utf16Le a.1 b.1)
    (fun a b d => utf16Le_trans a.1 b.1 d.1) (fun a b => utf16Le_total a.1 b.1) ps

/-- The fields of an object in the order of their names. -/
def sortFields (fs : List (String × Json)) : List (String × Json) :=
  fs.mergeSort fun a b => utf16Le a.1 b.1

theorem sortFields_perm (fs : List (String × Json)) : (sortFields fs).Perm fs :=
  List.mergeSort_perm _ _

theorem sortFields_pairwise (fs : List (String × Json)) :
    (sortFields fs).Pairwise fun a b => utf16Le a.1 b.1 = true :=
  pairwise_mergeSort_names fs

/-- Pieces under different names are sorted in one way only. -/
theorem eq_of_perm_sorted {α : Type} {ps qs : List (String × α)} (hps : (ps.map Prod.fst).Nodup)
    (hperm : ps.Perm qs) (hp : ps.Pairwise fun a b => utf16Le a.1 b.1 = true)
    (hq : qs.Pairwise fun a b => utf16Le a.1 b.1 = true) : ps = qs := by
  refine List.Perm.eq_of_pairwise (fun a b ha hb hab hba => ?_) hp hq hperm
  exact List.inj_on_of_nodup_map hps ha (hperm.mem_iff.mpr hb) (utf16Le_antisymm hab hba)

theorem sortFields_eq_iff {fs gs : List (String × Json)} (hfs : (Json.keys fs).Nodup) :
    sortFields fs = sortFields gs ↔ fs.Perm gs := by
  constructor
  · intro h
    have hleft := (sortFields_perm fs).symm
    rw [h] at hleft
    exact hleft.trans (sortFields_perm gs)
  · intro h
    exact eq_of_perm_sorted (((sortFields_perm fs).map Prod.fst).nodup_iff.mpr hfs)
      ((sortFields_perm fs).trans (h.trans (sortFields_perm gs).symm)) (sortFields_pairwise fs)
      (sortFields_pairwise gs)

theorem keys_sortKeysFields (fs : List (String × Json)) :
    Json.keys (sortKeysFields fs) = Json.keys fs := by
  induction fs with
  | nil => rfl
  | cons f fs ih => exact congrArg (f.1 :: ·) ih

theorem lookup_sortKeysFields (k : String) (fs : List (String × Json)) :
    Json.lookup k (sortKeysFields fs) = (Json.lookup k fs).map sortKeys := by
  induction fs with
  | nil => rfl
  | cons f fs ih =>
      obtain ⟨k', v⟩ := f
      rw [sortKeysFields, Json.lookup_cons, Json.lookup_cons, ih]
      by_cases hk : k' = k
      · rw [if_pos hk, if_pos hk]
        rfl
      · rw [if_neg hk, if_neg hk]

theorem lookup_eq_none_iff {k : String} {fs : List (String × Json)} :
    Json.lookup k fs = none ↔ k ∉ Json.keys fs := by
  induction fs with
  | nil => exact ⟨fun _ => List.not_mem_nil, fun _ => rfl⟩
  | cons f fs ih =>
      obtain ⟨k', v⟩ := f
      rw [Json.lookup_cons, Json.keys_cons, List.mem_cons, not_or]
      by_cases hk : k' = k
      · rw [if_pos hk]
        exact ⟨(nomatch ·), fun h => absurd hk.symm h.1⟩
      · rw [if_neg hk, ih]
        exact ⟨fun h => ⟨fun heq => hk heq.symm, h⟩, fun h => h.2⟩

/-- Fields under different names are a permutation of others when all names are looked up alike. -/
theorem perm_iff_lookup {fs gs : List (String × Json)} (hfs : (Json.keys fs).Nodup)
    (hgs : (Json.keys gs).Nodup) : fs.Perm gs ↔ ∀ k, Json.lookup k fs = Json.lookup k gs := by
  have hnodup : ∀ {hs : List (String × Json)}, (Json.keys hs).Nodup → hs.Nodup :=
    fun h => List.Nodup.of_map _ h
  constructor
  · intro h k
    exact Json.lookup_perm h hfs k
  · intro h
    refine (List.perm_ext_iff_of_nodup (hnodup hfs) (hnodup hgs)).mpr fun f => ?_
    rw [← Json.lookup_eq_some_iff (k := f.1) (v := f.2) hfs, h f.1, Json.lookup_eq_some_iff hgs]

/-! ## Sorting picks one value out of those that are the same -/

theorem distinct_of_mem {f : String × Json} : ∀ {fs : List (String × Json)}, DistinctFields fs →
    f ∈ fs → Distinct f.2
  | [], _, h => absurd h List.not_mem_nil
  | (_, _) :: _, hfs, h => by
      rcases List.mem_cons.mp h with rfl | hmem
      · exact hfs.1
      · exact distinct_of_mem hfs.2 hmem

theorem distinct_of_lookup {k : String} {v : Json} {fs : List (String × Json)}
    (hfs : Distinct (.obj fs)) (hv : Json.lookup k fs = some v) : Distinct v :=
  distinct_of_mem hfs.2 ((Json.lookup_eq_some_iff hfs.1).mp hv)

/-- Objects sort to the same object exactly when their names are looked up alike, up to sorting. -/
theorem sortKeys_obj_eq_iff {fs gs : List (String × Json)} (hfs : (Json.keys fs).Nodup)
    (hgs : (Json.keys gs).Nodup) : sortKeys (.obj fs) = sortKeys (.obj gs)
      ↔ ∀ k, (Json.lookup k fs).map sortKeys = (Json.lookup k gs).map sortKeys := by
  have hfs' : (Json.keys (sortKeysFields fs)).Nodup := by
    rw [keys_sortKeysFields]
    exact hfs
  have hgs' : (Json.keys (sortKeysFields gs)).Nodup := by
    rw [keys_sortKeysFields]
    exact hgs
  have hobj : sortKeys (.obj fs) = sortKeys (.obj gs)
      ↔ sortFields (sortKeysFields fs) = sortFields (sortKeysFields gs) := by
    rw [sortKeys, sortKeys, Json.obj.injEq]
    rfl
  rw [hobj, sortFields_eq_iff hfs', perm_iff_lookup hfs' hgs']
  simp only [lookup_sortKeysFields]

mutual

theorem sortKeys_eq_iff : ∀ v w : Json, Distinct v → Distinct w →
    (sortKeys v = sortKeys w ↔ Same v w)
  | .null, w, _, _ => by cases w <;> simp [sortKeys, Same]
  | .bool _, w, _, _ => by cases w <;> simp [sortKeys, Same, eq_comm]
  | .num _, w, _, _ => by cases w <;> simp [sortKeys, Same, eq_comm]
  | .str _, w, _, _ => by cases w <;> simp [sortKeys, Same, eq_comm]
  | .arr xs, w, hv, hw => by
      cases w with
      | arr ys =>
          rw [sortKeys, sortKeys, Json.arr.injEq, sortKeysItems_eq_iff xs ys hv hw]
          constructor
          · intro h
            exact ⟨ys, rfl, h⟩
          · intro ⟨_, heq, h⟩
            cases heq
            exact h
      | _ => simp [sortKeys, Same]
  | .obj fs, w, hv, hw => by
      cases w with
      | obj gs =>
          have hfields := sameFields_iff fs gs hv.2 hw
          rw [sortKeys_obj_eq_iff hv.1 hw.1]
          constructor
          · intro h
            refine ⟨gs, rfl, hfields.mpr fun f hf => ?_, fun k hk => ?_⟩
            · rw [← h f.1, (Json.lookup_eq_some_iff hv.1).mpr hf]
              rfl
            · by_contra hnot
              have hk' := h k
              rw [lookup_eq_none_iff.mpr hnot, Option.map_none, eq_comm, Option.map_eq_none_iff,
                lookup_eq_none_iff] at hk'
              exact hk' hk
          · intro ⟨_, heq, hsame, hkeys⟩ k
            cases heq
            cases hk : Json.lookup k fs with
            | some v => exact (hfields.mp hsame (k, v) ((Json.lookup_eq_some_iff hv.1).mp hk)).symm
            | none =>
                have hnone : Json.lookup k gs = none :=
                  lookup_eq_none_iff.mpr fun hmem => lookup_eq_none_iff.mp hk (hkeys k hmem)
                rw [hnone]
      | _ => simp [sortKeys, Same]

theorem sortKeysItems_eq_iff : ∀ xs ys : List Json, DistinctItems xs → DistinctItems ys →
    (sortKeysItems xs = sortKeysItems ys ↔ SameItems xs ys)
  | [], [], _, _ => by simp [sortKeysItems, SameItems]
  | [], _ :: _, _, _ => by simp [sortKeysItems, SameItems]
  | _ :: _, [], _, _ => by simp [sortKeysItems, SameItems]
  | x :: xs, y :: ys, hx, hy => by
      rw [sortKeysItems, sortKeysItems, List.cons.injEq, SameItems, sortKeys_eq_iff x y hx.1 hy.1,
        sortKeysItems_eq_iff xs ys hx.2 hy.2]

/-- Every field has its like exactly when it is looked up, up to sorting. -/
theorem sameFields_iff : ∀ fs gs : List (String × Json), DistinctFields fs → Distinct (.obj gs) →
    (SameFields fs gs ↔ ∀ f ∈ fs, (Json.lookup f.1 gs).map sortKeys = some (sortKeys f.2))
  | [], gs, _, _ => by simp [SameFields]
  | (k, v) :: fs, gs, hfs, hgs => by
      rw [SameFields, sameFields_iff fs gs hfs.2 hgs, List.forall_mem_cons]
      refine and_congr_left fun _ => ?_
      cases hk : Json.lookup k gs with
      | none => simp
      | some w =>
          have hw := sortKeys_eq_iff v w hfs.1 (distinct_of_lookup hgs hk)
          rw [Option.map_some, Option.some.injEq, eq_comm, hw]
          simp

end

/-! ## What is read back -/

mutual

theorem sortKeys_sortKeys : ∀ v : Json, sortKeys (sortKeys v) = sortKeys v
  | .null => rfl
  | .bool _ => rfl
  | .num _ => rfl
  | .str _ => rfl
  | .arr xs => by rw [sortKeys, sortKeys, sortKeysItems_sortKeysItems xs]
  | .obj fs => by
      have hfixed : ∀ f ∈ sortFields (sortKeysFields fs), sortKeys f.2 = f.2 := fun f hf =>
        sortKeys_of_mem fs f ((sortFields_perm _).mem_iff.mp hf)
      have hobj : sortKeys (.obj fs) = .obj (sortFields (sortKeysFields fs)) := rfl
      rw [hobj, sortKeys, sortKeysFields_eq_self hfixed]
      exact congrArg Json.obj (List.mergeSort_of_pairwise (sortFields_pairwise _))

theorem sortKeysItems_sortKeysItems : ∀ xs : List Json,
    sortKeysItems (sortKeysItems xs) = sortKeysItems xs
  | [] => rfl
  | x :: xs => by
      rw [sortKeysItems, sortKeysItems, sortKeys_sortKeys x, sortKeysItems_sortKeysItems xs]

theorem sortKeys_of_mem : ∀ (fs : List (String × Json)), ∀ f ∈ sortKeysFields fs,
    sortKeys f.2 = f.2
  | [], _, h => absurd h List.not_mem_nil
  | (k, v) :: fs, f, h => by
      rcases List.mem_cons.mp h with rfl | hmem
      · exact sortKeys_sortKeys v
      · exact sortKeys_of_mem fs f hmem

end

mutual

theorem distinct_sortKeys : ∀ v : Json, Distinct v → Distinct (sortKeys v)
  | .null, _ => trivial
  | .bool _, _ => trivial
  | .num _, _ => trivial
  | .str _, _ => trivial
  | .arr xs, h => distinctItems_sortKeysItems xs h
  | .obj fs, h => by
      have hperm := sortFields_perm (sortKeysFields fs)
      have hobj : sortKeys (.obj fs) = .obj (sortFields (sortKeysFields fs)) := rfl
      rw [hobj, Distinct]
      refine ⟨(hperm.map Prod.fst).nodup_iff.mpr ?_, ?_⟩
      · have hkeys : (sortKeysFields fs).map Prod.fst = Json.keys fs := keys_sortKeysFields fs
        rw [hkeys]
        exact h.1
      · exact distinctFields_of_forall fun f hf =>
          distinctFields_sortKeysFields fs h.2 f (hperm.mem_iff.mp hf)

theorem distinctItems_sortKeysItems : ∀ xs : List Json, DistinctItems xs →
    DistinctItems (sortKeysItems xs)
  | [], _ => trivial
  | x :: xs, h => ⟨distinct_sortKeys x h.1, distinctItems_sortKeysItems xs h.2⟩

theorem distinctFields_sortKeysFields : ∀ fs : List (String × Json), DistinctFields fs →
    ∀ f ∈ sortKeysFields fs, Distinct f.2
  | [], _, _, h => absurd h List.not_mem_nil
  | (k, v) :: fs, hfs, f, h => by
      rcases List.mem_cons.mp h with rfl | hmem
      · exact distinct_sortKeys v hfs.1
      · exact distinctFields_sortKeysFields fs hfs.2 f hmem

theorem distinctFields_of_forall : ∀ {fs : List (String × Json)}, (∀ f ∈ fs, Distinct f.2) →
    DistinctFields fs
  | [], _ => trivial
  | (_, _) :: _, h => ⟨h _ List.mem_cons_self,
      distinctFields_of_forall fun f hf => h f (List.mem_cons_of_mem _ hf)⟩

end

/-- **Canonical text is a faithful identity**: it tells values apart that are not the same, and
only those, and it reads back as the value it was written for. -/
theorem canonicalJson_faithful (a b : JsonValue) :
    (canonicalJson a.1 = canonicalJson b.1 ↔ Same a.1 b.1)
      ∧ ∃ v : JsonValue, Json.parse (canonicalJson a.1) = some v.1 ∧ Same v.1 a.1 := by
  constructor
  · rw [← sortKeys_eq_iff a.1 b.1 a.2 b.2]
    constructor
    · exact sortKeys_eq_of_canonicalJson_eq
    · intro h
      rw [canonicalJson_eq, canonicalJson_eq, h]
  · refine ⟨⟨sortKeys a.1, distinct_sortKeys a.1 a.2⟩, ?_, ?_⟩
    · rw [canonicalJson_eq, Json.parse_write]
    · exact (sortKeys_eq_iff _ _ (distinct_sortKeys a.1 a.2) a.2).mp (sortKeys_sortKeys a.1)

end Agenomic.Ledger
