import Mathlib.Data.List.Induction
import Agenomic.Lib.Sorted

/-!
# Grouping by a key

Values are put one after the other under their keys, in a list that keeps the keys in order.
Under each key stand then the values with that key, in the order in which they came
(**`mem_groups`**), and no key is listed twice (**`groups_sorted`**).
-/

namespace Lib

variable {α κ : Type} [LinearOrder κ]

/-! ## Numbered lists -/

theorem mapIdx_map {α β γ : Type} (g : α → β) (f : Nat → β → γ) (l : List α) :
    (l.map g).mapIdx f = l.mapIdx fun i a => f i (g a) := by
  refine List.ext_getElem? fun i => ?_
  rw [List.getElem?_mapIdx, List.getElem?_mapIdx, List.getElem?_map, Option.map_map]
  rfl

theorem map_mapIdx {α β γ : Type} (g : β → γ) (f : Nat → α → β) (l : List α) :
    (l.mapIdx f).map g = l.mapIdx fun i a => g (f i a) := by
  refine List.ext_getElem? fun i => ?_
  rw [List.getElem?_mapIdx, List.getElem?_map, List.getElem?_mapIdx, Option.map_map]
  rfl

/-! ## Groups -/

/-- Put a value behind those under its key. -/
def pushGroup (k : κ) (a : α) : List (κ × List α) → List (κ × List α)
  | [] => [(k, [a])]
  | (l, group) :: rest =>
      if k < l then (k, [a]) :: (l, group) :: rest
      else if k = l then (l, group ++ [a]) :: rest
      else (l, group) :: pushGroup k a rest

/-- The values by their keys. -/
def groups (key : α → κ) (xs : List α) : List (κ × List α) :=
  xs.foldl (fun gs a => pushGroup (key a) a gs) []

/-- The keys of some groups are in order, each once. -/
def KeysSorted (gs : List (κ × List α)) : Prop := gs.Pairwise fun g h => g.1 < h.1

theorem fst_of_mem_pushGroup {k : κ} {a : α} {gs : List (κ × List α)} {g : κ × List α}
    (h : g ∈ pushGroup k a gs) : g.1 = k ∨ ∃ g' ∈ gs, g'.1 = g.1 := by
  induction gs with
  | nil =>
      rw [List.mem_singleton.mp h]
      exact .inl rfl
  | cons head rest ih =>
      unfold pushGroup at h
      by_cases hlt : k < head.1
      · rw [if_pos hlt] at h
        rcases List.mem_cons.mp h with rfl | h
        · exact .inl rfl
        · exact .inr ⟨g, h, rfl⟩
      · rw [if_neg hlt] at h
        by_cases heq : k = head.1
        · rw [if_pos heq] at h
          rcases List.mem_cons.mp h with rfl | h
          · exact .inl heq.symm
          · exact .inr ⟨g, List.mem_cons_of_mem _ h, rfl⟩
        · rw [if_neg heq] at h
          rcases List.mem_cons.mp h with rfl | h
          · exact .inr ⟨_, List.mem_cons_self, rfl⟩
          · rcases ih h with hk | ⟨g', hg', hfst⟩
            · exact .inl hk
            · exact .inr ⟨g', List.mem_cons_of_mem _ hg', hfst⟩

theorem KeysSorted.pushGroup {gs : List (κ × List α)} (h : KeysSorted gs) (k : κ) (a : α) :
    KeysSorted (pushGroup k a gs) := by
  induction gs with
  | nil => exact List.pairwise_singleton _ _
  | cons head rest ih =>
      obtain ⟨hhead, hrest⟩ := List.pairwise_cons.mp h
      unfold Lib.pushGroup
      by_cases hlt : k < head.1
      · rw [if_pos hlt]
        refine List.pairwise_cons.mpr ⟨fun g hg => ?_, h⟩
        rcases List.mem_cons.mp hg with rfl | hg
        · exact hlt
        · exact hlt.trans (hhead g hg)
      · rw [if_neg hlt]
        by_cases heq : k = head.1
        · rw [if_pos heq]
          exact List.pairwise_cons.mpr ⟨hhead, hrest⟩
        · rw [if_neg heq]
          refine List.pairwise_cons.mpr ⟨fun g hg => ?_, ih hrest⟩
          rcases fst_of_mem_pushGroup hg with hk | ⟨g', hg', hfst⟩
          · rw [hk]
            exact lt_of_le_of_ne (not_lt.mp hlt) (Ne.symm heq)
          · exact hfst ▸ hhead g' hg'

theorem groups_concat (key : α → κ) (xs : List α) (a : α) :
    groups key (xs ++ [a]) = pushGroup (key a) a (groups key xs) := by
  unfold groups
  rw [List.foldl_append]
  rfl

/-- **No key is listed twice.** -/
theorem groups_sorted (key : α → κ) (xs : List α) : KeysSorted (groups key xs) := by
  induction xs using List.reverseRecOn with
  | nil => exact List.Pairwise.nil
  | append_singleton xs a ih =>
      rw [groups_concat]
      exact ih.pushGroup (key a) a

/-- What stands under the keys after a value is put under one. -/
theorem mem_pushGroup {k l : κ} {a : α} {gs : List (κ × List α)} {group : List α}
    (hs : KeysSorted gs) : (l, group) ∈ pushGroup k a gs ↔ (l ≠ k ∧ (l, group) ∈ gs)
      ∨ (l = k ∧ ((∃ before, (k, before) ∈ gs ∧ group = before ++ [a])
        ∨ ((∀ g ∈ gs, g.1 ≠ k) ∧ group = [a]))) := by
  induction gs with
  | nil =>
      unfold pushGroup
      simp
  | cons head rest ih =>
      obtain ⟨hhead, hrest⟩ := List.pairwise_cons.mp hs
      obtain ⟨h, hgroup⟩ := head
      unfold pushGroup
      by_cases hlt : k < h
      · rw [if_pos hlt]
        have hnone : ∀ g ∈ (h, hgroup) :: rest, g.1 ≠ k := by
          intro g hg
          rcases List.mem_cons.mp hg with rfl | hg
          · exact hlt.ne'
          · exact (hlt.trans (hhead g hg)).ne'
        constructor
        · intro hmem
          rcases List.mem_cons.mp hmem with heq | hmem
          · cases heq
            exact .inr ⟨rfl, .inr ⟨hnone, rfl⟩⟩
          · exact .inl ⟨hnone _ hmem, hmem⟩
        · rintro (⟨-, hmem⟩ | ⟨rfl, ⟨before, hbefore, -⟩ | ⟨-, rfl⟩⟩)
          · exact List.mem_cons_of_mem _ hmem
          · exact absurd rfl (hnone _ hbefore)
          · exact List.mem_cons_self
      · rw [if_neg hlt]
        by_cases heq : k = h
        · rw [if_pos heq]
          subst heq
          constructor
          · intro hmem
            rcases List.mem_cons.mp hmem with hfirst | hmem
            · cases hfirst
              exact .inr ⟨rfl, .inl ⟨hgroup, List.mem_cons_self, rfl⟩⟩
            · exact .inl ⟨(hhead _ hmem).ne', List.mem_cons_of_mem _ hmem⟩
          · rintro (⟨hne, hmem⟩ | ⟨rfl, ⟨before, hbefore, rfl⟩ | ⟨hnone, -⟩⟩)
            · rcases List.mem_cons.mp hmem with hfirst | hmem
              · exact absurd (congrArg Prod.fst hfirst) hne
              · exact List.mem_cons_of_mem _ hmem
            · rcases List.mem_cons.mp hbefore with hfirst | hmem
              · cases hfirst
                exact List.mem_cons_self
              · exact absurd rfl (hhead _ hmem).ne
            · exact absurd rfl (hnone _ List.mem_cons_self)
        · rw [if_neg heq, List.mem_cons, ih hrest]
          constructor
          · rintro (hfirst | ⟨hne, hmem⟩ | ⟨rfl, ⟨before, hbefore, rfl⟩ | ⟨hnone, rfl⟩⟩)
            · cases hfirst
              exact .inl ⟨Ne.symm heq, List.mem_cons_self⟩
            · exact .inl ⟨hne, List.mem_cons_of_mem _ hmem⟩
            · exact .inr ⟨rfl, .inl ⟨before, List.mem_cons_of_mem _ hbefore, rfl⟩⟩
            · refine .inr ⟨rfl, .inr ⟨fun g hg => ?_, rfl⟩⟩
              rcases List.mem_cons.mp hg with rfl | hg
              · exact Ne.symm heq
              · exact hnone g hg
          · rintro (⟨hne, hmem⟩ | ⟨rfl, ⟨before, hbefore, rfl⟩ | ⟨hnone, rfl⟩⟩)
            · rcases List.mem_cons.mp hmem with hfirst | hmem
              · exact .inl hfirst
              · exact .inr (.inl ⟨hne, hmem⟩)
            · rcases List.mem_cons.mp hbefore with hfirst | hmem
              · exact absurd (congrArg Prod.fst hfirst) heq
              · exact .inr (.inr ⟨rfl, .inl ⟨before, hmem, rfl⟩⟩)
            · exact .inr (.inr ⟨rfl, .inr ⟨fun g hg => hnone g (List.mem_cons_of_mem _ hg), rfl⟩⟩)

/-- **Under a key stand the values with that key, as they came.** -/
theorem mem_groups {key : α → κ} {xs : List α} {k : κ} {group : List α} :
    (k, group) ∈ groups key xs ↔ group ≠ [] ∧ group = xs.filter (key · = k) := by
  induction xs using List.reverseRecOn generalizing k group with
  | nil =>
      constructor
      · intro h
        cases h
      · rintro ⟨hne, rfl⟩
        exact absurd rfl hne
  | append_singleton xs a ih =>
      have hkeys : (∀ g ∈ groups key xs, g.1 ≠ key a) ↔ xs.filter (key · = key a) = [] := by
        constructor
        · intro hnone
          by_contra hne
          exact hnone _ (ih.mpr ⟨hne, rfl⟩) rfl
        · rintro hnil ⟨l, group'⟩ hg rfl
          obtain ⟨hne, hfilter⟩ := ih.mp hg
          exact hne (hfilter.trans hnil)
      rw [groups_concat, mem_pushGroup (groups_sorted key xs), List.filter_append, hkeys]
      by_cases hk : k = key a
      · subst hk
        have hsingle : [a].filter (fun b => key b = key a) = [a] := by simp
        rw [hsingle]
        constructor
        · rintro (⟨hne, -⟩ | ⟨-, ⟨before, hbefore, rfl⟩ | ⟨hnil, rfl⟩⟩)
          · exact absurd rfl hne
          · rw [(ih.mp hbefore).2]
            exact ⟨by simp, rfl⟩
          · rw [hnil]
            exact ⟨by simp, rfl⟩
        · rintro ⟨-, rfl⟩
          right
          refine ⟨rfl, ?_⟩
          by_cases hnil : xs.filter (fun b => key b = key a) = []
          · exact .inr ⟨hnil, by rw [hnil]; rfl⟩
          · exact .inl ⟨_, ih.mpr ⟨hnil, rfl⟩, rfl⟩
      · have hsingle : [a].filter (fun b => key b = k) = [] := by simp [Ne.symm hk]
        rw [hsingle, List.append_nil]
        constructor
        · rintro (⟨-, hmem⟩ | ⟨heq, -⟩)
          · exact ih.mp hmem
          · exact absurd heq hk
        · intro h
          exact .inl ⟨hk, ih.mpr h⟩

theorem pushGroup_map {β : Type} (g : α → β) (k : κ) (a : α) (gs : List (κ × List α)) :
    pushGroup k (g a) (gs.map fun p => (p.1, p.2.map g))
      = (pushGroup k a gs).map fun p => (p.1, p.2.map g) := by
  induction gs with
  | nil => rfl
  | cons head rest ih =>
      rw [List.map_cons, pushGroup, pushGroup]
      by_cases hlt : k < head.1
      · rw [if_pos hlt, if_pos hlt]
        rfl
      · rw [if_neg hlt, if_neg hlt]
        by_cases heq : k = head.1
        · rw [if_pos heq, if_pos heq, List.map_cons, List.map_append]
          rfl
        · rw [if_neg heq, if_neg heq, ih]
          rfl

/-- Values changed under their keys. -/
theorem groups_map {β : Type} (g : α → β) (key : β → κ) (xs : List α) :
    groups key (xs.map g) = (groups (fun a => key (g a)) xs).map fun p => (p.1, p.2.map g) := by
  induction xs using List.reverseRecOn with
  | nil => rfl
  | append_singleton xs a ih =>
      rw [List.map_append, List.map_singleton, groups_concat, groups_concat, ih, pushGroup_map]

/-! ## What groups depend on -/

theorem eq_of_keysSorted {gs hs : List (κ × List α)} (hgs : KeysSorted gs) (hhs : KeysSorted hs)
    (h : ∀ g, g ∈ gs ↔ g ∈ hs) : gs = hs := by
  have hnodup : ∀ {gs : List (κ × List α)}, KeysSorted gs → gs.Nodup := fun hs =>
    hs.imp fun hlt heq => absurd (congrArg Prod.fst heq) hlt.ne
  refine List.Perm.eq_of_pairwise (fun a b _ _ hab hba => absurd hab hba.asymm) hgs hhs ?_
  exact (List.perm_ext_iff_of_nodup (hnodup hgs) (hnodup hhs)).mpr h

/-- The groups, read off the sorted keys. -/
theorem groups_eq_map (key : α → κ) (xs : List α) :
    groups key xs
      = (sortDedup (· ≤ ·) (xs.map key)).map fun k => (k, xs.filter (key · = k)) := by
  refine eq_of_keysSorted (groups_sorted key xs) ?_ fun g => ?_
  · exact List.pairwise_map.mpr (pairwise_lt_sortDedup _)
  · obtain ⟨k, group⟩ := g
    rw [mem_groups, List.mem_map]
    constructor
    · intro h
      obtain ⟨hne, hgroup⟩ := h
      obtain ⟨a, ha⟩ := List.exists_mem_of_ne_nil group hne
      rw [hgroup, List.mem_filter, decide_eq_true_iff] at ha
      exact ⟨k, mem_sortDedup.mpr (List.mem_map.mpr ⟨a, ha⟩), by rw [hgroup]⟩
    · intro h
      obtain ⟨k', hk', heq⟩ := h
      cases heq
      obtain ⟨a, ha, hkey⟩ := List.mem_map.mp (mem_sortDedup.mp hk')
      refine ⟨List.ne_nil_of_mem (List.mem_filter.mpr ⟨ha, decide_eq_true hkey⟩), rfl⟩

/-- What is made of the groups does not depend on the order of the values, if what is made of
each one does not. -/
theorem map_groups_congr {β : Type} {key : α → κ} {F : κ × List α → β} {xs ys : List α}
    (h : xs.Perm ys)
    (hF : ∀ k, F (k, xs.filter (key · = k)) = F (k, ys.filter (key · = k))) :
    (groups key xs).map F = (groups key ys).map F := by
  have hkeys : sortDedup (· ≤ ·) (xs.map key) = sortDedup (· ≤ ·) (ys.map key) :=
    sortDedup_congr fun k => (h.map key).mem_iff
  rw [groups_eq_map, groups_eq_map, hkeys, List.map_map, List.map_map]
  exact List.map_congr_left fun k _ => hF k

end Lib
