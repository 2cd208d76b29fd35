import Agenomic.Prompt.Canonical

/-!
# Values of the JSON subset

`Ajs` says that a value at a depth is in the subset, without the path that errors name.
The canonical text of such a value holds no NUL.
-/

namespace Agenomic.Prompt

open Lib Value

def nul : Char := Char.ofNat 0

mutual

/-- A value of the subset, at a depth. -/
def Ajs (depth : Nat) : Value → Prop
  | .null => True
  | .bool _ => True
  | .number n => ∃ i, ajsInteger n = .ok i
  | .string s => nul ∉ s.toList
  | .array items => depth < maxJsonDepth ∧ AjsItems (depth + 1) items
  | .object members => depth < maxJsonDepth ∧ AjsMembers (depth + 1) members

def AjsItems (depth : Nat) : List Value → Prop
  | [] => True
  | x :: xs => Ajs depth x ∧ AjsItems depth xs

def AjsMembers (depth : Nat) : Members → Prop
  | [] => True
  | (k, v) :: fs => (nul ∉ k.toList ∧ Ajs depth v) ∧ AjsMembers depth fs

end

theorem ajsItems_iff {depth : Nat} {items : List Value} :
    AjsItems depth items ↔ ∀ v ∈ items, Ajs depth v := by
  induction items with
  | nil => exact ⟨fun _ _ hv => absurd hv List.not_mem_nil, fun _ => trivial⟩
  | cons x xs ih =>
      unfold AjsItems
      rw [ih, List.forall_mem_cons]

theorem ajsMembers_iff {depth : Nat} {members : Members} :
    AjsMembers depth members ↔ ∀ m ∈ members, nul ∉ m.1.toList ∧ Ajs depth m.2 := by
  induction members with
  | nil => exact ⟨fun _ _ hm => absurd hm List.not_mem_nil, fun _ => trivial⟩
  | cons m ms ih =>
      unfold AjsMembers
      rw [ih, List.forall_mem_cons]

theorem firstError_eq_ok {checks : List (Except AjsError Unit)} :
    firstError checks = .ok () ↔ ∀ c ∈ checks, c = .ok () := by
  induction checks with
  | nil => exact ⟨fun _ _ hc => absurd hc List.not_mem_nil, fun _ => rfl⟩
  | cons c rest ih =>
      rw [List.forall_mem_cons]
      cases c with
      | ok u =>
          unfold firstError
          rw [ih]
          exact ⟨fun h => ⟨rfl, h⟩, fun h => h.2⟩
      | error e =>
          unfold firstError
          exact ⟨fun h => absurd h (by simp), fun h => absurd h.1 (by simp)⟩

theorem checkAjsString_eq_ok {s path : String} :
    checkAjsString s path = .ok () ↔ nul ∉ s.toList := by
  unfold checkAjsString nul
  by_cases h : Char.ofNat 0 ∈ s.toList
  · rw [if_pos h]
    exact ⟨fun heq => absurd heq (by simp), fun hnot => absurd h hnot⟩
  · rw [if_neg h]
    exact ⟨fun _ => h, fun _ => rfl⟩

theorem sortByName_perm {α : Type} (pieces : List (String × α)) :
    (sortByName pieces).Perm pieces := List.perm_insertionSort _ pieces

theorem mem_sortByName {α : Type} {pieces : List (String × α)} {piece : String × α} :
    piece ∈ sortByName pieces ↔ piece ∈ pieces := (sortByName_perm pieces).mem_iff

mutual

theorem checkAjs_eq_ok (path : String) (depth : Nat) :
    ∀ v : Value, checkAjs path depth v = .ok () ↔ Ajs depth v
  | .null => by simp [checkAjs, Ajs]
  | .bool _ => by simp [checkAjs, Ajs]
  | .number n => by
      unfold checkAjs Ajs
      cases h : ajsInteger n with
      | ok i => simp
      | error reason => simp
  | .string s => by
      unfold checkAjs Ajs
      exact checkAjsString_eq_ok
  | .array items => by
      unfold checkAjs Ajs
      by_cases hdepth : maxJsonDepth < depth + 1
      · rw [if_pos hdepth]
        exact ⟨fun heq => absurd heq (by simp), fun h => absurd h.1 (by omega)⟩
      · rw [if_neg hdepth, firstError_eq_ok, checkAjsItems_eq_ok path (depth + 1) 0 items]
        exact ⟨fun h => ⟨by omega, h⟩, fun h => h.2⟩
  | .object members => by
      unfold checkAjs Ajs
      by_cases hdepth : maxJsonDepth < depth + 1
      · rw [if_pos hdepth]
        exact ⟨fun heq => absurd heq (by simp), fun h => absurd h.1 (by omega)⟩
      · rw [if_neg hdepth, firstError_eq_ok, ← checkAjsMembers_eq_ok path (depth + 1) members]
        constructor
        · intro h
          refine ⟨by omega, fun m hm => h _ (List.mem_map.mpr ⟨m, mem_sortByName.mpr hm, rfl⟩)⟩
        · intro ⟨_, h⟩ c hc
          obtain ⟨m, hm, rfl⟩ := List.mem_map.mp hc
          exact h m (mem_sortByName.mp hm)

theorem checkAjsItems_eq_ok (path : String) (depth index : Nat) :
    ∀ items : List Value,
      (∀ c ∈ checkAjsItems path depth index items, c = .ok ()) ↔ AjsItems depth items
  | [] => by simp [checkAjsItems, AjsItems]
  | x :: xs => by
      unfold checkAjsItems AjsItems
      rw [List.forall_mem_cons, checkAjs_eq_ok _ depth x, checkAjsItems_eq_ok path depth _ xs]

theorem checkAjsMembers_eq_ok (path : String) (depth : Nat) :
    ∀ members : Members,
      (∀ m ∈ checkAjsMembers path depth members, m.2 = .ok ()) ↔ AjsMembers depth members
  | [] => by simp [checkAjsMembers, AjsMembers]
  | (k, v) :: fs => by
      unfold checkAjsMembers AjsMembers
      rw [List.forall_mem_cons, checkAjsMembers_eq_ok path depth fs, bind_eq_ok,
        ← checkAjs_eq_ok (pointer path k) depth v]
      refine and_congr_left fun _ => ⟨?_, ?_⟩
      · intro ⟨_, hkey, hvalue⟩
        exact ⟨checkAjsString_eq_ok.mp hkey, hvalue⟩
      · intro ⟨hkey, hvalue⟩
        exact ⟨(), checkAjsString_eq_ok.mpr hkey, hvalue⟩

end

theorem ensureAjs_eq_ok {v : Value} : ensureAjs v = .ok () ↔ Ajs 0 v := checkAjs_eq_ok "" 0 v

theorem promptDigest_eq_ok {p : Primitives} {v : Value} :
    (∃ digest, promptDigest p v = .ok digest) ↔ Ajs 0 v := by
  unfold promptDigest
  rw [← ensureAjs_eq_ok]
  constructor
  · intro ⟨digest, h⟩
    obtain ⟨_, hajs, -⟩ := bind_eq_ok.mp h
    exact hajs
  · intro h
    exact ⟨_, bind_eq_ok.mpr ⟨(), h, rfl⟩⟩

mutual

/-- A value of the subset is in it at a smaller depth too. -/
theorem Ajs.mono {depth depth' : Nat} (hd : depth' ≤ depth) : ∀ {v : Value}, Ajs depth v →
    Ajs depth' v
  | .null, _ => trivial
  | .bool _, _ => trivial
  | .number _, h => h
  | .string _, h => h
  | .array _, h => ⟨by have := h.1; omega, AjsItems.mono (by omega) h.2⟩
  | .object _, h => ⟨by have := h.1; omega, AjsMembers.mono (by omega) h.2⟩

theorem AjsItems.mono {depth depth' : Nat} (hd : depth' ≤ depth) : ∀ {items : List Value},
    AjsItems depth items → AjsItems depth' items
  | [], _ => trivial
  | _ :: _, h => ⟨Ajs.mono hd h.1, AjsItems.mono hd h.2⟩

theorem AjsMembers.mono {depth depth' : Nat} (hd : depth' ≤ depth) : ∀ {members : Members},
    AjsMembers depth members → AjsMembers depth' members
  | [], _ => trivial
  | (_, _) :: _, h => ⟨⟨h.1.1, Ajs.mono hd h.1.2⟩, AjsMembers.mono hd h.2⟩

end

/-! ## The canonical text -/

theorem mem_joinComma {x : Char} {pieces : List (List Char)} (h : x ∈ Ledger.joinComma pieces) :
    x = ',' ∨ ∃ piece ∈ pieces, x ∈ piece := by
  cases pieces with
  | nil => exact absurd h List.not_mem_nil
  | cons first rest =>
      unfold Ledger.joinComma at h
      rcases List.mem_append.mp h with h | h
      · exact .inr ⟨first, List.mem_cons_self, h⟩
      · obtain ⟨piece, hpiece, h⟩ := List.mem_flatMap.mp h
        rcases List.mem_cons.mp h with rfl | h
        · exact .inl rfl
        · exact .inr ⟨piece, List.mem_cons_of_mem _ hpiece, h⟩

/-- A number of the subset is printed as an integer. -/
theorem canonicalNumber_of_ajs {n : Number} {i : Int} (h : ajsInteger n = .ok i) :
    canonicalNumber n = Json.writeNumber i := by
  cases n with
  | int m =>
      unfold ajsInteger at h
      dsimp only at h
      by_cases hm : |m| ≤ maxSafeInteger
      · rw [if_pos hm] at h
        cases h
        rfl
      · rw [if_neg hm] at h
        cases h
  | float value text =>
      unfold ajsInteger at h
      dsimp only at h
      by_cases hden : value.den = 1
      · rw [if_pos hden] at h
        by_cases hnum : |value.num| ≤ maxSafeInteger
        · rw [if_pos hnum] at h
          cases h
          have hvalue : (value.num : ℚ) = value := Rat.coe_int_num_of_den_eq_one hden
          have hsmall : |value| < 9007199254740992 := by
            rw [← hvalue, ← Int.cast_abs]
            have hlt : |value.num| < 9007199254740992 := by
              unfold maxSafeInteger at hnum
              omega
            exact_mod_cast hlt
          unfold canonicalNumber
          dsimp only
          rw [if_pos ⟨hden, hsmall⟩]
        · rw [if_neg hnum] at h
          cases h
      · rw [if_neg hden] at h
        cases h

mutual

/-- The canonical text of a value of the subset holds no control characters. -/
theorem canonicalChars_printable {depth : Nat} {x : Char} : ∀ {v : Value}, Ajs depth v →
    x ∈ canonicalChars v → 32 ≤ x.toNat
  | .null, _, h => by
      simp [canonicalChars] at h
      rcases h with rfl | rfl | rfl <;> decide
  | .bool true, _, h => by
      simp [canonicalChars] at h
      rcases h with rfl | rfl | rfl | rfl <;> decide
  | .bool false, _, h => by
      simp [canonicalChars] at h
      rcases h with rfl | rfl | rfl | rfl | rfl <;> decide
  | .number n, hv, h => by
      obtain ⟨i, hi⟩ := hv
      rw [canonicalChars, canonicalNumber_of_ajs hi] at h
      exact Json.writeNumber_printable h
  | .string s, _, h => Json.writeString_printable h
  | .array items, hv, h => by
      rw [canonicalChars] at h
      rcases List.mem_cons.mp h with rfl | h
      · decide
      · rcases List.mem_append.mp h with h | h
        · rcases mem_joinComma h with rfl | ⟨piece, hpiece, h⟩
          · decide
          · exact canonicalItems_printable hv.2 hpiece h
        · cases List.mem_singleton.mp h
          decide
  | .object members, hv, h => by
      rw [canonicalChars] at h
      rcases List.mem_cons.mp h with rfl | h
      · decide
      · rcases List.mem_append.mp h with h | h
        · rcases mem_joinComma h with rfl | ⟨piece, hpiece, h⟩
          · decide
          · obtain ⟨⟨k, text⟩, hmem, rfl⟩ := List.mem_map.mp hpiece
            rcases List.mem_append.mp h with h | h
            · exact Json.writeString_printable h
            · rcases List.mem_cons.mp h with rfl | h
              · decide
              · exact canonicalMembers_printable hv.2 (mem_sortByName.mp hmem) h
        · cases List.mem_singleton.mp h
          decide

theorem canonicalItems_printable {depth : Nat} {x : Char} : ∀ {items : List Value},
    AjsItems depth items → ∀ {piece : List Char}, piece ∈ canonicalItems items → x ∈ piece →
    32 ≤ x.toNat
  | [], _, _, hpiece, _ => absurd hpiece List.not_mem_nil
  | _ :: _, hv, _, hpiece, h => by
      rcases List.mem_cons.mp hpiece with rfl | hpiece
      · exact canonicalChars_printable hv.1 h
      · exact canonicalItems_printable hv.2 hpiece h

theorem canonicalMembers_printable {depth : Nat} {x : Char} : ∀ {members : Members},
    AjsMembers depth members → ∀ {piece : String × List Char}, piece ∈ canonicalMembers members →
    x ∈ piece.2 → 32 ≤ x.toNat
  | [], _, _, hpiece, _ => absurd hpiece List.not_mem_nil
  | (_, _) :: _, hv, _, hpiece, h => by
      rcases List.mem_cons.mp hpiece with rfl | hpiece
      · exact canonicalChars_printable hv.1.2 h
      · exact canonicalMembers_printable hv.2 hpiece h

end

theorem nul_not_mem_canonicalChars {depth : Nat} {v : Value} (h : Ajs depth v) :
    nul ∉ canonicalChars v := by
  intro hmem
  exact absurd (canonicalChars_printable h hmem) (by decide)

end Agenomic.Prompt
