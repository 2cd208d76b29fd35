import Mathlib

/-!
# Merkle trees that pair an odd node with itself

A level is made from the one below by hashing neighbours together, an odd node with
itself; climbing ends at a single node, the root. Leaves carry no index, so what
keeps two lists of leaves apart is that no leaf occurs twice, that no leaf looks
like an inner node, and that no two of the pairs that were hashed collide.

**`climb_injective`**: under these the root determines the leaves. Two nodes that
are equal stand at the same height, because going down from both ends at a leaf at
the same time; so both trees have the same height, and then level by level, from
the root down, they are the same.

**`topOf_injective`** is the same for a tree of hashes: what was hashed at the leaves is
determined by the hash at the top.
-/

namespace Lib.Merkle

variable {δ : Type*} (node : δ → δ → δ)

/-- Neighbours, an odd one with itself. -/
def pairsOf : List δ → List (δ × δ)
  | [] => []
  | [x] => [(x, x)]
  | x :: y :: rest => (x, y) :: pairsOf rest

/-- The level above. -/
def level : List δ → List δ
  | [] => []
  | [x] => [node x x]
  | x :: y :: rest => node x y :: level rest

/-- Climb until one node is left. -/
def climb : Nat → List δ → List δ
  | 0, nodes => nodes
  | fuel + 1, nodes => if nodes.length ≤ 1 then nodes else climb fuel (level node nodes)

/-- The pairs hashed on the way up. -/
def climbPairs : Nat → List δ → List (δ × δ)
  | 0, _ => []
  | fuel + 1, nodes =>
      if nodes.length ≤ 1 then [] else pairsOf nodes ++ climbPairs fuel (level node nodes)

variable {node}

theorem level_eq_map : ∀ xs : List δ, level node xs = (pairsOf xs).map fun p => node p.1 p.2
  | [] => rfl
  | [_] => rfl
  | x :: y :: rest => congrArg (node x y :: ·) (level_eq_map rest)

theorem length_pairsOf : ∀ xs : List δ, (pairsOf xs).length = (xs.length + 1) / 2
  | [] => by simp only [pairsOf, List.length_nil]
  | [_] => by simp only [pairsOf, List.length_singleton]
  | x :: y :: rest => by
      have ih := length_pairsOf rest
      simp only [pairsOf, List.length_cons, ih]
      omega

variable (node) in
theorem length_level (xs : List δ) : (level node xs).length = (xs.length + 1) / 2 := by
  rw [level_eq_map, List.length_map, length_pairsOf]

/-- The left nodes of the pairs are nodes, in order. -/
theorem pairsOf_fst_sublist : ∀ xs : List δ, ((pairsOf xs).map Prod.fst).Sublist xs
  | [] => List.Sublist.refl _
  | [_] => List.Sublist.refl _
  | _ :: y :: rest => ((pairsOf_fst_sublist rest).cons y).cons_cons _

/-- Pairs determine a list in which no node occurs twice. -/
theorem pairsOf_injective : ∀ {xs ys : List δ}, xs.Nodup → ys.Nodup →
    pairsOf xs = pairsOf ys → xs = ys
  | [], [], _, _, _ => rfl
  | [], [_], _, _, h => nomatch h
  | [], _ :: _ :: _, _, _, h => nomatch h
  | [_], [], _, _, h => nomatch h
  | _ :: _ :: _, [], _, _, h => nomatch h
  | [x], [y], _, _, h => by
      cases h
      rfl
  | [x], y :: z :: rest, _, hy, h => by
      cases (List.cons.inj h).1
      exact absurd List.mem_cons_self (List.nodup_cons.mp hy).1
  | y :: z :: rest, [x], hy, _, h => by
      cases (List.cons.inj h).1
      exact absurd List.mem_cons_self (List.nodup_cons.mp hy).1
  | x :: x' :: xs, y :: y' :: ys, hx, hy, h => by
      obtain ⟨hhead, htail⟩ := List.cons.inj h
      cases hhead
      have hx' := (List.nodup_cons.mp (List.nodup_cons.mp hx).2).2
      have hy' := (List.nodup_cons.mp (List.nodup_cons.mp hy).2).2
      rw [pairsOf_injective hx' hy' htail]

variable (node) in
/-- Climbing takes so many levels, and hashes the pairs of those below the root. -/
theorem climb_eq_iterate (fuel : Nat) (xs : List δ) : ∃ h, climb node fuel xs = (level node)^[h] xs
    ∧ ∀ i < h, ∀ p ∈ pairsOf ((level node)^[i] xs), p ∈ climbPairs node fuel xs := by
  induction fuel generalizing xs with
  | zero => exact ⟨0, rfl, fun i hi => absurd hi (Nat.not_lt_zero i)⟩
  | succ fuel ih =>
      by_cases hlen : xs.length ≤ 1
      · refine ⟨0, ?_, fun i hi => absurd hi (Nat.not_lt_zero i)⟩
        unfold climb
        rw [if_pos hlen]
        rfl
      · obtain ⟨h, hclimb, hpairs⟩ := ih (level node xs)
        refine ⟨h + 1, ?_, fun i hi p hp => ?_⟩
        · unfold climb
          rw [if_neg hlen, hclimb, Function.iterate_succ_apply]
        · unfold climbPairs
          rw [if_neg hlen, List.mem_append]
          cases i with
          | zero => exact .inl hp
          | succ i =>
              rw [Function.iterate_succ_apply] at hp
              exact .inr (hpairs i (Nat.lt_of_succ_lt_succ hi) p hp)

variable (node) in
/-- With enough fuel a single node is left. -/
theorem length_climb {fuel : Nat} {xs : List δ} (hfuel : xs.length ≤ fuel) (hne : xs ≠ []) :
    (climb node fuel xs).length = 1 := by
  have hpos : 0 < xs.length := List.length_pos_of_ne_nil hne
  induction fuel generalizing xs with
  | zero => omega
  | succ fuel ih =>
      unfold climb
      by_cases hlen : xs.length ≤ 1
      · rw [if_pos hlen]
        omega
      · rw [if_neg hlen]
        have hlevel := length_level node xs
        refine ih ?_ ?_ ?_
        · omega
        · intro hnil
          rw [hnil, List.length_nil] at hlevel
          omega
        · omega

/-- A node that is left is a leaf or the node of a pair that was hashed. -/
theorem mem_climb {fuel : Nat} {xs : List δ} {z : δ} (h : z ∈ climb node fuel xs) :
    z ∈ xs ∨ ∃ p ∈ climbPairs node fuel xs, z = node p.1 p.2 := by
  induction fuel generalizing xs with
  | zero => exact .inl h
  | succ fuel ih =>
      unfold climb at h
      unfold climbPairs
      by_cases hlen : xs.length ≤ 1
      · rw [if_pos hlen] at h
        exact .inl h
      · rw [if_neg hlen] at h ⊢
        right
        rcases ih h with hlevel | ⟨p, hp, hz⟩
        · rw [level_eq_map, List.mem_map] at hlevel
          obtain ⟨p, hp, rfl⟩ := hlevel
          exact ⟨p, List.mem_append_left _ hp, rfl⟩
        · exact ⟨p, List.mem_append_right _ hp, hz⟩

/-- What holds of the leaves and of every node holds of the left node of every pair. -/
theorem climbPairs_fst {fuel : Nat} {xs : List δ} {good : δ → Prop} (hxs : ∀ x ∈ xs, good x)
    (hnode : ∀ x y, good (node x y)) : ∀ p ∈ climbPairs node fuel xs, good p.1 := by
  induction fuel generalizing xs with
  | zero => exact fun p hp => absurd hp List.not_mem_nil
  | succ fuel ih =>
      unfold climbPairs
      by_cases hlen : xs.length ≤ 1
      · rw [if_pos hlen]
        exact fun p hp => absurd hp List.not_mem_nil
      · rw [if_neg hlen]
        intro p hp
        rcases List.mem_append.mp hp with hhere | habove
        · exact hxs _ ((pairsOf_fst_sublist xs).subset (List.mem_map_of_mem hhere))
        · refine ih (fun x hx => ?_) p habove
          rw [level_eq_map, List.mem_map] at hx
          obtain ⟨q, -, rfl⟩ := hx
          exact hnode _ _

/-! ## Two trees -/

/-- Lists are equal when their images are, under what is injective from the one to the other. -/
theorem eq_of_map_eq {α β : Type*} {f : α → β} : ∀ {as bs : List α},
    (∀ a ∈ as, ∀ b ∈ bs, f a = f b → a = b) → as.map f = bs.map f → as = bs
  | [], [], _, _ => rfl
  | [], _ :: _, _, h => nomatch h
  | _ :: _, [], _, h => nomatch h
  | a :: as, b :: bs, hf, h => by
      obtain ⟨hhead, htail⟩ := List.cons.inj h
      rw [hf a List.mem_cons_self b List.mem_cons_self hhead,
        eq_of_map_eq (fun a ha b hb => hf a (List.mem_cons_of_mem _ ha) b
          (List.mem_cons_of_mem _ hb)) htail]

/-- Pairs determine a list whose length is known. -/
theorem pairsOf_injective_of_length : ∀ {xs ys : List δ}, xs.length = ys.length →
    pairsOf xs = pairsOf ys → xs = ys
  | [], [], _, _ => rfl
  | [], _ :: _, hlen, _ => nomatch hlen
  | _ :: _, [], hlen, _ => nomatch hlen
  | [x], [y], _, h => by
      cases h
      rfl
  | [_], _ :: _ :: _, hlen, _ => by
      simp only [List.length_cons, List.length_nil] at hlen
      omega
  | _ :: _ :: _, [_], hlen, _ => by
      simp only [List.length_cons, List.length_nil] at hlen
      omega
  | x :: x' :: xs, y :: y' :: ys, hlen, h => by
      obtain ⟨hhead, htail⟩ := List.cons.inj h
      cases hhead
      rw [pairsOf_injective_of_length (Nat.succ.inj (Nat.succ.inj hlen)) htail]

/-- **Trees over as many leaves have the same leaves when they have the same top.** -/
theorem climb_injective_of_length {fuel : Nat} {xs ys : List δ} (hlen : xs.length = ys.length)
    (hinj : ∀ p q, p ∈ climbPairs node fuel xs → q ∈ climbPairs node fuel ys →
      node p.1 p.2 = node q.1 q.2 → p = q)
    (h : climb node fuel xs = climb node fuel ys) : xs = ys := by
  induction fuel generalizing xs ys with
  | zero => exact h
  | succ fuel ih =>
      unfold climb at h
      unfold climbPairs at hinj
      by_cases hone : xs.length ≤ 1
      · rw [if_pos hone, if_pos (hlen ▸ hone)] at h
        exact h
      · have hone' : ¬ ys.length ≤ 1 := hlen ▸ hone
        rw [if_neg hone, if_neg hone'] at h hinj
        have hlevel : level node xs = level node ys := by
          refine ih ?_ (fun p q hp hq => hinj p q (List.mem_append_right _ hp)
            (List.mem_append_right _ hq)) h
          rw [length_level, length_level, hlen]
        rw [level_eq_map, level_eq_map] at hlevel
        refine pairsOf_injective_of_length hlen (eq_of_map_eq (fun p hp q hq => ?_) hlevel)
        exact hinj p q (List.mem_append_left _ hp) (List.mem_append_left _ hq)

/-- No two pairs hashed in the two trees collide, and no leaf of one is a node of the other. -/
structure Separated (node : δ → δ → δ) (pairs : δ × δ → Prop) (leaves : δ → Prop) : Prop where
  pair : ∀ p q, pairs p → pairs q → node p.1 p.2 = node q.1 q.2 → p = q
  leaf : ∀ x p, leaves x → pairs p → x ≠ node p.1 p.2

variable {pairs : δ × δ → Prop} {leaves : δ → Prop}

/-- The pairs of a tree's levels below a height are among those hashed. -/
def Hashed (node : δ → δ → δ) (pairs : δ × δ → Prop) (xs : List δ) (h : Nat) : Prop :=
  ∀ i < h, ∀ p ∈ pairsOf ((level node)^[i] xs), pairs p

/-- What stands above the leaves is a pair of what stands one below. -/
theorem exists_pair {xs : List δ} {i : Nat} {x : δ} (hx : x ∈ (level node)^[i + 1] xs) :
    ∃ p ∈ pairsOf ((level node)^[i] xs), x = node p.1 p.2 ∧ p.1 ∈ (level node)^[i] xs := by
  rw [Function.iterate_succ_apply', level_eq_map, List.mem_map] at hx
  obtain ⟨p, hp, rfl⟩ := hx
  exact ⟨p, hp, rfl, (pairsOf_fst_sublist _).subset (List.mem_map_of_mem hp)⟩

/-- **Equal nodes stand at the same height.** -/
theorem same_height (hsep : Separated node pairs leaves) {xs ys : List δ} {h k : Nat}
    (hxs : ∀ x ∈ xs, leaves x) (hys : ∀ y ∈ ys, leaves y) (hx : Hashed node pairs xs h)
    (hy : Hashed node pairs ys k) {i j : Nat} (hi : i ≤ h) (hj : j ≤ k) {z : δ}
    (hzx : z ∈ (level node)^[i] xs) (hzy : z ∈ (level node)^[j] ys) : i = j := by
  induction i generalizing j z with
  | zero =>
      cases j with
      | zero => rfl
      | succ j =>
          obtain ⟨p, hp, hz, -⟩ := exists_pair hzy
          exact absurd hz (hsep.leaf z p (hxs z hzx) (hy j hj p hp))
  | succ i ih =>
      obtain ⟨p, hp, hz, hpx⟩ := exists_pair hzx
      cases j with
      | zero => exact absurd hz (hsep.leaf z p (hys z hzy) (hx i hi p hp))
      | succ j =>
          obtain ⟨q, hq, hz', hqy⟩ := exists_pair hzy
          have hpq := hsep.pair p q (hx i hi p hp) (hy j hj q hq) (hz.symm.trans hz')
          subst hpq
          rw [ih (Nat.le_of_succ_le hi) (Nat.le_of_succ_le hj) hpx hqy]

/-- No node occurs twice at any height. -/
theorem nodup_iterate (hsep : Separated node pairs leaves) {xs : List δ} {h : Nat}
    (hnodup : xs.Nodup) (hx : Hashed node pairs xs h) {i : Nat} (hi : i ≤ h) :
    ((level node)^[i] xs).Nodup := by
  induction i with
  | zero => exact hnodup
  | succ i ih =>
      rw [Function.iterate_succ_apply', level_eq_map]
      have hpairs : (pairsOf ((level node)^[i] xs)).Nodup :=
        List.Nodup.of_map _ ((pairsOf_fst_sublist _).nodup (ih (Nat.le_of_succ_le hi)))
      exact hpairs.map_on fun p hp q hq => hsep.pair p q (hx i hi p hp) (hx i hi q hq)

/-- Equal levels come from equal levels below. -/
theorem eq_of_iterate (hsep : Separated node pairs leaves) {xs ys : List δ} {h : Nat}
    (hnx : xs.Nodup) (hny : ys.Nodup) (hx : Hashed node pairs xs h) (hy : Hashed node pairs ys h)
    (heq : (level node)^[h] xs = (level node)^[h] ys) : xs = ys := by
  induction h with
  | zero => exact heq
  | succ h ih =>
      refine ih (fun i hi => hx i (Nat.lt_succ_of_lt hi)) (fun i hi => hy i (Nat.lt_succ_of_lt hi)) ?_
      rw [Function.iterate_succ_apply', Function.iterate_succ_apply', level_eq_map,
        level_eq_map] at heq
      refine pairsOf_injective (nodup_iterate hsep hnx hx (Nat.le_succ h))
        (nodup_iterate hsep hny hy (Nat.le_succ h)) ?_
      exact eq_of_map_eq (fun p hp q hq => hsep.pair p q (hx h h.lt_succ_self p hp)
        (hy h h.lt_succ_self q hq)) heq

/-- **The root determines the leaves.** -/
theorem climb_injective {xs ys : List δ} {n k : Nat} (hn : xs.length ≤ n) (hk : ys.length ≤ k)
    (hxne : xs ≠ []) (hyne : ys ≠ []) (hnx : xs.Nodup) (hny : ys.Nodup)
    (hsep : Separated node (fun p => p ∈ climbPairs node n xs ∨ p ∈ climbPairs node k ys)
      fun x => x ∈ xs ∨ x ∈ ys)
    (h : (climb node n xs).head? = (climb node k ys).head?) : xs = ys := by
  obtain ⟨i, hi, hxi⟩ := climb_eq_iterate node n xs
  obtain ⟨j, hj, hyj⟩ := climb_eq_iterate node k ys
  obtain ⟨x, hx⟩ := List.length_eq_one_iff.mp (length_climb node hn hxne)
  obtain ⟨y, hy⟩ := List.length_eq_one_iff.mp (length_climb node hk hyne)
  have hxy : x = y := by
    rw [hx, hy] at h
    exact Option.some.inj h
  subst hxy
  have hx' : Hashed node (fun p => p ∈ climbPairs node n xs ∨ p ∈ climbPairs node k ys) xs i :=
    fun i hi p hp => Or.inl (hxi i hi p hp)
  have hy' : Hashed node (fun p => p ∈ climbPairs node n xs ∨ p ∈ climbPairs node k ys) ys j :=
    fun j hj p hp => Or.inr (hyj j hj p hp)
  have hmemx : x ∈ (level node)^[i] xs := by
    rw [← hi, hx]
    exact List.mem_singleton_self x
  have hmemy : x ∈ (level node)^[j] ys := by
    rw [← hj, hy]
    exact List.mem_singleton_self x
  have hij := same_height hsep (fun _ hz => Or.inl hz) (fun _ hz => Or.inr hz) hx' hy'
    le_rfl le_rfl hmemx hmemy
  subst hij
  exact eq_of_iterate hsep hnx hny hx' hy' (by rw [← hi, ← hj, hx, hy])

/-! ## Trees over hashed messages -/

section Messages

variable {μ : Type*} (hash : μ → δ) (join : δ → δ → μ)

/-- The node over two others: the hash of the message that joins them. -/
def hashedNode (x y : δ) : δ := hash (join x y)

/-- What is hashed for the tree over some messages. -/
def messagesOf (ms : List μ) : List μ :=
  ms ++ (climbPairs (hashedNode hash join) ms.length (ms.map hash)).map fun p => join p.1 p.2

/-- The node at the top of the tree over some messages. -/
def topOf (ms : List μ) : Option δ :=
  (climb (hashedNode hash join) ms.length (ms.map hash)).head?

variable {hash join}

theorem leaf_mem_messagesOf {ms : List μ} {m : μ} (hm : m ∈ ms) : m ∈ messagesOf hash join ms :=
  List.mem_append_left _ hm

theorem join_mem_messagesOf {ms : List μ} {p : δ × δ}
    (hp : p ∈ climbPairs (hashedNode hash join) ms.length (ms.map hash)) :
    join p.1 p.2 ∈ messagesOf hash join ms :=
  List.mem_append_right _ (List.mem_map_of_mem hp)

variable (hash join) in
/-- The top of a tree is the hash of one of its messages. -/
theorem topOf_eq_some {ms : List μ} (hne : ms ≠ []) :
    ∃ m ∈ messagesOf hash join ms, topOf hash join ms = some (hash m) := by
  have hlen : (ms.map hash).length = ms.length := List.length_map _
  obtain ⟨top, htop⟩ := List.length_eq_one_iff.mp
    (length_climb (hashedNode hash join) hlen.le (mt List.map_eq_nil_iff.mp hne))
  have hmem : top ∈ climb (hashedNode hash join) ms.length (ms.map hash) := by
    rw [htop]
    exact List.mem_singleton_self top
  unfold topOf
  rw [htop, List.head?_cons]
  rcases mem_climb hmem with hleaf | ⟨p, hp, rfl⟩
  · obtain ⟨m, hm, rfl⟩ := List.mem_map.mp hleaf
    exact ⟨m, leaf_mem_messagesOf hm, rfl⟩
  · exact ⟨_, join_mem_messagesOf hp, rfl⟩

/-- Leaves and nodes of two trees are separated when no two of their messages collide, no leaf's
message joins two nodes, and what joins two nodes tells them. -/
theorem separated_messages (good : δ → Prop) (hgood : ∀ m, good (hash m))
    (hjoin : ∀ x y x' y', good x → good x' → join x y = join x' y' → x = x' ∧ y = y')
    {ms ms' : List μ} (hleaf : ∀ m, m ∈ ms ∨ m ∈ ms' → ∀ x y, m ≠ join x y)
    (hinj : Set.InjOn hash {m | m ∈ messagesOf hash join ms ∨ m ∈ messagesOf hash join ms'}) :
    Separated (hashedNode hash join)
      (fun p => p ∈ climbPairs (hashedNode hash join) ms.length (ms.map hash)
        ∨ p ∈ climbPairs (hashedNode hash join) ms'.length (ms'.map hash))
      fun x => x ∈ ms.map hash ∨ x ∈ ms'.map hash := by
  have hall : ∀ ns : List μ, ∀ x ∈ ns.map hash, good x := by
    intro ns x hx
    obtain ⟨m, -, rfl⟩ := List.mem_map.mp hx
    exact hgood m
  have hpair : ∀ p : δ × δ, (p ∈ climbPairs (hashedNode hash join) ms.length (ms.map hash)
        ∨ p ∈ climbPairs (hashedNode hash join) ms'.length (ms'.map hash)) →
      (join p.1 p.2 ∈ messagesOf hash join ms ∨ join p.1 p.2 ∈ messagesOf hash join ms')
        ∧ good p.1 := by
    rintro p (hp | hp)
    · exact ⟨.inl (join_mem_messagesOf hp), climbPairs_fst (hall ms) (fun _ _ => hgood _) p hp⟩
    · exact ⟨.inr (join_mem_messagesOf hp), climbPairs_fst (hall ms') (fun _ _ => hgood _) p hp⟩
  constructor
  · intro p q hp hq heq
    obtain ⟨hpm, hpg⟩ := hpair p hp
    obtain ⟨hqm, hqg⟩ := hpair q hq
    obtain ⟨h1, h2⟩ := hjoin _ _ _ _ hpg hqg (hinj hpm hqm heq)
    exact Prod.ext h1 h2
  · intro x p hx hp heq
    obtain ⟨hpm, -⟩ := hpair p hp
    rcases hx with hx | hx
    · obtain ⟨m, hm, rfl⟩ := List.mem_map.mp hx
      exact hleaf m (.inl hm) _ _ (hinj (.inl (leaf_mem_messagesOf hm)) hpm heq)
    · obtain ⟨m, hm, rfl⟩ := List.mem_map.mp hx
      exact hleaf m (.inr hm) _ _ (hinj (.inr (leaf_mem_messagesOf hm)) hpm heq)

/-- **The top determines the messages**, when none of them occurs twice. -/
theorem topOf_injective (good : δ → Prop) (hgood : ∀ m, good (hash m))
    (hjoin : ∀ x y x' y', good x → good x' → join x y = join x' y' → x = x' ∧ y = y')
    {ms ms' : List μ} (hne : ms ≠ []) (hne' : ms' ≠ []) (hnodup : ms.Nodup) (hnodup' : ms'.Nodup)
    (hleaf : ∀ m, m ∈ ms ∨ m ∈ ms' → ∀ x y, m ≠ join x y)
    (hinj : Set.InjOn hash {m | m ∈ messagesOf hash join ms ∨ m ∈ messagesOf hash join ms'})
    (h : topOf hash join ms = topOf hash join ms') : ms = ms' := by
  have hleft : ∀ a ∈ ms, ∀ b ∈ ms, hash a = hash b → a = b := fun a ha b hb =>
    hinj (.inl (leaf_mem_messagesOf ha)) (.inl (leaf_mem_messagesOf hb))
  have hright : ∀ a ∈ ms', ∀ b ∈ ms', hash a = hash b → a = b := fun a ha b hb =>
    hinj (.inr (leaf_mem_messagesOf ha)) (.inr (leaf_mem_messagesOf hb))
  have hhashes : ms.map hash = ms'.map hash :=
    climb_injective (List.length_map _).le (List.length_map _).le (mt List.map_eq_nil_iff.mp hne)
      (mt List.map_eq_nil_iff.mp hne') (hnodup.map_on hleft) (hnodup'.map_on hright)
      (separated_messages good hgood hjoin hleaf hinj) h
  exact eq_of_map_eq (fun a ha b hb =>
    hinj (.inl (leaf_mem_messagesOf ha)) (.inr (leaf_mem_messagesOf hb))) hhashes

end Messages

end Lib.Merkle
