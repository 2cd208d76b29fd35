import Agenomic.Prompt.Bundle

/-!
# The closure of a bundle

What a bundle pins is reached from its manifest: the manifests of the children, the
pins of their slots, and the pins of the fragments of what was pinned. The check of
the closure walks over all of it, and at its end everything reachable was seen; but of
the pins with the same reference only one was compared with its entry, and of the pins
of a child only one with the document of the child. This is enough exactly when such
pins agree with one another (`load_resolves_iff`).
-/

namespace Agenomic.Prompt

open Lib Value

/-! ## What is reachable -/

/-- The manifests of an agent and of the agents below it. -/
inductive ReachManifest (document : Value) : Value → Prop
  | root {manifest : Value} :
      document.get "manifest" = some manifest → ReachManifest document manifest
  | child {manifest childManifest pin child : Value} {childId : String} :
      ReachManifest document manifest → (childId, pin) ∈ membersAt manifest "children" →
      lookup childId (membersAt document "children") = some child →
      child.get "manifest" = some childManifest → ReachManifest document childManifest

/-- The pins of prompts: those of slots, and those of the fragments of pinned prompts. -/
inductive ReachPin (document : Value) : Value → Prop
  | slot {manifest pin : Value} {path : String} :
      ReachManifest document manifest → (path, pin) ∈ membersAt manifest "slots" →
      ReachPin document pin
  | fragment {pin fragmentPin entry : Value} {name : String} :
      ReachPin document pin → lookup (pinRef pin) (membersAt document "prompts") = some entry →
      (name, fragmentPin) ∈ fragmentMembers entry → ReachPin document fragmentPin

/-- The pins of children. -/
def ChildPin (document : Value) (childId : String) (pin : Value) : Prop :=
  ∃ manifest, ReachManifest document manifest ∧ (childId, pin) ∈ membersAt manifest "children"

/-! ## The pins of one manifest -/

theorem mem_slotPins {manifest pin : Value} :
    pin ∈ slotPins manifest
      ↔ (∃ path, (path, pin) ∈ membersAt manifest "slots") ∧ pin.isObject = true := by
  unfold slotPins
  rw [List.mem_filter, List.mem_map]
  constructor
  · intro ⟨⟨⟨path, _⟩, hmem, heq⟩, hobj⟩
    cases heq
    exact ⟨⟨path, hmem⟩, hobj⟩
  · intro ⟨⟨path, hmem⟩, hobj⟩
    exact ⟨⟨(path, pin), hmem, rfl⟩, hobj⟩

theorem mem_fragmentPins {entry pin : Value} :
    pin ∈ fragmentPins entry
      ↔ (∃ name, (name, pin) ∈ fragmentMembers entry) ∧ pin.isObject = true := by
  unfold fragmentPins
  rw [List.mem_filter, List.mem_map]
  constructor
  · intro ⟨⟨⟨name, _⟩, hmem, heq⟩, hobj⟩
    cases heq
    exact ⟨⟨name, hmem⟩, hobj⟩
  · intro ⟨⟨name, hmem⟩, hobj⟩
    exact ⟨⟨(name, pin), hmem, rfl⟩, hobj⟩

/-- A pin is expanded when its entry is there and has its digest. -/
theorem expandPin_eq_some {prompts : Members} {pin : Value} {next : List Value}
    (h : expandPin prompts pin = some next) :
    ∃ entry, lookup (pinRef pin) prompts = some entry ∧ digestMatches entry pin = true
      ∧ next = (fragmentPins entry).reverse := by
  unfold expandPin at h
  cases hentry : lookup (pinRef pin) prompts with
  | none =>
      rw [hentry] at h
      cases h
  | some entry =>
      rw [hentry] at h
      dsimp only at h
      by_cases hok : (entry.isObject && digestMatches entry pin) = true
      · rw [if_pos hok] at h
        cases h
        exact ⟨entry, rfl, (Bool.and_eq_true_iff.mp hok).2, rfl⟩
      · rw [if_neg hok] at h
        cases h

/-- The pins behind a reachable pin are reachable. -/
theorem ReachPin.expand {document pin : Value} {next : List Value} (hpin : ReachPin document pin)
    (h : expandPin (membersAt document "prompts") pin = some next) :
    ∀ b ∈ next, ReachPin document b := by
  intro b hb
  obtain ⟨entry, hentry, -, rfl⟩ := expandPin_eq_some h
  obtain ⟨⟨name, hname⟩, -⟩ := mem_fragmentPins.mp (List.mem_reverse.mp hb)
  exact hpin.fragment hentry hname

theorem expandPin_bounded (prompts : Members) :
    Worklist.Bounded pinRef (expandPin prompts) (prompts.map Prod.fst) (fragmentCount prompts) := by
  intro pin next h
  obtain ⟨entry, hentry, -, rfl⟩ := expandPin_eq_some h
  refine ⟨List.mem_map.mpr ⟨_, lookup_mem hentry, rfl⟩, ?_⟩
  unfold fragmentCount
  rw [hentry, List.length_reverse]
  exact le_rfl

/-- Every wanted reference is missing, or is that of a pin that was compared with its entry and
whose own pins are wanted. -/
def Pinned (document : Value) (wanted missing : List String) : Prop :=
  ∀ reference ∈ wanted, reference ∈ missing ∨ ∃ pin next, ReachPin document pin
    ∧ pinRef pin = reference ∧ expandPin (membersAt document "prompts") pin = some next
    ∧ ∀ b ∈ next, pinRef b ∈ wanted

/-- What the walk over the pins of a manifest does. -/
theorem closureGaps_spec {document manifest : Value} (hm : ReachManifest document manifest)
    {wanted missing : List String} (h : Pinned document wanted missing) :
    Pinned document (closureGaps manifest (membersAt document "prompts") wanted missing).1
        (closureGaps manifest (membersAt document "prompts") wanted missing).2
      ∧ wanted ⊆ (closureGaps manifest (membersAt document "prompts") wanted missing).1
      ∧ missing ⊆ (closureGaps manifest (membersAt document "prompts") wanted missing).2
      ∧ ∀ pin ∈ slotPins manifest,
        pinRef pin ∈ (closureGaps manifest (membersAt document "prompts") wanted missing).1 := by
  generalize hprompts : membersAt document "prompts" = prompts at h ⊢
  unfold closureGaps
  dsimp only
  generalize hfuel : (slotPins manifest).length
    + ((prompts.map Prod.fst).map (fragmentCount prompts)).sum = fuel
  let start : Worklist Value String := ⟨(slotPins manifest).reverse, wanted, missing⟩
  -- The fuel is enough: every reference has its fragments pushed at most once.
  have hpending : (Worklist.run pinRef (expandPin prompts) fuel start).pending = [] := by
    apply Worklist.run_pending (expandPin_bounded prompts)
    have hle := Worklist.unseen_le (prompts.map Prod.fst) (fragmentCount prompts) wanted
    unfold Worklist.work
    dsimp only [start]
    rw [List.length_reverse]
    omega
  have hcover : Worklist.Covers pinRef start (slotPins manifest) := by
    intro pin hpin
    exact .inr (List.mem_reverse.mpr hpin)
  have hexplored : Worklist.Explored pinRef (expandPin prompts) (ReachPin document) start := by
    refine ⟨?_, ?_⟩
    · intro pin hpin
      obtain ⟨⟨path, hpath⟩, -⟩ := mem_slotPins.mp (List.mem_reverse.mp hpin)
      exact .slot hm hpath
    · intro reference href
      rcases h reference href with hmissing | ⟨pin, next, hreach, hpin, hexp, hnext⟩
      · exact .inl hmissing
      · exact .inr ⟨pin, next, hreach, hpin, hprompts ▸ hexp, fun b hb => .inl (hnext b hb)⟩
  have hend := Worklist.run_explored fuel
    (fun pin next hpin hexp => hpin.expand (hprompts ▸ hexp)) hexplored
  have hseen : ∀ {pins : List Value},
      Worklist.Covers pinRef (Worklist.run pinRef (expandPin prompts) fuel start) pins →
      ∀ pin ∈ pins, pinRef pin ∈ (Worklist.run pinRef (expandPin prompts) fuel start).seen := by
    intro pins hcov pin hpin
    refine (hcov pin hpin).resolve_right ?_
    rw [hpending]
    exact List.not_mem_nil
  refine ⟨?_, Worklist.run_seen fuel start, Worklist.run_gaps fuel start,
    hseen (Worklist.run_covers fuel hcover)⟩
  intro reference href
  rcases hend.seen reference href with hgap | ⟨pin, next, hreach, hpin, hexp, hcov⟩
  · exact .inl hgap
  · exact .inr ⟨pin, next, hreach, hpin, hprompts ▸ hexp, hseen hcov⟩

/-! ## The walk over the manifests -/

/-- The pins of a manifest are wanted and its children reached. -/
def Processed (wanted reached : List String) (manifest : Value) : Prop :=
  (∀ pin ∈ slotPins manifest, pinRef pin ∈ wanted)
    ∧ ∀ child ∈ membersAt manifest "children", child.1 ∈ reached

theorem Processed.mono {wanted wanted' reached reached' : List String} {manifest : Value}
    (h : Processed wanted reached manifest) (hw : wanted ⊆ wanted') (hr : reached ⊆ reached') :
    Processed wanted' reached' manifest :=
  ⟨fun pin hpin => hw (h.1 pin hpin), fun child hchild => hr (h.2 child hchild)⟩

/-- A child whose document agrees with a pin, and a manifest that waits or is processed. -/
def Opened (document : Value) (waits : Value → Prop) (wanted reached : List String)
    (childId : String) : Prop :=
  ∃ pin child manifest, ChildPin document childId pin
    ∧ lookup childId (membersAt document "children") = some child
    ∧ child.get "manifest" = some manifest ∧ consistent childId pin child = true
    ∧ (waits manifest ∨ Processed wanted reached manifest)

/-- The invariant of the walk; one of the manifests may be in work. -/
structure WalkInv (document : Value) (current : Option Value) (s : Closure) : Prop where
  pending : ∀ m ∈ s.pending, ReachManifest document m
  pinned : Pinned document s.wanted s.missing
  reached : ∀ childId ∈ s.reached, childId ∈ s.missing
    ∨ Opened document (fun m => m ∈ s.pending ∨ current = some m) s.wanted s.reached childId
  root : ∀ m, document.get "manifest" = some m →
    (m ∈ s.pending ∨ current = some m) ∨ Processed s.wanted s.reached m

theorem Opened.mono {document : Value} {waits waits' : Value → Prop}
    {wanted wanted' reached reached' : List String} {childId : String}
    (h : Opened document waits wanted reached childId)
    (hwaits : ∀ m, waits m → waits' m ∨ Processed wanted' reached' m)
    (hw : wanted ⊆ wanted') (hr : reached ⊆ reached') :
    Opened document waits' wanted' reached' childId := by
  obtain ⟨pin, child, manifest, hpin, hchild, hmanifest, hok, hstate⟩ := h
  refine ⟨pin, child, manifest, hpin, hchild, hmanifest, hok, ?_⟩
  rcases hstate with hwait | hdone
  · exact hwaits manifest hwait
  · exact .inr (hdone.mono hw hr)

/-- What is left to visit: the manifests that wait, and the children that were not reached. -/
def toVisit (children : Members) (s : Closure) : Nat :=
  s.pending.length + Worklist.unseen (children.map Prod.fst) (fun _ => 1) s.reached

theorem visitChild_toVisit (children : Members) (s : Closure) (pinned : String × Value) :
    toVisit children (visitChild children s pinned) ≤ toVisit children s := by
  have hle := Worklist.unseen_cons_le (children.map Prod.fst) (fun _ => 1) pinned.1 s.reached
  unfold visitChild
  by_cases hreached : pinned.1 ∈ s.reached
  · rw [if_pos hreached]
  · rw [if_neg hreached]
    dsimp only
    cases hchild : lookup pinned.1 children with
    | none => exact Nat.add_le_add_left hle _
    | some child =>
        have hmem : pinned.1 ∈ children.map Prod.fst :=
          List.mem_map.mpr ⟨_, lookup_mem hchild, rfl⟩
        have hlt := Worklist.unseen_cons_add_le (fun _ => 1) hmem hreached
        dsimp only
        cases hmanifest : child.get "manifest" with
        | none => exact Nat.add_le_add_left hle _
        | some manifest =>
            dsimp only
            by_cases hok : consistent pinned.1 pinned.2 child = true
            · rw [if_pos hok]
              unfold toVisit
              dsimp only
              rw [List.length_cons]
              omega
            · rw [if_neg hok]
              exact Nat.add_le_add_left hle _

/-- One pin of a child is visited: the invariant is kept and the child reached. -/
theorem visitChild_inv {document : Value} {current : Option Value} {s : Closure}
    {pinned : String × Value} (hpin : ChildPin document pinned.1 pinned.2)
    (h : WalkInv document current s) :
    WalkInv document current (visitChild (membersAt document "children") s pinned)
      ∧ pinned.1 ∈ (visitChild (membersAt document "children") s pinned).reached
      ∧ s.reached ⊆ (visitChild (membersAt document "children") s pinned).reached
      ∧ (visitChild (membersAt document "children") s pinned).wanted = s.wanted
      ∧ s.missing ⊆ (visitChild (membersAt document "children") s pinned).missing := by
  obtain ⟨childId, pin⟩ := pinned
  obtain ⟨pending, wanted, missing, reached⟩ := s
  have hgrow : reached ⊆ childId :: reached := fun _ hk => List.mem_cons_of_mem _ hk
  -- The child is missing: its id is added to what is missing.
  have hgap : WalkInv document current ⟨pending, wanted, childId :: missing, childId :: reached⟩ := by
    refine ⟨h.pending, ?_, ?_, ?_⟩
    · intro reference href
      exact (h.pinned reference href).imp_left (List.mem_cons_of_mem _)
    · intro k hk
      rcases List.mem_cons.mp hk with rfl | hk
      · exact .inl List.mem_cons_self
      · refine (h.reached k hk).imp (List.mem_cons_of_mem _) fun hopen => ?_
        exact hopen.mono (fun _ hw => .inl hw) (List.Subset.refl _) hgrow
    · intro m hm
      exact (h.root m hm).imp_right fun hdone => hdone.mono (List.Subset.refl _) hgrow
  have hmiss : missing ⊆ childId :: missing := fun _ hk => List.mem_cons_of_mem _ hk
  unfold visitChild
  by_cases hreached : childId ∈ reached
  · rw [if_pos hreached]
    exact ⟨h, hreached, List.Subset.refl _, rfl, List.Subset.refl _⟩
  · rw [if_neg hreached]
    dsimp only
    cases hchild : lookup childId (membersAt document "children") with
    | none => exact ⟨hgap, List.mem_cons_self, hgrow, rfl, hmiss⟩
    | some child =>
        dsimp only
        cases hmanifest : child.get "manifest" with
        | none => exact ⟨hgap, List.mem_cons_self, hgrow, rfl, hmiss⟩
        | some manifest =>
            dsimp only
            by_cases hok : consistent childId pin child = true
            · rw [if_pos hok]
              refine ⟨⟨?_, h.pinned, ?_, ?_⟩, List.mem_cons_self, hgrow, rfl, List.Subset.refl _⟩
              · intro m hm
                rcases List.mem_cons.mp hm with rfl | hm
                · obtain ⟨parent, hparent, hmem⟩ := hpin
                  exact hparent.child hmem hchild hmanifest
                · exact h.pending m hm
              · intro k hk
                rcases List.mem_cons.mp hk with rfl | hk
                · exact .inr ⟨pin, child, manifest, hpin, hchild, hmanifest, hok,
                    .inl (.inl List.mem_cons_self)⟩
                · refine (h.reached k hk).imp_right fun hopen => ?_
                  exact hopen.mono (fun m hw => .inl (hw.imp_left (List.mem_cons_of_mem _)))
                    (List.Subset.refl _) hgrow
              · intro m hm
                exact (h.root m hm).imp (·.imp_left (List.mem_cons_of_mem _)) fun hdone =>
                  hdone.mono (List.Subset.refl _) hgrow
            · rw [if_neg hok]
              exact ⟨hgap, List.mem_cons_self, hgrow, rfl, hmiss⟩

/-- All pins of children are visited. -/
theorem visitChildren_inv {document : Value} {current : Option Value} {pins : Members}
    (hpins : ∀ pinned ∈ pins, ChildPin document pinned.1 pinned.2) {s : Closure}
    (h : WalkInv document current s) :
    WalkInv document current (pins.foldl (visitChild (membersAt document "children")) s)
      ∧ (∀ pinned ∈ pins,
        pinned.1 ∈ (pins.foldl (visitChild (membersAt document "children")) s).reached)
      ∧ s.reached ⊆ (pins.foldl (visitChild (membersAt document "children")) s).reached
      ∧ (pins.foldl (visitChild (membersAt document "children")) s).wanted = s.wanted := by
  induction pins generalizing s with
  | nil => exact ⟨h, fun _ hmem => absurd hmem List.not_mem_nil, List.Subset.refl _, rfl⟩
  | cons pinned rest ih =>
      obtain ⟨hinv, hmem, hgrow, hwanted, -⟩ :=
        visitChild_inv (hpins pinned List.mem_cons_self) h
      obtain ⟨hinv', hrest, hgrow', hwanted'⟩ :=
        ih (fun p hp => hpins p (List.mem_cons_of_mem _ hp)) hinv
      rw [List.foldl_cons]
      refine ⟨hinv', ?_, List.Subset.trans hgrow hgrow', hwanted'.trans hwanted⟩
      intro p hp
      rcases List.mem_cons.mp hp with rfl | hp
      · exact hgrow' hmem
      · exact hrest p hp

theorem visitChildren_toVisit (children pins : Members) (s : Closure) :
    toVisit children (pins.foldl (visitChild children) s) ≤ toVisit children s := by
  induction pins generalizing s with
  | nil => exact le_rfl
  | cons pinned rest ih => exact (ih _).trans (visitChild_toVisit children s pinned)

/-- The manifest on top is visited. -/
theorem visitManifest_inv {document : Value} {s : Closure} (h : WalkInv document none s) :
    WalkInv document none
      (visitManifest (membersAt document "prompts") (membersAt document "children") s) := by
  obtain ⟨pending, wanted, missing, reached⟩ := s
  cases pending with
  | nil => exact h
  | cons manifest rest =>
      have hm : ReachManifest document manifest := h.pending manifest List.mem_cons_self
      obtain ⟨hpinned, hwanted, hmissing, hslots⟩ := closureGaps_spec hm h.pinned
      unfold visitManifest
      dsimp only
      generalize closureGaps manifest (membersAt document "prompts") wanted missing = gaps
        at hpinned hwanted hmissing hslots
      -- The manifest is in work: its pins are wanted, its children are not reached yet.
      have hstart : WalkInv document (some manifest) ⟨rest, gaps.1, gaps.2, reached⟩ := by
        have hwaits : ∀ m, m ∈ manifest :: rest ∨ (none : Option Value) = some m →
            m ∈ rest ∨ some manifest = some m := by
          intro m hm
          rcases hm.resolve_right (by simp) with _ | hm
          · exact .inr rfl
          · exact .inl ‹_›
        refine ⟨fun m hm => h.pending m (List.mem_cons_of_mem _ hm), hpinned, ?_, ?_⟩
        · intro k hk
          refine (h.reached k hk).imp (fun hk => hmissing hk) fun hopen => ?_
          exact hopen.mono (fun m hw => .inl (hwaits m hw)) hwanted (List.Subset.refl _)
        · intro m hroot
          exact (h.root m hroot).imp (hwaits m) fun hdone => hdone.mono hwanted (List.Subset.refl _)
      obtain ⟨hinv, hreached, -, hwanted'⟩ :=
        visitChildren_inv (fun pinned hp => ⟨manifest, hm, hp⟩) hstart
      generalize (membersAt manifest "children").foldl (visitChild (membersAt document "children"))
        ⟨rest, gaps.1, gaps.2, reached⟩ = s' at hinv hreached hwanted'
      have hdone : Processed s'.wanted s'.reached manifest := by
        refine ⟨fun pin hpin => ?_, hreached⟩
        rw [hwanted']
        exact hslots pin hpin
      refine ⟨hinv.pending, hinv.pinned, ?_, ?_⟩
      · intro k hk
        refine (hinv.reached k hk).imp_right fun hopen => ?_
        refine hopen.mono (fun m hw => ?_) (List.Subset.refl _) (List.Subset.refl _)
        rcases hw with hw | hw
        · exact .inl (.inl hw)
        · cases hw
          exact .inr hdone
      · intro m hroot
        rcases hinv.root m hroot with (hw | hw) | hd
        · exact .inl (.inl hw)
        · cases hw
          exact .inr hdone
        · exact .inr hd

theorem visitManifest_toVisit (prompts children : Members) {s : Closure} (h : s.pending ≠ []) :
    toVisit children (visitManifest prompts children s) + 1 ≤ toVisit children s := by
  obtain ⟨pending, wanted, missing, reached⟩ := s
  cases pending with
  | nil => exact absurd rfl h
  | cons manifest rest =>
      have hle := visitChildren_toVisit children (membersAt manifest "children")
        ⟨rest, (closureGaps manifest prompts wanted missing).1,
          (closureGaps manifest prompts wanted missing).2, reached⟩
      unfold visitManifest
      dsimp only
      refine (Nat.add_le_add_right hle 1).trans ?_
      unfold toVisit
      dsimp only
      rw [List.length_cons]
      omega

theorem walkManifests_inv {document : Value} (fuel : Nat) {s : Closure}
    (h : WalkInv document none s) :
    WalkInv document none
      (walkManifests (membersAt document "prompts") (membersAt document "children") fuel s) := by
  induction fuel generalizing s with
  | zero => exact h
  | succ fuel ih => exact ih (visitManifest_inv h)

theorem walkManifests_nil (prompts children : Members) (fuel : Nat) {s : Closure}
    (h : s.pending = []) : walkManifests prompts children fuel s = s := by
  induction fuel with
  | zero => rfl
  | succ fuel ih =>
      have hstay : visitManifest prompts children s = s := by
        unfold visitManifest
        rw [h]
      unfold walkManifests
      rw [hstay]
      exact ih

/-- The walk ends. -/
theorem walkManifests_pending (prompts children : Members) {fuel : Nat} {s : Closure}
    (hfuel : toVisit children s ≤ fuel) :
    (walkManifests prompts children fuel s).pending = [] := by
  induction fuel generalizing s with
  | zero =>
      unfold toVisit at hfuel
      exact List.length_eq_zero_iff.mp (by unfold walkManifests; omega)
  | succ fuel ih =>
      by_cases h : s.pending = []
      · rw [walkManifests_nil _ _ _ h]
        exact h
      · have hstep := visitManifest_toVisit prompts children h
        unfold walkManifests
        exact ih (by omega)

/-! ## What an accepted closure says -/

/-- The invariant at the end of the walk, where no manifest waits. -/
theorem closureOf_inv (document : Value) :
    WalkInv document none (closureOf document) ∧ (closureOf document).pending = [] := by
  have hstart : WalkInv document none ⟨(document.get "manifest").toList, [], [], []⟩ := by
    refine ⟨?_, ?_, ?_, ?_⟩
    · intro m hm
      exact .root (Option.mem_toList.mp hm)
    · exact fun _ href => absurd href List.not_mem_nil
    · exact fun _ hk => absurd hk List.not_mem_nil
    · exact fun m hm => .inl (.inl (Option.mem_toList.mpr hm))
  refine ⟨walkManifests_inv _ hstart, walkManifests_pending _ _ ?_⟩
  have hle := Worklist.unseen_le ((membersAt document "children").map Prod.fst) (fun _ => 1) []
  have hroot : (document.get "manifest").toList.length ≤ 1 := by
    cases document.get "manifest" <;> simp
  unfold toVisit
  dsimp only
  simp only [List.map_const', List.sum_replicate, List.length_map, smul_eq_mul, mul_one] at hle
  omega

/-- The closure of a document is exact. -/
structure Exact (document : Value) : Prop where
  /-- Every reachable manifest was processed. -/
  processed : ∀ m, ReachManifest document m →
    Processed (closureOf document).wanted (closureOf document).reached m
  /-- What is wanted was compared with its entry. -/
  wanted : ∀ reference ∈ (closureOf document).wanted, ∃ pin entry, ReachPin document pin
    ∧ pinRef pin = reference ∧ lookup reference (membersAt document "prompts") = some entry
    ∧ digestMatches entry pin = true
    ∧ ∀ b ∈ fragmentPins entry, pinRef b ∈ (closureOf document).wanted
  /-- What is reached was compared with its document. -/
  reached : ∀ childId ∈ (closureOf document).reached, ∃ pin child manifest,
    ChildPin document childId pin ∧ lookup childId (membersAt document "children") = some child
    ∧ child.get "manifest" = some manifest ∧ consistent childId pin child = true
  prompts : ∀ entry ∈ membersAt document "prompts", entry.1 ∈ (closureOf document).wanted
  children : ∀ child ∈ membersAt document "children", child.1 ∈ (closureOf document).reached

/-- **An accepted closure is exact.** -/
theorem checkClosure_exact {document : Value} (h : checkClosure document = .ok ()) :
    Exact document := by
  obtain ⟨hinv, hpending⟩ := closureOf_inv document
  unfold checkClosure at h
  dsimp only at h
  by_cases hexact : (closureOf document).missing = [] ∧ extraEntries document = []
  · obtain ⟨hmissing, hextra⟩ := hexact
    unfold extraEntries at hextra
    obtain ⟨hprompts, hchildren⟩ := List.append_eq_nil_iff.mp hextra
    have hreached : ∀ childId ∈ (closureOf document).reached, ∃ pin child manifest,
        ChildPin document childId pin
        ∧ lookup childId (membersAt document "children") = some child
        ∧ child.get "manifest" = some manifest ∧ consistent childId pin child = true
        ∧ Processed (closureOf document).wanted (closureOf document).reached manifest := by
      intro childId hk
      rcases hinv.reached childId hk with hgap | ⟨pin, child, m, hpin, hchild, hm, hok, hstate⟩
      · rw [hmissing] at hgap
        exact absurd hgap List.not_mem_nil
      · refine ⟨pin, child, m, hpin, hchild, hm, hok, hstate.resolve_left ?_⟩
        rw [hpending]
        simp
    refine ⟨?_, ?_, ?_, ?_, ?_⟩
    · intro m hm
      induction hm with
      | root hroot =>
          refine (hinv.root _ hroot).resolve_left ?_
          rw [hpending]
          simp
      | child hparent hmem hchild hmanifest ih =>
          -- A child of a processed manifest was reached, and its own manifest processed.
          obtain ⟨_, child, m, -, hchild', hm, -, hdone⟩ := hreached _ (ih.2 _ hmem)
          rw [hchild] at hchild'
          cases hchild'
          rw [hmanifest] at hm
          cases hm
          exact hdone
    · intro reference href
      rcases hinv.pinned reference href with hgap | ⟨pin, next, hreach, rfl, hexp, hnext⟩
      · rw [hmissing] at hgap
        exact absurd hgap List.not_mem_nil
      · obtain ⟨entry, hentry, hdigest, rfl⟩ := expandPin_eq_some hexp
        exact ⟨pin, entry, hreach, rfl, hentry, hdigest,
          fun b hb => hnext b (List.mem_reverse.mpr hb)⟩
    · intro childId hk
      obtain ⟨pin, child, m, hpin, hchild, hm, hok, -⟩ := hreached childId hk
      exact ⟨pin, child, m, hpin, hchild, hm, hok⟩
    · intro entry hentry
      by_contra hnot
      have hkept := List.filter_eq_nil_iff.mp (List.map_eq_nil_iff.mp hprompts) entry hentry
      exact hkept (decide_eq_true (.inl hnot))
    · intro child hchild
      by_contra hnot
      have hkept := List.filter_eq_nil_iff.mp hchildren child.1
        (List.mem_map.mpr ⟨child, hchild, rfl⟩)
      exact hkept (decide_eq_true hnot)
  · rw [if_neg hexact] at h
    cases h

/-- The reference of every reachable pin that is an object is wanted. -/
theorem Exact.pinRef_mem {document : Value} (h : Exact document) {pin : Value}
    (hpin : ReachPin document pin) (hobj : pin.isObject = true) :
    pinRef pin ∈ (closureOf document).wanted := by
  cases hpin with
  | slot hm hmem => exact (h.processed _ hm).1 _ (mem_slotPins.mpr ⟨⟨_, hmem⟩, hobj⟩)
  | fragment hparent hentry hmem =>
      -- The entry is wanted, so it was expanded by some pin.
      obtain ⟨_, entry, -, -, hentry', -, hnext⟩ :=
        h.wanted _ (h.prompts _ (lookup_mem hentry))
      rw [hentry] at hentry'
      cases hentry'
      exact hnext _ (mem_fragmentPins.mpr ⟨⟨_, hmem⟩, hobj⟩)

end Agenomic.Prompt
