import Mathlib.Data.List.Basic

/-!
# Trees with symbolic links

Files and directories stand at paths of names, and a link stands for a path of its own: from the
top of the tree or from where the link is, with parts that lead up. A path is followed part by
part. Every link on the way is followed too, up to a number of links in all, and what is missing
at the end is where a file would be created.

A path that is followed to its end can be gone on from there (**`walk_append`**), so what becomes of
a longer path is decided where its beginning leads.
-/

namespace Lib

inductive PathPart (ν : Type) where
  | here
  | up
  | name (n : ν)
  deriving DecidableEq, Repr

structure LinkTarget (ν : Type) where
  absolute : Bool
  parts : List (PathPart ν)
  deriving DecidableEq, Repr

inductive LinkNode (ν : Type) where
  | directory
  | file
  | link (target : LinkTarget ν)
  deriving DecidableEq, Repr

/-- What stands at each path; above everything is a directory. -/
structure LinkTree (ν : Type) where
  nodeAt : List ν → Option (LinkNode ν)
  root : nodeAt [] = some .directory
  parent : ∀ path n, nodeAt (path ++ [n]) ≠ none → nodeAt path = some .directory

/-- Where a path leads. -/
inductive PathEnd (ν : Type) where
  /-- Something stands there, and so many more links may be followed. -/
  | found (path : List ν) (left : Nat)
  /-- Nothing stands there. -/
  | missing (path : List ν)
  /-- What stands there is no directory, and the path goes on. -/
  | blocked (path : List ν)
  | tooManyLinks
  deriving DecidableEq, Repr

variable {ν : Type}

/-- Go on from where a path leads. -/
def PathEnd.goOn (follow : Nat → List ν → PathEnd ν) : PathEnd ν → PathEnd ν
  | .found place left => follow left place
  | e => e

/-- The place that a file is opened or created at, or where the way to it ends. -/
def PathEnd.place : PathEnd ν → Option (List ν)
  | .found path _ => some path
  | .missing path => some path
  | .blocked path => some path
  | .tooManyLinks => none

namespace LinkTree

variable (t : LinkTree ν)

/-- Follow the parts of a path from a place; `follow` goes on behind a link. -/
def walkParts (left : Nat) (follow : List ν → List (PathPart ν) → PathEnd ν) :
    List ν → List (PathPart ν) → PathEnd ν
  | place, [] => .found place left
  | place, part :: rest =>
      match t.nodeAt place with
      | some .directory =>
          match part with
          | .here => walkParts left follow place rest
          | .up => walkParts left follow place.dropLast rest
          | .name n =>
              match t.nodeAt (place ++ [n]) with
              | none => .missing (place ++ [n])
              | some (.link target) =>
                  follow (if target.absolute then [] else place) (target.parts ++ rest)
              | some _ => walkParts left follow (place ++ [n]) rest
      | _ => .blocked place

/-- Follow a path with so many links. -/
def walk : Nat → List ν → List (PathPart ν) → PathEnd ν
  | 0 => t.walkParts 0 fun _ _ => .tooManyLinks
  | left + 1 => t.walkParts (left + 1) (walk left)

theorem walk_nil (left : Nat) (place : List ν) : t.walk left place [] = .found place left := by
  cases left <;> rfl

theorem walkParts_append {left : Nat} {follow : List ν → List (PathPart ν) → PathEnd ν}
    {rest : List (PathPart ν)}
    (hleft : ∀ place, t.walkParts left follow place rest = t.walk left place rest)
    (hfollow : ∀ place parts, follow place (parts ++ rest)
      = PathEnd.goOn (fun left place => t.walk left place rest) (follow place parts)) :
    ∀ (parts : List (PathPart ν)) (place : List ν),
      t.walkParts left follow place (parts ++ rest)
        = PathEnd.goOn (fun left place => t.walk left place rest)
            (t.walkParts left follow place parts)
  | [], place => hleft place
  | part :: parts, place => by
      have ih := walkParts_append hleft hfollow parts
      rw [List.cons_append]
      unfold walkParts
      cases t.nodeAt place with
      | none => rfl
      | some node =>
          cases node with
          | file => rfl
          | link target => rfl
          | directory =>
              cases part with
              | here => exact ih place
              | up => exact ih place.dropLast
              | name n =>
                  dsimp only
                  cases t.nodeAt (place ++ [n]) with
                  | none => rfl
                  | some entry =>
                      cases entry with
                      | link target =>
                          dsimp only
                          rw [← List.append_assoc, hfollow]
                      | file => exact ih (place ++ [n])
                      | directory => exact ih (place ++ [n])

/-- **A path goes on from where its beginning leads.** -/
theorem walk_append (rest : List (PathPart ν)) : ∀ (left : Nat) (place : List ν)
    (parts : List (PathPart ν)), t.walk left place (parts ++ rest)
      = PathEnd.goOn (fun left place => t.walk left place rest) (t.walk left place parts)
  | 0, place, parts => by
      have hleft : ∀ place, t.walkParts 0 (fun _ _ => .tooManyLinks) place rest
          = t.walk 0 place rest := fun _ => rfl
      exact walkParts_append t hleft (fun _ _ => rfl) parts place
  | left + 1, place, parts => by
      have hleft : ∀ place, t.walkParts (left + 1) (t.walk left) place rest
          = t.walk (left + 1) place rest := fun _ => rfl
      exact walkParts_append t hleft (fun place parts => walk_append rest left place parts) parts
        place

/-! ## What is found stands there -/

theorem nodeAt_dropLast {place : List ν} (h : t.nodeAt place ≠ none) :
    t.nodeAt place.dropLast ≠ none := by
  rcases List.eq_nil_or_concat place with rfl | ⟨init, n, rfl⟩
  · exact h
  · rw [List.concat_eq_append, List.dropLast_concat]
    rw [List.concat_eq_append] at h
    rw [t.parent init n h]
    exact Option.some_ne_none _

theorem walkParts_found {left : Nat} {follow : List ν → List (PathPart ν) → PathEnd ν}
    {path : List ν} {last : Nat}
    (hfollow : ∀ place parts, t.nodeAt place ≠ none → follow place parts = .found path last →
      t.nodeAt path ≠ none) :
    ∀ {parts : List (PathPart ν)} {place : List ν}, t.nodeAt place ≠ none →
      t.walkParts left follow place parts = .found path last → t.nodeAt path ≠ none
  | [], place, hplace, h => by
      cases h
      exact hplace
  | part :: rest, place, hplace, h => by
      unfold walkParts at h
      split at h
      · rename_i hdir
        split at h
        · exact walkParts_found hfollow hplace h
        · exact walkParts_found hfollow (t.nodeAt_dropLast hplace) h
        · rename_i n
          split at h
          · cases h
          · refine hfollow _ _ ?_ h
            split
            · rw [t.root]
              exact Option.some_ne_none _
            · exact hplace
          · rename_i node _ hnode
            exact walkParts_found hfollow (by rw [hnode]; exact Option.some_ne_none _) h
      · cases h

theorem walk_found : ∀ {left : Nat} {place path : List ν} {parts : List (PathPart ν)} {last : Nat},
    t.nodeAt place ≠ none → t.walk left place parts = .found path last → t.nodeAt path ≠ none
  | 0, _, _, _, _, hplace, h => t.walkParts_found (fun _ _ _ hf => by cases hf) hplace h
  | _ + 1, _, _, _, _, hplace, h =>
      t.walkParts_found (fun _ _ hp hf => walk_found hp hf) hplace h

/-! ## Paths of names from the top -/

/-- Follow a path of names from the top. -/
def follow (links : Nat) (path : List ν) : PathEnd ν := t.walk links [] (path.map .name)

/-- Where a path leads, if something stands there. -/
def realpath (links : Nat) (path : List ν) : Option (List ν) :=
  match t.follow links path with
  | .found place _ => some place
  | _ => none

theorem realpath_eq_some {links : Nat} {path place : List ν} :
    t.realpath links path = some place ↔ ∃ left, t.follow links path = .found place left := by
  unfold realpath
  cases t.follow links path <;> simp

theorem realpath_eq_none {links : Nat} {path : List ν} :
    t.realpath links path = none ↔ ∀ place left, t.follow links path ≠ .found place left := by
  unfold realpath
  cases t.follow links path <;> simp

theorem realpath_nil (links : Nat) : t.realpath links [] = some [] := by
  rw [realpath_eq_some]
  exact ⟨links, t.walk_nil links []⟩

theorem nodeAt_realpath {links : Nat} {path place : List ν}
    (h : t.realpath links path = some place) : t.nodeAt place ≠ none := by
  obtain ⟨left, hfound⟩ := t.realpath_eq_some.mp h
  exact t.walk_found (by rw [t.root]; exact Option.some_ne_none _) hfound

theorem follow_append (links : Nat) (path rest : List ν) :
    t.follow links (path ++ rest)
      = PathEnd.goOn (fun left place => t.walk left place (rest.map .name))
          (t.follow links path) := by
  unfold follow
  rw [List.map_append, walk_append]

/-- What is above something that exists exists. -/
theorem realpath_of_append {links : Nat} {path rest place : List ν}
    (h : t.realpath links (path ++ rest) = some place) :
    ∃ above, t.realpath links path = some above := by
  obtain ⟨left, hfound⟩ := t.realpath_eq_some.mp h
  rw [follow_append] at hfound
  cases hpath : t.follow links path with
  | found above n => exact ⟨above, t.realpath_eq_some.mpr ⟨n, hpath⟩⟩
  | missing p => rw [hpath] at hfound; cases hfound
  | blocked p => rw [hpath] at hfound; cases hfound
  | tooManyLinks => rw [hpath] at hfound; cases hfound

/-- There is a link at a place. -/
def IsLink (place : List ν) : Prop := ∃ target, t.nodeAt place = some (.link target)

/-- A path that stops existing behind a place which is no link ends at that place or below it. -/
theorem place_of_stops {links : Nat} {path rest place : List ν} {n : ν}
    (hpath : t.realpath links path = some place)
    (hnext : t.realpath links (path ++ [n]) = none) (hlink : ¬ t.IsLink (place ++ [n])) :
    (t.follow links (path ++ n :: rest)).place = some place
      ∨ (t.follow links (path ++ n :: rest)).place = some (place ++ [n])
        ∧ t.nodeAt (place ++ [n]) = none := by
  obtain ⟨left, hfound⟩ := t.realpath_eq_some.mp hpath
  have hmore : ∀ rest : List ν, t.follow links (path ++ n :: rest)
      = t.walk left place (.name n :: rest.map .name) := by
    intro rest
    rw [follow_append, hfound]
    rfl
  have hparts : ∀ rest : List ν, ∃ f, t.follow links (path ++ n :: rest)
      = t.walkParts left f place (.name n :: rest.map .name) := by
    intro rest
    rw [hmore]
    cases left with
    | zero => exact ⟨_, rfl⟩
    | succ left => exact ⟨_, rfl⟩
  obtain ⟨f, hf⟩ := hparts rest
  obtain ⟨f', hf'⟩ := hparts []
  rw [hf]
  unfold walkParts at hf' ⊢
  cases hdir : t.nodeAt place with
  | none => exact .inl rfl
  | some node =>
      cases node with
      | file => exact .inl rfl
      | link target => exact .inl rfl
      | directory =>
          dsimp only
          rw [hdir] at hf'
          dsimp only at hf'
          cases hnode : t.nodeAt (place ++ [n]) with
          | none => exact .inr ⟨rfl, rfl⟩
          | some entry =>
              rw [hnode] at hf'
              cases entry with
              | link target => exact absurd ⟨target, hnode⟩ hlink
              | file => exact absurd hf' (t.realpath_eq_none.mp hnext _ _)
              | directory => exact absurd hf' (t.realpath_eq_none.mp hnext _ _)

end LinkTree

end Lib
