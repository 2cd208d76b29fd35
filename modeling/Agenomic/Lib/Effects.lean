import Mathlib

/-!
# Programs that can fail and crash

A program works on a state and ends with a value, with an error its caller sees, or
by a crash that nobody in the program sees. `Prog.attempt` turns an error into a
value; nothing turns a crash into one.

`Prog.Ends m post s` says that `m`, started in `s`, ends as `post` allows, for each
of the three ways to end. The rules below follow the program text: one for each
way to build a program, and `Ends.mono` to weaken what is known of a part to what
the rest needs.
-/

namespace Lib

variable {σ ε α β : Type}

/-- How a program ends, and the state it leaves. -/
inductive Ended (σ ε α : Type) where
  | ok (a : α) (s : σ)
  | error (e : ε) (s : σ)
  | crash (s : σ)

/-- A program over a state. -/
def Prog (σ ε α : Type) : Type := σ → Ended σ ε α

/-- What is asked of each way to end. -/
structure Post (σ ε α : Type) where
  ok : α → σ → Prop
  error : ε → σ → Prop
  crash : σ → Prop

namespace Prog

instance : Monad (Prog σ ε) where
  pure a := fun s => .ok a s
  bind m f := fun s => match m s with
    | .ok a s => f a s
    | .error e s => .error e s
    | .crash s => .crash s

theorem bind_def (m : Prog σ ε α) (f : α → Prog σ ε β) (s : σ) : (m >>= f) s = match m s with
    | .ok a s => f a s
    | .error e s => .error e s
    | .crash s => .crash s := rfl

instance : LawfulMonad (Prog σ ε) := LawfulMonad.mk' _
  (fun {_} m => by
    funext s
    show (m >>= pure) s = m s
    rw [bind_def]
    cases m s <;> rfl)
  (fun {_ _} _ _ => rfl)
  (fun {_ _ _} m f g => by
    funext s
    rw [bind_def, bind_def, bind_def]
    cases m s <;> rfl)

/-- Fail. -/
def throw (e : ε) : Prog σ ε α := fun s => .error e s

/-- Stop dead. -/
def crash : Prog σ ε α := fun s => .crash s

/-- Look at the state. -/
def get : Prog σ ε σ := fun s => .ok s s

/-- Change the state. -/
def modify (f : σ → σ) : Prog σ ε Unit := fun s => .ok () (f s)

/-- The value or the error of a result. -/
def ofExcept : Except ε α → Prog σ ε α
  | .ok a => pure a
  | .error e => throw e

/-- Run a program and hand back its error as a value. -/
def attempt (m : Prog σ ε α) : Prog σ ε (Except ε α) := fun s => match m s with
  | .ok a s => .ok (.ok a) s
  | .error e s => .ok (.error e) s
  | .crash s => .crash s

/-- From this state, the program ends as the postcondition allows. -/
def Ends (m : Prog σ ε α) (post : Post σ ε α) (s : σ) : Prop :=
  match m s with
  | .ok a s => post.ok a s
  | .error e s => post.error e s
  | .crash s => post.crash s

/-! ## One rule for each way to build a program -/

variable {m : Prog σ ε α} {f : α → Prog σ ε β} {s : σ}

@[simp] theorem ends_pure {post : Post σ ε α} {a : α} :
    Ends (pure a) post s ↔ post.ok a s := Iff.rfl

@[simp] theorem ends_throw {post : Post σ ε α} {e : ε} :
    Ends (throw e) post s ↔ post.error e s := Iff.rfl

@[simp] theorem ends_crash {post : Post σ ε α} : Ends crash post s ↔ post.crash s := Iff.rfl

@[simp] theorem ends_get {post : Post σ ε σ} : Ends get post s ↔ post.ok s s := Iff.rfl

@[simp] theorem ends_modify {post : Post σ ε Unit} {g : σ → σ} :
    Ends (modify g) post s ↔ post.ok () (g s) := Iff.rfl

/-- The first part must end where the second can start. -/
@[simp] theorem ends_bind {post : Post σ ε β} :
    Ends (m >>= f) post s ↔ Ends m ⟨fun a s => Ends (f a) post s, post.error, post.crash⟩ s := by
  unfold Ends
  show (match (match m s with
      | .ok a s => f a s
      | .error e s => .error e s
      | .crash s => .crash s) with
    | .ok a s => post.ok a s
    | .error e s => post.error e s
    | .crash s => post.crash s) ↔ _
  cases m s <;> rfl

@[simp] theorem ends_attempt {post : Post σ ε (Except ε α)} :
    Ends (attempt m) post s
      ↔ Ends m ⟨fun a => post.ok (.ok a), fun e => post.ok (.error e), post.crash⟩ s := by
  unfold Ends attempt
  cases m s <;> rfl

@[simp] theorem ends_ofExcept_ok {post : Post σ ε α} {a : α} :
    Ends (ofExcept (.ok a)) post s ↔ post.ok a s := Iff.rfl

@[simp] theorem ends_ofExcept_error {post : Post σ ε α} {e : ε} :
    Ends (ofExcept (.error e)) post s ↔ post.error e s := Iff.rfl

/-- Weaken what is known of a program to what is asked of it. -/
theorem Ends.mono {post post' : Post σ ε α} (h : Ends m post s)
    (hok : ∀ a s', post.ok a s' → post'.ok a s')
    (herror : ∀ e s', post.error e s' → post'.error e s')
    (hcrash : ∀ s', post.crash s' → post'.crash s') : Ends m post' s := by
  unfold Ends at h ⊢
  cases hm : m s with
  | ok a s' => rw [hm] at h; exact hok a s' h
  | error e s' => rw [hm] at h; exact herror e s' h
  | crash s' => rw [hm] at h; exact hcrash s' h

/-- Two things known of a program are known together. -/
theorem Ends.and {post post' : Post σ ε α} (h : Ends m post s) (h' : Ends m post' s) :
    Ends m ⟨fun a s => post.ok a s ∧ post'.ok a s, fun e s => post.error e s ∧ post'.error e s,
      fun s => post.crash s ∧ post'.crash s⟩ s := by
  unfold Ends at h h' ⊢
  cases hm : m s with
  | ok a s' => rw [hm] at h h'; exact ⟨h, h'⟩
  | error e s' => rw [hm] at h h'; exact ⟨h, h'⟩
  | crash s' => rw [hm] at h h'; exact ⟨h, h'⟩

/-! ## What a program keeps -/

/-- However it ends, the program leaves what holds before it in place. -/
def Keeps (inv : σ → Prop) (m : Prog σ ε α) : Prop :=
  ∀ s, inv s → Ends m ⟨fun _ => inv, fun _ => inv, inv⟩ s

variable {inv : σ → Prop}

theorem keeps_pure (a : α) : Keeps (ε := ε) inv (pure a) := fun _ h => h

theorem keeps_throw (e : ε) : Keeps inv (throw e : Prog σ ε α) := fun _ h => h

theorem keeps_get : Keeps inv (get : Prog σ ε σ) := fun _ h => h

theorem keeps_modify {g : σ → σ} (h : ∀ s, inv s → inv (g s)) :
    Keeps inv (modify g : Prog σ ε Unit) := h

theorem keeps_ofExcept (r : Except ε α) : Keeps inv (ofExcept r : Prog σ ε α) := by
  intro s hs
  cases r with
  | ok a => exact hs
  | error e => exact hs

/-- What both parts keep, their sequence keeps. -/
theorem Keeps.bind (hm : Keeps inv m) (hf : ∀ a, Keeps inv (f a)) : Keeps inv (m >>= f) := by
  intro s hs
  rw [ends_bind]
  exact (hm s hs).mono (fun a s' hs' => hf a s' hs') (fun _ _ h => h) (fun _ h => h)

theorem Keeps.attempt (hm : Keeps inv m) : Keeps inv (attempt m) := by
  intro s hs
  rw [ends_attempt]
  exact hm s hs

end Prog

end Lib
