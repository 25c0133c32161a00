import Mathlib.Tactic

/-! # Computations with a state and errors

An effect reads and writes a state and may fail; what it has written stays when it fails. `Yields P
m x Q` says that from a state in `P` the computation `m` ends as the pure one `x` does, in a state
in `Q`. The rules follow the structure of the computation. -/

namespace Windmill.Lib.Effect

variable {S ε α β : Type}

abbrev Eff (S ε α : Type) := ExceptT ε (StateM S) α

/-- The result, and the state that is left. -/
def Eff.exec (m : Eff S ε α) (s : S) : Except ε α × S := StateT.run (ExceptT.run m) s

def lift (x : Except ε α) : Eff S ε α := ExceptT.mk (StateT.mk fun s => (x, s))

def onState (f : S → Except ε α × S) : Eff S ε α := ExceptT.mk (StateT.mk f)

@[simp] lemma exec_onState (f : S → Except ε α × S) (s : S) :
    (onState f : Eff S ε α).exec s = f s := rfl

lemma exec_bind (m : Eff S ε α) (f : α → Eff S ε β) (s : S) : (m >>= f).exec s = match m.exec s with
      | (.ok a, t) => (f a).exec t
      | (.error e, t) => (.error e, t) := by
  change StateT.run (ExceptT.run (m >>= f)) s = match StateT.run (ExceptT.run m) s with
    | (.ok a, t) => (f a).exec t
    | (.error e, t) => (.error e, t)
  change (match (StateT.run (ExceptT.run m) s).1 with
    | .ok a => StateT.run (ExceptT.run (f a))
    | .error e => StateT.run (pure (Except.error e))) (StateT.run (ExceptT.run m) s).2 = _
  rcases StateT.run (ExceptT.run m) s with ⟨r, t⟩
  cases r <;> rfl

lemma exec_bind_ok {m : Eff S ε α} {f : α → Eff S ε β} {s : S} {b : β}
    (h : ((m >>= f).exec s).1 = .ok b) :
    ∃ a t, m.exec s = (.ok a, t) ∧ ((f a).exec t).1 = .ok b := by
  rw [exec_bind] at h
  rcases hm : m.exec s with ⟨r, t⟩
  rw [hm] at h
  cases r with
  | error e => cases h
  | ok a => exact ⟨a, t, rfl, h⟩

/-- From `P`, the computation ends as `x` does, in `Q`. -/
def Yields (P : S → Prop) (m : Eff S ε α) (x : Except ε α) (Q : S → Prop) : Prop :=
  ∀ s, P s → (m.exec s).1 = x ∧ Q (m.exec s).2

variable {P Q R : S → Prop}

lemma yields_lift (x : Except ε α) : Yields P (lift x) x P := fun _ hs => ⟨rfl, hs⟩

lemma yields_pure (a : α) : Yields P (pure a : Eff S ε α) (pure a) P := fun _ hs => ⟨rfl, hs⟩

/-- **Sequencing.** A failure leaves a state in `Q`. -/
theorem Yields.bind {m : Eff S ε α} {x : Except ε α} {f : α → Eff S ε β} {g : α → Except ε β}
    (hm : Yields P m x Q) (hf : ∀ a, x = .ok a → Yields Q (f a) (g a) R) (hQR : ∀ s, Q s → R s) :
    Yields P (m >>= f) (x >>= g) R := by
  intro s hs
  obtain ⟨hx, hQ⟩ := hm s hs
  rw [exec_bind]
  rcases hm : m.exec s with ⟨r, t⟩
  rw [hm] at hx hQ
  subst hx
  cases r with
  | error e => exact ⟨rfl, hQR t hQ⟩
  | ok a => exact hf a rfl t hQ

end Windmill.Lib.Effect
