import Mathlib.Tactic

/-! # Computations that may fail

Rules that take a successful `Except` computation apart: each says what the parts of the computation
must have returned. `Ends` is for what holds of the result in both cases, with a rule for each part
of a computation. -/

namespace Windmill.Lib.Except

open List

universe u v

variable {ε : Type u} {α β : Type v}

variable {x : Except ε α} {f : α → Except ε β} {E : ε → Prop} {P : α → Prop}

lemma bind_eq_ok {b : β} : (x >>= f) = .ok b ↔ ∃ a, x = .ok a ∧ f a = .ok b := by
  cases x with
  | error e | ok a => simp [bind, Except.bind]

lemma map_eq_ok {f : α → β} {b : β} : x.map f = .ok b ↔ ∃ a, x = .ok a ∧ f a = b := by
  cases x with
  | error e | ok a => simp [Except.map]

lemma pure_eq_ok {a b : α} : (pure a : Except ε α) = .ok b ↔ a = b := by simp [pure, Except.pure]

/-- How a computation ends without a value: with an error, or with a panic. -/
inductive Fault (ε : Type u) where
  | err (e : ε)
  | panic

def Ends (E : ε → Prop) (P : α → Prop) : Except ε α → Prop
  | .error e => E e
  | .ok a => P a

lemma Ends.bind {Q : β → Prop} (hx : Ends E P x) (hf : ∀ a, P a → Ends E Q (f a)) :
    Ends E Q (x >>= f) := by
  cases x with
  | error e => exact hx
  | ok a => exact hf a hx

lemma Ends.of_ok {a : α} (hx : Ends E P x) (h : x = .ok a) : P a := by
  rw [h] at hx
  exact hx

lemma Ends.imp {Q : α → Prop} (hx : Ends E P x) (h : ∀ a, P a → Q a) : Ends E Q x := by
  cases x with
  | error e => exact hx
  | ok a => exact h a hx

section

variable {γ δ : Type} {l : List γ} {l' : List δ}

lemma mem_of_forall₂ {R : γ → δ → Prop} (h : Forall₂ R l l') :
    (∀ x ∈ l, ∃ y ∈ l', R x y) ∧ ∀ y ∈ l', ∃ x ∈ l, R x y := by
  induction h with
  | nil => exact ⟨fun _ hx => absurd hx not_mem_nil, fun _ hy => absurd hy not_mem_nil⟩
  | cons hxy _ ih =>
    simp only [forall_mem_cons, exists_mem_cons_iff]
    exact ⟨⟨.inl hxy, fun x hx => .inr (ih.1 x hx)⟩, .inl hxy, fun y hy => .inr (ih.2 y hy)⟩

lemma forall₂_of_mapM_eq_ok {f : γ → Except ε δ} : ∀ {l l'}, l.mapM f = .ok l' →
    Forall₂ (fun x y => f x = .ok y) l l'
  | [], l', h => by
    cases pure_eq_ok.mp h
    exact .nil
  | x :: l, l', h => by
    rw [mapM_cons] at h
    obtain ⟨y, hx, h⟩ := bind_eq_ok.mp h
    obtain ⟨ys, hl, h⟩ := bind_eq_ok.mp h
    cases pure_eq_ok.mp h
    exact .cons hx (forall₂_of_mapM_eq_ok hl)

lemma exists_mapM_eq_ok {f : γ → Except ε δ} : ∀ {l : List γ}, (∀ x ∈ l, ∃ y, f x = .ok y) →
    ∃ l', l.mapM f = .ok l'
  | [], _ => ⟨[], rfl⟩
  | x :: l, h => by
    obtain ⟨⟨y, hy⟩, hl⟩ := forall_mem_cons.mp h
    obtain ⟨ys, hys⟩ := exists_mapM_eq_ok hl
    refine ⟨y :: ys, ?_⟩
    rw [mapM_cons, hy, hys]
    rfl

end

end Windmill.Lib.Except
