import Mathlib.Tactic

/-! # Runs of a partial step function

A machine is a function `step : S → A → Option S`, undefined where an action is not enabled. `run`
takes a list of actions, `Meets` says that every action of a run meets a condition in the state in
which it is taken, and `run_invariant` is the rule by which an invariant of single steps becomes one
of runs. -/

namespace Windmill.Lib.Run

universe u v

variable {S : Type u} {A : Type v} {step : S → A → Option S} {C : S → A → Prop} {as : List A}

/-- The state after the actions, if all are possible. -/
def run (step : S → A → Option S) : List A → S → Option S
  | [], s => some s
  | a :: as, s => match step s a with
    | some s' => run step as s'
    | none => none

/-- Every action of the run meets the condition `C` where it is taken. -/
def Meets (step : S → A → Option S) (C : S → A → Prop) : List A → S → Prop
  | [], _ => True
  | a :: as, s => C s a ∧ ∀ s', step s a = some s' → Meets step C as s'

variable {a : A} {s t s' : S} {I : S → Prop}

lemma run_cons (h : run step (a :: as) s = some t) :
    ∃ s', step s a = some s' ∧ run step as s' = some t := by
  unfold run at h
  cases hs : step s a with
  | none => simp [hs] at h
  | some s' => rw [hs] at h; exact ⟨s', rfl, h⟩

lemma run_of_step (h : step s a = some s') : run step (a :: as) s = run step as s' := by rw [run, h]

lemma meets_cons (hC : C s a) (hs : step s a = some s') (h : Meets step C as s') :
    Meets step C (a :: as) s :=
  ⟨hC, fun t ht => by
    rw [hs] at ht
    cases ht
    exact h⟩

lemma meets_of_forall (hC : ∀ s a, C s a) : ∀ as s, Meets step C as s
  | [], _ => trivial
  | a :: as, s => ⟨hC s a, fun s' _ => meets_of_forall hC as s'⟩

/-- **An invariant kept by every step that meets the condition holds after every run of such
steps.** -/
theorem run_invariant (hstep : ∀ {s a s'}, I s → C s a → step s a = some s' → I s') :
    ∀ {as s t}, I s → Meets step C as s → run step as s = some t → I t
  | [], s, t, hI, _, h => by
    cases h
    exact hI
  | a :: as, s, t, hI, hC, h => by
    obtain ⟨s', hs, hrun⟩ := run_cons h
    exact run_invariant hstep (hstep hI hC.1 hs) (hC.2 s' hs) hrun

lemma run_preserves (hstep : ∀ {s a s'}, I s → step s a = some s' → I s') (hI : I s)
    (h : run step as s = some t) : I t :=
  run_invariant (fun hI _ hs => hstep hI hs) hI (meets_of_forall (fun _ _ => trivial) as s) h

/-- **An invariant of a state together with the actions that led to it**, for runs of actions that
are all in `P`. -/
theorem run_history {P : A → Prop} {I : List A → S → Prop}
    (hstep : ∀ {as u a v}, I as u → P a → step u a = some v → I (as ++ [a]) v) :
    ∀ {as pre s t}, I pre s → (∀ a ∈ as, P a) → run step as s = some t → I (pre ++ as) t
  | [], pre, s, t, hI, _, h => by
    cases h
    rwa [List.append_nil]
  | a :: as, pre, s, t, hI, hP, h => by
    obtain ⟨s', hs, hrun⟩ := run_cons h
    have hnext := hstep hI (hP a List.mem_cons_self) hs
    have htail := run_history hstep hnext (fun b hb => hP b (List.mem_cons_of_mem _ hb)) hrun
    rwa [List.append_assoc] at htail

end Windmill.Lib.Run
