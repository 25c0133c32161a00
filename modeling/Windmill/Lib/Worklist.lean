import Mathlib.Logic.Relation
import Mathlib.Tactic.Common

/-! # Search with a work list

Elements are taken from a queue and expanded once each: `expand` changes a state and says what to
push. `marked_run_iff` is the rule for a state that marks what has been found. -/

namespace Windmill.Lib.Worklist

open List Relation

variable {α σ : Type} [DecidableEq α] {univ queue visited : List α} {a : α}

omit [DecidableEq α] in
lemma length_filter_lt {l : List α} {p q : α → Bool} (h : ∀ x, p x = true → q x = true) (ha : a ∈ l)
    (hq : q a = true) (hp : ¬p a = true) : (l.filter p).length < (l.filter q).length := by
  have hsub : l.filter p = (l.filter q).filter p := by
    rw [filter_filter]
    exact filter_congr fun x _ => Bool.eq_iff_iff.mpr (by simpa using h x)
  rw [hsub, length_filter_lt_length_iff_exists]
  exact ⟨a, mem_filter.mpr ⟨ha, hq⟩, hp⟩

lemma unvisited_eq (ha : a ∉ univ) : univ.filter (· ∉ a :: visited) = univ.filter (· ∉ visited) :=
  filter_congr fun x hx => by simp [ne_of_mem_of_not_mem hx ha]

/-- The loop. What is not in `univ` is taken from the queue and not expanded. -/
def run (univ : List α) (expand : α → σ → σ × List α) (queue visited : List α) (s : σ) : σ :=
  match queue with
  | [] => s
  | a :: queue =>
    if a ∈ visited then run univ expand queue visited s
    else if a ∈ univ then run univ expand (queue ++ (expand a s).2) (a :: visited) (expand a s).1
    else run univ expand queue (a :: visited) s
termination_by ((univ.filter (· ∉ visited)).length, queue.length)
decreasing_by
  · exact .right _ (Nat.lt_succ_self _)
  · exact .left _ _ (length_filter_lt (fun x => by simp) ‹_› (by simpa) (by simp))
  · rw [unvisited_eq ‹_›]
    exact .right _ (Nat.lt_succ_self _)

/-- An invariant of the queue and the state, which an element that is dropped and one that is
expanded keep. -/
lemma run_induct {expand s} {I : List α → σ → Prop}
    (hdrop : ∀ a queue s, I (a :: queue) s → I queue s)
    (hexpand : ∀ a queue s, I (a :: queue) s → I (queue ++ (expand a s).2) (expand a s).1)
    (h : I queue s) : I [] (run univ expand queue visited s) := by
  fun_induction run univ expand queue visited s with
  | case1 => exact h
  | case2 _ _ _ _ _ ih | case4 _ _ _ _ _ _ ih => exact ih (hdrop _ _ _ h)
  | case3 _ _ _ _ _ _ ih => exact ih (hexpand _ _ _ h)

section

variable {expand : α → σ → σ × List α} {succ : α → List α} {marked : σ → α → Prop} {queue₀ : List α}
  {s₀ s : σ} {y : α}

structure Inv (univ : List α) (succ : α → List α) (marked : σ → α → Prop) (queue₀ : List α) (s₀ : σ)
    (queue visited : List α) (s : σ) : Prop where
  reach : ∀ x ∈ queue, ∃ x₀ ∈ queue₀, ReflTransGen (fun a b => a ∈ univ ∧ b ∈ succ a) x₀ x
  sound : ∀ y, marked s y → marked s₀ y ∨ ∃ x₀ ∈ queue₀,
    TransGen (fun a b => a ∈ univ ∧ b ∈ succ a) x₀ y
  kept : ∀ y, marked s₀ y → marked s y
  seen : ∀ y, marked s y ∨ y ∈ queue₀ → y ∈ queue ∨ y ∈ visited
  closed : ∀ a ∈ visited, a ∈ univ → ∀ y ∈ succ a, marked s y

variable (hmark : ∀ a s y, marked (expand a s).1 y ↔ marked s y ∨ y ∈ succ a)
  (hpush : ∀ a s y, y ∈ (expand a s).2 → y ∈ succ a)
  (hnew : ∀ a s y, marked (expand a s).1 y → marked s y ∨ y ∈ (expand a s).2)

include hmark hpush hnew

omit [DecidableEq α] in
lemma Inv.visit (h : Inv univ succ marked queue₀ s₀ (a :: queue) visited s) (ha : a ∈ univ) :
    Inv univ succ marked queue₀ s₀ (queue ++ (expand a s).2) (a :: visited) (expand a s).1 := by
  obtain ⟨x₀, hx₀, hreach⟩ := h.reach a mem_cons_self
  refine ⟨fun x hx => ?_, fun y hy => ?_, fun y hy => (hmark a s y).mpr (.inl (h.kept y hy)),
    fun y hy => ?_, ?_⟩
  · rcases mem_append.mp hx with hx | hx
    · exact h.reach x (mem_cons_of_mem a hx)
    · exact ⟨x₀, hx₀, hreach.tail ⟨ha, hpush a s x hx⟩⟩
  · rcases (hmark a s y).mp hy with hy | hy
    · exact h.sound y hy
    · exact .inr ⟨x₀, hx₀, TransGen.tail' hreach ⟨ha, hy⟩⟩
  · have hold : marked s y ∨ y ∈ queue₀ → y ∈ queue ++ (expand a s).2 ∨ y ∈ a :: visited :=
      fun hy => by
      have := h.seen y hy
      simp only [mem_cons, mem_append] at this ⊢
      tauto
    rcases hy with hy | hy
    · exact (hnew a s y hy).elim (fun hy => hold (.inl hy)) fun hy =>
        .inl (mem_append_right queue hy)
    · exact hold (.inr hy)
  · refine forall_mem_cons.mpr ⟨fun _ y hy => (hmark a s y).mpr (.inr hy), fun b hb hu y hy => ?_⟩
    exact (hmark a s y).mpr (.inl (h.closed b hb hu y hy))

lemma exists_inv_run (h : Inv univ succ marked queue₀ s₀ queue visited s) :
    ∃ visited', Inv univ succ marked queue₀ s₀ [] visited' (run univ expand queue visited s) := by
  fun_induction run univ expand queue visited s with
  | case1 visited s => exact ⟨visited, h⟩
  | case2 visited s a queue hv ih =>
    refine ih ⟨fun x hx => h.reach x (mem_cons_of_mem a hx), h.sound, h.kept, fun y hy => ?_,
      h.closed⟩
    rcases h.seen y hy with hy | hy
    · rcases mem_cons.mp hy with rfl | hy
      · exact .inr hv
      · exact .inl hy
    · exact .inr hy
  | case3 visited s a queue hv ha ih => exact ih (h.visit hmark hpush hnew ha)
  | case4 visited s a queue hv ha ih =>
    refine ih ⟨fun x hx => h.reach x (mem_cons_of_mem a hx), h.sound, h.kept, fun y hy => ?_, ?_⟩
    · have := h.seen y hy
      simp only [mem_cons] at this ⊢
      tauto
    · exact forall_mem_cons.mpr ⟨fun hu => absurd hu ha, h.closed⟩

variable (succ marked) in
/-- **The search marks what can be reached** from the queue. -/
theorem marked_run_iff (hstart : ∀ y, marked s₀ y → y ∈ queue₀) :
    marked (run univ expand queue₀ [] s₀) y ↔
    marked s₀ y ∨ ∃ x ∈ queue₀, TransGen (fun a b => a ∈ univ ∧ b ∈ succ a) x y := by
  have hinit : Inv univ succ marked queue₀ s₀ queue₀ [] s₀ :=
    ⟨fun x hx => ⟨x, hx, .refl⟩, fun y hy => .inl hy, fun y hy => hy, fun y hy =>
      .inl (hy.elim (hstart y) id), fun a ha => absurd ha not_mem_nil⟩
  obtain ⟨visited, h⟩ := exists_inv_run hmark hpush hnew hinit
  have hvisited : ∀ y, marked (run univ expand queue₀ [] s₀) y ∨ y ∈ queue₀ → y ∈ visited :=
    fun y hy =>
    (h.seen y hy).resolve_left not_mem_nil
  refine ⟨h.sound y, ?_⟩
  rintro (hy | ⟨x, hx, hxy⟩)
  · exact h.kept y hy
  induction hxy with
  | single hxy => exact h.closed x (hvisited x (.inr hx)) hxy.1 _ hxy.2
  | tail _ hbc ih => exact h.closed _ (hvisited _ (.inl ih)) hbc.1 _ hbc.2

end

end Windmill.Lib.Worklist
