import Mathlib.Tactic

/-! # A throttle by tickets

Of `n` items at most `p` may be active at a time. The item `i` holds the ticket `i + 1 - p`; those
with ticket `0` are released at once. The `k`-th completion releases the item with ticket `k`, at
some later time: until then the release is due. -/

namespace Windmill.Lib.Throttle

open List

/-- The completion that releases the item `i`. -/
def ticket (p i : ℕ) : ℕ := i + 1 - p

/-- The item `i` is released after `c` completions, of which some have their release due. -/
def Released (p c : ℕ) (due : List ℕ) (i : ℕ) : Prop := ticket p i ≤ c ∧ ticket p i ∉ due

instance (p c : ℕ) (due : List ℕ) (i : ℕ) : Decidable (Released p c due i) := by
  unfold Released
  infer_instance

/-- The ticket that an item still waits for, `0` if it is released. -/
def waiting (p c : ℕ) (due : List ℕ) (i : ℕ) : ℕ := if Released p c due i then 0 else ticket p i

variable {n p c : ℕ} {due : List ℕ}

lemma waiting_eq_zero_iff (hdue : 0 ∉ due) {i : ℕ} : waiting p c due i = 0 ↔
    Released p c due i := by
  unfold waiting
  split_ifs with h
  · simp [h]
  · refine ⟨fun h0 => ?_, fun h' => absurd h' h⟩
    refine absurd ⟨?_, ?_⟩ h
    · rw [h0]; exact Nat.zero_le c
    · rw [h0]; exact hdue

lemma waiting_zero (i : ℕ) : waiting p 0 [] i = ticket p i := by
  unfold waiting
  split_ifs with h
  · exact (Nat.le_zero.mp h.1).symm
  · rfl

lemma waiting_complete (i : ℕ) : waiting p (c + 1) (due ++ [c + 1]) i = waiting p c due i := by
  have h : Released p (c + 1) (due ++ [c + 1]) i ↔ Released p c due i := by
    unfold Released
    rw [mem_append, mem_singleton]
    constructor
    · rintro ⟨hle, hnot⟩
      rw [not_or] at hnot
      exact ⟨by omega, hnot.1⟩
    · rintro ⟨hle, hnot⟩
      exact ⟨by omega, by rw [not_or]; exact ⟨hnot, by omega⟩⟩
  unfold waiting
  simp only [h]

lemma waiting_last (hp : 1 ≤ p) {i : ℕ} (hi : i < c + 1) :
    waiting p (c + 1) due i = waiting p c due i := by
  have h : Released p (c + 1) due i ↔ Released p c due i := by
    unfold Released ticket
    constructor
    · exact fun h => ⟨by omega, h.2⟩
    · exact fun h => ⟨by omega, h.2⟩
  unfold waiting
  simp only [h]

lemma waiting_release (hnd : due.Nodup) (hle : ∀ k ∈ due, 1 ≤ k ∧ k ≤ c) {j k : ℕ}
    (hj : due[j]? = some k)
    (i : ℕ) : waiting p c (due.eraseIdx j) i = if waiting p c due i = k then 0
    else waiting p c due i := by
  obtain ⟨hk1, hkc⟩ := hle k (mem_of_getElem? hj)
  have hmem : ∀ t, t ∈ due.eraseIdx j ↔ t ∈ due ∧ t ≠ k := by
    intro t
    obtain ⟨hlt, hget⟩ := List.getElem?_eq_some_iff.mp hj
    have hperm := getElem_cons_eraseIdx_perm hlt
    rw [hget] at hperm
    have hnot : k ∉ due.eraseIdx j := (nodup_cons.mp (hperm.nodup_iff.mpr hnd)).1
    rw [← hperm.mem_iff, mem_cons]
    constructor
    · intro ht
      exact ⟨.inr ht, fun heq => hnot (heq ▸ ht)⟩
    · rintro ⟨rfl | ht, hne⟩
      · exact absurd rfl hne
      · exact ht
  have hrel : Released p c (due.eraseIdx j) i ↔ Released p c due i ∨ ticket p i = k := by
    unfold Released
    rw [hmem]
    constructor
    · rintro ⟨hle, hnot⟩
      by_cases ht : ticket p i = k
      · exact .inr ht
      · exact .inl ⟨hle, fun hin => hnot ⟨hin, ht⟩⟩
    · rintro (⟨hle, hnot⟩ | ht)
      · exact ⟨hle, fun hin => hnot hin.1⟩
      · exact ⟨by omega, fun hin => hin.2 ht⟩
  unfold waiting
  by_cases hr : Released p c due i
  · rw [if_pos hr, if_pos (hrel.mpr (.inl hr))]
    simp
  · rw [if_neg hr]
    by_cases ht : ticket p i = k
    · rw [if_pos (hrel.mpr (.inr ht)), if_pos ht]
    · rw [if_neg fun h => (hrel.mp h).elim hr ht, if_neg ht]

lemma length_filter_range_lt (n m : ℕ) : ((range n).filter fun i => decide (i < m)).length =
    min n m := by
  induction n with
  | zero => simp
  | succ n ih =>
    rw [range_succ]
    by_cases h : n < m
    · simp [h]; omega
    · simp [h]; omega

lemma length_released_le : ((range n).filter fun i => decide (Released p c due i)).length ≤ min n
    (p + c) := by
  rw [← length_filter_range_lt n (p + c)]
  refine List.Sublist.length_le (monotone_filter_right _ fun i h => ?_)
  have hle := (of_decide_eq_true h).1
  unfold ticket at hle
  exact decide_eq_true (by omega)

lemma length_released_eq : ((range n).filter fun i => decide (Released p c [] i)).length = min n
    (p + c) := by
  rw [← length_filter_range_lt n (p + c)]
  congr 1
  refine filter_congr fun i _ => ?_
  refine decide_eq_decide.mpr ?_
  unfold Released ticket
  simp only [not_mem_nil, not_false_eq_true, and_true]
  omega

end Windmill.Lib.Throttle
