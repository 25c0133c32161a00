import Mathlib.Tactic

/-! # Lists indexed by distinct keys

Facts about a list that keeps one entry for each of a list of distinct keys, written at the position
of the key. -/

namespace Windmill.Lib.Positions

open List

variable {α β : Type*} {l : List α}

lemma findIdx?_of_mem [BEq α] [LawfulBEq α] {a : α} (h : a ∈ l) :
    ∃ k, l.findIdx? (fun x => x == a) = some k ∧ l[k]? = some a := by
  cases hk : l.findIdx? (fun x => x == a) with
  | none =>
    have hne := findIdx?_eq_none_iff.mp hk a h
    simp at hne
  | some k =>
    obtain ⟨hlt, heq, -⟩ := findIdx?_eq_some_iff_getElem.mp hk
    refine ⟨k, rfl, ?_⟩
    rw [getElem?_eq_getElem hlt, eq_of_beq heq]

lemma map_set_of_nodup [DecidableEq α] (hl : l.Nodup) {k : ℕ} {a : α} (hk : l[k]? = some a)
    (f : α → β) (v : β) : (l.map f).set k v = l.map (Function.update f a v) := by
  obtain ⟨hlt, hget⟩ := List.getElem?_eq_some_iff.mp hk
  refine ext_getElem (by simp) fun i h₁ h₂ => ?_
  rw [getElem_set, getElem_map, getElem_map]
  by_cases hki : k = i
  · subst hki
    rw [if_pos rfl, hget, Function.update_self]
  · rw [if_neg hki, Function.update_of_ne]
    exact fun heq => hki ((List.Nodup.getElem_inj_iff hl).mp (heq.trans hget.symm)).symm

lemma length_filterMap_of_isSome {f : α → Option β} {b : Bool} {l : List α}
    (h : ∀ x ∈ l, (f x).isSome = b) : (l.filterMap f).length = if b then l.length else 0 := by
  rw [length_filterMap_eq_countP]
  cases b with
  | true => exact countP_eq_length.mpr h
  | false => exact countP_eq_zero.mpr fun x hx => by simp [h x hx]

lemma length_filter_split {p q} (h : ∀ x ∈ l, q x = true → p x = true) :
    (l.filter p).length = (l.filter fun x => p x && !q x).length + (l.filter q).length := by
  have hq : (l.filter p).filter q = l.filter q := by
    rw [filter_filter]
    exact filter_congr fun x hx => by cases hqx : q x <;> simp [h x hx, hqx]
  rw [length_eq_countP_add_countP q, countP_eq_length_filter, hq, countP_eq_length_filter,
    Nat.add_comm]
  simp [Bool.and_comm]

lemma length_filter_mem [DecidableEq β] {f : α → β} {ks : List β} (hl : (l.map f).Nodup)
    (hks : ks.Nodup) (hsub : ks ⊆ l.map f) : (l.filter fun x => decide (f x ∈ ks)).length =
    ks.length := by
  have hperm : ((l.map f).filter fun b => decide (b ∈ ks)).Perm ks := by
    refine (perm_ext_iff_of_nodup (hl.filter _) hks).mpr fun b => ?_
    rw [mem_filter, decide_eq_true_eq]
    exact and_iff_right_of_imp fun hb => hsub hb
  rw [← hperm.length_eq, filter_map, length_map]
  rfl

end Windmill.Lib.Positions
