import Mathlib.Tactic

/-! # Tables whose rows keep their place

A table of rows with increasing ids: the id of a row is its place, a row that is deleted leaves its
place empty and a new row is put at the end. -/

namespace Windmill.Lib.Slots

open List

universe u

variable {α : Type u} {l : List (Option α)} {i k : ℕ} {a b : α}

def get (l : List (Option α)) (i : ℕ) : Option α := l[i]?.join

def Has (l : List (Option α)) (i : ℕ) (a : α) : Prop := l[i]? = some (some a)

lemma get_eq_some : get l i = some a ↔ Has l i a := Option.join_eq_some_iff

lemma Has.lt (h : Has l i a) : i < l.length := (List.getElem?_eq_some_iff.mp h).1

lemma Has.eq (h : Has l i a) (h' : Has l i b) : a = b :=
  Option.some.inj (Option.some.inj (h.symm.trans h'))

lemma not_has_nil : ¬Has ([] : List (Option α)) i a := fun h => absurd h.lt (Nat.not_lt_zero i)

lemma has_set_self {slot} (hi : Has l i b) : Has (l.set i slot) i a ↔ slot = some a := by
  unfold Has
  rw [getElem?_set_self hi.lt, Option.some_inj]

lemma has_set_of_ne {slot} (hne : k ≠ i) : Has (l.set i slot) k a ↔ Has l k a := by
  unfold Has
  rw [getElem?_set_ne (Ne.symm hne)]

lemma has_set {c : α} (hi : Has l i c) (h : Has (l.set i (some b)) k a) :
    k = i ∧ a = b ∨ k ≠ i ∧ Has l k a := by
  by_cases hki : k = i
  · subst hki
    exact .inl ⟨rfl, (Option.some.inj ((has_set_self hi).mp h)).symm⟩
  · exact .inr ⟨hki, (has_set_of_ne hki).mp h⟩

lemma has_delete (hi : Has l i b) (h : Has (l.set i none) k a) : k ≠ i ∧ Has l k a := by
  by_cases hki : k = i
  · subst hki
    cases (has_set_self hi).mp h
  · exact ⟨hki, (has_set_of_ne hki).mp h⟩

lemma has_concat (h : Has (l ++ [some b]) k a) : Has l k a ∨ k = l.length ∧ a = b := by
  unfold Has at h
  rcases Nat.lt_or_ge k l.length with hlt | hge
  · rw [getElem?_append_left hlt] at h
    exact .inl h
  · rw [getElem?_append_right hge] at h
    have hlt := (List.getElem?_eq_some_iff.mp h).1
    have heq := mem_singleton.mp (mem_of_getElem? h)
    rw [length_singleton] at hlt
    exact .inr ⟨by omega, Option.some.inj heq⟩

lemma any_iff {p} :
    (l.any fun slot => (slot.map p).getD false) = true ↔ ∃ i a, Has l i a ∧ p a = true := by
  rw [any_eq_true]
  constructor
  · rintro ⟨slot, hmem, hslot⟩
    obtain ⟨i, hi⟩ := getElem?_of_mem hmem
    cases slot with
    | none => cases hslot
    | some a => exact ⟨i, a, hi, hslot⟩
  · rintro ⟨i, a, hi, ha⟩
    exact ⟨some a, mem_of_getElem? hi, ha⟩

lemma has_filter {p} (h : Has (l.map fun slot => slot.filter p) k a) : Has l k a := by
  unfold Has at h
  rw [getElem?_map] at h
  obtain ⟨slot, hslot, hfilt⟩ := Option.map_eq_some_iff.mp h
  obtain ⟨rfl, -⟩ := Option.filter_eq_some_iff.mp hfilt
  exact hslot

end Windmill.Lib.Slots
