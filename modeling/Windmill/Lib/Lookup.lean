import Mathlib.Data.List.Nodup

/-! # Lookups in lists of pairs

The entry that `List.lookup` finds, and the entries of a list without repeated keys. -/

namespace Windmill.Lib.Lookup

open List

variable {α β : Type}

lemma mem_keys_iff {key : α} {l : List (α × β)} : key ∈ l.map Prod.fst ↔ ∃ b, (key, b) ∈ l := by
  simp

variable [BEq α] [LawfulBEq α] {key : α} {b : β} {l : List (α × β)}

lemma mem_of_lookup (h : l.lookup key = some b) : (key, b) ∈ l := by
  obtain ⟨l₁, l₂, rfl, -⟩ := lookup_eq_some_iff.mp h
  exact mem_append_right _ mem_cons_self

lemma exists_lookup (h : key ∈ l.map Prod.fst) : ∃ b, l.lookup key = some b := by
  cases hlook : l.lookup key with
  | some b => exact ⟨b, rfl⟩
  | none =>
    obtain ⟨b, hmem⟩ := mem_keys_iff.mp h
    exact absurd rfl (bne_iff_ne.mp (lookup_eq_none_iff.mp hlook (key, b) hmem))

lemma lookup_eq_some_iff (hnd : (l.map Prod.fst).Nodup) : l.lookup key = some b ↔ (key, b) ∈ l := by
  refine ⟨mem_of_lookup, fun h => ?_⟩
  obtain ⟨b', hlook⟩ := exists_lookup (mem_map_of_mem h)
  cases inj_on_of_nodup_map hnd h (mem_of_lookup hlook) rfl
  exact hlook

end Windmill.Lib.Lookup
