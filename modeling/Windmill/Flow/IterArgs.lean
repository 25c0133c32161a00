import Mathlib.Algebra.Order.BigOperators.Group.List
import Mathlib.Algebra.Order.Ring.Nat
import Mathlib.Data.List.AList
import Mathlib.Order.Bounds.Basic

/-! # The argument of an iteration

`insert_iter_arg` (`windmill-worker/src/worker_flow.rs`) gives the iteration of a loop its argument.
Inside of another loop the key is taken, and what it had moves to the key with `_parent` behind it,
from where it moves in turn what is there. -/

namespace Windmill.Flow.IterArgs

open List

variable {V : Type}

abbrev Args (V : Type) := AList fun _ : String => V

def parentKey (key : String) : String := key ++ "_parent"

lemma length_parentKey (key : String) : key.length < (parentKey key).length := by
  rw [parentKey, String.length_append]
  exact Nat.lt_add_of_pos_right (by decide)

lemma length_le_iterate (i : ℕ) (key : String) : key.length ≤ (parentKey^[i] key).length := by
  induction i generalizing key with
  | zero => exact le_rfl
  | succ i ih => exact (length_parentKey key).le.trans (ih (parentKey key))

lemma rest_parentKey {args : Args V} {key : String} {old : V} (h : args.lookup key = some old) :
    (args.keys.map String.length).sum + 1 - (parentKey key).length <
    (args.keys.map String.length).sum + 1 - key.length := by
  have hkey : key ∈ args.keys := AList.lookup_isSome.mp (by rw [h]; rfl)
  have hle : key.length ≤ (args.keys.map String.length).sum :=
    single_le_sum (fun _ _ => Nat.zero_le _) _ (mem_map_of_mem hkey)
  have hlt := length_parentKey key
  omega

/-- `insert_iter_arg`: what has the key moves to the parent key. -/
def insertIterArg (args : Args V) (desiredKey : String) (value : V) : Args V :=
  match _h : args.lookup desiredKey with
  | some conflictingParent =>
    (insertIterArg args (parentKey desiredKey) conflictingParent).insert desiredKey value
  | none => args.insert desiredKey value
termination_by (args.keys.map String.length).sum + 1 - desiredKey.length
decreasing_by exact rest_parentKey _h

/-- The entries of the key and its parents have moved up by one, to the first key that was free. -/
structure Shifted (args args' : Args V) (key : String) (value : V) (m : ℕ) : Prop where
  inserted : args'.lookup key = some value
  moved : ∀ i < m, args'.lookup (parentKey^[i + 1] key) = args.lookup (parentKey^[i] key)
  kept : ∀ other, (∀ i ≤ m, other ≠ parentKey^[i] key) → args'.lookup other = args.lookup other

/-- **The arguments of the loops around an iteration are shifted, and none is lost.** -/
theorem insertIterArg_shifts (args : Args V) (key : String) (value : V) :
    ∃ m, IsLeast {i | parentKey^[i] key ∉ args} m ∧ Shifted args
    (insertIterArg args key value) key value m := by
  fun_induction insertIterArg args key value with
  | case1 key value old hold ih =>
    obtain ⟨m, ⟨hfree, hleast⟩, hshift⟩ := ih
    have hmem : key ∈ args := AList.lookup_isSome.mp (by rw [hold]; rfl)
    have hne : ∀ i, parentKey^[i + 1] key ≠ key := by
      intro i heq
      have hle := length_le_iterate i (parentKey key)
      have hlt := length_parentKey key
      rw [← Function.iterate_succ_apply, heq] at hle
      omega
    refine ⟨m + 1, ⟨hfree, fun i hi => ?_⟩, AList.lookup_insert _, fun i hi => ?_,
      fun other hother => ?_⟩
    · cases i with
      | zero => exact absurd hmem hi
      | succ i => exact Nat.succ_le_succ (hleast hi)
    · rw [AList.lookup_insert_ne (hne i)]
      cases i with
      | zero => exact hshift.inserted.trans hold.symm
      | succ i => exact hshift.moved i (Nat.lt_of_succ_lt_succ hi)
    · refine (AList.lookup_insert_ne (hother 0 (Nat.zero_le _))).trans ?_
      exact hshift.kept other fun i hi => hother (i + 1) (Nat.succ_le_succ hi)
  | case2 key value hnone =>
    refine ⟨0, ⟨AList.lookup_eq_none.mp hnone, fun i _ => Nat.zero_le i⟩, AList.lookup_insert _,
      fun i hi => absurd hi (Nat.not_lt_zero i), fun other hother => ?_⟩
    exact AList.lookup_insert_ne (hother 0 le_rfl)

end Windmill.Flow.IterArgs
