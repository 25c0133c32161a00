import Mathlib.Tactic

/-! # Caches

A cache is a list of entries, of which the latest one for a key counts; nothing expires. Several
queries may share a key. `Backed` says that every entry is a value of a query that has been made; a
cached answer is then the right one whenever the queries made so far that share the key have the
same value (`getOrInsert_eq`). -/

namespace Windmill.Lib.Memo

variable {K V Q ε : Type} [DecidableEq K] {compute : Except ε V}

abbrev Cache (K V : Type) := List (K × V)

def getOrInsert (m : Cache K V) (k : K) (compute : Except ε V) : Except ε V × Cache K V :=
  match m.lookup k with
  | some v => (.ok v, m)
  | none => match compute with
    | .ok v => (.ok v, (k, v) :: m)
    | .error e => (.error e, m)

/-- Every entry holds a value of a query that has been made and has its key. -/
def Backed (key : Q → K) (val : Q → V → Prop) (made : Q → Prop) (m : Cache K V) : Prop :=
  ∀ k v, m.lookup k = some v → ∃ q, made q ∧ key q = k ∧ val q v

variable {key : Q → K} {val : Q → V → Prop} {made made' : Q → Prop} {m : Cache K V} {q : Q} {v : V}

lemma backed_nil : Backed key val made [] := nofun

lemma Backed.mono (h : Backed key val made m) (hmade : ∀ q, made q → made' q) :
    Backed key val made' m :=
  fun k v hkv =>
    have ⟨q, hq, hrest⟩ := h k v hkv
    ⟨q, hmade q hq, hrest⟩

lemma Backed.cons (h : Backed key val made m) (hq : made q) (hv : val q v) :
    Backed key val made ((key q, v) :: m) := by
  intro k w hkw
  rw [List.lookup_cons] at hkw
  cases hk : k == key q with
  | true =>
    rw [hk] at hkw
    cases hkw
    exact ⟨q, hq, (eq_of_beq hk).symm, hv⟩
  | false =>
    rw [hk] at hkw
    exact h k w hkw

/-- **What the cache answers is what is computed**, when the queries that share the key agree. -/
theorem getOrInsert_eq (h : Backed key val made m)
    (hown : ∀ q' v, made q' → key q' = key q → val q' v → compute = .ok v) :
    (getOrInsert m (key q) compute).1 = compute := by
  unfold getOrInsert
  cases hget : m.lookup (key q) with
  | some v =>
    obtain ⟨q', hq', hkey, hv⟩ := h _ v hget
    exact (hown q' v hq' hkey hv).symm
  | none => cases compute <;> rfl

lemma Backed.getOrInsert (h : Backed key val made m)
    (hq : ∀ v, compute = .ok v → made q ∧ val q v) :
    Backed key val made (getOrInsert m (key q) compute).2 := by
  unfold Memo.getOrInsert
  cases hget : m.lookup (key q) with
  | some v => exact h
  | none =>
    cases hc : compute with
    | error e => exact h
    | ok v =>
      obtain ⟨hmade, hv⟩ := hq v hc
      exact h.cons hmade hv

end Windmill.Lib.Memo
