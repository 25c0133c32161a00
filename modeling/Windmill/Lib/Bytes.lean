import Mathlib.Tactic

/-! # Byte strings and characters

The bytes of a text in UTF-8 and of a 64 bit number, and tests of all characters of a text. -/

namespace Windmill.Lib.Bytes

def utf8 (s : String) : List UInt8 := s.toUTF8.data.toList

lemma utf8_injective : Function.Injective utf8 := fun s t h => by
  have hdata : s.toUTF8 = t.toUTF8 := ByteArray.ext (Array.toList_inj.mp h)
  exact String.toByteArray_inj.mp hdata

def leBytes (n : BitVec 64) : List UInt8 := List.ofFn fun i : Fin 8 => ⟨n.extractLsb' (8 * i) 8⟩

lemma leBytes_injective : Function.Injective leBytes := fun n m h => by
  have hbytes := List.ofFn_injective h
  refine BitVec.eq_of_getLsbD_eq fun i hi => ?_
  have hbyte : n.extractLsb' (8 * (i / 8)) 8 = m.extractLsb' (8 * (i / 8)) 8 :=
    congrArg UInt8.toBitVec (congrFun hbytes ⟨i / 8, by omega⟩)
  have hbit := congrArg (fun b => b.getLsbD (i % 8)) hbyte
  have hpos : 8 * (i / 8) + i % 8 = i := Nat.div_add_mod i 8
  have hlt : i % 8 < 8 := Nat.mod_lt _ (by omega)
  simpa only [BitVec.getLsbD_extractLsb', hpos, hlt, decide_true, Bool.true_and] using hbit

lemma isAlpha_iff {c : Char} : c.isAlpha = true ↔
    65 ≤ c.toNat ∧ c.toNat ≤ 90 ∨ 97 ≤ c.toNat ∧ c.toNat ≤ 122 := by
  have hupper : c.isUpper = decide (65 ≤ c.toNat ∧ c.toNat ≤ 90) := rfl
  have hlower : c.isLower = (decide (97 ≤ c.toNat) && decide (c.toNat ≤ 122)) := rfl
  have halpha : c.isAlpha = (c.isUpper || c.isLower) := rfl
  rw [halpha, hupper, hlower]
  simp only [Bool.or_eq_true, Bool.and_eq_true, decide_eq_true_eq]

/-- The characters of a text are tested one by one. Another instance goes through all characters
there are. -/
instance (priority := high) decidableForallMemChar {p : Char → Prop} [DecidablePred p]
    (text : List Char) : Decidable (∀ c ∈ text, p c) := List.decidableBAll p text

/-- The instance has a name, so that texts are compared in the same way wherever this is seen. -/
instance lawfulBEqText : LawfulBEq (List Char) := inferInstance

end Windmill.Lib.Bytes
