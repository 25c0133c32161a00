import Mathlib.Tactic

/-! # JSON values

Values as they are read into memory: a number that is no integer is kept as its text. -/

namespace Windmill.Lib.Records

inductive Json where
  | null
  | bool (b : Bool)
  | int (n : ℤ)
  | float (text : String)
  | str (s : String)
  | arr (elems : List Json)
  | obj (fields : List (String × Json))

instance countableChar : Countable Char :=
  Function.Injective.countable (f := Char.toNat) fun _ _ h => Char.toNat_inj.mp h

instance countableString : Countable String :=
  Function.Injective.countable (f := String.toList) fun _ _ h => String.toList_inj.mp h

end Windmill.Lib.Records
