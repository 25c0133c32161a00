import Mathlib.Tactic

/-! # Texts with opaque parts

A symbol of a text is a character or a part: the encoding `e` of a value `m` that cannot be read or
made up, only copied. Two texts are equal when their characters and their parts are. `parts` are the
values that a text gives away to whoever reads it; what is computed from a text by cutting and
joining has no parts of its own. -/

namespace Windmill.Lib.Opaque

open List

variable {E M : Type}

inductive Sym (E M : Type) where
  | chr (c : Char)
  | part (e : E) (m : M)
deriving DecidableEq

abbrev Text (E M : Type) := List (Sym E M)

def ofString (s : String) : Text E M := s.toList.map .chr

def Sym.value : Sym E M → Option M
  | .chr _ => none
  | .part _ m => some m

def parts (t : Text E M) : List M := t.filterMap Sym.value

lemma chr_mem_ofString {c s} : (.chr c : Sym E M) ∈ ofString s ↔ c ∈ s.toList := by simp [ofString]

lemma ofString_inj {s t} : (ofString s : Text E M) = ofString t ↔ s = t := by
  refine ⟨fun h => String.toList_inj.mp (map_injective_iff.mpr ?_ h), congrArg _⟩
  exact fun _ _ h => Sym.chr.inj h

@[simp] lemma parts_append (t u : Text E M) : parts (t ++ u) = parts t ++ parts u :=
  filterMap_append

@[simp] lemma parts_part (e : E) (m : M) : parts [Sym.part e m] = [m] := rfl

@[simp] lemma parts_ofString (s : String) : parts (ofString s : Text E M) = [] := by
  unfold parts ofString
  rw [filterMap_map]
  exact filterMap_eq_nil_iff.mpr fun _ _ => rfl

def split [DecidableEq E] [DecidableEq M] (c : Char) : Text E M → List (Text E M)
  | [] => [[]]
  | s :: t =>
    if s = .chr c then [] :: split c t
    else match split c t with
      | [] => [[s]]
      | p :: ps => (s :: p) :: ps

lemma split_eq_splitOn [DecidableEq E] [DecidableEq M] (c : Char) :
    ∀ t : Text E M, split c t = t.splitOn (.chr c)
  | [] => rfl
  | s :: t => by
    rw [split, split_eq_splitOn c t, splitOn_cons_eq_if_modifyHead]
    simp only [beq_iff_eq]
    split_ifs
    · rfl
    · cases hsplit : t.splitOn (.chr c) with
      | nil => exact absurd hsplit (splitOn_ne_nil _ _)
      | cons p ps => rfl

section

variable [DecidableEq E] [DecidableEq M] {c : Char} {t u : Text E M}

lemma split_of_notMem (h : .chr c ∉ t) : split c t = [t] := by
  rw [split_eq_splitOn, splitOn_eq_singleton h]

lemma split_append (h : .chr c ∉ t) : split c (t ++ .chr c :: u) = t :: split c u := by
  rw [split_eq_splitOn, splitOn_append_cons_self_of_not_mem h, split_eq_splitOn]

lemma notMem_of_split (h : split c t = [u]) : .chr c ∉ t := by
  intro hmem
  obtain ⟨front, back, rfl⟩ := append_of_mem hmem
  rw [split_eq_splitOn, splitOn_append_cons_self] at h
  have hlen := congrArg length h
  have hfront := length_pos_iff.mpr (splitOn_ne_nil (.chr c) front)
  have hback := length_pos_iff.mpr (splitOn_ne_nil (.chr c) back)
  rw [length_append, length_singleton] at hlen
  omega

end

lemma mem_parts_of_mem_split [DecidableEq E] [DecidableEq M] {c : Char} {m : M} {t p : Text E M}
    (hp : p ∈ split c t) (hm : m ∈ parts p) : m ∈ parts t := by
  have hmem : ∀ l : List (Text E M), p ∈ l → p ∈ l.intersperse [.chr c] := by
    intro l
    fun_induction intersperse with
    | case3 q ps hne ih =>
      simp only [mem_cons]
      exact Or.imp_right fun h => .inr (ih h)
    | _ => exact id
  obtain ⟨s, hs, hval⟩ := mem_filterMap.mp hm
  rw [← @intercalate_splitOn _ t _ _ (.chr c), ← split_eq_splitOn]
  exact mem_filterMap.mpr ⟨s, mem_flatten.mpr ⟨p, hmem _ hp, hs⟩, hval⟩

end Windmill.Lib.Opaque
