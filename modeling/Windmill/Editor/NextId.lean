import Mathlib.Tactic
import Windmill.Lib.Worklist

/-! # The ids of new modules

The flow editor names a new module by the word after the largest one in use, in the order `a`, …,
`z`, `aa`, `ab`, … (`nextId`, `flowModuleNextId.ts`), or by the first word that is free
(`getNextId`, `idUtils.ts`). `nextId` looks only at ids of less than four characters of modules that
`dfs` visits, and not at the forbidden ids. -/

namespace Windmill.Editor.NextId

open List

/-- A string, as its UTF-16 code units. -/
abbrev Text := List ℕ

def text (s : String) : Text := s.toList.map Char.toNat

def forbiddenIds : List Text :=
  ["do", "bg", "ctx", "state", "if", "else", "for", "delete", "while", "new", "in", "failure",
  "preprocessor", "as"].map text

/-! ### Words and numbers -/

def digits (n : ℕ) : List ℕ := if 25 < n then n % 26 :: digits (n / 26 - 1) else [n]

/-- `numberToChars`: a number as an id. -/
def numberToChars (n : ℤ) : Text :=
  (if n < 0 then text "-" else []) ++ ((digits n.natAbs).map (97 + ·)).reverse

def codePoints : Text → List ℕ
  | c :: d :: rest =>
    if (0xD800 ≤ c ∧ c ≤ 0xDBFF) ∧ (0xDC00 ≤ d ∧ d ≤ 0xDFFF) then c :: codePoints rest
      else c :: codePoints (d :: rest)
  | n => n

def addUp : List ℕ → ℤ → ℤ → ℤ
  | [], _, res => res
  | c :: rest, b, res => addUp rest (b / 26)
      (res + ((if c = 45 ∨ c = 95 then 122 else c : ℕ) - 97 + 1) * b)

/-- `charsToNumber`: an id as a number. -/
def charsToNumber : Text → ℤ
  | 45 :: n => -charsToNumber n
  | n => addUp (codePoints n) (26 ^ (n.length - 1)) 0 - 1

/-- The loop of `getNextId`. It ends: each turn leaves fewer keys that are not below `i`. -/
def firstFree (takenKeys : List ℤ) (i : ℕ) : ℕ :=
  if (i : ℤ) ∈ takenKeys then firstFree takenKeys (i + 1) else i
termination_by (takenKeys.filter fun k => (i : ℤ) ≤ k).length
decreasing_by exact Lib.Worklist.length_filter_lt (fun k => by simp; omega) ‹_› (by simp) (by simp)

/-- `getNextId`: the first number that is free, as an id. -/
def getNextId (currentKeys : List Text) : Text :=
  numberToChars (firstFree ((currentKeys ++ forbiddenIds).map charsToNumber)
    (charsToNumber (text "a")).toNat)

/-! ### Flows -/

inductive FlowModule where
  | plain (id : Text)
  | loop (id : Text) (modules : List FlowModule)
  | branchone (id : Text) (default : List FlowModule) (branches : List (List FlowModule))
  | branchall (id : Text) (branches : List (List FlowModule))
  | aiagent (id : Text) (tools : List FlowModule)

mutual

def FlowModule.dfs : FlowModule → List Text
  | .plain id => [id]
  | .loop id modules => id :: dfs modules
  | .branchone id default branches => id :: (dfs default ++ dfsAll branches)
  | .branchall id branches => id :: dfsAll branches
  | .aiagent id tools => id :: dfs tools

/-- The ids of all modules, nested ones included. -/
def dfs : List FlowModule → List Text
  | [] => []
  | m :: ms => m.dfs ++ dfs ms

def dfsAll : List (List FlowModule) → List Text
  | [] => []
  | branch :: branches => dfs branch ++ dfsAll branches

end

structure OpenFlow where
  modules : List FlowModule
  failureModule : Option FlowModule
  preprocessorModule : Option FlowModule

def bump (acc : ℤ) (key : Text) : ℤ :=
  if 4 ≤ key.length then acc else max acc (charsToNumber key + 1)

/-- `nextId`: an id past those that are looked at. -/
def nextId (flowState : List Text) (fullFlow : OpenFlow) : Text :=
  numberToChars ((dfs fullFlow.modules ++ flowState).foldl bump 0)

/-! ### The ids in use -/

def FlowModule.id : FlowModule → Text
  | .plain id | .loop id _ | .branchone id _ _ | .branchall id _ | .aiagent id _ => id

def FlowModule.lists : FlowModule → List (List FlowModule)
  | .plain _ => []
  | .loop _ modules => [modules]
  | .branchone _ default branches => default :: branches
  | .branchall _ branches => branches
  | .aiagent _ tools => [tools]

/-- A module of the list, or one in it, has this id. -/
inductive Holds (id : Text) : List FlowModule → Prop where
  | here {m ms} : m ∈ ms → m.id = id → Holds id ms
  | inside {m ms modules} : m ∈ ms → modules ∈ m.lists → Holds id modules → Holds id ms

def IsWord (w : Text) : Prop := w ≠ [] ∧ ∀ c ∈ w, 97 ≤ c ∧ c ≤ 122

section

variable (flowState : List Text) (flow : OpenFlow) (w : Text)

def OpenFlow.others : List FlowModule := flow.failureModule.toList ++ flow.preprocessorModule.toList

/-- The id is in use, or must not be used. -/
def Taken : Prop := Holds w flow.modules ∨ Holds w flow.others ∨ w ∈ flowState ∨ w ∈ forbiddenIds

/-- Taken, where `nextId` does not see it. -/
def Unseen : Prop := 4 ≤ w.length ∧ (Holds w flow.modules ∨ w ∈ flowState) ∨ Holds w flow.others ∨
  w ∈ forbiddenIds

end

/-- The word comes after all short keys, and directly after one of them or as the first word of all.
-/
def Follows (keys : List Text) (w : Text) : Prop :=
  (∀ key ∈ keys, key.length < 4 → charsToNumber key < charsToNumber w) ∧
    (charsToNumber w = 0 ∨ ∃ key ∈ keys, key.length < 4 ∧ charsToNumber key + 1 = charsToNumber w)

variable {id w : Text} {ms : List FlowModule} {flowState : List Text} {flow : OpenFlow} {n : ℕ}

/-! ### The numeration -/

def horner (acc : ℤ) (w : Text) : ℤ := w.foldl (fun (acc : ℤ) (c : ℕ) => 26 * acc + (c - 96)) acc

lemma horner_append (u : Text) (c : ℕ) : horner 0 (u ++ [c]) = 26 * horner 0 u + (c - 96) := by
  rw [horner, foldl_append]
  rfl

lemma addUp_eq_horner : ∀ {w}, (∀ c ∈ w, 97 ≤ c ∧ c ≤ 122) → ∀ acc,
    addUp w (26 ^ (w.length - 1)) (26 ^ w.length * acc) = horner acc w
  | [], _, acc => by simp [addUp, horner]
  | c :: w, h, acc => by
    obtain ⟨hc, hw⟩ := forall_mem_cons.mp h
    have hletter : (if c = 45 ∨ c = 95 then 122 else c) = c := if_neg (by omega)
    have hres : (26 : ℤ) ^ (w.length + 1) * acc + (c - 97 + 1) * 26 ^ w.length =
        26 ^ w.length * (26 * acc + (c - 96)) := by ring
    rw [addUp, hletter, length_cons, Nat.add_sub_cancel, hres, horner, foldl_cons]
    cases w with
    | nil => simp [addUp]
    | cons d w =>
      rw [length_cons, pow_succ, Int.mul_ediv_cancel _ (by decide), ← pow_succ]
      exact addUp_eq_horner hw _

lemma charsToNumber_eq (hw : IsWord w) : charsToNumber w = horner 0 w - 1 := by
  have hpoints : ∀ u, (∀ c ∈ u, 97 ≤ c ∧ c ≤ 122) → codePoints u = u := by
    intro u hu
    fun_induction codePoints u with
    | case1 c d rest hpair =>
      have := hu c mem_cons_self
      omega
    | case2 c d rest _ ih => rw [ih fun x hx => hu x (mem_cons_of_mem c hx)]
    | case3 => rfl
  have hno : ∀ n, w ≠ 45 :: n := by
    rintro n rfl
    exact absurd (hw.2 45 mem_cons_self).1 (by decide)
  rw [charsToNumber, hpoints w hw.2, ← addUp_eq_horner hw.2 0, mul_zero]
  exact hno

lemma numberToChars_natCast (n : ℕ) : numberToChars n = ((digits n).map (97 + ·)).reverse := by
  rw [numberToChars, if_neg (by omega), Int.natAbs_natCast]
  rfl

lemma numberToChars_of_le (h : n ≤ 25) : numberToChars n = [97 + n] := by
  rw [numberToChars_natCast, digits, if_neg (by omega)]
  rfl

lemma numberToChars_of_lt (h : 25 < n) : numberToChars n = numberToChars
    (n / 26 - 1 : ℕ) ++ [97 + n % 26] := by
  rw [numberToChars_natCast, numberToChars_natCast, digits, if_pos h, map_cons, reverse_cons]

lemma numberToChars_spec (n : ℕ) : IsWord (numberToChars n) ∧ charsToNumber
    (numberToChars n) = n := by
  have hword : IsWord (numberToChars n) ∧ horner 0 (numberToChars n) = n + 1 := by
    induction n using Nat.strong_induction_on with
    | _ n ih =>
      by_cases hn : n ≤ 25
      · rw [numberToChars_of_le hn]
        exact ⟨⟨cons_ne_nil _ _, by simp; omega⟩, by simp [horner]; omega⟩
      obtain ⟨hword, hnum⟩ := ih (n / 26 - 1) (by omega)
      rw [numberToChars_of_lt (by omega)]
      refine ⟨⟨by simp, fun c hc => ?_⟩, by rw [horner_append, hnum]; omega⟩
      rcases mem_append.mp hc with hc | hc
      · exact hword.2 c hc
      · rw [mem_singleton.mp hc]
        omega
  exact ⟨hword.1, by rw [charsToNumber_eq hword.1, hword.2]; omega⟩

lemma charsToNumber_spec (hw : IsWord w) : ∃ n : ℕ, charsToNumber w = n ∧ numberToChars n = w := by
  induction w using List.reverseRecOn with
  | nil => exact absurd rfl hw.1
  | append_singleton u c ih =>
    have hc := hw.2 c (mem_append_right u (mem_singleton_self c))
    rw [charsToNumber_eq hw, horner_append]
    rcases eq_or_ne u [] with rfl | hu
    · refine ⟨c - 97, by simp [horner]; omega, ?_⟩
      rw [numberToChars_of_le (by omega), show 97 + (c - 97) = c by omega]
      rfl
    have hword : IsWord u := ⟨hu, fun d hd => hw.2 d (mem_append_left _ hd)⟩
    obtain ⟨k, hk, hchars⟩ := ih hword
    rw [charsToNumber_eq hword] at hk
    refine ⟨26 * (k + 1) + (c - 97), by push_cast; omega, ?_⟩
    rw [numberToChars_of_lt (by omega), show (26 * (k + 1) + (c - 97)) / 26 - 1 = k by
      omega, hchars, show 97 + (26 * (k + 1) + (c - 97)) % 26 = c by omega]

/-! ### The modules that are visited -/

lemma dfs_eq (ms : List FlowModule) : dfs ms = ms.flatMap FlowModule.dfs := by
  induction ms with
  | nil => rfl
  | cons m ms ih => rw [dfs, ih, flatMap_cons]

lemma dfsAll_eq (branches : List (List FlowModule)) : dfsAll branches = branches.flatMap dfs := by
  induction branches with
  | nil => rfl
  | cons branch branches ih => rw [dfsAll, ih, flatMap_cons]

lemma FlowModule.dfs_eq (m : FlowModule) : m.dfs = m.id :: m.lists.flatMap NextId.dfs := by
  cases m <;> simp [FlowModule.dfs, FlowModule.id, FlowModule.lists, dfsAll_eq]

lemma mem_dfs_of_holds (h : Holds id ms) : id ∈ dfs ms := by
  have hmem : ∀ ms, id ∈ dfs ms ↔ ∃ m ∈ ms, id = m.id ∨ ∃ modules ∈ m.lists, id ∈ dfs modules :=
    fun ms => by
    rw [dfs_eq, mem_flatMap]
    simp only [FlowModule.dfs_eq, mem_cons, mem_flatMap]
  induction h with
  | here hm hid => exact (hmem _).mpr ⟨_, hm, .inl hid.symm⟩
  | inside hm hlist _ ih => exact (hmem _).mpr ⟨_, hm, .inr ⟨_, hlist, ih⟩⟩

/-! ### Fresh ids -/

lemma firstFree_notMem (takenKeys : List ℤ) (i : ℕ) : (firstFree takenKeys i : ℤ) ∉ takenKeys := by
  fun_induction firstFree takenKeys i with
  | case1 i _ ih => exact ih
  | case2 i h => exact h

lemma getNextId_notMem (currentKeys : List Text) :
    getNextId currentKeys ∉ currentKeys ++ forbiddenIds := by
  intro h
  have hnum : charsToNumber (getNextId currentKeys) ∈ _ := mem_map_of_mem h
  rw [getNextId, (numberToChars_spec _).2] at hnum
  exact firstFree_notMem _ _ hnum

lemma eq_foldl_bump_iff (keys : List Text) (acc m : ℤ) : m = keys.foldl bump acc ↔
    acc ≤ m ∧ (∀ key ∈ keys, key.length < 4 → charsToNumber key < m) ∧
      (m = acc ∨ ∃ key ∈ keys, key.length < 4 ∧ charsToNumber key + 1 = m) := by
  induction keys generalizing acc with
  | nil => simp; omega
  | cons key keys ih =>
    rw [foldl_cons, ih, bump, forall_mem_cons, exists_mem_cons_iff]
    by_cases hlong : 4 ≤ key.length
    · rw [if_pos hlong]
      grind
    · rw [if_neg hlong]
      grind

lemma exists_nextId (flowState : List Text) (flow : OpenFlow) :
    ∃ m : ℕ, (dfs flow.modules ++ flowState).foldl bump 0 = m ∧ nextId flowState flow =
    numberToChars m := by
  obtain ⟨m, hm⟩ := Int.eq_ofNat_of_zero_le
    ((eq_foldl_bump_iff (dfs flow.modules ++ flowState) 0 _).mp rfl).1
  exact ⟨m, hm, congrArg numberToChars hm⟩

lemma nextId_eq_iff (hw : IsWord w) : nextId flowState flow = w ↔
    Follows (dfs flow.modules ++ flowState) w := by
  obtain ⟨n, hn, hchars⟩ := charsToNumber_spec hw
  obtain ⟨m, hm, hnext⟩ := exists_nextId flowState flow
  have heq : numberToChars m = w ↔ (n : ℤ) = m := by
    refine ⟨fun h => ?_, fun h => by rw [← h, hchars]⟩
    rw [← hn, ← h, (numberToChars_spec m).2]
  rw [hnext, heq, ← hm, eq_foldl_bump_iff, Follows, hn]
  exact and_iff_right (Int.natCast_nonneg n)

/-- **The ids of new modules are fresh if and only if** no word that is taken and not looked at
follows the short ids. -/
theorem ids_fresh_iff (flowState : List Text) (flow : OpenFlow) :
    ((∀ w, Taken flowState flow w → nextId flowState flow ≠ w) ∧
      (∀ currentKeys, getNextId currentKeys ∉ currentKeys ++ forbiddenIds) ∧
      (∀ n : ℕ, IsWord (numberToChars n) ∧ charsToNumber (numberToChars n) = n) ∧
      ∀ w, IsWord w → ∃ n : ℕ, charsToNumber w = n ∧ numberToChars n = w) ↔
    ∀ w, Unseen flowState flow w → IsWord w → ¬Follows (dfs flow.modules ++ flowState) w := by
  constructor
  · rintro ⟨hfresh, -⟩ w hunseen hw hfollows
    refine hfresh w ?_ ((nextId_eq_iff hw).mpr hfollows)
    unfold Unseen at hunseen
    unfold Taken
    tauto
  intro h
  refine ⟨?_, getNextId_notMem, numberToChars_spec, fun w hw => charsToNumber_spec hw⟩
  intro w htaken heq
  obtain ⟨m, -, hnext⟩ := exists_nextId flowState flow
  have hw : IsWord w := by
    rw [← heq, hnext]
    exact (numberToChars_spec m).1
  have hfollows := (nextId_eq_iff hw).mp heq
  -- a short id that is looked at does not follow itself
  have hlong : Holds w flow.modules ∨ w ∈ flowState → 4 ≤ w.length := fun hin =>
    le_of_not_gt fun hlt => lt_irrefl _
      (hfollows.1 w (mem_append.mpr (hin.imp_left mem_dfs_of_holds)) hlt)
  refine h w ?_ hw hfollows
  unfold Taken at htaken
  unfold Unseen
  tauto

theorem forbidden_after_ar : nextId [] ⟨[.plain (text "ar")], none, none⟩ = text "as" ∧
    text "as" ∈ forbiddenIds := by
  have hfold : (dfs [.plain (text "ar")] ++ []).foldl bump 0 = ((44 : ℕ) : ℤ) := by decide
  refine ⟨?_, by decide⟩
  rw [nextId, hfold, numberToChars_of_lt (by decide), numberToChars_of_le (by decide)]
  decide

end Windmill.Editor.NextId
