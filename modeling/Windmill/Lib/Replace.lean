import Windmill.Lib.JsonText

/-! # Replacing in a text

Where `replaceText` replaces and where it does not: a match is replaced (`replaceText_match`), and a
part of the text in which no match starts stays (`replaceText_of_clear`). Several replacements, one
after the other, replace the parts of a text at once if each is found only at its own parts when its
turn comes (`foldl_replaceText`). -/

namespace Windmill.Lib.Replace

open List

open Lib.JsonText (replaceText)

variable {pat sub a b : List Char} {c p : Char}

lemma skip_append {α β : Type} {f : List α → ℕ → β} (h : ∀ a l n, f (a :: l) (n + 1) = f l n)
    (rest : List α) : ∀ l, f (l ++ rest) l.length = f rest 0
  | [] => rfl
  | a :: l => (h a (l ++ rest) l.length).trans (skip_append h rest l)

lemma replaceText_match (hpat : pat ≠ []) (rest : List Char) :
    replaceText pat sub (pat ++ rest) 0 = sub ++ replaceText pat sub rest 0 := by
  cases pat with
  | nil => exact absurd rfl hpat
  | cons p pat =>
    have hskip := @skip_append _ _ (replaceText (p :: pat) sub) (fun _ _ _ => rfl) rest pat
    have hpref : p :: pat <+: p :: (pat ++ rest) := prefix_append (p :: pat) rest
    rw [cons_append, replaceText, if_pos hpref]
    exact congrArg (sub ++ ·) hskip

/-- No match starts inside of `a`, in front of `b`. -/
def Clear (pat a b : List Char) : Prop := ∀ l r, a = l ++ r → r ≠ [] → ¬pat <+: r ++ b

lemma Clear.tail (h : Clear pat (c :: a) b) : Clear pat a b :=
  fun l r heq hr => h (c :: l) r (congrArg (c :: ·) heq) hr

lemma replaceText_of_clear : ∀ {a}, Clear pat a b → replaceText pat sub
    (a ++ b) 0 = a ++ replaceText pat sub b 0
  | [], _ => rfl
  | c :: a, h => by
    have hno : ¬pat <+: c :: (a ++ b) := h [] (c :: a) rfl (cons_ne_nil c a)
    rw [cons_append, replaceText, if_neg hno, replaceText_of_clear h.tail, cons_append]

lemma clear_of_notMem (h : p ∉ a) : Clear (p :: pat) a b := by
  rintro l r rfl hr hpref
  cases r with
  | nil => exact hr rfl
  | cons c r =>
    refine h (mem_append_right l ?_)
    rw [(cons_prefix_cons.mp hpref).1]
    exact mem_cons_self

lemma clear_cons (h : ¬pat <+: c :: (a ++ b)) (hrest : Clear pat a b) : Clear pat (c :: a) b := by
  rintro (_ | ⟨d, l⟩) r heq hr
  · rw [← show c :: a = r from heq]
    exact h
  · exact hrest l r (cons.inj heq).2 hr

instance decidableClear (pat b : List Char) : ∀ a : List Char, Decidable (Clear pat a b)
  | [] => .isTrue fun _ _ heq hr => absurd (append_eq_nil_iff.mp heq.symm).2 hr
  | c :: a =>
    have := decidableClear pat b a
    decidable_of_iff (¬pat <+: c :: (a ++ b) ∧ Clear pat a b)
      ⟨fun h => clear_cons h.1 h.2, fun h => ⟨h [] (c :: a) rfl (cons_ne_nil c a), h.tail⟩⟩

/-! ### Parts -/

section

variable {ι : Type} {f f' : ι → List Char}

/-- A pattern is found at its own parts, that are replaced, and nowhere else. -/
def Placed (pat sub : List Char) (f f' : ι → List Char) : List ι → Prop
  | [] => True
  | p :: ps => ((f p = pat ∧ f' p = sub) ∨ (f' p = f p ∧ Clear pat (f p) (ps.flatMap f))) ∧
      Placed pat sub f f' ps

lemma replaceText_flatMap (hpat : pat ≠ []) : ∀ {ps}, Placed pat sub f f' ps →
    replaceText pat sub (ps.flatMap f) 0 = ps.flatMap f'
  | [], _ => rfl
  | p :: ps, h => by
    rw [flatMap_cons, flatMap_cons, ← replaceText_flatMap hpat h.2]
    rcases h.1 with ⟨hmatch, hsub⟩ | ⟨hsame, hclear⟩
    · rw [hmatch, hsub, replaceText_match hpat]
    · rw [hsame, replaceText_of_clear hclear]

instance decidablePlaced (pat sub : List Char) (f f' : ι → List Char) :
    ∀ ps : List ι, Decidable (Placed pat sub f f' ps)
  | [] => .isTrue trivial
  | _ :: ps =>
    have := decidablePlaced pat sub f f' ps
    inferInstanceAs (Decidable (_ ∧ Placed pat sub f f' ps))

variable {κ : Type} {subOf : κ → List Char} {patOf : κ → List Char} {stage : List κ → ι → List Char}

/-- Each key has its turn: its pattern is found at its own parts only, after those before it. -/
def Turns (patOf subOf : κ → List Char) (stage : List κ → ι → List Char) (ps : List ι) :
    List κ → List κ → Prop
  | _, [] => True
  | done, k :: keys => Placed (patOf k) (subOf k) (stage done) (stage (k :: done)) ps ∧
    Turns patOf subOf stage ps (k :: done) keys

instance decidableTurns (patOf subOf : κ → List Char) (stage : List κ → ι → List Char)
    (ps : List ι) : ∀ done keys : List κ, Decidable (Turns patOf subOf stage ps done keys)
  | _, [] => .isTrue trivial
  | done, k :: keys =>
    have := decidableTurns patOf subOf stage ps (k :: done) keys
    inferInstanceAs (Decidable (Placed _ _ _ _ _ ∧ Turns patOf subOf stage ps (k :: done) keys))

/-- A key can have its turn after any of the others. -/
lemma turns_of_sublists [DecidableEq κ] {all : List κ} {ps : List ι}
    (hstage : ∀ {done done'}, (∀ k, k ∈ done ↔ k ∈ done') → stage done = stage done')
    (h : ∀ done ∈ all.sublists, ∀ k ∈ all, k ∉ done →
      Placed (patOf k) (subOf k) (stage done) (stage (k :: done)) ps) : ∀ {keys done},
    keys.Nodup → (∀ k ∈ keys, k ∈ all ∧ k ∉ done) → (∀ k ∈ done, k ∈ all) →
      Turns patOf subOf stage ps done keys
  | [], _, _, _, _ => trivial
  | k :: keys, done, hnodup, hkeys, hdone => by
    obtain ⟨hk, hnodup⟩ := nodup_cons.mp hnodup
    obtain ⟨⟨hall, hnot⟩, hkeys⟩ := forall_mem_cons.mp hkeys
    have hmem : ∀ m, m ∈ all.filter (· ∈ done) ↔ m ∈ done := fun m => by
      simpa using hdone m
    have hcons : ∀ m, m ∈ k :: all.filter (· ∈ done) ↔ m ∈ k :: done := fun m => by
      rw [mem_cons, mem_cons, hmem]
    have hplaced := h (all.filter (· ∈ done)) (mem_sublists.mpr filter_sublist) k hall
      fun hk => hnot ((hmem k).mp hk)
    rw [hstage hmem, hstage hcons] at hplaced
    refine ⟨hplaced, turns_of_sublists hstage h hnodup (fun m hm => ?_) ?_⟩
    · refine ⟨(hkeys m hm).1, fun hmem => ?_⟩
      obtain rfl | hmem := mem_cons.mp hmem
      · exact hk hm
      · exact (hkeys m hm).2 hmem
    · exact forall_mem_cons.mpr ⟨hall, hdone⟩

/-- **One replacement after the other** is done with all of them at once. -/
theorem foldl_replaceText {ps} (hpat : ∀ k, patOf k ≠ []) : ∀ {keys done},
    Turns patOf subOf stage ps done keys →
      keys.foldl (fun text k => replaceText (patOf k) (subOf k) text 0) (ps.flatMap (stage done)) =
        ps.flatMap (stage (keys.reverse ++ done))
  | [], _, _ => rfl
  | k :: keys, done, h => by
    rw [foldl_cons, replaceText_flatMap (hpat k) h.1, foldl_replaceText hpat h.2, reverse_cons,
      append_assoc]
    rfl

end

end Windmill.Lib.Replace
