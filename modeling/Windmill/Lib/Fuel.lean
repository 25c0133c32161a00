import Mathlib.Tactic

/-! # Computations that may not end

A computation with fuel is `none` while it is running and ends with a value or an error. More fuel
does not change how it ends (`Refines`), so it ends in one way only (`eq_of_refines`). -/

namespace Windmill.Lib.Fuel

variable {ε α β : Type}

def andThen (x : Option (Except ε α)) (f : α → Option (Except ε β)) : Option (Except ε β) :=
  match x with
  | none => none
  | some (.error e) => some (.error e)
  | some (.ok a) => f a

def traverse (f : α → Option (Except ε β)) : List α → Option (Except ε (List β))
  | [] => some (.ok [])
  | a :: as => andThen (f a) fun b => andThen (traverse f as) fun bs => some (.ok (b :: bs))

/-- The computation ends with a value. -/
def Returns (x : Option (Except ε α)) : Prop := ∃ a, x = some (.ok a)

variable {x : Option (Except ε α)} {a : α} {f g : α → Option (Except ε β)}

lemma traverse_congr : ∀ {l}, (∀ a ∈ l, f a = g a) → traverse f l = traverse g l
  | [], _ => rfl
  | a :: as, h => by
    rw [traverse, h a List.mem_cons_self, traverse_congr fun b hb =>
      h b (List.mem_cons_of_mem a hb), traverse]

lemma andThen_eq_none {f : α → Except ε β} : (andThen x fun a => some (f a)) = none ↔ x = none := by
  rcases x with _ | (_ | _) <;> simp [andThen]

lemma returns_andThen {f : α → β} : Returns (andThen x fun a => some (.ok (f a))) ↔ Returns x := by
  rcases x with _ | (_ | _) <;> simp [andThen, Returns]

lemma returns_traverse : ∀ {l}, Returns (traverse f l) ↔ ∀ a ∈ l, Returns (f a)
  | [] => iff_of_true ⟨[], rfl⟩ (List.forall_mem_nil _)
  | a :: as => by
    rw [traverse, List.forall_mem_cons, ← returns_traverse]
    rcases f a with _ | (_ | b)
    · simp [andThen, Returns]
    · simp [andThen, Returns]
    · exact returns_andThen.trans (and_iff_right ⟨b, rfl⟩).symm

lemma traverse_eq_none (ha : f a = none) (after : List α) :
    ∀ {before}, (∀ b ∈ before, ∀ e, f b ≠ some (.error e)) → traverse f
    (before ++ a :: after) = none
  | [], _ => by rw [List.nil_append, traverse, ha, andThen]
  | b :: before, h => by
    rw [List.cons_append, traverse, traverse_eq_none ha after fun c hc =>
      h c (List.mem_cons_of_mem b hc)]
    cases hb : f b with
    | none => rfl
    | some y =>
      cases y with
      | error e => exact absurd hb (h b List.mem_cons_self e)
      | ok y => rfl

lemma exists_of_traverse_eq_none : ∀ {l}, traverse f l = none →
    ∃ before a after, l = before ++ a :: after ∧ (∀ b ∈ before, Returns (f b)) ∧ f a = none
  | a :: as, h => by
    rw [traverse] at h
    cases ha : f a with
    | none => exact ⟨[], a, as, rfl, List.forall_mem_nil _, ha⟩
    | some y =>
      cases y with
      | error e =>
        rw [ha] at h
        cases h
      | ok y =>
        rw [ha] at h
        obtain ⟨before, b, after, rfl, hbefore, hb⟩ :=
          exists_of_traverse_eq_none (andThen_eq_none.mp h)
        exact ⟨a :: before, b, after, rfl, List.forall_mem_cons.mpr ⟨⟨y, ha⟩, hbefore⟩, hb⟩

lemma traverse_map_eq_none {γ δ : Type} {f : β → Option (Except ε γ)} {g : α → β} {h : α → γ → δ} :
    ∀ {l}, traverse (fun a => andThen (f (g a)) fun c => some (.ok (h a c))) l = none ↔
    traverse f (l.map g) = none
  | [] => iff_of_false nofun nofun
  | a :: as => by
    rw [List.map_cons, traverse, traverse]
    rcases f (g a) with _ | (_ | _)
    · exact iff_of_true rfl rfl
    · exact iff_of_false nofun nofun
    · exact andThen_eq_none.trans (traverse_map_eq_none.trans andThen_eq_none.symm)

/-- If the first computation ends, the second ends in the same way. -/
def Refines (x y : Option α) : Prop := ∀ r, x = some r → y = some r

lemma refines_rfl (x : Option α) : Refines x x := fun _ h => h

lemma Refines.andThen {y} (hxy : Refines x y) (hfg : ∀ a, Refines (f a) (g a)) :
    Refines (andThen x f) (andThen y g) := by
  intro r hr
  cases x with
  | none => cases hr
  | some x =>
    rw [hxy x rfl]
    cases x with
    | error e => exact hr
    | ok a => exact hfg a r hr

lemma Refines.traverse (hfg : ∀ a, Refines (f a) (g a)) : ∀ l, Refines (traverse f l) (traverse g l)
  | [] => refines_rfl _
  | a :: as => (hfg a).andThen fun _ => (Refines.traverse hfg as).andThen fun _ => refines_rfl _

lemma refines_of_le {F : ℕ → Option α} (hF : ∀ n, Refines (F n) (F (n + 1))) {m n : ℕ} (h : m ≤ n) :
    Refines (F m) (F n) := by
  induction h with
  | refl => exact refines_rfl _
  | step _ ih => exact fun r hr => hF _ r (ih r hr)

/-- **A computation ends in one way**, whatever its fuel. -/
theorem eq_of_refines {F : ℕ → Option α} (hF : ∀ n, Refines (F n) (F (n + 1))) {m n : ℕ} {b : α}
    (ha : F m = some a) (hb : F n = some b) : a = b := by
  rcases Nat.le_total m n with h | h
  · exact Option.some_inj.mp ((refines_of_le hF h a ha).symm.trans hb)
  · exact Option.some_inj.mp (ha.symm.trans (refines_of_le hF h b hb))

/-- Some fuel is enough for all of a list. -/
lemma exists_forall_returns {F : ℕ → α → Option (Except ε β)}
    (hF : ∀ n a, Refines (F n a) (F (n + 1) a)) :
    ∀ {l : List α}, (∀ a ∈ l, ∃ n, Returns (F n a)) → ∃ n, ∀ a ∈ l, Returns (F n a)
  | [], _ => ⟨0, List.forall_mem_nil _⟩
  | a :: l, h => by
    obtain ⟨⟨m, y, hm⟩, hl⟩ := List.forall_mem_cons.mp h
    obtain ⟨n, hn⟩ := exists_forall_returns hF hl
    refine ⟨max m n, List.forall_mem_cons.mpr ⟨⟨y, ?_⟩, fun b hb => ?_⟩⟩
    · exact refines_of_le (fun k => hF k a) (le_max_left m n) _ hm
    · obtain ⟨z, hz⟩ := hn b hb
      exact ⟨z, refines_of_le (fun k => hF k b) (le_max_right m n) _ hz⟩

end Windmill.Lib.Fuel
