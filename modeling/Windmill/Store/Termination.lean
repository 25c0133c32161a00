import Windmill.Store.Sharing

/-! # Whether the interpolation of a resource ends

`transform_json_value` (`windmill-store/src/resources.rs`) calls itself for the parts of arrays and
objects and for the values of the resources that are referred to. `interpolates_iff` says that it
does what it should if and only if its calls do not nest 256 deep. A resource that refers to itself
is followed for ever. -/

namespace Windmill.Store.Termination

open Values Sharing Lib.Fuel List

variable {U : Type} (W : World U) (r : Reader U) (w : String)

/-! ### What the interpolation is for -/

def interpolate : ℕ → Json → Option (Except Error Json)
  | 0, _ => none
  | fuel + 1, .string y => match followed W r w y with
    | some value => interpolate fuel value
    | none => some (readString W r w y)
  | fuel + 1, .array items =>
    andThen (traverse (interpolate fuel) items) fun items => some (.ok (.array items))
  | fuel + 1, .object fields =>
    andThen (traverse (fun field => andThen (interpolate fuel field.2) fun value =>
      some (.ok (field.1, value))) fields) fun fields => some (.ok (.object fields))
  | _ + 1, v => some (.ok v)

def parts : Json → List Json
  | .array items => items
  | .object fields => fields.map Prod.snd
  | _ => []

/-- A value that is reached through `k` containers and references. -/
inductive Inside (v : Json) : ℕ → Json → Prop
  | root : Inside v 0 v
  | part {k : ℕ} {u x : Json} (h : Inside v k u) (hx : x ∈ parts u) : Inside v (k + 1) x
  | followed {k : ℕ} {y : String} {x : Json} (h : Inside v k (.string y))
    (hx : followed W r w y = some x) : Inside v (k + 1) x

/-- The function ends, the 256 values of its counter are enough for the calls that are open at a
time, and arrays that are short and not deep are interpolated. -/
structure Interpolates (v : Json) : Prop where
  ends : ∃ fuel result, transformJsonValue W r w fuel 0 v = some result
  fits : transformJsonValue W r w 256 0 v ≠ none
  value : (∀ k items, Inside W r w v k (.array items) → k ≤ 2 ∧ items.length ≤ 1000) →
    ∃ fuel result, transformJsonValue W r w fuel 0 v = some result ∧ interpolate W r w fuel v =
    some result

/-! ### The calls -/

def Enters (depth : UInt8) : Json → Prop
  | .array items => depth ≤ 2 ∧ items.length ≤ 1000
  | _ => True

/-- The interpolation of a value comes to an end, without an error. -/
inductive Settles : UInt8 → Json → Prop
  | read {depth : UInt8} {y : String} {x : Json} (hno : followed W r w y = none)
  (hx : readString W r w y = .ok x) :
      Settles depth (.string y)
  | followed {depth : UInt8} {y : String} {u : Json} (h : followed W r w y = some u)
  (hu : Settles (depth + 1) u) :
      Settles depth (.string y)
  | parts {depth : UInt8} {v : Json} (hv : ∀ y, v ≠ .string y)
      (h : Enters depth v → ∀ u ∈ parts v, Settles (depth + 1) u) : Settles depth v

/-- The function calls itself: for a part if those before it settle, or for the value of a resource.
-/
inductive Calls (depth : UInt8) : Json → Json → Prop
  | part {v u : Json} {before after : List Json} (henters : Enters depth v)
  (hparts : parts v = before ++ u :: after)
      (hbefore : ∀ b ∈ before, Settles W r w (depth + 1) b) : Calls depth v u
  | followed {y : String} {u : Json} (h : followed W r w y = some u) : Calls depth (.string y) u

/-- Calls nest `n` deep. -/
def Nested : ℕ → UInt8 → Json → Prop
  | 0, _, _ => True
  | n + 1, depth, v => ∃ u, Calls W r w depth v u ∧ Nested n (depth + 1) u

variable {W r w} {n : ℕ} {depth : UInt8} {v : Json}

lemma transformJsonValue_parts (hv : ∀ y, v ≠ .string y) : transformJsonValue W r w
    (n + 1) depth v = none ↔
    Enters depth v ∧ Lib.Fuel.traverse (transformJsonValue W r w n (depth + 1))
    (parts v) = none := by
  cases v with
  | string y => exact absurd rfl (hv y)
  | array items =>
    rw [transformJsonValue, Enters, parts]
    split_ifs with henter
    · rw [andThen_eq_none, and_iff_right henter]
    · exact iff_of_false (fun h => by cases h) fun h => henter h.1
  | object fields =>
    rw [transformJsonValue, andThen_eq_none, traverse_map_eq_none]
    exact (and_iff_right trivial).symm
  | _ => exact iff_of_false (fun h => by cases h) fun h => by cases h.2

lemma returns_parts (hv : ∀ y, v ≠ .string y) : Returns (transformJsonValue W r w (n + 1) depth v) ↔
    (Enters depth v → ∀ u ∈ parts v, Returns (transformJsonValue W r w n (depth + 1) u)) := by
  cases v with
  | string y => exact absurd rfl (hv y)
  | array items =>
    rw [transformJsonValue, Enters, parts]
    split_ifs with henter
    · rw [returns_andThen, returns_traverse]
      exact ⟨fun h _ => h, fun h => h henter⟩
    · exact iff_of_true ⟨_, rfl⟩ fun h => absurd h henter
  | object fields =>
    rw [transformJsonValue, returns_andThen, returns_traverse]
    simp only [returns_andThen, Enters, parts, forall_mem_map, forall_const]
  | _ => exact iff_of_true ⟨_, rfl⟩ fun _ => forall_mem_nil _

/-- **A value settles** if and only if some fuel is enough for it and there is no error. -/
theorem settles_iff : Settles W r w depth v ↔ ∃ n, Returns
    (transformJsonValue W r w n depth v) := by
  constructor
  · intro h
    induction h with
    | read hno hx => exact ⟨1, _, by rw [transformJsonValue_string, hno, hx]⟩
    | followed h hu ih =>
      obtain ⟨n, x, hx⟩ := ih
      exact ⟨n + 1, x, by rw [transformJsonValue_string, h]; exact hx⟩
    | @parts depth v hv h ih =>
      by_cases henter : Enters depth v
      · obtain ⟨n, hn⟩ := exists_forall_returns (fun k => transformJsonValue_refines k (depth + 1))
          (ih henter)
        exact ⟨n + 1, (returns_parts hv).mpr fun _ => hn⟩
      · exact ⟨1, (returns_parts hv).mpr fun h => absurd h henter⟩
  · rintro ⟨n, hn⟩
    induction n generalizing depth v with
    | zero => obtain ⟨x, hx⟩ := hn; cases hx
    | succ n ih =>
      by_cases hv : ∃ y, v = .string y
      · obtain ⟨y, rfl⟩ := hv
        rw [transformJsonValue_string] at hn
        cases hy : followed W r w y with
        | none =>
          rw [hy] at hn
          obtain ⟨x, hx⟩ := hn
          exact .read hy (Option.some.inj hx)
        | some u =>
          rw [hy] at hn
          exact .followed hy (ih hn)
      · rw [not_exists] at hv
        exact .parts hv fun henter u hu => ih ((returns_parts hv).mp hn henter u hu)

/-- **The fuel is used up** if and only if the calls nest that deep. -/
theorem eq_none_iff_nested : ∀ {n : ℕ} {depth} {v},
    transformJsonValue W r w n depth v = none ↔ Nested W r w n depth v
  | 0, _, _ => iff_of_true rfl trivial
  | n + 1, depth, v => by
    by_cases hv : ∃ y, v = .string y
    · obtain ⟨y, rfl⟩ := hv
      rw [transformJsonValue_string]
      constructor
      · intro h
        cases hy : followed W r w y with
        | none => simp [hy] at h
        | some u =>
          rw [hy] at h
          exact ⟨u, .followed hy, eq_none_iff_nested.mp h⟩
      · rintro ⟨u, hcall, hnest⟩
        cases hcall with
        | part _ hparts _ => cases append_eq_nil_iff.mp hparts.symm |>.2
        | followed hy =>
          rw [hy]
          exact eq_none_iff_nested.mpr hnest
    · rw [not_exists] at hv
      rw [transformJsonValue_parts hv]
      constructor
      · rintro ⟨henters, hnone⟩
        obtain ⟨before, u, after, hparts, hbefore, hu⟩ := exists_of_traverse_eq_none hnone
        exact ⟨u, .part henters hparts fun b hb => settles_iff.mpr ⟨n, hbefore b hb⟩,
          eq_none_iff_nested.mp hu⟩
      rintro ⟨u, hcall, hnest⟩
      cases hcall with
      | part henters hparts hbefore =>
        rw [hparts]
        refine ⟨henters, traverse_eq_none (eq_none_iff_nested.mpr hnest) _ fun b hb => ?_⟩
        obtain ⟨fuel, x, hx⟩ := settles_iff.mp (hbefore b hb)
        exact fun e hn => by cases eq_of_refines (fun k => transformJsonValue_refines k _ _) hx hn
      | followed _ => exact absurd rfl (hv _)

lemma transformJsonValue_eq
    (hshallow : ∀ k items, Inside W r w v k (.array items) → k ≤ 2 ∧ items.length ≤ 1000) :
    ∀ {n k : ℕ} {u}, Inside W r w v k u → transformJsonValue W r w n
    (UInt8.ofNat k) u = interpolate W r w n u
  | 0, _, _, _ => rfl
  | n + 1, k, u, h => by
    have hnext : UInt8.ofNat k + 1 = UInt8.ofNat (k + 1) := (UInt8.ofNat_add k 1).symm
    cases u with
    | string y =>
      rw [transformJsonValue_string, interpolate, hnext]
      cases hy : followed W r w y with
      | none => rfl
      | some value => exact transformJsonValue_eq hshallow (.followed h hy)
    | array items =>
      obtain ⟨hk, hlen⟩ := hshallow k items h
      have hdepth : UInt8.ofNat k ≤ 2 := by interval_cases k <;> decide
      rw [transformJsonValue, if_pos ⟨hdepth, hlen⟩, hnext]
      congr 1
      exact traverse_congr fun u hu => transformJsonValue_eq hshallow (.part h hu)
    | object fields =>
      rw [transformJsonValue, hnext]
      congr 1
      refine traverse_congr fun field hfld => ?_
      rw [transformJsonValue_eq hshallow (.part h (mem_map_of_mem hfld))]
    | _ => rfl

/-- **A value is interpolated** if and only if the calls do not nest 256 deep. -/
theorem interpolates_iff : Interpolates W r w v ↔ ¬Nested W r w 256 0 v := by
  rw [← eq_none_iff_nested]
  refine ⟨fun h => h.fits, fun h => ?_⟩
  obtain ⟨result, hres⟩ := Option.ne_none_iff_exists'.mp h
  refine ⟨⟨256, result, hres⟩, h, fun hshallow => ⟨256, result, hres, ?_⟩⟩
  rw [← transformJsonValue_eq hshallow .root]
  exact hres

def selfReferring : World Bool :=
  { twoUsers with resourceRow := fun _ path =>
    if path = "u/a/b" then some ⟨some (.string "$res:u/a/b"), ""⟩ else none }

def server : Reader Bool := ⟨.db "", none, none⟩

theorem self_reference_never_ends :
    (∀ fuel depth, transformJsonValue selfReferring server "" fuel depth
    (.string "$res:u/a/b") = none) ∧ ¬Interpolates selfReferring server ""
    (.string "$res:u/a/b") := by
  have hnone : ∀ fuel depth, transformJsonValue selfReferring server "" fuel depth
      (.string "$res:u/a/b") = none := by
    intro fuel
    induction fuel with
    | zero => exact fun _ => rfl
    | succ fuel ih => exact fun depth => ih (depth + 1)
  exact ⟨hnone, fun h => h.fits (hnone 256 0)⟩

end Windmill.Store.Termination
