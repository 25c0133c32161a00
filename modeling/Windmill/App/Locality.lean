import Windmill.App.Args
import Windmill.Lib.Except

/-! # The arguments of a job are resolved place by place

`transform_json` and `transform_json_as_values` (`windmill-worker/src/common.rs`) resolve the
strings of the arguments whose text has a marker in it. `locality_iff` says for which arguments the
result is made from each string and the lengths of the arrays around it alone. -/

namespace Windmill.App.Locality

open Args hiding transformJson
open Execute Lib.Except Lib.JsonText List
open Lib.Records (Json)

/-! ### The functions -/

/-- `RE_RES_VAR`, on the text as it is stored. -/
def matchesText (t : RawJson) : Bool := markers.any fun m => decide (m.text <:+: t.text)

variable (W : Secrets)

/-- What both functions do with an argument that matches. -/
def transformArg (t : RawJson) : Except Error Json := parseArg W t.value >>= transformJsonValue W 0

/-- An argument of `transform_json_as_values`: one that does not match and cannot be read is null.
-/
def argAsValue (t : RawJson) : Except Error Json :=
  if matchesText t then transformArg W t else .ok ((W.parseValue t.value).getD .null)

/-- An argument that `transform_json` gives back: the text it was given, or a value written anew. -/
inductive Out where
  | kept (t : RawJson)
  | made (v : Json)

/-- The value that a reader of the argument gets. -/
def Out.value : Out → Option Json
  | .kept t => W.parseValue t.value
  | .made v => some v

/-- An argument of `transform_json`: one that does not match is given back as it is. -/
def argAsText (t : RawJson) : Except Error Out :=
  if matchesText t then (transformArg W t).map .made else .ok (.kept t)

variable (vs : Fields RawJson)

def transformJsonAsValues : Except Error (List (String × Json)) :=
  vs.entries.mapM fun v => (argAsValue W v.2).map (v.1, ·)

def transformJson : Except Error (Option (List (String × Out))) :=
  if vs.entries.any fun v => matchesText v.2 then
    (vs.entries.mapM fun v => (argAsText W v.2).map (v.1, ·)).map some
  else .ok none

/-! ### Places -/

/-- The arrays, with their lengths, and the objects around a string. The innermost is the first. -/
abbrev Place := List (Option ℕ)

def entered : Place → Bool
  | [] => true
  | none :: place => entered place
  | some length :: place => enter place.length length && entered place

def arrays (place : Place) : Place := place.filter Option.isSome

mutual

def mapStrings (F : Place → String → Except Error Json) (place : Place) : Json → Except Error Json
  | .str s => F place s
  | .arr elems => (mapElems F (some elems.length :: place) elems).map .arr
  | .obj fields => (mapFields F (none :: place) fields).map .obj
  | v => .ok v

def mapElems (F : Place → String → Except Error Json) (place : Place) : List Json → Except Error
    (List Json)
  | [] => .ok []
  | v :: rest => do
    let v' ← mapStrings F place v
    let rest' ← mapElems F place rest
    .ok (v' :: rest')

def mapFields (F : Place → String → Except Error Json) (place : Place) :
    List (String × Json) → Except Error (List (String × Json))
  | [] => .ok []
  | (k, v) :: rest => do
    let v' ← mapStrings F place v
    let rest' ← mapFields F place rest
    .ok ((k, v') :: rest')

end

mutual

def places (place : Place) : Json → List (Place × String)
  | .str s => [(place, s)]
  | .arr elems => placesElems (some elems.length :: place) elems
  | .obj fields => placesFields (none :: place) fields
  | _ => []

def placesElems (place : Place) : List Json → List (Place × String)
  | [] => []
  | v :: rest => places place v ++ placesElems place rest

def placesFields (place : Place) : List (String × Json) → List (Place × String)
  | [] => []
  | (_, v) :: rest => places place v ++ placesFields place rest

end

def resolveIf (resolve : Bool) (s : String) : Except Error Json :=
  if resolve then transformString W s else .ok (.str s)

/-- What becomes of a string is a function of the string and of the arrays around it. -/
def placeByPlace (v : Json) : Except Error Json :=
  mapStrings (fun place => resolveIf W (entered (arrays place))) [] v

/-- The arguments as `transform_json` leaves them: those it was given if it gives back none. -/
def left (kept : Option (List (String × Out))) : List (String × Out) :=
  kept.getD (vs.entries.map fun v => (v.1, .kept v.2))

/-- Both functions turn the strings of an argument, as it is read, into what becomes of them at
their places. An argument without strings may become anything. -/
def Local (out : List (String × Json)) : Prop :=
  ∃ kept, transformJson W vs = .ok kept ∧ ∀ v ∈ vs.entries, places [] v.2.value ≠ [] →
    ∃ u r, W.parseValue v.2.value = some u ∧ placeByPlace W u = .ok r ∧ (v.1, r) ∈ out ∧
      ∃ o, (v.1, o) ∈ left vs kept ∧ o.value W = some r

/-! ### Each string for itself -/

section

variable {W : Secrets} {resolve : Bool} {F G : Place → String → Except Error Json}

mutual

lemma mapStrings_resolveIf : ∀ place v,
    mapStrings (fun p => resolveIf W (resolve && entered p)) place v =
      if resolve && entered place then transformJsonValue W place.length v else .ok v
  | place, .str s => rfl
  | place, .arr elems => by
    rw [mapStrings, mapElems_resolveIf, transformJsonValue, entered, Bool.and_left_comm]
    cases resolve && entered place with
    | false =>
      rw [Bool.and_false]
      rfl
    | true =>
      rw [Bool.and_true, if_pos rfl]
      split_ifs <;> rfl
  | place, .obj fields => by
    rw [mapStrings, mapFields_resolveIf, transformJsonValue, entered]
    split_ifs <;> rfl
  | _, .null => (ite_self _).symm
  | _, .bool _ => (ite_self _).symm
  | _, .int _ => (ite_self _).symm
  | _, .float _ => (ite_self _).symm

lemma mapElems_resolveIf : ∀ place elems,
    mapElems (fun p => resolveIf W (resolve && entered p)) place elems =
      if resolve && entered place then transformElems W place.length elems else .ok elems
  | _, [] => (ite_self _).symm
  | place, v :: rest => by
    rw [mapElems, mapStrings_resolveIf, mapElems_resolveIf, transformElems]
    split_ifs <;> rfl

lemma mapFields_resolveIf : ∀ place fields,
    mapFields (fun p => resolveIf W (resolve && entered p)) place fields =
      if resolve && entered place then transformFields W place.length fields else .ok fields
  | _, [] => (ite_self _).symm
  | place, (k, v) :: rest => by
    rw [mapFields, mapStrings_resolveIf, mapFields_resolveIf, transformFields]
    split_ifs <;> rfl

end

mutual

/-- **Two ways to resolve the strings give one value** if and only if they agree on each of them. -/
theorem mapStrings_eq_iff : ∀ {place v r}, mapStrings F place v = .ok r →
    (mapStrings G place v = .ok r ↔ ∀ p ∈ places place v, G p.1 p.2 = F p.1 p.2)
  | place, .str s, r, h => by
    have h : F place s = .ok r := h
    rw [← h, places, forall_mem_singleton]
    rfl
  | place, .arr elems, r, h => by
    obtain ⟨rs, hrs, rfl⟩ := map_eq_ok.mp h
    rw [places, ← mapElems_eq_iff hrs, mapStrings, map_eq_ok]
    simp
  | place, .obj fields, r, h => by
    obtain ⟨rs, hrs, rfl⟩ := map_eq_ok.mp h
    rw [places, ← mapFields_eq_iff hrs, mapStrings, map_eq_ok]
    simp
  | _, .null, _, h => iff_of_true h (forall_mem_nil _)
  | _, .bool _, _, h => iff_of_true h (forall_mem_nil _)
  | _, .int _, _, h => iff_of_true h (forall_mem_nil _)
  | _, .float _, _, h => iff_of_true h (forall_mem_nil _)

lemma mapElems_eq_iff : ∀ {place elems rs}, mapElems F place elems = .ok rs →
    (mapElems G place elems = .ok rs ↔ ∀ p ∈ placesElems place elems, G p.1 p.2 = F p.1 p.2)
  | _, [], _, h => iff_of_true h (forall_mem_nil _)
  | place, v :: rest, rs, h => by
    obtain ⟨r, hr, h⟩ := bind_eq_ok.mp h
    obtain ⟨rs', hrs, h⟩ := bind_eq_ok.mp h
    cases h
    rw [placesElems, forall_mem_append, ← mapStrings_eq_iff hr, ← mapElems_eq_iff hrs, mapElems]
    simp [bind_eq_ok]

lemma mapFields_eq_iff : ∀ {place fields rs}, mapFields F place fields = .ok rs →
    (mapFields G place fields = .ok rs ↔ ∀ p ∈ placesFields place fields, G p.1 p.2 = F p.1 p.2)
  | _, [], _, h => iff_of_true h (forall_mem_nil _)
  | place, (k, v) :: rest, rs, h => by
    obtain ⟨r, hr, h⟩ := bind_eq_ok.mp h
    obtain ⟨rs', hrs, h⟩ := bind_eq_ok.mp h
    cases h
    rw [placesFields, forall_mem_append, ← mapStrings_eq_iff hr, ← mapFields_eq_iff hrs, mapFields]
    simp [bind_eq_ok]

end

lemma resolveIf_eq_iff {other s} :
    resolveIf W other s = resolveIf W resolve s ↔ resolve = other ∨ transformString W s = .ok
    (.str s) := by
  cases resolve <;> cases other <;> simp [resolveIf, eq_comm]

/-! ### All arguments -/

variable {vs : Fields RawJson} {out : List (String × Json)} {v : String × RawJson} {u r : Json}

/-- What becomes of an argument that is read as `u`. -/
lemma argAsValue_eq {t} (hread : W.parseValue t.value = some u) :
    argAsValue W t = mapStrings (fun p => resolveIf W (matchesText t && entered p)) [] u := by
  rw [mapStrings_resolveIf, entered, Bool.and_true, argAsValue, transformArg, parseArg, hread]
  rfl

lemma argAsValue_of_mem (h : transformJsonAsValues W vs = .ok out) (hv : v ∈ vs.entries)
    (hr : (v.1, r) ∈ out) : argAsValue W v.2 = .ok r := by
  obtain ⟨v', hv', hy⟩ := (mem_of_forall₂ (forall₂_of_mapM_eq_ok h)).2 _ hr
  obtain ⟨r', hr', heq⟩ := map_eq_ok.mp hy
  obtain ⟨hkey, rfl⟩ := Prod.mk.inj heq
  have hget : vs.get v.1 = some v'.2 := get_eq_some_iff.mpr (hkey ▸ hv')
  rw [get_eq_some_iff.mpr hv] at hget
  rwa [Option.some.inj hget]

/-- Where an argument is read, a reader of its text gets the value of the other function. -/
lemma argAsText_of_argAsValue {t} (h : argAsValue W t = .ok r) :
    ∃ o, argAsText W t = .ok o ∧ (W.parseValue t.value = some u → o.value W = some r) := by
  unfold argAsValue at h
  unfold argAsText
  split_ifs at h ⊢
  · exact ⟨.made r, by rw [h]; rfl, fun _ => rfl⟩
  · cases h
    refine ⟨.kept t, rfl, fun hread => ?_⟩
    rw [hread]
    exact hread

lemma transformJson_of_asValues (h : transformJsonAsValues W vs = .ok out) :
    ∃ kept, transformJson W vs = .ok kept ∧ ∀ v ∈ vs.entries, ∃ o, (v.1, o) ∈ left vs kept ∧
      argAsText W v.2 = .ok o := by
  have harg : ∀ v ∈ vs.entries, ∃ y, (argAsText W v.2).map (v.1, ·) = .ok y := by
    intro v hv
    obtain ⟨y, -, hy⟩ := (mem_of_forall₂ (forall₂_of_mapM_eq_ok h)).1 v hv
    obtain ⟨r, hr, -⟩ := map_eq_ok.mp hy
    obtain ⟨o, ho, -⟩ := argAsText_of_argAsValue (u := .null) hr
    exact ⟨_, by rw [ho]; rfl⟩
  unfold transformJson
  split_ifs with hany
  · obtain ⟨ys, hys⟩ := exists_mapM_eq_ok harg
    refine ⟨some ys, by rw [hys]; rfl, fun v hv => ?_⟩
    obtain ⟨y, hmem, hy⟩ := (mem_of_forall₂ (forall₂_of_mapM_eq_ok hys)).1 v hv
    obtain ⟨o, ho, rfl⟩ := map_eq_ok.mp hy
    exact ⟨o, hmem, ho⟩
  · refine ⟨none, rfl, fun v hv => ⟨.kept v.2, mem_map.mpr ⟨v, hv, rfl⟩, ?_⟩⟩
    exact if_neg fun hmatch => hany (any_eq_true.mpr ⟨v, hv, hmatch⟩)

/-- **The arguments are resolved place by place** if and only if each argument with strings can be
read, and each string that this would resolve otherwise is left as it is when it is resolved. -/
theorem locality_iff (h : transformJsonAsValues W vs = .ok out) :
    Local W vs out ↔ ∀ v ∈ vs.entries, places [] v.2.value ≠ [] →
      ∃ u, W.parseValue v.2.value = some u ∧ ∀ p ∈ places [] u,
        (matchesText v.2 && entered p.1) = entered (arrays p.1) ∨
          transformString W p.2 = .ok (.str p.2) := by
  have harg : ∀ v ∈ vs.entries, ∀ {u r}, W.parseValue v.2.value = some u → (v.1, r) ∈ out →
      (placeByPlace W u = .ok r ↔ ∀ p ∈ places [] u,
        (matchesText v.2 && entered p.1) = entered (arrays p.1) ∨
          transformString W p.2 = .ok (.str p.2)) := by
    intro v hv u r hread hr
    have hval := argAsValue_of_mem h hv hr
    rw [argAsValue_eq hread] at hval
    have hiff := mapStrings_eq_iff (G := fun place => resolveIf W (entered (arrays place))) hval
    simp only [resolveIf_eq_iff] at hiff
    exact hiff
  constructor
  · rintro ⟨kept, -, hall⟩ v hv hstr
    obtain ⟨u, r, hread, hplace, hr, -⟩ := hall v hv hstr
    exact ⟨u, hread, (harg v hv hread hr).mp hplace⟩
  · intro hall
    obtain ⟨kept, hkept, hleft⟩ := transformJson_of_asValues h
    refine ⟨kept, hkept, fun v hv hstr => ?_⟩
    obtain ⟨u, hread, hp⟩ := hall v hv hstr
    obtain ⟨y, hy, hvy⟩ := (mem_of_forall₂ (forall₂_of_mapM_eq_ok h)).1 v hv
    obtain ⟨r, hr, rfl⟩ := map_eq_ok.mp hvy
    obtain ⟨o, ho, harg'⟩ := hleft v hv
    obtain ⟨o', ho', hval⟩ := argAsText_of_argAsValue hr
    obtain rfl : o = o' := Except.ok.inj (harg'.symm.trans ho')
    exact ⟨u, r, hread, (harg v hv hread hy).mpr hp, hy, o, ho, hval hread⟩

end

def workspaceOnly : Secrets where
  parseValue := some
  variableValue _ := .error (.badRequest "")
  parseJson _ := .error (.badRequest "")
  resourceValue _ := .error (.badRequest "")
  decrypt _ := .error (.badRequest "")
  reserved := [("WM_WORKSPACE", "acme")]

def noSpaces : Ws := ⟨[], isWs_of_mem_nil⟩

def besides (s : RawString) : Fields RawJson where
  entries := [("x", .arr noSpaces
    [(noSpaces, .str (plainString "$WM_WORKSPACE".toList (by decide)), noSpaces),
    (noSpaces, .str s, noSpaces)])]
  nodup := nodup_singleton _

lemma plain_someMarker : ∀ c ∈ "a $var:".toList, c ≠ '\x22' ∧ c ≠ '\\' := by decide

def someMarker : RawString := plainString "a $var:".toList plain_someMarker

theorem variable_beside_marker :
    Local workspaceOnly (besides someMarker) [("x", .arr [.str "acme", .str "a $var:"])] := by
  refine (locality_iff rfl).mpr fun v hv _ => ⟨_, rfl, ?_⟩
  obtain rfl := mem_singleton.mp hv
  exact fun p hp => .inl (by revert p; decide)

/-- Without a marker in the second string, the first one is not resolved. -/
theorem variable_without_marker :
    transformJsonAsValues workspaceOnly (besides []) = .ok
    [("x", .arr [.str "$WM_WORKSPACE", .str ""])] ∧
    transformJsonAsValues workspaceOnly (besides someMarker) = .ok
    [("x", .arr [.str "acme", .str "a $var:"])] ∧
    ¬Local workspaceOnly (besides []) [("x", .arr [.str "$WM_WORKSPACE", .str ""])] := by
  refine ⟨rfl, rfl, ?_⟩
  rintro ⟨kept, -, hall⟩
  obtain ⟨u, r, hread, hplace, hr, -⟩ := hall _ mem_cons_self (by decide)
  cases hread
  have hacme : Except.ok (Json.arr [.str "acme", .str ""]) = Except.ok r := hplace
  cases hacme
  simp at hr

end Windmill.App.Locality
