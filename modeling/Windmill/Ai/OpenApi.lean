import Mathlib.Tactic

/-! # Schemas of structured answers

`OpenAPISchema` and its conversion for the strict mode of OpenAI: `allOf` is merged into the schema,
objects forbid other properties and list all of theirs as required, and a property that was not
required becomes nullable. Such a property has a list of types, so an object in it is not visited:
`strict_makeStrict_iff` says what must hold there before. With enough fuel the conversion does not
depend on it (`makeStrict_eq`). -/

namespace Windmill.Ai.OpenApi

open List

inductive SchemaType where
  | single (type : String)
  | multiple (types : List String)
  deriving DecidableEq

/-- A JSON value, with numbers `ν`. -/
inductive Json (ν : Type) where
  | null
  | bool (b : Bool)
  | num (x : ν)
  | str (s : String)
  | arr (elems : List (Json ν))
  | obj (members : List (String × Json ν))

inductive AdditionalProperties (σ : Type) where
  | bool (b : Bool)
  | schema (s : σ)

structure Fields (ν σ : Type) where
  type : Option SchemaType := none
  items : Option σ := none
  properties : Option (List (String × σ)) := none
  required : Option (List String) := none
  oneOf : Option (List σ) := none
  format : Option String := none
  enum : Option (List String) := none
  additionalProperties : Option (AdditionalProperties σ) := none
  title : Option String := none
  description : Option String := none
  refPath : Option String := none
  defs : Option (List (String × σ)) := none
  definitions : Option (List (String × σ)) := none
  allOf : Option (List σ) := none
  anyOf : Option (List σ) := none
  const : Option (Json ν) := none
  pattern : Option String := none
  minLength : Option ℕ := none
  maxLength : Option ℕ := none
  minimum : Option ν := none
  maximum : Option ν := none
  exclusiveMinimum : Option ν := none
  exclusiveMaximum : Option ν := none
  multipleOf : Option ν := none
  minItems : Option ℕ := none
  maxItems : Option ℕ := none

/-- `OpenAPISchema`, with its nested schemas. -/
inductive Schema (ν : Type) where
  | mk (fields : Fields ν (Schema ν))

variable {ν σ : Type}

def Schema.fields : Schema ν → Fields ν (Schema ν)
  | .mk f => f

def values (m : Option (List (String × σ))) : List σ := (m.getD []).map Prod.snd

def Fields.reached (f : Fields ν σ) : List σ :=
  f.items.toList ++ (f.oneOf.getD [] ++
    (f.anyOf.getD [] ++ (values f.defs ++ values f.definitions)))

def AdditionalProperties.schemas : AdditionalProperties σ → List σ
  | .bool _ => []
  | .schema s => [s]

def Fields.children (f : Fields ν σ) : List σ :=
  values f.properties ++ (f.reached ++
    (f.allOf.getD [] ++ (f.additionalProperties.map (·.schemas)).getD []))

/-! ### Merging -/

section
variable [LinearOrder ν]

def mergeMap (own other : Option (List (String × σ))) : Option (List (String × σ)) :=
  match other with
  | none => own
  | some other => some (own.getD [] ++ other.filter fun e => e.1 ∉ (own.getD []).map Prod.fst)

def mergeList (own other : Option (List String)) : Option (List String) :=
  match other with
  | none => own
  | some other => some (other.foldl (fun l x => if x ∈ l then l else l ++ [x]) (own.getD []))

def tighter {α : Type} (op : α → α → α) (own other : Option α) : Option α :=
  match own, other with
  | some a, some b => some (op a b)
  | none, some b => some b
  | a, none => a

def mergeFrom (f other : Fields ν σ) : Fields ν σ :=
  { f with
    type := f.type.or other.type
    properties := mergeMap f.properties other.properties
    required := mergeList f.required other.required
    items := f.items.or other.items
    additionalProperties := f.additionalProperties.or other.additionalProperties
    format := f.format.or other.format
    enum := mergeList f.enum other.enum
    title := f.title.or other.title
    description := f.description.or other.description
    defs := mergeMap f.defs other.defs
    definitions := mergeMap f.definitions other.definitions
    minimum := tighter max f.minimum other.minimum
    maximum := tighter min f.maximum other.maximum
    minLength := tighter max f.minLength other.minLength
    maxLength := tighter min f.maxLength other.maxLength
    minItems := tighter max f.minItems other.minItems
    maxItems := tighter min f.maxItems other.maxItems
    pattern := f.pattern.or other.pattern }

/-- The members of `allOf` are flattened themselves and merged one after the other. -/
def flattenAllOf : ℕ → Schema ν → Schema ν
  | 0, s => s
  | n + 1, s =>
    .mk ((s.fields.allOf.getD []).foldl (fun f m => mergeFrom f (flattenAllOf n m).fields)
      { s.fields with allOf := none })

/-! ### Strict mode -/

def nullable : Option SchemaType → SchemaType
  | some (.single t) => if t ≠ "null" then .multiple [t, "null"] else .single "null"
  | some (.multiple ts) => .multiple (if "null" ∈ ts then ts else ts ++ ["null"])
  | none => .single "null"

def makeNullable (s : Schema ν) : Schema ν :=
  .mk { s.fields with type := some (nullable s.fields.type) }

def notRequired (required : Option (List String)) (key : String) : Bool :=
  required.any fun r => key ∉ r

def property (required : Option (List String)) (e : String × Schema ν) : Schema ν :=
  if notRequired required e.1 then makeNullable e.2 else e.2

def isObject (type : Option SchemaType) : Prop := type = some (.single "object")

instance (type : Option SchemaType) : Decidable (isObject type) :=
  inferInstanceAs (Decidable (_ = _))

def strictObject (strict : Schema ν → Schema ν) (f : Fields ν (Schema ν)) : Fields ν (Schema ν) :=
  { f with
    additionalProperties := f.additionalProperties.or (some (.bool false))
    properties := f.properties.map (List.map fun e => (e.1, strict (property f.required e)))
    required := (f.properties.map (List.map Prod.fst)).or f.required }

def mapValues (g : σ → σ) (m : Option (List (String × σ))) : Option (List (String × σ)) :=
  m.map (List.map fun e => (e.1, g e.2))

def strictNested (strict : σ → σ) (f : Fields ν σ) : Fields ν σ :=
  { f with
    items := f.items.map strict
    oneOf := f.oneOf.map (List.map strict)
    anyOf := f.anyOf.map (List.map strict)
    defs := mapValues strict f.defs
    definitions := mapValues strict f.definitions }

/-- `make_strict`, with fuel for the depth. -/
def makeStrict : ℕ → Schema ν → Schema ν
  | 0, s => s
  | n + 1, s =>
    let f := (flattenAllOf (n + 1) s).fields
    .mk (strictNested (makeStrict n) (if isObject f.type then strictObject (makeStrict n) f else f))

end

/-! ### Depth -/

lemma sizeOf_lt_of_mem_values {m : Option (List (String × Schema ν))} {c : Schema ν}
    (h : c ∈ values m) : sizeOf c < sizeOf m := by
  cases m with
  | none => cases h
  | some l =>
    obtain ⟨⟨k, c⟩, he, rfl⟩ := mem_map.mp h
    have hsize := sizeOf_lt_of_mem (show (k, c) ∈ l from he)
    simp only [Option.some.sizeOf_spec, Prod.mk.sizeOf_spec] at hsize ⊢
    omega

lemma sizeOf_lt_of_mem_list {m : Option (List (Schema ν))} {c : Schema ν} (h : c ∈ m.getD []) :
    sizeOf c < sizeOf m := by
  cases m with
  | none => cases h
  | some l =>
    have hsize := sizeOf_lt_of_mem (show c ∈ l from h)
    simp only [Option.some.sizeOf_spec]
    omega

lemma sizeOf_child : ∀ {s c : Schema ν}, c ∈ s.fields.children → sizeOf c < sizeOf s
  | .mk f, c, h => by
    obtain ⟨_, items, _, _, _, _, _, additional, _⟩ := f
    simp only [Schema.fields, Fields.children, Fields.reached, mem_append] at h
    simp only [Schema.mk.sizeOf_spec, Fields.mk.sizeOf_spec]
    rcases h with h | (h | h | h | h | h) | h | h
    all_goals first
      | have := sizeOf_lt_of_mem_values h; omega
      | have := sizeOf_lt_of_mem_list h; omega
      | skip
    · cases items with
      | none => cases h
      | some s => cases mem_singleton.mp h; simp only [Option.some.sizeOf_spec]; omega
    rcases additional with _ | _ | s
    · cases h
    · cases h
    · cases mem_singleton.mp h
      simp only [Option.some.sizeOf_spec, AdditionalProperties.schema.sizeOf_spec]
      omega

/-- How deep the schemas in a schema are nested. -/
def Schema.height (s : Schema ν) : ℕ :=
  (s.fields.children.attach.map fun c => height c.1).foldr max 0 + 1
termination_by sizeOf s
decreasing_by exact sizeOf_child c.2

lemma height_child {s c : Schema ν} (h : c ∈ s.fields.children) : c.height < s.height := by
  rw [Schema.height.eq_1 s, Nat.lt_succ_iff]
  exact le_max_of_le (mem_map.mpr ⟨⟨c, h⟩, mem_attach _ _, rfl⟩) le_rfl

lemma height_property {required : Option (List String)} {e : String × Schema ν} :
    (property required e).height = e.2.height := by
  unfold property
  split_ifs
  · rw [Schema.height, Schema.height]
    rfl
  · rfl

/-! ### Enough fuel -/

lemma strictNested_congr {g g' : σ → σ} {f : Fields ν σ} (h : ∀ c ∈ f.reached, g c = g' c) :
    strictNested g f = strictNested g' f := by
  simp only [Fields.reached, mem_append, values, mem_map] at h
  have hitems : f.items.map g = f.items.map g' := Option.map_congr fun c hc =>
    h c (.inl (by simp [Option.mem_def.mp hc]))
  have honeOf : f.oneOf.map (map g) = f.oneOf.map (map g') := Option.map_congr fun l hl =>
    map_congr_left fun c hc => h c (.inr (.inl (by simpa [Option.mem_def.mp hl] using hc)))
  have hanyOf : f.anyOf.map (map g) = f.anyOf.map (map g') := Option.map_congr fun l hl =>
    map_congr_left fun c hc => h c (.inr (.inr (.inl (by simpa [Option.mem_def.mp hl] using hc))))
  have hdefs : mapValues g f.defs = mapValues g' f.defs := Option.map_congr fun l hl =>
    map_congr_left fun e he => by
      rw [h e.2 (.inr (.inr (.inr (.inl ⟨e, by simpa [Option.mem_def.mp hl] using he, rfl⟩))))]
  have hdefinitions : mapValues g f.definitions = mapValues g' f.definitions :=
    Option.map_congr fun l hl => map_congr_left fun e he => by
      rw [h e.2 (.inr (.inr (.inr (.inr ⟨e, by simpa [Option.mem_def.mp hl] using he, rfl⟩))))]
  rw [strictNested, strictNested, hitems, honeOf, hanyOf, hdefs, hdefinitions]

lemma strictObject_congr {g g' : Schema ν → Schema ν} {f : Fields ν (Schema ν)}
    (h : ∀ e ∈ f.properties.getD [], g (property f.required e) = g' (property f.required e)) :
    strictObject g f = strictObject g' f := by
  have hprops : f.properties.map (map fun e => (e.1, g (property f.required e))) =
      f.properties.map (map fun e => (e.1, g' (property f.required e))) :=
      Option.map_congr fun l hl =>
    map_congr_left fun e he => by rw [h e (by simpa [Option.mem_def.mp hl] using he)]
  rw [strictObject, strictObject, hprops]

section

variable [LinearOrder ν] {f g : Fields ν σ} {c : σ}

lemma mem_values_mergeMap {own other} (h : c ∈ values (mergeMap own other)) :
    c ∈ values own ∨ c ∈ values other := by
  obtain ⟨e, he, rfl⟩ := mem_map.mp h
  cases other with
  | none => exact .inl (mem_map_of_mem he)
  | some other =>
    obtain he | he := mem_append.mp he
    · exact .inl (mem_map_of_mem he)
    · exact .inr (mem_map_of_mem (mem_filter.mp he).1)

lemma mem_children_mergeFrom (h : c ∈ (mergeFrom f g).children) :
    c ∈ f.children ∨ c ∈ g.children := by
  simp only [Fields.children, Fields.reached, mergeFrom, mem_append] at h ⊢
  obtain h | (h | h | h | h | h) | h | h := h
  · exact (mem_values_mergeMap h).imp (by tauto) (by tauto)
  · cases hitems : f.items with
    | none =>
      rw [hitems] at h
      tauto
    | some c' =>
      rw [hitems] at h
      tauto
  · tauto
  · tauto
  · exact (mem_values_mergeMap h).imp (by tauto) (by tauto)
  · exact (mem_values_mergeMap h).imp (by tauto) (by tauto)
  · tauto
  · cases hadd : f.additionalProperties with
    | none =>
      rw [hadd] at h
      tauto
    | some a =>
      rw [hadd] at h
      tauto

end

section

variable [LinearOrder ν]

lemma height_child_flattenAllOf : ∀ {n : ℕ} {s c : Schema ν},
    c ∈ (flattenAllOf n s).fields.children → c.height < s.height
  | 0, _, _, h => height_child h
  | n + 1, s, c, h => by
    have hfold : ∀ (l : List (Schema ν)) (f : Fields ν (Schema ν)), (∀ m ∈ l, m.height < s.height) →
        (∀ c ∈ f.children, c.height < s.height) →
        ∀ c ∈ (l.foldl (fun f m => mergeFrom f (flattenAllOf n m).fields) f).children,
        c.height < s.height := by
      intro l
      induction l with
      | nil => exact fun f _ hf => hf
      | cons m l ih =>
        intro f hl hf
        obtain ⟨hm, hl⟩ := forall_mem_cons.mp hl
        refine ih _ hl fun c hc => ?_
        obtain hc | hc := mem_children_mergeFrom hc
        · exact hf c hc
        · exact (height_child_flattenAllOf hc).trans hm
    refine hfold _ _ (fun m hm => height_child ?_) (fun c hc => height_child ?_) c h
    · simp only [Fields.children, mem_append]
      exact .inr (.inr (.inl hm))
    · simp only [Fields.children, mem_append] at hc ⊢
      exact hc.imp_right (Or.imp_right (Or.imp_left (absurd · not_mem_nil)))

lemma flattenAllOf_eq : ∀ {n m : ℕ} {s : Schema ν}, s.height ≤ n → s.height ≤ m →
    flattenAllOf n s = flattenAllOf m s
  | n + 1, m + 1, s, hn, hm => by
    refine congrArg Schema.mk (foldl_ext _ _ _ fun f c hc => ?_)
    have hlt : c.height < s.height := height_child (by simp [Fields.children, hc])
    rw [flattenAllOf_eq (n := n) (m := m) (by omega) (by omega)]
  | 0, _, s, hn, _ => absurd hn (by rw [Schema.height]; omega)
  | _, 0, s, _, hm => absurd hm (by rw [Schema.height]; omega)

/-- **With enough fuel the conversion does not depend on it.** -/
theorem makeStrict_eq : ∀ {n m : ℕ} {s : Schema ν}, s.height ≤ n → s.height ≤ m →
    makeStrict n s = makeStrict m s
  | n + 1, m + 1, s, hn, hm => by
    have hchild : ∀ c ∈ (flattenAllOf (m + 1) s).fields.children, c.height ≤ n ∧ c.height ≤ m :=
      fun c hc => by
      have := height_child_flattenAllOf hc
      omega
    rw [makeStrict, makeStrict, flattenAllOf_eq hn hm]
    generalize (flattenAllOf (m + 1) s).fields = f at hchild
    simp only [Fields.children, mem_append] at hchild
    have hreached : ∀ c ∈ f.reached, makeStrict n c = makeStrict m c := fun c hc =>
      makeStrict_eq (hchild c (.inr (.inl hc))).1 (hchild c (.inr (.inl hc))).2
    have hobject : strictObject (makeStrict n) f = strictObject (makeStrict m) f :=
      strictObject_congr fun e he => by
        have hle := hchild e.2 (.inl (mem_map_of_mem he))
        rw [← @height_property _ f.required e] at hle
        exact makeStrict_eq hle.1 hle.2
    refine congrArg Schema.mk ?_
    split_ifs
    · rw [hobject]
      exact strictNested_congr hreached
    · exact strictNested_congr hreached
  | 0, _, s, hn, _ => absurd hn (by rw [Schema.height]; omega)
  | _, 0, s, _, hm => absurd hm (by rw [Schema.height]; omega)

end

/-! ### What the strict mode reaches -/

def hasObject : Option SchemaType → Prop
  | some (.single t) => t = "object"
  | some (.multiple ts) => "object" ∈ ts
  | none => False

/-- What the strict mode asks of one schema. -/
def Fields.Strict (f : Fields ν σ) : Prop :=
  f.allOf = none ∧ (hasObject f.type → f.additionalProperties ≠ none ∧
    ∀ ps, f.properties = some ps → ∃ r, f.required = some r ∧ ∀ key, key ∈ r ↔
    key ∈ ps.map Prod.fst)

inductive Reachable : Schema ν → Schema ν → Prop
  | refl (s) : Reachable s s
  | step {s c t} : c ∈ values s.fields.properties ++ s.fields.reached → Reachable c t →
    Reachable s t

/-- All schemas that are reached are strict. -/
def Strict (s : Schema ν) : Prop := ∀ t, Reachable s t → t.fields.Strict

lemma strict_iff_children {s : Schema ν} :
    Strict s ↔ s.fields.Strict ∧ (∀ c ∈ values s.fields.properties, Strict c) ∧
    ∀ c ∈ s.fields.reached, Strict c := by
  constructor
  · exact fun h => ⟨h s (.refl s), fun c hc t ht => h t (.step (mem_append_left _ hc) ht),
      fun c hc t ht => h t (.step (mem_append_right _ hc) ht)⟩
  · rintro ⟨hs, hprops, hreach⟩ t (_ | ⟨hc, ht⟩)
    · exact hs
    · exact (mem_append.mp hc).elim (fun hc => hprops _ hc t ht) fun hc => hreach _ hc t ht

lemma values_map (g : String × σ → σ) (m : Option (List (String × σ))) :
    values (m.map (map fun e => (e.1, g e))) = (m.getD []).map g := by
  cases m with
  | none => rfl
  | some l => simp [values, Function.comp_def]

lemma reached_strictNested (g : σ → σ) (f : Fields ν σ) :
    (strictNested g f).reached = f.reached.map g := by
  have hlist : ∀ l : Option (List σ), (l.map (map g)).getD [] = (l.getD []).map g :=
    fun l => by cases l <;> rfl
  have hitems : (f.items.map g).toList = f.items.toList.map g := by cases f.items <;> rfl
  have hvals : ∀ m : Option (List (String × σ)), values (mapValues g m) = (values m).map g :=
    fun m =>
    (values_map (fun e => g e.2) m).trans (by simp [values, Function.comp_def])
  simp only [Fields.reached, strictNested, hlist, hitems, hvals, map_append]

lemma strict_strictObject {f} (h : f.allOf = none) (g : Schema ν → Schema ν) :
    (strictNested g (strictObject g f)).Strict := by
  refine ⟨h, fun _ => ⟨?_, fun ps hps => ?_⟩⟩
  · simp only [strictNested, strictObject]
    cases f.additionalProperties <;> exact nofun
  · obtain ⟨qs, hqs, rfl⟩ := Option.map_eq_some_iff.mp hps
    exact ⟨qs.map Prod.fst, by simp [strictNested, strictObject, hqs], by simp⟩

variable [LinearOrder ν]

lemma allOf_flattenAllOf (n : ℕ) (s : Schema ν) : (flattenAllOf (n + 1) s).fields.allOf = none := by
  have hfold : ∀ (l : List (Schema ν)) (f : Fields ν (Schema ν)), f.allOf = none →
      (l.foldl (fun f m => mergeFrom f (flattenAllOf n m).fields) f).allOf = none := by
    intro l
    induction l with
    | nil => exact fun f hf => hf
    | cons m l ih => exact fun f hf => ih _ hf
  exact hfold _ _ rfl

/-- What must hold for the strict mode to reach everything: where the type is not exactly `object`,
the properties are not visited, so these and the schema itself must be strict already. -/
def Reaches : ℕ → Schema ν → Prop
  | 0, s => Strict s
  | n + 1, s =>
    let f := (flattenAllOf (n + 1) s).fields
    (if isObject f.type then ∀ e ∈ f.properties.getD [], Reaches n (property f.required e)
      else f.Strict ∧ ∀ c ∈ values f.properties, Strict c) ∧
    ∀ c ∈ f.reached, Reaches n c

/-- **A schema is strict after the conversion exactly if it was strict wherever properties are not
visited.** -/
theorem strict_makeStrict_iff : ∀ (n : ℕ) (s : Schema ν), Strict (makeStrict n s) ↔ Reaches n s
  | 0, _ => Iff.rfl
  | n + 1, s => by
    have ih := strict_makeStrict_iff n
    have hallOf := allOf_flattenAllOf n s
    rw [strict_iff_children, makeStrict, Reaches]
    generalize (flattenAllOf (n + 1) s).fields = f at hallOf ⊢
    simp only [Schema.fields, reached_strictNested]
    split_ifs with hobject
    · have hprops : values (strictNested (makeStrict n) (strictObject (makeStrict n) f)).properties
          = (f.properties.getD []).map fun e => makeStrict n (property f.required e) :=
          values_map _ _
      rw [hprops, and_iff_right (strict_strictObject hallOf _), forall_mem_map, forall_mem_map]
      exact and_congr (forall₂_congr fun e _ => ih _) (forall₂_congr fun c _ => ih c)
    · rw [← and_assoc, forall_mem_map]
      exact and_congr Iff.rfl (forall₂_congr fun c _ => ih c)

def optionalObject : Schema ℕ := .mk
  { type := some (.single "object"), required := some []
    properties := some [("o", .mk
      { type := some (.single "object"), properties :=
        some [("x", .mk { type := some (.single "string") })] })] }

/-- It becomes nullable and is not visited: it does not forbid other properties. -/
theorem optional_object_not_strict : ¬ Strict (makeStrict 3 optionalObject) := fun h => by
  have hch := h _ (.step mem_cons_self (.refl _))
  exact (hch.2 mem_cons_self).1 rfl

end Windmill.Ai.OpenApi
