import Windmill.Ai.OpenApi

/-! # Which values a schema accepts

`Demands` says what the fields of a schema demand of a JSON value, given what the schemas in it
accept; `Accepts` is the relation that meets this at every schema. Merging a member of `allOf`
forgets some of what it demands (`Forgotten`): a value of the flattened schema is accepted by the
schema exactly if it meets what was forgotten (`accepts_iff_flattenAllOf`). -/

namespace Windmill.Ai.Values

open OpenApi List

variable {ν σ : Type} {v : Json ν}

/-- The parts of the meaning of a schema that are left open: formats and patterns of texts, integers
and multiples, and the values that a reference stands for. -/
structure Meaning (ν : Type) where
  format : String → String → Prop
  pattern : String → String → Prop
  integer : ν → Prop
  multiple : ν → ν → Prop
  ref : String → Json ν → Prop

variable (M : Meaning ν)

def isType (type : String) : Json ν → Prop
  | .null => type = "null"
  | .bool _ => type = "boolean"
  | .num x => type = "number" ∨ type = "integer" ∧ M.integer x
  | .str _ => type = "string"
  | .arr _ => type = "array"
  | .obj _ => type = "object"

def hasType (v : Json ν) : SchemaType → Prop
  | .single t => isType M t v
  | .multiple ts => ∃ t ∈ ts, isType M t v

def member (key : String) : Json ν → Option (Json ν)
  | .obj members => members.lookup key
  | _ => none

def keys (m : Option (List (String × σ))) : List String := (m.getD []).map Prod.fst

def allows (A : σ → Json ν → Prop) (v : Json ν) : AdditionalProperties σ → Prop
  | .bool b => b = true
  | .schema s => A s v

/-- What the fields demand of a value, where `A` is what the schemas in them accept. -/
structure Demands [LinearOrder ν] (A : σ → Json ν → Prop) (f : Fields ν σ) (v : Json ν) : Prop where
  type : ∀ t ∈ f.type, hasType M v t
  enum : ∀ e ∈ f.enum, ∃ x ∈ e, v = .str x
  const : ∀ c ∈ f.const, v = c
  items : ∀ s ∈ f.items, ∀ xs, v = .arr xs → ∀ x ∈ xs, A s x
  minItems : ∀ n ∈ f.minItems, ∀ xs, v = .arr xs → n ≤ xs.length
  maxItems : ∀ n ∈ f.maxItems, ∀ xs, v = .arr xs → xs.length ≤ n
  properties : ∀ e ∈ f.properties.getD [], ∀ w ∈ member e.1 v, A e.2 w
  additional : ∀ a ∈ f.additionalProperties, ∀ key, key ∉ keys f.properties →
    ∀ w ∈ member key v, allows A w a
  required : ∀ r ∈ f.required, ∀ members, v = .obj members → ∀ key ∈ r, (member key v).isSome
  allOf : ∀ l ∈ f.allOf, ∀ s ∈ l, A s v
  anyOf : ∀ l ∈ f.anyOf, ∃ s ∈ l, A s v
  oneOf : ∀ l ∈ f.oneOf, ∃ l₁ s l₂, l = l₁ ++ s :: l₂ ∧ A s v ∧ ∀ t ∈ l₁ ++ l₂, ¬ A t v
  ref : ∀ r ∈ f.refPath, M.ref r v
  format : ∀ t ∈ f.format, ∀ x, v = .str x → M.format t x
  pattern : ∀ t ∈ f.pattern, ∀ x, v = .str x → M.pattern t x
  minLength : ∀ n ∈ f.minLength, ∀ x, v = .str x → n ≤ x.length
  maxLength : ∀ n ∈ f.maxLength, ∀ x, v = .str x → x.length ≤ n
  minimum : ∀ n ∈ f.minimum, ∀ x, v = .num x → n ≤ x
  maximum : ∀ n ∈ f.maximum, ∀ x, v = .num x → x ≤ n
  exclusiveMinimum : ∀ n ∈ f.exclusiveMinimum, ∀ x, v = .num x → n < x
  exclusiveMaximum : ∀ n ∈ f.exclusiveMaximum, ∀ x, v = .num x → x < n
  multipleOf : ∀ n ∈ f.multipleOf, ∀ x, v = .num x → M.multiple n x

variable [LinearOrder ν]

/-- The value is valid for the schema. -/
def Accepts (s : Schema ν) (v : Json ν) : Prop :=
  Demands M (fun c w => ∃ _ : sizeOf c < sizeOf s, Accepts c w) s.fields v
termination_by sizeOf s

variable {M} {A B : σ → Json ν → Prop}

variable {f g : Fields ν σ} {own other : Option (List String)} {P : String → Prop}

lemma Demands.congr (h : Demands M A f v)
    (hAB : ∀ c ∈ f.children, ∀ w, A c w ↔ B c w) : Demands M B f v := by
  simp only [Fields.children, Fields.reached, mem_append] at hAB
  refine { h with
    items := ?_, properties := ?_, additional := ?_, allOf := ?_, anyOf := ?_, oneOf := ?_ }
  · exact fun s hs xs hxs x hx =>
      (hAB s (by simp [Option.mem_def.mp hs]) x).mp (h.items s hs xs hxs x hx)
  · exact fun e he w hw => (hAB e.2 (.inl (mem_map_of_mem he)) w).mp (h.properties e he w hw)
  · intro a ha key hkey w hw
    have hallows := h.additional a ha key hkey w hw
    cases a with
    | bool b => exact hallows
    | schema s =>
      exact (hAB s (by simp [Option.mem_def.mp ha, AdditionalProperties.schemas]) w).mp hallows
  · exact fun l hl s hs => (hAB s (by simp [Option.mem_def.mp hl, hs]) v).mp (h.allOf l hl s hs)
  · intro l hl
    obtain ⟨s, hs, hacc⟩ := h.anyOf l hl
    exact ⟨s, hs, (hAB s (by simp [Option.mem_def.mp hl, hs]) v).mp hacc⟩
  · intro l hl
    obtain ⟨l₁, s, l₂, rfl, hacc, hothers⟩ := h.oneOf l hl
    have hch : ∀ t ∈ l₁ ++ s :: l₂, A t v ↔ B t v :=
      fun t ht => hAB t (by simp_all [Option.mem_def.mp hl]) v
    refine ⟨l₁, s, l₂, rfl, (hch s (by simp)).mp hacc, fun t ht => mt (hch t ?_).mpr (hothers t ht)⟩
    simp only [mem_append, mem_cons] at ht ⊢
    tauto

/-- The fields of a member that are not merged at all. -/
def unmerged (g : Fields ν σ) : Fields ν σ :=
  { allOf := g.allOf, oneOf := g.oneOf, anyOf := g.anyOf, refPath := g.refPath, const := g.const
    exclusiveMinimum := g.exclusiveMinimum, exclusiveMaximum := g.exclusiveMaximum
    multipleOf := g.multipleOf }

/-- What `f` and `g` demand of a value and the merged fields do not. -/
structure Forgotten (M : Meaning ν) (A : σ → Json ν → Prop) (f g : Fields ν σ) (v : Json ν) :
  Prop where
  type : f.type ≠ none → ∀ t ∈ g.type, hasType M v t
  items : f.items ≠ none → ∀ s ∈ g.items, ∀ xs, v = .arr xs → ∀ x ∈ xs, A s x
  format : f.format ≠ none → ∀ t ∈ g.format, ∀ x, v = .str x → M.format t x
  pattern : f.pattern ≠ none → ∀ t ∈ g.pattern, ∀ x, v = .str x → M.pattern t x
  /-- The merged enumeration is that of either. -/
  enum : ∀ e ∈ f.enum, ∀ e' ∈ g.enum, (∃ x ∈ e, v = .str x) ∧ ∃ x ∈ e', v = .str x
  properties : ∀ e ∈ g.properties.getD [], e.1 ∈ keys f.properties → ∀ w ∈ member e.1 v, A e.2 w
  /-- A property that only one of them declares was additional in the other. -/
  additional : ∀ a ∈ f.additionalProperties, ∀ key ∈ keys g.properties, key ∉ keys f.properties →
    ∀ w ∈ member key v, allows A w a
  additional' : ∀ a ∈ g.additionalProperties, ∀ key, key ∉ keys g.properties →
    f.additionalProperties ≠ none ∨ key ∈ keys f.properties → ∀ w ∈ member key v, allows A w a
  unmerged : Demands M A (unmerged g) v

section

variable {α : Type} {a b : Option α} {C : α → Prop}

end

/-- The value meets what is forgotten as the members are merged one after the other, and `P` holds
of each. -/
def Remembers (M : Meaning ν) (P : Schema ν → Prop) (flat : Schema ν → Fields ν (Schema ν))
    (v : Json ν) : List (Schema ν) → Fields ν (Schema ν) → Prop
  | [], _ => True
  | m :: l, f => P m ∧ Forgotten M (Accepts M) f (flat m) v ∧
      Remembers M P flat v l (mergeFrom f (flat m))

/-- The value meets all that flattening forgets, at any depth. -/
def Meets (M : Meaning ν) (v : Json ν) : ℕ → Schema ν → Prop
  | 0, _ => True
  | n + 1, s => Remembers M (Meets M v n) (fun m => (flattenAllOf n m).fields) v
      (s.fields.allOf.getD []) { s.fields with allOf := none }

def plain : Meaning ℕ := ⟨fun _ _ => True, fun _ _ => True, fun _ => True, fun d x => d ∣ x,
  fun _ _ => False⟩

end Windmill.Ai.Values
