import Windmill.App.Args
import Windmill.Lib.JsString
import Windmill.Lib.JsonPath

/-! # Properties that are read without evaluation

An expression that starts with `flow_input` or `flow_env` is looked up in the map before it is
evaluated (`try_exact_property_access`, `windmill-jseval/src/lib.rs`). `propertyAccess_sound_iff`
says for which expressions the value is that of the member access, with any maps: the key is an
identifier, or a literal without escapes. -/

namespace Windmill.Jseval.Property

open App.Args (Fields)
open Lib.JsString Lib.JsonPath List Option
open Lib.JsonText (RawJson)

abbrev Text := List Char

/-! ### The code -/

inductive Obj where
  | flowInput
  | flowEnv
  deriving DecidableEq

def Obj.text : Obj → Text
  | .flowInput => "flow_input".toList
  | .flowEnv => "flow_env".toList

structure Maps where
  flowInput : Option (Fields RawJson)
  flowEnv : Option (Fields RawJson)

def Maps.of (m : Maps) : Obj → Option (Fields RawJson)
  | .flowInput => m.flowInput
  | .flowEnv => m.flowEnv

def Maps.get (m : Maps) (obj : Obj) (key : Text) : Option RawJson :=
  (m.of obj).bind fun map => map.get (String.ofList key)

def objOf (expr : Text) : Option Obj :=
  if Obj.flowInput.text <+: expr then some .flowInput
  else if Obj.flowEnv.text <+: expr then some .flowEnv
  else none

def dotPattern : Text := ['.']

def startBracketPattern : Text := ['[', '\x22']

def endBracketPattern : Text := ['\x22', ']']

def keyName (suffix : Text) : Option Text :=
  if dotPattern <+: suffix then some (suffix.drop 1)
  else if startBracketPattern <+: suffix then
    let inner := suffix.drop 2
    if endBracketPattern <:+ inner then
      let key := inner.take (inner.length - 2)
      if key.isEmpty then none else some key
    else none
  else none

/-- `try_exact_property_access`: an object and a key, without the engine. -/
def tryExactPropertyAccess (expr : Text) (m : Maps) : Option RawJson :=
  (objOf expr).bind fun obj => (keyName (expr.drop obj.text.length)).bind fun key => m.get obj key

/-! ### Member access -/

structure IdTables where
  start : Char → Bool
  part : Char → Bool

def isIdentifier (T : IdTables) : Text → Bool
  | [] => false
  | c :: rest => T.start c && rest.all T.part

inductive Access where
  | dot (name : Text)
  | bracket (q : Quote) (lit : List (Piece q))

def Access.text : Access → Text
  | .dot name => '.' :: name
  | .bracket _ lit => '[' :: (literal lit ++ [']'])

def Access.key : Access → Text
  | .dot name => name
  | .bracket _ lit => decode lit

def Access.Valid (T : IdTables) : Access → Prop
  | .dot name => isIdentifier T name = true
  | .bracket _ _ => True

structure Chain where
  obj : Obj
  accesses : List Access

def Chain.text (c : Chain) : Text := c.obj.text ++ c.accesses.flatMap Access.text

def Chain.value (c : Chain) (m : Maps) : Option RawJson :=
  match c.accesses with
  | [] => none
  | a :: rest => (m.get c.obj a.key).bind (path (rest.map Access.key))

/-- The value is that of a chain which is the expression. -/
def IsMember (T : IdTables) (expr : Text) (m : Maps) (v : RawJson) : Prop :=
  ∃ c : Chain, (∀ a ∈ c.accesses, a.Valid T) ∧ expr = c.text ∧ c.value m = some v

def PlainKey (T : IdTables) (suffix key : Text) : Prop :=
  if dotPattern <+: suffix then isIdentifier T key = true else ∀ c ∈ key, isPlain .double c = true

/-! ### The key -/

lemma keyName_cases {suffix key : Text} (h : keyName suffix = some key) :
    suffix = '.' :: key ∨ (¬dotPattern <+: suffix ∧
      suffix = '[' :: '\x22' :: (key ++ ['\x22', ']'])) := by
  unfold keyName at h
  split at h
  case isTrue hdot =>
    obtain ⟨rest, rfl⟩ := hdot
    cases h
    exact .inl rfl
  case isFalse hdot =>
    split at h
    case isTrue hbrk =>
      obtain ⟨inner, rfl⟩ := hbrk
      have hinner : (startBracketPattern ++ inner).drop 2 = inner := rfl
      rw [hinner] at h
      dsimp only at h
      split at h
      case isTrue hend =>
        obtain ⟨key', rfl⟩ := hend
        have htake : (key' ++ endBracketPattern).take ((key' ++ endBracketPattern).length - 2) =
            key' := by
          rw [length_append]
          exact take_left
        rw [htake] at h
        split at h
        case isTrue => cases h
        case isFalse =>
          cases h
          exact .inr ⟨hdot, rfl⟩
      case isFalse => cases h
    case isFalse => cases h

lemma objOf_eq_some {expr : Text} {obj : Obj} (h : objOf expr = some obj) :
    expr = obj.text ++ expr.drop obj.text.length := by
  unfold objOf at h
  split at h
  case isTrue hpref =>
    cases h
    exact prefix_iff_eq_append.mp hpref |>.symm
  case isFalse =>
    split at h
    case isTrue hpref =>
      cases h
      exact prefix_iff_eq_append.mp hpref |>.symm
    case isFalse => cases h

def single (obj : Obj) (key : Text) (v : RawJson) : Maps :=
  let map : Fields RawJson := ⟨[(String.ofList key, v)], List.nodup_singleton _⟩
  match obj with
  | .flowInput => ⟨some map, none⟩
  | .flowEnv => ⟨none, some map⟩

lemma single_get {obj obj' key key' v v'} :
    (single obj key v).get obj' key' = some v' ↔ obj' = obj ∧ key' = key ∧ v' = v := by
  have hmap : ([(String.ofList key, v)] : List (String × RawJson)).lookup (String.ofList key') =
    some v' ↔
      key' = key ∧ v' = v := by
    by_cases hk : key' = key
    · subst hk
      rw [lookup_cons_self, some_inj]
      exact ⟨fun h => ⟨rfl, h.symm⟩, fun h => h.2.symm⟩
    · have hne : (String.ofList key' == String.ofList key) = false :=
        beq_eq_false_iff_ne.mpr fun h => hk (String.ofList_injective h)
      rw [lookup_cons, hne]
      exact ⟨nofun, fun h => absurd h.1 hk⟩
  cases obj <;> cases obj'
  · exact hmap.trans ⟨fun h => ⟨rfl, h⟩, fun h => h.2⟩
  · exact ⟨nofun, fun h => (by cases h.1)⟩
  · exact ⟨nofun, fun h => (by cases h.1)⟩
  · exact hmap.trans ⟨fun h => ⟨rfl, h⟩, fun h => h.2⟩

variable {T : IdTables} {expr key : Text} {obj : Obj}

lemma plainKey_of_isMember {v} (hobj : objOf expr = some obj)
    (hkey : keyName (expr.drop obj.text.length) = some key)
    (h : IsMember T expr (single obj key v) v) : PlainKey T (expr.drop obj.text.length) key := by
  obtain ⟨⟨obj', accesses⟩, hvalid, htext, hval⟩ := h
  cases accesses with
  | nil => cases hval
  | cons a rest =>
    obtain ⟨v', hget, -⟩ := bind_eq_some_iff.mp hval
    obtain ⟨rfl, hname, -⟩ := single_get.mp hget
    have hsuf : expr.drop obj'.text.length = a.text ++ rest.flatMap Access.text := by
      rw [htext, Chain.text, drop_left]
      exact flatMap_cons
    have ha := hvalid a mem_cons_self
    unfold PlainKey
    rcases keyName_cases hkey with hdot | ⟨hno, hbrk⟩
    · rw [hsuf] at hdot
      have hstart : dotPattern <+: expr.drop obj'.text.length := ⟨key, by rw [hsuf, hdot]; rfl⟩
      rw [if_pos hstart]
      cases a with
      | dot name =>
        obtain rfl : name = key := hname
        exact ha
      | bracket q lit => exact absurd (cons.inj hdot).1 (by decide)
    rw [hsuf] at hbrk
    rw [if_neg hno]
    cases a with
    | dot name => exact absurd (cons.inj hbrk).1 (by decide)
    | bracket q lit =>
      obtain rfl : decode lit = key := hname
      have hinner := (cons.inj hbrk).2
      obtain rfl : q = .double := by
        cases q with
        | single => exact absurd (cons.inj hinner).1 (by decide)
        | double => rfl
      have hlit : ((raw lit ++ ['\x22']) ++ [']']) ++ rest.flatMap Access.text = decode lit ++
        ['\x22', ']'] :=
        (cons.inj hinner).2
      -- the literal is as long as its meaning, so that nothing in it is an escape
      rcases decode_eq_raw_or_lt lit with ⟨heq, hplain⟩ | hlt
      · rw [heq]
        exact hplain
      · have hlen := congrArg length hlit
        simp only [length_append, length_cons, length_nil] at hlen
        omega

lemma isMember_of_plainKey {m v} (hobj : objOf expr = some obj)
    (hkey : keyName (expr.drop obj.text.length) = some key) (hplain : PlainKey T
      (expr.drop obj.text.length) key) (hget : m.get obj key = some v) : IsMember T expr m v := by
  have hval : ∀ a, a.key = key → (Chain.mk obj [a]).value m = some v := by
    rintro a rfl
    exact bind_eq_some_iff.mpr ⟨v, hget, rfl⟩
  have htext : ∀ a, expr.drop obj.text.length = a.text →
      expr = (Chain.mk obj [a]).text := by
    intro a ha
    rw [Chain.text, flatMap_singleton, ← ha]
    exact objOf_eq_some hobj
  unfold PlainKey at hplain
  rcases keyName_cases hkey with hdot | ⟨hno, hbrk⟩
  · have hstart : dotPattern <+: expr.drop obj.text.length := ⟨key, hdot.symm⟩
    rw [if_pos hstart] at hplain
    exact ⟨⟨obj, [.dot key]⟩, fun a ha => mem_singleton.mp ha ▸ hplain, htext (.dot key) hdot,
      hval (.dot key) rfl⟩
  rw [if_neg hno] at hplain
  have hraw : (Access.bracket .double (plainPieces key hplain)).text =
      '[' :: '\x22' :: (key ++ ['\x22', ']']) := by
    rw [Access.text, literal, raw_plainPieces, cons_append, append_assoc]
    rfl
  refine ⟨⟨obj, [.bracket .double (plainPieces key hplain)]⟩, fun a ha =>
    mem_singleton.mp ha ▸ trivial, ?_, ?_⟩
  · exact htext _ (hbrk.trans hraw.symm)
  · exact hval _ (decode_plainPieces key hplain)

/-- **The value is that of the member access**, whatever the maps hold, if and only if the key is
plain. -/
theorem propertyAccess_sound_iff (T : IdTables) (expr : Text) :
    (∀ m v, tryExactPropertyAccess expr m = some v → IsMember T expr m v) ↔
      ∀ obj key, objOf expr = some obj → keyName (expr.drop obj.text.length) = some key →
        PlainKey T (expr.drop obj.text.length) key := by
  constructor
  · intro hsound obj key hobj hkey
    have hans : tryExactPropertyAccess expr (single obj key .null) = some .null := by
      rw [tryExactPropertyAccess, hobj, bind_some, hkey]
      exact single_get.mpr ⟨rfl, rfl, rfl⟩
    exact plainKey_of_isMember hobj hkey (hsound _ _ hans)
  · intro hplain m v hans
    obtain ⟨obj, hobj, hans⟩ := bind_eq_some_iff.mp hans
    obtain ⟨key, hkey, hget⟩ := bind_eq_some_iff.mp hans
    exact isMember_of_plainKey hobj hkey (hplain obj key hobj hkey) hget

def asciiIds : IdTables where
  start c := c.isAlpha || c == '_' || c == '$'
  part c := c.isAlphanum || c == '_' || c == '$'

/-- A key with a dot is read where a member of a member is asked for. -/
theorem dotted_key_read :
    tryExactPropertyAccess "flow_input.a.b".toList (single .flowInput "a.b".toList .null) =
    some .null ∧
    ¬IsMember asciiIds "flow_input.a.b".toList (single .flowInput "a.b".toList .null) .null := by
  have hobj : objOf "flow_input.a.b".toList = some .flowInput := by decide +kernel
  have hkey : keyName ("flow_input.a.b".toList.drop Obj.flowInput.text.length) =
      some "a.b".toList := by decide +kernel
  constructor
  · rw [tryExactPropertyAccess, hobj, bind_some, hkey, bind_some]
    exact single_get.mpr ⟨rfl, rfl, rfl⟩
  · intro hmem
    have hplain := plainKey_of_isMember hobj hkey hmem
    rw [PlainKey] at hplain
    exact absurd hplain (by decide +kernel)

end Windmill.Jseval.Property
