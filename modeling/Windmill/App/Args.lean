import Windmill.App.Execute
import Windmill.Lib.JsonText
import Windmill.Lib.Lookup

/-! # The arguments of an app's jobs

`build_args` (`windmill-api/src/apps.rs`) makes the arguments of a job from those of the request and
the policy. `push` stores them as `jsonb`, with the static inputs of the policy; the worker reads
them and replaces strings that name secrets (`transform_json`, `windmill-worker/src/common.rs`). -/

namespace Windmill.App.Args

open Lib.JsonText Execute List
open Lib.Records (Json)

/-! ### Markers -/

def varMarker : Marker := ⟨"var:".toList, by decide⟩

def jsonvarMarker : Marker := ⟨"jsonvar:".toList, by decide⟩

def resMarker : Marker := ⟨"res:".toList, by decide⟩

def encryptedMarker : Marker := ⟨"encrypted:".toList, by decide⟩

def omittedVariable : List Char :=
  "The following variable has been omitted for security reasons: ".toList

def omittedResource : List Char :=
  ("The following resource has been omitted for security reasons, to allow it, " ++
    "toggle: 'Allow resources from users' on that field input: ").toList

def substitute (text : List Char) (hplain : ∀ c ∈ text, c ≠ '\x22' ∧ c ≠ '\\')
    (hfirst : text.head? = some 'T') (hdol : '$' ∉ text) : Substitute where
  first := 'T'
  pieces := plainString text hplain
  decode_eq := by
    rw [decode_plainString]
    exact List.head?_eq_some_iff.mp hfirst
  dollar_notMem := by rwa [decode_plainString]

def variableSubstitute : Substitute :=
  substitute omittedVariable (by decide +kernel) (by decide) (by decide +kernel)

def resourceSubstitute : Substitute :=
  substitute omittedResource (by decide +kernel) (by decide +kernel) (by decide +kernel)

/-! ### `build_args` -/

structure Fields (β : Type) where
  entries : List (String × β)
  nodup : (entries.map Prod.fst).Nodup

def Fields.keys {β : Type} (f : Fields β) : List String := f.entries.map Prod.fst

def Fields.get {β : Type} (f : Fields β) (key : String) : Option β := f.entries.lookup key

lemma get_eq_some_iff {β : Type} {f : Fields β} {key : String} {b : β} : f.get key = some b ↔
    (key, b) ∈ f.entries :=
  Lib.Lookup.lookup_eq_some_iff f.nodup

/-- What the policy says about the arguments. -/
structure Inputs where
  staticInputs : Fields RawJson
  oneOfInputs : Fields (List RawJson)
  allowUserResources : List String

structure Viewer where
  username : String
  email : String
  groups : List String

/-- The viewer, and what `build_args` reads of the store. -/
structure Env where
  authed : Option Viewer
  workspace : String
  onBehalfOfEmail : Option String
  /-- `get_resource_value_interpolated_internal`, as the viewer. -/
  resource : String → Except Error (Option Json)
  encrypt : Json → String

/-- An argument of a job, and where it comes from. -/
inductive Arg where
  | resource (encrypted : String)
  | option (text : RawJson)
  | context (value : Json)
  | request (text : RawJson)
  | static (text : RawJson)

def Arg.value : Arg → Json
  | .resource encrypted => .str ("$encrypted:" ++ encrypted)
  | .option text => text.value
  | .context value => value
  | .request text => text.value
  | .static text => text.value

def resourcePath : RawJson → Option String
  | .str s => stripStart "$res:" (String.ofList (decode s))
  | _ => none

def userResource (env : Env) (args : Fields RawJson) (key : String) :
    Except Error (List (String × Arg)) :=
  match (args.get key).bind resourcePath, env.authed with
  | none, _ => .ok []
  | some _, none => .error (.badRequest "User resources are not allowed without being logged in")
  | some path, some _ =>
    match env.resource path with
    | .error error => .error error
    | .ok none =>
      .error (.badRequest ("Resource " ++ path ++ " not found or not allowed for viewer"))
    | .ok (some value) => .ok [(key, .resource (env.encrypt value))]

def allowed (options : List RawJson) (arg : RawJson) : Bool :=
  let texts := options.map RawJson.text
  arg.text ∈ texts || match arg with
    | .arr _ items => items.all fun item => item.2.1.text ∈ texts
    | _ => false

def oneOfInput (args : Fields RawJson) (safe : List String) (input : String × List RawJson) :
    Except Error (List (String × Arg)) :=
  if input.1 ∈ safe then .ok []
  else match args.get input.1 with
    | none => .ok []
    | some arg =>
      if allowed input.2 arg then .ok [(input.1, .option arg)]
      else .error (.badRequest ("argument " ++ input.1 ++ " with value " ++
        String.ofList arg.text ++ " must be one of [" ++
        ",".intercalate (input.2.map fun o => String.ofList o.text) ++ "]"))

def trimStartMatches (pat : List Char) : ℕ → List Char → List Char
  | 0, text => text
  | n + 1, text => if pat <+: text then trimStartMatches pat n (text.drop pat.length) else text

def ctxStart : List Char := "\"$ctx:".toList

def contextName (text : List Char) : String :=
  String.ofList ((trimStartMatches ctxStart text.length text).reverse.dropWhile
    (· == '\x22')).reverse

def contextValue (env : Env) (name : String) : Except Error Json :=
  let ofViewer (f : Viewer → Json) := .ok ((env.authed.map f).getD .null)
  if name = "username" then ofViewer fun viewer => .str viewer.username
  else if name = "email" then ofViewer fun viewer => .str viewer.email
  else if name = "workspace" then .ok (.str env.workspace)
  else if name = "groups" then ofViewer fun viewer => .arr (viewer.groups.map .str)
  else if name = "author" then .ok ((env.onBehalfOfEmail.map .str).getD .null)
  else .error (.badRequest ("context variable " ++ name ++ " not allowed"))

def suspicious (text : List Char) : Bool := "\"$var:".toList <:+: text || "\"$res:".toList <:+: text

def omitMarkers (s : RawString) : RawString :=
  replaceIn resMarker resourceSubstitute.pieces (replaceIn varMarker variableSubstitute.pieces s)

/-- The filter. What it replaces in the text is again JSON. -/
def filtered (arg : RawJson) : RawJson :=
  if suspicious arg.text then arg.mapStrings omitMarkers else arg

lemma text_mapStrings_substitute (m : Marker) {text} (hplain : ∀ c ∈ text, c ≠ '\x22' ∧ c ≠ '\\')
    (hfirst : text.head? = some 'T') (hdol : '$' ∉ text) (arg : RawJson) :
    (arg.mapStrings (replaceIn m (substitute text hplain hfirst hdol).pieces)).text =
      replaceText m.text text arg.text 0 := by
  have hreplace := @replaces_text m (plainString text hplain) arg []
  rw [append_nil, raw_plainString] at hreplace
  rw [hreplace]
  exact (append_nil _).symm

/-- **Replacing the markers in the text of an argument replaces them in its strings**, and the text
stays JSON. -/
theorem text_omitMarkers (arg : RawJson) : (arg.mapStrings omitMarkers).text =
    replaceText resMarker.text omittedResource
    (replaceText varMarker.text omittedVariable arg.text 0) 0 := by
  unfold omitMarkers variableSubstitute resourceSubstitute
  rw [← mapStrings_comp, text_mapStrings_substitute, text_mapStrings_substitute]

def otherInput (env : Env) (arg : String × RawJson) : Except Error (String × Arg) :=
  if ctxStart <+: arg.2.text then (contextValue env (contextName arg.2.text)).map fun value =>
    (arg.1, .context value)
  else .ok (arg.1, .request (filtered arg.2))

/-- `build_args`: the arguments of a job, as the policy allows them. -/
def buildArgs (env : Env) (inputs : Inputs) (args : Fields RawJson) :
    Except Error (List (String × Arg)) := do
  let resources := (← inputs.allowUserResources.mapM (userResource env args)).flatten
  let options := (← inputs.oneOfInputs.entries.mapM
    (oneOfInput args (resources.map Prod.fst))).flatten
  let safe := resources ++ options
  let others ← (args.entries.filter fun arg => arg.1 ∉ safe.map Prod.fst).mapM (otherInput env)
  .ok (safe ++ others)

/-- `PushArgs`: the static inputs come first. -/
def pushArgs (inputs : Inputs) (args : List (String × Arg)) : List (String × Arg) :=
  (inputs.staticInputs.entries.map fun input => (input.1, .static input.2)) ++
    args.filter fun arg => arg.1 ∉ inputs.staticInputs.keys

/-! ### The worker -/

def markers : List Marker := [varMarker, jsonvarMarker, resMarker, encryptedMarker]

structure Reserved where
  names : List String
  proper : ∀ name ∈ names, ∀ c ∈ name.toList, c.isAlphanum = true ∨ c = '_'

/-- What the worker reads and fetches while it resolves the arguments. -/
structure Secrets where
  /-- The text of a value read by `serde_json`: numbers may lose digits, and it fails where a number
  is out of range or more than 127 containers are nested. -/
  parseValue : Json → Option Json
  variableValue : String → Except Error String
  parseJson : String → Except Error Json
  resourceValue : String → Except Error Json
  decrypt : String → Except Error Json
  reserved : List (String × String)

def startsWith (s : String) (m : Marker) : Bool := m.text.isPrefixOf s.toList

def afterMarker (s : String) (m : Marker) : String := String.ofList (s.toList.drop m.text.length)

/-- What a string of an argument becomes. -/
def transformString (W : Secrets) (s : String) : Except Error Json :=
  if startsWith s varMarker then (W.variableValue (afterMarker s varMarker)).map .str
  else if startsWith s jsonvarMarker then W.variableValue (afterMarker s jsonvarMarker) >>=
    W.parseJson
  else if startsWith s resMarker then W.resourceValue (afterMarker s resMarker)
  else if startsWith s encryptedMarker then W.decrypt (afterMarker s encryptedMarker)
  else match s.toList with
    | '$' :: name => .ok (.str ((W.reserved.lookup (String.ofList name)).getD s))
    | _ => .ok (.str s)

def enter (depth length : ℕ) : Bool := depth ≤ 2 && length ≤ 1000

mutual

def transformJsonValue (W : Secrets) (depth : ℕ) : Json → Except Error Json
  | .str s => transformString W s
  | .arr elems => if enter depth elems.length then (transformElems W (depth + 1) elems).map .arr
      else .ok (.arr elems)
  | .obj fields => (transformFields W (depth + 1) fields).map .obj
  | v => .ok v

def transformElems (W : Secrets) (depth : ℕ) : List Json → Except Error (List Json)
  | [] => .ok []
  | v :: rest => do
    let v' ← transformJsonValue W depth v
    let rest' ← transformElems W depth rest
    .ok (v' :: rest')

def transformFields (W : Secrets) (depth : ℕ) : List (String × Json) → Except Error
    (List (String × Json))
  | [] => .ok []
  | (k, v) :: rest => do
    let v' ← transformJsonValue W depth v
    let rest' ← transformFields W depth rest
    .ok ((k, v') :: rest')

end

/-- `RE_RES_VAR` matches the text of the value: a string or a key has a marker in it. -/
def matchesResVar (v : Json) : Bool :=
  (strings v).any fun s => markers.any fun m => decide (m.text <:+: s.toList)

def parseArg (W : Secrets) (v : Json) : Except Error Json :=
  match W.parseValue v with
  | some value => .ok value
  | none => .error (.other "Error while parsing inner arg")

/-- `transform_json` for one argument: it is read and written again where the pattern matches. -/
def transformJson (W : Secrets) (v : Json) : Except Error Json :=
  if matchesResVar v then parseArg W v >>= transformJsonValue W 0 else .ok v

def resolves (reserved : List String) (s : String) : Bool :=
  (markers.any fun m => startsWith s m) || match s.toList with
    | '$' :: name => String.ofList name ∈ reserved
    | _ => false

def replaced (reserved : List String) (v : Json) : List String :=
  if matchesResVar v then (reached enter 0 v).filter (resolves reserved) else []

lemma transformString_eq {W s} (h : resolves (W.reserved.map Prod.fst) s = false) :
    transformString W s = .ok (.str s) := by
  unfold resolves at h
  rw [Bool.or_eq_false_iff] at h
  have hmark : ∀ m ∈ markers, ¬startsWith s m = true := any_eq_false.mp h.1
  unfold transformString
  rw [if_neg (hmark varMarker (by simp [markers])),
    if_neg (hmark jsonvarMarker (by simp [markers])),
    if_neg (hmark resMarker (by simp [markers])),
    if_neg (hmark encryptedMarker (by simp [markers]))]
  split
  · case _ name hname =>
    have hnot : String.ofList name ∉ W.reserved.map Prod.fst := by
      have hname' := h.2
      rw [hname] at hname'
      exact of_decide_eq_false hname'
    have hlook : W.reserved.lookup (String.ofList name) = none := by
      rw [lookup_eq_none_iff]
      intro p hp
      refine bne_iff_ne.mpr fun heq => hnot ?_
      rw [heq]
      exact mem_map_of_mem hp
    rw [hlook]
    rfl
  · rfl

mutual

lemma transformJsonValue_eq {W} (depth : ℕ) : ∀ {v},
    (∀ s ∈ reached enter depth v, resolves (W.reserved.map Prod.fst) s = false) →
    transformJsonValue W depth v = .ok v
  | .str s, h => transformString_eq (h s (mem_singleton_self s))
  | .arr elems, h => by
    rw [transformJsonValue]
    rw [reached] at h
    split_ifs at h ⊢
    · rw [transformElems_eq (depth + 1) h]
      rfl
    · rfl
  | .obj fields, h => by
    rw [transformJsonValue, transformFields_eq (depth + 1) h]
    rfl
  | .null, _ => rfl
  | .bool _, _ => rfl
  | .int _, _ => rfl
  | .float _, _ => rfl

lemma transformElems_eq {W} (depth : ℕ) : ∀ {elems},
    (∀ s ∈ reachedElems enter depth elems, resolves (W.reserved.map Prod.fst) s = false) →
    transformElems W depth elems = .ok elems
  | [], _ => rfl
  | v :: rest, h => by
    rw [reachedElems] at h
    rw [transformElems, transformJsonValue_eq depth fun s hs => h s (mem_append_left _ hs),
      transformElems_eq depth fun s hs => h s (mem_append_right _ hs)]
    rfl

lemma transformFields_eq {W} (depth : ℕ) : ∀ {fields},
    (∀ s ∈ reachedFields enter depth fields, resolves (W.reserved.map Prod.fst) s = false) →
    transformFields W depth fields = .ok fields
  | [], _ => rfl
  | (k, v) :: rest, h => by
    rw [reachedFields] at h
    rw [transformFields, transformJsonValue_eq depth fun s hs => h s (mem_append_left _ hs),
      transformFields_eq depth fun s hs => h s (mem_append_right _ hs)]
    rfl

end

/-- **An argument without such strings that is read as it is written is left as it is**, whatever
the secrets are. -/
theorem transformJson_eq {W : Secrets} {v : Json} (hread : W.parseValue v = some v)
    (h : replaced (W.reserved.map Prod.fst) v = []) : transformJson W v = .ok v := by
  unfold transformJson
  split_ifs with hmatch
  · unfold replaced at h
    rw [if_pos hmatch, filter_eq_nil_iff] at h
    rw [parseArg, hread]
    exact transformJsonValue_eq 0 fun s hs => Bool.eq_false_iff.mpr (h s hs)
  · rfl

def noSecrets : Secrets :=
  ⟨some, fun _ => .error .unreachable, fun _ => .ok .null, fun _ => .ok .null, fun _ =>
    .ok .null, []⟩

/-- A marker that is not at the start of a string. -/
theorem mentioned_variable_kept : matchesResVar (.arr [.str "see $var:u/a"]) = true ∧
    transformJson noSecrets (.arr [.str "see $var:u/a"]) = .ok (.arr [.str "see $var:u/a"]) :=
  ⟨by decide, transformJson_eq rfl (by decide)⟩

end Windmill.App.Args
