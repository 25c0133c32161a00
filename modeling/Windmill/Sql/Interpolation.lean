import Windmill.App.Args
import Windmill.Lib.Except
import Windmill.Lib.Replace
import Windmill.Sql.Signature

/-! # Names that are interpolated into SQL

A query can hold names in the form `%%name%%`, of contextual variables and of arguments that are
sanitized (`sanitize_and_interpolate_unsafe_sql_args`,
`windmill-worker/src/sanitized_sql_params.rs`). The code replaces one name after the other in the
whole text; `simultaneous` replaces what stands in the query, at once. The two are the same, in
every order, if each name is found only where the query has it when its turn comes
(`interpolation_eq_simultaneous`). -/

namespace Windmill.Sql.Interpolation

open App.Args (Fields)
open Lib.Except Lib.Lookup Lib.Replace List
open Lib.JsonText (replaceText)
open Lib.Records (Json)
open Sql.Signature (Arg)

abbrev Text := List Char

/-! ### The code -/

inductive Error where
  | anyhow (message : String)
  | badRequest (message : String)
  | argumentErr (message : String)
  deriving DecidableEq

def pattern (name : Text) : Text := '%' :: '%' :: (name ++ ['%', '%'])

def isAsciiIdentifier : Text → Bool
  | [] => false
  | c :: rest => c.isAlpha && (c :: rest).all fun d => d.isAlphanum || d == '_'

section

variable {F : Type}

def sanitizeIdentifier (arg : Arg F) (input : Text) : Except Error Unit :=
  if input = [] then .error
    (.badRequest ("Interpolated argument `" ++ String.ofList arg.name ++ "` cannot be empty"))
  else if isAsciiIdentifier input then .ok ()
  else .error (.badRequest ("Interpolated argument `" ++ String.ofList arg.name ++
    "` contained forbidden characters. Received `" ++ String.ofList input ++
    "` but should only contain alphanumerical characters and `_`."))

def isVarChar (c : Char) : Bool := c.isUpper || c == '_'

def isContextual (name : Text) : Bool :=
  "WM_".toList.isPrefixOf name && !(name.drop 3).isEmpty && (name.drop 3).all isVarChar

def contextualAt (text : Text) : Option Text :=
  let name := (text.drop 2).takeWhile (· != '%')
  if pattern name <+: text ∧ isContextual name then some name else none

def contextualNames : Text → ℕ → List Text
  | [], _ => []
  | _ :: rest, skip + 1 => contextualNames rest skip
  | c :: rest, 0 =>
    match contextualAt (c :: rest) with
    | some name => name :: contextualNames rest (name.length + 3)
    | none => contextualNames rest 0

def Fields.text (f : Fields String) (name : Text) : Option Text :=
  (f.get (String.ofList name)).map String.toList

/-- The names are taken from a set, in the order that it has. -/
def replaceContextualVariables (order : List Text) (code : Text)
    (contextual : Fields String) : Text :=
  order.foldl (fun code name =>
    match Fields.text contextual name with
    | some value => replaceText (pattern name) value code 0
    | none => code) code

def sanitizedEnumStr : Text := "__sanitized_enum__".toList

def sanitizedRawStringStr : Text := "__sanitized_raw_string__".toList

def isSanitized (arg : Arg F) : Bool :=
  arg.otyp == some sanitizedEnumStr || arg.otyp == some sanitizedRawStringStr

def asStr : Option Json → Option Text
  | some (.str s) => some s.toList
  | _ => none

def joined (variants : List Text) : String := String.ofList ([','].intercalate variants)

def sanitizedValue (argsMap : Fields Json) (arg : Arg F) : Except Error Text :=
  if arg.otyp = some sanitizedEnumStr then
    match asStr (argsMap.get (String.ofList arg.name)) with
    | none => .error (.anyhow ("Sanitized enum `" ++ String.ofList arg.name ++
        "` needs to receive a string"))
    | some replace =>
      match arg.typ with
      | .str (some variants) =>
        if variants.all fun v => v != replace then
          .error (.argumentErr ("Sanitized enum argument `" ++ String.ofList arg.name ++
            "` expected one of `[" ++
            joined variants ++ "]` but received `" ++ String.ofList replace ++ "`"))
        else (sanitizeIdentifier arg replace).map fun _ => replace
      | _ => .error (.argumentErr ("Wrong type of argument for sanitized enum `" ++
          String.ofList arg.name ++ "`"))
  else
    match asStr (argsMap.get (String.ofList arg.name)) with
    | none => .error (.anyhow ("Sanitized raw string `" ++ String.ofList arg.name ++
        "` needs to receive a string"))
    | some replace =>
      match arg.typ with
      | .str _ => (sanitizeIdentifier arg replace).map fun _ => replace
      | _ => .error (.argumentErr ("Wrong type of argument for sanitized raw string `" ++
          String.ofList arg.name ++ "`"))

def interpolateArgs (argsMap : Fields Json) : List (Arg F) → Text → List Text → Except Error
    (Text × List Text)
  | [], ret, argsToSkip => .ok (ret, argsToSkip)
  | arg :: args, ret, argsToSkip =>
    if isSanitized arg then
      (sanitizedValue argsMap arg).bind fun replace =>
        interpolateArgs argsMap args (replaceText (pattern arg.name) replace ret 0)
          (argsToSkip ++ [arg.name])
    else interpolateArgs argsMap args ret argsToSkip

/-- `sanitize_and_interpolate_unsafe_sql_args`: contextual variables first. -/
def sanitizeAndInterpolateUnsafeSqlArgs (order : List Text) (code : Text) (args : List (Arg F))
    (argsMap : Fields Json) (contextual : Fields String) : Except Error (Text × List Text) :=
  interpolateArgs argsMap args (replaceContextualVariables order code contextual) []

/-- An order in which the set of the variables that are found can be gone through. -/
def IsOrder (order : List Text) (code : Text) : Prop :=
  order.Nodup ∧ ∀ name, name ∈ order ↔ name ∈ contextualNames code 0

/-! ### At once -/

inductive Part where
  | plain (c : Char)
  | tag (name : Text)
  deriving DecidableEq

def Part.source : Part → Text
  | .plain c => [c]
  | .tag name => pattern name

def argNames (args : List (Arg F)) : List Text := (args.filter isSanitized).map fun arg => arg.name

/-- The names that are replaced. -/
def known (args : List (Arg F)) (contextual : Fields String) : List Text :=
  contextual.keys.map String.toList ++ argNames args

def tagAt (names : List Text) (text : Text) : Option Text :=
  names.find? fun name => pattern name <+: text

def parts (names : List Text) : Text → ℕ → List Part
  | [], _ => []
  | _ :: rest, skip + 1 => parts names rest skip
  | c :: rest, 0 =>
    match tagAt names (c :: rest) with
    | some name => .tag name :: parts names rest (name.length + 3)
    | none => .plain c :: parts names rest 0

def argText (argsMap : Fields Json) (name : Text) : Text :=
  (asStr (argsMap.get (String.ofList name))).getD []

def valueOf (argsMap : Fields Json) (contextual : Fields String) (name : Text) : Text :=
  (Fields.text contextual name).getD (argText argsMap name)

def Part.final (value : Text → Text) : Part → Text
  | .plain c => [c]
  | .tag name => value name

/-- All names replaced at once. -/
def simultaneous (code : Text) (args : List (Arg F)) (argsMap : Fields Json)
    (contextual : Fields String) : Text :=
  (parts (known args contextual) code 0).flatMap (Part.final (valueOf argsMap contextual))

/-! ### Queries that are replaced at once -/

/-- The contextual variables that are found in a query and have a value. -/
def foundVariables (code : Text) (contextual : Fields String) : List Text :=
  (contextualNames code 0).filter fun name => (Fields.text contextual name).isSome

/-- A query with some of its names replaced. -/
def stage (value : Text → Text) (done : List Text) : Part → Text
  | .plain c => [c]
  | .tag name => if name ∈ done then value name else pattern name

/-- Every name that stands in the query is replaced, and when its turn comes, after any of those
that can come before it, it is found only where the query has it. -/
structure Regular (code : Text) (args : List (Arg F)) (argsMap : Fields Json)
  (contextual : Fields String) :
    Prop where
  found : ∀ name, .tag name ∈ parts (known args contextual) code 0 →
    name ∈ foundVariables code contextual ∨ name ∈ argNames args
  vars : ∀ done ∈ (foundVariables code contextual).sublists,
    ∀ name ∈ foundVariables code contextual,
    name ∉ done → Placed (pattern name) (valueOf argsMap contextual name)
      (stage (valueOf argsMap contextual) done) (stage (valueOf argsMap contextual) (name :: done))
      (parts (known args contextual) code 0)
  params : ∀ done ∈ (argNames args).sublists, ∀ name ∈ argNames args, name ∉ done →
    Placed (pattern name) (argText argsMap name)
      (stage (valueOf argsMap contextual) (foundVariables code contextual ++ done))
      (stage (valueOf argsMap contextual) (foundVariables code contextual ++ name :: done))
      (parts (known args contextual) code 0)

end

/-! ### The tags of a query -/

section

variable {names : List Text}

lemma pattern_ne_nil (name : Text) : pattern name ≠ [] := cons_ne_nil _ _

lemma parts_cons (c : Char) (rest : Text) :
    (∃ name after, name ∈ names ∧ c :: rest = pattern name ++ after ∧
        parts names (c :: rest) 0 = .tag name :: parts names after 0) ∨
      ((∀ name ∈ names, ¬pattern name <+: c :: rest) ∧ parts names (c :: rest) 0 =
        .plain c :: parts names rest 0) := by
  rw [parts]
  cases htag : tagAt names (c :: rest) with
  | none =>
    refine .inr ⟨fun name hname hmatch => ?_, rfl⟩
    exact find?_eq_none.mp htag name hname (decide_eq_true hmatch)
  | some name =>
    have hmem : name ∈ names := mem_of_find?_eq_some htag
    have hfound := find?_some htag
    obtain ⟨after, hafter⟩ : pattern name <+: c :: rest := of_decide_eq_true hfound
    refine .inl ⟨name, after, hmem, hafter.symm, ?_⟩
    obtain ⟨-, hrest⟩ := cons.inj hafter
    have hskip := @skip_append _ _ (parts names) (fun _ _ _ => rfl) after
      ('%' :: (name ++ ['%', '%']))
    have hlen : ('%' :: (name ++ ['%', '%'])).length = name.length + 3 := by simp
    rw [hlen] at hskip
    rw [← hrest]
    exact congrArg (Part.tag name :: ·) hskip

lemma parts_induction {P : Text → List Part → Prop} (nil : P [] [])
    (tag : ∀ name after, name ∈ names → P after (parts names after 0) → P (pattern name ++ after)
    (.tag name :: parts names after 0))
    (plain : ∀ c rest, (∀ name ∈ names, ¬pattern name <+: c :: rest) → P rest (parts names rest 0) →
    P (c :: rest) (.plain c :: parts names rest 0))
    (text : Text) : P text (parts names text 0) := by
  induction hlen : text.length using Nat.strong_induction_on generalizing text with
  | _ n ih =>
    cases text with
    | nil => exact nil
    | cons c rest =>
      rcases @parts_cons names c rest with ⟨name, after, hmem, hafter, hprt⟩ | ⟨hnone, hprt⟩
      · rw [hprt, hafter]
        refine tag name after hmem (ih after.length ?_ after rfl)
        rw [← hlen, hafter, length_append, pattern, length_cons]
        omega
      · rw [hprt]
        refine plain c rest hnone (ih rest.length ?_ rest rfl)
        rw [← hlen, length_cons]
        omega

lemma source_parts (text : Text) : (parts names text 0).flatMap Part.source = text := by
  refine parts_induction (P := fun text ps => ps.flatMap Part.source = text) rfl ?_ ?_ text
  · intro name after _ ih
    rw [flatMap_cons, ih]
    rfl
  · intro c rest _ ih
    rw [flatMap_cons, ih]
    rfl

end

/-! ### The loops -/

section

variable {F : Type} {order done done' : List Text} {code out value name : Text}
  {args args' : List (Arg F)} {argsMap : Fields Json} {contextual : Fields String} {arg : Arg F}

lemma stage_nil (value : Text → Text) : stage value [] = Part.source := by
  funext p
  cases p with
  | plain c => rfl
  | tag m => rfl

lemma stage_congr {value} (h : ∀ name, name ∈ done ↔ name ∈ done') :
    stage value done = stage value done' := by
  funext p
  cases p with
  | plain c => rfl
  | tag name => simp only [stage, h]

lemma replaceContextualVariables_eq : ∀ order code,
    replaceContextualVariables order code contextual =
      (order.filter fun name => (Fields.text contextual name).isSome).foldl
        (fun text name => replaceText (pattern name) (valueOf argsMap contextual name) text 0) code
  | [], _ => rfl
  | name :: order, code => by
    rw [replaceContextualVariables, foldl_cons, ← replaceContextualVariables]
    cases hval : Fields.text contextual name with
    | none =>
      rw [filter_cons_of_neg (by rw [hval]; exact Bool.false_ne_true)]
      exact replaceContextualVariables_eq order code
    | some value =>
      rw [filter_cons_of_pos (by rw [hval]; rfl), foldl_cons, valueOf, hval]
      exact replaceContextualVariables_eq order _

lemma sanitizeIdentifier_eq_ok {input : Text} {u : Unit}
    (h : sanitizeIdentifier arg input = .ok u) : isAsciiIdentifier input = true := by
  rw [sanitizeIdentifier] at h
  split_ifs at h with hnil hid
  exact hid

lemma sanitizedValue_eq_ok (h : sanitizedValue argsMap arg = .ok value) :
    asStr (argsMap.get (String.ofList arg.name)) = some value ∧ isAsciiIdentifier value = true := by
  rw [sanitizedValue] at h
  cases hstr : asStr (argsMap.get (String.ofList arg.name)) with
  | none =>
    rw [hstr] at h
    split_ifs at h
  | some input =>
    rw [hstr] at h
    have hchk : ((sanitizeIdentifier arg input).map fun _ => input) = .ok value := by
      split_ifs at h
      · dsimp only at h
        split at h
        · split_ifs at h
          exact h
        · cases h
      · dsimp only at h
        split at h
        · exact h
        · cases h
    obtain ⟨u, hu, rfl⟩ := map_eq_ok.mp hchk
    exact ⟨rfl, sanitizeIdentifier_eq_ok hu⟩

def Sanitized (argsMap : Fields Json) (args : List (Arg F)) : Prop :=
  ∀ arg ∈ args, isSanitized arg = true → ∃ value, sanitizedValue argsMap arg = .ok value

lemma sanitized_of_ok : ∀ {args : List (Arg F)} {ret : Text} {skip : List Text}
    {r : Text × List Text}, interpolateArgs argsMap args ret skip = .ok r → Sanitized argsMap args
  | [], _, _, _, _ => forall_mem_nil _
  | arg :: args, ret, skip, r, h => by
    rw [interpolateArgs] at h
    split_ifs at h with hsan
    · obtain ⟨value, hval, hrest⟩ := bind_eq_ok.mp h
      exact forall_mem_cons.mpr ⟨fun _ => ⟨value, hval⟩, sanitized_of_ok hrest⟩
    · exact forall_mem_cons.mpr ⟨fun hs => absurd hs hsan, sanitized_of_ok h⟩

lemma interpolateArgs_eq : ∀ {args : List (Arg F)}, Sanitized argsMap args → ∀ (ret : Text)
    (skip : List Text), interpolateArgs argsMap args ret skip = .ok ((argNames args).foldl
      (fun text name => replaceText (pattern name) (argText argsMap name) text 0) ret,
      skip ++ argNames args)
  | [], _, ret, skip => by
    rw [interpolateArgs, argNames, filter_nil, map_nil, append_nil]
    rfl
  | arg :: args, hok, ret, skip => by
    obtain ⟨hval, hok⟩ := forall_mem_cons.mp hok
    rw [interpolateArgs, argNames]
    split_ifs with hsan
    · obtain ⟨value, hval⟩ := hval hsan
      have htext : argText argsMap arg.name = value := by
        rw [argText, (sanitizedValue_eq_ok hval).1]
        rfl
      rw [hval, filter_cons_of_pos hsan, map_cons, foldl_cons, htext, ← argNames]
      refine (interpolateArgs_eq hok _ _).trans ?_
      rw [append_assoc]
      rfl
    · rw [filter_cons_of_neg hsan]
      exact interpolateArgs_eq hok ret skip

/-! ### Every order -/

section

variable (h : Regular code args argsMap contextual)
include h

lemma replaceContextualVariables_stage (horder : IsOrder order code) :
    replaceContextualVariables order code contextual =
    (parts (known args contextual) code 0).flatMap
      (stage (valueOf argsMap contextual) (foundVariables code contextual)) := by
  have hvars : ∀ name, name ∈ order.filter (fun name => (Fields.text contextual name).isSome) ↔
      name ∈ foundVariables code contextual := fun name => by
    rw [foundVariables, mem_filter, mem_filter, horder.2]
  have hturns : Turns pattern (valueOf argsMap contextual) (stage (valueOf argsMap contextual))
      (parts (known args contextual) code 0) []
      (order.filter fun name => (Fields.text contextual name).isSome) :=
    turns_of_sublists stage_congr h.vars (horder.1.filter _)
      (fun name hname => ⟨(hvars name).mp hname, not_mem_nil⟩) (forall_mem_nil _)
  have hall : ∀ name, name ∈ (order.filter fun name =>
    (Fields.text contextual name).isSome).reverse ++ [] ↔
      name ∈ foundVariables code contextual := fun name => by
    rw [append_nil, mem_reverse, hvars]
  rw [← stage_congr hall, ← foldl_replaceText pattern_ne_nil hturns, stage_nil, source_parts]
  exact replaceContextualVariables_eq order code

lemma foldl_argNames (hdistinct : (argNames args).Nodup) (hargs : args'.Perm args) :
    (argNames args').foldl (fun text name =>
      replaceText (pattern name) (argText argsMap name) text 0)
      ((parts (known args contextual) code 0).flatMap
        (stage (valueOf argsMap contextual) (foundVariables code contextual))) =
    simultaneous code args argsMap contextual := by
  have hperm : (argNames args').Perm (argNames args) := (hargs.filter _).map _
  have hturns : Turns pattern (argText argsMap)
      (fun done => stage (valueOf argsMap contextual) (foundVariables code contextual ++ done))
      (parts (known args contextual) code 0) [] (argNames args') :=
    turns_of_sublists (fun hmem => stage_congr fun name => by rw [mem_append, mem_append, hmem])
      h.params (hperm.nodup_iff.mpr hdistinct)
      (fun name hname => ⟨hperm.subset hname, not_mem_nil⟩) (forall_mem_nil _)
  have hrun := foldl_replaceText pattern_ne_nil hturns
  rw [append_nil, append_nil] at hrun
  rw [hrun, simultaneous]
  refine flatMap_congr fun p hp => ?_
  cases p with
  | plain c => rfl
  | tag name =>
    refine if_pos ?_
    rw [mem_append, mem_reverse, hperm.mem_iff]
    exact h.found name hp

lemma run_eq_simultaneous (hok : Sanitized argsMap args) (hdistinct : (argNames args).Nodup)
    (horder : IsOrder order code) (hargs : args'.Perm args) :
    ∃ skip, sanitizeAndInterpolateUnsafeSqlArgs order code args' argsMap contextual =
      .ok (simultaneous code args argsMap contextual, skip) := by
  have hok' : Sanitized argsMap args' := fun arg harg => hok arg (hargs.subset harg)
  refine ⟨[] ++ argNames args', ?_⟩
  rw [sanitizeAndInterpolateUnsafeSqlArgs, interpolateArgs_eq hok',
    replaceContextualVariables_stage h horder, foldl_argNames h hdistinct hargs]

end

/-- **The names of a query are replaced at once**, by identifiers where they are of arguments and
the same in every order, if each is found only where the query has it when its turn comes. -/
theorem interpolation_eq_simultaneous {skip : List Text} (h : Regular code args argsMap contextual)
    (hdistinct : (args.map fun arg => arg.name).Nodup) (horder : IsOrder order code)
    (hrun : sanitizeAndInterpolateUnsafeSqlArgs order code args argsMap contextual =
      .ok (out, skip)) : out = simultaneous code args argsMap contextual ∧
      (∀ arg ∈ args, isSanitized arg = true → ∃ value,
        asStr (argsMap.get (String.ofList arg.name)) = some value ∧
          isAsciiIdentifier value = true) ∧ ∀ order' args', IsOrder order' code → args'.Perm args →
        ∃ skip', sanitizeAndInterpolateUnsafeSqlArgs order' code args' argsMap contextual = .ok
        (out, skip') := by
  have hok : Sanitized argsMap args := sanitized_of_ok hrun
  have hnames : (argNames args).Nodup := (filter_sublist.map _).nodup hdistinct
  obtain ⟨skip₀, hsame⟩ := run_eq_simultaneous h hok hnames horder (List.Perm.refl args)
  have hout : out = simultaneous code args argsMap contextual := by
    rw [hsame] at hrun
    cases hrun
    rfl
  refine ⟨hout, fun arg hmem hs => ?_, fun order' args' horder' hargs => ?_⟩
  · obtain ⟨value, hval⟩ := hok arg hmem hs
    exact ⟨value, sanitizedValue_eq_ok hval⟩
  · rw [hout]
    exact run_eq_simultaneous h hok hnames horder' hargs

end

def rawString (name : String) : Arg Unit :=
  { name := name.toList, otyp := some sanitizedRawStringStr, typ := .str none, default := none,
    hasDefault := false, oidx := none }

/-- A percent sign stands next to a name. -/
def tableQuery : Text := "100%%%table%%.%%WM_WORKSPACE%%".toList

def tableMap : Fields Json := ⟨[("table", .str "jobs")], by decide⟩

def workspaceVariables : Fields String := ⟨[("WM_WORKSPACE", "admins")], by decide⟩

lemma parts_tableQuery : parts (known [rawString "table"] workspaceVariables) tableQuery 0 =
    [.plain '1', .plain '0', .plain '0', .plain '%', .tag "table".toList, .plain '.',
      .tag "WM_WORKSPACE".toList] := by
  decide +kernel

lemma regular_tableQuery : Regular tableQuery [rawString "table"] tableMap workspaceVariables := by
  refine ⟨?_, by rw [parts_tableQuery]; decide +kernel, by rw [parts_tableQuery]; decide +kernel⟩
  rw [parts_tableQuery]
  intro name hname
  simp only [mem_cons, Part.tag.injEq, reduceCtorEq, not_mem_nil, or_false, false_or] at hname
  obtain rfl | rfl := hname <;> decide +kernel

theorem tableQuery_interpolated :
    sanitizeAndInterpolateUnsafeSqlArgs ["WM_WORKSPACE".toList] tableQuery
    [rawString "table"] tableMap
        workspaceVariables = .ok ("100%jobs.admins".toList, ["table".toList]) ∧
      "100%jobs.admins".toList = simultaneous tableQuery
      [rawString "table"] tableMap workspaceVariables := by
  have hrun : sanitizeAndInterpolateUnsafeSqlArgs ["WM_WORKSPACE".toList] tableQuery
    [rawString "table"]
      tableMap workspaceVariables = .ok ("100%jobs.admins".toList, ["table".toList]) := by
    decide +kernel
  have hnames : contextualNames tableQuery 0 = ["WM_WORKSPACE".toList] := by decide +kernel
  have horder : IsOrder ["WM_WORKSPACE".toList] tableQuery :=
    ⟨by decide, fun name => by rw [hnames]⟩
  exact ⟨hrun, (interpolation_eq_simultaneous regular_tableQuery (by decide) horder hrun).1⟩

/-- A value completes the name of another argument, that is replaced or not. -/
theorem value_interpolated : contextualNames "%%%%a%%%%".toList 0 = [] ∧
      sanitizeAndInterpolateUnsafeSqlArgs [] "%%%%a%%%%".toList [rawString "a", rawString "b"]
        ⟨[("a", .str "b"), ("b", .str "c")], by decide⟩ ⟨[], by decide⟩ = .ok
        ("c".toList, ["a".toList, "b".toList]) ∧
      sanitizeAndInterpolateUnsafeSqlArgs [] "%%%%a%%%%".toList [rawString "b", rawString "a"]
        ⟨[("a", .str "b"), ("b", .str "c")], by decide⟩ ⟨[], by decide⟩ = .ok
        ("%%b%%".toList, ["b".toList, "a".toList]) ∧
      simultaneous "%%%%a%%%%".toList
      [rawString "a", rawString "b"] ⟨[("a", .str "b"), ("b", .str "c")], by decide⟩
        ⟨[], by decide⟩ = "%%b%%".toList := by
  decide +kernel

end Windmill.Sql.Interpolation
