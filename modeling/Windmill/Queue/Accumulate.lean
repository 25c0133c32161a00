import Windmill.Lib.Except
import Windmill.Queue.DebounceKey

/-! # Accumulated arguments

The job that is left of a batch of debounced jobs gets the arguments of all of them
(`maybe_apply_debouncing`, `windmill-queue/src/jobs.rs`). The code reads an argument with `->>`,
which leaves out the quotes of a string, and parses the text again. Only the first of the names is
accumulated. `accumulation_iff` says for which batches the result is the concatenation of the
arguments. -/

namespace Windmill.Queue.Accumulate

open App.Args (Fields)
open App.Execute (DebouncingSettings)
open Lib.Except Lib.JsonText Lib.JsonUnique List
open Lib.Records (Json)
open Queue.Interpolate (Text noWs digits)
open Worker.CachedResult (JobKind)

/-! ### JSON as it is stored -/

def isExponent : Text → Bool
  | [] => true
  | c :: rest =>
    let digits := if rest.head? = some '+' ∨ rest.head? = some '-' then rest.tail else rest
    (c == 'e' || c == 'E') && !digits.isEmpty && digits.all Char.isDigit

def isFraction (text : Text) : Bool :=
  if text.head? = some '.' then
    !(text.tail.takeWhile Char.isDigit).isEmpty && isExponent (text.tail.dropWhile Char.isDigit)
  else isExponent text

def isNumeral (text : Text) : Bool :=
  let unsigned := if text.head? = some '-' then text.tail else text
  let whole := unsigned.takeWhile Char.isDigit
  !whole.isEmpty && (whole == ['0'] || whole.head? != some '0') &&
    isFraction (unsigned.dropWhile Char.isDigit)

def isProperPiece : Piece → Bool
  | .plain c _ => decide (' ' ≤ c)
  | _ => true

mutual

/-- The text is JSON: of the numbers and of the strings it is required here. -/
def isProper : RawJson → Bool
  | .number n => isNumeral n.1
  | .str s => s.all isProperPiece
  | .arr _ items => areProper items
  | .obj _ members => haveProper members
  | _ => true

def areProper : List (Ws × RawJson × Ws) → Bool
  | [] => true
  | (_, item, _) :: rest => isProper item && areProper rest

def haveProper : List ((Ws × RawString × Ws) × Ws × RawJson × Ws) → Bool
  | [] => true
  | ((_, key, _), _, item, _) :: rest => key.all isProperPiece && isProper item && haveProper rest

end

abbrev Stored := { t : RawJson // isProper t = true }

/-- `serde_json`, as it reads raw values. -/
structure Reader where
  read : Text → Option RawJson
  message : Text → String
  sound : ∀ {s t}, read s = some t → ∃ w w' : Ws, s = w.1 ++ (t.text ++ w'.1)
  complete : ∀ t : Stored, read t.1.text ≠ none

/-! ### The code -/

structure Env where
  supportsDebouncing : Bool
  noDebouncing : Bool
  supportsDebouncingV2 : Bool
  forceNoLegacyCompat : Bool
  /-- `->>` of a JSON `null` is `NULL`; otherwise it is the text. -/
  nullIsNull : Bool
  reader : Reader

structure Job where
  kind : JobKind
  args : Option (Fields Stored)
  skipped : Bool

inductive Action where
  | keep
  | drop
  | remove (field : String)
  | write (name : String) (value : List RawJson)

def isDependency : JobKind → Bool
  | .flowDependencies | .appDependencies | .dependencies => true
  | _ => false

def arrow (nullIsNull : Bool) : RawJson → Option Text
  | .str s => some (decode s)
  | .null => if nullIsNull then none else some "null".toList
  | t => some t.text

section

variable (env : Env)

def readList (s : Text) : Option (List RawJson) :=
  match env.reader.read s with
  | some (.arr _ items) => some (items.map fun item => item.2.1)
  | _ => none

def consolidateError (name : String) (e : String) : String :=
  "cannot consolidate argument `" ++ name ++
    "`: value is neither a valid list nor a valid JSON value\nUnwrapped Error: " ++ e

def elements (name : String) : Option Text → Except String (List RawJson)
  | none => .ok []
  | some s =>
    match readList env s with
    | some list => .ok list
    | none =>
      match env.reader.read s with
      | some raw => .ok [raw]
      | none => .error (consolidateError name (env.reader.message s))

def accumulate (name : String) : List (Option Text) → List RawJson → Except String (List RawJson)
  | [], acc => .ok acc
  | row :: rows, acc => (elements env name row).bind fun list => accumulate name rows (acc ++ list)

/-- The jobs of a batch, of which one may be gone. -/
abbrev Batch := List (Option (Fields Stored))

def argument (name : String) (args : Option (Fields Stored)) : Option RawJson :=
  (args.bind fun args => args.get name).map Subtype.val

def rows (batch : Batch) (name : String) : List (Option Text) :=
  batch.map fun args => (argument name args).bind (arrow env.nullIsNull)

def isDjobToDebounce (job : Job) : Bool :=
  isDependency job.kind && (argument "triggered_by_relative_import" job.args).isSome

def applies (settings : DebouncingSettings) (job : Job) : Bool :=
  (isDjobToDebounce job || settings.debounceDelayS.any (0 < ·) ||
      settings.debounceArgsToAccumulate.any fun names => !names.isEmpty) &&
    env.supportsDebouncing && !env.noDebouncing

def legacyField (job : Job) : Option String :=
  if env.supportsDebouncingV2 || env.forceNoLegacyCompat then none
  else match job.kind with
    | .flowDependencies => some "nodes_to_relock"
    | .appDependencies => some "components_to_relock"
    | _ => none

def maybeApplyDebouncing (settings : DebouncingSettings) (job : Job) (batch : Batch) :
    Except String Action :=
  if applies env settings job then
    if job.skipped then .ok .drop
    else match legacyField env job with
      | some field => .ok (.remove field)
      | none =>
        match settings.debounceArgsToAccumulate.bind List.head? with
        | some name =>
          (accumulate env name (rows env batch name) []).map fun accumulated =>
            if accumulated.isEmpty then .keep else .write name accumulated
        | none => .ok .keep
  else .ok .keep

end

/-! ### The concatenation -/

def listed : Json → List Json
  | .arr elems => elems
  | v => [v]

/-- What should be accumulated under a name. -/
def concatenation (batch : Batch) (name : String) : List Json :=
  batch.flatMap fun args => ((argument name args).map fun t => listed t.value).getD []

def Action.written (name : String) : Action → List Json
  | .write n value => if n = name then value.map RawJson.value else []
  | _ => []

/-- The job accumulates the arguments of its batch. -/
structure Accumulates (env : Env) (settings : DebouncingSettings) (job : Job) (first : String)
  (others : List String) : Prop where
  applies : applies env settings job = true
  left : job.skipped = false
  legacy : legacyField env job = none
  names : settings.debounceArgsToAccumulate = some (first :: others)

/-- The argument is no string, and no `null` that is lost. -/
def ReadBack (nullIsNull : Bool) (t : RawJson) : Prop :=
  (∀ s, t ≠ .str s) ∧ (nullIsNull = true → t ≠ .null)

/-! ### Blocks that shift -/

section

variable {α : Type} {A B U V ks : List α} {e : α}

lemma mem_of_append_eq (h : A ++ (ks ++ U) = B ++ e :: V) (hle : A.length ≤ B.length)
    (hlt : B.length < A.length + ks.length) : e ∈ ks := by
  have hget : (A ++ (ks ++ U))[B.length]? = some e := by
    rw [h, getElem?_append_right le_rfl, Nat.sub_self]
    rfl
  rw [getElem?_append_right hle, getElem?_append_left (by omega)] at hget
  exact mem_of_getElem? hget

/-- A block that is not right has one element for which there are others. As soon as something is
missing, something stays missing. -/
lemma blocks_of_append_eq : ∀ {blocks : List (List α × List α)} {A B : List α},
    (∀ b ∈ blocks, b.1 = b.2 ∨ ∃ e, b.2 = [e] ∧ e ∉ b.1) → A.length ≤ B.length →
    A ++ blocks.flatMap Prod.fst = B ++ blocks.flatMap Prod.snd → A.length = B.length ∧
    ∀ b ∈ blocks, b.1 = b.2
  | [], A, B, _, _, heq => by
    rw [flatMap_nil, append_nil, flatMap_nil, append_nil] at heq
    exact ⟨congrArg length heq, fun b hb => absurd hb not_mem_nil⟩
  | (xs, ys) :: blocks, A, B, h, hle, heq => by
    have hrest : ∀ b ∈ blocks, b.1 = b.2 ∨ ∃ e, b.2 = [e] ∧ e ∉ b.1 :=
      fun b hb => h b (mem_cons_of_mem _ hb)
    have hnext : (A ++ xs) ++ blocks.flatMap Prod.fst = (B ++ ys) ++ blocks.flatMap Prod.snd := by
      rw [append_assoc, append_assoc]
      exact heq
    rcases h (xs, ys) mem_cons_self with hsame | ⟨e, hys, he⟩
    · obtain rfl : xs = ys := hsame
      have hlen : (A ++ xs).length ≤ (B ++ xs).length := by
        rw [length_append, length_append]
        omega
      obtain ⟨hlength, hblks⟩ := blocks_of_append_eq hrest hlen hnext
      rw [length_append, length_append] at hlength
      refine ⟨by omega, fun b hb => ?_⟩
      rcases mem_cons.mp hb with rfl | hb
      · rfl
      · exact hblks b hb
    · obtain rfl : ys = [e] := hys
      have hshort : A.length + xs.length ≤ B.length := by
        by_contra hlt
        have hmem : e ∈ xs := mem_of_append_eq heq hle (by omega)
        exact he hmem
      have hlen : (A ++ xs).length ≤ (B ++ [e]).length := by
        rw [length_append, length_append]
        omega
      obtain ⟨hlength, -⟩ := blocks_of_append_eq hrest hlen hnext
      rw [length_append, length_append, length_singleton] at hlength
      omega

end

/-! ### What is read of one argument -/

lemma length_decode_le (s : RawString) : (decode s).length ≤ (raw s).length := by
  induction s with
  | nil => exact le_rfl
  | cons p s ih =>
    have hp : 1 ≤ p.chars.length := by cases p <;> exact Nat.le_add_left 1 _
    rw [raw_cons, length_append]
    have : (decode (p :: s)).length = (decode s).length + 1 := rfl
    omega

variable {t : RawJson} {d : Text} {name : String} {list : List RawJson}

lemma length_lt_text (h : t.value = .str (String.ofList d)) : d.length < t.text.length := by
  cases t with
  | str s =>
    have hd : decode s = d := String.ofList_injective (Json.str.inj h)
    have hle := length_decode_le s
    have htext : (RawJson.str s).text.length = (raw s).length + 2 := by
      rw [RawJson.text, quoted, length_cons, length_append]
      rfl
    rw [← hd]
    omega
  | null | bool b | number n | arr ws items | obj ws members => cases h

lemma length_item_le {items item} (h : item ∈ items) :
    item.2.1.text.length ≤ (itemsText items).length := by
  induction items with
  | nil => exact absurd h not_mem_nil
  | cons first items ih =>
    obtain ⟨before, t, after⟩ := first
    rw [itemsText]
    simp only [length_append]
    rcases mem_cons.mp h with rfl | h
    · dsimp only
      omega
    · have := ih h
      omega

/-- **A string is not among the parts of its own text.** -/
theorem str_notMem_listed (h : t.text.length ≤ d.length) :
    Json.str (String.ofList d) ∉ listed t.value := by
  intro hmem
  have hself : t.value ≠ .str (String.ofList d) :=
    fun hval => absurd (length_lt_text hval) (by omega)
  cases t with
  | arr ws items =>
    have hmem : Json.str (String.ofList d) ∈ itemsValues items := hmem
    rw [itemsValues_eq_map] at hmem
    obtain ⟨item, hitem, hval⟩ := mem_map.mp hmem
    have hlt := length_lt_text hval
    have hle := length_item_le hitem
    have htext : (itemsText items).length ≤ (RawJson.arr ws items).text.length := by
      rw [RawJson.text]
      simp only [length_cons, length_append]
      omega
    omega
  | null | bool b | number n | str s | obj ws members => exact hself (mem_singleton.mp hmem).symm

variable {args : Option (Fields Stored)}

section

variable {env : Env}

lemma value_of_read {t'} (h : env.reader.read t.text = some t') : t'.value = t.value := by
  obtain ⟨w, w', htext⟩ := env.reader.sound h
  have hstart : [] ++ (t.text ++ []) = w.1 ++ (t'.text ++ w'.1) := by
    rw [append_nil]
    exact htext
  obtain ⟨-, hsame⟩ := eq_of_append_eq (forall_mem_nil _) w.2 (stops_text t [])
    (stops_text t' w'.1) hstart
  have hend : Stops isNumberChar [] := nofun
  have hend' : Stops isNumberChar w'.1 := by
    have := stops_number_ws w' hend
    rwa [append_nil] at this
  exact (value_eq_of_append_eq hend hend' hsame).1.symm

lemma length_of_read (h : env.reader.read d = some t) : t.text.length ≤ d.length := by
  obtain ⟨w, w', rfl⟩ := env.reader.sound h
  simp only [length_append]
  omega

lemma elements_of_read (name : String) (h : env.reader.read d = some t) :
    ∃ list, elements env name (some d) = .ok list ∧ list.map RawJson.value = listed t.value := by
  cases t with
  | arr ws items =>
    have hlist : readList env d = some (items.map fun item => item.2.1) := by rw [readList, h]
    refine ⟨items.map fun item => item.2.1, by rw [elements, hlist], ?_⟩
    rw [map_map]
    exact (itemsValues_eq_map items).symm
  | null => exact ⟨[.null], by rw [elements, readList, h], rfl⟩
  | bool b => exact ⟨[.bool b], by rw [elements, readList, h], rfl⟩
  | number n => exact ⟨[.number n], by rw [elements, readList, h], rfl⟩
  | str s => exact ⟨[.str s], by rw [elements, readList, h], rfl⟩
  | obj ws members => exact ⟨[.obj ws members], by rw [elements, readList, h], rfl⟩

lemma arrow_of_readBack (h : ReadBack env.nullIsNull t) : arrow env.nullIsNull t = some t.text := by
  cases t with
  | str s => exact absurd rfl (h.1 s)
  | null =>
    have hnull : ¬env.nullIsNull = true := fun hnull => h.2 hnull rfl
    rw [arrow, if_neg hnull]
    rfl
  | bool b | number n | arr ws items | obj ws members => rfl

lemma not_readBack_cases {nullIsNull : Bool} (h : ¬ReadBack nullIsNull t) :
    (∃ s, t = .str s) ∨ (nullIsNull = true ∧ t = .null) := by
  by_contra hno
  rw [not_or] at hno
  exact h ⟨fun s heq => hno.1 ⟨s, heq⟩, fun htrue heq => hno.2 ⟨htrue, heq⟩⟩

/-- **An argument that is read back** is accumulated as it should be. -/
theorem elements_of_readBack (name : String) {t : Stored} (h : ReadBack env.nullIsNull t.1) :
    ∃ list, elements env name (arrow env.nullIsNull t.1) = .ok list ∧ list.map RawJson.value =
    listed t.1.value := by
  obtain ⟨t', hread⟩ := Option.ne_none_iff_exists'.mp (env.reader.complete t)
  rw [arrow_of_readBack h, ← value_of_read hread]
  exact elements_of_read name hread

/-- **Another one never is**: what should be added is not among what is added. -/
theorem notMem_elements (h : ¬ReadBack env.nullIsNull t)
    (hlist : elements env name (arrow env.nullIsNull t) = .ok list) :
    listed t.value = [t.value] ∧ t.value ∉ list.map RawJson.value := by
  rcases not_readBack_cases h with ⟨s, rfl⟩ | ⟨htrue, rfl⟩
  · refine ⟨rfl, ?_⟩
    rw [arrow] at hlist
    cases hread : env.reader.read (decode s) with
    | none =>
      simp [elements, readList, hread] at hlist
    | some t' =>
      obtain ⟨list', hlist', hvals⟩ := elements_of_read name hread
      obtain rfl : list' = list := Except.ok.inj (hlist'.symm.trans hlist)
      rw [hvals]
      exact str_notMem_listed (length_of_read hread)
  · rw [arrow, if_pos htrue] at hlist
    obtain rfl : [] = list := Except.ok.inj hlist
    exact ⟨rfl, not_mem_nil⟩

/-! ### The loop -/

def appended (env : Env) (name : String) (row : Option Text) : List RawJson :=
  match elements env name row with
  | .ok list => list
  | .error _ => []

lemma appended_of_ok {row : Option Text} (h : elements env name row = .ok list) :
    appended env name row = list := by
  rw [appended, h]

lemma accumulate_of_ok : ∀ {rows} acc, (∀ row ∈ rows, ∃ list, elements env name row = .ok list) →
    accumulate env name rows acc = .ok (acc ++ rows.flatMap (appended env name))
  | [], acc, _ => by rw [accumulate, flatMap_nil, append_nil]
  | row :: rows, acc, h => by
    obtain ⟨list, hlist⟩ := h row mem_cons_self
    have hrest := accumulate_of_ok (acc ++ list) fun r hr => h r (mem_cons_of_mem _ hr)
    rw [accumulate, hlist, flatMap_cons, appended_of_ok hlist, ← append_assoc]
    exact hrest

lemma ok_of_accumulate : ∀ {rows acc out},
    accumulate env name rows acc = .ok out → ∀ row ∈ rows, ∃ list, elements env name row = .ok list
  | row :: rows, acc, out, h, r, hr => by
    obtain ⟨list, hlist, hrest⟩ := bind_eq_ok.mp h
    rcases mem_cons.mp hr with rfl | hr
    · exact ⟨list, hlist⟩
    · exact ok_of_accumulate hrest r hr

variable {batch : Batch}

def blockOf (env : Env) (name : String) (args : Option (Fields Stored)) : List Json × List Json :=
  ((appended env name ((argument name args).bind (arrow env.nullIsNull))).map RawJson.value,
    ((argument name args).map fun t => listed t.value).getD [])

def AllReadBack (nullIsNull : Bool) (batch : Batch) (name : String) : Prop :=
  ∀ args ∈ batch, ∀ t, argument name args = some t → ReadBack nullIsNull t

lemma exists_stored (h : argument name args = some t) : ∃ stored : Stored, t = stored.1 := by
  obtain ⟨stored, -, rfl⟩ := Option.map_eq_some_iff.mp h
  exact ⟨stored, rfl⟩

lemma block_of_readBack (h : ∀ t, argument name args = some t → ReadBack env.nullIsNull t) :
    (∃ list, elements env name ((argument name args).bind (arrow env.nullIsNull)) = .ok list) ∧
      (blockOf env name args).1 = (blockOf env name args).2 := by
  unfold blockOf
  cases harg : argument name args with
  | none => exact ⟨⟨[], rfl⟩, rfl⟩
  | some t =>
    obtain ⟨stored, rfl⟩ := exists_stored harg
    obtain ⟨list, hlist, hvals⟩ := elements_of_readBack name (h _ harg)
    refine ⟨⟨list, hlist⟩, ?_⟩
    rw [Option.bind_some, appended_of_ok hlist]
    exact hvals

lemma block_of_not_readBack (harg : argument name args = some t) (h : ¬ReadBack env.nullIsNull t)
    (hok : ∃ list, elements env name ((argument name args).bind (arrow env.nullIsNull)) =
      .ok list) : ∃ e, (blockOf env name args).2 = [e] ∧ e ∉ (blockOf env name args).1 := by
  obtain ⟨list, hlist⟩ := hok
  unfold blockOf
  rw [harg] at hlist ⊢
  obtain ⟨hlisted, hnot⟩ := notMem_elements h hlist
  refine ⟨t.value, hlisted, ?_⟩
  rw [appended_of_ok hlist]
  exact hnot

lemma flatMap_blockOf_fst : (batch.map (blockOf env name)).flatMap Prod.fst =
    ((rows env batch name).flatMap (appended env name)).map RawJson.value := by
  rw [rows, flatMap_map, flatMap_map, map_flatMap]
  rfl

lemma flatMap_blockOf_snd (env : Env) : (batch.map (blockOf env name)).flatMap Prod.snd =
    concatenation batch name := by
  rw [flatMap_map]
  rfl

lemma accumulate_iff :
    (∃ out, accumulate env name (rows env batch name) [] = .ok out ∧ out.map RawJson.value =
      concatenation batch name) ↔ AllReadBack env.nullIsNull batch name := by
  constructor
  · rintro ⟨out, hout, hvals⟩
    have hok := ok_of_accumulate hout
    have hrow : ∀ args ∈ batch, ∃ list,
        elements env name ((argument name args).bind (arrow env.nullIsNull)) = .ok list :=
      fun args hargs => hok _ (mem_map_of_mem hargs)
    obtain rfl : [] ++ (rows env batch name).flatMap (appended env name) = out :=
      Except.ok.inj ((accumulate_of_ok [] hok).symm.trans hout)
    rw [nil_append, ← flatMap_blockOf_fst, ← flatMap_blockOf_snd env] at hvals
    have hblks := (blocks_of_append_eq (A := []) (B := []) ?_ le_rfl hvals).2
    · intro args hargs t harg
      by_contra hno
      obtain ⟨e, hsnd, hfst⟩ := block_of_not_readBack harg hno (hrow args hargs)
      rw [hblks _ (mem_map_of_mem hargs), hsnd] at hfst
      exact hfst (mem_singleton_self e)
    · intro b hb
      obtain ⟨args, hargs, rfl⟩ := mem_map.mp hb
      by_cases hback : ∀ t, argument name args = some t → ReadBack env.nullIsNull t
      · exact .inl (block_of_readBack hback).2
      · obtain ⟨t, hback⟩ := not_forall.mp hback
        obtain ⟨harg, hno⟩ := Classical.not_imp.mp hback
        exact .inr (block_of_not_readBack harg hno (hrow args hargs))
  · intro h
    have hok : ∀ row ∈ rows env batch name, ∃ list, elements env name row = .ok list := by
      intro row hrow
      obtain ⟨args, hargs, rfl⟩ := mem_map.mp hrow
      exact (block_of_readBack (h args hargs)).1
    refine ⟨_, accumulate_of_ok [] hok, ?_⟩
    rw [nil_append, ← flatMap_blockOf_fst, ← flatMap_blockOf_snd env]
    refine flatMap_congr fun b hb => ?_
    obtain ⟨args, hargs, rfl⟩ := mem_map.mp hb
    exact (block_of_readBack (h args hargs)).2

end

/-! ### What is written -/

section

variable {env : Env} {settings : DebouncingSettings} {job : Job} {first : String}
  {others : List String} {batch : Batch}

def StringsRead (reader : Reader) (batch : Batch) (name : String) : Prop :=
  ∀ args ∈ batch, ∀ s, argument name args = some (.str s) → reader.read (decode s) ≠ none

lemma elements_ok_iff : (∃ list,
    elements env name ((argument name args).bind (arrow env.nullIsNull)) = .ok list) ↔
      ∀ s, argument name args = some (.str s) → env.reader.read (decode s) ≠ none := by
  constructor
  · rintro ⟨list, hlist⟩ s harg hnone
    simp [harg, Option.bind_some, arrow, elements, readList, hnone] at hlist
  intro h
  cases harg : argument name args with
  | none => exact ⟨[], rfl⟩
  | some t =>
    obtain ⟨stored, rfl⟩ := exists_stored harg
    by_cases hback : ReadBack env.nullIsNull stored.1
    · obtain ⟨list, hlist, -⟩ := elements_of_readBack name hback
      exact ⟨list, hlist⟩
    rcases not_readBack_cases hback with ⟨s, hs⟩ | ⟨htrue, hnull⟩
    · obtain ⟨t, hread⟩ := Option.ne_none_iff_exists'.mp (h s (hs ▸ harg))
      obtain ⟨list, hlist, -⟩ := elements_of_read name hread
      refine ⟨list, ?_⟩
      rw [hs]
      exact hlist
    · refine ⟨[], ?_⟩
      rw [hnull, Option.bind_some, arrow, if_pos htrue]
      rfl

lemma accumulate_ok_iff : (∃ out, accumulate env name (rows env batch name) [] = .ok out) ↔
    StringsRead env.reader batch name := by
  constructor
  · rintro ⟨out, hout⟩ args hargs
    exact elements_ok_iff.mp (ok_of_accumulate hout _ (mem_map_of_mem hargs))
  · intro h
    refine ⟨_, accumulate_of_ok [] fun row hrow => ?_⟩
    obtain ⟨args, hargs, rfl⟩ := mem_map.mp hrow
    exact elements_ok_iff.mpr (h args hargs)

lemma Accumulates.eq (h : Accumulates env settings job first others) (batch : Batch) :
    maybeApplyDebouncing env settings job batch =
      (accumulate env first (rows env batch first) []).map fun accumulated =>
        if accumulated.isEmpty then .keep else .write first accumulated := by
  unfold maybeApplyDebouncing
  rw [if_pos h.applies, h.left, h.legacy, h.names]
  rfl

lemma written_accumulated (name : String) (accumulated : List RawJson) :
    Action.written name (if accumulated.isEmpty then .keep else .write first accumulated) =
      if first = name then accumulated.map RawJson.value else [] := by
  cases accumulated with
  | nil => simp [Action.written]
  | cons t ts => rfl

/-- The call succeeds and writes the concatenation of the arguments. -/
def WritesAll (env : Env) (settings : DebouncingSettings) (job : Job) (batch : Batch)
    (name : String) : Prop :=
  ∃ action, maybeApplyDebouncing env settings job batch = .ok action ∧ action.written name =
    concatenation batch name

lemma writesAll_iff (h : Accumulates env settings job first others) :
    WritesAll env settings job batch name ↔ ∃ out, accumulate env first (rows env batch first)
    [] = .ok out ∧
      (if first = name then out.map RawJson.value else []) = concatenation batch name := by
  unfold WritesAll
  rw [h.eq]
  constructor
  · rintro ⟨action, hact, hwr⟩
    obtain ⟨out, hout, rfl⟩ := map_eq_ok.mp hact
    exact ⟨out, hout, (written_accumulated name out).symm.trans hwr⟩
  · rintro ⟨out, hout, hwr⟩
    exact ⟨_, map_eq_ok.mpr ⟨out, hout, rfl⟩, (written_accumulated name out).trans hwr⟩

/-- **Nothing is lost** if and only if the arguments under the first name are read back; under
another name there must be nothing to accumulate, and no string that fails under the first one. -/
theorem accumulation_iff (h : Accumulates env settings job first others) (name : String) :
    WritesAll env settings job batch name ↔
    if first = name then AllReadBack env.nullIsNull batch name
      else concatenation batch name = [] ∧ StringsRead env.reader batch first := by
  rw [writesAll_iff h]
  by_cases hname : first = name
  · subst hname
    simp only [if_true]
    exact accumulate_iff
  simp only [if_neg hname]
  rw [← accumulate_ok_iff]
  constructor
  · rintro ⟨out, hout, hnil⟩
    exact ⟨hnil.symm, out, hout⟩
  · rintro ⟨hnil, out, hout⟩
    exact ⟨out, hout, hnil.symm⟩

end

def Holds (s : Text) (t : RawJson) : Prop :=
  isProper t = true ∧ ∃ w w' : Ws, s = w.1 ++ (t.text ++ w'.1)

open Classical in
noncomputable def someReader : Reader where
  read s := if h : ∃ t, Holds s t then some h.choose else none
  message _ := ""
  sound {s t} h := by
    split at h
    case isTrue hholds =>
      cases h
      exact hholds.choose_spec.2
    case isFalse => cases h
  complete t := by
    have hholds : ∃ t', Holds t.1.text t' := ⟨t.1, t.2, noWs, noWs, (List.append_nil _).symm⟩
    rw [dif_pos hholds]
    exact Option.some_ne_none _

noncomputable def someEnv : Env where
  supportsDebouncing := true
  noDebouncing := false
  supportsDebouncingV2 := true
  forceNoLegacyCompat := false
  nullIsNull := true
  reader := someReader

def accumulatingSettings : DebouncingSettings := ⟨none, none, none, none, some ["items"]⟩

def survivor : Job where
  kind := .script
  args := none
  skipped := false

lemma survivor_accumulates : Accumulates someEnv accumulatingSettings survivor "items" [] :=
  ⟨rfl, rfl, rfl, rfl⟩

def batchOf (ts : List Stored) : Batch :=
  ts.map fun t => some ⟨[("items", t)], List.nodup_singleton _⟩

/-- Two jobs with a number, and one without arguments. -/
def numbers : Batch :=
  batchOf [⟨digits ['4', '7'] (by decide), by decide⟩, ⟨digits ['8'] (by decide), by decide⟩] ++
    [none]

theorem numbers_accumulated : Accumulates someEnv accumulatingSettings survivor "items" [] ∧
    WritesAll someEnv accumulatingSettings survivor numbers "items" := by
  refine ⟨survivor_accumulates, (accumulation_iff survivor_accumulates "items").mpr ?_⟩
  have hdigits : ∀ args ∈ numbers, ∀ t, argument "items" args = some t → ∃ l h, t = digits l h := by
    simp only [numbers, batchOf, map_cons, map_nil, cons_append, nil_append, forall_mem_cons]
    exact ⟨fun t ht => ⟨_, _, (Option.some.inj ht).symm⟩, fun t ht =>
      ⟨_, _, (Option.some.inj ht).symm⟩, nofun, forall_mem_nil _⟩
  intro args hargs t harg
  obtain ⟨l, h, rfl⟩ := hdigits args hargs t harg
  exact ⟨nofun, nofun⟩

theorem string_not_accumulated : Accumulates someEnv accumulatingSettings survivor "items" [] ∧
    ¬WritesAll someEnv accumulatingSettings survivor
      (batchOf [⟨.str (plainString ['1', '2'] (by decide)), by decide⟩]) "items" := by
  refine ⟨survivor_accumulates, fun h => ?_⟩
  obtain ⟨out, hout, hvals⟩ := (writesAll_iff survivor_accumulates).mp h
  have hback := accumulate_iff.mp ⟨out, hout, hvals⟩
  exact (hback _ (mem_singleton_self _) _ rfl).1 _ rfl

end Windmill.Queue.Accumulate
