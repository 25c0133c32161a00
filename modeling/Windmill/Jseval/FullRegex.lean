import Mathlib.Data.List.TakeWhile
import Windmill.Lib.JsonUnique
import Windmill.Sql.Signature

/-! # Results that are fetched without evaluation

An expression that is an access chain such as `results.a[0].b` is not evaluated: its value is
fetched with a path (`handle_full_regex`, `windmill-jseval/src/lib.rs`). The regular expression
matches a line, so that the chain may be one line of an expression with more of them.
`fullRegex_sound_iff` says when the answer is that of the whole expression. -/

namespace Windmill.Jseval.FullRegex

open List

open Lib.JsonUnique (Stops stops_cons dropWhile_eq_of_stops)
open Sql.Scanner (isSpace)
open Sql.Signature (trim)

abbrev Text := List Char

/-- The characters of `\d`. -/
structure Digits where
  decimal : Char → Bool
  ascii : ∀ c, c.toNat < 128 → decimal c = c.isDigit
  notSpace : ∀ c, decimal c = true → isSpace c = false

/-! ### The code -/

def isWord (c : Char) : Bool := c.isAlphanum || c == '_'

def isName (name : Text) : Bool := !name.isEmpty && name.all isWord

inductive Obj where
  | results
  | flowEnv
  deriving DecidableEq

def Obj.text : Obj → Text
  | .results => "results".toList
  | .flowEnv => "flow_env".toList

structure Captures where
  obj : Obj
  key : Text
  idx : Option Text
  rest : Option Text

def isRest (text : Text) : Bool :=
  (text.splitOn '.').head? == some [] && !(text.splitOn '.').tail.isEmpty &&
    (text.splitOn '.').tail.all isName

def matchRest (text : Text) : Option (Option Text) :=
  if text.isEmpty then some none else if isRest text then some (some text) else none

section

variable (D : Digits)

def matchIndex (text : Text) : Option (Option Text × Option Text) :=
  if text.head? = some '[' then
    let digits := text.tail.takeWhile D.decimal
    let after := text.tail.dropWhile D.decimal
    if after.head? = some ']' ∧ digits ≠ [] then (matchRest after.tail).map fun rest =>
      (some digits, rest) else none
  else (matchRest text).map fun rest => (none, rest)

def matchKey (obj : Obj) (text : Text) : Option Captures :=
  let dotted := if text.head? = some '?' then text.tail else text
  let key := dotted.tail.takeWhile isWord
  if dotted.head? = some '.' ∧ key ≠ [] then
    (matchIndex D (dotted.tail.dropWhile isWord)).map fun groups => ⟨obj, key, groups.1, groups.2⟩
  else none

def matchLine (line : Text) : Option Captures :=
  if Obj.results.text <+: line then matchKey D .results (line.drop 7)
  else if Obj.flowEnv.text <+: line then matchKey D .flowEnv (line.drop 8)
  else none

def captures (expr : Text) : Option Captures := (expr.splitOn '\n').findSome? (matchLine D)

def jsOnlyProperties : List Text := ["length".toList]

def endsWithJsOnlyProperty : Option Text → Bool
  | none => false
  | some rest => jsOnlyProperties.contains ((rest.splitOn '.').getLast?.getD [])

def query (c : Captures) : Option Text :=
  match c.idx with
  | some idx =>
    match c.rest with
    | some rest => some (idx ++ rest)
    | none => some idx
  | none => c.rest.map fun rest => rest.dropWhile (· == '.')

/-- The requests for a result or a flow variable. -/
structure Client (β : Type) where
  getResultById : Text → Option (List Text) → Option β
  getFlowEnvByFlowJobId : Text → Option (List Text) → Except String β
  null : β

def Client.fetch {β : Type} (client : Client β) (obj : Obj) (key : Text)
    (path : Option (List Text)) : Except String β :=
  match obj with
  | .results => .ok ((client.getResultById key path).getD client.null)
  | .flowEnv => client.getFlowEnvByFlowJobId key path

def handleFullRegex {β : Type} (client : Client β) (expr : Text) : Option (Except String β) :=
  match captures D expr with
  | none => none
  | some c =>
    if endsWithJsOnlyProperty c.rest then none
    else some (client.fetch c.obj c.key ((query c).map fun q => q.splitOn '.'))

end

/-! ### Chains -/

/-- An access chain, such as `results?.a[0].b`. -/
structure Chain where
  obj : Obj
  optional : Bool
  key : Text
  index : Option Text
  props : List Text

def restText (props : List Text) : Text := props.flatMap fun p => '.' :: p

def indexText : Option Text → Text
  | none => []
  | some digits => '[' :: (digits ++ [']'])

def Chain.text (c : Chain) : Text :=
  c.obj.text ++ ((if c.optional then ['?'] else []) ++
    '.' :: (c.key ++ (indexText c.index ++ restText c.props)))

def Chain.path (c : Chain) : Option (List Text) :=
  if c.index.toList ++ c.props = [] then none else some (c.index.toList ++ c.props)

structure Chain.Valid (digit : Char → Bool) (c : Chain) : Prop where
  key : isName c.key = true
  index : ∀ d, c.index = some d → d ≠ [] ∧ ∀ x ∈ d, digit x = true
  props : ∀ p ∈ c.props, isName p = true

/-- What is fetched is the value of the expression. -/
def Sound {β : Type} (D : Digits) (client : Client β) (expr : Text) : Prop :=
  ∀ value, handleFullRegex D client expr = some value →
    ∃ c : Chain, c.Valid Char.isDigit ∧ trim expr = c.text ∧ value = client.fetch c.obj c.key c.path

/-! ### Dots -/

variable {name text line : Text} {props : List Text}

lemma isName_iff : isName name = true ↔ name ≠ [] ∧ ∀ c ∈ name, isWord c = true := by
  unfold isName
  cases name <;> simp

lemma dot_notMem (h : isName name = true) : '.' ∉ name :=
  fun hmem => absurd ((isName_iff.mp h).2 _ hmem) (by decide)

lemma intercalate_cons (sep : Char) : ∀ p ps,
    [sep].intercalate (p :: ps) = p ++ ps.flatMap fun q => sep :: q
  | p, [] => by simp
  | p, p' :: ps => by
    rw [intercalate_cons_cons, intercalate_cons sep p' ps]
    simp

lemma splitOn_append_restText {p ps} (hp : '.' ∉ p) (hps : ∀ q ∈ ps, '.' ∉ q) :
    (p ++ restText ps).splitOn '.' = p :: ps := by
  rw [restText, ← intercalate_cons]
  refine splitOn_intercalate '.' (fun l hl => ?_) (cons_ne_nil p ps)
  rcases mem_cons.mp hl with rfl | hl
  · exact hp
  · exact hps l hl

lemma isRest_iff : isRest text = true ↔ ∃ props, props ≠ [] ∧ (∀ p ∈ props, isName p = true) ∧
    text = restText props := by
  unfold isRest
  constructor
  · intro h
    obtain ⟨⟨hhead, htail⟩, hnames⟩ : ((text.splitOn '.').head? = some [] ∧
      (text.splitOn '.').tail ≠ []) ∧
        ∀ p ∈ (text.splitOn '.').tail, isName p = true := by simpa using h
    refine ⟨_, htail, hnames, ?_⟩
    have hsplit : text.splitOn '.' = [] :: (text.splitOn '.').tail := (eq_cons_of_mem_head? hhead)
    have hjoin : ['.'].intercalate (text.splitOn '.') = text := intercalate_splitOn '.'
    rw [hsplit, intercalate_cons] at hjoin
    exact hjoin.symm
  · rintro ⟨props, hne, hprops, rfl⟩
    have hsplit : (restText props).splitOn '.' = [] :: props :=
      splitOn_append_restText not_mem_nil fun q hq => dot_notMem (hprops q hq)
    rw [hsplit]
    simpa [hne] using hprops

def restGroup (props : List Text) : Option Text :=
  if props = [] then none else some (restText props)

lemma matchRest_iff {rest} :
    matchRest text = some rest ↔ ∃ props, (∀ p ∈ props, isName p = true) ∧ text = restText props ∧
    rest = restGroup props := by
  unfold matchRest
  constructor
  · intro h
    split at h
    case isTrue hemp =>
      cases h
      exact ⟨[], forall_mem_nil _, isEmpty_iff.mp hemp, rfl⟩
    case isFalse =>
      split at h
      case isTrue hrest =>
        cases h
        obtain ⟨props, hne, hprops, rfl⟩ := isRest_iff.mp hrest
        exact ⟨props, hprops, rfl, (if_neg hne).symm⟩
      case isFalse => cases h
  · rintro ⟨props, hprops, rfl, rfl⟩
    by_cases hnil : props = []
    · subst hnil
      rfl
    · have hemp : (restText props).isEmpty = false := by
        cases props <;> simp_all [restText]
      rw [hemp, if_neg Bool.false_ne_true, if_pos (isRest_iff.mpr ⟨props, hnil, hprops, rfl⟩),
        restGroup, if_neg hnil]

/-! ### The groups of a line -/

variable {c x : Char}

section

variable {D : Digits}

lemma span_append {p k after} (hk : ∀ c ∈ k, p c = true) (hafter : Stops p after) :
    (k ++ after).takeWhile p = k ∧ (k ++ after).dropWhile p = after := by
  rw [takeWhile_append_of_pos hk, dropWhile_append_of_pos hk, dropWhile_eq_of_stops hafter]
  refine ⟨?_, rfl⟩
  cases after with
  | nil => exact append_nil k
  | cons c rest => rw [takeWhile_cons_of_neg (by rw [hafter c rest rfl]; exact Bool.false_ne_true),
      append_nil]

lemma eq_cons_of_head? (h : text.head? = some c) : text = c :: text.tail := eq_cons_of_mem_head? h

lemma restText_head (h : (restText props).head? = some c) : c = '.' := by
  cases props with
  | nil => cases h
  | cons p props => exact (Option.some.inj h).symm

def ValidIndex (digit : Char → Bool) (index : Option Text) : Prop :=
  ∀ d, index = some d → d ≠ [] ∧ ∀ x ∈ d, digit x = true

lemma matchIndex_iff {groups} :
    matchIndex D text = some groups ↔ ∃ index props, ValidIndex D.decimal index ∧
    (∀ p ∈ props, isName p = true) ∧
      text = indexText index ++ restText props ∧ groups = (index, restGroup props) := by
  unfold matchIndex
  dsimp only
  constructor
  · intro h
    split at h
    case isTrue hopen =>
      split at h
      case isTrue hclose =>
        obtain ⟨hclose, hdig⟩ := hclose
        obtain ⟨rest, hrest, rfl⟩ := Option.map_eq_some_iff.mp h
        obtain ⟨props, hprops, htail, rfl⟩ := matchRest_iff.mp hrest
        refine ⟨some (text.tail.takeWhile D.decimal), props, ?_, hprops, ?_, rfl⟩
        · intro d hd
          obtain rfl := Option.some.inj hd
          exact ⟨hdig, fun x hx => mem_takeWhile_imp hx⟩
        · rw [indexText, cons_append, append_assoc, singleton_append, ← htail,
            ← eq_cons_of_head? hclose, takeWhile_append_dropWhile, ← eq_cons_of_head? hopen]
      case isFalse => cases h
    case isFalse =>
      obtain ⟨rest, hrest, rfl⟩ := Option.map_eq_some_iff.mp h
      obtain ⟨props, hprops, rfl, rfl⟩ := matchRest_iff.mp hrest
      exact ⟨none, props, nofun, hprops, rfl, rfl⟩
  · rintro ⟨index, props, hidx, hprops, rfl, rfl⟩
    have hrest : matchRest (restText props) = some (restGroup props) :=
      matchRest_iff.mpr ⟨props, hprops, rfl, rfl⟩
    cases index with
    | none =>
      have hno : ¬(indexText none ++ restText props).head? = some '[' := fun h =>
        absurd (restText_head h) (by decide)
      rw [if_neg hno, show indexText none ++ restText props = restText props from rfl, hrest]
      rfl
    | some d =>
      obtain ⟨hne, hd⟩ := hidx d rfl
      have hstop : Stops D.decimal (']' :: restText props) :=
        stops_cons ((D.ascii _ (by decide)).trans (by decide))
      obtain ⟨htake, hdrop⟩ := span_append hd hstop
      have htail : (indexText (some d) ++ restText props).tail = d ++ ']' :: restText props := by
        rw [indexText, cons_append, append_assoc]
        rfl
      have hopen : (indexText (some d) ++ restText props).head? = some '[' := rfl
      rw [if_pos hopen, htail, htake, hdrop, if_pos ⟨rfl, hne⟩, tail_cons, hrest]
      rfl

lemma stops_indexText (index : Option Text) (props : List Text) :
    Stops isWord (indexText index ++ restText props) := by
  intro c rest heq
  cases index with
  | some d =>
    obtain rfl : '[' = c := (cons.inj heq).1
    decide
  | none =>
    have hc : (restText props).head? = some c := by
      rw [show restText props = c :: rest from heq]
      rfl
    rw [restText_head hc]
    decide

def Chain.groups (c : Chain) : Captures := ⟨c.obj, c.key, c.index, restGroup c.props⟩

def Chain.tailText (c : Chain) : Text :=
  (if c.optional then ['?'] else []) ++ '.' :: (c.key ++ (indexText c.index ++ restText c.props))

variable {groups : Captures}

lemma matchKey_iff {obj : Obj} : matchKey D obj text = some groups ↔
      ∃ c : Chain, c.Valid D.decimal ∧ c.obj = obj ∧ text = c.tailText ∧ groups = c.groups := by
  unfold matchKey
  dsimp only
  constructor
  · intro h
    generalize hdotted : (if text.head? = some '?' then text.tail else text) = dotted at h
    split at h
    case isTrue hdot =>
      obtain ⟨hdot, hkey⟩ := hdot
      obtain ⟨⟨idx, rest⟩, hidx, rfl⟩ := Option.map_eq_some_iff.mp h
      obtain ⟨index, props, hvalid, hprops, htext, hgrp⟩ := matchIndex_iff.mp hidx
      obtain ⟨rfl, rfl⟩ := Prod.mk.inj hgrp
      refine ⟨⟨obj, text.head? = some '?', dotted.tail.takeWhile isWord, idx, props⟩,
        ⟨?_, hvalid, hprops⟩, rfl, ?_, rfl⟩
      · exact isName_iff.mpr ⟨hkey, fun c hc => mem_takeWhile_imp hc⟩
      rw [Chain.tailText]
      rw [← htext, takeWhile_append_dropWhile, ← eq_cons_of_head? hdot, ← hdotted]
      by_cases hopt : text.head? = some '?'
      · rw [if_pos hopt, if_pos (decide_eq_true hopt)]
        exact eq_cons_of_head? hopt
      · rw [if_neg hopt, if_neg (by rw [decide_eq_false hopt]; exact Bool.false_ne_true)]
        rfl
    case isFalse => cases h
  · rintro ⟨c, hvalid, rfl, rfl, rfl⟩
    obtain ⟨hne, hword⟩ := isName_iff.mp hvalid.key
    obtain ⟨htake, hdrop⟩ := span_append hword (stops_indexText c.index c.props)
    have hdotted : (if c.tailText.head? = some '?' then c.tailText.tail else c.tailText) =
        '.' :: (c.key ++ (indexText c.index ++ restText c.props)) := by
      unfold Chain.tailText
      cases c.optional <;> rfl
    have hidx : matchIndex D (indexText c.index ++ restText c.props) =
        some (c.index, restGroup c.props) :=
      matchIndex_iff.mpr ⟨c.index, c.props, hvalid.index, hvalid.props, rfl, rfl⟩
    rw [hdotted, tail_cons, htake, hdrop, if_pos ⟨rfl, hne⟩, hidx]
    rfl

lemma matchLine_iff :
    matchLine D line = some groups ↔ ∃ c : Chain, c.Valid D.decimal ∧ line = c.text ∧
    groups = c.groups := by
  have hchain : ∀ {obj rest}, matchKey D obj rest = some groups →
      ∃ c : Chain, c.Valid D.decimal ∧ obj.text ++ rest = c.text ∧ groups = c.groups :=
      fun {obj rest} h => by
    obtain ⟨c, hvalid, rfl, rfl, rfl⟩ := matchKey_iff.mp h
    exact ⟨c, hvalid, rfl, rfl⟩
  unfold matchLine
  constructor
  · intro h
    split at h
    case isTrue hpref =>
      obtain ⟨rest, rfl⟩ := hpref
      exact hchain h
    case isFalse =>
      split at h
      case isTrue hpref =>
        obtain ⟨rest, rfl⟩ := hpref
        exact hchain h
      case isFalse => cases h
  · rintro ⟨c, hvalid, rfl, rfl⟩
    have hkey : matchKey D c.obj c.tailText = some c.groups :=
      matchKey_iff.mpr ⟨c, hvalid, rfl, rfl, rfl⟩
    have htext : c.text = c.obj.text ++ c.tailText := rfl
    rw [htext]
    cases hobj : c.obj with
    | results | flowEnv =>
      rw [hobj] at hkey
      exact hkey

/-! ### The path -/

lemma splitOn_query {c : Chain} (hvalid : c.Valid D.decimal) :
    ((query c.groups).map fun q => q.splitOn '.') = c.path := by
  have hdots : ∀ p ∈ c.props, '.' ∉ p := fun p hp => dot_notMem (hvalid.props p hp)
  obtain ⟨obj, optional, key, index, props⟩ := c
  unfold query Chain.groups Chain.path restGroup
  cases index with
  | some d =>
    have hd : '.' ∉ d := by
      intro hmem
      have := (hvalid.index d rfl).2 _ hmem
      rw [D.ascii _ (by decide)] at this
      exact absurd this (by decide)
    cases props with
    | nil => simp [splitOn_eq_singleton hd]
    | cons p ps => simp [splitOn_append_restText hd hdots]
  | none =>
    cases props with
    | nil => rfl
    | cons p ps =>
      have hp := isName_iff.mp (hvalid.props p mem_cons_self)
      have hstop : Stops (· == '.') (p ++ restText ps) := by
        intro c rest heq
        cases p with
        | nil => exact absurd rfl hp.1
        | cons d p =>
          obtain rfl : d = c := (cons.inj heq).1
          rw [beq_eq_false_iff_ne]
          rintro rfl
          exact hdots _ mem_cons_self mem_cons_self
      have hdrop : (restText (p :: ps)).dropWhile (· == '.') = p ++ restText ps := by
        have : restText (p :: ps) = '.' :: (p ++ restText ps) := rfl
        rw [this, dropWhile_cons_of_pos (by rfl), dropWhile_eq_of_stops hstop]
      simp [hdrop, splitOn_append_restText (hdots p mem_cons_self) fun q hq =>
        hdots q (mem_cons_of_mem p hq)]

/-! ### Lines -/

lemma exists_of_mem_splitOn (h : line ∈ text.splitOn '\n') :
    ∃ pre post, text = pre ++ (line ++ post) ∧ (pre = [] ∨ ∃ p, pre = p ++ ['\n']) ∧
    (post = [] ∨ ∃ q, post = '\n' :: q) := by
  obtain ⟨before, after, hsplit⟩ := append_of_mem h
  have hjoin : ['\n'].intercalate (text.splitOn '\n') = text := intercalate_splitOn '\n'
  rw [hsplit] at hjoin
  have hpost : (after.flatMap fun q => '\n' :: q) = [] ∨ ∃ q, (after.flatMap fun q => '\n' :: q) =
      '\n' :: q := by
    cases after with
    | nil => exact .inl rfl
    | cons q after => exact .inr ⟨_, rfl⟩
  cases before with
  | nil =>
    rw [nil_append, intercalate_cons] at hjoin
    exact ⟨[], _, hjoin.symm, .inl rfl, hpost⟩
  | cons first before =>
    rw [cons_append, intercalate_cons] at hjoin
    refine ⟨(first ++ before.flatMap fun q => '\n' :: q) ++ ['\n'], _, ?_, .inr ⟨_, rfl⟩, hpost⟩
    rw [← hjoin]
    simp

/-! ### Trimming -/

lemma stops_line (hne : line ≠ []) (h : ∀ c ∈ line, isSpace c = false) (rest : Text) :
    Stops isSpace (line ++ rest) := by
  intro c tail heq
  cases line with
  | nil => exact absurd rfl hne
  | cons d line =>
    obtain rfl : d = c := (cons.inj heq).1
    exact h d mem_cons_self

lemma trim_append {a b : Text} (ha : ∀ c ∈ a, isSpace c = true) (hb : ∀ c ∈ b, isSpace c = true)
    (hne : line ≠ []) (h : ∀ c ∈ line, isSpace c = false) : trim (a ++ (line ++ b)) = line := by
  have hstart : (a ++ (line ++ b)).dropWhile isSpace = line ++ b := by
    rw [dropWhile_append_of_pos ha, dropWhile_eq_of_stops (stops_line hne h b)]
  have hend : (line ++ b).reverse.dropWhile isSpace = line.reverse := by
    have hstops := stops_line (reverse_ne_nil_iff.mpr hne) (fun c hc => h c (mem_reverse.mp hc)) []
    rw [append_nil] at hstops
    rw [reverse_append, dropWhile_append_of_pos fun c hc => hb c (mem_reverse.mp hc),
      dropWhile_eq_of_stops hstops]
  unfold trim
  rw [hstart, hend, reverse_reverse]

lemma exists_dropWhile (p rest : Text) (hx : isSpace x = false) :
    ∃ p', (p ++ x :: rest).dropWhile isSpace = p' ++ x :: rest := by
  rw [dropWhile_append]
  split
  · refine ⟨[], ?_⟩
    rw [dropWhile_cons_of_neg (by rw [hx]; exact Bool.false_ne_true), nil_append]
  · exact ⟨_, rfl⟩

lemma mem_trim {p q r : Text} {z : Char} (hx : isSpace x = false) (hz : isSpace z = false)
    (hc : c ∈ q) : c ∈ trim (p ++ x :: (q ++ z :: r)) := by
  obtain ⟨p', hp'⟩ := exists_dropWhile p (q ++ z :: r) hx
  have hrev : (p' ++ x :: (q ++ z :: r)).reverse = r.reverse ++
      z :: (q.reverse ++ (x :: p'.reverse)) := by simp
  obtain ⟨r', hr'⟩ := exists_dropWhile r.reverse (q.reverse ++ (x :: p'.reverse)) hz
  unfold trim
  rw [hp', hrev, hr']
  simp [hc]

lemma trim_eq_of_line (hmem : line ∈ text.splitOn '\n') (hne : line ≠ [])
    (hline : ∀ c ∈ line, isSpace c = false) (htrim : '\n' ∉ trim text) : trim text = line := by
  obtain ⟨pre, post, rfl, hpre, hpost⟩ := exists_of_mem_splitOn hmem
  have hprespace : ∀ c ∈ pre, isSpace c = true := by
    intro x hx
    by_contra hno
    have hx' : isSpace x = false := Bool.eq_false_iff.mpr hno
    rcases hpre with rfl | ⟨p, rfl⟩
    · exact not_mem_nil hx
    have hxp : x ∈ p := by
      rcases mem_append.mp hx with h | h
      · exact h
      · rw [mem_singleton.mp h] at hx'
        cases hx'
    obtain ⟨p₁, p₂, rfl⟩ := append_of_mem hxp
    cases line with
    | nil => exact hne rfl
    | cons l line =>
      refine htrim ?_
      have := mem_trim (p := p₁) (q := p₂ ++ ['\n']) (r := line ++ post) hx' (hline l mem_cons_self)
        (mem_append_right _ (mem_singleton_self _))
      simpa using this
  have hpostspace : ∀ c ∈ post, isSpace c = true := by
    intro z hz
    by_contra hno
    have hz' : isSpace z = false := Bool.eq_false_iff.mpr hno
    rcases hpost with rfl | ⟨q, rfl⟩
    · exact not_mem_nil hz
    have hzq : z ∈ q := by
      rcases mem_cons.mp hz with h | h
      · rw [h] at hz'
        cases hz'
      · exact h
    obtain ⟨q₁, q₂, rfl⟩ := append_of_mem hzq
    obtain ⟨line', l, rfl⟩ := (eq_nil_or_concat' line).resolve_left hne
    refine htrim ?_
    have := mem_trim (p := pre ++ line') (q := '\n' :: q₁) (r := q₂)
      (hline l (mem_append_right _ (mem_singleton_self l))) hz' mem_cons_self
    simpa using this
  exact trim_append hprespace hpostspace hne hline

/-! ### The answer -/

lemma isSpace_of_isWord (h : isWord c = true) : isSpace c = false := by
  have hlet : (65 ≤ c.toNat ∧ c.toNat ≤ 90 ∨ 97 ≤ c.toNat ∧ c.toNat ≤ 122) ∨
      (48 ≤ c.toNat ∧ c.toNat ≤ 57) ∨ c.toNat = 95 := by
    rw [isWord, Char.isAlphanum, Bool.or_eq_true, Bool.or_eq_true] at h
    rcases h with (h | h) | h
    · exact .inl (Lib.Bytes.isAlpha_iff.mp h)
    · exact .inr (.inl (Char.isDigit_iff_toNat.mp h))
    · rw [beq_iff_eq.mp h]
      exact .inr (.inr rfl)
  simp only [isSpace, Bool.or_eq_false_iff, Bool.and_eq_false_iff, decide_eq_false_iff_not,
    beq_eq_false_iff_ne]
  omega

lemma isWord_of_isDigit (h : c.isDigit = true) : isWord c = true := by
  simp [isWord, Char.isAlphanum, h]

lemma Chain.text_ne_nil (c : Chain) : c.text ≠ [] := by
  unfold Chain.text
  cases c.obj <;> exact cons_ne_nil _ _

lemma isSpace_of_isName (h : isName name = true) (hx : x ∈ name) : isSpace x = false :=
  isSpace_of_isWord ((isName_iff.mp h).2 x hx)

lemma isSpace_of_mem_text {digit : Char → Bool} (hdig : ∀ c, digit c = true → isSpace c = false)
    {c : Chain} (hvalid : c.Valid digit) (hx : x ∈ c.text) : isSpace x = false := by
  have hobj : ∀ x ∈ c.obj.text, isSpace x = false := by cases c.obj <;> decide
  have hopt : ∀ x ∈ (if c.optional then ['?'] else []), isSpace x = false := by
    cases c.optional <;> decide
  have hidx : ∀ x ∈ indexText c.index, isSpace x = false := by
    intro x hx
    cases hd : c.index with
    | none =>
      rw [hd] at hx
      exact absurd hx not_mem_nil
    | some d =>
      rw [hd, indexText, mem_cons, mem_append, mem_singleton] at hx
      rcases hx with rfl | hx | rfl
      · decide
      · exact hdig x ((hvalid.index d hd).2 x hx)
      · decide
  have hrest : ∀ x ∈ restText c.props, isSpace x = false := by
    intro x hx
    obtain ⟨p, hp, hx⟩ := mem_flatMap.mp hx
    rcases mem_cons.mp hx with rfl | hx
    · decide
    · exact isSpace_of_isName (hvalid.props p hp) hx
  simp only [Chain.text, mem_append, mem_cons] at hx
  rcases hx with hx | hx | rfl | hx | hx | hx
  · exact hobj x hx
  · exact hopt x hx
  · decide
  · exact isSpace_of_isName hvalid.key hx
  · exact hidx x hx
  · exact hrest x hx

lemma newline_notMem_text {c : Chain} (hvalid : c.Valid Char.isDigit) : '\n' ∉ c.text := by
  intro hmem
  have := isSpace_of_mem_text (fun c hc => isSpace_of_isWord (isWord_of_isDigit hc)) hvalid hmem
  cases this

lemma decimal_of_isDigit (h : c.isDigit = true) : D.decimal c = true := by
  have hascii : c.toNat < 128 := by
    simp only [Char.isDigit, Bool.and_eq_true, decide_eq_true_eq, ge_iff_le,
      UInt32.le_iff_toNat_le] at h
    have : c.toNat ≤ 57 := h.2
    omega
  rw [D.ascii c hascii]
  exact h

lemma Chain.Valid.decimal {c : Chain} (h : c.Valid Char.isDigit) : c.Valid D.decimal :=
  ⟨h.key, fun d hd => ⟨(h.index d hd).1, fun x hx => decimal_of_isDigit ((h.index d hd).2 x hx)⟩,
    h.props⟩

lemma exists_chain_of_captures {expr : Text} (h : captures D expr = some groups) :
    ∃ c : Chain, c.Valid D.decimal ∧ groups = c.groups ∧ c.text ∈ expr.splitOn '\n' := by
  obtain ⟨before, line, after, hsplit, hline, -⟩ := findSome?_eq_some_iff.mp h
  obtain ⟨c, hvalid, rfl, rfl⟩ := matchLine_iff.mp hline
  refine ⟨c, hvalid, rfl, ?_⟩
  rw [hsplit]
  exact mem_append_right _ mem_cons_self

lemma trim_eq_text {expr : Text} {c : Chain} (hvalid : c.Valid D.decimal)
    (hmem : c.text ∈ expr.splitOn '\n') (hbreak : '\n' ∉ trim expr) : trim expr = c.text :=
  trim_eq_of_line hmem c.text_ne_nil (fun _ hx => isSpace_of_mem_text D.notSpace hvalid hx) hbreak

def Whole (D : Digits) (expr : Text) : Prop :=
  ∀ c, captures D expr = some c → endsWithJsOnlyProperty c.rest = true ∨
    ('\n' ∉ trim expr ∧ ∀ d, c.idx = some d → ∀ x ∈ d, x.isDigit = true)

/-- **The answer is that of the expression** if and only if there is no line break in it, and the
index has the digits of a number. -/
theorem fullRegex_sound_iff {β : Type} (D : Digits) (client : Client β) (expr : Text) :
    Sound D client expr ↔ Whole D expr := by
  constructor
  · intro hsound groups hgrp
    rw [or_iff_not_imp_left]
    intro hends
    have hans : handleFullRegex D client expr =
        some (client.fetch groups.obj groups.key ((query groups).map fun q => q.splitOn '.')) := by
      rw [handleFullRegex, hgrp]
      exact if_neg hends
    obtain ⟨c, hvalid, htrim, -⟩ := hsound _ hans
    have hbreak : '\n' ∉ trim expr := htrim ▸ newline_notMem_text hvalid
    refine ⟨hbreak, fun d hd x hx => ?_⟩
    obtain ⟨c', hvalid', rfl, hmem⟩ := exists_chain_of_captures hgrp
    -- both chains have the text of the expression, so that their groups are the same
    have htext : c'.text = c.text := (trim_eq_text hvalid' hmem hbreak).symm.trans htrim
    have hsame : some c'.groups = some c.groups := by
      rw [← matchLine_iff.mpr ⟨c', hvalid', rfl, rfl⟩, htext]
      exact matchLine_iff.mpr ⟨c, hvalid.decimal, rfl, rfl⟩
    have hidx : c'.index = c.index := congrArg Captures.idx (Option.some.inj hsame)
    exact (hvalid.index d (hidx.symm.trans hd)).2 x hx
  · intro hwhole value hval
    unfold handleFullRegex at hval
    cases hgrp : captures D expr with
    | none =>
      simp [hgrp] at hval
    | some groups =>
      rw [hgrp] at hval
      dsimp only at hval
      split at hval
      case isTrue => cases hval
      case isFalse hends =>
        cases hval
        obtain ⟨hbreak, hdig⟩ := (hwhole groups hgrp).resolve_left hends
        obtain ⟨c, hvalid, rfl, hmem⟩ := exists_chain_of_captures hgrp
        refine ⟨c, ⟨hvalid.key, fun d hd => ⟨(hvalid.index d hd).1, hdig d hd⟩, hvalid.props⟩,
          trim_eq_text hvalid hmem hbreak, ?_⟩
        rw [splitOn_query hvalid]
        rfl

end

def asciiDigits : Digits where
  decimal := Char.isDigit
  ascii _ _ := rfl
  notSpace _ h := isSpace_of_isWord (isWord_of_isDigit h)

def emptyClient : Client ℕ := ⟨fun _ _ => none, fun _ _ => .ok 0, 0⟩

/-- The second line is answered for both. -/
theorem line_answered : handleFullRegex asciiDigits emptyClient "1 +\nresults.a".toList = some
    (.ok 0) ∧ ¬Sound asciiDigits emptyClient "1 +\nresults.a".toList := by
  have hans : handleFullRegex asciiDigits emptyClient "1 +\nresults.a".toList = some (.ok 0) := by
    decide +kernel
  refine ⟨hans, fun hsound => ?_⟩
  obtain ⟨c, hvalid, htrim, -⟩ := hsound _ hans
  refine newline_notMem_text hvalid ?_
  rw [← htrim]
  decide +kernel

end Windmill.Jseval.FullRegex
