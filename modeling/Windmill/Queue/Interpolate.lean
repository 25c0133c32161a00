import Mathlib.Data.List.DropRight
import Windmill.App.Args
import Windmill.Lib.JsonPath
import Windmill.Lib.JsonUnique
import Windmill.Lib.Replace

/-! # Interpolation of arguments

A tag, a concurrency key or a debounce key can be a template with `$workspace` and with
`$args[name]` (`interpolate_args`, `windmill-queue/src/jobs.rs`). The code replaces in the whole
text, first `$workspace` and then one argument after the other; `substituted` replaces what stands
in the template, in one pass. The two are the same if every tag, when its turn comes, is found only
where the template has it, and no value is changed by the way it is read
(`interpolateArgs_eq_substituted`). -/

namespace Windmill.Queue.Interpolate

open App.Args (Fields)
open Lib.JsonPath Lib.JsonText Lib.JsonUnique Lib.Replace List Option

abbrev Text := List Char

/-- The characters of `\w`. -/
structure Words where
  word : Char → Bool
  ascii : ∀ c, c.toNat < 128 → word c = (c.isAlphanum || c == '_')

/-! ### Arguments -/

structure PushArgs where
  args : Fields RawJson
  extra : Option (Fields RawJson)

def PushArgs.get (a : PushArgs) (name : Text) : Option RawJson :=
  (a.args.get (String.ofList name)).or (a.extra.bind fun extra => extra.get (String.ofList name))

/-- `serde_json::Value`: a text is read, unless it holds a number out of range, and written in
another form. The member of what is written is what is written for the member. -/
structure Serde where
  read : RawJson → Option RawJson
  read_read : ∀ {t t'}, read t = some t' → read t' = some t'
  member_read : ∀ {t t'}, read t = some t' → ∀ key, (member key t).map read =
    (member key t').map some

def textOf : Option RawJson → Text
  | none => []
  | some t => t.text

def trimQuotes (text : Text) : Text := (text.dropWhile (· == '\x22')).rdropWhile (· == '\x22')

section

variable (serde : Serde) (a : PushArgs)

def descend (value : Option RawJson) (part : Text) : Option RawJson :=
  (value.bind serde.read).bind (member part)

def argValue (name : Text) : Text :=
  if '.' ∈ name then
    match name.splitOn '.' with
    | [] => []
    | root :: parts => trimQuotes (textOf (parts.foldl (descend serde) (a.get root)))
  else trimQuotes (textOf (a.get name))

end

/-! ### The code -/

def workspaceTag : Text := "$workspace".toList

def tagText (name : Text) : Text := "$args[".toList ++ (name ++ [']'])

section

variable (W : Words)

def isNameFrom (start : Bool) : Text → Bool
  | [] => !start
  | c :: rest => if c = '.' then !start && isNameFrom true rest else W.word c &&
      isNameFrom false rest

def isName (name : Text) : Bool := isNameFrom W true name

def tagAt (text : Text) : Option Text :=
  let name := (text.drop 6).takeWhile (· != ']')
  if tagText name <+: text ∧ isName W name then some name else none

def captures : Text → ℕ → List Text
  | [], _ => []
  | _ :: rest, skip + 1 => captures rest skip
  | c :: rest, 0 =>
    match tagAt W (c :: rest) with
    | some name => name :: captures rest (name.length + 6)
    | none => captures rest 0

/-- `interpolate_args`: the workspace, then one name after the other. -/
def interpolateArgs (serde : Serde) (x : Text) (a : PushArgs) (workspaceId : Text) : Text :=
  let workspaced := replaceText workspaceTag workspaceId x 0
  if (captures W workspaced 0).isEmpty then workspaced
  else
    (captures W workspaced 0).foldl
      (fun interpolated name => replaceText (tagText name) (argValue serde a name) interpolated 0)
      workspaced

/-! ### One pass -/

inductive Part where
  | plain (c : Char)
  | workspace
  | tag (name : Text)
  deriving DecidableEq

def Part.source : Part → Text
  | .plain c => [c]
  | .workspace => workspaceTag
  | .tag name => tagText name

def partAt (c : Char) (rest : Text) : Part :=
  if workspaceTag <+: c :: rest then .workspace
  else match tagAt W (c :: rest) with
    | some name => .tag name
    | none => .plain c

def parts : Text → ℕ → List Part
  | [], _ => []
  | _ :: rest, skip + 1 => parts rest skip
  | c :: rest, 0 => partAt W c rest :: parts rest ((partAt W c rest).source.length - 1)

end

def rootOf (a : PushArgs) (name : Text) : Option RawJson := (name.splitOn '.').head?.bind a.get

def valueAt (a : PushArgs) (name : Text) : Option RawJson :=
  (rootOf a name).bind (path (name.splitOn '.').tail)

def unquoted : Option RawJson → Text
  | none => []
  | some (.str s) => raw s
  | some t => t.text

def Part.inserted (a : PushArgs) (workspaceId : Text) : Part → Text
  | .plain c => [c]
  | .workspace => workspaceId
  | .tag name => unquoted (valueAt a name)

/-- All placeholders replaced at once. -/
def substituted (W : Words) (x : Text) (a : PushArgs) (workspaceId : Text) : Text :=
  (parts W x 0).flatMap (Part.inserted a workspaceId)

/-! ### Inputs that are replaced in one pass -/

/-- The value that `serde_json` reads, and writes in its own form. -/
def keptAt (serde : Serde) (a : PushArgs) (name : Text) : Option RawJson :=
  if '.' ∈ name then ((rootOf a name).bind serde.read).bind (path (name.splitOn '.').tail)
  else valueAt a name

/-- The text of a value comes through: `serde_json` writes it as it was, and a string does not end
with an escaped quote. -/
structure ComesThrough (serde : Serde) (a : PushArgs) (name : Text) : Prop where
  written : unquoted (keptAt serde a name) = unquoted (valueAt a name)
  quote : ∀ s, keptAt serde a name = some (.str s) → (raw s).getLast? ≠ some '\x22'

/-- A template with the workspace and some of its arguments put in. -/
def stage (value : Text → Text) (workspaceId : Text) (done : List Text) : Part → Text
  | .plain c => [c]
  | .workspace => workspaceId
  | .tag name => if name ∈ done then value name else tagText name

/-- No tag starts outside of the tags of the template. -/
def Untagged (W : Words) (f : Part → Text) : List Part → Prop
  | [] => True
  | .tag _ :: ps => Untagged W f ps
  | p :: ps => (∀ r ∈ (f p).tails, r ≠ [] → tagAt W (r ++ ps.flatMap f) = none) ∧ Untagged W f ps

instance decidableUntagged (W : Words) (f : Part → Text) : ∀ ps : List Part, Decidable
    (Untagged W f ps)
  | [] => .isTrue trivial
  | .tag _ :: ps => decidableUntagged W f ps
  | .workspace :: ps | .plain _ :: ps =>
    have := decidableUntagged W f ps
    inferInstanceAs (Decidable (_ ∧ Untagged W f ps))

def Part.name? : Part → Option Text
  | .tag name => some name
  | _ => none

/-- No tag is made by the workspace, none by an argument before its turn is over, and the values
come through. -/
structure Regular (W : Words) (serde : Serde) (x : Text) (a : PushArgs) (workspaceId : Text) :
  Prop where
  workspace : Untagged W (stage (fun name => unquoted (valueAt a name)) workspaceId [])
    (parts W x 0)
  turns : Turns tagText (fun name => unquoted (valueAt a name))
    (stage (fun name => unquoted (valueAt a name)) workspaceId) (parts W x 0) []
    ((parts W x 0).filterMap Part.name?)
  value : ∀ name, .tag name ∈ parts W x 0 → ComesThrough serde a name

/-! ### Texts of values -/

lemma raw_ne_quote (ps : RawString) (rest : Text) : raw ps ≠ '\x22' :: rest := by
  cases ps with
  | nil => exact (cons_ne_nil _ _).symm
  | cons p ps => exact chars_append_ne_quote

lemma rdropWhile_of_getLast? {l : Text} (h : l.getLast? ≠ some '\x22') :
    l.rdropWhile (· == '\x22') = l := by
  rw [rdropWhile_eq_self_iff]
  intro hne heq
  rw [getLast?_eq_getLast_of_ne_nil hne] at h
  exact h (congrArg some (beq_iff_eq.mp heq))

lemma trimQuotes_str {s} (h : (raw s).getLast? ≠ some '\x22') : trimQuotes (quoted s) = raw s := by
  have hdrop : (quoted s).dropWhile (· == '\x22') = (raw s ++ ['\x22']).dropWhile (· == '\x22') :=
    rfl
  unfold trimQuotes
  rw [hdrop]
  cases hraw : raw s with
  | nil => rfl
  | cons c rest =>
    have hc : (c == '\x22') = false := by
      rw [beq_eq_false_iff_ne]
      rintro rfl
      exact raw_ne_quote s rest hraw
    rw [cons_append, dropWhile_cons_of_neg (by rw [hc]; exact Bool.false_ne_true), ← cons_append,
      rdropWhile_concat_pos _ _ _ (by rfl), ← hraw]
    exact rdropWhile_of_getLast? h

variable {t : RawJson} {rest name : Text} {ps : List Part}

lemma text_head_ne (h : ∀ s, t ≠ .str s) : t.text ≠ '\x22' :: rest := by
  intro heq
  obtain ⟨c, rest', htext, hkind⟩ := exists_text_eq_cons t
  rw [heq] at htext
  obtain rfl : '\x22' = c := (cons.inj htext).1
  cases t with
  | str s => exact h s rfl
  | _ => cases hkind

lemma text_getLast?_ne (h : ∀ s, t ≠ .str s) : t.text.getLast? ≠ some '\x22' := by
  cases t with
  | null => decide
  | bool b => cases b <;> decide
  | number n =>
    intro hlast
    exact absurd (n.2.2 _ (mem_of_getLast? hlast)) (by decide)
  | str s => exact absurd rfl (h s)
  | arr ws items | obj ws members =>
    rw [RawJson.text, ← cons_append, getLast?_concat]
    decide

lemma trimQuotes_text (h : ∀ s, t = .str s → (raw s).getLast? ≠ some '\x22') :
    trimQuotes t.text = unquoted (some t) := by
  by_cases hstr : ∃ s, t = .str s
  · obtain ⟨s, rfl⟩ := hstr
    exact trimQuotes_str (h s rfl)
  have hne : ∀ s, t ≠ .str s := fun s heq => hstr ⟨s, heq⟩
  have hun : unquoted (some t) = t.text := by
    cases t with
    | str s => exact absurd rfl (hne s)
    | _ => rfl
  have hdrop : t.text.dropWhile (· == '\x22') = t.text := by
    cases htext : t.text with
    | nil => rfl
    | cons c rest =>
      refine dropWhile_cons_of_neg fun hc => ?_
      rw [beq_iff_eq.mp hc] at htext
      exact text_head_ne hne htext
  rw [hun, trimQuotes, hdrop]
  exact rdropWhile_of_getLast? (text_getLast?_ne hne)

/-! ### Values at paths -/

section

variable {serde : Serde} {a : PushArgs}

lemma foldl_descend_none : ∀ keys : List Text, keys.foldl (descend serde) none = none
  | [] => rfl
  | _ :: keys => foldl_descend_none keys

lemma descend_of_read {t'} (h : serde.read t = some t') (key : Text) :
    descend serde (some t) key = member key t' := by
  -- what is read and written is read again as it is
  rw [descend, bind_some, h, bind_some]

lemma read_of_member {key m} (h : serde.read t = some t) (hm : member key t = some m) :
    serde.read m = some m := by
  have hmem := serde.member_read h key
  rw [hm] at hmem
  exact some.inj hmem

lemma foldl_descend : ∀ (keys : List Text) {t : RawJson}, serde.read t = some t →
    keys.foldl (descend serde) (some t) = path keys t
  | [], _, _ => rfl
  | key :: keys, t, h => by
    rw [foldl_cons, descend_of_read h, path]
    cases hm : member key t with
    | none => exact foldl_descend_none keys
    | some m => exact foldl_descend keys (read_of_member h hm)

lemma foldl_descend_cons (key : Text) (keys : List Text) (value : Option RawJson) :
    (key :: keys).foldl (descend serde) value = (value.bind serde.read).bind
    (path (key :: keys)) := by
  cases value with
  | none => exact foldl_descend_none _
  | some t =>
    rw [bind_some]
    cases ht : serde.read t with
    | none =>
      rw [foldl_cons, descend, bind_some, ht]
      exact foldl_descend_none keys
    | some t' =>
      have hread := serde.read_read ht
      rw [foldl_cons, descend_of_read ht, ← descend_of_read hread, ← foldl_cons]
      exact foldl_descend _ hread

lemma exists_splitOn (h : '.' ∈ name) :
    ∃ root key keys, name.splitOn '.' = root :: key :: keys := by
  obtain ⟨xs, ys, rfl⟩ := append_of_mem h
  rw [splitOn_append_cons_self]
  obtain ⟨root, keys, hx⟩ := exists_cons_of_ne_nil (splitOn_ne_nil '.' xs)
  obtain ⟨key, keys', hy⟩ := exists_cons_of_ne_nil (splitOn_ne_nil '.' ys)
  rw [hx, hy]
  cases keys with
  | nil => exact ⟨root, key, keys', rfl⟩
  | cons k keys => exact ⟨root, k, keys ++ key :: keys', rfl⟩

lemma argValue_eq_trimQuotes : argValue serde a name = trimQuotes
    (textOf (keptAt serde a name)) := by
  unfold argValue keptAt valueAt rootOf
  by_cases hdot : '.' ∈ name
  · obtain ⟨root, key, keys, hsplit⟩ := exists_splitOn hdot
    rw [if_pos hdot, if_pos hdot, hsplit]
    exact congrArg (fun v => trimQuotes (textOf v)) (foldl_descend_cons key keys _)
  · rw [if_neg hdot, if_neg hdot, splitOn_eq_singleton hdot]
    cases hget : a.get name with
    | none => simp [hget]
    | some t => simp [hget, path]

lemma argValue_eq (h : ComesThrough serde a name) : argValue serde a name = unquoted
    (valueAt a name) := by
  rw [argValue_eq_trimQuotes, ← h.written]
  cases hv : keptAt serde a name with
  | none => rfl
  | some t => exact trimQuotes_text fun s hs => h.quote s (hv.trans (congrArg some hs))

end

/-! ### Where tags start -/

variable {f : Part → Text}

section

variable {W : Words}

lemma notMem_of_isNameFrom {d : Char} (hdot : d ≠ '.') (hd : W.word d = false) :
    ∀ {name start}, isNameFrom W start name = true → d ∉ name
  | [], _, _ => not_mem_nil
  | c :: rest, start, h => by
    rw [isNameFrom] at h
    rw [mem_cons, not_or]
    split at h
    case isTrue hc =>
      have hrest := notMem_of_isNameFrom hdot hd (Bool.and_eq_true_iff.mp h).2
      exact ⟨fun heq => hdot (heq.trans hc), hrest⟩
    case isFalse =>
      obtain ⟨hword, hrest⟩ := Bool.and_eq_true_iff.mp h
      refine ⟨?_, notMem_of_isNameFrom hdot hd hrest⟩
      rintro rfl
      exact Bool.false_ne_true (hd.symm.trans hword)

lemma close_notMem (h : isName W name = true) : ']' ∉ name :=
  notMem_of_isNameFrom (by decide) ((W.ascii _ (by decide)).trans (by decide)) h

lemma dollar_notMem (h : isName W name = true) : '$' ∉ name :=
  notMem_of_isNameFrom (by decide) ((W.ascii _ (by decide)).trans (by decide)) h

lemma takeWhile_close (h : ']' ∉ name) (rest : Text) : (name ++ ']' :: rest).takeWhile
    (· != ']') = name := by
  have hall : ∀ c ∈ name, (c != ']') = true := fun c hc =>
    bne_iff_ne.mpr (ne_of_mem_of_not_mem hc h)
  rw [takeWhile_append_of_pos hall, takeWhile_cons_of_neg (by decide), append_nil]

lemma tagText_ne_nil (name : Text) : tagText name ≠ [] := cons_ne_nil _ _

lemma tagText_append (name rest : Text) :
    tagText name ++ rest = "$args[".toList ++ (name ++ ']' :: rest) := by
  unfold tagText
  rw [append_assoc, append_assoc]
  rfl

lemma tagAt_eq_some_iff {text : Text} : tagAt W text = some name ↔ tagText name <+: text ∧
    isName W name = true := by
  unfold tagAt
  dsimp only
  constructor
  · intro h
    split at h
    case isTrue hname =>
      cases h
      exact hname
    case isFalse => cases h
  · rintro ⟨⟨rest, rfl⟩, hname⟩
    have htake : ((tagText name ++ rest).drop 6).takeWhile (· != ']') = name := by
      rw [tagText_append]
      exact takeWhile_close (close_notMem hname) rest
    rw [htake, if_pos ⟨prefix_append _ _, hname⟩]

/-! ### The parts of a template -/

/-- Tags have names, and the workspace is not named outside of them. -/
def Read (W : Words) : List Part → Prop
  | [] => True
  | .plain c :: ps => ¬workspaceTag <+: c :: ps.flatMap Part.source ∧ Read W ps
  | .workspace :: ps => Read W ps
  | .tag name :: ps => isName W name = true ∧ Read W ps

lemma partAt_cases (c : Char) (rest : Text) :
    (partAt W c rest = .workspace ∧ workspaceTag <+: c :: rest) ∨
    (∃ name, partAt W c rest = .tag name ∧ tagText name <+: c :: rest ∧ isName W name = true) ∨
    (partAt W c rest = .plain c ∧ ¬workspaceTag <+: c :: rest) := by
  unfold partAt
  split
  case isTrue h => exact .inl ⟨rfl, h⟩
  case isFalse h =>
    cases htag : tagAt W (c :: rest) with
    | some name =>
      obtain ⟨hpref, hname⟩ := tagAt_eq_some_iff.mp htag
      exact .inr (.inl ⟨name, rfl, hpref, hname⟩)
    | none => exact .inr (.inr ⟨rfl, h⟩)

lemma source_partAt (c : Char) (rest : Text) : (partAt W c rest).source <+: c :: rest := by
  obtain ⟨heq, h⟩ | ⟨name, heq, h, -⟩ | ⟨heq, -⟩ := partAt_cases (W := W) c rest
  · rw [heq]; exact h
  · rw [heq]; exact h
  · rw [heq]; exact prefix_append [c] rest

lemma source_ne_nil (p : Part) : p.source ≠ [] := by
  cases p <;> exact cons_ne_nil _ _

lemma parts_cons (c : Char) (rest : Text) :
    ∃ after, c :: rest = (partAt W c rest).source ++ after ∧ parts W
    (c :: rest) 0 = partAt W c rest :: parts W after 0 := by
  obtain ⟨after, hafter⟩ := source_partAt (W := W) c rest
  refine ⟨after, hafter.symm, ?_⟩
  cases hsrc : (partAt W c rest).source with
  | nil => exact absurd hsrc (source_ne_nil _)
  | cons d l =>
    rw [hsrc] at hafter
    obtain ⟨rfl, hrest⟩ := cons.inj hafter
    have hskip : parts W rest l.length = parts W after 0 := by
      rw [← hrest]
      exact skip_append (fun _ _ _ => rfl) after l
    rw [parts, hsrc, length_cons, Nat.add_sub_cancel, hskip]

lemma parts_induction {P : Text → Prop} (nil : P [])
    (cons : ∀ c rest after, c :: rest = (partAt W c rest).source ++ after →
      parts W (c :: rest) 0 = partAt W c rest :: parts W after 0 → P after → P (c :: rest))
      (text : Text) : P text := by
  induction hlen : text.length using Nat.strong_induction_on generalizing text with
  | _ n ih =>
    cases text with
    | nil => exact nil
    | cons c rest =>
      obtain ⟨after, hafter, hprt⟩ := parts_cons (W := W) c rest
      have hshort : after.length < n := by
        have := length_pos_iff.mpr (source_ne_nil (partAt W c rest))
        rw [← hlen, hafter, length_append]
        omega
      exact cons c rest after hafter hprt (ih _ hshort after rfl)

lemma source_parts (text : Text) : (parts W text 0).flatMap Part.source = text := by
  induction text using parts_induction (W := W) with
  | nil => rfl
  | cons c rest after hafter hprt ih => rw [hprt, flatMap_cons, ih, ← hafter]

lemma read_parts (text : Text) : Read W (parts W text 0) := by
  induction text using parts_induction (W := W) with
  | nil => trivial
  | cons c rest after hafter hprt ih =>
    rw [hprt]
    obtain ⟨heq, -⟩ | ⟨name, heq, -, hname⟩ | ⟨heq, hws⟩ := partAt_cases (W := W) c rest
    · rw [heq]; exact ih
    · rw [heq]; exact ⟨hname, ih⟩
    · rw [heq] at hafter ⊢
      have hsrc : c :: (parts W after 0).flatMap Part.source = c :: rest := by
        rw [source_parts]
        exact hafter.symm
      exact ⟨by rwa [hsrc], ih⟩

/-! ### The workspace -/

lemma clear_tagText (h : isName W name = true) (rest : Text) :
    Clear workspaceTag (tagText name) rest := by
  refine clear_cons (fun hpref => ?_) (clear_of_notMem fun hmem => ?_)
  · exact absurd (cons_prefix_cons.mp (cons_prefix_cons.mp hpref).2).1 (by decide)
  · obtain hmem | hmem := mem_append.mp (show '$' ∈ "args[".toList ++ (name ++ [']']) from hmem)
    · exact absurd hmem (by decide)
    · obtain hmem | hmem := mem_append.mp hmem
      · exact dollar_notMem h hmem
      · exact absurd hmem (by decide)

lemma placed_workspaceTag {value workspaceId} : ∀ {ps}, Read W ps →
    Placed workspaceTag workspaceId Part.source (stage value workspaceId []) ps
  | [], _ => trivial
  | .plain c :: ps, h => by
    refine ⟨.inr ⟨rfl, clear_cons h.1 fun l r heq hr => ?_⟩, placed_workspaceTag h.2⟩
    exact absurd (append_eq_nil_iff.mp heq.symm).2 hr
  | .workspace :: _, h => ⟨.inl ⟨rfl, rfl⟩, placed_workspaceTag h⟩
  | .tag _ :: _, h => ⟨.inr ⟨rfl, clear_tagText h.1 _⟩, placed_workspaceTag h.2⟩

/-! ### The captures -/

lemma captures_cons_of_none {c : Char} (h : tagAt W (c :: rest) = none) :
    captures W (c :: rest) 0 = captures W rest 0 := by
  rw [captures, h]

lemma captures_append : ∀ {l}, (∀ r ∈ l.tails, r ≠ [] → tagAt W (r ++ rest) = none) →
    captures W (l ++ rest) 0 = captures W rest 0
  | [], _ => rfl
  | c :: l, h => by
    rw [tails_cons, forall_mem_cons] at h
    have hnone : tagAt W (c :: (l ++ rest)) = none := h.1 (cons_ne_nil c l)
    rw [cons_append, captures_cons_of_none hnone]
    exact captures_append h.2

lemma captures_tag (h : isName W name = true) (rest : Text) :
    captures W (tagText name ++ rest) 0 = name :: captures W rest 0 := by
  have htag : tagAt W (tagText name ++ rest) = some name :=
    tagAt_eq_some_iff.mpr ⟨prefix_append _ _, h⟩
  have hlen : ("args[".toList ++ (name ++ [']'])).length = name.length + 6 := by
    rw [length_append, length_append]
    exact Nat.add_comm 5 (name.length + 1)
  have hskip := @skip_append _ _ (captures W) (fun _ _ _ => rfl) rest
    ("args[".toList ++ (name ++ [']']))
  rw [hlen] at hskip
  rw [show tagText name ++ rest =
    '$' :: ("args[".toList ++ (name ++ [']']) ++ rest) from rfl] at htag ⊢
  rw [captures, htag]
  exact congrArg (name :: ·) hskip

lemma captures_flatMap (htag : ∀ name, f (.tag name) = tagText name) : ∀ {ps}, Read W ps →
    Untagged W f ps → captures W (ps.flatMap f) 0 = ps.filterMap Part.name?
  | [], _, _ => rfl
  | .plain _ :: _, hread, h => by
    rw [flatMap_cons, captures_append h.1, captures_flatMap htag hread.2 h.2]
    rfl
  | .workspace :: ps, hread, h => by
    have hrest : Read W ps := hread
    rw [flatMap_cons, captures_append h.1, captures_flatMap htag hrest h.2]
    rfl
  | .tag _ :: _, hread, h => by
    rw [flatMap_cons, htag, captures_tag hread.1, captures_flatMap htag hread.2 h]
    rfl

lemma mem_names : name ∈ ps.filterMap Part.name? ↔ .tag name ∈ ps := by
  rw [mem_filterMap]
  constructor
  · rintro ⟨p, hp, hname⟩
    cases p with
    | plain c | workspace => cases hname
    | tag m =>
      cases hname
      exact hp
  · exact fun h => ⟨_, h, rfl⟩

end

section

variable {W : Words} {serde : Serde} {x workspaceId : Text} {a : PushArgs}

/-- **The code substitutes in one pass** if every tag is found only where the template has it: each
is replaced by the whole text of its value, and nothing else is. -/
theorem interpolateArgs_eq_substituted (h : Regular W serde x a workspaceId) :
    interpolateArgs W serde x a workspaceId = substituted W x a workspaceId := by
  have hread := read_parts (W := W) x
  have hws : replaceText workspaceTag workspaceId x 0 =
      (parts W x 0).flatMap (stage (fun name => unquoted (valueAt a name)) workspaceId []) := by
    conv_lhs => rw [← source_parts (W := W) x]
    exact replaceText_flatMap (by decide) (placed_workspaceTag hread)
  have hcap : captures W (replaceText workspaceTag workspaceId x 0) 0 =
      (parts W x 0).filterMap Part.name? := by
    rw [hws]
    exact captures_flatMap (fun _ => rfl) hread h.workspace
  have hcode : interpolateArgs W serde x a workspaceId = ((parts W x 0).filterMap Part.name?).foldl
      (fun interpolated name => replaceText (tagText name) (unquoted (valueAt a name))
        interpolated 0)
      (replaceText workspaceTag workspaceId x 0) := by
    unfold interpolateArgs
    dsimp only
    rw [hcap]
    split
    case isTrue hemp => rw [isEmpty_iff.mp hemp]; rfl
    case isFalse =>
      refine foldl_ext _ _ _ fun text name hname => ?_
      rw [argValue_eq (h.value name (mem_names.mp hname))]
  rw [hcode, hws, foldl_replaceText tagText_ne_nil h.turns]
  refine flatMap_congr fun p hp => ?_
  cases p with
  | plain c => rfl
  | workspace => rfl
  | tag name =>
    refine if_pos ?_
    rw [append_nil, mem_reverse]
    exact mem_names.mpr hp

end

def asciiWords : Words where
  word c := c.isAlphanum || c == '_'
  ascii _ _ := rfl

def verbatim : Serde where
  read := some
  read_read _ := rfl
  member_read h _ := by cases h; rfl

def noWs : Ws := ⟨[], isWs_of_mem_nil⟩

def digits (l : Text) (h : l ≠ [] ∧ ∀ c ∈ l, isNumberChar c = true) : RawJson := .number ⟨l, h⟩

/-- An argument with a member, and one whose text has a dollar. -/
def priceArgs : PushArgs where
  args := ⟨[("a", .obj noWs
    [((noWs, [.plain 'b' (by decide)], noWs), noWs, digits ['1', '2'] (by decide), noWs)]),
    ("x", .str (plainString "US$5".toList (by decide)))], by decide⟩
  extra := none

/-- A template with a dollar of its own. -/
def priceTemplate : Text := "$ $workspace/$args[a.b]/$args[x]".toList

lemma parts_priceTemplate : parts asciiWords priceTemplate 0 = [.plain '$', .plain ' ', .workspace,
    .plain '/', .tag "a.b".toList, .plain '/', .tag "x".toList] := by
  decide +kernel

lemma regular_priceTemplate : Regular asciiWords verbatim priceTemplate priceArgs "ws".toList := by
  refine ⟨by rw [parts_priceTemplate]; decide +kernel, by
    rw [parts_priceTemplate]; decide +kernel, ?_⟩
  rw [parts_priceTemplate]
  intro name hmem
  simp only [mem_cons, Part.tag.injEq, reduceCtorEq, not_mem_nil, or_false, false_or] at hmem
  obtain rfl | rfl := hmem
  · exact ⟨rfl, nofun⟩
  · refine ⟨rfl, fun s hs => ?_⟩
    obtain rfl : plainString "US$5".toList (by decide) = s := RawJson.str.inj (some.inj hs)
    decide

theorem price_substituted :
    interpolateArgs asciiWords verbatim priceTemplate priceArgs "ws".toList =
      substituted asciiWords priceTemplate priceArgs "ws".toList ∧
    substituted asciiWords priceTemplate priceArgs "ws".toList = "$ ws/12/US$5".toList :=
  ⟨interpolateArgs_eq_substituted regular_priceTemplate, by decide +kernel⟩

/-- The argument `x` is the text `$args[y]`, and `y` is the text `"` with letters before it. -/
def taggedArgs : PushArgs where
  args := ⟨[("x", .str (plainString "$args[y]".toList (by decide))),
    ("y", .str [.plain 'h' (by decide), .plain 'i' (by decide),
      .short '\x22' '\x22' (by decide)])], by decide⟩
  extra := none

/-- What an argument holds is itself interpolated, and an escaped quote at the end of a string is
lost. -/
theorem arguments_rewritten :
    interpolateArgs asciiWords verbatim "$args[x] $args[y]".toList taggedArgs
    [] = "hi\\ hi\\".toList ∧
    substituted asciiWords "$args[x] $args[y]".toList taggedArgs
    [] = "$args[y] hi\\\x22".toList := by
  decide +kernel

end Windmill.Queue.Interpolate
