import Windmill.Lib.Bytes
import Windmill.Lib.Records

/-! # JSON texts

A JSON text with its escapes and spaces (`RawJson`), the text itself (`text`) and the value that a
reader gets (`value`). A marker is a word that starts with `$`. Replacing a marker in the text
(`replaceText`) replaces it in the strings and keys (`replaces_text`), wherever all its characters
are written without escapes. -/

namespace Windmill.Lib.JsonText

open List

open Lib.Records (Json)

/-! ### Strings -/

def isHex (c : Char) : Bool := c.isDigit || ('a' ≤ c && c ≤ 'f') || ('A' ≤ c && c ≤ 'F')

def hexValue (c : Char) : ℕ :=
  if c.isDigit then c.toNat - 48 else if 'a' ≤ c then c.toNat - 87 else c.toNat - 55

structure Hex4 where
  digits : List Char
  length_eq : digits.length = 4
  isHex : ∀ c ∈ digits, isHex c = true

def Hex4.value (hex : Hex4) : ℕ := hex.digits.foldl (fun n c => 16 * n + hexValue c) 0

def shortEscapes : List (Char × Char) :=
  [('\x22', '\x22'), ('\\', '\\'), ('/', '/'), ('b', '\x08'), ('f', '\x0c'), ('n', '\n'),
    ('r', '\r'), ('t', '\t')]

inductive Piece where
  | plain (c : Char) (h : c ≠ '\x22' ∧ c ≠ '\\')
  | short (e c : Char) (h : (e, c) ∈ shortEscapes)
  | unicode (hex : Hex4) (c : Char) (h : c.toNat = hex.value)
  | pair (high low : Hex4) (c : Char)
      (h : 0xd800 ≤ high.value ∧ high.value < 0xdc00 ∧ 0xdc00 ≤ low.value ∧ low.value < 0xe000 ∧
        c.toNat = 0x10000 + 0x400 * (high.value - 0xd800) + (low.value - 0xdc00))

def Piece.chars : Piece → List Char
  | .plain c _ => [c]
  | .short e _ _ => ['\\', e]
  | .unicode hex _ _ => '\\' :: 'u' :: hex.digits
  | .pair high low _ _ => '\\' :: 'u' :: (high.digits ++ '\\' :: 'u' :: low.digits)

def Piece.meaning : Piece → Char
  | .plain c _ => c
  | .short _ c _ => c
  | .unicode _ c _ => c
  | .pair _ _ c _ => c

abbrev RawString := List Piece

def raw (ps : RawString) : List Char := ps.flatMap Piece.chars

def decode (ps : RawString) : List Char := ps.map Piece.meaning

def quoted (ps : RawString) : List Char := '\x22' :: (raw ps ++ ['\x22'])

def plainString (chars : List Char) (h : ∀ c ∈ chars, c ≠ '\x22' ∧ c ≠ '\\') : RawString :=
  chars.pmap Piece.plain h

lemma decode_plainString (chars : List Char) (h : ∀ c ∈ chars, c ≠ '\x22' ∧ c ≠ '\\') :
    decode (plainString chars h) = chars := by
  unfold decode plainString
  rw [map_pmap]
  exact pmap_eq_self.mpr fun _ _ => rfl

lemma raw_plainString (chars : List Char) (h : ∀ c ∈ chars, c ≠ '\x22' ∧ c ≠ '\\') :
    raw (plainString chars h) = chars := by
  induction chars with
  | nil => rfl
  | cons c chars ih => exact congrArg (c :: ·) (ih fun d hd => h d (mem_cons_of_mem c hd))

/-! ### Values -/

def isWs (c : Char) : Bool := c ∈ [' ', '\n', '\r', '\t']

def isNumberChar (c : Char) : Bool := c.isDigit || c ∈ ['-', '+', '.', 'e', 'E']

abbrev Ws := { l : List Char // ∀ c ∈ l, isWs c = true }

lemma isWs_of_mem_nil : ∀ c ∈ ([] : List Char), isWs c = true := forall_mem_nil _

abbrev NumberText := { l : List Char // l ≠ [] ∧ ∀ c ∈ l, isNumberChar c = true }

/-- A JSON text, with its white space. -/
inductive RawJson where
  | null
  | bool (b : Bool)
  | number (text : NumberText)
  | str (s : RawString)
  | arr (ws : Ws) (items : List (Ws × RawJson × Ws))
  | obj (ws : Ws) (members : List ((Ws × RawString × Ws) × Ws × RawJson × Ws))

abbrev Item := Ws × RawJson × Ws

abbrev Member := (Ws × RawString × Ws) × Ws × RawJson × Ws

mutual

/-- The characters of the text. -/
def RawJson.text : RawJson → List Char
  | .null => "null".toList
  | .bool b => if b then "true".toList else "false".toList
  | .number n => n.1
  | .str s => quoted s
  | .arr ws items => '[' :: (ws.1 ++ itemsText items ++ [']'])
  | .obj ws members => '{' :: (ws.1 ++ membersText members ++ ['}'])

def itemsText : List (Ws × RawJson × Ws) → List Char
  | [] => []
  | (before, item, after) :: rest =>
    before.1 ++ (item.text ++ (after.1 ++ ((if rest.isEmpty then [] else [',']) ++ itemsText rest)))

def membersText : List ((Ws × RawString × Ws) × Ws × RawJson × Ws) → List Char
  | [] => []
  | ((before, key, colon), space, item, after) :: rest =>
    before.1 ++ (quoted key ++ (colon.1 ++ (':' :: space.1 ++ (item.text ++ (after.1 ++
      ((if rest.isEmpty then [] else [',']) ++ membersText rest))))))

end

def keepLast {β : Type} : List (String × β) → List (String × β)
  | [] => []
  | (k, v) :: rest => if k ∈ rest.map Prod.fst then keepLast rest else (k, v) :: keepLast rest

mutual

/-- The value that the text denotes. -/
def RawJson.value : RawJson → Json
  | .null => .null
  | .bool b => .bool b
  | .number n => .float (String.ofList n.1)
  | .str s => .str (String.ofList (decode s))
  | .arr _ items => .arr (itemsValues items)
  | .obj _ members => .obj (keepLast (membersValues members))

def itemsValues : List (Ws × RawJson × Ws) → List Json
  | [] => []
  | (_, item, _) :: rest => item.value :: itemsValues rest

def membersValues : List ((Ws × RawString × Ws) × Ws × RawJson × Ws) → List (String × Json)
  | [] => []
  | ((_, key, _), _, item, _) :: rest =>
    (String.ofList (decode key), item.value) :: membersValues rest

end

lemma itemsValues_eq_map : ∀ items, itemsValues items = items.map (·.2.1.value)
  | [] => rfl
  | item :: rest => congrArg (item.2.1.value :: ·) (itemsValues_eq_map rest)

lemma membersValues_eq_map : ∀ members, membersValues members = members.map fun member =>
    (String.ofList (decode member.1.2.1), member.2.2.1.value)
  | [] => rfl
  | _ :: rest => congrArg (cons _) (membersValues_eq_map rest)

mutual

def RawJson.mapStrings (g : RawString → RawString) : RawJson → RawJson
  | .null => .null
  | .bool b => .bool b
  | .number n => .number n
  | .str s => .str (g s)
  | .arr ws items => .arr ws (mapItems g items)
  | .obj ws members => .obj ws (mapMembers g members)

def mapItems (g : RawString → RawString) : List (Ws × RawJson × Ws) → List (Ws × RawJson × Ws)
  | [] => []
  | (before, item, after) :: rest => (before, item.mapStrings g, after) :: mapItems g rest

def mapMembers (g : RawString → RawString) : List ((Ws × RawString × Ws) × Ws × RawJson × Ws) →
    List ((Ws × RawString × Ws) × Ws × RawJson × Ws)
  | [] => []
  | ((before, key, colon), space, item, after) :: rest =>
    ((before, g key, colon), space, item.mapStrings g, after) :: mapMembers g rest

end

@[elab_as_elim, induction_eliminator]
lemma RawJson.induct {P : RawJson → Prop} (null : P .null) (bool : ∀ b, P (.bool b))
    (number : ∀ n, P (.number n))
    (str : ∀ s, P (.str s)) (arr : ∀ ws items, (∀ item ∈ items, P item.2.1) → P (.arr ws items))
    (obj : ∀ ws members, (∀ member ∈ members, P member.2.2.1) → P (.obj ws members)) : ∀ t, P t
  | .null => null
  | .bool b => bool b
  | .number n => number n
  | .str s => str s
  | .arr ws items => arr ws items fun (_, item, _) _ =>
      RawJson.induct null bool number str arr obj item
  | .obj ws members => obj ws members fun (_, _, item, _) _ =>
      RawJson.induct null bool number str arr obj item
decreasing_by all_goals
  have hlt := sizeOf_lt_of_mem ‹_›
  simp at hlt ⊢
  omega

lemma mapItems_eq_map (g : RawString → RawString) (items : List Item) :
    mapItems g items = items.map fun item => (item.1, item.2.1.mapStrings g, item.2.2) := by
  induction items with
  | nil => rfl
  | cons item rest ih => exact congrArg (cons _) ih

lemma mapMembers_eq_map (g : RawString → RawString) (members : List Member) :
    mapMembers g members = members.map
    fun member => ((member.1.1, g member.1.2.1, member.1.2.2), member.2.1,
      member.2.2.1.mapStrings g, member.2.2.2) := by
  induction members with
  | nil => rfl
  | cons member rest ih => exact congrArg (cons _) ih

lemma mapStrings_comp (f g : RawString → RawString) (t : RawJson) :
    (t.mapStrings f).mapStrings g = t.mapStrings fun s => g (f s) := by
  induction t with
  | arr ws items ih => simpa [RawJson.mapStrings, mapItems_eq_map] using ih
  | obj ws members ih => simpa [RawJson.mapStrings, mapMembers_eq_map] using ih
  | _ => rfl

lemma mapStrings_id (t : RawJson) : t.mapStrings id = t := by
  induction t with
  | arr ws items ih =>
    rw [RawJson.mapStrings, mapItems_eq_map, map_congr_left (g := id) fun item h => by
      rw [ih item h]; rfl, map_id]
  | obj ws members ih =>
    rw [RawJson.mapStrings, mapMembers_eq_map, map_congr_left (g := id) fun member h => by
      rw [ih member h]; rfl, map_id]
  | _ => rfl

/-! ### Markers -/

/-- A word that starts with `$`. -/
structure Marker where
  tail : List Char
  proper : ∀ c ∈ tail, c ≠ '$' ∧ c ≠ '\x22' ∧ c ≠ '\\'

def Marker.text (m : Marker) : List Char := '$' :: m.tail

/-- `str::replace`; so many characters are skipped first. -/
def replaceText (pat sub : List Char) : List Char → ℕ → List Char
  | [], _ => []
  | _ :: cs, skip + 1 => replaceText pat sub cs skip
  | c :: cs, 0 =>
    if pat <+: c :: cs then sub ++ replaceText pat sub cs (pat.length - 1)
      else c :: replaceText pat sub cs 0

def startsPlain : List Char → RawString → Bool
  | [], _ => true
  | c :: cs, .plain c' _ :: ps => c == c' && startsPlain cs ps
  | _ :: _, _ => false

def replaceFrom (m : Marker) (sub : RawString) : RawString → ℕ → RawString
  | [], _ => []
  | _ :: ps, skip + 1 => replaceFrom m sub ps skip
  | p :: ps, 0 =>
    if startsPlain m.text (p :: ps) then sub ++ replaceFrom m sub ps m.tail.length
      else p :: replaceFrom m sub ps 0

def replaceIn (m : Marker) (sub ps : RawString) : RawString := replaceFrom m sub ps 0

/-! ### Replacing in the text -/

lemma raw_cons (p : Piece) (ps : RawString) : raw (p :: ps) = p.chars ++ raw ps := flatMap_cons

lemma raw_append (ps qs : RawString) : raw (ps ++ qs) = raw ps ++ raw qs := flatMap_append

variable {c : Char} {cs : List Char} {ps : RawString} {p : Piece}

lemma ne_dollar_of_isHex (h : isHex c = true) : c ≠ '$' := by
  rintro rfl
  cases h

lemma Hex4.dollar_notMem (hex : Hex4) : '$' ∉ hex.digits :=
  fun h => ne_dollar_of_isHex (hex.isHex _ h) rfl

lemma Piece.cases_chars (p : Piece) : (∃ c h, p = .plain c h) ∨ ∃ cs, p.chars = '\\' :: cs ∧
    '$' ∉ p.chars := by
  cases p with
  | plain c h => exact .inl ⟨c, h, rfl⟩
  | short e c h =>
    refine .inr ⟨[e], rfl, fun hmem => ?_⟩
    rcases mem_cons.mp hmem with heq | hmem
    · cases heq
    · rw [← mem_singleton.mp hmem] at h
      simp [shortEscapes] at h
  | unicode hex c h =>
    refine .inr ⟨'u' :: hex.digits, rfl, fun hmem => ?_⟩
    rcases mem_cons.mp hmem with heq | hmem
    · cases heq
    · rcases mem_cons.mp hmem with heq | hmem
      · cases heq
      · exact hex.dollar_notMem hmem
  | pair high low c h =>
    refine .inr ⟨_, rfl, fun hmem => ?_⟩
    simp only [Piece.chars, mem_cons, mem_append] at hmem
    rcases hmem with heq | heq | hmem | heq | heq | hmem
    · cases heq
    · cases heq
    · exact high.dollar_notMem hmem
    · cases heq
    · cases heq
    · exact low.dollar_notMem hmem

lemma startsPlain_cons :
    startsPlain (c :: cs) (p :: ps) = true ↔ (∃ h, p = .plain c h) ∧ startsPlain cs ps = true := by
  cases p with
  | plain c' h' =>
    rw [startsPlain, Bool.and_eq_true, beq_iff_eq]
    refine and_congr_left fun _ => ⟨?_, ?_⟩
    · rintro rfl
      exact ⟨h', rfl⟩
    · rintro ⟨h, heq⟩
      cases heq
      rfl
  | _ =>
    refine ⟨fun h => ?_, fun h => ?_⟩
    · cases h
    · obtain ⟨⟨_, heq⟩, -⟩ := h
      cases heq

section Text

variable {m : Marker} {sub : RawString}

variable (m sub) in
def Replaces (cs cs' : List Char) : Prop :=
  ∀ tail, replaceText m.text (raw sub) (cs ++ tail) 0 = cs' ++ replaceText m.text (raw sub) tail 0

lemma Replaces.append {xs xs' ys ys'} (hx : Replaces m sub xs xs') (hy : Replaces m sub ys ys') :
    Replaces m sub (xs ++ ys) (xs' ++ ys') := fun tail => by
  rw [append_assoc, hx, hy, append_assoc]

lemma replaces_self (h : '$' ∉ cs) : Replaces m sub cs cs := fun tail => by
  induction cs with
  | nil => rfl
  | cons c cs ih =>
    rw [mem_cons, not_or] at h
    have hno : ¬m.text <+: c :: (cs ++ tail) := fun hpref => h.1 (cons_prefix_cons.mp hpref).1
    rw [cons_append, replaceText, if_neg hno, ih h.2, cons_append]

lemma prefix_raw_iff (h : ∀ c ∈ cs, c ≠ '\x22' ∧ c ≠ '\\') (tail : List Char) :
    ∀ ps, cs <+: raw ps ++ '\x22' :: tail ↔ startsPlain cs ps = true := by
  induction cs with
  | nil => exact fun ps => ⟨fun _ => by cases ps <;> rfl, fun _ => nil_prefix⟩
  | cons c cs ih =>
    have hc := h c mem_cons_self
    have htail := ih fun d hd => h d (mem_cons_of_mem c hd)
    intro ps
    cases ps with
    | nil =>
      refine ⟨fun hpref => absurd (cons_prefix_cons.mp hpref).1 hc.1, fun hstart => ?_⟩
      cases hstart
    | cons p ps =>
      rw [raw_cons]
      rcases p.cases_chars with ⟨c', h', rfl⟩ | ⟨es, hes, -⟩
      · have hstart : startsPlain (c :: cs) (.plain c' h' :: ps) = true ↔
            c = c' ∧ startsPlain cs ps = true := by
          rw [startsPlain, Bool.and_eq_true, beq_iff_eq]
        rw [hstart, ← htail ps]
        exact cons_prefix_cons
      · rw [hes]
        refine ⟨fun hpref => absurd (cons_prefix_cons.mp hpref).1 hc.2, fun hstart => ?_⟩
        cases p with
        | plain c' h' =>
          cases hes
          exact absurd rfl h'.2
        | _ => cases hstart

def LeadingPlain : ℕ → RawString → Prop
  | 0, _ => True
  | n + 1, .plain _ _ :: ps => LeadingPlain n ps
  | _ + 1, _ => False

lemma leadingPlain_of_startsPlain : ∀ {cs ps}, startsPlain cs ps = true → LeadingPlain cs.length ps
  | [], _, _ => trivial
  | _ :: cs, _ :: ps, h => by
    obtain ⟨⟨_, rfl⟩, htail⟩ := startsPlain_cons.mp h
    exact (leadingPlain_of_startsPlain htail : LeadingPlain cs.length ps)

lemma Marker.text_proper (m : Marker) : ∀ c ∈ m.text, c ≠ '\x22' ∧ c ≠ '\\' := by
  intro c hc
  rcases mem_cons.mp hc with rfl | hc
  · decide
  · exact (m.proper c hc).2

/-- **Replacing in the text of a string** replaces in its pieces. -/
theorem replaceText_raw (m : Marker) (sub : RawString) (tail : List Char) : ∀ ps (skip : ℕ),
    LeadingPlain skip ps → replaceText m.text (raw sub) (raw ps ++ '\x22' :: tail) skip =
      raw (replaceFrom m sub ps skip) ++ '\x22' :: replaceText m.text (raw sub) tail 0
  | [], 0, _ => @replaces_self ['\x22'] m sub (by decide) tail
  | p :: ps, skip + 1, h => by
    cases p with
    | plain c hc => exact replaceText_raw m sub tail ps skip h
    | _ => cases h
  | p :: ps, 0, _ => by
    rw [replaceFrom]
    split_ifs with hstart
    · -- the marker has no escapes, so that its characters are pieces
      cases p with
      | plain c hc =>
        have hpref := (prefix_raw_iff m.text_proper tail (.plain c hc :: ps)).mpr hstart
        have hlead : LeadingPlain m.tail.length ps :=
          leadingPlain_of_startsPlain ((Bool.and_eq_true _ _).mp hstart).2
        have htext : replaceText m.text (raw sub) (c :: (raw ps ++ '\x22' :: tail)) 0 =
            raw sub ++ replaceText m.text (raw sub) (raw ps ++ '\x22' :: tail) m.tail.length :=
            if_pos hpref
        rw [raw_append, append_assoc, ← replaceText_raw m sub tail ps m.tail.length hlead, ← htext]
        rfl
      | _ => cases hstart
    · rcases p.cases_chars with ⟨c, hc, rfl⟩ | ⟨-, -, hdol⟩
      · have hpref : ¬m.text <+: c :: (raw ps ++ '\x22' :: tail) := fun hpref =>
          hstart ((prefix_raw_iff m.text_proper tail (.plain c hc :: ps)).mp hpref)
        have htext : replaceText m.text (raw sub) (c :: (raw ps ++ '\x22' :: tail)) 0 =
            c :: replaceText m.text (raw sub) (raw ps ++ '\x22' :: tail) 0 := if_neg hpref
        have ih := replaceText_raw m sub tail ps 0 trivial
        rw [ih] at htext
        exact htext
      · rw [raw_cons, append_assoc, replaces_self hdol, replaceText_raw m sub tail ps 0 trivial,
          raw_cons, append_assoc]

lemma replaces_quoted (ps : RawString) : Replaces m sub (quoted ps) (quoted (replaceIn m sub ps)) :=
  fun tail => by
  have hquo : Replaces m sub ['\x22'] ['\x22'] := replaces_self (by decide)
  have hshape : ∀ qs rest, quoted qs ++ rest = ['\x22'] ++ (raw qs ++ '\x22' :: rest) := by
    simp [quoted]
  rw [hshape, hquo, replaceText_raw m sub tail ps 0 trivial, hshape]
  rfl

/-- **Replacing in a text** replaces in its strings and keys; the result is a JSON text again. -/
theorem replaces_text (t : RawJson) :
    Replaces m sub t.text (t.mapStrings (replaceIn m sub)).text := by
  have hws : ∀ ws : Ws, Replaces m sub ws.1 ws.1 :=
    fun ws => replaces_self fun h => absurd (ws.2 _ h) (by decide)
  have hcomma : ∀ b : Bool, Replaces m sub (if b then [] else [',']) (if b then [] else [',']) :=
    fun b =>
    replaces_self (by cases b <;> decide)
  have hchar : ∀ c, '$' ≠ c → Replaces m sub [c] [c] :=
    fun c hc => replaces_self (mt mem_singleton.mp hc)
  induction t with
  | null => exact replaces_self (by decide)
  | bool b => exact replaces_self (by cases b <;> decide)
  | number n => exact replaces_self fun h => absurd (n.2.2 _ h) (by decide)
  | str s => exact replaces_quoted s
  | arr ws items ih =>
    refine (hchar '[' (by decide)).append (((hws ws).append ?_).append (hchar ']' (by decide)))
    induction items with
    | nil => exact fun _ => rfl
    | cons item rest ihr =>
      have hemp : (mapItems (replaceIn m sub) rest).isEmpty = rest.isEmpty := by cases rest <;> rfl
      obtain ⟨hitem, hrest⟩ := forall_mem_cons.mp ih
      rw [itemsText, mapItems, itemsText, hemp]
      exact (hws _).append (hitem.append ((hws _).append ((hcomma _).append (ihr hrest))))
  | obj ws members ih =>
    refine (hchar '\x7b' (by decide)).append
      (((hws ws).append ?_).append (hchar '\x7d' (by decide)))
    induction members with
    | nil => exact fun _ => rfl
    | cons member rest ihr =>
      have hemp : (mapMembers (replaceIn m sub) rest).isEmpty = rest.isEmpty := by
        cases rest <;> rfl
      obtain ⟨hitem, hrest⟩ := forall_mem_cons.mp ih
      rw [membersText, mapMembers, membersText, hemp]
      exact (hws _).append ((replaces_quoted _).append
        ((hws _).append (((hchar ':' (by decide)).append (hws _)).append
        (hitem.append ((hws _).append ((hcomma _).append (ihr hrest)))))))

end Text

/-! ### What the strings then mean -/

lemma decode_append (ps qs : RawString) : decode (ps ++ qs) = decode ps ++ decode qs := map_append

lemma prefix_decode_of_startsPlain : ∀ {cs ps}, startsPlain cs ps = true → cs <+: decode ps
  | [], _, _ => nil_prefix
  | _ :: _, _ :: _, h => by
    obtain ⟨⟨_, rfl⟩, htail⟩ := startsPlain_cons.mp h
    exact cons_prefix_cons.mpr ⟨rfl, prefix_decode_of_startsPlain htail⟩

/-- A text to put in the place of a marker, without dollars. -/
structure Substitute where
  first : Char
  pieces : RawString
  decode_eq : ∃ rest, decode pieces = first :: rest
  dollar_notMem : '$' ∉ decode pieces

section Meaning

variable {m n : Marker} {sub : Substitute}

lemma replaceFrom_drop (m : Marker) (sub : RawString) : ∀ ps (skip : ℕ),
    replaceFrom m sub ps skip = replaceFrom m sub (ps.drop skip) 0
  | [], 0 => rfl
  | [], _ + 1 => rfl
  | _ :: _, 0 => rfl
  | _ :: ps, skip + 1 => replaceFrom_drop m sub ps skip

lemma replaceIn_of_startsPlain (h : startsPlain m.text ps = true) :
    replaceIn m sub.pieces ps = sub.pieces ++ replaceIn m sub.pieces (ps.drop m.text.length) := by
  cases ps with
  | nil => cases h
  | cons p ps =>
    have hstep : replaceIn m sub.pieces (p :: ps) = sub.pieces ++
        replaceFrom m sub.pieces ps m.tail.length := if_pos h
    rw [hstep, replaceFrom_drop]
    rfl

lemma replaceIn_cons (h : ¬startsPlain m.text (p :: ps) = true) :
    replaceIn m sub.pieces (p :: ps) = p :: replaceIn m sub.pieces ps := if_neg h

/-- A way to read characters at the start of a string, one after the other. -/
structure Reading (R : Char → Piece → Prop) (Q : List Char → RawString → Prop) : Prop where
  nil : ∀ ps, Q [] ps
  cons : ∀ {c cs p ps}, Q (c :: cs) (p :: ps) ↔ R c p ∧ Q cs ps
  isPrefix : ∀ {cs ps}, Q cs ps → cs <+: decode ps

lemma reading_startsPlain : Reading (fun c p => ∃ h, p = .plain c h) fun cs ps =>
    startsPlain cs ps = true :=
  ⟨fun ps => (by cases ps <;> rfl), startsPlain_cons, prefix_decode_of_startsPlain⟩

variable {R : Char → Piece → Prop} {Q : List Char → RawString → Prop}

lemma Reading.replaceIn_iff (hQ : Reading R Q) (hcs : ∀ c ∈ cs, c ≠ '$' ∧ c ≠ sub.first)
    (ps : RawString) : Q cs (replaceIn m sub.pieces ps) ↔ Q cs ps := by
  induction ps generalizing cs with
  | nil => exact Iff.rfl
  | cons p ps ih =>
    cases cs with
    | nil => exact ⟨fun _ => hQ.nil _, fun _ => hQ.nil _⟩
    | cons c cs =>
      have hc := hcs c mem_cons_self
      by_cases h : startsPlain m.text (p :: ps) = true
      · -- before there is a dollar, afterwards the substitute
        obtain ⟨rest, hfirst⟩ := sub.decode_eq
        obtain ⟨tail, htail⟩ := prefix_decode_of_startsPlain h
        refine ⟨fun hread => ?_, fun hread => ?_⟩
        · have hpref := hQ.isPrefix hread
          rw [replaceIn_of_startsPlain h, decode_append, hfirst] at hpref
          exact absurd (cons_prefix_cons.mp hpref).1 hc.2
        · have hpref := hQ.isPrefix hread
          rw [← htail] at hpref
          exact absurd (cons_prefix_cons.mp hpref).1 hc.1
      · rw [replaceIn_cons h, hQ.cons, hQ.cons, ih fun d hd => hcs d (mem_cons_of_mem c hd)]

def Marker.Avoids (n : Marker) (sub : Substitute) : Prop := '$' ≠ sub.first ∧ sub.first ∉ n.tail

lemma Marker.Avoids.tail (h : n.Avoids sub) : ∀ c ∈ n.tail, c ≠ '$' ∧ c ≠ sub.first :=
  fun c hc => ⟨(n.proper c hc).1, fun heq => h.2 (heq ▸ hc)⟩

/-! ### Where a marker is -/

/-- A property of the places of a string, at dollars, that a replacement keeps wherever it does not
replace. -/
structure Local (m : Marker) (sub : Substitute) (P : RawString → Prop) : Prop where
  dollar : ∀ ps, P ps → ∃ p qs, ps = p :: qs ∧ p.meaning = '$'
  replace : ∀ ps, P (replaceIn m sub.pieces ps) ↔ P ps ∧ ¬startsPlain m.text ps = true

lemma not_of_first (h : n.Avoids sub) (tail : RawString) :
    ¬n.text <+: decode (sub.pieces ++ tail) := by
  intro hpref
  obtain ⟨rest, hfirst⟩ := sub.decode_eq
  rw [decode_append, hfirst] at hpref
  exact h.1 (cons_prefix_cons.mp hpref).1

/-- **A marker starts a string after the replacement** if it did so before and was not replaced. -/
theorem Reading.replace_iff (hQ : Reading R Q) (h : n.Avoids sub) (ps : RawString) :
    Q n.text (replaceIn m sub.pieces ps) ↔ Q n.text ps ∧ ¬startsPlain m.text ps = true := by
  cases ps with
  | nil => exact ⟨fun hread => absurd (prefix_nil.mp (hQ.isPrefix hread)) (cons_ne_nil _ _),
      And.left⟩
  | cons p ps =>
    by_cases hstart : startsPlain m.text (p :: ps) = true
    · rw [replaceIn_of_startsPlain hstart]
      exact ⟨fun hread => absurd (hQ.isPrefix hread) (not_of_first h _), fun hand =>
        absurd hstart hand.2⟩
    · have hcons : Q n.text (p :: replaceIn m sub.pieces ps) ↔ Q n.text (p :: ps) :=
        hQ.cons.trans ((and_congr_right fun _ => hQ.replaceIn_iff h.tail ps).trans hQ.cons.symm)
      rw [replaceIn_cons hstart]
      exact hcons.trans ⟨fun hread => ⟨hread, hstart⟩, And.left⟩

lemma local_starts (h : n.Avoids sub) : Local m sub fun ps => n.text <+: decode ps where
  dollar ps hpref := by
    cases ps with
    | nil => exact absurd (prefix_nil.mp hpref) (cons_ne_nil _ _)
    | cons p ps => exact ⟨p, ps, rfl, (cons_prefix_cons.mp hpref).1.symm⟩
  replace := Reading.replace_iff ⟨fun _ => nil_prefix, cons_prefix_cons, id⟩ h

def Occurs (P : RawString → Prop) (ps : RawString) : Prop := ∃ post, post <:+ ps ∧ P post

variable {P : RawString → Prop}

lemma occurs_cons : Occurs P (p :: ps) ↔ P (p :: ps) ∨ Occurs P ps := by
  constructor
  · rintro ⟨post, hsuf, hpost⟩
    rcases suffix_cons_iff.mp hsuf with rfl | hsuf
    · exact .inl hpost
    · exact .inr ⟨post, hsuf, hpost⟩
  · rintro (hpost | ⟨post, hsuf, hpost⟩)
    · exact ⟨_, suffix_rfl, hpost⟩
    · exact ⟨post, hsuf.trans (suffix_cons p ps), hpost⟩

lemma occurs_append (h : ∀ ps, P ps → ∃ p qs, ps = p :: qs ∧ p.meaning = '$') (qs : RawString)
    (hps : '$' ∉ decode ps) : Occurs P (ps ++ qs) ↔ Occurs P qs := by
  induction ps with
  | nil => exact Iff.rfl
  | cons p ps ih =>
    have hnot : '$' ≠ p.meaning ∧ '$' ∉ decode ps := not_or.mp (mt mem_cons.mpr hps)
    rw [cons_append, occurs_cons, ih hnot.2]
    refine ⟨fun hor => hor.resolve_left fun hfirst => ?_, .inr⟩
    obtain ⟨p', qs', heq, hdol⟩ := h _ hfirst
    cases heq
    exact hnot.1 hdol.symm

lemma dollar_notMem_of_startsPlain (hcs : ∀ c ∈ cs, c ≠ '$')
    (h : startsPlain cs ps = true) : '$' ∉ decode (ps.take cs.length) := by
  have htake : decode (ps.take cs.length) = cs :=
    map_take.trans (prefix_iff_eq_take.mp (prefix_decode_of_startsPlain h)).symm
  rw [htake]
  exact fun hmem => hcs _ hmem rfl

/-- **What occurs after a replacement** occurs where nothing is replaced. -/
theorem occurs_replace (h : Local m sub P) (ps : RawString) : Occurs P (replaceIn m sub.pieces ps) ↔
    Occurs (fun post => P post ∧ ¬startsPlain m.text post = true) ps := by
  induction hlen : ps.length using Nat.strong_induction_on generalizing ps with
  | _ k ih =>
  cases ps with
  | nil =>
    refine ⟨fun hocc => ?_, fun hocc => ?_⟩
    · obtain ⟨post, hsuf, hpost⟩ := hocc
      cases suffix_nil.mp hsuf
      obtain ⟨p, qs, heq, -⟩ := h.dollar _ hpost
      cases heq
    · obtain ⟨post, hsuf, hpost⟩ := hocc
      cases suffix_nil.mp hsuf
      exact ⟨[], hsuf, hpost.1⟩
  | cons p ps =>
    by_cases hstart : startsPlain m.text (p :: ps) = true
    · -- a marker that is replaced, and the rest of the string
      have htail : startsPlain m.tail ps = true := (startsPlain_cons.mp hstart).2
      have hrest := ih (ps.drop m.tail.length).length
        (by rw [← hlen, length_drop, length_cons]; omega) _ rfl
      have hbefore := dollar_notMem_of_startsPlain (fun c hc => (m.proper c hc).1) htail
      have hsplit : Occurs (fun post => P post ∧ ¬startsPlain m.text post = true) ps ↔
          Occurs (fun post => P post ∧ ¬startsPlain m.text post = true)
          (ps.drop m.tail.length) := by
        conv_lhs => rw [← take_append_drop m.tail.length ps]
        exact occurs_append (fun qs hqs => h.dollar qs hqs.1) _ hbefore
      rw [replaceIn_of_startsPlain hstart, occurs_append h.dollar _ sub.dollar_notMem, occurs_cons,
        hsplit, ← hrest]
      exact ⟨.inr, fun hor => hor.resolve_left fun hand => hand.2 hstart⟩
    · have hrest := ih ps.length (by rw [← hlen, length_cons]; omega) _ rfl
      have hfirst := h.replace (p :: ps)
      rw [replaceIn_cons hstart] at hfirst ⊢
      rw [occurs_cons, occurs_cons, hrest, hfirst]

lemma replaceIn_eq_self (hc : c ∈ m.text) (h : c ∉ decode ps) : replaceIn m sub.pieces ps = ps := by
  induction ps with
  | nil => rfl
  | cons p ps ih =>
    have hno : ¬startsPlain m.text (p :: ps) = true :=
      fun hstart => h ((prefix_decode_of_startsPlain hstart).subset hc)
    rw [replaceIn_cons hno, ih fun hmem => h (mem_cons_of_mem _ hmem)]

lemma replaceIn_eq_self_or (m : Marker) (sub : Substitute) (ps : RawString) :
    replaceIn m sub.pieces ps = ps ∨ decode sub.pieces ⊆ decode (replaceIn m sub.pieces ps) := by
  induction ps with
  | nil => exact .inl rfl
  | cons p ps ih =>
    by_cases hstart : startsPlain m.text (p :: ps) = true
    · right
      rw [replaceIn_of_startsPlain hstart, decode_append]
      exact subset_append_left _ _
    · rw [replaceIn_cons hstart]
      rcases ih with heq | hsub
      · exact .inl (congrArg (cons p) heq)
      · exact .inr (subset_cons_of_subset _ hsub)

lemma infix_iff_occurs (h : cs ≠ []) (ps : RawString) :
    cs <:+: decode ps ↔ Occurs (fun post => cs <+: decode post) ps := by
  induction ps with
  | nil =>
    refine ⟨fun hinf => absurd (infix_nil.mp hinf) h, ?_⟩
    rintro ⟨post, hsuf, hpref⟩
    cases suffix_nil.mp hsuf
    exact hpref.isInfix
  | cons p ps ih =>
    rw [occurs_cons, ← ih]
    exact infix_cons_iff

end Meaning

/-! ### The strings of a value -/

section Strings

-- which arrays are entered, by depth and length
variable (enter : ℕ → ℕ → Bool)

mutual

def reached (depth : ℕ) : Json → List String
  | .str s => [s]
  | .arr elems => if enter depth elems.length then reachedElems (depth + 1) elems else []
  | .obj fields => reachedFields (depth + 1) fields
  | _ => []

def reachedElems (depth : ℕ) : List Json → List String
  | [] => []
  | v :: rest => reached depth v ++ reachedElems depth rest

def reachedFields (depth : ℕ) : List (String × Json) → List String
  | [] => []
  | (_, v) :: rest => reached depth v ++ reachedFields depth rest

end

mutual

def strings : Json → List String
  | .str s => [s]
  | .arr elems => stringsElems elems
  | .obj fields => stringsFields fields
  | _ => []

def stringsElems : List Json → List String
  | [] => []
  | v :: rest => strings v ++ stringsElems rest

def stringsFields : List (String × Json) → List String
  | [] => []
  | (k, v) :: rest => k :: (strings v ++ stringsFields rest)

end

mutual

lemma mem_strings_of_reached (depth : ℕ) : ∀ {v s}, s ∈ reached enter depth v → s ∈ strings v
  | .str _, _, h => h
  | .arr elems, s, h => by
    rw [reached] at h
    split_ifs at h
    · exact mem_strings_of_reachedElems (depth + 1) h
    · exact absurd h not_mem_nil
  | .obj fields, s, h => mem_strings_of_reachedFields (depth + 1) h
  | .null, _, h => absurd h not_mem_nil
  | .bool _, _, h => absurd h not_mem_nil
  | .int _, _, h => absurd h not_mem_nil
  | .float _, _, h => absurd h not_mem_nil

lemma mem_strings_of_reachedElems (depth : ℕ) : ∀ {elems s},
    s ∈ reachedElems enter depth elems → s ∈ stringsElems elems
  | [], _, h => absurd h not_mem_nil
  | v :: rest, s, h => by
    rw [reachedElems] at h
    rw [stringsElems]
    rcases mem_append.mp h with h | h
    · exact mem_append_left _ (mem_strings_of_reached depth h)
    · exact mem_append_right _ (mem_strings_of_reachedElems depth h)

lemma mem_strings_of_reachedFields (depth : ℕ) : ∀ {fields s},
    s ∈ reachedFields enter depth fields → s ∈ stringsFields fields
  | [], _, h => absurd h not_mem_nil
  | (k, v) :: rest, s, h => by
    rw [reachedFields] at h
    rw [stringsFields]
    refine mem_cons_of_mem k ?_
    rcases mem_append.mp h with h | h
    · exact mem_append_left _ (mem_strings_of_reached depth h)
    · exact mem_append_right _ (mem_strings_of_reachedFields depth h)

end

/-- A member with the same key comes later, after a change `g` of the strings. -/
def repeated (g : RawString → RawString) (key : RawString)
    (rest : List ((Ws × RawString × Ws) × Ws × RawJson × Ws)) : Bool :=
  rest.any fun member => decode (g member.1.2.1) == decode (g key)

mutual

/-- The strings that are reached after a change `g` of the strings, as they were before. -/
def RawJson.reached (g : RawString → RawString) (depth : ℕ) : RawJson → List RawString
  | .str s => [s]
  | .arr _ items => if enter depth items.length then itemsReached g (depth + 1) items else []
  | .obj _ members => membersReached g (depth + 1) members
  | _ => []

def itemsReached (g : RawString → RawString) (depth : ℕ) : List (Ws × RawJson × Ws) → List RawString
  | [] => []
  | (_, item, _) :: rest => item.reached g depth ++ itemsReached g depth rest

def membersReached (g : RawString → RawString) (depth : ℕ) :
    List ((Ws × RawString × Ws) × Ws × RawJson × Ws) → List RawString
  | [] => []
  | ((_, key, _), _, item, _) :: rest =>
    if repeated g key rest then membersReached g depth rest else item.reached g depth ++
      membersReached g depth rest

end

mutual

def RawJson.strings (g : RawString → RawString) : RawJson → List RawString
  | .str s => [s]
  | .arr _ items => itemsStrings g items
  | .obj _ members => membersStrings g members
  | _ => []

def itemsStrings (g : RawString → RawString) : List (Ws × RawJson × Ws) → List RawString
  | [] => []
  | (_, item, _) :: rest => item.strings g ++ itemsStrings g rest

def membersStrings (g : RawString → RawString) : List ((Ws × RawString × Ws) × Ws × RawJson × Ws) →
    List RawString
  | [] => []
  | ((_, key, _), _, item, _) :: rest =>
    if repeated g key rest then membersStrings g rest
      else key :: (item.strings g ++ membersStrings g rest)

end

variable {enter} {g : RawString → RawString}

lemma length_itemsValues_mapItems : ∀ items, (itemsValues (mapItems g items)).length = items.length
  | [] => rfl
  | _ :: rest => congrArg (· + 1) (length_itemsValues_mapItems rest)

lemma keys_mapMembers : ∀ members,
    (membersValues (mapMembers g members)).map Prod.fst = members.map fun member => String.ofList
    (decode (g member.1.2.1))
  | [] => rfl
  | _ :: rest => congrArg (cons _) (keys_mapMembers rest)

lemma repeated_iff {key rest} :
    String.ofList (decode (g key)) ∈ (membersValues (mapMembers g rest)).map Prod.fst ↔
    repeated g key rest = true := by
  rw [keys_mapMembers, mem_map]
  unfold repeated
  rw [any_eq_true]
  refine exists_congr fun member => and_congr_right fun _ => ?_
  rw [beq_iff_eq]
  exact ⟨fun h => String.ofList_injective h, fun h => congrArg _ h⟩

def after (g : RawString → RawString) (s : RawString) : String := String.ofList (decode (g s))

mutual

/-- **The strings that are reached in the value** are those that are reached in the text. -/
theorem reached_value (depth : ℕ) : ∀ t : RawJson,
    JsonText.reached enter depth (t.mapStrings g).value = (t.reached enter g depth).map (after g)
  | .null => rfl
  | .bool _ => rfl
  | .number _ => rfl
  | .str _ => rfl
  | .arr _ items => by
    rw [RawJson.mapStrings, RawJson.value, JsonText.reached, RawJson.reached,
      length_itemsValues_mapItems]
    split_ifs
    · exact reached_items (depth + 1) items
    · rfl
  | .obj _ members => reached_members (depth + 1) members

lemma reached_items (depth : ℕ) : ∀ items,
    reachedElems enter depth (itemsValues (mapItems g items)) =
    (itemsReached enter g depth items).map (after g)
  | [] => rfl
  | (_, item, _) :: rest => by
    rw [mapItems, itemsValues, reachedElems, itemsReached, map_append, reached_value depth item,
      reached_items depth rest]

lemma reached_members (depth : ℕ) : ∀ members,
    reachedFields enter depth (keepLast (membersValues (mapMembers g members))) =
      (membersReached enter g depth members).map (after g)
  | [] => rfl
  | ((_, key, _), _, item, _) :: rest => by
    rw [mapMembers, membersValues, keepLast, membersReached]
    by_cases h : repeated g key rest = true
    · rw [if_pos (repeated_iff.mpr h), if_pos h, reached_members depth rest]
    · rw [if_neg (mt repeated_iff.mp h), if_neg h, reachedFields, map_append,
        reached_value depth item, reached_members depth rest]

end

mutual

lemma strings_value : ∀ t : RawJson, JsonText.strings (t.mapStrings g).value = (t.strings g).map
    (after g)
  | .null => rfl
  | .bool _ => rfl
  | .number _ => rfl
  | .str _ => rfl
  | .arr _ items => strings_items items
  | .obj _ members => strings_members members

lemma strings_items : ∀ items,
    stringsElems (itemsValues (mapItems g items)) = (itemsStrings g items).map (after g)
  | [] => rfl
  | (_, item, _) :: rest => by
    rw [mapItems, itemsValues, stringsElems, itemsStrings, map_append, strings_value item,
      strings_items rest]

lemma strings_members : ∀ members,
    stringsFields (keepLast (membersValues (mapMembers g members))) = (membersStrings g members).map
    (after g)
  | [] => rfl
  | ((_, key, _), _, item, _) :: rest => by
    rw [mapMembers, membersValues, keepLast, membersStrings]
    by_cases h : repeated g key rest = true
    · rw [if_pos (repeated_iff.mpr h), if_pos h, strings_members rest]
    · rw [if_neg (mt repeated_iff.mp h), if_neg h, stringsFields, map_cons, map_append,
        strings_value item, strings_members rest]
      rfl

end

mutual

lemma quoted_infix_text (depth : ℕ) : ∀ {t : RawJson} {s : RawString}, s ∈ t.reached enter g depth →
    quoted s <:+: t.text
  | .str s', s, h => by
    cases mem_singleton.mp h
    exact infix_rfl
  | .arr ws items, s, h => by
    rw [RawJson.reached] at h
    split_ifs at h
    · have hitems := quoted_infix_items (depth + 1) h
      rw [RawJson.text]
      exact infix_cons (hitems.trans
        (infix_append_of_infix_left (infix_append_of_infix_right infix_rfl)))
    · exact absurd h not_mem_nil
  | .obj ws members, s, h => by
    have hmems := quoted_infix_members (depth + 1) h
    rw [RawJson.text]
    exact infix_cons (hmems.trans
      (infix_append_of_infix_left (infix_append_of_infix_right infix_rfl)))
  | .null, _, h => absurd h not_mem_nil
  | .bool _, _, h => absurd h not_mem_nil
  | .number _, _, h => absurd h not_mem_nil

lemma quoted_infix_items (depth : ℕ) : ∀ {items s},
    s ∈ itemsReached enter g depth items → quoted s <:+: itemsText items
  | [], _, h => absurd h not_mem_nil
  | (before, item, after) :: rest, s, h => by
    rw [itemsReached] at h
    rw [itemsText]
    refine infix_append_of_infix_right ?_
    rcases mem_append.mp h with h | h
    · exact infix_append_of_infix_left (quoted_infix_text depth h)
    · refine infix_append_of_infix_right
        (infix_append_of_infix_right (infix_append_of_infix_right ?_))
      exact quoted_infix_items depth h

lemma quoted_infix_members (depth : ℕ) : ∀ {members s},
    s ∈ membersReached enter g depth members → quoted s <:+: membersText members
  | [], _, h => absurd h not_mem_nil
  | ((before, key, colon), space, item, after) :: rest, s, h => by
    have hrest : s ∈ membersReached enter g depth rest → quoted s <:+: membersText rest :=
      quoted_infix_members depth
    have hitem : s ∈ item.reached enter g depth → quoted s <:+: item.text := quoted_infix_text depth
    rw [membersReached] at h
    rw [membersText]
    refine infix_append_of_infix_right
      (infix_append_of_infix_right (infix_append_of_infix_right ?_))
    refine infix_append_of_infix_right ?_
    have hlater : s ∈ membersReached enter g depth rest → quoted s <:+: item.text ++ (after.1 ++
        ((if rest.isEmpty = true then [] else [',']) ++ membersText rest)) := fun h =>
      infix_append_of_infix_right
        (infix_append_of_infix_right (infix_append_of_infix_right (hrest h)))
    split_ifs at h
    · exact hlater h
    · rcases mem_append.mp h with h | h
      · exact infix_append_of_infix_left (hitem h)
      · exact hlater h

end

end Strings

end Windmill.Lib.JsonText
