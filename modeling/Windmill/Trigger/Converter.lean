import Windmill.Lib.Bytes
import Windmill.Lib.Except
import Windmill.Lib.Records

/-! # Column values of a Postgres replication stream

`Converter` turns the text of a column into JSON, by the type of the column. The parsers of other
crates (numbers, dates, uuids, JSON) are the parameter `Parsers`. An array is read by a loop that
does not remember whether an element was quoted: the round trip of a text array is lost for the text
`null` alone. -/

namespace Windmill.Trigger.Converter

open Lib.Except Lib.Records List

abbrev Text := List Char

inductive ArrayParseError where
  | inputTooShort
  | missingBraces

inductive ByteaHexParseError where
  | invalidPrefix
  | oddNumerOfDigits
  | parseInt

inductive ConverterError where
  | invalidBool (input : Text)
  | invalidBytea (e : ByteaHexParseError)
  | invalidArray (e : ArrayParseError)
  | foreign (message : String)

/-- The scalar types that parsers of other crates read; a time stamp with `%#z` or with `%:z` for
its zone. -/
inductive Foreign where
  | int2 | int4 | int8 | oid | float4 | float8 | numeric | date | time | timestamp | uuid | json
  | timestamptz (colon : Bool)

inductive TextType where
  | char | bpchar | varchar | name | text

inductive Scalar where
  | bool
  | text (t : TextType)
  | bytea
  | timestamptz
  | foreign (f : Foreign)

/-- The types that are told apart; `other` are those that fall through to the last case. -/
inductive PgType where
  | scalar (s : Scalar)
  | array (s : Scalar)
  | other

/-- The parsers of other crates. They do not panic. -/
structure Parsers where
  read : Foreign → Text → Except String Json

abbrev Conv := Except (Fault ConverterError)

def Parsers.value (P : Parsers) (f : Foreign) (str : Text) : Conv Json :=
  match P.read f str with
  | .ok v => .ok v
  | .error e => .error (.err (.foreign e))

/-! ### Scalars -/

def parseBool (s : Text) : Conv Bool :=
  if s = ['t'] then .ok true
  else if s = ['f'] then .ok false
  else .error (.err (.invalidBool s))

def len (s : Text) : ℕ := (s.map Char.utf8Size).sum

def hexDigit (c : Char) : Option ℕ :=
  if c.isDigit then some (c.toNat - '0'.toNat)
  else if 'a' ≤ c ∧ c ≤ 'f' then some (c.toNat - 'a'.toNat + 10)
  else if 'A' ≤ c ∧ c ≤ 'F' then some (c.toNat - 'A'.toNat + 10)
  else none

/-- `u8::from_str_radix` of two characters: a sign may stand in front. -/
def fromStrRadix16 (c d : Char) : Option ℕ :=
  if c = '+' then hexDigit d
  else match hexDigit c, hexDigit d with
    | some high, some low => some (16 * high + low)
    | _, _ => none

/-- The loop over slices of two bytes: a character of two bytes is a slice that is no number, and a
slice that ends inside a character panics. -/
def hexPairs : Text → Conv (List ℕ)
  | [] => .ok []
  | [c] => .error (if c.utf8Size = 2 then .err (.invalidBytea .parseInt) else .panic)
  | c :: d :: rest =>
    if c.utf8Size = 2 then .error (.err (.invalidBytea .parseInt))
    else if c.utf8Size = 1 ∧ d.utf8Size = 1 then
      match fromStrRadix16 c d with
      | some val => do
        let result ← hexPairs rest
        .ok (val :: result)
      | none => .error (.err (.invalidBytea .parseInt))
    else .error .panic

/-- The prefix is a slice of two bytes as well. -/
def fromByteaHex (s : Text) : Conv (List ℕ) :=
  if len s < 2 then .error (.err (.invalidBytea .invalidPrefix))
  else match s with
    | '\\' :: 'x' :: rest => if len rest % 2 ≠ 0
        then .error (.err (.invalidBytea .oddNumerOfDigits)) else hexPairs rest
    | c :: d :: _ =>
      if c.utf8Size = 2 ∨ c.utf8Size = 1 ∧
        d.utf8Size = 1 then .error (.err (.invalidBytea .invalidPrefix))
      else .error .panic
    | _ => .error (if len s = 2 then .err (.invalidBytea .invalidPrefix) else .panic)

def fromText (s : Text) : Json := .str (String.ofList s)

def fromBytes (bytes : List ℕ) : Json := .arr (bytes.map fun b => .int b)

def scalarValue (P : Parsers) (s : Scalar) (str : Text) : Conv Json :=
  match s with
  | .bool => (parseBool str).map .bool
  | .text _ => .ok (fromText str)
  | .bytea => (fromByteaHex str).map fromBytes
  | .timestamptz => P.value (.timestamptz false) str
  | .foreign f => P.value f str

/-! ### Arrays -/

/-- Whether a text reads `null`. No character outside ASCII is an `n`, `u` or `l` in lower case. -/
def isNull (val : Text) : Bool := val.map Char.toLower == ['n', 'u', 'l', 'l']

def element (parse : Text → Conv Json) (valStr : Text) : Conv Json :=
  if isNull valStr then .ok .null else parse valStr

def arrayLoop (parse : Text → Conv Json) : Text → Text → Bool → Bool → Conv (List Json)
  | [], valStr, _, _ => do
    let val ← element parse valStr
    .ok [val]
  | c :: chars, valStr, inQuotes, inEscape =>
    if inEscape then arrayLoop parse chars (valStr ++ [c]) inQuotes false
    else if c = '\x22' then arrayLoop parse chars valStr (!inQuotes) false
    else if c = '\\' then arrayLoop parse chars valStr inQuotes true
    else if c = ',' ∧ inQuotes = false then do
      let val ← element parse valStr
      let res ← arrayLoop parse chars [] inQuotes false
      .ok (val :: res)
    else arrayLoop parse chars (valStr ++ [c]) inQuotes false

def parseArray (str : Text) (parse : Text → Conv Json) : Conv Json :=
  if len str < 2 then .error (.err (.invalidArray .inputTooShort))
  else if str.head? ≠ some '\x7b' ∨ str.getLast? ≠ some '\x7d'
    then .error (.err (.invalidArray .missingBraces))
  else if str.tail.dropLast = [] then .ok (.arr [])
  else (arrayLoop parse str.tail.dropLast [] false false).map .arr

/-- `try_from_str`: the value of a column's text. -/
def tryFromStr (P : Parsers) (typ : Option PgType) (str : Text) : Conv Json :=
  match typ.getD (.scalar (.text .text)) with
  | .scalar .timestamptz =>
    match P.read (.timestamptz false) str with
    | .ok v => .ok v
    | .error _ => P.value (.timestamptz true) str
  | .scalar s => scalarValue P s str
  | .array .timestamptz =>
    match parseArray str (scalarValue P .timestamptz) with
    | .ok v => .ok v
    | .error .panic => .error .panic
    | .error (.err _) => parseArray str (scalarValue P .timestamptz)
  | .array s => parseArray str (scalarValue P s)
  | .other => .ok (fromText str)

/-! ### The text of an array -/

def escape (c : Char) : Text := if c = '\x22' ∨ c = '\\' then ['\\', c] else [c]

section
variable (space : Char → Bool)

/-- The characters for which an element is quoted; `space` are those that count as white space. -/
def special (c : Char) : Bool := c ∈ ['\x7b', '\x7d', ',', '\x22', '\\'] || space c

def outElement : Option Text → Text
  | none => ['N', 'U', 'L', 'L']
  | some s => if s = [] ∨ isNull s ∨ s.any (special space)
      then '\x22' :: (s.flatMap escape ++ ['\x22']) else s

/-- What Postgres writes for an array of texts. -/
def out (l : List (Option Text)) : Text :=
  '\x7b' :: ([','].intercalate (l.map (outElement space)) ++ ['\x7d'])

end

variable {space : Char → Bool} {P : Parsers} {parse : Text → Conv Json}

lemma arrayLoop_escape (rest : Text) : ∀ s val,
    arrayLoop parse (s.flatMap escape ++ rest) val true false = arrayLoop parse rest
    (val ++ s) true false
  | [], val => by rw [flatMap_nil, nil_append, append_nil]
  | c :: s, val => by
    rw [flatMap_cons, append_cons val c s, ← arrayLoop_escape rest s (val ++ [c])]
    unfold escape
    split_ifs with hc
    · rcases hc with rfl | rfl <;> simp [arrayLoop]
    · rw [not_or] at hc
      simp [arrayLoop, hc]

lemma arrayLoop_plain (rest : Text) : ∀ s val, s.any (special space) = false →
    arrayLoop parse (s ++ rest) val false false = arrayLoop parse rest (val ++ s) false false
  | [], val, _ => by rw [nil_append, append_nil]
  | c :: s, val, h => by
    rw [any_cons, Bool.or_eq_false_iff] at h
    have hc : special space c = false := h.1
    simp only [special, mem_cons, not_mem_nil, or_false, Bool.or_eq_false_iff,
      decide_eq_false_iff_not, not_or] at hc
    rw [append_cons val c s, ← arrayLoop_plain rest s (val ++ [c]) h.2]
    simp [arrayLoop, hc]

/-- **Behind an element the loop has its characters**, and is neither in quotes nor behind a
backslash. -/
theorem arrayLoop_outElement (o : Option Text) (rest : Text) :
    arrayLoop parse (outElement space o ++ rest) [] false false
      = arrayLoop parse rest (o.getD ['N', 'U', 'L', 'L']) false false := by
  cases o with
  | none => simp [outElement, arrayLoop]
  | some s =>
    rw [outElement, Option.getD_some]
    split_ifs with hquo
    · have hopen : arrayLoop parse ('\x22' :: (s.flatMap escape ++ ['\x22']) ++ rest) [] false false
          = arrayLoop parse (s.flatMap escape ++ ('\x22' :: rest)) [] true false := by
            simp [arrayLoop]
      rw [hopen, arrayLoop_escape]
      simp [arrayLoop]
    · rw [not_or, not_or] at hquo
      rw [arrayLoop_plain rest s [] (Bool.not_eq_true _ ▸ hquo.2.2), nil_append]

def readBack (o : Option Text) : Json :=
  if isNull (o.getD ['N', 'U', 'L', 'L']) then .null else fromText (o.getD ['N', 'U', 'L', 'L'])

lemma element_text (val : Text) :
    element (fun s => .ok (fromText s)) val = .ok (if isNull val then .null else fromText val) := by
  unfold element
  split_ifs <;> rfl

lemma arrayLoop_out : ∀ o l,
    arrayLoop (fun s => .ok (fromText s)) ([','].intercalate ((o :: l).map (outElement space)))
    [] false false = .ok ((o :: l).map readBack)
  | o, [] => by
    rw [map_cons, map_nil, intercalate_singleton, ← append_nil (outElement space o),
      arrayLoop_outElement, arrayLoop, element_text]
    rfl
  | o, p :: l => by
    have ih := arrayLoop_out p l
    rw [map_cons, map_cons, intercalate_cons_cons, append_assoc, arrayLoop_outElement, ← map_cons]
    rw [singleton_append, arrayLoop, element_text, ih]
    rfl

lemma outElement_ne_nil (o : Option Text) : outElement space o ≠ [] := by
  cases o with
  | none => exact cons_ne_nil _ _
  | some s =>
    rw [outElement]
    split_ifs with hquo
    · exact cons_ne_nil _ _
    · exact fun hnil => hquo (.inl hnil)

lemma tryFromStr_out (t : TextType) (l : List (Option Text)) :
    tryFromStr P (some (.array (.text t))) (out space l) = .ok (.arr (l.map readBack)) := by
  have hlen : ¬ len (out space l) < 2 := by
    rw [out, len]
    simp [Char.utf8Size]
  have hlast : (out space l).getLast? = some '\x7d' := by rw [out, ← cons_append, getLast?_concat]
  have hends : ¬ ((out space l).head? ≠ some '\x7b' ∨ (out space l).getLast? ≠ some '\x7d') := by
    rintro (hhead | hnot)
    · exact hhead rfl
    · exact hnot hlast
  have hinner : (out space l).tail.dropLast = [','].intercalate (l.map (outElement space)) := by
    simp [out]
  change parseArray (out space l) (fun s => .ok (fromText s)) = _
  rw [parseArray, if_neg hlen, if_neg hends, hinner]
  cases l with
  | nil => rfl
  | cons o l =>
    rw [if_neg ?_, arrayLoop_out]
    · rfl
    · cases l with
      | nil => simpa [intercalate_singleton] using outElement_ne_nil o
      | cons p l => simp [intercalate_cons_cons, outElement_ne_nil]

def arrayJson (l : List (Option Text)) : Json := .arr (l.map fun o => (o.map fromText).getD .null)

lemma readBack_iff (o : Option Text) :
    readBack o = (o.map fromText).getD .null ↔ ∀ s, o = some s → isNull s = false := by
  cases o with
  | none => exact ⟨fun _ _ h => (nomatch h), fun _ => rfl⟩
  | some s =>
    unfold readBack
    cases hnull : isNull s with
    | true => simp [hnull, fromText]
    | false => simp [hnull]

/-- **A text array is read back exactly if none of its texts is `null` in some case.** -/
theorem text_array_iff (t : TextType) (l : List (Option Text)) :
    tryFromStr P (some (.array (.text t))) (out space l) = .ok (arrayJson l) ↔ ∀ s, some s ∈ l →
    isNull s = false := by
  rw [tryFromStr_out, arrayJson]
  have hmap : l.map readBack = l.map (fun o => (o.map fromText).getD .null) ↔
      ∀ o ∈ l, readBack o = (o.map fromText).getD .null := map_inj_left
  constructor
  · intro h s hs
    exact (readBack_iff (some s)).mp (hmap.mp (by injection h with h; injection h) _ hs) s rfl
  · intro h
    rw [hmap.mpr fun o ho => (readBack_iff o).mpr fun s hs => h s (hs ▸ ho)]

/-- The text `null` is written with quotes and read as the JSON null. -/
theorem quoted_null_lost :
    out Char.isWhitespace [some "null".toList] = "\x7b\x22null\x22\x7d".toList ∧
    tryFromStr ⟨fun _ _ => .error ""⟩ (some (.array (.text .text)))
    (out Char.isWhitespace [some "null".toList])
      = .ok (.arr [.null]) :=
  ⟨rfl, rfl⟩

end Windmill.Trigger.Converter
