import Windmill.Sql.Scanner
import Mathlib.Data.List.Sort

/-! # The signature of a PostgreSQL script

`parse_pg_file` (`windmill-parser-sql/src/lib.rs`) reads the arguments of a script from its text:
those that a comment declares with a type (`RE_ARG_PGSQL`), then those that are only used
(`RE_CODE_PGSQL`), with names and defaults from the comments. What the expressions and `str` take
from the Unicode tables is in `Tables`. -/

namespace Windmill.Sql.Signature

open Scanner

/-- What the parser takes from the standard library and the Unicode tables. -/
structure Tables (F : Type) where
  decimal : Char → Bool
  word : Char → Bool
  lowercase : List Char → List Char
  parseF64 : List Char → Option F
  /-- The names, types and defaults that `RE_ARG_SQL_INTERPOLATION` captures. -/
  interpolations : List Char → List (List Char × Option (List Char) × Option (List Char))
  decimal_ascii : ∀ c, c.toNat < 128 → decimal c = c.isDigit
  word_ascii : ∀ c, c.toNat < 128 → word c = (c.isAlphanum || c == '_')

inductive Typ where
  | str (variants : Option (List (List Char)))
  | int
  | float
  | bool
  | list (typ : Typ)
  | bytes
  | datetime
  | object

inductive Value (F : Type) where
  | int (n : ℤ)
  | float (x : F)
  | bool (b : Bool)
  | string (text : List Char)

structure Arg (F : Type) where
  name : List Char
  otyp : Option (List Char)
  typ : Typ
  default : Option (Value F)
  hasDefault : Bool
  oidx : Option ℕ

inductive Failure where
  | error (text : String)
  | panic

/-! ### Types and defaults -/

def baseTyp (typ : String) : Typ :=
  if typ ∈ ["varchar", "character varying", "text"] then .str none
  else if typ ∈ ["int", "integer", "int4", "bigint"] then .int
  else if typ ∈ ["bool", "boolean"] then .bool
  else if typ ∈ ["char", "character"] then .str none
  else if typ ∈ ["json", "jsonb"] then .object
  else if typ ∈ ["smallint", "int2", "smallserial", "serial2", "serial", "serial4", "bigserial",
    "serial8"] then .int
  else if typ ∈ ["real", "float4", "double", "double precision", "float8", "numeric", "decimal"]
    then .float
  else if typ = "oid" then .int
  else if typ ∈ ["date", "time", "timetz", "time with time zone", "time without time zone",
    "timestamp", "timestamptz",
    "timestamp with time zone", "timestamp without time zone"] then .datetime
  else if typ = "bytea" then .bytes
  else .str none

def parsePgTypReversed : List Char → Typ
  | ']' :: '[' :: base => .list (parsePgTypReversed base)
  | reversed => baseTyp (String.ofList reversed.reverse)

def parsePgTyp (typ : List Char) : Typ := parsePgTypReversed typ.reverse

variable (text : List Char)

def parseI64 : Option ℤ :=
  let (negative, digits) := match text with
    | '-' :: digits => (true, digits)
    | '+' :: digits => (false, digits)
    | digits => (false, digits)
  let n := Nat.ofDigitChars 10 digits 0
  if digits = [] ∨ ¬digits.all Char.isDigit then none
  else if negative then if n ≤ 2 ^ 63 then some (-n) else none
  else if n < 2 ^ 63 then some n else none

def parseBool : Option Bool :=
  if text = "true".toList then some true else if text = "false".toList then some false else none

variable {F : Type}

variable (T : Tables F)

def parsedDefault (parsedTyp : Typ) (default : List Char) : Option (Value F) :=
  if T.lowercase default = "null".toList then none
  else
    match parsedTyp with
    | .int => (parseI64 default).map .int
    | .float => (T.parseF64 default).map .float
    | .bool => (parseBool default).map .bool
    | .str _ =>
      if 2 ≤ default.length ∧ default.head? = some singleQuote ∧ default.getLast? =
        some singleQuote then
        some (.string default.tail.dropLast)
      else some (.string default)
    | _ => some (.string default)

/-! ### Declarations -/

structure Declaration where
  digits : List Char
  name : List Char
  typ : Option (List Char)
  default : Option (List Char)

def isTypeChar (c : Char) : Bool := c.isAlphanum || c == '_' || c == '[' || c == ']'

variable (rest : List Char)

def declaredTyp : Option (List Char) × List Char :=
  match rest with
  | ' ' :: '(' :: inside =>
    match inside.takeWhile isTypeChar, inside.dropWhile isTypeChar with
    | c :: typ, ')' :: after => (some (c :: typ), after)
    | _, _ => (none, rest)
  | _ => (none, rest)

def declaredDefault : Option (List Char) :=
  match (if rest.head? = some ' ' then rest.tail else rest) with
  | '=' :: ' ' :: c :: default => some (c :: default)
  | '=' :: c :: default => some (c :: default)
  | _ => none

def lineEnds : Bool :=
  match rest.dropWhile (· == ' ') with
  | [] => true
  | c :: _ => c == '\r'

def declaration : List Char → Option Declaration
  | '-' :: '-' :: ' ' :: '$' :: rest =>
    match rest.takeWhile T.decimal, rest.dropWhile T.decimal with
    | d :: digits, ' ' :: rest =>
      match rest.takeWhile T.word, declaredTyp (rest.dropWhile T.word) with
      | [], _ => none
      | c :: name, (typ, rest) =>
        match declaredDefault rest with
        | some default => some ⟨d :: digits, c :: name, typ, some default⟩
        | none => if lineEnds rest then some ⟨d :: digits, c :: name, typ, none⟩ else none
    | _, _ => none
  | _ => none

def declarations (code : List Char) : List Declaration := (lines code).filterMap (declaration T)

/-! ### Uses -/

structure Usage where
  digits : List Char
  typ : Option (List Char × List Char)
  length : ℕ

def usage : Usage :=
  let digits := rest.takeWhile T.decimal
  match rest.dropWhile T.decimal with
  | ':' :: ':' :: typed =>
    let name := typed.takeWhile T.word
    if name = [] then ⟨digits, none, digits.length⟩
    else
      let brackets := if ['[', ']'].isPrefixOf (typed.dropWhile T.word) then ['[', ']'] else []
      ⟨digits, some (name ++ brackets, typed), digits.length + (2 + (name ++ brackets).length)⟩
  | _ => ⟨digits, none, digits.length⟩

/-- `RE_CODE_PGSQL.captures_iter`, after `skip` characters of a match. -/
def usages (T : Tables F) : List Char → ℕ → List Usage
  | [], _ => []
  | _ :: rest, skip + 1 => usages T rest skip
  | c :: rest, 0 =>
    if c = '$' ∧ rest.head?.any T.decimal then usage T rest :: usages T rest (usage T rest).length
    else usages T rest 0

def longTypes : List (String × String) :=
  [("character varying", "varchar"), ("double precision", "double"),
    ("time with time zone", "timetz"),
    ("time without time zone", "time"), ("timestamp with time zone", "timestamptz"),
    ("timestamp without time zone", "timestamp")]

def splitBytes : List Char → ℕ → Option (List Char × List Char)
  | text, 0 => some ([], text)
  | [], _ + 1 => none
  | c :: text, n + 1 =>
    if c.utf8Size ≤ n + 1 then (splitBytes text (n + 1 - c.utf8Size)).map fun r => (c :: r.1, r.2)
      else none

def byteLength : ℕ := (text.map Char.utf8Size).sum

lemma byteLength_append (text text' : List Char) :
    byteLength (text ++ text') = byteLength text + byteLength text' := by
  simp [byteLength]

lemma byteLength_of_ascii {text} (h : ∀ c ∈ text, c.utf8Size = 1) :
    byteLength text = text.length := by
  have hone : ∀ n ∈ text.map Char.utf8Size, n = 1 := by
    intro n hn
    obtain ⟨c, hc, rfl⟩ := List.mem_map.mp hn
    exact h c hc
  rw [byteLength, List.sum_eq_card_nsmul _ 1 hone, List.length_map, nsmul_one, Nat.cast_id]

lemma splitBytes_append (b : List Char) : ∀ a, splitBytes (a ++ b) (byteLength a) = some (a, b)
  | [] => by cases b <;> rfl
  | c :: a => by
    obtain ⟨n, hn⟩ : ∃ n, byteLength (c :: a) = n + 1 := Nat.exists_eq_succ_of_ne_zero (by
      have hpos := Char.utf8Size_pos c
      simp only [byteLength, List.map_cons, List.sum_cons]
      omega)
    have hsum : byteLength (c :: a) = c.utf8Size + byteLength a := rfl
    have hle : c.utf8Size ≤ n + 1 := by omega
    have hrest : n + 1 - c.utf8Size = byteLength a := by omega
    rw [hn, List.cons_append, splitBytes, if_pos hle, hrest, splitBytes_append b a]
    rfl

def startsWithTokens : List (List Char) → List Char → Except Failure Bool
  | [], _ => .ok true
  | token :: tokens, typ =>
    if byteLength typ < token.length then .ok false
    else
      match splitBytes typ token.length with
      | none => .error .panic
      | some (start, rest) =>
        if start.map Char.toLower = token.map Char.toLower then startsWithTokens tokens
          (rest.dropWhile isSpace)
        else .ok false

def findLongType (cap typ : List Char) : List (String × String) → Except Failure (List Char)
  | [] => .ok cap
  | (longType, short) :: types => do
    if ← startsWithTokens (longType.toList.splitOn ' ') typ then .ok short.toList
      else findLongType cap typ types

def transformTypesWithSpaces (cap typ : List Char) : Except Failure (List Char) :=
  findLongType cap typ longTypes

def usedTyp (cap : Usage) : Except Failure (List Char) :=
  match cap.typ with
  | some (typ, rest) => transformTypesWithSpaces typ rest
  | none => .ok "text".toList

/-! ### Arguments -/

def argDigit (digits : List Char) : Except Failure ℕ :=
  match parseI32 digits with
  | some idx => .ok idx
  | none => .error (.error "Impossible to parse arg digit")

def typedArg (idx : ℕ) (cap : Declaration) (typ : List Char) : Arg F where
  name := cap.name
  typ := parsePgTyp typ
  default := cap.default.bind (parsedDefault T (parsePgTyp typ))
  otyp := some typ
  hasDefault := cap.default.isSome
  oidx := some idx

def typedArgs (T : Tables F) : List Declaration → Except Failure (List (Arg F))
  | [] => .ok []
  | cap :: caps => do
    let idx ← argDigit cap.digits
    let args ← typedArgs T caps
    match cap.typ with
    | some typ => .ok (typedArg T idx cap (T.lowercase typ) :: args)
    | none => .ok args

def inferredTypes (explicitlyTyped : List ℕ) : List Usage → List (ℕ × List Char) → Except Failure
    (List (ℕ × List Char))
  | [], hm => .ok hm
  | cap :: caps, hm => do
    let idx ← argDigit cap.digits
    if idx ∈ explicitlyTyped then inferredTypes explicitlyTyped caps hm
    else
      let typ ← usedTyp cap
      inferredTypes explicitlyTyped caps (hm.filter (·.1 != idx) ++ [(idx, typ)])

def inferredArg (entry : ℕ × List Char) : Arg F where
  name := '$' :: Nat.toDigits 10 entry.1
  typ := parsePgTyp (T.lowercase entry.2)
  default := none
  otyp := some (T.lowercase entry.2)
  hasDefault := false
  oidx := some entry.1

def sortArgs (args : List (Arg F)) : List (Arg F) :=
  args.insertionSort fun a b => a.oidx.getD 0 ≤ b.oidx.getD 0

def renameArg (explicitlyTyped : List ℕ) (args : List (Arg F)) (cap : Declaration) : List (Arg F) :=
  match parseI32 cap.digits with
  | none => args
  | some i =>
    if i ∈ explicitlyTyped then args
    else
      match args.findIdx? (·.oidx == some i) with
      | none => args
      | some argPos => args.modify argPos fun oarg =>
        { oarg with
          name := cap.name
          default := cap.default.bind (parsedDefault T oarg.typ)
          hasDefault := cap.default.isSome }

def trim : List Char := ((text.dropWhile isSpace).reverse.dropWhile isSpace).reverse

def parseUnsafeTyp : Option (List Char) → Typ × String
  | some s => (.str (some (((s.splitOn '/').map trim).filter (· ≠ []))), "__sanitized_enum__")
  | none => (.str none, "__sanitized_raw_string__")

def parseSqlSanitizedInterpolation (code : List Char) : List (Arg F) :=
  (T.interpolations code).map fun (name, typ, default) =>
    { name
      typ := (parseUnsafeTyp typ).1
      default := default.bind (parsedDefault T (parseUnsafeTyp typ).1)
      otyp := some (parseUnsafeTyp typ).2.toList
      hasDefault := default.isSome
      oidx := none }

/-- The arguments, and whether one of them has been declared with a type. -/
def parsePgFile (code : List Char) : Except Failure (List (Arg F) × Bool) := do
  let typed ← typedArgs T (declarations T code)
  let explicitlyTyped := typed.filterMap Arg.oidx
  let hm ← inferredTypes explicitlyTyped (usages T code 0) []
  let args := sortArgs (typed ++ hm.map (inferredArg T))
  let args := (declarations T code).foldl (renameArg T explicitlyTyped) args
  .ok (args ++ parseSqlSanitizedInterpolation T code, !explicitlyTyped.isEmpty)

end Windmill.Sql.Signature
