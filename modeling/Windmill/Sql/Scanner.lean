import Windmill.Lib.Bytes

/-! # Scanning SQL

`run_on_sql_statement_matches` (`windmill-parser-sql/src/lib.rs`) walks over the characters of a
text and keeps track of strings, comments and dollar quotes. Outside of these it asks `cond` about
each character and calls `case` where the answer is yes; both may look at the characters that
follow. Positions count characters. -/

namespace Windmill.Sql.Scanner

def singleQuote : Char := '\x27'

def doubleQuote : Char := '\x22'

inductive ParserState where
  | normal
  | inSingleQuote
  | inDoubleQuote
  | inSingleLineComment
  | inMultiLineComment
  /-- With the delimiter, both dollar signs included. -/
  | inDollarQuote (delim : List Char)
deriving DecidableEq

def delimiterRest : Bool → List Char → Option ℕ
  | _, [] => none
  | isFirst, b :: rest =>
    if b = '$' then some 1
    else if (if isFirst then b.isAlpha else b.isAlphanum) ||
      b == '_' then (delimiterRest false rest).map (· + 1)
    else none

def parseDollarQuoteDelimiter : List Char → Option ℕ
  | '$' :: rest => (delimiterRest true rest).map (· + 1)
  | _ => none

structure Matcher (σ : Type) where
  cond : Char → List Char → Bool
  /-- With the position and the characters that follow; the number is that of the characters it
  consumes. -/
  case : ℕ → List Char → σ → σ × ℕ

variable {σ : Type} {digits : List Char}

def quoteStep (quote char : Char) (rest : List Char) (inside : ParserState) (acc : σ) :
    ParserState × ℕ × σ :=
  if char = quote then
    if rest.head? = some quote then (inside, 1, acc) else (.normal, 0, acc)
  else (inside, 0, acc)

/-- One turn of the loop, with the number of further characters that it consumes. -/
def step (trackDollarQuotes : Bool) (M : Matcher σ) (state : ParserState) (idx : ℕ) (char : Char)
    (rest : List Char) (acc : σ) : ParserState × ℕ × σ :=
  match state with
  | .normal =>
    if char = singleQuote then (.inSingleQuote, 0, acc)
    else if char = doubleQuote then (.inDoubleQuote, 0, acc)
    else if char = '-' ∧ rest.head? = some '-' then (.inSingleLineComment, 0, acc)
    else if char = '/' ∧ rest.head? = some '*' then (.inMultiLineComment, 0, acc)
    else
      match if trackDollarQuotes then parseDollarQuoteDelimiter (char :: rest) else none with
      | some len => (.inDollarQuote ((char :: rest).take len), len - 1, acc)
      | none =>
        if M.cond char rest then
          let (acc, consumed) := M.case idx rest acc
          (.normal, consumed, acc)
        else (.normal, 0, acc)
  | .inSingleQuote => quoteStep singleQuote char rest state acc
  | .inDoubleQuote => quoteStep doubleQuote char rest state acc
  | .inSingleLineComment => (if char = '\n' then .normal else state, 0, acc)
  | .inMultiLineComment => (if char = '*' ∧ rest.head? = some '/' then .normal else state, 0, acc)
  | .inDollarQuote delim =>
    if char = '$' ∧ delim.isPrefixOf (char :: rest) then (.normal, delim.length - 1, acc)
      else (state, 0, acc)

/-- `run_on_sql_statement_matches` from a position on. -/
def run (trackDollarQuotes : Bool) (M : Matcher σ) : List Char → ℕ → ℕ → ParserState → σ → σ
  | [], _, _, _, acc => acc
  | _ :: rest, idx, skip + 1, state, acc => run trackDollarQuotes M rest (idx + 1) skip state acc
  | char :: rest, idx, 0, state, acc =>
    let (state, skip, acc) := step trackDollarQuotes M state idx char rest acc
    run trackDollarQuotes M rest (idx + 1) skip state acc

variable (code : List Char)

def runOnSqlStatementMatches (trackDollarQuotes : Bool) (M : Matcher σ) (acc : σ) : σ :=
  run trackDollarQuotes M code 0 0 .normal acc

/-! ### Blocks -/

def isSpace (c : Char) : Bool :=
  (9 ≤ c.toNat && c.toNat ≤ 13) || c.toNat == 0x20 || c.toNat == 0x85 || c.toNat == 0xa0 ||
    c.toNat == 0x1680 ||
    (0x2000 ≤ c.toNat && c.toNat ≤ 0x200a) || c.toNat == 0x2028 || c.toNat == 0x2029 ||
    c.toNat == 0x202f ||
    c.toNat == 0x205f || c.toNat == 0x3000

def lines : List Char → List (List Char)
  | [] => [[]]
  | c :: rest =>
    if c = '\n' then [] :: lines rest
    else match lines rest with
      | [] => [[c]]
      | line :: others => (c :: line) :: others

def startsStatement (line : List Char) : Bool :=
  match line.dropWhile isSpace with
  | [] => false
  | _ :: rest => rest.head? != some '-'

def nonemptySqlBlock (block : List Char) : Bool := (lines block).any startsStatement

def slice (start stop : ℕ) : List Char := (code.take stop).drop start

def blockMatcher : Matcher (List (List Char) × ℕ) where
  cond char _ := char == ';'
  case idx _ acc := ((acc.1 ++ [slice code acc.2 (idx + 1)], idx + 1), 0)

def parseSqlBlocks (trackDollarQuotes : Bool) : List (List Char) :=
  let (blocks, lastIdx) := runOnSqlStatementMatches code trackDollarQuotes
    (blockMatcher code) ([], 0)
  if lastIdx < code.length ∧ nonemptySqlBlock (code.drop lastIdx) then blocks ++ [code.drop lastIdx]
    else blocks

/-! ### Placeholders -/

def parseI32 (digits : List Char) : Option ℕ :=
  if digits ≠ [] ∧ digits.all Char.isDigit ∧ Nat.ofDigitChars 10 digits 0 ≤ 2147483647 then
    some (Nat.ofDigitChars 10 digits 0)
  else none

lemma parseI32_le {k : ℕ} (h : parseI32 digits = some k) : k ≤ 2147483647 := by
  unfold parseI32 at h
  split_ifs at h with hdig
  cases h
  exact hdig.2.2

lemma isDigit_of_parseI32 {k : ℕ} (h : parseI32 digits = some k) :
    ∀ c ∈ digits, c.isDigit = true := by
  unfold parseI32 at h
  split_ifs at h with hdig
  exact List.all_eq_true.mp hdig.2.1

def indexMatcher : Matcher (List ℕ) where
  cond char rest := char == '$' && rest.head?.any Char.isDigit
  case _ rest acc :=
    ((match parseI32 (rest.takeWhile Char.isDigit) with
      | some i => acc.insert i
      | none => acc), (rest.takeWhile Char.isDigit).length)

def parsePgStatementArgIndices : List ℕ := runOnSqlStatementMatches code true indexMatcher []

end Windmill.Sql.Scanner
