import Windmill.Lib.JsonText

/-! # String literals of JavaScript

The characters of a literal as they are written, with their escapes, and what they mean. A literal
without escapes means what is written, any other one is shorter (`decode_eq_raw_or_lt`). -/

namespace Windmill.Lib.JsString

open List

open Lib.JsonText (isHex hexValue)

inductive Quote where
  | single
  | double
  deriving DecidableEq

def Quote.char : Quote → Char
  | .single => '\x27'
  | .double => '\x22'

def singleEscapes : List (Char × Char) :=
  [('b', '\x08'), ('t', '\t'), ('n', '\n'), ('v', '\x0b'), ('f', '\x0c'), ('r', '\r'),
    ('0', '\x00')]

def isLineEnd (c : Char) : Bool := c ∈ ['\n', '\r', '\u2028', '\u2029']

def hexNumber (digits : List Char) : ℕ := digits.foldl (fun n c => 16 * n + hexValue c) 0

/-- What stands behind a backslash, and what it means. -/
inductive Escape : List Char → List Char → Prop
  | single {e c : Char} (h : (e, c) ∈ singleEscapes) : Escape [e] [c]
  | other {c : Char} (h : c.isDigit = false ∧ c ∉ ['b', 't', 'n', 'v', 'f', 'r', 'x', 'u'] ∧
    isLineEnd c = false) : Escape [c] [c]
  | continuation {c : Char} (h : isLineEnd c = true) : Escape [c] []
  | crlf : Escape ['\r', '\n'] []
  | hex {digits : List Char} {c : Char} (hlen : digits.length = 2) (hhex : ∀ d ∈ digits,
    isHex d = true)
      (hc : c.toNat = hexNumber digits) : Escape ('x' :: digits) [c]
  | unicode {digits : List Char} {c : Char} (hlen : digits.length = 4) (hhex : ∀ d ∈ digits,
    isHex d = true)
      (hc : c.toNat = hexNumber digits) : Escape ('u' :: digits) [c]
  | pair {high low : List Char} {c : Char} (hhigh : high.length = 4 ∧ ∀ d ∈ high, isHex d = true)
      (hlow : low.length = 4 ∧ ∀ d ∈ low, isHex d = true)
      (hc : 0xd800 ≤ hexNumber high ∧ hexNumber high < 0xdc00 ∧ 0xdc00 ≤ hexNumber low ∧
        hexNumber low < 0xe000 ∧
        c.toNat = 0x10000 + 0x400 * (hexNumber high - 0xd800) + (hexNumber low - 0xdc00)) :
      Escape ('u' :: (high ++ '\\' :: 'u' :: low)) [c]
  | braces {digits : List Char} {c : Char} (hne : digits ≠ []) (hhex : ∀ d ∈ digits, isHex d = true)
      (hc : c.toNat = hexNumber digits) : Escape ('u' :: '{' :: (digits ++ ['}'])) [c]

def isPlain (q : Quote) (c : Char) : Bool := c != q.char && c != '\\' && c != '\n' && c != '\r'

inductive Piece (q : Quote) where
  | plain (c : Char) (h : isPlain q c = true)
  | escape (body meaning : List Char) (h : Escape body meaning)

variable {q : Quote}

def Piece.chars : Piece q → List Char
  | .plain c _ => [c]
  | .escape body _ _ => '\\' :: body

def Piece.meaning : Piece q → List Char
  | .plain c _ => [c]
  | .escape _ meaning _ => meaning

def raw (ps : List (Piece q)) : List Char := ps.flatMap Piece.chars

def decode (ps : List (Piece q)) : List Char := ps.flatMap Piece.meaning

def literal (ps : List (Piece q)) : List Char := q.char :: (raw ps ++ [q.char])

lemma Escape.length_le {body meaning} (h : Escape body meaning) : meaning.length ≤ body.length := by
  cases h <;> simp

lemma decode_eq_raw_or_lt (ps : List (Piece q)) :
    (decode ps = raw ps ∧ ∀ c ∈ raw ps, isPlain q c = true) ∨
    (decode ps).length < (raw ps).length := by
  induction ps with
  | nil => exact .inl ⟨rfl, forall_mem_nil _⟩
  | cons p ps ih =>
    unfold decode raw at ih ⊢
    rw [flatMap_cons, flatMap_cons]
    cases p with
    | plain c h =>
      rcases ih with ⟨heq, hplain⟩ | hlt
      · refine .inl ⟨congrArg (c :: ·) heq, fun d hd => ?_⟩
        rcases mem_cons.mp hd with rfl | hd
        · exact h
        · exact hplain d hd
      · simp only [Piece.meaning, Piece.chars, length_append]
        omega
    | escape body meaning h =>
      have hle := h.length_le
      have hrest : (ps.flatMap Piece.meaning).length ≤ (ps.flatMap Piece.chars).length := by
        rcases ih with ⟨heq, -⟩ | hlt
        · rw [heq]
        · exact hlt.le
      simp only [Piece.meaning, Piece.chars, length_append, length_cons]
      omega

def plainPieces (chars : List Char) (h : ∀ c ∈ chars, isPlain q c = true) : List (Piece q) :=
  chars.pmap Piece.plain h

lemma raw_plainPieces (chars : List Char) (h : ∀ c ∈ chars, isPlain q c = true) :
    raw (plainPieces chars h) = chars := by
  induction chars with
  | nil => rfl
  | cons c chars ih => exact congrArg (c :: ·) (ih fun d hd => h d (mem_cons_of_mem c hd))

lemma decode_plainPieces (chars : List Char) (h : ∀ c ∈ chars, isPlain q c = true) :
    decode (plainPieces chars h) = chars := by
  induction chars with
  | nil => rfl
  | cons c chars ih => exact congrArg (c :: ·) (ih fun d hd => h d (mem_cons_of_mem c hd))

end Windmill.Lib.JsString
