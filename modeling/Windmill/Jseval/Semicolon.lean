import Windmill.Sql.Signature

/-! # Statements and expressions

Code that is a single expression is given a `return` (`should_add_return_quickjs`,
`windmill-jseval/src/lib.rs`); it is taken for statements if it has a semicolon outside of its
literals. The scanner takes a quote for escaped when a backslash stands before it, also if that
backslash is itself escaped. -/

namespace Windmill.Jseval.Semicolon

open List
open Sql.Signature (trim)

abbrev Text := List Char

/-! ### The code -/

structure Scan where
  inSingleQuote : Bool := false
  inDoubleQuote : Bool := false
  inTemplate : Bool := false
  prevChar : Char := '\x00'

def scan (s : Scan) : Text → Bool
  | [] => false
  | ch :: rest =>
    if ch = '\x27' ∧ s.prevChar ≠ '\\' ∧ !s.inDoubleQuote ∧ !s.inTemplate then
      scan { s with inSingleQuote := !s.inSingleQuote, prevChar := ch } rest
    else if ch = '\x22' ∧ s.prevChar ≠ '\\' ∧ !s.inSingleQuote ∧ !s.inTemplate then
      scan { s with inDoubleQuote := !s.inDoubleQuote, prevChar := ch } rest
    else if ch = '\x60' ∧ s.prevChar ≠ '\\' ∧ !s.inSingleQuote ∧ !s.inDoubleQuote then
      scan { s with inTemplate := !s.inTemplate, prevChar := ch } rest
    else if ch = ';' ∧ !s.inSingleQuote ∧ !s.inDoubleQuote ∧ !s.inTemplate then true
    else scan { s with prevChar := ch } rest

def containsSemicolonOutsideStrings (expr : Text) : Bool := scan {} expr

def statementPrefixes : List String :=
  ["const ", "let ", "var ", "if ", "if(", "for ", "for(", "while ", "while(", "switch ", "switch(",
    "try ", "try\x7b", "throw ", "function ", "class ", "async ", "await "]

def startsStatement (trimmed : Text) : Bool :=
  "return ".toList.isPrefixOf trimmed || "return;".toList.isPrefixOf trimmed ||
    trimmed == "return".toList || statementPrefixes.any fun word => word.toList.isPrefixOf trimmed

def shouldAddReturnQuickjs (expr : Text) : Bool :=
  if (trim expr).isEmpty then true
  else if startsStatement (trim expr) then false
  else !containsSemicolonOutsideStrings (trim expr)

/-! ### Expressions -/

inductive Quote where
  | single
  | double
  | template
  deriving DecidableEq

def Quote.char : Quote → Char
  | .single => '\x27'
  | .double => '\x22'
  | .template => '\x60'

/-- A character of a literal. -/
inductive LitChar (q : Quote) where
  | plain (c : Char) (h : c ≠ q.char ∧ c ≠ '\\')
  | escaped (c : Char)

def LitChar.text {q : Quote} : LitChar q → Text
  | .plain c _ => [c]
  | .escaped c => ['\\', c]

structure Literal where
  quote : Quote
  body : List (LitChar quote)

def Literal.inner (l : Literal) : Text := l.body.flatMap LitChar.text

/-- What stands outside of literals. A backslash begins an escape of an identifier, so none is
before a quote. -/
def Code : Type := { t : Text // (∀ q : Quote, q.char ∉ t) ∧ t.getLast? ≠ some '\\' }

/-- An expression, with its literals. -/
inductive Expr where
  | code (t : Code)
  | literal (t : Code) (l : Literal) (rest : Expr)

def Expr.text : Expr → Text
  | .code t => t.1
  | .literal t l rest => t.1 ++ l.quote.char :: (l.inner ++ l.quote.char :: rest.text)

/-- The expression has a semicolon outside of its literals. -/
def Expr.HasSemicolon : Expr → Prop
  | .code t => ';' ∈ t.1
  | .literal t _ rest => ';' ∈ t.1 ∨ rest.HasSemicolon

/-- The semicolons of the expression are found, and it is taken for statements only for such a
semicolon or for its first word. -/
structure Detected (e : Expr) : Prop where
  semicolon : containsSemicolonOutsideStrings e.text = true ↔ e.HasSemicolon
  expression : ∀ expr, trim expr = e.text → ¬e.HasSemicolon →
    shouldAddReturnQuickjs expr = !startsStatement e.text

/-- The body ends in an escaped backslash. -/
def Literal.EndsEscaped (l : Literal) : Prop := l.inner.getLast? = some '\\'

instance (l : Literal) : Decidable l.EndsEscaped := inferInstanceAs (Decidable (_ = _))

/-- Before the first semicolon outside of literals no literal ends in an escaped backslash. -/
def Expr.Safe : Expr → Prop
  | .code _ => True
  | .literal t l rest => ';' ∈ t.1 ∨ ¬l.EndsEscaped ∧ rest.Safe

/-- The expression with something else after its first literal that ends in an escaped backslash. -/
def Expr.cut : Expr → Expr → Expr
  | .code t, _ => .code t
  | .literal t l rest, tail => .literal t l (if l.EndsEscaped then tail else rest.cut tail)

/-! ### The scanner -/

def outside (prev : Char) : Scan := { prevChar := prev }

def inside (prev : Char) : Quote → Scan
  | .single => { inSingleQuote := true, prevChar := prev }
  | .double => { inDoubleQuote := true, prevChar := prev }
  | .template => { inTemplate := true, prevChar := prev }

variable {prev c : Char} {rest : Text} {q : Quote}

lemma scan_quote (h : prev ≠ '\\') : scan (outside prev) (q.char :: rest) = scan
    (inside q.char q) rest := by
  cases q <;> simp [scan, outside, inside, Quote.char, h]

lemma scan_code (h : ∀ q : Quote, c ≠ q.char) (hsemi : c ≠ ';') :
    scan (outside prev) (c :: rest) = scan (outside c) rest := by
  have h₁ : c ≠ '\x27' := h .single
  have h₂ : c ≠ '\x22' := h .double
  have h₃ : c ≠ '\x60' := h .template
  simp [scan, outside, h₁, h₂, h₃, hsemi]

lemma scan_inside (h : c = q.char → prev = '\\') : scan (inside prev q) (c :: rest) = scan
    (inside c q) rest := by
  by_cases hc : c = q.char
  · cases q <;> simp [scan, inside, h hc]
  · cases q <;> simp_all [scan, inside, Quote.char]

lemma scan_close (h : prev ≠ '\\') : scan (inside prev q) (q.char :: rest) = scan
    (outside q.char) rest := by
  cases q <;> simp [scan, outside, inside, Quote.char, h]

lemma quote_char_ne (q : Quote) : q.char ≠ '\\' := by
  cases q <;> decide

lemma scan_body (rest : Text) : ∀ (body : List (LitChar q)) (prev : Char),
    scan (inside prev q) (body.flatMap LitChar.text ++ rest) =
      scan (inside ((body.flatMap LitChar.text).getLast?.getD prev) q) rest
  | [], _ => rfl
  | .plain c h :: body, prev => by
    refine (scan_inside fun hc => absurd hc h.1).trans ((scan_body rest body c).trans ?_)
    rw [flatMap_cons, LitChar.text, singleton_append, getLast?_cons, Option.getD_some]
  | .escaped c :: body, prev => by
    refine (scan_inside fun hc => absurd hc.symm (quote_char_ne q)).trans ?_
    refine (scan_inside fun _ => rfl).trans ((scan_body rest body c).trans ?_)
    rw [flatMap_cons, LitChar.text, cons_append, singleton_append, getLast?_cons, getLast?_cons,
      Option.getD_some, Option.getD_some]

/-- A backslash at the end of a literal escapes its quote, for the scanner. -/
lemma scan_literal (l : Literal) (rest : Text) (h : prev ≠ '\\') :
    scan (outside prev) (l.quote.char :: (l.inner ++ l.quote.char :: rest)) =
      if l.EndsEscaped then scan (inside l.quote.char l.quote) rest
      else scan (outside l.quote.char) rest := by
  rw [scan_quote h, Literal.inner, scan_body]
  split_ifs with hlast
  · rw [show (l.body.flatMap LitChar.text).getLast? = some '\\' from hlast]
    exact scan_inside fun _ => rfl
  refine scan_close fun heq => ?_
  cases hinner : (l.body.flatMap LitChar.text).getLast? with
  | none =>
    rw [hinner] at heq
    exact quote_char_ne l.quote heq
  | some c =>
    rw [hinner] at heq
    exact hlast (hinner.trans (congrArg some heq))

lemma scan_text (rest : Text) : ∀ {t : Text} (prev : Char), (∀ q : Quote, q.char ∉ t) →
    scan (outside prev) (t ++ rest) = if ';' ∈ t then true else scan
    (outside (t.getLast?.getD prev)) rest
  | [], _, _ => rfl
  | c :: t, prev, h => by
    by_cases hc : c = ';'
    · subst hc
      rw [if_pos mem_cons_self]
      simp [scan, outside]
    · have hcode : scan (outside prev) (c :: (t ++ rest)) = scan (outside c) (t ++ rest) :=
        scan_code (fun q heq => h q (heq ▸ mem_cons_self)) hc
      rw [cons_append, hcode, scan_text rest c fun q hq => h q (mem_cons_of_mem c hq),
        getLast?_cons, Option.getD_some]
      simp only [mem_cons, Ne.symm hc, false_or]

lemma getD_getLast?_ne (t : Code) (h : prev ≠ '\\') : t.1.getLast?.getD prev ≠ '\\' := by
  have ht := t.2.2
  cases hlast : t.1.getLast? with
  | none => exact h
  | some c =>
    rw [hlast] at ht
    exact fun heq => ht (congrArg some heq)

lemma scan_expr : ∀ {e : Expr} {prev : Char}, prev ≠ '\\' → e.Safe →
    (scan (outside prev) e.text = true ↔ e.HasSemicolon)
  | .code t, prev, _, _ => by
    have hscan := scan_text [] prev t.2.1
    rw [append_nil] at hscan
    rw [Expr.text, hscan]
    split_ifs with hsemi
    · exact iff_of_true rfl hsemi
    · exact iff_of_false Bool.false_ne_true hsemi
  | .literal t l rest, prev, hprev, h => by
    rw [Expr.text, scan_text _ prev t.2.1, Expr.HasSemicolon]
    split_ifs with hsemi
    · exact iff_of_true rfl (.inl hsemi)
    · obtain ⟨hl, hrest⟩ := h.resolve_left hsemi
      rw [scan_literal l _ (getD_getLast?_ne t hprev), if_neg hl,
        scan_expr (quote_char_ne l.quote) hrest]
      exact (or_iff_right hsemi).symm

/-! ### The theorem -/

def noCode : Code := ⟨[], by simp⟩

def semicolon : Code := ⟨[';'], fun q => by cases q <;> decide, by decide⟩

lemma scan_cut : ∀ {e : Expr} {prev : Char}, prev ≠ '\\' → ¬e.Safe →
    scan (outside prev) (e.cut (.code semicolon)).text = false ∧
      (e.cut (.code semicolon)).HasSemicolon
  | .code _, _, _, h => absurd trivial h
  | .literal t l rest, prev, hprev, h => by
    obtain ⟨hsemi, hrest⟩ := not_or.mp h
    rw [Expr.cut, Expr.text, scan_text _ prev t.2.1, if_neg hsemi,
      scan_literal l _ (getD_getLast?_ne t hprev), Expr.HasSemicolon]
    split_ifs with hl
    · -- for the scanner the semicolon stands in the literal
      refine ⟨?_, .inr (mem_singleton_self _)⟩
      exact scan_inside fun heq => absurd heq (by cases l.quote <;> decide)
    · obtain ⟨hscan, hhas⟩ := scan_cut (quote_char_ne l.quote) fun hs => hrest ⟨hl, hs⟩
      exact ⟨hscan, .inr hhas⟩

/-- **The semicolons of an expression are found if no literal before the first of them ends in an
escaped backslash.** After such a literal the scanner takes code for a literal: a semicolon is
missed there. -/
theorem detects (e : Expr) : (e.Safe → Detected e) ∧
    (¬e.Safe → ¬Detected (e.cut (.code semicolon))) := by
  constructor
  · intro h
    have hsemi : containsSemicolonOutsideStrings e.text = true ↔ e.HasSemicolon :=
      scan_expr (by decide) h
    refine ⟨hsemi, fun expr htrim hno => ?_⟩
    have hnot : containsSemicolonOutsideStrings e.text = false :=
      Bool.eq_false_iff.mpr fun hfound => hno (hsemi.mp hfound)
    unfold shouldAddReturnQuickjs
    rw [htrim, hnot]
    split_ifs with hemp hstart
    · rw [isEmpty_iff.mp hemp]
      rfl
    · rw [hstart]
      rfl
    · rw [Bool.eq_false_iff.mpr hstart]
  · intro h hdet
    obtain ⟨hscan, hhas⟩ := scan_cut (show '\x00' ≠ '\\' by decide) h
    exact Bool.false_ne_true (hscan.symm.trans (hdet.semicolon.mpr hhas))

/-- The literal stands after the semicolon, where nothing is read any more. -/
theorem late_backslash_detected : ∃ e : Expr, e.text = "1; '\\\\'".toList ∧ Detected e :=
  ⟨.literal ⟨"1; ".toList, fun q => by cases q <;> decide, by decide⟩ ⟨.single, [.escaped '\\']⟩
    (.code noCode), by decide, (detects _).1 (.inl (by decide))⟩

/-- After a literal that ends in a backslash, code is taken for a literal and a literal for code. -/
theorem escaped_backslash_misread : ∃ e : Expr, e.text = "'\\\\' + ';'".toList ∧ ¬e.HasSemicolon ∧
    containsSemicolonOutsideStrings e.text = true ∧ shouldAddReturnQuickjs e.text = false := by
  refine ⟨.literal noCode ⟨.single, [.escaped '\\']⟩
    (.literal ⟨" + ".toList, fun q => by cases q <;> decide, by decide⟩
    ⟨.single, [.plain ';' (by decide)]⟩ (.code noCode)), by decide, ?_, by decide, by decide⟩
  rintro (h | h | h)
  · cases h
  · exact absurd h (by decide)
  · cases h

end Windmill.Jseval.Semicolon
