import Windmill.Sql.Scanner

/-! # The tokens of SQL

A reference lexer: `token` says how far a token extends that starts at a character; what is in no
token is at top level.

The scanner has no tokens but states. In each state it goes on as it would at top level after the
end of the token (`run_inSingleQuote` and the lemmas that follow), except for comments between `/*`
and `*/`: it may close one with the star that has opened it, and it reads the slash that closes one
as if it stood at top level. Where this makes no difference (`Clean`), it sees exactly what is at
top level (`run_eq_topRun`). -/

namespace Windmill.Sql.Reference

open Scanner Option List

inductive Kind where
  | quoted
  | comment
  | dollarBody
deriving DecidableEq

def quotedLength (quote : Char) : List Char → ℕ
  | [] => 0
  | [_] => 1
  | c :: c' :: rest =>
    if c = quote then if c' = quote then quotedLength quote rest + 2 else 1
    else quotedLength quote (c' :: rest) + 1

def lineLength : List Char → ℕ
  | [] => 0
  | c :: rest => if c = '\n' then 1 else lineLength rest + 1

def blockLength : List Char → ℕ
  | [] => 0
  | [_] => 1
  | c :: c' :: rest => if c = '*' ∧ c' = '/' then 2 else blockLength (c' :: rest) + 1

def bodyLength (delim : List Char) : List Char → ℕ
  | [] => 0
  | c :: rest => if delim.isPrefixOf (c :: rest) then delim.length else bodyLength delim rest + 1

def isTagChar (c : Char) : Bool := c.isAlphanum || c == '_'

def dollarTag (rest : List Char) : Option (List Char) :=
  let tag := rest.takeWhile isTagChar
  if (rest.drop tag.length).head? = some '$' ∧ ¬tag.head?.any Char.isDigit then some tag else none

/-- The token that starts at `c`, with the number of characters of `rest` that belong to it. -/
def token (dollarQuotes : Bool) (c : Char) (rest : List Char) : Option (Kind × ℕ) :=
  if c = singleQuote then some (.quoted, quotedLength singleQuote rest)
  else if c = doubleQuote then some (.quoted, quotedLength doubleQuote rest)
  else if c = '-' ∧ rest.head? = some '-' then some (.comment, lineLength rest)
  else if c = '/' ∧ rest.head? = some '*' then some (.comment, blockLength rest.tail + 1)
  else if c = '$' ∧ dollarQuotes then
    (dollarTag rest).map fun tag =>
      (.dollarBody, tag.length + 1 + bodyLength ('$' :: (tag ++ ['$']))
        (rest.drop (tag.length + 1)))
  else none

/-- The characters of a text, each with the token that it is in, after `n` characters of the token
`kind`. -/
def marks (dollarQuotes : Bool) : List Char → ℕ → Option Kind → List (Char × Option Kind)
  | [], _, _ => []
  | c :: rest, n + 1, kind => (c, kind) :: marks dollarQuotes rest n kind
  | c :: rest, 0, _ =>
    match token dollarQuotes c rest with
    | some (kind, n) => (c, some kind) :: marks dollarQuotes rest n (some kind)
    | none => (c, none) :: marks dollarQuotes rest 0 none

variable {σ : Type}

def topRun (dollarQuotes : Bool) (M : Scanner.Matcher σ) : List Char → ℕ → ℕ → σ → σ
  | [], _, _, acc => acc
  | _ :: rest, idx, skip + 1, acc => topRun dollarQuotes M rest (idx + 1) skip acc
  | c :: rest, idx, 0, acc =>
    match token dollarQuotes c rest with
    | some (_, n) => topRun dollarQuotes M rest (idx + 1) n acc
    | none =>
      if M.cond c rest then topRun dollarQuotes M rest (idx + 1) (M.case idx rest acc).2
        (M.case idx rest acc).1
      else topRun dollarQuotes M rest (idx + 1) 0 acc

lemma topRun_invariant {dollarQuotes M} {P : σ → Prop}
    (hcase : ∀ idx rest acc, P acc → P (M.case idx rest acc).1) :
    ∀ text (idx n : ℕ) {acc}, P acc → P (topRun dollarQuotes M text idx n acc)
  | [], _, _, _, h => h
  | _ :: rest, idx, n + 1, _, h => topRun_invariant hcase rest (idx + 1) n h
  | c :: rest, idx, 0, acc, h => by
    unfold topRun
    split
    · exact topRun_invariant hcase rest (idx + 1) _ h
    · split_ifs
      · exact topRun_invariant hcase rest (idx + 1) _ (hcase idx rest acc h)
      · exact topRun_invariant hcase rest (idx + 1) 0 h

/-- No `/*` is followed by a slash, and no `*/` that closes a comment by a star. -/
def Clean (dollarQuotes : Bool) : List Char → ℕ → Prop
  | [], _ => True
  | _ :: rest, n + 1 => Clean dollarQuotes rest n
  | c :: rest, 0 =>
    (c = '/' → rest.head? = some '*' →
      rest.tail.head? ≠ some '/' ∧ (rest.tail.drop (blockLength rest.tail)).head? ≠ some '*') ∧
    Clean dollarQuotes rest ((token dollarQuotes c rest).elim 0 Prod.snd)

instance decidableClean (dollarQuotes : Bool) : ∀ (text : List Char) (n : ℕ), Decidable
    (Clean dollarQuotes text n)
  | [], _ => .isTrue trivial
  | _ :: rest, n + 1 => decidableClean dollarQuotes rest n
  | c :: rest, 0 => by
    unfold Clean
    exact @instDecidableAnd _ _ inferInstance (decidableClean dollarQuotes rest _)

/-! ### Skipping -/

section Run

variable {track : Bool} {M : Scanner.Matcher σ} {acc : σ}

lemma run_cons (c : Char) (rest : List Char) (idx : ℕ) (state : ParserState) :
    run track M (c :: rest) idx 0 state acc =
      run track M rest (idx + 1) (step track M state idx c rest acc).2.1
      (step track M state idx c rest acc).1
        (step track M state idx c rest acc).2.2 := rfl

lemma run_skip (state : ParserState) (m : ℕ) : ∀ (n : ℕ) text (idx : ℕ),
    run track M text idx (n + m) state acc = run track M (text.drop n) (idx + n) m state acc
  | 0, text, idx => by rw [Nat.zero_add]; rfl
  | n + 1, [], idx => by simp [run]
  | n + 1, _ :: rest, idx => by
    rw [show idx + (n + 1) = idx + 1 + n by omega, show n + 1 + m = n + m + 1 by omega]
    exact run_skip state m n rest (idx + 1)

/-! ### The states of the scanner -/

lemma run_quoted {quote inside}
    (hstep : ∀ idx c rest, step track M inside idx c rest acc = quoteStep quote c rest inside acc) :
    ∀ text (idx : ℕ),
      run track M text idx 0 inside acc = run track M text idx (quotedLength quote text) .normal acc
  | [], idx => rfl
  | [c], idx => by
    cases hquo : quoteStep quote c [] inside acc with
    | mk state r =>
      rw [run_cons, hstep]
      unfold quoteStep
      split_ifs <;> rfl
  | c :: c' :: rest, idx => by
    rw [run_cons, hstep]
    unfold quoteStep quotedLength
    by_cases hc : c = quote
    · by_cases hc' : c' = quote
      · simp only [hc, hc', head?_cons, if_true]
        exact run_quoted hstep rest (idx + 2)
      · simp only [hc, hc', head?_cons, some.injEq, if_true, if_false]
        rfl
    · simp only [hc, if_false]
      exact run_quoted hstep (c' :: rest) (idx + 1)

lemma run_inSingleLineComment : ∀ text (idx : ℕ),
    run track M text idx 0 .inSingleLineComment acc = run track M text idx
    (lineLength text) .normal acc
  | [], idx => rfl
  | c :: rest, idx => by
    rw [run_cons]
    unfold lineLength
    by_cases hc : c = '\n'
    · simp only [step, hc, if_true]
      rfl
    · simp only [step, hc, if_false]
      exact run_inSingleLineComment rest (idx + 1)

lemma run_inDollarQuote {tag} : ∀ text (idx : ℕ),
    run track M text idx 0 (.inDollarQuote ('$' :: tag)) acc
      = run track M text idx (bodyLength ('$' :: tag) text) .normal acc
  | [], idx => rfl
  | c :: rest, idx => by
    rw [run_cons]
    unfold bodyLength
    by_cases hpref : ('$' :: tag).isPrefixOf (c :: rest) = true
    · have hc : c = '$' := by
        simp only [isPrefixOf, Bool.and_eq_true, beq_iff_eq] at hpref
        exact hpref.1.symm
      subst hc
      simp only [step, hpref, and_self, if_true]
      rfl
    · simp only [step, hpref, and_false, if_false, Bool.false_eq_true]
      exact run_inDollarQuote rest (idx + 1)

lemma step_slash (hM : ∀ rest, M.cond '/' rest = false) {rest} (hrest : rest.head? ≠ some '*')
    (idx : ℕ) : step track M .normal idx '/' rest acc = (.normal, 0, acc) := by
  unfold step
  have hdelim : (if track = true then parseDollarQuoteDelimiter ('/' :: rest) else none) =
      none := by split_ifs <;> rfl
  simp only [singleQuote, doubleQuote, hrest, hM, hdelim, and_false, if_false, Char.reduceEq,
    false_and, Bool.false_eq_true]

lemma run_inMultiLineComment (hM : ∀ rest, M.cond '/' rest = false) :
    ∀ text (idx : ℕ), (text.drop (blockLength text)).head? ≠ some '*' →
      run track M text idx 0 .inMultiLineComment acc = run track M text idx
      (blockLength text) .normal acc
  | [], idx, _ => rfl
  | [c], idx, _ => by
    rw [run_cons]
    unfold step
    split_ifs <;> rfl
  | c :: c' :: rest, idx, h => by
    rw [run_cons]
    unfold blockLength at h ⊢
    by_cases hc : c = '*' ∧ c' = '/'
    · obtain ⟨rfl, rfl⟩ := hc
      have hrest : rest.head? ≠ some '*' := h
      simp only [step, head?_cons, and_self, if_true]
      rw [run_cons, step_slash hM hrest]
      rfl
    · rw [if_neg hc] at h ⊢
      simp only [step, head?_cons, some.injEq, hc, if_false]
      exact run_inMultiLineComment hM (c' :: rest) (idx + 1) h

/-! ### Dollar quotes -/

lemma delimiterRest_false : ∀ rest, delimiterRest false rest =
    if (rest.drop (rest.takeWhile isTagChar).length).head? = some '$' then some
    ((rest.takeWhile isTagChar).length + 1) else none
  | [] => rfl
  | c :: rest => by
    have ih := delimiterRest_false rest
    unfold delimiterRest
    by_cases hdol : c = '$'
    · subst hdol
      rfl
    by_cases htag : isTagChar c = true
    · have hok : (c.isAlphanum || c == '_') = true := htag
      simp only [hdol, hok, if_false, if_true, ih, takeWhile_cons_of_pos htag, length_cons,
        drop_succ_cons, Bool.false_eq_true]
      split_ifs <;> rfl
    · have hok : ¬(c.isAlphanum || c == '_') = true := htag
      simp only [hdol, hok, if_false, takeWhile_cons_of_neg htag, length_nil, drop_zero,
        head?_cons, some.injEq, Bool.false_eq_true]

lemma isDigit_of_isTagChar {c : Char} (htag : isTagChar c = true) :
    c.isDigit = true ↔ ¬(c.isAlpha || c == '_') = true := by
  have hdig : c.isDigit = true → ¬(c.isAlpha || c == '_') = true := by
    intro hdigit hok
    have hle : c.toNat ≤ 57 := (Char.isDigit_iff_toNat.mp hdigit).2
    rcases Bool.or_eq_true_iff.mp hok with h | h
    · rw [Lib.Bytes.isAlpha_iff] at h
      omega
    · rw [beq_iff_eq.mp h] at hle
      exact absurd hle (by decide)
  refine ⟨hdig, fun hok => ?_⟩
  revert htag hok
  unfold isTagChar Char.isAlphanum
  cases c.isAlpha <;> cases c.isDigit <;> simp

lemma parseDollarQuoteDelimiter_eq : ∀ rest,
    parseDollarQuoteDelimiter ('$' :: rest) = (dollarTag rest).map fun tag => tag.length + 2
  | [] => rfl
  | c :: rest => by
    unfold parseDollarQuoteDelimiter delimiterRest dollarTag
    by_cases hdol : c = '$'
    · subst hdol
      rfl
    by_cases htag : isTagChar c = true
    · have hdig := isDigit_of_isTagChar htag
      simp only [hdol, if_false, if_true, delimiterRest_false, takeWhile_cons_of_pos htag,
        length_cons, drop_succ_cons, head?_cons, any_some, hdig]
      split_ifs <;> simp_all
    have hok : ¬(c.isAlpha || c == '_') = true := by
      intro h
      apply htag
      unfold isTagChar Char.isAlphanum
      revert h
      cases c.isAlpha <;> cases c.isDigit <;> simp
    simp only [hdol, hok, if_false, if_true, takeWhile_cons_of_neg htag, length_nil, drop_zero,
      head?_cons, some.injEq, false_and, map_none, Bool.false_eq_true]

lemma eq_of_dollarTag {rest tag} (h : dollarTag rest = some tag) :
    ∃ body, rest = tag ++ '$' :: body := by
  obtain ⟨⟨hdol, -⟩, htag⟩ := ite_none_right_eq_some.mp h
  cases htag
  obtain ⟨body, hbody⟩ := head?_eq_some_iff.mp hdol
  refine ⟨body, ?_⟩
  rw [← hbody]
  exact (prefix_iff_eq_append.mp <| takeWhile_prefix _).symm

/-! ### The top level -/

/-- **What the scanner does at a character of the top level**, beside the token that starts there.
-/
theorem step_normal (c : Char) (rest : List Char) (idx : ℕ) :
    (token track c rest = some (.quoted, quotedLength singleQuote rest) ∧
      step track M .normal idx c rest acc = (.inSingleQuote, 0, acc)) ∨
    (token track c rest = some (.quoted, quotedLength doubleQuote rest) ∧
      step track M .normal idx c rest acc = (.inDoubleQuote, 0, acc)) ∨
    (token track c rest = some (.comment, lineLength rest) ∧
      step track M .normal idx c rest acc = (.inSingleLineComment, 0, acc)) ∨
    (∃ body, c = '/' ∧ rest = '*' :: body ∧ token track c rest = some
    (.comment, blockLength body + 1) ∧
      step track M .normal idx c rest acc = (.inMultiLineComment, 0, acc)) ∨
    (∃ tag, token track c rest = some (.dollarBody,
        tag.length + 1 + bodyLength ('$' :: (tag ++ ['$'])) (rest.drop (tag.length + 1))) ∧
      step track M .normal idx c rest acc = (.inDollarQuote ('$' :: (tag ++ ['$'])),
        tag.length + 1, acc)) ∨ (token track c rest = none ∧ step track M .normal idx c rest acc =
      if M.cond c rest then (.normal, (M.case idx rest acc).2, (M.case idx rest acc).1)
        else (.normal, 0, acc)) := by
  unfold token
  by_cases hsingle : c = singleQuote
  · exact .inl ⟨if_pos hsingle, if_pos hsingle⟩
  by_cases hdbl : c = doubleQuote
  · refine .inr (.inl ⟨?_, ?_⟩)
    · rw [if_neg hsingle, if_pos hdbl]
    · simp only [step, if_neg hsingle, if_pos hdbl]
  by_cases hline : c = '-' ∧ rest.head? = some '-'
  · refine .inr (.inr (.inl ⟨?_, ?_⟩))
    · rw [if_neg hsingle, if_neg hdbl, if_pos hline]
    · simp only [step, if_neg hsingle, if_neg hdbl, if_pos hline]
  by_cases hblk : c = '/' ∧ rest.head? = some '*'
  · obtain ⟨body, hbody⟩ := head?_eq_some_iff.mp hblk.2
    refine .inr (.inr (.inr (.inl ⟨body, hblk.1, hbody, ?_, ?_⟩)))
    · rw [if_neg hsingle, if_neg hdbl, if_neg hline, if_pos hblk, hbody]
      rfl
    · simp only [step, if_neg hsingle, if_neg hdbl, if_neg hline, if_pos hblk]
  simp only [step, if_neg hsingle, if_neg hdbl, if_neg hline, if_neg hblk]
  by_cases hdol : c = '$' ∧ track = true
  · obtain ⟨rfl, rfl⟩ := hdol
    simp only [and_self, if_true, parseDollarQuoteDelimiter_eq]
    cases htag : dollarTag rest with
    | none => exact .inr (.inr (.inr (.inr (.inr ⟨rfl, rfl⟩))))
    | some tag =>
      obtain ⟨body, rfl⟩ := eq_of_dollarTag htag
      refine .inr (.inr (.inr (.inr (.inl ⟨tag, rfl, ?_⟩))))
      have htake : ('$' :: (tag ++ '$' :: body)).take (tag.length + 2) = '$' :: (tag ++ ['$']) := by
        simp [take_append]
      simp only [map_some, htake]
      rfl
  · have hnone : (if track = true then parseDollarQuoteDelimiter (c :: rest) else none) = none := by
      split_ifs with htrack
      · have hc : c ≠ '$' := fun hc => hdol ⟨hc, htrack⟩
        unfold parseDollarQuoteDelimiter
        split
        · rename_i heq
          exact absurd (cons.inj heq).1 hc
        · rfl
      · rfl
    rw [if_neg hdol, hnone]
    exact .inr (.inr (.inr (.inr (.inr ⟨rfl, rfl⟩))))

/-- **The scanner sees the top level**, where no comment ends or begins with what belongs to another
one. -/
theorem run_eq_topRun (hM : ∀ rest, M.cond '/' rest = false)
    (hskip : ∀ c rest idx acc, M.cond c rest = true → Clean track rest 0 →
      Clean track rest (M.case idx rest acc).2) : ∀ text (idx n : ℕ) acc, Clean track text n →
      run track M text idx n .normal acc = topRun track M text idx n acc
  | [], idx, n, acc, _ => by cases n <;> rfl
  | c :: rest, idx, n + 1, acc, h => run_eq_topRun hM hskip rest (idx + 1) n acc h
  | c :: rest, idx, 0, acc, ⟨hsl, hrest⟩ => by
    have ih := run_eq_topRun hM hskip rest (idx + 1)
    rw [run_cons]
    unfold topRun
    rcases @step_normal σ track M acc c rest idx with
      ⟨htok, hstep⟩ | ⟨htok, hstep⟩ | ⟨htok, hstep⟩ | ⟨body, rfl, rfl, htok, hstep⟩ | ⟨tag,
        htok, hstep⟩ | ⟨htok, hstep⟩ <;>
      rw [htok] at hrest <;> simp only [htok, hstep]
    · rw [run_quoted fun _ _ _ => rfl]
      exact ih _ _ hrest
    · rw [run_quoted fun _ _ _ => rfl]
      exact ih _ _ hrest
    · rw [run_inSingleLineComment]
      exact ih _ _ hrest
    · obtain ⟨hopen, hclose⟩ := hsl rfl rfl
      have hstar : run track M ('*' :: body) (idx + 1) 0 .inMultiLineComment acc
          = run track M body (idx + 2) 0 .inMultiLineComment acc := by
        rw [run_cons]
        have hno : body.head? ≠ some '/' := hopen
        simp only [step, hno, and_false, if_false]
      rw [hstar, run_inMultiLineComment hM body (idx + 2) hclose]
      exact ih _ _ hrest
    · have hbody := @run_skip σ track M acc (.inDollarQuote ('$' :: (tag ++ ['$']))) 0
        (tag.length + 1) rest (idx + 1)
      rw [hbody, run_inDollarQuote, ← run_skip]
      exact ih _ _ hrest
    · split_ifs with hcond
      · exact ih _ _ (hskip c rest idx acc hcond hrest)
      · exact ih _ _ hrest

end Run

end Windmill.Sql.Reference
