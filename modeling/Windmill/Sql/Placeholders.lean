import Windmill.Sql.Blocks
import Mathlib.Data.List.Sort
import Mathlib.Data.List.TakeWhile

/-! # Renumbering placeholders

`do_postgresql_inner` (`windmill-worker/src/pg_executor.rs`) passes to a statement only the
arguments that it uses, and renumbers its placeholders to `$1`, `$2` and so on, one after the other.
A replacement only changes the characters that follow a dollar sign (`replace_render`), so what is
made of each piece between dollar signs is looked at alone (`pieceLoop`). -/

namespace Windmill.Sql.Placeholders

open Scanner Reference List Nat

/-- The search goes on after what was replaced. -/
def replaceFrom (pat rep : List Char) : List Char → ℕ → List Char
  | [], _ => []
  | _ :: rest, skip + 1 => replaceFrom pat rep rest skip
  | c :: rest, 0 =>
    if pat.isPrefixOf (c :: rest) then rep ++ replaceFrom pat rep rest (pat.length - 1)
    else c :: replaceFrom pat rep rest 0

/-- `str::replace`: all matches, from the left. -/
def replace (pat rep text : List Char) : List Char := replaceFrom pat rep text 0

def placeholder (n : ℕ) : List Char := '$' :: Nat.toDigits 10 n

variable {α ε : Type}

/-- The loop over the sorted indices. An argument that is declared has a value, or an error if it
could not be converted. -/
def renumberLoop (args : ℕ → Option (Except ε α)) : List ℕ → ℕ → List Char → List α → Except ε
    (List Char × List α)
  | [], _, query, params => .ok (query, params)
  | oidx :: rest, i, query, params =>
    match args oidx with
    | none => renumberLoop args rest i query params
    | some value => do
      let query := if oidx ≠ i then replace (placeholder oidx) (placeholder i) query else query
      let param ← value
      renumberLoop args rest (i + 1) query (params ++ [param])

def sortedIndices (query : List Char) : List ℕ :=
  (parsePgStatementArgIndices query).insertionSort (· ≤ ·)

variable (args : ℕ → Option (Except ε α))

/-- The query and the parameters that `do_postgresql_inner` sends. -/
def renumber (query : List Char) : Except ε (List Char × List α) :=
  renumberLoop args (sortedIndices query) 1 query []

/-! ### Pieces -/

/-- What follows a dollar sign, up to the next one. -/
structure Piece where
  top : Bool
  text : List Char

def Piece.digits (p : Piece) : List Char := p.text.takeWhile Char.isDigit

def Piece.index (p : Piece) : Option ℕ := if p.top then parseI32 p.digits else none

def pieces : List (Char × Option Kind) → List Char × List Piece
  | [] => ([], [])
  | (c, kind) :: ms =>
    if c = '$' then ([], ⟨kind == none, (pieces ms).1⟩ :: (pieces ms).2)
      else (c :: (pieces ms).1, (pieces ms).2)

def blockPieces (block : List Char) : List Char × List Piece := pieces (marks true block 0 none)

def render (start : List Char) (texts : List (List Char)) : List Char :=
  start ++ texts.flatMap ('$' :: ·)

/-- The piece is as it was; or it is a placeholder and has got the number of the parameter that is
its argument. -/
def Bound (params : List α) (p : Piece) (text : List Char) : Prop :=
  match p.index with
  | some k => ∃ digits j v, text = digits ++ p.text.dropWhile Char.isDigit ∧ parseI32 digits =
      some (j + 1) ∧ args k = some (.ok v) ∧ params[j]? = some v
  | none => text = p.text

/-- **Every binding is kept**, and everything else is unchanged. -/
def KeepsBindings (block query : List Char) (params : List α) : Prop :=
  ∃ texts, query = render (blockPieces block).1 texts ∧
    List.Forall₂ (Bound args params) (blockPieces block).2 texts

/-- An index that has to be renumbered is replaced only where it is meant. -/
structure Renumberable (block : List Char) : Prop where
  /-- No other text after a dollar sign begins with its number. -/
  apart : ∀ p ∈ (blockPieces block).2, ∀ n k, (sortedIndices block)[n]? = some k → k ≠ n + 1 →
    Nat.toDigits 10 k <+: p.text → p.top = true ∧ p.digits = Nat.toDigits 10 k
  /-- Its placeholders are written without leading zeros. -/
  plain : ∀ p ∈ (blockPieces block).2, ∀ n k, (sortedIndices block)[n]? = some k → k ≠ n + 1 →
    p.index = some k → p.digits = Nat.toDigits 10 k
  /-- The index `0` is not used together with `1`. -/
  zero : 0 ∈ sortedIndices block → 1 ∉ sortedIndices block

/-! ### Replacing -/

lemma pieces_noDollar : ∀ ms, '$' ∉ (pieces ms).1 ∧ ∀ p ∈ (pieces ms).2, '$' ∉ p.text
  | [] => ⟨not_mem_nil, nofun⟩
  | (c, kind) :: ms => by
    have ih := pieces_noDollar ms
    unfold pieces
    by_cases hc : c = '$'
    · rw [if_pos hc]
      refine ⟨not_mem_nil, fun p hp => ?_⟩
      rcases mem_cons.mp hp with rfl | hp
      · exact ih.1
      · exact ih.2 p hp
    · rw [if_neg hc]
      refine ⟨fun hmem => ?_, ih.2⟩
      rcases mem_cons.mp hmem with heq | hmem
      · exact hc heq.symm
      · exact ih.1 hmem

lemma render_pieces : ∀ ms, render (pieces ms).1 ((pieces ms).2.map Piece.text) = ms.map Prod.fst
  | [] => rfl
  | (c, kind) :: ms => by
    have ih := render_pieces ms
    unfold pieces
    by_cases hc : c = '$'
    · rw [if_pos hc, map_cons, map_cons, ← ih, hc]
      simp [render]
    · rw [if_neg hc, map_cons, ← ih]
      rfl

def replacePrefix (pat rep text : List Char) : List Char :=
  if pat.isPrefixOf text then rep ++ text.drop pat.length else text

lemma replaceFrom_skip (pat rep : List Char) : ∀ (n : ℕ) text,
    replaceFrom pat rep text n = replaceFrom pat rep (text.drop n) 0
  | 0, text => rfl
  | n + 1, [] => by simp [replaceFrom]
  | n + 1, _ :: rest => replaceFrom_skip pat rep n rest

lemma replaceFrom_noDollar {pat rep} : ∀ {start} rest, '$' ∉ start →
    replaceFrom ('$' :: pat) rep (start ++ rest) 0 = start ++ replaceFrom ('$' :: pat) rep rest 0
  | [], rest, _ => rfl
  | c :: start, rest, h => by
    have hc : ('$' == c) = false := beq_eq_false_iff_ne.mpr fun heq => h (heq ▸ mem_cons_self)
    have ih := @replaceFrom_noDollar pat rep start rest fun hmem => h (mem_cons_of_mem c hmem)
    rw [cons_append, replaceFrom]
    simp only [isPrefixOf, hc, Bool.false_and, Bool.false_eq_true, if_false, ih]
    rfl

lemma isPrefixOf_append {texts : List (List Char)} : ∀ {pat text : List Char}, '$' ∉ pat →
    pat.isPrefixOf (text ++ texts.flatMap ('$' :: ·)) = pat.isPrefixOf text
  | [], _, _ => by simp [isPrefixOf]
  | p :: pat, [], h => by
    have hp : (p == '$') = false := beq_eq_false_iff_ne.mpr fun heq => h (heq ▸ mem_cons_self)
    cases texts with
    | nil => rfl
    | cons t ts => simp [isPrefixOf, hp]
  | p :: pat, c :: text, h => by
    have ih := @isPrefixOf_append texts pat text fun hmem => h (mem_cons_of_mem p hmem)
    rw [cons_append]
    simp only [isPrefixOf, ih]

lemma replaceFrom_pieces {pat rep : List Char} (hpat : '$' ∉ pat) : ∀ {texts : List (List Char)},
    (∀ text ∈ texts, '$' ∉ text) → replaceFrom ('$' :: pat) ('$' :: rep)
    (texts.flatMap ('$' :: ·)) 0
        = (texts.map (replacePrefix pat rep)).flatMap ('$' :: ·)
  | [], _ => rfl
  | text :: texts, h => by
    have ih := @replaceFrom_pieces pat rep hpat texts fun t ht => h t (mem_cons_of_mem text ht)
    have htext := h text mem_cons_self
    simp only [flatMap_cons, map_cons, cons_append]
    rw [replaceFrom]
    simp only [isPrefixOf, beq_self_eq_true, Bool.true_and, isPrefixOf_append hpat, length_cons,
      Nat.add_sub_cancel]
    by_cases hpref : pat.isPrefixOf text = true
    · have hstart : pat <+: text := isPrefixOf_iff_prefix.mp hpref
      have hle : pat.length ≤ text.length := hstart.length_le
      have hdrop : '$' ∉ text.drop pat.length := fun hmem => htext (mem_of_mem_drop hmem)
      have hpc : replacePrefix pat rep text = rep ++ text.drop pat.length := if_pos hpref
      rw [if_pos hpref, hpc, replaceFrom_skip, drop_append_of_le_length hle,
        replaceFrom_noDollar _ hdrop, ih]
      simp
    · have hpc : replacePrefix pat rep text = text := if_neg hpref
      rw [if_neg hpref, hpc, replaceFrom_noDollar _ htext, ih]

/-- **A placeholder is replaced in each piece alone.** -/
theorem replace_render {pat rep start texts} (hpat : '$' ∉ pat) (hstart : '$' ∉ start)
    (htexts : ∀ text ∈ texts, '$' ∉ text) :
    replace ('$' :: pat) ('$' :: rep) (render start texts) = render start
    (texts.map (replacePrefix pat rep)) := by
  unfold replace render
  rw [replaceFrom_noDollar _ hstart, replaceFrom_pieces hpat htexts]

/-! ### Numbers -/

lemma isDigit_toDigits (n : ℕ) : ∀ c ∈ toDigits 10 n, c.isDigit = true :=
  fun _ hc => isDigit_of_mem_toDigits (by omega) (by omega) hc

lemma dollar_notMem_toDigits (n : ℕ) : '$' ∉ toDigits 10 n := fun h => by
  have hdig := isDigit_toDigits n '$' h
  revert hdig
  decide

lemma ofDigitChars_toDigits (n : ℕ) : ofDigitChars 10 (toDigits 10 n) 0 = n :=
  Nat.ofDigitChars_toDigits (by omega) (by omega)

variable {n k : ℕ} {text : List Char}

lemma parseI32_toDigits (h : n ≤ 2147483647) : parseI32 (toDigits 10 n) = some n := by
  have hne : toDigits 10 n ≠ [] := ne_nil_of_length_pos length_toDigits_pos
  unfold parseI32
  rw [ofDigitChars_toDigits, if_pos ⟨hne, all_eq_true.mpr (isDigit_toDigits n), h⟩]

lemma le_ofDigitChars : ∀ l (init : ℕ), init ≤ ofDigitChars 10 l init
  | [], init => le_rfl
  | c :: l, init => by
    have ih := le_ofDigitChars l (10 * init + (c.toNat - '0'.toNat))
    rw [ofDigitChars_cons]
    omega

lemma le_of_toDigits_prefix (h : toDigits 10 k <+: toDigits 10 n) : k ≤ n := by
  obtain ⟨rest, hrest⟩ := h
  have hval := congrArg (fun l => ofDigitChars 10 l 0) hrest
  simp only [ofDigitChars_append, ofDigitChars_toDigits] at hval
  have hle := le_ofDigitChars rest k
  omega

lemma toDigits_prefix_digits (h : toDigits 10 k <+: text) :
    toDigits 10 k <+: text.takeWhile Char.isDigit := by
  obtain ⟨rest, rfl⟩ := h
  rw [takeWhile_append_of_pos (isDigit_toDigits k)]
  exact prefix_append _ _

/-! ### The loop, for one piece -/

def pieceLoop : List ℕ → ℕ → List Char → List Char
  | [], _, text => text
  | k :: ks, i, text =>
    pieceLoop ks (i + 1) (if k ≠ i then replacePrefix (Nat.toDigits 10 k) (Nat.toDigits 10 i) text
      else text)

lemma replacePrefix_of_not {pat rep} (h : ¬pat <+: text) : replacePrefix pat rep text = text :=
  if_neg fun hpref => h <| isPrefixOf_iff_prefix.mp hpref

lemma pieceLoop_of_not : ∀ {ks} {i : ℕ} {text},
    (∀ n k, ks[n]? = some k → k ≠ i + n → ¬toDigits 10 k <+: text) → pieceLoop ks i text = text
  | [], _, _, _ => rfl
  | k :: ks, i, text, h => by
    have hhead : (if k ≠ i then replacePrefix (toDigits 10 k) (toDigits 10 i) text else text) =
        text := by
      split_ifs with hk
      · exact replacePrefix_of_not (h 0 k rfl hk)
      · rfl
    unfold pieceLoop
    rw [hhead]
    refine pieceLoop_of_not fun n k' hk' hne => h (n + 1) k' hk' ?_
    omega

lemma pieceLoop_own (rest : List Char) : ∀ {ks} {i n k : ℕ}, ks[n]? = some k → k ≠ i + n →
    (∀ n' k', n' < n → ks[n']? = some k' → k' ≠ i + n' →
      ¬toDigits 10 k' <+: toDigits 10 k ++ rest) →
    (∀ n' k', n < n' → ks[n']? = some k' → k' ≠ i + n' →
      ¬toDigits 10 k' <+: toDigits 10 (i + n) ++ rest) →
      pieceLoop ks i (toDigits 10 k ++ rest) = toDigits 10 (i + n) ++ rest
  | [], _, _, _, h, _, _, _ => by cases h
  | k₀ :: ks, i, 0, k, h, hne, _, hafter => by
    cases h
    rw [add_zero] at hne hafter ⊢
    unfold pieceLoop
    rw [if_pos hne, replacePrefix, if_pos (by simp), drop_left]
    refine pieceLoop_of_not fun n' k' hk' hne' => hafter (n' + 1) k' (succ_pos n') hk' ?_
    omega
  | k₀ :: ks, i, n + 1, k, h, hne, hbefore, hafter => by
    have hhead : (if k₀ ≠ i then replacePrefix (toDigits 10 k₀) (toDigits 10 i)
      (toDigits 10 k ++ rest)
        else toDigits 10 k ++ rest) = toDigits 10 k ++ rest := by
      split_ifs with hk
      · exact replacePrefix_of_not (hbefore 0 k₀ (succ_pos n) rfl hk)
      · rfl
    unfold pieceLoop
    rw [hhead, show i + (n + 1) = i + 1 + n by omega]
    refine pieceLoop_own rest h (by omega) (fun n' k' hlt hk' hne' => ?_)
      fun n' k' hlt hk' hne' => ?_
    · exact hbefore (n' + 1) k' (succ_lt_succ hlt) hk' (by omega)
    · have hnot := hafter (n' + 1) k' (succ_lt_succ hlt) hk' (by omega)
      rwa [show i + (n + 1) = i + 1 + n by omega] at hnot

lemma dollar_notMem_replacePrefix {i : ℕ} (h : '$' ∉ text) :
    '$' ∉ replacePrefix (toDigits 10 k) (toDigits 10 i) text := by
  unfold replacePrefix
  split_ifs
  · intro hmem
    rcases mem_append.mp hmem with hmem | hmem
    · exact dollar_notMem_toDigits i hmem
    · exact h (mem_of_mem_drop hmem)
  · exact h

/-- **The loop changes each piece alone**, and passes the values of the indices in their order. -/
theorem renumberLoop_eq {args : ℕ → Option (Except ε α)} {start : List Char}
    (hstart : '$' ∉ start) :
    ∀ {ks : List ℕ} {i : ℕ} {texts : List (List Char)} {params params' : List α}
    {query' : List Char}, (∀ k ∈ ks, args k ≠ none) → (∀ text ∈ texts, '$' ∉ text) →
      renumberLoop args ks i (render start texts) params = .ok (query', params') →
      query' = render start (texts.map (pieceLoop ks i)) ∧
        ∃ values, params' = params ++ values ∧ List.Forall₂
        (fun k v => args k = some (.ok v)) ks values
  | [], i, texts, params, params', query', _, _, h => by
    cases h
    refine ⟨?_, [], (append_nil _).symm, .nil⟩
    simp [pieceLoop]
  | k :: ks, i, texts, params, params', query', hdecl, htexts, h => by
    obtain ⟨value, hval⟩ := Option.ne_none_iff_exists'.mp (hdecl k mem_cons_self)
    have hquery : (if k ≠ i then replace (placeholder k) (placeholder i) (render start texts)
      else render start texts)
        = render start (texts.map fun text =>
          if k ≠ i then replacePrefix (toDigits 10 k) (toDigits 10 i) text else text) := by
      by_cases hk : k ≠ i
      · simp only [if_pos hk]
        exact replace_render (dollar_notMem_toDigits k) hstart htexts
      · simp [if_neg hk]
    unfold renumberLoop at h
    simp only [hval, hquery] at h
    cases value with
    | error e => cases h
    | ok v =>
      have htexts' : ∀ text ∈ texts.map fun text =>
          if k ≠ i then replacePrefix (toDigits 10 k) (toDigits 10 i) text else text,
            '$' ∉ text := by
        intro text' htext'
        obtain ⟨text, htext, rfl⟩ := mem_map.mp htext'
        split_ifs
        · exact dollar_notMem_replacePrefix (htexts text htext)
        · exact htexts text htext
      obtain ⟨hquery', values, hpars, hvals⟩ :=
        renumberLoop_eq hstart (fun k' hk' => hdecl k' (mem_cons_of_mem k hk')) htexts' h
      refine ⟨?_, v :: values, by rw [hpars]; simp, .cons hval hvals⟩
      rw [hquery', map_map]
      rfl

/-! ### The indices that are found -/

lemma token_digit {track c rest} (hc : c.isDigit = true) : token track c rest = none := by
  have hne : ∀ c', c'.isDigit = false → c ≠ c' := by
    rintro c' hc' rfl
    simp [hc] at hc'
  unfold token
  simp only [hne singleQuote rfl, hne doubleQuote rfl, hne '-' rfl, hne '/' rfl, hne '$' rfl,
    false_and, if_false]

lemma clean_digits {track : Bool} : ∀ {rest}, Clean track rest 0 →
    Clean track rest (rest.takeWhile Char.isDigit).length
  | [], h => h
  | c :: rest, h => by
    by_cases hc : c.isDigit = true
    · have hrest := h.2
      rw [token_digit hc] at hrest
      rw [takeWhile_cons_of_pos hc]
      exact clean_digits hrest
    · rw [takeWhile_cons_of_neg hc]
      exact h

lemma topRun_digits {acc} : ∀ rest (idx : ℕ),
    topRun true indexMatcher rest idx (rest.takeWhile Char.isDigit).length acc =
    topRun true indexMatcher rest idx 0 acc
  | [], idx => rfl
  | c :: rest, idx => by
    by_cases hc : c.isDigit = true
    · have hcond : ¬indexMatcher.cond c rest = true := by
        intro hcond
        have hdol : c = '$' := beq_iff_eq.mp (Bool.and_eq_true _ _ ▸ hcond).1
        subst hdol
        revert hc
        decide
      rw [takeWhile_cons_of_pos hc, length_cons, topRun, topRun, token_digit hc]
      simp only [hcond]
      exact topRun_digits rest (idx + 1)
    · rw [takeWhile_cons_of_neg hc]
      rfl

lemma pieces_fst : ∀ ms, (pieces ms).1 = (ms.map Prod.fst).takeWhile (· != '$')
  | [] => rfl
  | (c, kind) :: ms => by
    have ih := pieces_fst ms
    unfold pieces
    by_cases hc : c = '$'
    · simp [hc]
    · simp [hc, ih]

lemma digits_takeWhile : ∀ text : List Char,
    (text.takeWhile (· != '$')).takeWhile Char.isDigit = text.takeWhile Char.isDigit
  | [] => rfl
  | c :: text => by
    have ih := digits_takeWhile text
    by_cases hc : c = '$'
    · subst hc
      rfl
    · simp [takeWhile_cons, hc, ih]

lemma mem_topRun_of_mem {acc} (text : List Char) (idx n : ℕ) (h : k ∈ acc) :
    k ∈ topRun true indexMatcher text idx n acc := by
  refine topRun_invariant (P := fun acc => k ∈ acc) (fun idx rest acc h => ?_) text idx n h
  simp only [indexMatcher]
  split
  · exact mem_insert_of_mem h
  · exact h

variable {p : Piece}

/-- **The index of a placeholder at top level is found.** -/
theorem mem_topRun_of_index (hk : p.index = some k) :
    ∀ text (idx n : ℕ) kind acc, (n ≠ 0 → kind ≠ none) →
      p ∈ (pieces (marks true text n kind)).2 → k ∈ topRun true indexMatcher text idx n acc
  | [], _, n, _, _, _, hp => by cases n <;> cases hp
  | c :: rest, idx, n + 1, kind, acc, hkind, hp => by
    have hnone : kind ≠ none := hkind (succ_ne_zero n)
    unfold marks pieces at hp
    refine mem_topRun_of_index hk rest (idx + 1) n kind acc (fun _ => hnone) ?_
    split_ifs at hp
    · rcases mem_cons.mp hp with rfl | hp
      · -- a dollar sign inside of a token
        simp [Piece.index, hnone] at hk
      · exact hp
    · exact hp
  | c :: rest, idx, 0, kind, acc, _, hp => by
    unfold marks at hp
    unfold topRun
    cases htok : token true c rest with
    | some t =>
      simp only [htok] at hp ⊢
      refine mem_topRun_of_index hk rest (idx + 1) t.2 (some t.1) acc
        (fun _ => Option.some_ne_none _) ?_
      unfold pieces at hp
      split_ifs at hp
      · rcases mem_cons.mp hp with rfl | hp
        · simp [Piece.index] at hk
        · exact hp
      · exact hp
    | none =>
      simp only [htok] at hp ⊢
      unfold pieces at hp
      by_cases hc : c = '$'
      · subst hc
        rw [if_pos rfl] at hp
        have hdig : (indexMatcher.case idx rest acc).2 = (rest.takeWhile Char.isDigit).length := rfl
        rcases mem_cons.mp hp with rfl | hp
        · have hparse : parseI32 (rest.takeWhile Char.isDigit) = some k := by
            simp only [Piece.index, Piece.digits, beq_self_eq_true, if_true, pieces_fst,
              Blocks.map_fst_marks, digits_takeWhile] at hk
            exact hk
          have hcond : indexMatcher.cond '$' rest = true := by
            cases rest with
            | nil => cases hparse
            | cons d rest =>
              by_cases hd : d.isDigit = true
              · simp [indexMatcher, hd]
              · rw [takeWhile_cons_of_neg hd] at hparse
                cases hparse
          rw [if_pos hcond]
          refine mem_topRun_of_mem rest (idx + 1) _ ?_
          simp only [indexMatcher, hparse]
          exact mem_insert_self
        · split_ifs
          · rw [hdig, topRun_digits]
            exact mem_topRun_of_index hk rest (idx + 1) 0 none _ (fun h => absurd rfl h) hp
          · exact mem_topRun_of_index hk rest (idx + 1) 0 none acc (fun h => absurd rfl h) hp
      · rw [if_neg hc] at hp
        have hcond : ¬indexMatcher.cond c rest = true :=
          fun hcond => hc (beq_iff_eq.mp (Bool.and_eq_true _ _ ▸ hcond).1)
        rw [if_neg hcond]
        exact mem_topRun_of_index hk rest (idx + 1) 0 none acc (fun h => absurd rfl h) hp

lemma topRun_indices (block : List Char) : (topRun true indexMatcher block 0 0 []).Nodup ∧
    ∀ k ∈ topRun true indexMatcher block 0 0 [], k ≤ 2147483647 := by
  refine topRun_invariant (P := fun acc => acc.Nodup ∧ ∀ k ∈ acc, k ≤ 2147483647)
    (fun idx rest acc h => ?_) block 0 0 ⟨nodup_nil, fun k hk => absurd hk not_mem_nil⟩
  simp only [indexMatcher]
  split
  · case _ i hi =>
    refine ⟨h.1.insert, fun k hk => ?_⟩
    rcases mem_insert_iff.mp hk with rfl | hk
    · exact parseI32_le hi
    · exact h.2 k hk
  · exact h

section Sorted

variable {block : List Char}

lemma parsePgStatementArgIndices_eq (h : Clean true block 0) :
    parsePgStatementArgIndices block = topRun true indexMatcher block 0 0 [] :=
  run_eq_topRun (fun _ => rfl) (fun _ _ _ _ _ hrest => clean_digits hrest) block 0 0 [] h

lemma mem_sortedIndices (h : Clean true block 0) (hp : p ∈ (blockPieces block).2)
    (hk : p.index = some k) : k ∈ sortedIndices block := by
  unfold sortedIndices
  rw [mem_insertionSort, parsePgStatementArgIndices_eq h]
  exact mem_topRun_of_index hk block 0 0 none [] (fun h => absurd rfl h) hp

lemma sortedIndices_le (h : Clean true block 0) (hk : k ∈ sortedIndices block) :
    k ≤ 2147483647 := by
  unfold sortedIndices at hk
  rw [mem_insertionSort, parsePgStatementArgIndices_eq h] at hk
  exact (topRun_indices block).2 k hk

lemma pairwise_sortedIndices (h : Clean true block 0) : (sortedIndices block).Pairwise (· < ·) := by
  have hnd : (sortedIndices block).Nodup := by
    unfold sortedIndices
    rw [(perm_insertionSort _ _).nodup_iff, parsePgStatementArgIndices_eq h]
    exact (topRun_indices block).1
  have hle : (sortedIndices block).Pairwise (· ≤ ·) := pairwise_insertionSort _ _
  exact (hle.and hnd).imp fun hab => lt_of_le_of_ne hab.1 hab.2

end Sorted

/-! ### Places in an increasing list -/

section Increasing

variable {ks : List ℕ} (h : ks.Pairwise (· < ·))

include h

lemma add_le_of_pairwise {m x : ℕ} (hx : ks[m]? = some x) : ∀ {d y : ℕ}, ks[m + d]? = some y →
    x + d ≤ y
  | 0, y, hy => by
    rw [add_zero, hx] at hy
    cases hy
    exact le_rfl
  | d + 1, y, hy => by
    obtain ⟨hlt, rfl⟩ := List.getElem?_eq_some_iff.mp hy
    have hlt' : m + d < ks.length := by omega
    have ih := add_le_of_pairwise hx (getElem?_eq_getElem hlt')
    have hnext := pairwise_iff_getElem.mp h (m + d) (m + (d + 1)) hlt' hlt (by omega)
    omega

lemma place_le (hk : ks[n]? = some k) : n ≤ k := by
  obtain ⟨hlt, -⟩ := List.getElem?_eq_some_iff.mp hk
  have hgap := add_le_of_pairwise h (m := 0) (getElem?_eq_getElem (by omega)) (zero_add n ▸ hk)
  omega

lemma mem_of_place {m : ℕ} (hn : ks[n]? = some n) (hm : m ≤ n) : m ∈ ks := by
  obtain ⟨hlt, -⟩ := List.getElem?_eq_some_iff.mp hn
  have hm' : ks[m]? = some (ks[m]) := getElem?_eq_getElem (by omega)
  have hle := place_le h hm'
  have hgap := add_le_of_pairwise h hm' (d := n - m) (y := n) (by rwa [Nat.add_sub_cancel' hm])
  rw [show m = ks[m] by omega]
  exact getElem_mem _

lemma place_injective {n' : ℕ} (hn : ks[n]? = some k) (hn' : ks[n']? = some k) : n = n' := by
  rcases le_total n n' with hle | hle
  · have hgap := add_le_of_pairwise h hn (d := n' - n) (y := k) (by rwa [Nat.add_sub_cancel' hle])
    omega
  · have hgap := add_le_of_pairwise h hn' (d := n - n') (y := k) (by rwa [Nat.add_sub_cancel' hle])
    omega

end Increasing

/-! ### The bindings -/

section Bindings

variable {block : List Char} (hclean : Clean true block 0) (h : Renumberable block)

include hclean h

lemma index_of_starts (hp : p ∈ (blockPieces block).2) (hk : (sortedIndices block)[n]? = some k)
    (hne : k ≠ n + 1) (hpref : toDigits 10 k <+: p.text) : p.index = some k := by
  obtain ⟨htop, hdig⟩ := h.apart p hp n k hk hne hpref
  unfold Piece.index
  rw [if_pos htop, hdig, parseI32_toDigits (sortedIndices_le hclean (mem_of_getElem? hk))]

lemma place_lt (hk : (sortedIndices block)[n]? = some k) (hn : n ≠ 0) : n < k := by
  have hsort := pairwise_sortedIndices hclean
  refine lt_of_le_of_ne (place_le hsort hk) fun heq => ?_
  subst heq
  exact h.zero (mem_of_place hsort hk (zero_le n)) (mem_of_place hsort hk (by omega))

lemma pieceLoop_none (hp : p ∈ (blockPieces block).2) (hidx : p.index = none) :
    pieceLoop (sortedIndices block) 1 p.text = p.text := by
  refine pieceLoop_of_not fun n k hk hne hpref => ?_
  simp [index_of_starts hclean h hp hk (by omega) hpref] at hidx

/-- **A placeholder gets the place of its index.** -/
theorem pieceLoop_index (hp : p ∈ (blockPieces block).2) (hidx : p.index = some k)
    (hk : (sortedIndices block)[n]? = some k) :
    ∃ digits, pieceLoop (sortedIndices block) 1 p.text = digits ++ p.text.dropWhile Char.isDigit ∧
      parseI32 digits = some (n + 1) := by
  have hsort := pairwise_sortedIndices hclean
  have hother : ∀ n' k', n' ≠ n → (sortedIndices block)[n']? = some k' → k' ≠ 1 + n' →
      ¬toDigits 10 k' <+: p.text := by
    intro n' k' hn' hk' hne' hpref
    rw [index_of_starts hclean h hp hk' (by omega) hpref] at hidx
    cases hidx
    exact hn' (place_injective hsort hk' hk)
  have htext : p.text = p.digits ++ p.text.dropWhile Char.isDigit := takeWhile_append_dropWhile.symm
  by_cases hne : k = n + 1
  · -- the number stays
    refine ⟨p.digits, ?_, ?_⟩
    · rw [← htext]
      refine pieceLoop_of_not fun n' k' hk' hne' => ?_
      by_cases hn' : n' = n
      · subst hn'
        rw [hk] at hk'
        cases hk'
        omega
      · exact hother n' k' hn' hk' hne'
    · unfold Piece.index at hidx
      split_ifs at hidx
      rw [hidx, hne]
  · have hdig := h.plain p hp n k hk hne hidx
    rw [hdig] at htext
    refine ⟨toDigits 10 (n + 1), ?_, ?_⟩
    · rw [htext] at hother
      have hown := pieceLoop_own (i := 1) (p.text.dropWhile Char.isDigit) hk (by omega)
        (fun n' k' hlt hk' hne' => hother n' k' (by omega) hk' hne')
        fun n' k' hlt hk' hne' hpref => ?_
      · rw [add_comm n 1, ← hown, ← htext]
      -- a later number is greater than the place of this one
      have hdig' := toDigits_prefix_digits hpref
      rw [takeWhile_append_of_pos (isDigit_toDigits _)] at hdig'
      have hrest : (p.text.dropWhile Char.isDigit).takeWhile Char.isDigit = [] :=
        takeWhile_eq_nil_iff.mpr fun hpos => dropWhile_get_zero_not _ _ hpos
      rw [hrest, append_nil] at hdig'
      have hle := le_of_toDigits_prefix hdig'
      have hlt' := place_lt hclean h hk' (by omega)
      omega
    · have hle := sortedIndices_le hclean (mem_of_getElem? hk)
      refine parseI32_toDigits ?_
      by_cases hn : n = 0
      · omega
      · have hlt := place_lt hclean h hk hn
        omega

end Bindings

/-- **Renumbering keeps every binding**, where an index that changes is replaced only where it is
meant. -/
theorem renumber_keepsBindings {args : ℕ → Option (Except ε α)} {block query : List Char}
    {params : List α} (hclean : Clean true block 0) (hrenumberable : Renumberable block)
    (hdeclared : ∀ k ∈ sortedIndices block, args k ≠ none)
    (h : renumber args block = .ok (query, params)) : KeepsBindings args block query params := by
  have hblk : block = render (blockPieces block).1 ((blockPieces block).2.map Piece.text) := by
    rw [blockPieces, render_pieces, Blocks.map_fst_marks]
  have hno := pieces_noDollar (marks true block 0 none)
  have htexts : ∀ text ∈ (blockPieces block).2.map Piece.text, '$' ∉ text := by
    intro text htext
    obtain ⟨p, hp, rfl⟩ := mem_map.mp htext
    exact hno.2 p hp
  have hloop : renumberLoop args (sortedIndices block) 1
      (render (blockPieces block).1 ((blockPieces block).2.map Piece.text)) [] =
      .ok (query, params) := by
    rw [← hblk]
    exact h
  obtain ⟨hquery, values, hpars, hvals⟩ := renumberLoop_eq hno.1 hdeclared htexts hloop
  subst hpars
  refine ⟨_, hquery, ?_⟩
  rw [map_map, forall₂_map_right_iff, forall₂_same]
  intro p hp
  unfold Bound
  cases hidx : p.index with
  | none => exact pieceLoop_none hclean hrenumberable hp hidx
  | some k =>
    obtain ⟨n, hk⟩ := mem_iff_getElem?.mp (mem_sortedIndices hclean hp hidx)
    obtain ⟨digits, hloop, hparse⟩ := pieceLoop_index hclean hrenumberable hp hidx hk
    obtain ⟨hlt, hget⟩ := List.getElem?_eq_some_iff.mp hk
    have hlt' : n < params.length := hvals.length_eq ▸ hlt
    have hval : args ((sortedIndices block)[n]) = some (.ok (params[n])) := hvals.get hlt hlt'
    rw [hget] at hval
    exact ⟨digits, n, params[n], hloop, hparse, hval, getElem?_eq_getElem hlt'⟩

def swapped : List Char := "SELECT $3, $2, '$1'".toList

def twoArgs : ℕ → Option (Except Unit String)
  | 2 => some (.ok "a")
  | 3 => some (.ok "b")
  | _ => none

theorem swapped_renumbered : Clean true swapped 0 ∧
    renumber twoArgs swapped = .ok ("SELECT $2, $1, '$1'".toList, ["a", "b"]) ∧
    KeepsBindings twoArgs swapped "SELECT $2, $1, '$1'".toList ["a", "b"] := by
  have hclean : Clean true swapped 0 := by decide
  have hrun : renumber twoArgs swapped = .ok ("SELECT $2, $1, '$1'".toList, ["a", "b"]) := by rfl
  have hapart : ∀ p ∈ (blockPieces swapped).2, ∀ k ∈ sortedIndices swapped,
    toDigits 10 k <+: p.text →
      p.top = true ∧ p.digits = toDigits 10 k := by
    decide
  have hplain : ∀ p ∈ (blockPieces swapped).2, ∀ k ∈ sortedIndices swapped, p.index = some k →
      p.digits = toDigits 10 k := by
    decide
  refine ⟨hclean, hrun, renumber_keepsBindings hclean ⟨fun p hp n k hk _ => ?_, fun p hp n k hk _ =>
    ?_, ?_⟩ ?_ hrun⟩
  · exact hapart p hp k (mem_of_getElem? hk)
  · exact hplain p hp k (mem_of_getElem? hk)
  · decide
  · decide

/-- What looks like a placeholder in a literal is replaced too; and with `$2` also the beginning of
`$20`. -/
theorem literal_renumbered :
    renumber (fun _ => some (.ok "a")) "SELECT '$2', $2".toList =
    (.ok ("SELECT '$1', $1".toList, ["a"]) : Except Unit _) ∧
    ¬KeepsBindings (fun _ => some (.ok "a") : ℕ → Option (Except Unit String))
    "SELECT '$2', $2".toList
      "SELECT '$1', $1".toList ["a"] ∧ renumber (fun _ => some (.ok "a")) "SELECT $20, $2".toList
      = (.ok ("SELECT $10, $1".toList, ["a", "a"]) : Except Unit _) ∧
    ¬KeepsBindings (fun _ => some (.ok "a") : ℕ → Option (Except Unit String))
    "SELECT $20, $2".toList
      "SELECT $10, $1".toList ["a", "a"] := by
  refine ⟨by rfl, ?_, by rfl, ?_⟩
  · rintro ⟨texts, hquery, hbound⟩
    have hps : blockPieces "SELECT '$2', $2".toList
        = ("SELECT '".toList, [⟨false, "2', ".toList⟩, ⟨true, "2".toList⟩]) := by rfl
    rw [hps] at hquery hbound
    cases hbound with
    | cons hlit _ =>
      cases hlit
      simp [render] at hquery
  rintro ⟨texts, hquery, hbound⟩
  have hps : blockPieces "SELECT $20, $2".toList
      = ("SELECT ".toList, [⟨true, "20, ".toList⟩, ⟨true, "2".toList⟩]) := by rfl
  rw [hps] at hquery hbound
  cases hbound with
  | @cons _ text _ texts hfirst _ =>
    obtain ⟨digits, j, v, htext, hparse, -, hparam⟩ := hfirst
    have htext' : text = digits ++ ", ".toList := htext
    have hdig : "10".toList = digits := by
      have hstart := congrArg (fun l => (l.drop 8).takeWhile Char.isDigit) hquery
      have hrender : (render "SELECT ".toList (text :: texts)).drop 8
          = digits ++ (", ".toList ++ texts.flatMap ('$' :: ·)) := by
        rw [htext']
        simp [render]
      rw [hrender, takeWhile_append_of_pos (isDigit_of_parseI32 hparse)] at hstart
      simpa using hstart
    subst hdig
    cases hparse
    cases hparam

end Windmill.Sql.Placeholders
