import Windmill.Sql.Reference

/-! # Splitting SQL

`parse_sql_blocks` cuts a text after the semicolons that the scanner sees. Where the scanner sees
the top level, the blocks are those of the reference lexer; the text after the last of them may be
dropped (`blank_iff`). -/

namespace Windmill.Sql.Blocks

open Scanner Reference List

def attach (start : List Char) : List (List Char) × List Char → List (List Char) × List Char
  | ([], tail) => ([], start ++ tail)
  | (block :: blocks, tail) => ((start ++ block) :: blocks, tail)

def cut : List (Char × Option Kind) → List (List Char) × List Char
  | [] => ([], [])
  | (c, kind) :: ms => if c = ';' ∧ kind = none then ([c] :: (cut ms).1, (cut ms).2)
      else attach [c] (cut ms)

/-- The blocks that the reference lexer finds. -/
def referenceBlocks (dollarQuotes : Bool) (code : List Char) : List (List Char) × List Char :=
  cut (marks dollarQuotes code 0 none)

def Blank (dollarQuotes : Bool) (text : List Char) : Prop :=
  ∀ e ∈ marks dollarQuotes text 0 none, e.2 = some .comment ∨ e.2 = none ∧ isSpace e.1 = true

/-- **The blocks are those of the reference lexer**, and what follows the last one is dropped only
if it is blank. -/
def SplitsLikeReference (track : Bool) (code : List Char) : Prop :=
  parseSqlBlocks code track = (referenceBlocks track code).1 ++ [(referenceBlocks track code).2] ∨
    parseSqlBlocks code track = (referenceBlocks track code).1 ∧
    Blank track (referenceBlocks track code).2

instance decidableBlank (dollarQuotes : Bool) (text : List Char) :
    Decidable (Blank dollarQuotes text) :=
  inferInstanceAs (Decidable (∀ e ∈ marks dollarQuotes text 0 none, _))

instance decidableSplits (track : Bool) (code : List Char) :
    Decidable (SplitsLikeReference track code) :=
  inferInstanceAs (Decidable (_ ∨ _))

/-- On each line, `P` holds of the first character that is no white space and of what follows it. -/
def EachLine (P : Char → List Char → Prop) (text : List Char) : Prop :=
  ∀ line ∈ lines text, ∀ c rest, line.dropWhile isSpace = c :: rest → P c rest

/-- On each line, the first character that is no white space is followed by a hyphen. -/
def HyphenSecond : List Char → Prop := EachLine fun _ rest => rest.head? = some '-'

/-- On each line, the first character that is no white space is a hyphen. -/
def HyphenFirst : List Char → Prop := EachLine fun c _ => c = '-'

/-! ### Blocks are slices -/

section Slices

variable {track : Bool} {code rest : List Char} {blocks : List (List Char)} {c : Char}

lemma map_fst_marks : ∀ text (n : ℕ) kind, (marks track text n kind).map Prod.fst = text
  | [], _, _ => rfl
  | c :: rest, n + 1, kind => congrArg (c :: ·) (map_fst_marks rest n kind)
  | c :: rest, 0, _ => by
    unfold marks
    split
    · rename_i kind n _
      exact congrArg (c :: ·) (map_fst_marks rest n (some kind))
    · exact congrArg (c :: ·) (map_fst_marks rest 0 none)

lemma flatten_attach (start : List Char) (r : List (List Char) × List Char) :
    (attach start r).1.flatten ++ (attach start r).2 = start ++ (r.1.flatten ++ r.2) := by
  obtain ⟨blocks, tail⟩ := r
  cases blocks <;> simp [attach]

/-- **The blocks are consecutive slices.** -/
theorem flatten_cut : ∀ ms, (cut ms).1.flatten ++ (cut ms).2 = ms.map Prod.fst
  | [] => rfl
  | (c, kind) :: ms => by
    have ih := flatten_cut ms
    unfold cut
    split_ifs
    · simp [ih]
    · rw [flatten_attach, ih]
      rfl

lemma attach_attach (start start' : List Char) (r : List (List Char) × List Char) :
    attach start (attach start' r) = attach (start ++ start') r := by
  obtain ⟨blocks, tail⟩ := r
  cases blocks <;> simp [attach]

lemma attach_nil (r : List (List Char) × List Char) : attach [] r = r := by
  obtain ⟨blocks, tail⟩ := r
  cases blocks <;> rfl

lemma slice_succ {start idx : ℕ} (hcode : code.drop idx = c :: rest)
    (hle : start ≤ idx) : slice code start (idx + 1) = slice code start idx ++ [c] := by
  have hget : code[idx]? = some c := by
    rw [← head?_drop, hcode]
    rfl
  have hlt : idx < code.length := (List.getElem?_eq_some_iff.mp hget).1
  unfold slice
  rw [take_add_one, hget, drop_append_of_le_length (by rw [length_take]; omega)]
  rfl

lemma slice_self (code : List Char) (idx : ℕ) : slice code idx idx = [] :=
  drop_eq_nil_of_le (by rw [length_take]; omega)

def upTo (code : List Char) (blocks : List (List Char)) (last idx : ℕ)
    (r : List (List Char) × List Char) : List (List Char) × ℕ :=
  (blocks ++ (attach (slice code last idx) r).1,
    code.length - (attach (slice code last idx) r).2.length)

lemma topRun_blockMatcher : ∀ (text : List Char) (idx n : ℕ) (kind : Option Kind)
    (blocks : List (List Char)) (last : ℕ), code.drop idx = text → idx ≤ code.length → last ≤ idx →
    (n ≠ 0 → kind ≠ none) → topRun track (blockMatcher code) text idx n (blocks, last)
        = upTo code blocks last idx (cut (marks track text n kind))
  | [], idx, n, kind, blocks, last, hcode, hidx, hlast, _ => by
    have hlen : code.length ≤ idx := drop_eq_nil_iff.mp hcode
    have hslice : slice code last idx = code.drop last := by
      unfold slice
      rw [take_of_length_le hlen]
    simp only [topRun, marks, cut, upTo, attach, hslice, append_nil, length_drop]
    rw [Nat.sub_sub_self (hlast.trans hidx)]
  | c :: rest, idx, n, kind, blocks, last, hcode, hidx, hlast, hkind => by
    have hrest : code.drop (idx + 1) = rest := by rw [← drop_drop, hcode]; rfl
    have hidx' : idx + 1 ≤ code.length := by
      by_contra hlt
      rw [drop_eq_nil_of_le (by omega)] at hcode
      cases hcode
    -- a character that ends no block
    have hinner : ∀ n kind, (n ≠ 0 → kind ≠ none) → topRun track (blockMatcher code) rest (idx + 1)
      n (blocks, last)
        = upTo code blocks last idx (attach [c] (cut (marks track rest n kind))) := by
      intro n kind hkind
      rw [upTo, attach_attach, ← slice_succ hcode hlast]
      exact topRun_blockMatcher rest (idx + 1) n kind blocks last hrest hidx' (by omega) hkind
    cases n with
    | succ n =>
      have hnone : ¬(c = ';' ∧ kind = none) := fun h => hkind (Nat.succ_ne_zero n) h.2
      simp only [topRun, marks, cut, if_neg hnone]
      exact hinner n kind fun _ => hkind (Nat.succ_ne_zero n)
    | zero =>
      unfold topRun marks
      cases htok : token track c rest with
      | some t =>
        simp only [cut, reduceCtorEq, and_false, if_false]
        exact hinner t.2 (some t.1) fun _ => Option.some_ne_none _
      | none =>
        by_cases hc : c = ';'
        · have hcond : (blockMatcher code).cond c rest = true := beq_iff_eq.mpr hc
          simp only [cut, hc, and_self, if_true]
          rw [← hc, if_pos hcond]
          refine (topRun_blockMatcher rest (idx + 1) 0 none _ (idx + 1) hrest hidx' le_rfl fun h =>
            absurd rfl h).trans ?_
          rw [upTo, upTo, slice_self, attach_nil, slice_succ hcode hlast]
          simp [attach]
        · have hcond : ¬(blockMatcher code).cond c rest = true := fun h => hc (beq_iff_eq.mp h)
          simp only [cut, hc, false_and, if_false, if_neg hcond]
          exact hinner 0 none fun h => absurd rfl h

/-- **Where the scanner sees the top level, the blocks are those of the reference lexer.** -/
theorem parseSqlBlocks_eq (h : Clean track code 0) :
    parseSqlBlocks code track = (referenceBlocks track code).1 ++
      if nonemptySqlBlock (referenceBlocks track code).2 then [(referenceBlocks track code).2]
      else [] := by
  have hrun : runOnSqlStatementMatches code track (blockMatcher code) ([], 0)
      = ((referenceBlocks track code).1, code.length - (referenceBlocks track code).2.length) := by
    unfold runOnSqlStatementMatches
    rw [run_eq_topRun (fun _ => rfl) (fun _ _ _ _ _ h => h) code 0 0 ([], 0) h,
      topRun_blockMatcher code 0 0 none [] 0 rfl (Nat.zero_le _) le_rfl fun h => absurd rfl h]
    unfold upTo
    rw [slice_self, attach_nil]
    rfl
  have hcode : (referenceBlocks track code).1.flatten ++ (referenceBlocks track code).2 = code := by
    unfold referenceBlocks
    rw [flatten_cut, map_fst_marks]
  unfold parseSqlBlocks
  rw [hrun]
  generalize referenceBlocks track code = r at hcode ⊢
  have hlen : code.length = r.1.flatten.length + r.2.length := by rw [← hcode, length_append]
  have hdrop : code.drop (code.length - r.2.length) = r.2 := by
    rw [show code.length - r.2.length = r.1.flatten.length by omega, ← hcode, drop_left]
  simp only [hdrop]
  cases htail : r.2 with
  | nil => simp [nonemptySqlBlock, lines, startsStatement]
  | cons c rest =>
    have hlt : code.length - (c :: rest).length < code.length := by
      rw [htail, length_cons] at hlen
      rw [length_cons]
      omega
    by_cases hkeep : nonemptySqlBlock (c :: rest) = true
    · simp only [hlt, hkeep, and_self, if_true]
    · simp only [hkeep, and_false, if_false, append_nil, Bool.false_eq_true]

end Slices

/-! ### What follows the last block -/

section Tail

variable {track : Bool} {P : Char → List Char → Prop} {c : Char} {rest : List Char}

lemma lines_eq : ∀ text, lines text = text.takeWhile (· != '\n') :: (lines text).tail
  | [] => rfl
  | c :: rest => by
    have ih := lines_eq rest
    unfold lines
    by_cases hc : c = '\n'
    · simp [hc]
    · rw [ih]
      simp [hc]

lemma mem_tail_lines {line} (hline : line ≠ []) : ∀ text,
    line ∈ (lines text).tail ↔ line ∈ lines (text.drop (lineLength text))
  | [] => by simpa [lines] using hline
  | c :: rest => by
    unfold lineLength
    by_cases hc : c = '\n'
    · simp [lines, hc]
    · have hlines : (lines (c :: rest)).tail = (lines rest).tail := by
        rw [lines, if_neg hc, lines_eq rest]
        rfl
      rw [if_neg hc, drop_succ_cons, ← mem_tail_lines hline rest, hlines]

lemma eachLine_space (hc : isSpace c = true) : EachLine P (c :: rest) ↔ EachLine P rest := by
  unfold EachLine
  by_cases hnl : c = '\n'
  · simp [lines, hnl]
  · have hlines : lines (c :: rest) = (c :: rest.takeWhile (· != '\n')) :: (lines rest).tail := by
      rw [lines, if_neg hnl, lines_eq rest]
      rfl
    rw [hlines, lines_eq rest, forall_mem_cons, forall_mem_cons, dropWhile_cons_of_pos hc]
    rfl

lemma eachLine_cons (hc : ¬isSpace c = true) :
    EachLine P (c :: rest) ↔ P c (rest.takeWhile (· != '\n')) ∧ EachLine P
    (rest.drop (lineLength rest)) := by
  have hnl : c ≠ '\n' := by
    rintro rfl
    exact hc rfl
  have hlines : lines (c :: rest) = (c :: rest.takeWhile (· != '\n')) :: (lines rest).tail := by
    rw [lines, if_neg hnl, lines_eq rest]
    rfl
  unfold EachLine
  rw [hlines, forall_mem_cons, dropWhile_cons_of_neg hc]
  refine and_congr ⟨fun h => h c _ rfl, fun h c' rest' heq => ?_⟩ ?_
  · obtain ⟨rfl, rfl⟩ := cons.inj heq
    exact h
  -- an empty line has no first character
  have hnil : ∀ {line : List Char} {c' rest'}, line.dropWhile isSpace = c' :: rest' →
      line ≠ [] := by
    rintro line c' rest' heq rfl
    cases heq
  exact ⟨fun h line hline c' rest' heq => h line ((mem_tail_lines (hnil heq) rest).mpr hline)
    c' rest' heq,
    fun h line hline c' rest' heq => h line ((mem_tail_lines (hnil heq) rest).mp hline)
    c' rest' heq⟩

lemma marks_skip (kind : Option Kind) : ∀ (n : ℕ) text,
    marks track text n kind = (text.take n).map (fun c => (c, kind)) ++ marks track
    (text.drop n) 0 none
  | 0, [] => rfl
  | 0, _ :: _ => rfl
  | _ + 1, [] => rfl
  | n + 1, c :: rest => congrArg ((c, kind) :: ·) (marks_skip kind n rest)

lemma blank_cons_of_none (h : token track c rest = none) :
    Blank track (c :: rest) ↔ isSpace c = true ∧ Blank track rest := by
  unfold Blank
  rw [marks, h]
  simp

lemma blank_cons_of_some {kind : Kind} {n : ℕ} (h : token track c rest = some (kind, n)) :
    Blank track (c :: rest) ↔ kind = .comment ∧ Blank track (rest.drop n) := by
  unfold Blank
  rw [marks, h]
  dsimp only
  rw [marks_skip]
  simp only [forall_mem_cons, forall_mem_append, forall_mem_map, reduceCtorEq, false_and, or_false,
    Option.some.injEq]
  exact ⟨fun h => ⟨h.1, h.2.2⟩, fun h => ⟨h.1, fun _ _ => h.1, h.2⟩⟩

lemma token_space (hc : isSpace c = true) : token track c rest = none := by
  have hne : ∀ c', isSpace c' = false → c ≠ c' := by
    rintro c' hc' rfl
    simp [hc] at hc'
  unfold token
  simp only [hne singleQuote rfl, hne doubleQuote rfl, hne '-' rfl, hne '/' rfl, hne '$' rfl,
    false_and, if_false]

lemma token_line (hrest : rest.head? = some '-') : token track '-' rest = some
    (.comment, lineLength rest) := by
  unfold token
  simp only [singleQuote, doubleQuote, hrest, Char.reduceEq, and_self, if_false, if_true]

lemma token_comment {n : ℕ} (h : token track c rest = some (.comment, n)) :
    c = '-' ∨ rest.head? = some '*' := by
  unfold token at h
  split_ifs at h with h₁ h₂ h₃ h₄ h₅
  · cases h
  · cases h
  · exact .inl h₃.1
  · exact .inr h₄.2
  · obtain ⟨tag, -, heq⟩ := Option.map_eq_some_iff.mp h
    cases heq

/-- **Lines whose first two characters are hyphens are comments**, and lines where only the second
one is are not. -/
theorem blank_iff (text : List Char) (h : HyphenSecond text) : Blank track text ↔
    HyphenFirst text := by
  match text with
  | [] =>
    refine iff_of_true nofun fun line hline c rest heq => ?_
    simp [mem_singleton.mp hline] at heq
  | c :: rest =>
    by_cases hc : isSpace c = true
    · have hsnd : HyphenSecond rest := (eachLine_space hc).mp h
      have ih := blank_iff rest hsnd
      have hfirst : HyphenFirst (c :: rest) ↔ HyphenFirst rest := eachLine_space hc
      rw [blank_cons_of_none (token_space hc), hfirst, ← ih]
      exact and_iff_right hc
    obtain ⟨hhead, hsnd⟩ : (rest.takeWhile (· != '\n')).head? = some '-' ∧
        HyphenSecond (rest.drop (lineLength rest)) := (eachLine_cons hc).mp h
    have hfirst : HyphenFirst (c :: rest) ↔ c = '-' ∧ HyphenFirst (rest.drop (lineLength rest)) :=
      eachLine_cons hc
    have hrest : rest.head? = some '-' := by
      cases rest with
      | nil => cases hhead
      | cons c' rest' =>
        rw [takeWhile_cons] at hhead
        split at hhead
        · exact hhead
        · cases hhead
    rw [hfirst]
    by_cases hhyp : c = '-'
    · subst hhyp
      have ih := blank_iff (rest.drop (lineLength rest)) hsnd
      rw [blank_cons_of_some (token_line hrest), ih]
      simp
    refine iff_of_false (fun hblank => ?_) fun h => hhyp h.1
    cases htok : token track c rest with
    | none => exact hc ((blank_cons_of_none htok).mp hblank).1
    | some t =>
      obtain ⟨kind, n⟩ := t
      cases ((blank_cons_of_some htok).mp hblank).1
      rcases token_comment htok with hc' | hstar
      · exact hhyp hc'
      · cases hrest.symm.trans hstar
termination_by text.length

lemma nonemptySqlBlock_eq_false {text} : nonemptySqlBlock text = false ↔ HyphenSecond text := by
  unfold nonemptySqlBlock HyphenSecond
  rw [any_eq_false]
  refine forall₂_congr fun line _ => ?_
  unfold startsStatement
  cases line.dropWhile isSpace with
  | nil => simp
  | cons c rest => simp

end Tail

/-- **Splitting agrees with the reference lexer** on a text without overlapping comment delimiters,
if and only if after the last semicolon the lines whose second character is a hyphen are comments,
or one of another form is there. -/
theorem splits_iff {track : Bool} {code : List Char} (h : Clean track code 0) :
    SplitsLikeReference track code ↔
    (HyphenSecond (referenceBlocks track code).2 → HyphenFirst (referenceBlocks track code).2) := by
  unfold SplitsLikeReference
  rw [parseSqlBlocks_eq h]
  by_cases hkeep : nonemptySqlBlock (referenceBlocks track code).2 = true
  · rw [if_pos hkeep]
    refine iff_of_true (.inl rfl) fun hsnd => ?_
    simp [nonemptySqlBlock_eq_false.mpr hsnd] at hkeep
  have hsnd := nonemptySqlBlock_eq_false.mp (Bool.eq_false_iff.mpr hkeep)
  rw [if_neg hkeep, append_nil, blank_iff _ hsnd]
  constructor
  · rintro (heq | ⟨-, hfirst⟩)
    · have hlen := congrArg length heq
      simp at hlen
    · exact fun _ => hfirst
  · exact fun hfirst => .inr ⟨rfl, hfirst hsnd⟩

def quotedSemicolons : List Char := "SELECT 1; -- one;\nSELECT \x27;\x27 /* ; */ ".toList

theorem quotedSemicolons_split : Clean true quotedSemicolons 0 ∧
    SplitsLikeReference true quotedSemicolons := by
  have hclean : Clean true quotedSemicolons 0 := by decide
  refine ⟨hclean, (splits_iff hclean).mpr fun hsnd => ?_⟩
  rw [← nonemptySqlBlock_eq_false] at hsnd
  exact absurd hsnd (by decide)

/-- A comment that its own star closes, a slash that closes a comment and opens another one, and a
statement that is dropped. -/
theorem overlapping_comments_split : ¬SplitsLikeReference true "/*/;*/".toList ∧
    ¬SplitsLikeReference true "/* a */* 2; SELECT 3".toList ∧
    ¬SplitsLikeReference true "SELECT 1; x-1".toList := by
  decide

end Windmill.Sql.Blocks
