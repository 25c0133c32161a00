import Windmill.Sql.Reference
import Windmill.Sql.Signature
import Windmill.Lib.Except

/-! # Placeholders and their declarations

The executor looks up the placeholders of each block among the arguments of the signature. The
blocks are found by the scanner, the arguments by regular expressions that know nothing of strings
and comments. Each placeholder of a block is found by them too (`mem_textIndices`), and `count_oidx`
says how often an index occurs in a signature. -/

namespace Windmill.Sql.Declared

open Lib Scanner Reference Signature
open List

variable {F : Type} {code rest block after : List Char} {T : Tables F} {typed : List ℕ}
  {track : Bool} {k : ℕ}

def declaredIndices (ds : List Declaration) : List ℕ := ds.filterMap fun d => parseI32 d.digits

def textIndices (us : List Usage) : List ℕ := us.filterMap fun u => parseI32 u.digits

/-- **Each placeholder that is used is declared once**, and there are no other arguments with an
index. -/
structure DeclaredOnce (T : Tables F) (code : List Char) (args : List (Arg F)) : Prop where
  once : ∀ block ∈ parseSqlBlocks code true, ∀ k ∈ parsePgStatementArgIndices block,
    (args.map Arg.oidx).count (some k) = 1
  grounded : ∀ a ∈ args, ∀ k, a.oidx = some k → k ∈ parsePgStatementArgIndices code ∨
    k ∈ declaredIndices (declarations T code)

def typedIndices (ds : List Declaration) : List ℕ :=
  ds.filterMap fun d => if d.typ.isSome then parseI32 d.digits else none

/-- The text itself has at most one type for each placeholder, and no dollar sign with digits is a
part of a literal or of a comment without being a placeholder elsewhere. -/
structure SingleTypes (T : Tables F) (code : List Char) : Prop where
  typed : ∀ block ∈ parseSqlBlocks code true, ∀ k ∈ parsePgStatementArgIndices block,
    (typedIndices (declarations T code)).count k ≤ 1
  textual : ∀ k ∈ textIndices (usages T code 0),
    k ∈ parsePgStatementArgIndices code ∨ k ∈ declaredIndices (declarations T code)

/-! ### The passes -/

lemma argDigit_eq_ok {digits} {idx : ℕ} (h : argDigit digits = .ok idx) :
    parseI32 digits = some idx := by
  unfold argDigit at h
  split at h
  · cases h
    assumption
  · cases h

lemma typedArgs_oidx : ∀ {ds args}, typedArgs T ds = .ok args →
    args.map Arg.oidx = (typedIndices ds).map some
  | [], args, h => by
    cases h
    rfl
  | cap :: caps, args, h => by
    obtain ⟨idx, hidx, h⟩ := Except.bind_eq_ok.mp h
    obtain ⟨args', hargs', h⟩ := Except.bind_eq_ok.mp h
    have ih := typedArgs_oidx hargs'
    have hparse := argDigit_eq_ok hidx
    unfold typedIndices at ih ⊢
    cases htyp : cap.typ with
    | none =>
      rw [htyp] at h
      cases h
      simpa [htyp] using ih
    | some typ =>
      rw [htyp] at h
      cases h
      simp [htyp, hparse, ih, typedArg]

lemma inferredTypes_keys : ∀ {us hm hm'},
    inferredTypes typed us hm = .ok hm' → (hm.map Prod.fst).Nodup →
      (hm'.map Prod.fst).Nodup ∧ (∀ u ∈ us, parseI32 u.digits ≠ none) ∧
        ∀ k, k ∈ hm'.map Prod.fst ↔ k ∈ hm.map Prod.fst ∨ k ∉ typed ∧ k ∈ textIndices us
  | [], hm, hm', h, hnd => by
    cases h
    refine ⟨hnd, fun u hu => absurd hu not_mem_nil, fun k => ?_⟩
    simp [textIndices]
  | cap :: caps, hm, hm', h, hnd => by
    unfold inferredTypes at h
    obtain ⟨idx, hidx, h⟩ := Except.bind_eq_ok.mp h
    have hparse := argDigit_eq_ok hidx
    have htext : textIndices (cap :: caps) = idx :: textIndices caps := filterMap_cons_some hparse
    split_ifs at h with htyped
    · obtain ⟨hnd', hall, hkeys⟩ := inferredTypes_keys h hnd
      refine ⟨hnd', forall_mem_cons.mpr ⟨by simp [hparse], hall⟩, fun k => ?_⟩
      rw [hkeys k, htext]
      refine or_congr_right (and_congr_right fun hk => ⟨mem_cons_of_mem _, fun h => ?_⟩)
      rcases mem_cons.mp h with rfl | h
      · exact absurd htyped hk
      · exact h
    obtain ⟨typ, -, h⟩ := Except.bind_eq_ok.mp h
    have hfilt : ((hm.filter (·.1 != idx) ++ [(idx, typ)]).map Prod.fst).Nodup := by
      rw [map_append, nodup_append]
      refine ⟨hnd.sublist (filter_sublist.map _), nodup_singleton _, ?_⟩
      intro k hk k' hk' heq
      obtain ⟨e, he, rfl⟩ := mem_map.mp hk
      cases mem_singleton.mp hk'
      simp [heq] at he
    obtain ⟨hnd', hall, hkeys⟩ := inferredTypes_keys h hfilt
    refine ⟨hnd', forall_mem_cons.mpr ⟨by simp [hparse], hall⟩, fun k => ?_⟩
    have hent : k ∈ (hm.filter (·.1 != idx) ++ [(idx, typ)]).map Prod.fst ↔ k ∈ hm.map Prod.fst ∨
        k = idx := by
      by_cases hk : k = idx
      · simp [hk]
      · simp [hk]
    rw [hkeys k, hent, htext, or_assoc, mem_cons]
    refine or_congr_right ⟨?_, ?_⟩
    · rintro (rfl | ⟨hk, hu⟩)
      · exact ⟨htyped, .inl rfl⟩
      · exact ⟨hk, .inr hu⟩
    · rintro ⟨hk, heq | hu⟩
      · exact .inl heq
      · exact .inr ⟨hk, hu⟩

lemma renameArg_oidx (args : List (Arg F)) (cap : Declaration) :
    (renameArg T typed args cap).map Arg.oidx = args.map Arg.oidx := by
  unfold renameArg
  split
  · rfl
  split_ifs
  · rfl
  · split
    · rfl
    · refine ext_getElem? fun n => ?_
      simp only [getElem?_map, getElem?_modify]
      split_ifs <;> simp [Function.comp_def]

lemma foldl_renameArg_oidx : ∀ (ds : List Declaration) (args : List (Arg F)),
    (ds.foldl (renameArg T typed) args).map Arg.oidx = args.map Arg.oidx
  | [], _ => rfl
  | cap :: ds, args => by rw [foldl_cons, foldl_renameArg_oidx ds, renameArg_oidx]

section Signature

variable {args : List (Arg F)} {typedSchema : Bool}

/-- **The indices of a signature**: those with a declared type, then each other one that the text
has. -/
theorem oidx_parsePgFile (h : parsePgFile T code = .ok (args, typedSchema)) :
    (∀ u ∈ usages T code 0, parseI32 u.digits ≠ none) ∧ ∃ inferred : List ℕ, inferred.Nodup ∧
    (∀ k, k ∈ inferred ↔ k ∉ typedIndices (declarations T code) ∧
      k ∈ textIndices (usages T code 0)) ∧ (args.map Arg.oidx).Perm
    ((typedIndices (declarations T code) ++ inferred).map some ++
      (T.interpolations code).map fun _ => none) := by
  unfold parsePgFile at h
  obtain ⟨typed, htyped, h⟩ := Except.bind_eq_ok.mp h
  obtain ⟨hm, hhm, h⟩ := Except.bind_eq_ok.mp h
  have hoidx := typedArgs_oidx htyped
  have hexp : typed.filterMap Arg.oidx = typedIndices (declarations T code) := by
    have hid := congrArg (filterMap id) hoidx
    simpa [filterMap_map, Function.comp_def] using hid
  obtain ⟨hnd, hall, hkeys⟩ := inferredTypes_keys hhm nodup_nil
  refine ⟨hall, hm.map Prod.fst, hnd, fun k => ?_, ?_⟩
  · rw [hkeys k, hexp]
    simp
  cases h
  have hinter : (parseSqlSanitizedInterpolation T code).map Arg.oidx
      = (T.interpolations code).map fun _ => none := by
    simp [parseSqlSanitizedInterpolation, Function.comp_def]
  have hsort := ((typed ++ hm.map (inferredArg T)).perm_insertionSort fun a b =>
    a.oidx.getD 0 ≤ b.oidx.getD 0).map Arg.oidx
  rw [map_append, foldl_renameArg_oidx, hinter]
  refine List.Perm.append_right _ (hsort.trans (List.Perm.of_eq ?_))
  rw [map_append, map_append, hoidx, map_map, map_map]
  rfl

lemma count_oidx (h : parsePgFile T code = .ok (args, typedSchema))
    (hk : k ∈ textIndices (usages T code 0)) :
    (args.map Arg.oidx).count (some k) = max 1 ((typedIndices (declarations T code)).count k) := by
  obtain ⟨-, inferred, hnd, hinf, hperm⟩ := oidx_parsePgFile h
  have hnone : ((T.interpolations code).map fun _ => (none : Option ℕ)).count (some k) = 0 := by
    simp [count_eq_zero]
  have hsome : ∀ l : List ℕ, (l.map some).count (some k) = l.count k :=
    fun l => count_map_of_injective l some (Option.some_injective ℕ) k
  rw [hperm.count_eq, count_append, hnone, hsome, count_append, Nat.add_zero]
  by_cases htyped : k ∈ typedIndices (declarations T code)
  · have hnot : inferred.count k = 0 := count_eq_zero.mpr fun hmem => ((hinf k).mp hmem).1 htyped
    have hpos := count_pos_iff.mpr htyped
    omega
  · have hone : inferred.count k = 1 := count_eq_one_of_mem hnd ((hinf k).mpr ⟨htyped, hk⟩)
    rw [hone, count_eq_zero.mpr htyped]
    rfl

end Signature

/-! ### The dollar signs of a text -/

section Usages

lemma dollar_notMem_takeWhile {p : Char → Bool} {text : List Char} (hp : p '$' = false) :
    '$' ∉ text.takeWhile p := by
  intro h
  simp [all_eq_true.mp all_takeWhile '$' h] at hp

lemma digits_usage (rest : List Char) : (usage T rest).digits = rest.takeWhile T.decimal := by
  unfold usage
  split
  · dsimp only
    split_ifs <;> rfl
  · rfl

lemma usage_noDollar (rest : List Char) :
    ∃ matched after, rest = matched ++ after ∧ matched.length = (usage T rest).length ∧
    '$' ∉ matched := by
  have hdig : '$' ∉ rest.takeWhile T.decimal :=
    dollar_notMem_takeWhile (T.decimal_ascii '$' (by decide))
  have hrest : rest = rest.takeWhile T.decimal ++ rest.dropWhile T.decimal :=
    takeWhile_append_dropWhile.symm
  unfold usage
  split
  · case _ typed htyped =>
    dsimp only
    split_ifs with hname hbrks
    · exact ⟨_, _, hrest, rfl, hdig⟩
    · -- with a type that ends with brackets
      have hword : '$' ∉ typed.takeWhile T.word :=
        dollar_notMem_takeWhile (T.word_ascii '$' (by decide))
      obtain ⟨after, hafter⟩ := isPrefixOf_iff_prefix.mp hbrks
      refine ⟨rest.takeWhile T.decimal ++ (':' :: ':' :: (typed.takeWhile T.word ++ ['[', ']'])),
        after, ?_, ?_, ?_⟩
      · conv_lhs => rw [hrest, htyped, ← takeWhile_append_dropWhile (p := T.word) (l := typed),
          ← hafter]
        simp
      · simp
        omega
      · simp [hdig, hword]
    · have hword : '$' ∉ typed.takeWhile T.word :=
        dollar_notMem_takeWhile (T.word_ascii '$' (by decide))
      refine ⟨rest.takeWhile T.decimal ++ (':' :: ':' :: typed.takeWhile T.word),
        typed.dropWhile T.word, ?_, ?_, ?_⟩
      · conv_lhs => rw [hrest, htyped, ← takeWhile_append_dropWhile (p := T.word) (l := typed)]
        simp
      · simp
        omega
      · simp [hdig, hword]
  · exact ⟨_, _, hrest, rfl, hdig⟩

lemma usages_skip : ∀ {matched : List Char}, '$' ∉ matched →
    usages T (matched ++ after) matched.length = usages T (matched ++ after) 0
  | [], _ => rfl
  | c :: matched, h => by
    rw [mem_cons, not_or] at h
    have hc : ¬(c = '$' ∧ (matched ++ after).head?.any T.decimal = true) :=
      fun hand => h.1 hand.1.symm
    rw [cons_append, length_cons, usages, usages, if_neg hc]
    exact usages_skip h.2

lemma mem_usages (hrest : rest.head?.any T.decimal = true) : ∀ start : List Char,
    usage T rest ∈ usages T (start ++ '$' :: rest) 0
  | [] => by
    rw [nil_append, usages, if_pos ⟨rfl, hrest⟩]
    exact mem_cons_self
  | c :: start => by
    have ih := mem_usages hrest start
    rw [cons_append, usages]
    split_ifs
    · obtain ⟨matched, after, happ, hlen, hdol⟩ := @usage_noDollar F T (start ++ '$' :: rest)
      rw [← hlen, happ, usages_skip hdol, ← happ]
      exact mem_cons_of_mem _ ih
    · exact ih

end Usages

/-! ### The placeholders of a block -/

lemma step_acc {σ : Type} {M track} (state : ParserState) (idx : ℕ) (c : Char) (rest : List Char)
    (acc : σ) : (step track M state idx c rest acc).2.2 = acc ∨
      M.cond c rest = true ∧ (step track M state idx c rest acc).2.2 = (M.case idx rest acc).1 := by
  have hquo : ∀ quote, (quoteStep quote c rest state acc).2.2 = acc := by
    intro quote
    unfold quoteStep
    split_ifs <;> rfl
  cases state with
  | inSingleQuote => exact .inl (hquo singleQuote)
  | inDoubleQuote => exact .inl (hquo doubleQuote)
  | inSingleLineComment | inMultiLineComment => exact .inl rfl
  | inDollarQuote delim =>
    unfold step
    dsimp only
    split_ifs <;> exact .inl rfl
  | normal =>
    unfold step
    dsimp only
    split
    · exact .inl rfl
    split
    · exact .inl rfl
    split
    · exact .inl rfl
    split
    · exact .inl rfl
    split
    · exact .inl rfl
    split_ifs with hcond
    · exact .inr ⟨hcond, rfl⟩
    · exact .inl rfl

lemma mem_run_indexMatcher : ∀ (text : List Char) (idx n : ℕ) (state : ParserState)
    (acc : List ℕ), k ∈ run track indexMatcher text idx n state acc →
      k ∈ acc ∨ ∃ start rest, text = start ++ '$' :: rest ∧ parseI32
      (rest.takeWhile Char.isDigit) = some k
  | [], _, _, _, _, h => .inl h
  | c :: rest, idx, n + 1, state, acc, h => by
    rcases mem_run_indexMatcher rest (idx + 1) n state acc h with h | ⟨start, rest', rfl, hparse⟩
    · exact .inl h
    · exact .inr ⟨c :: start, rest', rfl, hparse⟩
  | c :: rest, idx, 0, state, acc, h => by
    rw [run_cons] at h
    rcases mem_run_indexMatcher rest (idx + 1) _ _ _ h with h | ⟨start, rest', rfl, hparse⟩
    · rcases @step_acc _ indexMatcher track state idx c rest acc with hacc | ⟨hcond, hacc⟩
      · rw [hacc] at h
        exact .inl h
      have hc : c = '$' := beq_iff_eq.mp (Bool.and_eq_true _ _ ▸ hcond).1
      rw [hacc] at h
      simp only [indexMatcher] at h
      split at h
      · case _ i hi =>
        rcases mem_insert_iff.mp h with rfl | h
        · exact .inr ⟨[], rest, by rw [hc]; rfl, hi⟩
        · exact .inl h
      · exact .inl h
    · exact .inr ⟨c :: start, rest', rfl, hparse⟩

def Cut (code block : List Char) : Prop :=
  ∃ start rest, code = start ++ block ++ rest ∧ (rest = [] ∨ ∃ front, block = front ++ [';'])

lemma cut_slice {start idx : ℕ} (hcode : code.drop idx = ';' :: rest)
    (hle : start ≤ idx) : Cut code (slice code start (idx + 1)) := by
  have hlt : idx < code.length := by
    by_contra hge
    rw [drop_eq_nil_of_le (by omega)] at hcode
    cases hcode
  have htake : code.take (idx + 1) = code.take idx ++ [';'] := by
    rw [take_succ_eq_append_getElem hlt]
    rw [drop_eq_getElem_cons hlt] at hcode
    rw [(cons.inj hcode).1]
  refine ⟨code.take start, code.drop (idx + 1), ?_, .inr ⟨(code.take idx).drop start, ?_⟩⟩
  · have hstart : code.take start = (code.take (idx + 1)).take start := by
      rw [take_take, min_eq_left (by omega)]
    rw [slice, hstart, take_append_drop, take_append_drop]
  · rw [slice, htake, drop_append_of_le_length]
    rw [length_take]
    omega

lemma run_blockMatcher_cut : ∀ (text : List Char) (idx n : ℕ) (state : ParserState)
    (acc : List (List Char) × ℕ), code.drop idx = text → acc.2 ≤ idx →
    (∀ block ∈ acc.1, Cut code block) →
      ∀ block ∈ (run track (blockMatcher code) text idx n state acc).1, Cut code block
  | [], _, _, _, _, _, _, h => h
  | c :: rest, idx, n + 1, state, acc, hcode, hle, h =>
    run_blockMatcher_cut rest (idx + 1) n state acc (by rw [← drop_drop, hcode]; rfl) (by omega) h
  | c :: rest, idx, 0, state, acc, hcode, hle, h => by
    have hnext : code.drop (idx + 1) = rest := by
      rw [← drop_drop, hcode]
      rfl
    rw [run_cons]
    rcases @step_acc _ (blockMatcher code) track state idx c rest acc with hacc | ⟨hcond, hacc⟩
    · rw [hacc]
      exact run_blockMatcher_cut rest (idx + 1) _ _ acc hnext (by omega) h
    have hc : c = ';' := beq_iff_eq.mp hcond
    subst hc
    rw [hacc]
    refine run_blockMatcher_cut rest (idx + 1) _ _ _ hnext le_rfl fun block hblk => ?_
    rcases mem_append.mp hblk with hblk | hblk
    · exact h block hblk
    · rw [mem_singleton.mp hblk]
      exact cut_slice hcode hle

lemma cut_of_mem_parseSqlBlocks (h : block ∈ parseSqlBlocks code track) : Cut code block := by
  have hrun : ∀ b ∈ (run track (blockMatcher code) code 0 0 .normal ([], 0)).1, Cut code b :=
    run_blockMatcher_cut code 0 0 .normal ([], 0) rfl le_rfl fun b hb => absurd hb not_mem_nil
  unfold parseSqlBlocks runOnSqlStatementMatches at h
  dsimp only at h
  split_ifs at h
  · rcases mem_append.mp h with h | h
    · exact hrun block h
    · rw [mem_singleton.mp h]
      exact ⟨_, [], by rw [append_nil, take_append_drop], .inl rfl⟩
  · exact hrun block h

lemma takeWhile_congr_of_all {p q} (hqp : ∀ c, q c = true → p c = true) :
    ∀ text : List Char, (∀ c ∈ text.takeWhile p, q c = true) → text.takeWhile p = text.takeWhile q
  | [], _ => rfl
  | c :: text, h => by
    by_cases hp : p c = true
    · rw [takeWhile_cons_of_pos hp] at h ⊢
      have hq := h c mem_cons_self
      rw [takeWhile_cons_of_pos hq, takeWhile_congr_of_all hqp text fun d hd =>
        h d (mem_cons_of_mem c hd)]
    · have hq : ¬q c = true := fun hq => hp (hqp c hq)
      rw [takeWhile_cons_of_neg hp, takeWhile_cons_of_neg hq]

lemma decimal_of_isDigit (T : Tables F) (c : Char) (h : c.isDigit = true) : T.decimal c = true := by
  have hlt : c.toNat < 128 := by
    simp only [Char.isDigit, Bool.and_eq_true, decide_eq_true_eq] at h
    have hle : c.toNat ≤ 57 := h.2
    omega
  rw [T.decimal_ascii c hlt, h]

lemma takeWhile_of_cut {start} (h : after = [] ∨ ∃ front, start ++ '$' :: rest = front ++ [';']) :
    (rest ++ after).takeWhile Char.isDigit = rest.takeWhile Char.isDigit := by
  rcases h with rfl | ⟨front, hfront⟩
  · rw [append_nil]
  have hmem : ';' ∈ rest := by
    rcases eq_nil_or_concat rest with rfl | ⟨init, c, rfl⟩
    · have hlast := append_inj_right' hfront rfl
      cases hlast
    have hlast : (start ++ '$' :: init) ++ [c] = front ++ [';'] := by
      rw [← hfront]
      simp
    have hc := append_inj_right' hlast rfl
    cases hc
    simp
  have hne : (rest.takeWhile Char.isDigit).length ≠ rest.length := by
    intro heq
    have hall := (takeWhile_sublist Char.isDigit).eq_of_length heq
    rw [← hall] at hmem
    have hdig := all_eq_true.mp all_takeWhile ';' hmem
    revert hdig
    decide
  rw [takeWhile_append, if_neg hne]

/-- **Each placeholder of a block is one of the text.** -/
theorem mem_textIndices (hall : ∀ u ∈ usages T code 0, parseI32 u.digits ≠ none)
    (hblk : block ∈ parseSqlBlocks code true)
    (hk : k ∈ parsePgStatementArgIndices block) : k ∈ textIndices (usages T code 0) := by
  obtain ⟨before, after, hcode, hend⟩ := cut_of_mem_parseSqlBlocks hblk
  rcases mem_run_indexMatcher block 0 0 .normal [] hk with hnil | ⟨start, rest, rfl, hparse⟩
  · cases hnil
  have hcode' : code = (before ++ start) ++ '$' :: (rest ++ after) := by
    rw [hcode]
    simp
  have hhead : (rest ++ after).head?.any T.decimal = true := by
    cases rest with
    | nil => cases hparse
    | cons d rest =>
      by_cases hd : d.isDigit = true
      · exact decimal_of_isDigit T d hd
      · rw [takeWhile_cons_of_neg hd] at hparse
        cases hparse
  have hmem : usage T (rest ++ after) ∈ usages T code 0 := by
    rw [hcode']
    exact mem_usages hhead (before ++ start)
  obtain ⟨k', hk'⟩ := Option.ne_none_iff_exists'.mp (hall _ hmem)
  have hsame : (usage T (rest ++ after)).digits = rest.takeWhile Char.isDigit := by
    have hall' := isDigit_of_parseI32 hk'
    rw [digits_usage] at hall' ⊢
    rw [takeWhile_congr_of_all (decimal_of_isDigit T) _ hall', takeWhile_of_cut hend]
  refine mem_filterMap.mpr ⟨_, hmem, ?_⟩
  rw [hsame, hparse]

/-- **Each placeholder is declared once** exactly if the text has one type for each at most, and no
other dollar signs with digits. -/
theorem declaredOnce_iff {T : Tables F} {code : List Char} {args : List (Arg F)}
    {typedSchema : Bool}
    (h : parsePgFile T code = .ok (args, typedSchema)) : DeclaredOnce T code args ↔
    SingleTypes T code := by
  obtain ⟨hall, inferred, -, hinf, hperm⟩ := oidx_parsePgFile h
  have honce : ∀ block ∈ parseSqlBlocks code true, ∀ k ∈ parsePgStatementArgIndices block,
      ((args.map Arg.oidx).count (some k) = 1 ↔
        (typedIndices (declarations T code)).count k ≤ 1) := by
    intro block hblk k hk
    rw [count_oidx h (mem_textIndices hall hblk hk)]
    omega
  have hoidx : ∀ k, some k ∈ args.map Arg.oidx ↔
      k ∈ typedIndices (declarations T code) ∨ k ∈ textIndices (usages T code 0) := by
    intro k
    have hk := hinf k
    rw [hperm.mem_iff]
    simp only [mem_append, mem_map, Option.some.injEq, exists_eq_right, reduceCtorEq, and_false,
      exists_false, or_false]
    tauto
  constructor
  · intro hdecl
    refine ⟨fun block hblk k hk => (honce block hblk k hk).mp (hdecl.once block hblk k hk),
      fun k hk => ?_⟩
    obtain ⟨a, ha, hak⟩ := mem_map.mp ((hoidx k).mpr (.inr hk))
    exact hdecl.grounded a ha k hak
  · intro hsingle
    refine ⟨fun block hblk k hk => (honce block hblk k hk).mpr (hsingle.typed block hblk k hk),
      fun a ha k hak => ?_⟩
    rcases (hoidx k).mp (mem_map.mpr ⟨a, ha, hak⟩) with hk | hk
    · obtain ⟨d, hd, hk⟩ := mem_filterMap.mp hk
      split_ifs at hk
      exact .inr (mem_filterMap.mpr ⟨d, hd, hk⟩)
    · exact hsingle.textual k hk

def asciiTables : Tables Empty where
  decimal c := '0' ≤ c && c ≤ '9'
  word := isTagChar
  lowercase := List.map Char.toLower
  parseF64 _ := none
  interpolations _ := []
  decimal_ascii _ _ := rfl
  word_ascii _ _ := rfl

theorem typed_and_inferred :
    ∃ args, parsePgFile asciiTables "-- $1 name (text)\nSELECT $1, $2::int".toList
      = .ok (args, true) ∧ args.map Arg.oidx = [some 1, some 2] ∧
    DeclaredOnce asciiTables "-- $1 name (text)\nSELECT $1, $2::int".toList args :=
  ⟨_, rfl, rfl, (declaredOnce_iff rfl).mpr ⟨by decide, by decide⟩⟩

/-- A number in a literal becomes an argument; and an argument that is declared twice is returned
twice. -/
theorem literal_argument :
    (∃ args, parsePgFile asciiTables "SELECT '$5'".toList = .ok (args, false) ∧
      ¬DeclaredOnce asciiTables "SELECT '$5'".toList args) ∧
    ∃ args, parsePgFile asciiTables "-- $1 a (int)\n-- $1 b (int)\nSELECT $1".toList = .ok
    (args, true) ∧
      ¬DeclaredOnce asciiTables "-- $1 a (int)\n-- $1 b (int)\nSELECT $1".toList args := by
  refine ⟨⟨_, rfl, fun h => ?_⟩, _, rfl, fun h => ?_⟩
  · have hnot := h.grounded _ mem_cons_self 5 rfl
    revert hnot
    decide
  · have htwo := h.once _ mem_cons_self 1 (by decide)
    revert htwo
    decide

end Windmill.Sql.Declared
