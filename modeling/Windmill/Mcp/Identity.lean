import Windmill.Mcp.Tools
import Mathlib.Data.List.DropRight

/-! # Whether the name of a tool says which item it is

`transform_path` writes an underscore twice and a slash as one underscore, so that `_/` and `/_`
become the same text. `identified_iff` says for which items of a workspace the names are distinct
and are resolved to the items they were made from. -/

namespace Windmill.Mcp.Identity

open Names Tools List
open Lib.JsonText (replaceText)
open Sql.Signature (byteLength byteLength_append byteLength_of_ascii splitBytes_append)

variable {c : Char} {cs path path' start s : Text}

/-! ### Escaped paths -/

def Clean (path : Text) : Prop := path.IsChain fun c d => c = '/' → d ≠ '_' ∧ d ≠ '/'

lemma unescapePath_pair : unescapePath ('_' :: '_' :: cs) = '_' :: unescapePath cs := by
  have hpair : replaceText ['_', '_'] tempPlaceholder ('_' :: '_' :: cs) 0 =
      tempPlaceholder ++ replaceText ['_', '_'] tempPlaceholder cs 0 :=
      if_pos (prefix_append ['_', '_'] cs)
  unfold unescapePath
  exact if_pos (prefix_append tempPlaceholder _)

lemma unescapePath_cons (hpair : ¬['_', '_'] <+: c :: cs) (hc : c ≠ '@') :
    unescapePath (c :: cs) = (if c = '_' then '/' else c) :: unescapePath cs := by
  unfold unescapePath
  rw [replaceText, if_neg hpair, map_cons, replaceText, if_neg]
  intro hstart
  have hat : '@' = if c = '_' then '/' else c := (cons_prefix_cons.mp hstart).1
  split_ifs at hat
  · cases hat
  · exact hc hat.symm

def escapeChar (c : Char) : Text := if c = '_' then ['_', '_'] else if c = '/' then ['_'] else [c]

lemma escapePath_cons : escapePath (c :: path) = escapeChar c ++ escapePath path := by
  unfold escapePath escapeChar
  rw [flatMap_cons, map_append]
  split_ifs with h h'
  · rfl
  · rw [map_singleton, if_pos h']
  · rw [map_singleton, if_neg h']

lemma unescapePath_escapePath_cons (hat : c ≠ '@')
    (h : c = '/' → ∀ d ∈ path.head?, d ≠ '_' ∧ d ≠ '/') :
    unescapePath (escapePath (c :: path)) = c :: unescapePath (escapePath path) := by
  rw [escapePath_cons, escapeChar]
  split_ifs with hc hc'
  · rw [hc]
    exact unescapePath_pair
  · subst hc'
    refine unescapePath_cons (fun hpair => ?_) (by decide)
    cases path with
    | nil => simp [escapePath] at hpair
    | cons d path =>
      obtain ⟨hd, hd'⟩ := h rfl d rfl
      rw [escapePath_cons, escapeChar, if_neg hd, if_neg hd'] at hpair
      exact hd (cons_prefix_cons.mp (cons_prefix_cons.mp hpair).2).1.symm
  · refine (unescapePath_cons (fun hpair => hc (cons_prefix_cons.mp hpair).1.symm) hat).trans ?_
    rw [if_neg hc]
    rfl

lemma unescapePath_escapePath : ∀ {path}, '@' ∉ path → Clean path ∧ unescapePath
    (escapePath path) = path ∨
    ¬Clean path ∧ ∀ rest, ¬unescapePath (escapePath path) <+: path ++ rest
  | [], _ => .inl ⟨isChain_nil, rfl⟩
  | c :: path, hat => by
    have hclean : Clean (c :: path) ↔ (c = '/' → ∀ d ∈ path.head?, d ≠ '_' ∧ d ≠ '/') ∧
        Clean path := by
      unfold Clean
      rw [isChain_cons]
      exact and_congr_left' ⟨fun h hc d hd => h d hd hc, fun h d hd hc => h hc d hd⟩
    rw [hclean]
    rw [mem_cons, not_or] at hat
    by_cases hc : c = '/' → ∀ d ∈ path.head?, d ≠ '_' ∧ d ≠ '/'
    · rw [unescapePath_escapePath_cons (Ne.symm hat.1) hc, and_iff_right hc, cons_inj_right]
      refine (unescapePath_escapePath hat.2).imp_right (And.imp_right fun h rest hstart =>
        h rest ?_)
      exact (cons_prefix_cons.mp hstart).2
    refine .inr ⟨fun h => hc h.1, fun rest hstart => hc fun hsl d hd => ?_⟩
    subst hsl
    obtain ⟨path, rfl⟩ := head?_eq_some_iff.mp hd
    constructor
    · rintro rfl
      exact absurd (cons_prefix_cons.mp hstart).1 (by decide)
    · rintro rfl
      exact absurd (cons_prefix_cons.mp hstart).1 (by decide)

lemma unescapePath_eq_iff (hat : '@' ∉ path) : unescapePath (escapePath path) = path ↔
    Clean path := by
  rcases unescapePath_escapePath hat with ⟨hclean, heq⟩ | ⟨hno, hnot⟩
  · exact iff_of_true heq hclean
  · exact iff_of_false (fun heq => hnot [] (heq.symm ▸ prefix_append path [])) hno

lemma unescapePath_prefix_iff (hat : '@' ∉ path) (h : start <+: path) :
    unescapePath (escapePath start) <+: path ↔ Clean start := by
  obtain ⟨rest, rfl⟩ := h
  rcases unescapePath_escapePath (fun hmem => hat (mem_append_left rest hmem)) with ⟨hclean,
    heq⟩ | ⟨hno, hnot⟩
  · rw [heq]
    exact iff_of_true (prefix_append start rest) hclean
  · exact iff_of_false (hnot rest) hno

/-! ### Hashed names -/

lemma truncateToCharBoundary_prefix : ∀ s (n : ℕ), truncateToCharBoundary s n <+: s
  | [], _ => prefix_rfl
  | c :: s, n => by
    rw [truncateToCharBoundary]
    split_ifs
    · exact cons_prefix_cons.mpr ⟨rfl, truncateToCharBoundary_prefix s _⟩
    · exact nil_prefix

lemma exists_start : ∀ {path s}, s <+: escapePath path → ¬['_'] <:+ s → ∃ start,
    start <+: path ∧ escapePath start = s
  | _, [], _, _ => ⟨[], nil_prefix, rfl⟩
  | [], _ :: _, h, _ => absurd (prefix_nil.mp h) (cons_ne_nil _ _)
  | c :: path, d :: s, h, hlast => by
    have hnext : ∀ t, t <:+ d :: s → t <+: escapePath path → ∃ start, start <+: path ∧
        escapePath start = t :=
      fun t ht hpre => exists_start hpre fun hsuf => hlast (hsuf.trans ht)
    have hcases : escapeChar c = ['_', '_'] ∨ ∃ x, escapeChar c = [x] := by
      unfold escapeChar
      split_ifs
      · exact .inl rfl
      · exact .inr ⟨_, rfl⟩
      · exact .inr ⟨_, rfl⟩
    rw [escapePath_cons] at h
    rcases hcases with hc | ⟨x, hc⟩
    · rw [hc] at h
      obtain ⟨rfl, hs⟩ := cons_prefix_cons.mp h
      cases s with
      | nil => exact absurd suffix_rfl hlast
      | cons e s =>
        obtain ⟨rfl, hs'⟩ := cons_prefix_cons.mp hs
        obtain ⟨start, hstart, rfl⟩ := hnext s ((suffix_cons _ s).trans (suffix_cons _ _)) hs'
        exact ⟨c :: start, cons_prefix_cons.mpr ⟨rfl, hstart⟩, by rw [escapePath_cons, hc]; rfl⟩
    · rw [hc] at h
      obtain ⟨rfl, hs⟩ := cons_prefix_cons.mp h
      obtain ⟨start, hstart, rfl⟩ := hnext s (suffix_cons d s) hs
      exact ⟨c :: start, cons_prefix_cons.mpr ⟨rfl, hstart⟩, by rw [escapePath_cons, hc]; rfl⟩

def shows (path : Text) : Text :=
  (truncateToCharBoundary (escapePath path) (maxPathLength - 2 - hashLen)).rdropWhile (· = '_')

lemma exists_start_shows (path : Text) :
    ∃ start, start <+: path ∧ escapePath start = shows path := by
  have hcut : shows path <+: truncateToCharBoundary (escapePath path)
      (maxPathLength - 2 - hashLen) :=
    rdropWhile_prefix _ _
  refine exists_start (hcut.trans <| truncateToCharBoundary_prefix _ _) ?_
  rintro ⟨t, ht⟩
  unfold shows at ht
  have hlast := rdropWhile_last_not _ _ (ht ▸ append_ne_nil_of_right_ne_nil t (cons_ne_nil _ _))
  simp [← ht] at hlast

/-! ### Resolving -/

variable (C : Content) (config : McpScopeConfig)

def Shown (type : ItemType) (path : Text) : Prop :=
  ∃ item ∈ getItems C type config.favorites none, item.path = path

def shortName (type : ItemType) (path : Text) : Text := prefixChar type :: '-' :: escapePath path

def IsShort (path : Text) : Prop := byteLength (escapePath path) + 2 ≤ maxPathLength

def nameOf (type : ItemType) (path : Text) : Text := transformPath C.calculateHash path type

def digits (type : ItemType) (path : Text) : Text :=
  (C.calculateHash (shortName type path)).take hashLen

/-- The hash, on the names of the items that are listed. -/
structure Hashes : Prop where
  length : ∀ text, hashLen ≤ (C.calculateHash text).length
  ascii : ∀ text, ∀ c ∈ C.calculateHash text, c.utf8Size = 1
  injective : ∀ {type type' path path'}, Shown C config type path → Shown C config type' path' →
    ¬IsShort path →
    ¬IsShort path' → digits C type path = digits C type' path' → shortName type path =
    shortName type' path'

/-- The names are distinct, and each is resolved to its item. -/
structure Identified : Prop where
  distinct : ∀ {type type' path path'}, Shown C config type path → Shown C config type' path' →
    nameOf C type path = nameOf C type' path' → type = type' ∧ path = path'
  resolves : ∀ {type path}, Shown C config type path → resolve C config (nameOf C type path) =
    .ok (type, path, false)

/-- The names of the listed items can be told apart. -/
structure Unambiguous : Prop where
  short : ∀ {type path}, Shown C config type path → IsShort path → Clean path
  hashed : ∀ {type path start}, Shown C config type path → ¬IsShort path → start <+: path →
    escapePath start = shows path → Clean start
  distinct : ∀ {type path path'}, Shown C config type path → Shown C config type path' →
    ¬IsShort path → escapePath path = escapePath path' → path = path'

variable {C : Content} {config : McpScopeConfig} {type : ItemType}

lemma byteLength_shortName : byteLength (shortName type path) = byteLength
    (escapePath path) + 2 := by
  rw [Nat.add_comm]
  cases type <;> exact (Nat.add_assoc 1 1 _).symm

lemma nameOf_short (h : IsShort path) : nameOf C type path = shortName type path :=
  if_pos (byteLength_shortName.trans_le h)

lemma nameOf_hashed (h : ¬IsShort path) : nameOf C type path = (prefixChar type).toUpper :: '-' ::
    (truncateToCharBoundary (escapePath path) (maxPathLength - 2 - hashLen) ++
      digits C type path) :=
  if_neg fun hle => h (byteLength_shortName.symm.trans_le hle)

lemma resolve_short (h : IsShort path) :
    resolve C config (nameOf C type path) = .ok (type, unescapePath (escapePath path), false) := by
  rw [nameOf_short h]
  cases type <;> rfl

section

variable (h : Hashes C config)

include h

lemma Hashes.length_digits (type : ItemType) (path : Text) :
    (digits C type path).length = hashLen :=
  length_take_of_le (h.length _)

lemma Hashes.extractPathPrefix (type : ItemType) (hlong : ¬IsShort path) :
    ∃ start, extractPathPrefixFromHashed (nameOf C type path) = .ok start ∧ ∀ q,
    (∀ s ∈ start, s <+: q) ↔ unescapePath (shows path) <+: q := by
  rw [nameOf_hashed hlong, shows]
  generalize truncateToCharBoundary (escapePath path) (maxPathLength - 2 - hashLen) = t
  have hpre : hashedPrefixLen ((prefixChar type).toUpper :: '-' :: (t ++ digits C type path)) =
      some 2 := by
    cases type <;> rfl
  have hlen : byteLength ((prefixChar type).toUpper :: '-' :: (t ++ digits C type path)) =
      byteLength t + hashLen + 2 := by
    have hdig : byteLength (digits C type path) = hashLen :=
      (byteLength_of_ascii fun c hc => h.ascii _ c (mem_of_mem_take hc)).trans
        (h.length_digits type path)
    rw [← hdig, ← byteLength_append, Nat.add_comm]
    cases type <;> exact (Nat.add_assoc 1 1 _).symm
  unfold extractPathPrefixFromHashed
  rw [hpre, hlen]
  dsimp only
  split_ifs with hle
  · refine ⟨none, rfl, fun q => iff_of_true nofun ?_⟩
    cases t with
    | nil => exact nil_prefix
    | cons c t =>
      have hpos := Char.utf8Size_pos c
      have hcons : byteLength (c :: t) = c.utf8Size + byteLength t := rfl
      omega
  · rw [Nat.sub_right_comm, Nat.add_sub_cancel, Nat.add_sub_cancel, drop_succ_cons, drop_succ_cons,
      drop_zero, splitBytes_append]
    refine ⟨_, rfl, fun q => ?_⟩
    change (∀ s ∈ (if t.rdropWhile (· = '_') = [] then none
      else some (unescapePath (t.rdropWhile (· = '_')))), s <+: q) ↔ _
    split_ifs with hnil
    · rw [hnil]
      exact iff_of_true nofun nil_prefix
    · simp

lemma Hashes.resolve (type : ItemType) (hlong : ¬IsShort path) :
    ∃ start, (∀ q, (∀ s ∈ start, s <+: q) ↔ unescapePath (shows path) <+: q) ∧
      ∀ p, Tools.resolve C config (nameOf C type path) = .ok (type, p, false) ↔
        findMatchingPath C type (getItems C type config.favorites start) (nameOf C type path) =
        some p := by
  obtain ⟨start, hext, hstart⟩ := h.extractPathPrefix type hlong
  refine ⟨start, hstart, fun p => ?_⟩
  have hparse : parseToolPrefix (nameOf C type path) = .ok (type, false, true) := by
    rw [nameOf_hashed hlong]
    cases type <;> rfl
  unfold Tools.resolve
  rw [hparse, hext]
  dsimp only [bind, Except.bind]
  cases findMatchingPath C type (getItems C type config.favorites start)
    (nameOf C type path) <;> simp

lemma Hashes.escapePath_eq (hshown : Shown C config type path) (hshown' : Shown C config type path')
    (hlong : ¬IsShort path) (hname : nameOf C type path' = nameOf C type path) :
    escapePath path = escapePath path' := by
  by_cases hshort : IsShort path'
  · rw [nameOf_short hshort, nameOf_hashed hlong] at hname
    cases type <;> cases (cons.inj hname).1
  · rw [nameOf_hashed hshort, nameOf_hashed hlong] at hname
    have hlen := (h.length_digits type path').trans (h.length_digits type path).symm
    have hdig := (append_inj' (cons.inj (cons.inj hname).2).2 hlen).2
    exact (cons.inj (cons.inj (h.injective hshown hshown' hlong hshort hdig.symm)).2).2

lemma Unambiguous.resolves (hpaths : Unambiguous C config) (hat : '@' ∉ path)
    (hshown : Shown C config type path) :
    resolve C config (nameOf C type path) = .ok (type, path, false) := by
  by_cases hshort : IsShort path
  · rw [resolve_short hshort, (unescapePath_eq_iff hat).mpr (hpaths.short hshown hshort)]
  obtain ⟨start, hstart, hfind⟩ := h.resolve type hshort
  obtain ⟨p, hp, heq⟩ := exists_start_shows path
  have hcand : ∀ s ∈ start, s <+: path := by
    rw [hstart, ← heq, unescapePath_prefix_iff hat hp]
    exact hpaths.hashed hshown hshort hp heq
  rw [hfind]
  obtain ⟨item, hitem, rfl⟩ := hshown
  obtain ⟨hmem, hdep, hkind, hfav, -⟩ := mem_getItems.mp hitem
  have hsome : ((getItems C type config.favorites start).find? fun item' =>
      nameOf C type item'.path = nameOf C type item.path).isSome :=
    find?_isSome.mpr ⟨item, mem_getItems.mpr ⟨hmem, hdep, hkind, hfav, hcand⟩, decide_eq_true rfl⟩
  obtain ⟨found, hfound⟩ := Option.isSome_iff_exists.mp hsome
  obtain ⟨hmem', hdep', hkind', hfav', -⟩ := mem_getItems.mp (mem_of_find?_eq_some hfound)
  have hshown' : Shown C config type found.path :=
    ⟨found, mem_getItems.mpr ⟨hmem', hdep', hkind', hfav', nofun⟩, rfl⟩
  have hname := find?_some hfound
  have hesc := h.escapePath_eq ⟨item, hitem, rfl⟩ hshown' hshort (of_decide_eq_true hname)
  rw [hpaths.distinct ⟨item, hitem, rfl⟩ hshown' hshort hesc] at hfound ⊢
  exact Option.map_eq_some_iff.mpr ⟨found, hfound, rfl⟩

/-- **The names of the tools are distinct and resolved to their items** if and only if the paths can
be told apart. -/
theorem identified_iff (hat : ∀ {type path}, Shown C config type path → '@' ∉ path) :
    Identified C config ↔ Unambiguous C config := by
  constructor
  · intro hid
    constructor
    · intro type path hshown hshort
      have hres := hid.resolves hshown
      rw [resolve_short hshort] at hres
      exact (unescapePath_eq_iff (hat hshown)).mp (by injections)
    · intro type path p hshown hlong hp heq
      obtain ⟨start, hstart, hfind⟩ := h.resolve type hlong
      obtain ⟨item, hitem, rfl⟩ := Option.map_eq_some_iff.mp ((hfind path).mp (hid.resolves hshown))
      obtain ⟨-, -, -, -, hcand⟩ := mem_getItems.mp (mem_of_find?_eq_some hitem)
      rw [hstart, ← heq] at hcand
      exact (unescapePath_prefix_iff (hat hshown) hp).mp hcand
    · intro type path path' hshown hshown' _ heq
      refine (hid.distinct hshown hshown' ?_).2
      unfold nameOf transformPath
      rw [heq]
  · intro hpaths
    refine ⟨fun {type type' path path'} hshown hshown' heq => ?_, fun hshown =>
      hpaths.resolves h (hat hshown) hshown⟩
    have hres := hpaths.resolves h (hat hshown) hshown
    rw [heq, hpaths.resolves h (hat hshown') hshown'] at hres
    cases hres
    exact ⟨rfl, rfl⟩

end

/-! ### Two scripts with one name -/

/-- A workspace with the given scripts, whose hash tells texts apart by their last character. -/
def scripts (paths : List Text) : Content :=
  { sampleContent with
    items := fun
      | .script => paths.map (⟨·, false, false, none⟩)
      | .flow => []
    calculateHash := fun text => replicate hashLen (if text.getLast? = some 'a' then 'a' else 'b') }

section

variable {paths : List Text}

lemma shown_scripts : Shown (scripts paths) {} type path ↔ type = .script ∧ path ∈ paths := by
  unfold Shown
  simp only [mem_getItems]
  cases type with
  | script => simp [scripts, Item.deployed]
  | flow => simp [scripts]

lemma hashes_scripts (h : ∀ path ∈ paths, ∀ path' ∈ paths, ¬IsShort path → ¬IsShort path' →
    digits (scripts paths) .script path = digits (scripts paths) .script path' →
      shortName .script path = shortName .script path') : Hashes (scripts paths) {} where
  length _ := (length_replicate).ge
  ascii text c hc := by
    rw [eq_of_mem_replicate hc]
    split <;> rfl
  injective hshown hshown' hlong hlong' heq := by
    obtain ⟨rfl, hpath⟩ := shown_scripts.mp hshown
    obtain ⟨rfl, hpath'⟩ := shown_scripts.mp hshown'
    exact h _ hpath _ hpath' hlong hlong' heq

end

/-- A script with a short name and two whose hashed names show the same start of their paths. -/
def threePaths : List Text :=
  ["u/bob/job".toList, "f/reports/monthly/sales_by_region/job_a".toList,
    "f/reports/monthly/sales_by_region/job_b".toList]

/-- Both long paths are hashed, with the same shown start, and all three names are resolved. -/
theorem hashed_scripts_identified : (∀ path ∈ threePaths.tail, ¬IsShort path) ∧
    Identified (scripts threePaths) {} := by
  refine ⟨by unfold IsShort; decide, ?_⟩
  have hpath : ∀ {type path}, Shown (scripts threePaths) {} type path → path ∈ threePaths :=
    fun hshown => (shown_scripts.mp hshown).2
  have hclean : ∀ path ∈ threePaths, Clean path := by
    unfold Clean
    decide
  have hat : ∀ path ∈ threePaths, '@' ∉ path := by decide
  have hesc : ∀ path ∈ threePaths, ∀ path' ∈ threePaths, escapePath path = escapePath path' →
      path = path' := by decide
  have hhash : ∀ path ∈ threePaths, ∀ path' ∈ threePaths, ¬IsShort path → ¬IsShort path' →
      digits (scripts threePaths) .script path = digits (scripts threePaths) .script path' →
        shortName .script path = shortName .script path' := by
    unfold IsShort
    decide +kernel
  exact (identified_iff (hashes_scripts hhash) fun hshown => hat _ (hpath hshown)).mpr
    ⟨fun hshown _ => hclean _ (hpath hshown),
      fun hshown _ hstart _ => IsChain.prefix (hclean _ (hpath hshown)) hstart,
      fun hshown hshown' _ heq => hesc _ (hpath hshown) _ (hpath hshown') heq⟩

theorem same_name_not_identified : Hashes (scripts ["u/x_/y".toList, "u/x/_y".toList]) {} ∧
    ¬Identified (scripts ["u/x_/y".toList, "u/x/_y".toList]) {} := by
  refine ⟨hashes_scripts (by unfold IsShort; decide), fun hid => ?_⟩
  have hsame := hid.distinct (shown_scripts.mpr ⟨rfl, mem_cons_self⟩)
    (shown_scripts.mpr ⟨rfl, mem_cons_of_mem _ mem_cons_self⟩) (by decide +kernel)
  exact absurd hsame.2 (by decide)

end Windmill.Mcp.Identity
