import Mathlib.Data.Char
import Mathlib.Data.List.Lex
import Windmill.Queue.Interpolate
import Windmill.Sql.Signature
import Windmill.Worker.CachedResult

/-! # Debounce keys

Jobs with the same key are debounced into one. A runnable without a key of its own gets one from its
path and the values of the arguments (`resolve_debounce_key`, `windmill-queue/src/jobs.rs`): the
texts of the values are sorted and joined, the names are not part of the key. `keys_separate_iff`
says which jobs such keys separate. -/

namespace Windmill.Queue.DebounceKey

open App.Args (Fields get_eq_some_iff)
open Lib.JsonText Lib.JsonUnique Interpolate List
open Sql.Signature (byteLength)
open Worker.CachedResult (JobKind)

def isFlow : JobKind → Bool
  | .flow | .flowPreview | .singleStepFlow | .flowNode => true
  | _ => false

def fullpathWithWorkspace (workspaceId : Text) (scriptPath : Option Text)
    (jobKind : JobKind) : Text :=
  workspaceId ++ '/' :: ((if isFlow jobKind then "flow".toList else "script".toList) ++
    '/' :: scriptPath.getD "tmp/main".toList)

def kept (a : Fields RawJson) (ignored : Option String) : List (String × RawJson) :=
  a.entries.filter fun e => ignored ≠ some e.1

def values (a : Fields RawJson) (ignored : Option String) : List Text :=
  (kept a ignored).map fun e => e.2.text

def join (texts : List Text) : Text := [':'].intercalate texts

/-- The key without a template. -/
def defaultKey (runnablePath : Option Text) (workspaceId : Text) (jobKind : JobKind)
    (a : Fields RawJson) (ignored : Option String) : Text :=
  fullpathWithWorkspace workspaceId runnablePath jobKind ++
    ("#args:".toList ++ join ((values a ignored).insertionSort (· ≤ ·)))

def maxDebounceKeyLength : ℕ := 255

section

variable (cloud : Bool) (calculateHash : Text → Text) (W : Words) (serde : Serde)

def keyPrefix (workspaceId : Text) : Text := if cloud then workspaceId ++ [':'] else []

def maxKeyLength (workspaceId : Text) : ℕ :=
  maxDebounceKeyLength - byteLength (keyPrefix cloud workspaceId)

def originalKey (unresolved : Option Text) (runnablePath : Option Text) (workspaceId : Text)
    (jobKind : JobKind) (args : PushArgs) (ignored : Option String) : Text :=
  match unresolved with
  | some x => interpolateArgs W serde x args workspaceId
  | none => defaultKey runnablePath workspaceId jobKind args.args ignored

/-- The debounce key of a job; a long one is replaced by its hash. -/
def resolveDebounceKey (unresolved : Option Text) (runnablePath : Option Text) (workspaceId : Text)
    (jobKind : JobKind) (args : PushArgs) (ignored : Option String) : Text :=
  let original := originalKey W serde unresolved runnablePath workspaceId jobKind args ignored
  let resolved :=
    if byteLength original ≤ maxKeyLength cloud workspaceId then original
    else (calculateHash original).take (maxKeyLength cloud workspaceId)
  keyPrefix cloud workspaceId ++ resolved

end

/-- The arguments by their names, without the ignored one. -/
def argMap (a : Fields RawJson) (ignored : Option String) (name : String) : Option Text :=
  if ignored = some name then none else (a.get name).map RawJson.text

/-! ### Joined texts -/

lemma join_cons (t : Text) (texts : List Text) :
    join (t :: texts) = t ++ if texts.isEmpty then [] else ':' :: join texts := by
  cases texts with
  | nil => simp [join]
  | cons t' texts => simp [join, intercalate]

lemma stops_tail (texts : List Text) :
    Stops isNumberChar (if texts.isEmpty then [] else ':' :: join texts) := by
  cases texts with
  | nil => exact nofun
  | cons t texts => exact stops_cons (by decide)

lemma text_ne_nil (t : RawJson) : t.text ≠ [] := by
  obtain ⟨c, rest, htext, -⟩ := exists_text_eq_cons t
  rw [htext]
  exact cons_ne_nil c rest

/-- A JSON text ends by itself, so that a colon in one is not taken for the end. -/
lemma join_injective : ∀ {texts texts' : List Text}, (∀ x ∈ texts, ∃ t : RawJson, x = t.text) →
    (∀ x ∈ texts', ∃ t : RawJson, x = t.text) → join texts = join texts' → texts = texts'
  | [], [], _, _, _ => rfl
  | [], x' :: texts', _, h', heq => by
    obtain ⟨t', rfl⟩ := h' x' mem_cons_self
    rw [join_cons] at heq
    exact absurd (append_eq_nil_iff.mp heq.symm).1 (text_ne_nil t')
  | x :: texts, [], h, _, heq => by
    obtain ⟨t, rfl⟩ := h x mem_cons_self
    rw [join_cons] at heq
    exact absurd (append_eq_nil_iff.mp heq).1 (text_ne_nil t)
  | x :: texts, x' :: texts', h, h', heq => by
    obtain ⟨t, rfl⟩ := h x mem_cons_self
    obtain ⟨t', rfl⟩ := h' x' mem_cons_self
    rw [join_cons, join_cons] at heq
    obtain ⟨-, htail⟩ := value_eq_of_append_eq (stops_tail texts) (stops_tail texts') heq
    have htext : t.text = t'.text := by
      rw [htail] at heq
      exact append_cancel_right heq
    have hrest : texts = texts' := by
      cases texts with
      | nil =>
        cases texts' with
        | nil => rfl
        | cons y ys => cases htail
      | cons y ys =>
        cases texts' with
        | nil => cases htail
        | cons z zs =>
          exact join_injective (fun w hw => h w (mem_cons_of_mem _ hw))
            (fun w hw => h' w (mem_cons_of_mem _ hw)) (cons.inj htail).2
    rw [htext, hrest]

lemma insertionSort_eq_iff {l l' : List Text} : l.insertionSort (· ≤ ·) = l'.insertionSort (· ≤ ·) ↔
    l.Perm l' := by
  constructor
  · intro h
    exact (perm_insertionSort _ l).symm.trans (h ▸ perm_insertionSort _ l')
  · intro h
    refine List.Perm.eq_of_pairwise (fun _ _ _ _ => le_antisymm) (pairwise_insertionSort _ l)
      (pairwise_insertionSort _ l') ?_
    exact (perm_insertionSort _ l).trans (h.trans (perm_insertionSort _ l').symm)

/-! ### Keys and arguments -/

section

variable {path : Option Text} {ws : Text} {kind : JobKind} {a a' : Fields RawJson}
  {ignored : Option String}

lemma exists_text_of_mem_sort {x : Text} (h : x ∈ (values a ignored).insertionSort (· ≤ ·)) :
    ∃ t : RawJson, x = t.text := by
  obtain ⟨e, -, rfl⟩ := mem_map.mp ((perm_insertionSort _ _).mem_iff.mp h)
  exact ⟨e.2, rfl⟩

lemma defaultKey_eq_iff :
    defaultKey path ws kind a ignored = defaultKey path ws kind a' ignored ↔ (values a ignored).Perm
    (values a' ignored) := by
  rw [← insertionSort_eq_iff]
  constructor
  · intro h
    exact join_injective (fun _ => exists_text_of_mem_sort) (fun _ => exists_text_of_mem_sort)
      (append_cancel_left (append_cancel_left h))
  · intro h
    unfold defaultKey
    rw [h]

lemma mem_named_iff {name text} : (name, text) ∈ (kept a ignored).map (fun e => (e.1, e.2.text)) ↔
    argMap a ignored name = some text := by
  rw [mem_map, argMap]
  constructor
  · rintro ⟨⟨key, t⟩, hmem, heq⟩
    cases heq
    obtain ⟨hent, hkept⟩ := mem_filter.mp hmem
    rw [if_neg (of_decide_eq_true hkept), get_eq_some_iff.mpr hent]
    rfl
  · intro h
    split at h
    case isTrue => cases h
    case isFalse hne =>
      obtain ⟨t, hget, rfl⟩ := Option.map_eq_some_iff.mp h
      exact ⟨(name, t), mem_filter.mpr ⟨get_eq_some_iff.mp hget, decide_eq_true hne⟩, rfl⟩

lemma nodup_named : ((kept a ignored).map fun e => (e.1, e.2.text)).Nodup := by
  have hkeys : ((kept a ignored).map Prod.fst).Nodup :=
    a.nodup.sublist (filter_sublist.map Prod.fst)
  refine List.Nodup.of_map Prod.fst ?_
  rw [map_map]
  exact hkeys

lemma perm_values_of_argMap_eq (h : argMap a ignored = argMap a' ignored) :
    (values a ignored).Perm (values a' ignored) := by
  have hperm : ((kept a ignored).map fun e => (e.1, e.2.text)).Perm ((kept a' ignored).map fun e =>
      (e.1, e.2.text)) := by
    rw [perm_ext_iff_of_nodup nodup_named nodup_named]
    rintro ⟨name, text⟩
    rw [mem_named_iff, mem_named_iff, h]
  have hvals : ∀ b,
      values b ignored = ((kept b ignored).map fun e => (e.1, e.2.text)).map Prod.snd :=
    fun b => by rw [map_map]; rfl
  rw [hvals a, hvals a']
  exact hperm.map Prod.snd

end

section

variable {cloud : Bool} {calculateHash : Text → Text} {W : Words} {serde : Serde}
  {path : Option Text} {ws : Text}
  {kind : JobKind} {args args' : PushArgs} {ignored : Option String}

lemma resolve_of_short (h : byteLength (defaultKey path ws kind args.args ignored) ≤
    maxKeyLength cloud ws) :
    resolveDebounceKey cloud calculateHash W serde none path ws kind args ignored =
      keyPrefix cloud ws ++ defaultKey path ws kind args.args ignored := by
  unfold resolveDebounceKey originalKey
  dsimp only
  rw [if_pos h]

/-- **The keys separate different arguments** if and only if no other arguments have the same
values. -/
theorem keys_separate_iff
    (hshort : byteLength (defaultKey path ws kind args.args ignored) ≤ maxKeyLength cloud ws)
    (hshort' : byteLength (defaultKey path ws kind args'.args ignored) ≤ maxKeyLength cloud ws) :
    (resolveDebounceKey cloud calculateHash W serde none path ws kind args ignored =
        resolveDebounceKey cloud calculateHash W serde none path ws kind args' ignored ↔
      argMap args.args ignored = argMap args'.args ignored) ↔
    ((values args.args ignored).Perm (values args'.args ignored) →
      argMap args.args ignored = argMap args'.args ignored) := by
  rw [resolve_of_short hshort, resolve_of_short hshort', append_cancel_left_eq, defaultKey_eq_iff]
  exact ⟨fun h => h.mp, fun h => ⟨h, perm_values_of_argMap_eq⟩⟩

end

def twoArgs (x y : RawJson) : PushArgs where
  args := ⟨[("a", x), ("b", y)], show ["a", "b"].Nodup by decide⟩
  extra := none

def one : RawJson := digits ['1'] (by decide)

def two : RawJson := digits ['2'] (by decide)

theorem keys_of_other_values :
    byteLength (defaultKey none "w".toList .script (twoArgs one one).args none) ≤ 255 ∧
    byteLength (defaultKey none "w".toList .script (twoArgs one two).args none) ≤ 255 ∧
    resolveDebounceKey false id asciiWords verbatim none none "w".toList .script
    (twoArgs one one) none ≠
      resolveDebounceKey false id asciiWords verbatim none none "w".toList .script
      (twoArgs one two) none := by
  have hshort : byteLength (defaultKey none "w".toList .script (twoArgs one one).args none) ≤
      maxKeyLength false "w".toList := by decide +kernel
  have hshort' : byteLength (defaultKey none "w".toList .script (twoArgs one two).args none) ≤
      maxKeyLength false "w".toList := by decide +kernel
  have hperm : ¬(values (twoArgs one one).args none).Perm (values (twoArgs one two).args none) := by
    decide +kernel
  have hmaps : argMap (twoArgs one one).args none ≠ argMap (twoArgs one two).args none :=
    fun h => absurd (congrFun h "b") (by decide +kernel)
  refine ⟨hshort, hshort', fun h => hmaps ?_⟩
  exact ((keys_separate_iff hshort hshort').mpr fun h => absurd h hperm).mp h

theorem keys_of_swapped_values :
    byteLength (defaultKey none "w".toList .script (twoArgs one two).args none) ≤
    maxKeyLength false "w".toList ∧
    byteLength (defaultKey none "w".toList .script (twoArgs two one).args none) ≤
    maxKeyLength false "w".toList ∧
    resolveDebounceKey false id asciiWords verbatim none none "w".toList .script
    (twoArgs one two) none =
      resolveDebounceKey false id asciiWords verbatim none none "w".toList .script
      (twoArgs two one) none ∧
    argMap (twoArgs one two).args none ≠ argMap (twoArgs two one).args none := by
  refine ⟨by decide +kernel, by decide +kernel, by decide +kernel, fun h => ?_⟩
  exact absurd (congrFun h "a") (by decide +kernel)

end Windmill.Queue.DebounceKey
