import Windmill.Sql.Signature

/-! # The resources of scopes

A scope of a token is `domain:action`, with a kind for jobs that are run and a list of resources
(`windmill-api-auth/src/scopes.rs`): paths, `*`, or all below a folder (`p/*`). `resources_match`
looks for the slash behind a folder at the number of its bytes, among the characters of the path;
and in long lists it compares a resource without a star for equality only.
`resourcesMatch_exact_iff` says for which texts and lengths neither shows. -/

namespace Windmill.Auth.Scopes

open List

open Sql.Signature (byteLength byteLength_append byteLength_of_ascii)

inductive Error where
  | badRequest (message : String)
  | notAuthorized (message : String)
  deriving DecidableEq, Repr

structure ScopeDefinition where
  domain : List Char
  action : List Char
  kind : Option (List Char)
  resource : Option (List (List Char))
  deriving DecidableEq

def isJobsRun (domain action : List Char) : Bool := domain = "jobs".toList && action = "run".toList

def ScopeDefinition.fromScopeString (scope : List Char) : Except Error ScopeDefinition :=
  match scope.splitOn ':' with
  | [domain, action] => .ok ⟨domain, action, none, none⟩
  | [domain, action, third] =>
    if isJobsRun domain action then .ok ⟨domain, action, some third, none⟩
    else .ok ⟨domain, action, none, some (third.splitOn ',')⟩
  | [domain, action, kind, resources] =>
    if isJobsRun domain action then .ok ⟨domain, action, some kind, some (resources.splitOn ',')⟩
    else .error (.badRequest ("Invalid 4-part scope: " ++ String.ofList scope))
  | _ => .error (.badRequest ("Invalid scope format: " ++ String.ofList scope))

/-! ### Matching -/

def star : List Char := ['*']

def wildcardEnd : List Char := ['/', '*']

/-- The length of the start is in bytes, the position in characters. -/
def matchesWildcard (pattern resource : List Char) : Bool :=
  if !wildcardEnd.isSuffixOf pattern then false
  else
    let start := pattern.take (pattern.length - 2)
    if !start.isPrefixOf resource then false
    else if byteLength resource = byteLength start then true
    else resource[byteLength start]? = some '/'

def resourceMatchesPattern (scopeResource acceptedResource : List Char) : Bool :=
  if scopeResource = acceptedResource then true
  else matchesWildcard scopeResource acceptedResource ||
    matchesWildcard acceptedResource scopeResource

def resourcesMatchSmall (scopeResources acceptedResources : List (List Char)) : Bool :=
  acceptedResources.any fun required => scopeResources.any fun scopeResource =>
    resourceMatchesPattern scopeResource required

def resourcesMatchLarge (scopeResources acceptedResources : List (List Char)) : Bool :=
  let exactMatches := scopeResources.filter ('*' ∉ ·)
  let patterns := scopeResources.filter ('*' ∈ ·)
  acceptedResources.any fun accepted =>
    accepted ∈ exactMatches || patterns.any fun pattern => resourceMatchesPattern pattern accepted

def isSmall (scopeResources acceptedResources : List (List Char)) : Bool :=
  scopeResources.length ≤ 4 && acceptedResources.length ≤ 4

/-- `resources_match`, with its two searches. -/
def resourcesMatch (scopeResources acceptedResources : List (List Char)) : Bool :=
  if star ∈ scopeResources || star ∈ acceptedResources then true
  else if isSmall scopeResources acceptedResources
    then resourcesMatchSmall scopeResources acceptedResources
  else resourcesMatchLarge scopeResources acceptedResources

/-! ### What the patterns mean -/

def Within (folder resource : List Char) : Prop := resource = folder ∨ folder ++ ['/'] <+: resource

def Covers (pattern resource : List Char) : Prop :=
  ∃ folder, pattern = folder ++ wildcardEnd ∧ Within folder resource

def Grants (s a : List Char) : Prop := s = a ∨ s = star ∨ a = star ∨ Covers s a ∨ Covers a s

/-- **The lists have a pair that matches.** -/
def SomeGrants (S A : List (List Char)) : Prop := ∃ s ∈ S, ∃ a ∈ A, Grants s a

def excess (folder : List Char) : ℕ := byteLength folder - folder.length

/-- As `Covers`, but the slash stands further on if the folder has characters of several bytes. -/
def CoversShifted (pattern resource : List Char) : Prop :=
  ∃ folder rest, pattern = folder ++ wildcardEnd ∧ resource = folder ++ rest ∧
    (rest = [] ∨ rest[excess folder]? = some '/')

/-- What is found for a pair: a resource without a star is no pattern's instance in long lists. -/
def Found (small : Bool) (s a : List Char) : Prop :=
  s = a ∨ s = star ∨ a = star ∨ CoversShifted s a ∨ (small = true ∨ '*' ∈ s) ∧ CoversShifted a s

/-! ### What goes wrong -/

/-- One of the two is `folder/*`, and the other goes on with `rest` after the folder. -/
def Meets (folder rest s a : List Char) : Prop :=
  s = folder ++ wildcardEnd ∧ a = folder ++ rest ∨ a = folder ++ wildcardEnd ∧ s = folder ++ rest

/-- A pair that matches in plain sight: equal texts, a star, or a folder and what is in it, in short
lists or with a star in the scope's resource, where a slash stands behind the folder and also so
many characters later as the folder has bytes more than characters. -/
def Seen (small : Bool) (s a : List Char) : Prop :=
  s = a ∨ s = star ∨ a = star ∨ ∃ folder rest, Meets folder rest s a ∧ (small = true ∨ '*' ∈ s) ∧
    (rest = [] ∨ rest.head? = some '/' ∧ rest[excess folder]? = some '/')

/-- No slash stands behind the folder, but one does so many characters later. -/
def Overshot (small : Bool) (s a : List Char) : Prop :=
  ∃ folder rest, Meets folder rest s a ∧ (small = true ∨ '*' ∈ s) ∧
    rest.head? ≠ some '/' ∧ rest[excess folder]? = some '/'

/-- A slash stands behind the folder, but none so many characters later; or the lists are long and
the scope's resource, which has no star, is in the requested folder. -/
def Missed (small : Bool) (s a : List Char) : Prop :=
  ∃ folder rest, Meets folder rest s a ∧
    (rest.head? = some '/' ∧ rest[excess folder]? ≠ some '/' ∨
      small = false ∧ '*' ∉ s ∧ (rest = [] ∨ rest.head? = some '/'))

/-- An empty list stands beside no star, and a pair matches in plain sight, or pairs are granted
wrongly exactly if some are missed. -/
structure JudgedRight (S A : List (List Char)) : Prop where
  nonempty : S = [] ∨ A = [] → star ∉ S ∧ star ∉ A
  pairs : (∃ s ∈ S, ∃ a ∈ A, Seen (isSmall S A) s a) ∨
    ((∃ s ∈ S, ∃ a ∈ A, Overshot (isSmall S A) s a) ↔ ∃ s ∈ S, ∃ a ∈ A, Missed (isSmall S A) s a)

section

variable {pattern resource folder rest s a : List Char} {S A : List (List Char)} {small : Bool}

lemma length_le_byteLength : ∀ text, text.length ≤ byteLength text
  | [] => le_rfl
  | c :: text => by
    have hpos : 0 < c.utf8Size := Char.utf8Size_pos c
    have ih : text.length ≤ byteLength text := length_le_byteLength text
    have hcons : byteLength (c :: text) = c.utf8Size + byteLength text := by simp [byteLength]
    rw [length_cons]
    omega

lemma wildcardEnd_isSuffixOf_iff : wildcardEnd.isSuffixOf pattern = true ↔
    ∃ folder, pattern = folder ++ wildcardEnd := by
  rw [isSuffixOf_iff_suffix]
  constructor
  · rintro ⟨folder, rfl⟩
    exact ⟨folder, rfl⟩
  · rintro ⟨folder, rfl⟩
    exact suffix_append folder wildcardEnd

lemma take_append_wildcardEnd : (folder ++ wildcardEnd).take ((folder ++ wildcardEnd).length - 2) =
    folder := by
  have hlen : (folder ++ wildcardEnd).length - 2 = folder.length := by simp [wildcardEnd]
  rw [hlen, take_left]

lemma byteLength_append_eq_iff : byteLength (folder ++ rest) = byteLength folder ↔ rest = [] := by
  rw [byteLength_append]
  constructor
  · intro h
    have hle := length_le_byteLength rest
    exact length_eq_zero_iff.mp (by omega)
  · rintro rfl
    rfl

lemma matchesWildcard_append : matchesWildcard (folder ++ wildcardEnd) resource = true ↔
    ∃ rest, resource = folder ++ rest ∧ (rest = [] ∨ rest[excess folder]? = some '/') := by
  have hend : wildcardEnd.isSuffixOf (folder ++ wildcardEnd) = true :=
    wildcardEnd_isSuffixOf_iff.mpr ⟨folder, rfl⟩
  unfold matchesWildcard
  rw [hend, take_append_wildcardEnd]
  dsimp only
  rw [Bool.not_true, if_neg Bool.false_ne_true]
  cases hpref : folder.isPrefixOf resource with
  | false =>
    refine iff_of_false (by simp) ?_
    rintro ⟨rest, rfl, -⟩
    exact Bool.false_ne_true (hpref.symm.trans <|
      isPrefixOf_iff_prefix.mpr (prefix_append folder rest))
  | true =>
    obtain ⟨rest, rfl⟩ := isPrefixOf_iff_prefix.mp hpref
    have hrest : (∃ rest', folder ++ rest = folder ++ rest' ∧
      (rest' = [] ∨ rest'[excess folder]? = some '/')) ↔
        rest = [] ∨ rest[excess folder]? = some '/' := by
      constructor
      · rintro ⟨rest', heq, h⟩
        rwa [append_cancel_left heq]
      · intro h
        exact ⟨rest, rfl, h⟩
    rw [hrest, Bool.not_true, if_neg Bool.false_ne_true,
      getElem?_append_right (length_le_byteLength folder)]
    by_cases hnil : rest = []
    · rw [if_pos (byteLength_append_eq_iff.mpr hnil)]
      exact iff_of_true rfl (.inl hnil)
    · rw [if_neg (mt byteLength_append_eq_iff.mp hnil), decide_eq_true_eq]
      exact ⟨.inr, fun h => h.resolve_left hnil⟩

lemma matchesWildcard_iff : matchesWildcard pattern resource = true ↔
    CoversShifted pattern resource := by
  by_cases hend : ∃ folder, pattern = folder ++ wildcardEnd
  · obtain ⟨folder, rfl⟩ := hend
    rw [matchesWildcard_append]
    constructor
    · rintro ⟨rest, hrest, h⟩
      exact ⟨folder, rest, rfl, hrest, h⟩
    · rintro ⟨folder', rest, heq, hrest, h⟩
      cases append_cancel_right heq
      exact ⟨rest, hrest, h⟩
  · have hsuf : wildcardEnd.isSuffixOf pattern = false :=
      Bool.eq_false_iff.mpr (mt wildcardEnd_isSuffixOf_iff.mp hend)
    unfold matchesWildcard
    rw [hsuf]
    refine iff_of_false (by simp) ?_
    rintro ⟨folder, rest, heq, -⟩
    exact hend ⟨folder, heq⟩

lemma resourceMatchesPattern_iff :
    resourceMatchesPattern s a = true ↔ s = a ∨ CoversShifted s a ∨ CoversShifted a s := by
  unfold resourceMatchesPattern
  split_ifs with heq
  · exact iff_of_true rfl (.inl heq)
  · rw [Bool.or_eq_true, matchesWildcard_iff, matchesWildcard_iff]
    exact ⟨.inr, fun h => h.resolve_left heq⟩

lemma found_of_small (hs : s ≠ star) (ha : a ≠ star) : Found true s a ↔
    resourceMatchesPattern s a = true := by
  rw [resourceMatchesPattern_iff]
  unfold Found
  simp only [hs, ha, true_or, true_and, false_or]

lemma found_of_large (hs : s ≠ star) (ha : a ≠ star) :
    Found false s a ↔ '*' ∉ s ∧ s = a ∨ '*' ∈ s ∧ resourceMatchesPattern s a = true := by
  have hcovers : CoversShifted s a → '*' ∈ s := by
    rintro ⟨folder, rest, rfl, -⟩
    simp [wildcardEnd]
  rw [resourceMatchesPattern_iff]
  unfold Found
  tauto

lemma resourcesMatch_iff : resourcesMatch S A = true ↔
    (star ∈ S ∨ star ∈ A) ∨ ∃ s ∈ S, ∃ a ∈ A, Found (isSmall S A) s a := by
  unfold resourcesMatch
  by_cases hstar : star ∈ S ∨ star ∈ A
  · rw [if_pos (by simpa using hstar)]
    exact iff_of_true rfl (.inl hstar)
  have hS : ∀ s ∈ S, s ≠ star := by
    rintro s hs rfl
    exact hstar (.inl hs)
  have hA : ∀ a ∈ A, a ≠ star := by
    rintro a ha rfl
    exact hstar (.inr ha)
  rw [if_neg (by simpa using hstar), or_iff_right hstar]
  cases hsmall : isSmall S A with
  | true =>
    rw [if_pos rfl]
    unfold resourcesMatchSmall
    rw [any_eq_true]
    constructor
    · rintro ⟨a, ha, hany⟩
      obtain ⟨s, hs, hmatch⟩ := any_eq_true.mp hany
      exact ⟨s, hs, a, ha, (found_of_small (hS s hs) (hA a ha)).mpr hmatch⟩
    · rintro ⟨s, hs, a, ha, hfound⟩
      exact ⟨a, ha, any_eq_true.mpr ⟨s, hs, (found_of_small (hS s hs) (hA a ha)).mp hfound⟩⟩
  | false =>
    rw [if_neg Bool.false_ne_true]
    unfold resourcesMatchLarge
    rw [any_eq_true]
    constructor
    · rintro ⟨a, ha, hany⟩
      rcases (Bool.or_eq_true _ _).mp hany with hexact | hpat
      · obtain ⟨hs, hno⟩ := mem_filter.mp (of_decide_eq_true hexact)
        exact ⟨a, hs, a, ha, .inl rfl⟩
      · obtain ⟨s, hs, hmatch⟩ := any_eq_true.mp hpat
        obtain ⟨hs, hmem⟩ := mem_filter.mp hs
        exact ⟨s, hs, a, ha, (found_of_large (hS s hs) (hA a ha)).mpr
          (.inr ⟨of_decide_eq_true hmem, hmatch⟩)⟩
    · rintro ⟨s, hs, a, ha, hfound⟩
      refine ⟨a, ha, (Bool.or_eq_true _ _).mpr ?_⟩
      rcases (found_of_large (hS s hs) (hA a ha)).mp hfound with ⟨hno, rfl⟩ | ⟨hmem, hmatch⟩
      · exact .inl (decide_eq_true (mem_filter.mpr ⟨hs, decide_eq_true hno⟩))
      · exact .inr (any_eq_true.mpr ⟨s, mem_filter.mpr ⟨hs, decide_eq_true hmem⟩, hmatch⟩)

lemma within_iff : Within folder resource ↔
    ∃ rest, resource = folder ++ rest ∧ (rest = [] ∨ rest.head? = some '/') := by
  constructor
  · rintro (rfl | ⟨rest, rfl⟩)
    · exact ⟨[], by simp⟩
    · exact ⟨'/' :: rest, by simp⟩
  · rintro ⟨rest, rfl, rfl | hslash⟩
    · exact .inl (append_nil folder)
    · obtain ⟨rest', rfl⟩ := head?_eq_some_iff.mp hslash
      exact .inr ⟨rest', by simp⟩

lemma found_iff_meets : Found small s a ↔ s = a ∨ s = star ∨ a = star ∨
    ∃ folder rest, Meets folder rest s a ∧ (small = true ∨ '*' ∈ s) ∧
      (rest = [] ∨ rest[excess folder]? = some '/') := by
  have hcovers : CoversShifted s a ∨ (small = true ∨ '*' ∈ s) ∧ CoversShifted a s ↔
      ∃ folder rest, Meets folder rest s a ∧ (small = true ∨ '*' ∈ s) ∧
        (rest = [] ∨ rest[excess folder]? = some '/') := by
    constructor
    · rintro (⟨folder, rest, rfl, rfl, h⟩ | ⟨hlook, folder, rest, rfl, rfl, h⟩)
      · exact ⟨folder, rest, .inl ⟨rfl, rfl⟩, .inr (by simp [wildcardEnd]), h⟩
      · exact ⟨folder, rest, .inr ⟨rfl, rfl⟩, hlook, h⟩
    · rintro ⟨folder, rest, ⟨rfl, rfl⟩ | ⟨rfl, rfl⟩, hlook, h⟩
      · exact .inl ⟨folder, rest, rfl, rfl, h⟩
      · exact .inr ⟨hlook, folder, rest, rfl, rfl, h⟩
  unfold Found
  rw [hcovers]

lemma grants_iff_meets : Grants s a ↔ s = a ∨ s = star ∨ a = star ∨
    ∃ folder rest, Meets folder rest s a ∧ (rest = [] ∨ rest.head? = some '/') := by
  have hcovers : Covers s a ∨ Covers a s ↔
      ∃ folder rest, Meets folder rest s a ∧ (rest = [] ∨ rest.head? = some '/') := by
    unfold Covers
    simp only [within_iff]
    constructor
    · rintro (⟨folder, rfl, rest, rfl, h⟩ | ⟨folder, rfl, rest, rfl, h⟩)
      · exact ⟨folder, rest, .inl ⟨rfl, rfl⟩, h⟩
      · exact ⟨folder, rest, .inr ⟨rfl, rfl⟩, h⟩
    · rintro ⟨folder, rest, ⟨rfl, rfl⟩ | ⟨rfl, rfl⟩, h⟩
      · exact .inl ⟨folder, rfl, rest, rfl, h⟩
      · exact .inr ⟨folder, rfl, rest, rfl, h⟩
  unfold Grants
  rw [hcovers]

lemma found_iff : Found small s a ↔ Seen small s a ∨ Overshot small s a := by
  rw [found_iff_meets]
  constructor
  · rintro (h | h | h | ⟨folder, rest, hmeets, hlook, h⟩)
    · exact .inl (.inl h)
    · exact .inl (.inr (.inl h))
    · exact .inl (.inr (.inr (.inl h)))
    · rcases h with hnil | hlate
      · exact .inl (.inr (.inr (.inr ⟨folder, rest, hmeets, hlook, .inl hnil⟩)))
      · by_cases hslash : rest.head? = some '/'
        · exact .inl (.inr (.inr (.inr ⟨folder, rest, hmeets, hlook, .inr ⟨hslash, hlate⟩⟩)))
        · exact .inr ⟨folder, rest, hmeets, hlook, hslash, hlate⟩
  · rintro ((h | h | h | ⟨folder, rest, hmeets, hlook, h⟩) | ⟨folder, rest, hmeets, hlook,
      -, hlate⟩)
    · exact .inl h
    · exact .inr (.inl h)
    · exact .inr (.inr (.inl h))
    · exact .inr (.inr (.inr ⟨folder, rest, hmeets, hlook, h.imp_right And.right⟩))
    · exact .inr (.inr (.inr ⟨folder, rest, hmeets, hlook, .inr hlate⟩))

lemma grants_iff : Grants s a ↔ Seen small s a ∨ Missed small s a := by
  rw [grants_iff_meets]
  constructor
  · rintro (h | h | h | ⟨folder, rest, hmeets, h⟩)
    · exact .inl (.inl h)
    · exact .inl (.inr (.inl h))
    · exact .inl (.inr (.inr (.inl h)))
    · by_cases hlook : small = true ∨ '*' ∈ s
      · rcases h with hnil | hslash
        · exact .inl (.inr (.inr (.inr ⟨folder, rest, hmeets, hlook, .inl hnil⟩)))
        · by_cases hlate : rest[excess folder]? = some '/'
          · exact .inl (.inr (.inr (.inr ⟨folder, rest, hmeets, hlook, .inr ⟨hslash, hlate⟩⟩)))
          · exact .inr ⟨folder, rest, hmeets, .inl ⟨hslash, hlate⟩⟩
      · obtain ⟨hlong, hno⟩ := not_or.mp hlook
        exact .inr ⟨folder, rest, hmeets, .inr ⟨Bool.eq_false_iff.mpr hlong, hno, h⟩⟩
  · rintro ((h | h | h | ⟨folder, rest, hmeets, -, h⟩) | ⟨folder, rest, hmeets,
      ⟨hslash, -⟩ | ⟨-, -, h⟩⟩)
    · exact .inl h
    · exact .inr (.inl h)
    · exact .inr (.inr (.inl h))
    · exact .inr (.inr (.inr ⟨folder, rest, hmeets, h.imp_right And.left⟩))
    · exact .inr (.inr (.inr ⟨folder, rest, hmeets, .inr hslash⟩))
    · exact .inr (.inr (.inr ⟨folder, rest, hmeets, h⟩))

lemma or_iff_or_iff {r p q : Prop} : (r ∨ p ↔ r ∨ q) ↔ r ∨ (p ↔ q) := by tauto

/-- **Two lists match as their patterns say** if and only if the pairs are judged right. -/
theorem resourcesMatch_exact_iff : (resourcesMatch S A = true ↔ SomeGrants S A) ↔
    JudgedRight S A := by
  rw [resourcesMatch_iff]
  by_cases hemp : S = [] ∨ A = []
  · have hno : ∀ P : List Char → List Char → Prop, ¬∃ s ∈ S, ∃ a ∈ A, P s a := by
      rintro P ⟨s, hs, a, ha, -⟩
      rcases hemp with rfl | rfl
      · cases hs
      · cases ha
    constructor
    · intro h
      have hstar : ¬(star ∈ S ∨ star ∈ A) := fun hmem => hno _ (h.mp (.inl hmem))
      exact ⟨fun _ => not_or.mp hstar, .inr (iff_of_false (hno _) (hno _))⟩
    · intro h
      have hstar := not_or.mpr (h.nonempty hemp)
      exact iff_of_false (not_or.mpr ⟨hstar, hno _⟩) (hno _)
  · have hstar : (star ∈ S ∨ star ∈ A) → ∃ s ∈ S, ∃ a ∈ A, Found (isSmall S A) s a := by
      obtain ⟨s, hs⟩ := exists_mem_of_ne_nil S (not_or.mp hemp).1
      obtain ⟨a, ha⟩ := exists_mem_of_ne_nil A (not_or.mp hemp).2
      rintro (hmem | hmem)
      · exact ⟨star, hmem, a, ha, .inr (.inl rfl)⟩
      · exact ⟨s, hs, star, hmem, .inr (.inr (.inl rfl))⟩
    have hfound : ((star ∈ S ∨ star ∈ A) ∨ ∃ s ∈ S, ∃ a ∈ A, Found (isSmall S A) s a) ↔
        ∃ s ∈ S, ∃ a ∈ A, Found (isSmall S A) s a := ⟨fun h => h.elim hstar id, .inr⟩
    unfold SomeGrants
    rw [hfound]
    simp only [found_iff, @grants_iff _ _ (isSmall S A), and_or_left, exists_or, or_iff_or_iff]
    exact ⟨fun h => ⟨fun h' => absurd h' hemp, h⟩, JudgedRight.pairs⟩

instance decidableCovers (pattern resource : List Char) : Decidable (Covers pattern resource) :=
  decidable_of_iff (wildcardEnd.isSuffixOf pattern = true ∧
    (resource = pattern.take (pattern.length - 2) ∨
      pattern.take (pattern.length - 2) ++ ['/'] <+: resource)) <| by
    rw [wildcardEnd_isSuffixOf_iff]
    constructor
    · rintro ⟨⟨folder, rfl⟩, h⟩
      rw [take_append_wildcardEnd] at h
      exact ⟨folder, rfl, h⟩
    · rintro ⟨folder, rfl, h⟩
      rw [take_append_wildcardEnd]
      exact ⟨⟨folder, rfl⟩, h⟩

instance decidableGrants (s a : List Char) : Decidable (Grants s a) :=
  inferInstanceAs (Decidable (s = a ∨ s = star ∨ a = star ∨ Covers s a ∨ Covers a s))

instance decidableSomeGrants (S A : List (List Char)) : Decidable (SomeGrants S A) :=
  inferInstanceAs (Decidable (∃ s ∈ S, ∃ a ∈ A, Grants s a))

end

def fourResources : List (List Char) := ["f/a".toList, "f/b".toList, "f/c".toList, "f/d".toList]

/-- A scope for a folder reaches what is not in it; and a scope loses access by one resource more.
-/
theorem resources_judged_wrongly :
    (resourcesMatch ["é/*".toList] ["éa/x".toList] = true ∧
      ¬SomeGrants ["é/*".toList] ["éa/x".toList]) ∧
    resourcesMatch fourResources ["f/*".toList] = true ∧
    (resourcesMatch (fourResources ++ ["g/e".toList]) ["f/*".toList] = false ∧
      SomeGrants (fourResources ++ ["g/e".toList]) ["f/*".toList]) := by
  decide +kernel

end Windmill.Auth.Scopes
