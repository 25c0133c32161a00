import Windmill.Trigger.Converter

/-! # Bytes in hexadecimal

Postgres writes a `bytea` as `\x` and two hexadecimal digits for each byte. `from_bytea_hex`
(`windmill-trigger-postgres/src/hex.rs`) cuts the text after every two bytes, which panics inside a
character, and reads each pair with `u8::from_str_radix`, which also takes a plus sign. -/

namespace Windmill.Trigger.Bytea

open Converter List

def isHex (c : Char) : Bool := (hexDigit c).isSome

def decoded : Text → List ℕ
  | a :: b :: digits => (16 * (hexDigit a).getD 0 + (hexDigit b).getD 0) :: decoded digits
  | _ => []

def toByteaHex (b : List ℕ) : Text :=
  '\\' :: 'x' :: b.flatMap fun v => [Nat.digitChar (v / 16), Nat.digitChar (v % 16)]

/-- `\x` and an even number of hexadecimal digits. -/
def IsHex (s : Text) : Prop :=
  ∃ digits, s = '\\' :: 'x' :: digits ∧ digits.length % 2 = 0 ∧ ∀ c ∈ digits, isHex c = true

/-- The text is read without a panic, as bytes if and only if it is hexadecimal, and as the bytes
that it stands for. -/
structure ReadExactly (s : Text) : Prop where
  no_panic : fromByteaHex s ≠ .error .panic
  ok_iff : (∃ b, fromByteaHex s = .ok b) ↔ IsHex s
  ok : ∀ b, fromByteaHex s = .ok b → b = decoded (s.drop 2) ∧ (toByteaHex b).map Char.toLower =
    s.map Char.toLower

def torn : Text → Bool
  | [] => false
  | [a] => 2 < a.utf8Size
  | a :: b :: _ => ¬(a.utf8Size = 2 ∨ a.utf8Size = 1 ∧ b.utf8Size = 1)

def unread : Text → Text
  | a :: b :: digits => if isHex b = true ∧ (a = '+' ∨ isHex a = true) then unread digits
  else a :: b :: digits
  | s => s

/-- No character is cut before a pair is rejected, and if all are accepted none has a sign. -/
structure Regular (s : Text) : Prop where
  start : torn s = false
  pairs : ∀ digits, s = '\\' :: 'x' :: digits → len digits % 2 = 0 →
    torn (unread digits) = false ∧ (unread digits = [] → '+' ∉ digits)

/-! ### Pairs -/

variable {a b c : Char} {s digits : Text}

lemma isHex_spec (h : isHex c = true) : (hexDigit c).getD 0 < 16 ∧
    (Nat.digitChar ((hexDigit c).getD 0)).toLower = c.toLower ∧ c.utf8Size = 1 ∧ c ≠ '+' := by
  have hall : ∀ n < 103, isHex (Char.ofNat n) = true → (hexDigit (Char.ofNat n)).getD 0 < 16 ∧
      (Nat.digitChar ((hexDigit (Char.ofNat n)).getD 0)).toLower = (Char.ofNat n).toLower ∧
      (Char.ofNat n).utf8Size = 1 ∧ Char.ofNat n ≠ '+' := by
    decide +kernel
  have hlt : c.toNat < 103 := by
    unfold isHex hexDigit at h
    split_ifs at h with hdigit hlow hup
    · simp only [Char.isDigit, Bool.and_eq_true, decide_eq_true_eq] at hdigit
      exact lt_of_le_of_lt hdigit.2 (by decide : (57 : ℕ) < 103)
    · exact lt_of_le_of_lt hlow.2 (by decide : (102 : ℕ) < 103)
    · exact lt_of_le_of_lt hup.2 (by decide : (70 : ℕ) < 103)
    · cases h
  have hc := hall c.toNat hlt
  rw [Char.ofNat_toNat] at hc
  exact hc h

lemma fromStrRadix16_eq (a b : Char) : fromStrRadix16 a b = if isHex b = true ∧
    (a = '+' ∨ isHex a = true)
    then some ((if a = '+' then 0 else 16 * (hexDigit a).getD 0) + (hexDigit b).getD 0)
    else none := by
  unfold fromStrRadix16 isHex
  by_cases ha : a = '+'
  · cases hexDigit b <;> simp [ha]
  · cases hexDigit a <;> cases hexDigit b <;> simp [ha]

lemma hexPairs_cases (digits : Text) (heven : len digits % 2 = 0) :
    torn (unread digits) = true ∧ hexPairs digits = .error .panic ∨
    unread digits = [] ∧ (∃ b, hexPairs digits = .ok b ∧ ('+' ∉ digits → b = decoded digits)) ∨
    unread digits ≠ [] ∧ torn (unread digits) = false ∧ ∃ e, hexPairs digits = .error (.err e) := by
  fun_induction unread digits with
  | case1 a b digits hpair ih =>
    have hsize : a.utf8Size = 1 := hpair.2.elim (fun ha => by rw [ha]; rfl) fun ha =>
      (isHex_spec ha).2.2.1
    have hsize' := (isHex_spec hpair.1).2.2.1
    have hread : hexPairs (a :: b :: digits) = (hexPairs digits).bind fun result =>
        .ok (((if a = '+' then 0 else 16 * (hexDigit a).getD 0) + (hexDigit b).getD 0) ::
          result) := by
      rw [hexPairs, fromStrRadix16_eq, if_pos hpair, hsize, hsize']
      rfl
    have hsum : len (a :: b :: digits) = a.utf8Size + (b.utf8Size + len digits) := rfl
    rw [hread]
    rcases ih (by omega) with ⟨htorn, h⟩ | ⟨hnil, bytes, h, hdec⟩ | ⟨hne, htorn, e, h⟩
    · exact .inl ⟨htorn, by rw [h]; rfl⟩
    · refine .inr (.inl ⟨hnil, _, by rw [h]; rfl, fun hplus => ?_⟩)
      simp only [mem_cons, not_or] at hplus
      rw [decoded, if_neg (Ne.symm hplus.1), hdec hplus.2.2]
    · exact .inr (.inr ⟨hne, htorn, e, by rw [h]; rfl⟩)
  | case2 a b digits hpair =>
    rw [hexPairs, fromStrRadix16_eq, if_neg hpair]
    by_cases htwo : a.utf8Size = 2
    · simp [torn, htwo]
    · by_cases hone : a.utf8Size = 1 ∧ b.utf8Size = 1
      · simp [torn, hone]
      · simp [torn, htwo, hone]
  | case3 s hs =>
    rcases s with _ | ⟨c, _ | ⟨b, s⟩⟩
    · exact .inr (.inl ⟨rfl, [], rfl, fun _ => rfl⟩)
    · have hne : c.utf8Size ≠ 1 := fun hone => by simp [len, hone] at heven
      have hpos := c.utf8Size_pos
      rw [hexPairs]
      by_cases htwo : c.utf8Size = 2
      · simp [torn, htwo]
      · simp [torn, htwo, show 2 < c.utf8Size by omega]
    · exact absurd rfl (hs c b s)

/-! ### Texts -/

lemma unread_eq_nil_iff (digits : Text) : unread digits = [] ∧ '+' ∉ digits ↔
    digits.length % 2 = 0 ∧ ∀ c ∈ digits, isHex c = true := by
  have hplus : ∀ {c}, isHex c = true → c ≠ '+' := fun hc => (isHex_spec hc).2.2.2
  fun_induction unread digits with
  | case1 a b digits hpair ih | case2 a b digits hpair =>
    simp only [length_cons, mem_cons, not_or, forall_eq_or_imp]
    grind
  | case3 s hs =>
    rcases s with _ | ⟨c, _ | ⟨b, s⟩⟩
    · simp
    · simp
    · exact absurd rfl (hs c b s)

lemma encode_decoded : ∀ digits, digits.length % 2 = 0 → (∀ c ∈ digits, isHex c = true) →
    (toByteaHex (decoded digits)).map Char.toLower = ('\\' :: 'x' :: digits).map Char.toLower
  | [], _, _ => rfl
  | a :: b :: digits, hlen, hhex => by
    obtain ⟨ha, hb, hrest⟩ : isHex a = true ∧ isHex b = true ∧ ∀ c ∈ digits, isHex c = true := by
      simpa using hhex
    have ih := encode_decoded digits (by simp only [length_cons] at hlen; omega) hrest
    obtain ⟨hlta, hlowa, -⟩ := isHex_spec ha
    obtain ⟨hltb, hlowb, -⟩ := isHex_spec hb
    have hdiv : ∀ u v : ℕ, v < 16 → (16 * u + v) / 16 = u ∧ (16 * u + v) % 16 = v := by omega
    simpa [toByteaHex, decoded, hdiv _ _ hltb, hlowa, hlowb] using ih

lemma fromByteaHex_start (digits : Text) : fromByteaHex ('\\' :: 'x' :: digits) =
    if len digits % 2 ≠ 0 then .error (.err (.invalidBytea .oddNumerOfDigits))
    else hexPairs digits := by
  have hlen : ¬len ('\\' :: 'x' :: digits) < 2 := by
    rw [show len ('\\' :: 'x' :: digits) = 1 + (1 + len digits) from rfl]
    omega
  rw [fromByteaHex, if_neg hlen]

lemma fromByteaHex_other (hs : ∀ digits, s ≠ '\\' :: 'x' :: digits) :
    fromByteaHex s = .error (if torn s then .panic else .err (.invalidBytea .invalidPrefix)) := by
  match s with
  | [] => rfl
  | [a] =>
    have hlen : len [a] = a.utf8Size := rfl
    rcases lt_trichotomy a.utf8Size 2 with h | h | h
    · simp [fromByteaHex, torn, hlen, h, h.le]
    · simp [fromByteaHex, torn, hlen, h]
    · simp [fromByteaHex, torn, hlen, h, h.ne', show 1 < a.utf8Size by omega]
  | a :: b :: s =>
    have hlen : ¬len (a :: b :: s) < 2 := by
      have hpos := a.utf8Size_pos
      have hpos' := b.utf8Size_pos
      rw [show len (a :: b :: s) = a.utf8Size + (b.utf8Size + len s) from rfl]
      omega
    rw [fromByteaHex, if_neg hlen]
    · by_cases hwhole : a.utf8Size = 2 ∨ a.utf8Size = 1 ∧ b.utf8Size = 1 <;> simp [torn, hwhole]
    · rintro rfl rfl
      exact hs s rfl

lemma len_of_isHex (h : ∀ c ∈ digits, isHex c = true) : len digits = digits.length := by
  have hsizes : digits.map Char.utf8Size = replicate digits.length 1 :=
    map_eq_replicate_iff.mpr fun c hc => (isHex_spec (h c hc)).2.2.1
  rw [len, hsizes, sum_replicate, smul_eq_mul, mul_one]

lemma fromByteaHex_cases (s : Text) : fromByteaHex s = .error .panic ∧ ¬Regular s ∨
    (∃ e, fromByteaHex s = .error (.err e)) ∧ Regular s ∧ ¬IsHex s ∨
    ∃ b, fromByteaHex s = .ok b ∧ (Regular s ↔ IsHex s) ∧ (IsHex s → b = decoded (s.drop 2)) := by
  by_cases hs : ∃ digits, s = '\\' :: 'x' :: digits
  · obtain ⟨digits, rfl⟩ := hs
    have hhex : IsHex ('\\' :: 'x' :: digits) ↔ unread digits = [] ∧ '+' ∉ digits := by
      rw [unread_eq_nil_iff]
      refine ⟨?_, fun h => ⟨digits, rfl, h⟩⟩
      rintro ⟨_, ⟨⟩, h⟩
      exact h
    have hreg : Regular ('\\' :: 'x' :: digits) ↔
        (len digits % 2 = 0 → torn (unread digits) = false ∧
          (unread digits = [] → '+' ∉ digits)) := by
      refine ⟨fun h => h.pairs digits rfl, fun h => ⟨rfl, ?_⟩⟩
      rintro _ ⟨⟩
      exact h
    rw [fromByteaHex_start, hreg]
    by_cases heven : len digits % 2 = 0
    · rw [if_neg (not_not.mpr heven), hhex]
      rcases hexPairs_cases digits heven with ⟨htorn, h⟩ | ⟨hnil, b, h, hdec⟩ | ⟨hne, htorn, e, h⟩
      · exact .inl ⟨h, by simp [heven, htorn]⟩
      · exact .inr (.inr ⟨b, h, by simp [hnil, heven, torn], fun hread => hdec hread.2⟩)
      · exact .inr (.inl ⟨⟨e, h⟩, by simp [htorn, hne], by simp [hne]⟩)
    · refine .inr (.inl ⟨⟨_, if_pos heven⟩, fun h => absurd h heven, ?_⟩)
      rintro ⟨_, ⟨⟩, hlen, h⟩
      rw [len_of_isHex h] at heven
      exact heven hlen
  · rw [fromByteaHex_other fun digits heq => hs ⟨digits, heq⟩]
    have hhex : ¬IsHex s := fun ⟨digits, heq, _⟩ => hs ⟨digits, heq⟩
    cases htorn : torn s with
    | true => exact .inl ⟨rfl, fun h => by simp [h.start] at htorn⟩
    | false =>
      exact .inr (.inl ⟨⟨_, rfl⟩, ⟨htorn, fun digits heq => absurd ⟨digits, heq⟩ hs⟩, hhex⟩)

/-- **A text is read exactly if and only if it is regular.** -/
theorem readExactly_iff : ReadExactly s ↔ Regular s := by
  rcases fromByteaHex_cases s with ⟨hread, hreg⟩ | ⟨⟨e, hread⟩, hreg, hhex⟩ | ⟨b, hread, hreg, hdec⟩
  · exact iff_of_false (fun h => h.no_panic hread) hreg
  · exact iff_of_true ⟨by simp [hread], by simp [hread, hhex], by simp [hread]⟩ hreg
  rw [hreg]
  refine ⟨fun h => h.ok_iff.mp ⟨b, hread⟩, fun hhex =>
    ⟨by simp [hread], by simp [hread, hhex], fun b' hread' => ?_⟩⟩
  cases hread.symm.trans hread'
  rw [hdec hhex]
  obtain ⟨digits, rfl, hlen, hhex⟩ := hhex
  exact ⟨rfl, encode_decoded digits hlen hhex⟩

theorem sign_and_cut : ¬IsHex "\\x+f".toList ∧ fromByteaHex "\\x+f".toList = .ok [15] ∧
    fromByteaHex "\\x€1".toList = .error .panic := by
  refine ⟨?_, rfl, rfl⟩
  rintro ⟨digits, heq, -, hhex⟩
  cases heq
  cases hhex '+' mem_cons_self

end Windmill.Trigger.Bytea
