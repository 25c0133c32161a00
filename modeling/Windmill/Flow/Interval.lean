import Windmill.Flow.Value

/-! # The arithmetic of retry delays

`Retry::interval` (`windmill-types/src/flows.rs`) computes `multiplier * seconds ^ n` and the jitter
in 16 bits. The power saturates, the products do not; and the exponent counts the attempts of the
constant delay too. `exact_iff_fits` says for which configurations no product overflows and each
delay is the one that the type documents. -/

namespace Windmill.Flow.Interval

open Value Nat

structure InRange (r : Retry) : Prop where
  constantAttempts : r.constant.attempts < 2 ^ 32
  constantSeconds : r.constant.seconds < u16Size
  attempts : r.exponential.attempts < 2 ^ 32
  multiplier : r.exponential.multiplier < u16Size
  seconds : r.exponential.seconds < u16Size
  randomFactor : ∀ f ∈ r.exponential.randomFactor, -128 ≤ f ∧ f ≤ 127

structure IsExponential (r : Retry) (previousAttempts : ℕ) : Prop where
  constant_le : r.constant.attempts ≤ previousAttempts
  lt : previousAttempts - r.constant.attempts < r.exponential.attempts
  u32 : previousAttempts < 2 ^ 32

def factor (r : Retry) : ℕ := (r.exponential.randomFactor.getD 0).toNat

def product (r : Retry) (previousAttempts : ℕ) : ℕ :=
  r.exponential.multiplier * saturatingPow r.exponential.seconds (previousAttempts + 1)

def target (r : Retry) (k : ℕ) : ℕ :=
  min (r.exponential.multiplier * r.exponential.seconds ^ (k + 1)) (u16Size - 1)

/-- **The delays are as documented**: nothing overflows, and they are the targets, or differ from
them by the jitter. -/
structure Exact (r : Retry) : Prop where
  product_lt : ∀ p, IsExponential r p → product r p < u16Size
  jitter_lt : ∀ p, IsExponential r p → ∀ d < min (factor r) 100, product r p * d < u16Size
  value : factor r = 0 → ∀ p draw, IsExponential r p →
    r.interval draw p = some (target r (p - r.constant.attempts))
  monotone : factor r = 0 → ∀ p p' draw draw' secs secs', IsExponential r p →
    IsExponential r p' → p ≤ p' →
    r.interval draw p = some secs → r.interval draw' p' = some secs' → secs ≤ secs'
  jitter : 0 < factor r → ∀ p draw, IsExponential r p → draw.1 < min (factor r) 100 → ∃ secs,
    r.interval draw p = some secs ∧ (100 - factor r) * target r (p - r.constant.attempts) ≤
    100 * secs ∧
      100 * secs ≤ (100 + factor r) * target r (p - r.constant.attempts)

/-- The values are small enough, and the attempts of the constant delay make no difference. -/
structure Fits (r : Retry) : Prop where
  small : r.exponential.multiplier ≤ 1 ∨
    r.exponential.multiplier * r.exponential.seconds ^
    (r.constant.attempts + r.exponential.attempts) < u16Size
  jitter : factor r = 0 ∨
    r.exponential.multiplier * saturatingPow r.exponential.seconds
    (r.constant.attempts + r.exponential.attempts) *
      (min (factor r) 100 - 1) < u16Size
  exponent : r.constant.attempts = 0 ∨ r.exponential.seconds ≤ 1 ∨ r.exponential.multiplier = 0 ∨
    r.exponential.multiplier = 1 ∧ 100 * (u16Size - 1) ≤ r.exponential.seconds * (100 + factor r)

/-! ### Powers -/

section

variable {b n n' m : ℕ}

lemma saturatingPow_mono (hn : 0 < n) (h : n ≤ n') : saturatingPow b n ≤ saturatingPow b n' := by
  refine min_le_min_right _ ?_
  rcases Nat.eq_zero_or_pos b with rfl | hb
  · rw [zero_pow (by omega), zero_pow (by omega)]
  · exact Nat.pow_le_pow_right hb h

lemma saturatingPow_eq_max (hb : 2 ≤ b) (hn : 16 ≤ n) : saturatingPow b n = u16Size - 1 := by
  refine min_eq_right ?_
  calc u16Size - 1 ≤ 2 ^ 16 := by decide
    _ ≤ 2 ^ n := Nat.pow_le_pow_right (by decide) hn
    _ ≤ b ^ n := Nat.pow_le_pow_left hb n

lemma saturatingPow_of_ge (hn : 16 ≤ n) (hn' : 16 ≤ n') :
    saturatingPow b n = saturatingPow b n' := by
  by_cases hb : 2 ≤ b
  · rw [saturatingPow_eq_max hb hn, saturatingPow_eq_max hb hn']
  · have hcases : b = 0 ∨ b = 1 := by omega
    unfold saturatingPow
    rcases hcases with rfl | rfl
    · rw [zero_pow (by omega), zero_pow (by omega)]
    · rw [one_pow, one_pow]

lemma mul_saturatingPow_lt_iff : m * saturatingPow b n < u16Size ↔ m ≤ 1 ∨ m * b ^ n < u16Size := by
  constructor
  · intro h
    by_cases hm : m ≤ 1
    · exact .inl hm
    right
    have hlt : saturatingPow b n < u16Size - 1 := by
      by_contra hge
      have hle : 2 * (u16Size - 1) ≤ m * saturatingPow b n := Nat.mul_le_mul (by omega) (by omega)
      have hsize : u16Size ≤ 2 * (u16Size - 1) := by decide
      omega
    have hpow : saturatingPow b n = b ^ n := min_eq_left (by unfold saturatingPow at hlt; omega)
    rwa [hpow] at h
  · rintro (hm | h)
    · have hle : m * saturatingPow b n ≤ 1 * (u16Size - 1) := Nat.mul_le_mul hm (min_le_right _ _)
      have hsize : 1 * (u16Size - 1) < u16Size := by decide
      omega
    · exact lt_of_le_of_lt (mul_le_mul_left m (min_le_left _ _)) h

lemma mul_saturatingPow_eq (h : m * saturatingPow b n < u16Size) :
    m * saturatingPow b n = min (m * b ^ n) (u16Size - 1) := by
  rcases mul_saturatingPow_lt_iff.mp h with hm | hlt
  · have hcases : m = 0 ∨ m = 1 := by omega
    rcases hcases with rfl | rfl
    · rw [zero_mul, zero_mul, zero_min]
    · rw [one_mul, one_mul]
      rfl
  · rw [min_eq_left (by omega)]
    rcases Nat.eq_zero_or_pos m with rfl | hm
    · rw [zero_mul, zero_mul]
    · have hle : b ^ n ≤ m * b ^ n := Nat.le_mul_of_pos_left _ hm
      have hpow : saturatingPow b n = b ^ n := min_eq_left (by omega)
      rw [hpow]

end

section

variable {r : Retry} {p d : ℕ} {draw : ℕ × Bool}

lemma exists_last (hr : InRange r) (he : r.exponential.attempts ≠ 0) :
    ∃ last, IsExponential r last ∧ saturatingPow r.exponential.seconds (last + 1) =
      saturatingPow r.exponential.seconds (r.constant.attempts + r.exponential.attempts) := by
  have hc := hr.constantAttempts
  by_cases hle : r.constant.attempts + r.exponential.attempts ≤ 2 ^ 32
  · refine ⟨r.constant.attempts + r.exponential.attempts - 1, ⟨by omega, by omega, by omega⟩, ?_⟩
    rw [Nat.sub_add_cancel (by omega)]
  · exact ⟨2 ^ 32 - 1, ⟨by omega, by omega, by omega⟩, saturatingPow_of_ge (by omega) (by omega)⟩

lemma product_le (h : IsExponential r p) : product r p ≤
    r.exponential.multiplier * saturatingPow r.exponential.seconds
    (r.constant.attempts + r.exponential.attempts) := by
  have hlt := h.lt
  exact mul_le_mul_left _ (saturatingPow_mono (by omega) (by omega))

lemma interval_eq (h : IsExponential r p) :
    r.interval draw p = some (r.exponential.jitter draw (product r p % u16Size)) := by
  unfold Retry.interval
  rw [if_neg (not_lt.mpr h.constant_le), if_pos h.lt]
  rfl

lemma jitter_of_factor_eq_zero (h : factor r = 0) (secs : ℕ) :
    r.exponential.jitter draw secs = secs := by
  unfold factor at h
  unfold ExponentialDelay.jitter
  split
  · case _ f hf =>
    rw [hf, Option.getD_some] at h
    rw [if_neg (by omega)]
  · rfl

lemma jitter_of_factor_pos (h : 0 < factor r) (secs : ℕ) : r.exponential.jitter draw secs =
    if draw.2 then min (secs + secs * draw.1 % u16Size / 100) (u16Size - 1)
    else secs - secs * draw.1 % u16Size / 100 := by
  unfold factor at h
  unfold ExponentialDelay.jitter
  split
  · case _ f hf =>
    rw [hf, Option.getD_some] at h
    rw [if_pos (by omega)]
  · case _ hf =>
    rw [hf] at h
    exact absurd h (by decide)

lemma factor_le (hr : InRange r) : factor r ≤ 127 := by
  unfold factor
  cases hf : r.exponential.randomFactor with
  | none => exact zero_le _
  | some f =>
    have hle := (hr.randomFactor f hf).2
    rw [Option.getD_some]
    omega

/-! ### What the configuration must be like -/

lemma IsExponential.first (hr : InRange r) (he : r.exponential.attempts ≠ 0) :
    IsExponential r r.constant.attempts :=
  ⟨le_rfl, by omega, hr.constantAttempts⟩

lemma first_product (hc : r.constant.attempts ≠ 0) (hs : 2 ≤ r.exponential.seconds)
    (hlt : product r r.constant.attempts < u16Size) :
    2 * target r 0 ≤ product r r.constant.attempts ∨
      r.exponential.multiplier ≤ 1 ∧ saturatingPow r.exponential.seconds (r.constant.attempts + 1) =
      u16Size - 1 := by
  rcases min_choice (r.exponential.seconds ^ (r.constant.attempts + 1))
    (u16Size - 1) with hpow | hmax
  · left
    have hdbl : 2 ≤ r.exponential.seconds ^ r.constant.attempts := hs.trans (le_self_pow hc _)
    calc 2 * target r 0 ≤ 2 * (r.exponential.multiplier * r.exponential.seconds) := by
          refine mul_le_mul_left 2 ((min_le_left _ _).trans ?_)
          rw [pow_one]
      _ ≤ r.exponential.seconds ^ r.constant.attempts *
        (r.exponential.multiplier * r.exponential.seconds) :=
          mul_le_mul_right _ hdbl
      _ = r.exponential.multiplier * r.exponential.seconds ^ (r.constant.attempts + 1) := by ring
      _ = product r r.constant.attempts := by
          unfold product saturatingPow
          rw [hpow]
  · right
    refine ⟨?_, hmax⟩
    by_contra hm
    have hle : 2 * (u16Size - 1) ≤ product r r.constant.attempts := by
      unfold product saturatingPow
      rw [hmax]
      exact mul_le_mul_right _ (by omega)
    have hsize : u16Size ≤ 2 * (u16Size - 1) := by decide
    omega

lemma target_zero (hr : InRange r) (hm : r.exponential.multiplier = 1) :
    target r 0 = r.exponential.seconds := by
  have hs := hr.seconds
  unfold target
  rw [hm, one_mul, pow_one]
  exact min_eq_left (by omega)

lemma Exact.upper (h : Exact r) (hp : IsExponential r p) (hd : d < min (factor r) 100) :
    100 * min (product r p + product r p * d / 100) (u16Size - 1) ≤
      (100 + factor r) * target r (p - r.constant.attempts) := by
  have hpos : 0 < factor r := by omega
  obtain ⟨secs, hsecs, -, hle⟩ := h.jitter hpos p (d, true) hp hd
  rw [interval_eq hp, mod_eq_of_lt (h.product_lt p hp), jitter_of_factor_pos hpos,
    mod_eq_of_lt (h.jitter_lt p hp d hd)] at hsecs
  cases hsecs
  exact hle

lemma Exact.not_double (h : Exact r) (hr : InRange r) (hp : IsExponential r p)
    (hpos : 0 < target r (p - r.constant.attempts)) :
    ¬2 * target r (p - r.constant.attempts) ≤ product r p := by
  intro hdbl
  have hlt := h.product_lt p hp
  rcases Nat.eq_zero_or_pos (factor r) with hzero | hfac
  · have hval := h.value hzero p (0, true) hp
    rw [interval_eq hp, mod_eq_of_lt hlt, jitter_of_factor_eq_zero hzero] at hval
    have heq := Option.some_inj.mp hval
    omega
  have hf := factor_le hr
  have hsmall := h.jitter_lt p hp (min (factor r) 100 - 1) (by omega)
  have hupper := h.upper hp (d := min (factor r) 100 - 1) (by omega)
  -- without jitter already
  have hlarge : 100 ≤ factor r := by
    by_contra hsm
    have hmul : (100 + factor r) * target r (p - r.constant.attempts) ≤ 199 * target r
        (p - r.constant.attempts) :=
      mul_le_mul_right _ (by omega)
    omega
  have hmin : min (factor r) 100 - 1 = 99 := by omega
  rw [hmin] at hsmall hupper
  have hmul : (100 + factor r) * target r (p - r.constant.attempts) ≤ 227 * target r
      (p - r.constant.attempts) :=
    mul_le_mul_right _ (by omega)
  omega

lemma Exact.fits (h : Exact r) (hr : InRange r) (he : r.exponential.attempts ≠ 0) : Fits r := by
  obtain ⟨last, hlast, hpow⟩ := exists_last hr he
  have hfirst := IsExponential.first hr he
  refine ⟨?_, ?_, ?_⟩
  · have hlt := h.product_lt last hlast
    unfold product at hlt
    rw [hpow] at hlt
    exact mul_saturatingPow_lt_iff.mp hlt
  · rcases Nat.eq_zero_or_pos (factor r) with hzero | hpos
    · exact .inl hzero
    · have hlt := h.jitter_lt last hlast (min (factor r) 100 - 1) (by omega)
      unfold product at hlt
      rw [hpow] at hlt
      exact .inr hlt
  by_cases hc : r.constant.attempts = 0
  · exact .inl hc
  by_cases hs : r.exponential.seconds ≤ 1
  · exact .inr (.inl hs)
  by_cases hm : r.exponential.multiplier = 0
  · exact .inr (.inr (.inl hm))
  have hzero : r.constant.attempts - r.constant.attempts = 0 := Nat.sub_self _
  have htgt : 0 < target r 0 := by
    unfold target
    rw [pow_one]
    exact lt_min (mul_pos (by omega) (by omega)) (by decide)
  have hnot := h.not_double hr hfirst (by rwa [hzero])
  rw [hzero] at hnot
  obtain ⟨hone, hmax⟩ := (first_product hc (by omega) (h.product_lt _ hfirst)).resolve_left hnot
  have hone : r.exponential.multiplier = 1 := by omega
  have hprod : product r r.constant.attempts = u16Size - 1 := by
    unfold product
    rw [hone, hmax, one_mul]
  refine .inr (.inr (.inr ⟨hone, ?_⟩))
  rcases Nat.eq_zero_or_pos (factor r) with hfac | hfac
  · have hval := h.value hfac _ (0, true) hfirst
    rw [interval_eq hfirst, jitter_of_factor_eq_zero hfac, hprod, hzero,
      target_zero hr hone] at hval
    have heq := Option.some_inj.mp hval
    rw [hfac, ← heq]
    decide
  · have hupper := h.upper hfirst (d := 0) (by omega)
    rw [hprod, hzero, target_zero hr hone] at hupper
    rwa [mul_comm r.exponential.seconds]

/-! ### Why that is enough -/

lemma Fits.product_lt (h : Fits r) (hp : IsExponential r p) : product r p < u16Size :=
  lt_of_le_of_lt (product_le hp) (mul_saturatingPow_lt_iff.mpr h.small)

lemma Fits.jitter_lt (h : Fits r) (hp : IsExponential r p) (hd : d < min (factor r) 100) :
    product r p * d < u16Size := by
  rcases h.jitter with hzero | hlt
  · omega
  · exact lt_of_le_of_lt (Nat.mul_le_mul (product_le hp) (by omega)) hlt

lemma Fits.product_cases (h : Fits r) (hr : InRange r) (hp : IsExponential r p) :
    product r p = target r (p - r.constant.attempts) ∨ product r p = u16Size - 1 ∧
        100 * (u16Size - 1) ≤ (100 + factor r) * target r (p - r.constant.attempts) ∧
        factor r ≤ 2 := by
  have hprod : product r p = min (r.exponential.multiplier * r.exponential.seconds ^ (p + 1))
      (u16Size - 1) :=
    mul_saturatingPow_eq (h.product_lt hp)
  have hsame : r.exponential.seconds ^ (p + 1) =
    r.exponential.seconds ^ (p - r.constant.attempts + 1) →
      product r p = target r (p - r.constant.attempts) := by
    intro hpow
    rw [hprod, hpow]
    rfl
  by_cases hs : r.exponential.seconds ≤ 1
  · have hcases : r.exponential.seconds = 0 ∨ r.exponential.seconds = 1 := by omega
    refine .inl (hsame ?_)
    rcases hcases with hs | hs
    · rw [hs, zero_pow (by omega), zero_pow (by omega)]
    · rw [hs, one_pow, one_pow]
  rcases h.exponent with hc | hs' | hm | ⟨hm, hle⟩
  · refine .inl (hsame ?_)
    rw [hc, Nat.sub_zero]
  · exact absurd hs' hs
  · left
    rw [hprod]
    unfold target
    rw [hm, zero_mul, zero_mul]
  by_cases hc : r.constant.attempts = 0
  · refine .inl (hsame ?_)
    rw [hc, Nat.sub_zero]
  right
  have hf := factor_le hr
  have hsize : u16Size = 65536 := rfl
  have hlarge : 28870 ≤ r.exponential.seconds := by
    by_contra hlt
    have hmul : r.exponential.seconds * (100 + factor r) ≤ 28869 * 227 :=
      Nat.mul_le_mul (by omega) (by omega)
    omega
  -- the square is too large for 16 bits
  have hmax : ∀ n, 2 ≤ n → saturatingPow r.exponential.seconds n = u16Size - 1 := by
    intro n hn
    refine min_eq_right ?_
    calc u16Size - 1 ≤ 28870 ^ 2 := by decide
      _ ≤ 28870 ^ n := Nat.pow_le_pow_right (by decide) hn
      _ ≤ r.exponential.seconds ^ n := Nat.pow_le_pow_left hlarge n
  have hconst := hp.constant_le
  have hlt := hp.lt
  refine ⟨?_, ?_, ?_⟩
  · unfold product
    rw [hm, hmax _ (by omega), one_mul]
  · rw [mul_comm (100 + factor r)]
    by_cases hk : p - r.constant.attempts = 0
    · rw [hk, target_zero hr hm]
      exact hle
    have htgt : target r (p - r.constant.attempts) = u16Size - 1 := by
      have hpow := hmax (p - r.constant.attempts + 1) (by omega)
      unfold target
      rw [hm, one_mul]
      exact hpow
    rw [htgt, mul_comm]
    exact mul_le_mul_left _ (by omega)
  · rcases h.jitter with hzero | hjitter
    · omega
    · rw [hm, hmax _ (by omega), one_mul] at hjitter
      by_contra hfac
      have hmul : (u16Size - 1) * 2 ≤ (u16Size - 1) * (min (factor r) 100 - 1) :=
        mul_le_mul_left _ (by omega)
      omega

lemma jitter_bounds {v t f : ℕ} (hd : d < f) (hv : v < u16Size)
    (h : v = t ∨ v = u16Size - 1 ∧ t ≤ v ∧ 100 * v ≤ (100 + f) * t) :
    ((100 - f) * t ≤ 100 * min (v + v * d / 100) (u16Size - 1) ∧
      100 * min (v + v * d / 100) (u16Size - 1) ≤ (100 + f) * t) ∧
    (100 - f) * t ≤ 100 * (v - v * d / 100) ∧ 100 * (v - v * d / 100) ≤ (100 + f) * t := by
  have ht : t ≤ v := by
    rcases h with rfl | ⟨-, ht, -⟩
    · exact le_rfl
    · exact ht
  have hbase : 100 * v ≤ (100 + f) * t := by
    rcases h with rfl | ⟨-, -, hbase⟩
    · exact mul_le_mul_right v (by omega)
    · exact hbase
  have hlow : (100 - f) * t ≤ 100 * v := Nat.mul_le_mul (by omega) ht
  refine ⟨⟨?_, ?_⟩, ?_, ?_⟩
  · omega
  · rcases h with rfl | ⟨hmax, -, -⟩
    · have hmul : v * d ≤ f * v := by
        rw [mul_comm f]
        exact mul_le_mul_left v hd.le
      have hdist : (100 + f) * v = 100 * v + f * v := add_mul _ _ _
      omega
    · have hmin : min (v + v * d / 100) (u16Size - 1) = v := by omega
      rw [hmin]
      exact hbase
  · have hmul : (100 - f) * t ≤ 100 * v - v * d := by
      calc (100 - f) * t ≤ (100 - d) * v := Nat.mul_le_mul (by omega) ht
        _ = 100 * v - v * d := by rw [Nat.sub_mul, Nat.mul_comm d]
    omega
  · omega

lemma target_mono {k k' : ℕ} (h : k ≤ k') : target r k ≤ target r k' := by
  refine min_le_min_right _ (mul_le_mul_left _ ?_)
  rcases Nat.eq_zero_or_pos r.exponential.seconds with hs | hs
  · rw [hs, zero_pow (by omega), zero_pow (by omega)]
  · exact Nat.pow_le_pow_right hs (by omega)

lemma target_le (k : ℕ) : target r k ≤ u16Size - 1 := min_le_right _ _

lemma Fits.value (h : Fits r) (hr : InRange r) (hfac : factor r = 0) (hp : IsExponential r p) :
    r.interval draw p = some (target r (p - r.constant.attempts)) := by
  rw [interval_eq hp, mod_eq_of_lt (h.product_lt hp), jitter_of_factor_eq_zero hfac]
  rcases h.product_cases hr hp with heq | ⟨hmax, hle, -⟩
  · rw [heq]
  · have htgt := target_le (r := r) (p - r.constant.attempts)
    rw [hfac] at hle
    congr 1
    omega

lemma Fits.exact (h : Fits r) (hr : InRange r) : Exact r where
  product_lt p hp := h.product_lt hp
  jitter_lt p hp d hd := h.jitter_lt hp hd
  value hfac p draw hp := h.value hr hfac hp
  monotone hfac p p' draw draw' secs secs' hp hp' hle hsecs hsecs' := by
    rw [h.value hr hfac hp] at hsecs
    rw [h.value hr hfac hp'] at hsecs'
    cases hsecs
    cases hsecs'
    exact target_mono (Nat.sub_le_sub_right hle _)
  jitter hpos p draw hp hdraw := by
    have hlt := h.product_lt hp
    have hcases : product r p = target r (p - r.constant.attempts) ∨ product r p = u16Size - 1 ∧
        target r (p - r.constant.attempts) ≤ product r p ∧
          100 * product r p ≤ (100 + factor r) * target r (p - r.constant.attempts) := by
      rcases h.product_cases hr hp with heq | ⟨hmax, hle, -⟩
      · exact .inl heq
      · refine .inr ⟨hmax, ?_, ?_⟩
        · rw [hmax]
          exact target_le _
        · rwa [hmax]
    obtain ⟨hup, hdown⟩ := jitter_bounds (d := draw.1) (f := factor r) (by omega) hlt hcases
    refine ⟨_, interval_eq hp, ?_⟩
    rw [mod_eq_of_lt hlt, jitter_of_factor_pos hpos, mod_eq_of_lt (h.jitter_lt hp hdraw)]
    split_ifs
    · exact hup
    · exact hdown

/-- **The delays are as documented** if and only if there are no exponential ones, or the
configuration fits. -/
theorem exact_iff_fits (hr : InRange r) : Exact r ↔ r.exponential.attempts = 0 ∨ Fits r := by
  constructor
  · intro h
    by_cases he : r.exponential.attempts = 0
    · exact .inl he
    · exact .inr (h.fits hr he)
  rintro (he | h)
  · have hnone : ∀ p, ¬IsExponential r p := by
      intro p hp
      have hlt := hp.lt
      omega
    exact ⟨fun p hp => absurd hp (hnone p), fun p hp => absurd hp (hnone p), fun _ p _ hp =>
      absurd hp (hnone p),
      fun _ p _ _ _ _ _ hp => absurd hp (hnone p), fun _ p _ hp => absurd hp (hnone p)⟩
  · exact h.exact hr

end

def doubling : Retry := ⟨⟨0, 0⟩, ⟨5, 1, 2, some 10⟩, none⟩

theorem doubling_exact : InRange doubling ∧ Exact doubling := by
  have hr : InRange doubling := by
    refine ⟨by decide, by decide, by decide, by decide, by decide, fun f hf => ?_⟩
    cases hf
    decide
  exact ⟨hr, (exact_iff_fits hr).mpr (.inr ⟨by decide, by decide, by decide⟩)⟩

def quarters : Retry := ⟨⟨0, 0⟩, ⟨3, 4, 128, none⟩, none⟩

def constantFirst : Retry := ⟨⟨1, 5⟩, ⟨3, 1, 2, none⟩, none⟩

/-- The delay falls from 512 seconds to none, and the first exponential delay is the second one. -/
theorem delays_not_documented :
    (quarters.interval (0, true) 0 = some 512 ∧ product quarters 1 = u16Size ∧
      quarters.interval (0, true) 1 = some 0) ∧
    (constantFirst.interval (0, true) 1 = some 4 ∧ target constantFirst 0 = 2) ∧
    ¬Exact quarters ∧ ¬Exact constantFirst := by
  refine ⟨by decide, by decide, fun h => ?_, fun h => ?_⟩
  · have hlt := h.product_lt 1 ⟨by decide, by decide, by decide⟩
    exact absurd hlt (by decide)
  · have hval := h.value rfl 1 (0, true) ⟨by decide, by decide, by decide⟩
    exact absurd hval (by decide)

end Windmill.Flow.Interval
