import Mathlib.Algebra.Order.Floor.Ring
import Mathlib.Data.Int.Log
import Mathlib.Data.Rat.Floor
import Mathlib.Tactic.FieldSimp
import Mathlib.Tactic.Linarith
import Mathlib.Tactic.NormNum
import Mathlib.Tactic.Positivity
import Mathlib.Tactic.Ring

/-!
# Binary floating point

A `Format` is a binary interchange format: the bits of its fraction and of its exponent. Finite
numbers are rationals; an operation is exact arithmetic followed by `Format.round`, which goes to
the nearest number of the format, of two to the even one. `Format.bits` is the pattern of a finite
number, `Format.decode` what a pattern stands for, if it is a finite number.

* `round_of_representable`: a number of the format is not rounded.
* `decode_bits`: patterns stand for their numbers.
-/

namespace Binary

/-! ## Rounding -/

/-- The nearest integer, of two the even one. -/
def roundEven (x : ℚ) : ℤ :=
  let n := ⌊x⌋
  if x - n < 1 / 2 then n
  else if 1 / 2 < x - n then n + 1
  else if n % 2 = 0 then n else n + 1

theorem roundEven_intCast (n : ℤ) : roundEven n = n := by
  unfold roundEven
  dsimp only
  rw [Int.floor_intCast, sub_self, if_pos (by norm_num)]

/-- Powers of two are positive. -/
theorem two_zpow_pos (e : ℤ) : (0 : ℚ) < 2 ^ e := zpow_pos two_pos e

/-- A binary interchange format. -/
structure Format where
  fractionBits : ℕ
  exponentBits : ℕ
  pos : 0 < exponentBits

namespace Format

variable (F : Format)

/-- `emax`. -/
def bias : ℤ := 2 ^ (F.exponentBits - 1) - 1

/-- The exponent of the last place of the smallest numbers. -/
def ulpMin : ℤ := 1 - F.bias - F.fractionBits

/-- The exponent of the last place of the largest numbers. -/
def ulpMax : ℤ := F.bias - F.fractionBits

/-- A finite number of the format. -/
def Representable (x : ℚ) : Prop :=
  ∃ m e : ℤ, |m| < 2 ^ (F.fractionBits + 1) ∧ F.ulpMin ≤ e ∧ e ≤ F.ulpMax ∧ x = m * 2 ^ e

/-- The exponent of the last place near `x`. -/
def ulp (x : ℚ) : ℤ :=
  if x = 0 then F.ulpMin else max F.ulpMin (Int.log 2 |x| - F.fractionBits)

/-- Round to nearest, ties to even. -/
def round (x : ℚ) : ℚ := roundEven (x / 2 ^ F.ulp x) * 2 ^ F.ulp x

/-! ## Patterns -/

/-- A number in units of its last place, without its sign. -/
def significand (x : ℚ) : ℕ := ⌊|x| / 2 ^ F.ulp x⌋.toNat

/-- The pattern of a finite number: sign, exponent, fraction. The leading bit of a normal number
is not stored: it counts the exponent up. -/
def bits (x : ℚ) : ℕ :=
  (if x < 0 then 1 else 0) * (2 ^ F.fractionBits * 2 ^ F.exponentBits) +
    (F.ulp x - F.ulpMin).toNat * 2 ^ F.fractionBits + F.significand x

/-- What a pattern without its sign stands for. -/
def magnitude (exponent fraction : ℕ) : ℚ :=
  if exponent = 0 then fraction * 2 ^ F.ulpMin
  else (2 ^ F.fractionBits + fraction) * 2 ^ (F.ulpMin + (exponent - 1))

/-- The number a pattern stands for; nothing for the infinities and what is not a number. -/
def decode (w : ℕ) : Option ℚ :=
  let fraction := w % 2 ^ F.fractionBits
  let exponent := w / 2 ^ F.fractionBits % 2 ^ F.exponentBits
  let negative := w / (2 ^ F.fractionBits * 2 ^ F.exponentBits) = 1
  if exponent = 2 ^ F.exponentBits - 1 then none
  else some (if negative then -F.magnitude exponent fraction else F.magnitude exponent fraction)

/-! ## Numbers of the format -/

variable {F} {x : ℚ}

/-- In units of its last place a number of the format is an integer below `2 ^ precision`. -/
theorem Representable.ulps (hx : F.Representable x) (hne : x ≠ 0) :
    F.ulp x ≤ F.ulpMax ∧ ∃ m : ℤ, |m| < 2 ^ (F.fractionBits + 1) ∧ x = m * 2 ^ F.ulp x := by
  obtain ⟨m, e, hm, hmin, hmax, hme⟩ := hx
  have hprec : ((2 : ℕ) : ℚ) ^ ((F.fractionBits : ℤ) + 1) = 2 ^ (F.fractionBits + 1) := by
    norm_cast
  have habs (k : ℤ) (u : ℤ) : |(k : ℚ) * 2 ^ u| = |(k : ℚ)| * 2 ^ u := by
    rw [abs_mul, abs_of_pos (two_zpow_pos u)]
  have hlog : Int.log 2 |x| < F.fractionBits + 1 + e := by
    refine (Int.lt_zpow_iff_log_lt one_lt_two (abs_pos.mpr hne)).mp ?_
    have hm' : |(m : ℚ)| < 2 ^ (F.fractionBits + 1) := by exact_mod_cast hm
    rw [hme, habs, zpow_add₀ (by norm_num), hprec]
    exact mul_lt_mul_of_pos_right hm' (two_zpow_pos e)
  have hle : F.ulp x ≤ e := by
    unfold ulp
    rw [if_neg hne]
    exact max_le hmin (by omega)
  refine ⟨hle.trans hmax, ?_⟩
  have hroom : Int.log 2 |x| + 1 ≤ F.fractionBits + 1 + F.ulp x := by
    unfold ulp
    rw [if_neg hne]
    omega
  generalize F.ulp x = u at hle hroom
  have hsame : x = ((m * 2 ^ (e - u).toNat : ℤ) : ℚ) * 2 ^ u := by
    rw [hme]
    push_cast
    rw [mul_assoc, ← zpow_natCast, Int.toNat_of_nonneg (by omega), ← zpow_add₀ two_ne_zero,
      Int.sub_add_cancel]
  refine ⟨m * 2 ^ (e - u).toNat, ?_, hsame⟩
  generalize m * 2 ^ (e - u).toNat = k at hsame
  -- Otherwise the last place would be higher.
  have hupper : |x| < 2 ^ (F.fractionBits + 1) * 2 ^ u := by
    refine (Int.lt_zpow_succ_log_self one_lt_two |x|).trans_le ?_
    rw [← hprec, Nat.cast_ofNat, ← zpow_add₀ two_ne_zero]
    exact zpow_le_zpow_right₀ one_le_two hroom
  rw [hsame, habs] at hupper
  have hlt := lt_of_mul_lt_mul_right hupper (two_zpow_pos u).le
  exact_mod_cast hlt

/-- **A number of the format is not rounded.** -/
theorem round_of_representable (hx : F.Representable x) : F.round x = x := by
  unfold round
  by_cases hne : x = 0
  · have hzero : roundEven 0 = 0 := roundEven_intCast 0
    rw [hne, zero_div, hzero, Int.cast_zero, zero_mul]
  · obtain ⟨-, m, -, hm⟩ := hx.ulps hne
    have hdiv : x / 2 ^ F.ulp x = m := (div_eq_iff (two_zpow_pos _).ne').mpr hm
    rw [hdiv, roundEven_intCast]
    exact hm.symm

theorem ulpMin_le_ulp (F : Format) (x : ℚ) : F.ulpMin ≤ F.ulp x := by
  unfold ulp
  split_ifs
  · exact le_rfl
  · exact le_max_left ..

/-- **The parts of the pattern**: below the precision, and with a leading bit unless the number is
as small as can be. -/
theorem Representable.parts (hx : F.Representable x) :
    F.significand x < 2 * 2 ^ F.fractionBits ∧ |x| = F.significand x * 2 ^ F.ulp x ∧
      (F.ulp x = F.ulpMin ∨ F.ulp x ≤ F.ulpMax ∧ 2 ^ F.fractionBits ≤ F.significand x) := by
  by_cases hne : x = 0
  · have hsig : F.significand x = 0 := by
      unfold significand
      rw [hne, abs_zero, zero_div, Int.floor_zero]
      rfl
    rw [hsig, hne, abs_zero]
    exact ⟨by positivity, by simp, .inl (if_pos rfl)⟩
  · obtain ⟨hmax, m, hm, hmx⟩ := hx.ulps hne
    have habs : |x| = (|m| : ℤ) * 2 ^ F.ulp x := by
      conv_lhs => rw [hmx]
      rw [abs_mul, abs_of_pos (two_zpow_pos _), Int.cast_abs]
    have hdiv : |x| / 2 ^ F.ulp x = (|m| : ℤ) := (div_eq_iff (two_zpow_pos _).ne').mpr habs
    have hsig : F.significand x = m.natAbs := by
      unfold significand
      rw [hdiv, Int.floor_intCast, Int.abs_eq_natAbs, Int.toNat_natCast]
    have hval : |x| = F.significand x * 2 ^ F.ulp x := by
      rw [hsig, habs, Nat.cast_natAbs]
    refine ⟨?_, hval, ?_⟩
    · rw [hsig, ← pow_succ']
      rw [Int.abs_eq_natAbs] at hm
      exact_mod_cast hm
    · by_cases hmin : F.ulp x = F.ulpMin
      · exact .inl hmin
      · refine .inr ⟨hmax, ?_⟩
        -- The last place is that of the leading bit.
        have hulp : F.ulp x = Int.log 2 |x| - F.fractionBits := by
          unfold ulp at hmin ⊢
          rw [if_neg hne] at hmin ⊢
          exact (max_choice _ _).resolve_left hmin
        have hlow := Int.zpow_log_le_self one_lt_two (abs_pos.mpr hne)
        have hsplit : ((2 : ℕ) : ℚ) ^ Int.log 2 |x| = 2 ^ F.fractionBits * 2 ^ F.ulp x := by
          rw [hulp, zpow_sub₀ two_ne_zero, zpow_natCast, Nat.cast_ofNat]
          field_simp
        rw [hsplit, hval] at hlow
        exact_mod_cast le_of_mul_le_mul_right hlow (two_zpow_pos _)

/-- The digits of a pattern. -/
theorem digits {s k m P Q : ℕ} (hP : 0 < P) (hlt : k + m / P < Q) :
    (s * (P * Q) + k * P + m) % P = m % P ∧ (s * (P * Q) + k * P + m) / P % Q = k + m / P ∧
      (s * (P * Q) + k * P + m) / (P * Q) = s := by
  have hw : s * (P * Q) + k * P + m = m + P * (s * Q + k) := by ring
  have hdiv : (s * (P * Q) + k * P + m) / P = k + m / P + Q * s := by
    rw [hw, Nat.add_mul_div_left _ _ hP]
    ring
  refine ⟨by rw [hw, Nat.add_mul_mod_self_left], ?_, ?_⟩
  · rw [hdiv, Nat.add_mul_mod_self_left, Nat.mod_eq_of_lt hlt]
  · rw [← Nat.div_div_eq_div_mul, hdiv, Nat.add_mul_div_left _ _ (Nat.zero_lt_of_lt hlt),
      Nat.div_eq_of_lt hlt, Nat.zero_add]

/-- A format with a number has an exponent field of two bits at least. -/
theorem Representable.exponents (hx : F.Representable x) :
    F.ulpMax - F.ulpMin + 3 = (2 ^ F.exponentBits : ℕ) ∧ 4 ≤ 2 ^ F.exponentBits := by
  obtain ⟨-, e, -, hmin, hmax, -⟩ := hx
  have hpow : (2 ^ F.exponentBits : ℕ) = 2 * (F.bias + 1) := by
    unfold bias
    rw [Int.sub_add_cancel, ← pow_succ', Nat.sub_add_cancel F.pos]
    norm_cast
  unfold ulpMin at hmin ⊢
  unfold ulpMax at hmax ⊢
  omega

/-- Exponent and fraction stand for the significand. -/
theorem magnitude_parts {k m : ℕ} (hm : m < 2 * 2 ^ F.fractionBits)
    (hlead : k = 0 ∨ 2 ^ F.fractionBits ≤ m) :
    F.magnitude (k + m / 2 ^ F.fractionBits) (m % 2 ^ F.fractionBits) =
      m * 2 ^ (F.ulpMin + k) := by
  unfold magnitude
  rcases Nat.lt_or_ge m (2 ^ F.fractionBits) with hlt | hge
  · obtain rfl : k = 0 := hlead.resolve_right (Nat.not_le.mpr hlt)
    rw [Nat.div_eq_of_lt hlt, Nat.mod_eq_of_lt hlt, if_pos rfl, Nat.cast_zero, Int.add_zero]
  · have hdiv : m / 2 ^ F.fractionBits = 1 := Nat.div_eq_of_lt_le (by omega) (by omega)
    have hmod : 2 ^ F.fractionBits + m % 2 ^ F.fractionBits = m := by
      have := Nat.div_add_mod m (2 ^ F.fractionBits)
      rwa [hdiv, Nat.mul_one] at this
    have hsum : (2 : ℚ) ^ F.fractionBits + (m % 2 ^ F.fractionBits : ℕ) = m := by
      exact_mod_cast hmod
    rw [hdiv, if_neg (Nat.succ_ne_zero k), hsum, Nat.cast_add, Nat.cast_one, Int.add_sub_cancel]

/-- **A pattern stands for its number.** -/
theorem decode_bits (hx : F.Representable x) : F.decode (F.bits x) = some x := by
  obtain ⟨hsig, hval, hlead⟩ := hx.parts
  obtain ⟨hroom, hfour⟩ := hx.exponents
  have hP : 0 < 2 ^ F.fractionBits := by positivity
  obtain ⟨k, hk⟩ : ∃ k : ℕ, F.ulp x = F.ulpMin + k :=
    ⟨(F.ulp x - F.ulpMin).toNat, by have := F.ulpMin_le_ulp x; omega⟩
  have hone : F.significand x / 2 ^ F.fractionBits ≤ 1 :=
    Nat.le_of_lt_succ ((Nat.div_lt_iff_lt_mul hP).mpr hsig)
  have hlt : k + F.significand x / 2 ^ F.fractionBits < 2 ^ F.exponentBits - 1 := by
    rcases hlead with hmin | ⟨hmax, -⟩ <;> omega
  have hmag := magnitude_parts hsig (hlead.imp (fun hmin => by omega) And.right) (k := k)
  obtain ⟨hfrac, hexp, hneg⟩ := digits (s := if x < 0 then 1 else 0) hP
    (hlt.trans_le (Nat.sub_le _ _))
  unfold bits decode
  rw [hk, add_sub_cancel_left, Int.toNat_natCast]
  dsimp only
  rw [hfrac, hexp, hneg, if_neg hlt.ne, hmag, ← hk, ← hval]
  by_cases hsign : x < 0
  · rw [if_pos hsign, if_pos rfl, abs_of_neg hsign, neg_neg]
  · rw [if_neg hsign, if_neg Nat.zero_ne_one, abs_of_nonneg (not_lt.mp hsign)]

end Format

end Binary
