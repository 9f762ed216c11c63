import Line6.Daemon.Push
import Line6.Lib.Binary

/-!
# The samples as single precision numbers (`s24_to_f32`)

`s24ToBits` is `s24_to_f32` in the arithmetic of `f32`: the conversion `v as f32` and the division
each round to the nearest number of the format, and what is stored in the ring is a pattern of 32
bits.

* `s24_to_f32_exact`: neither of the two rounds, the pattern stands for the value of the bytes over
  2^23, and different bytes give different patterns. So `s24ToF32`, with its exact quotient, is
  what the code computes.
-/

namespace Line6

open Binary

/-- `f32`. -/
def binary32 : Format := ⟨23, 8, by decide⟩

/-- `s24_to_f32`: the bits of the result. -/
def s24ToBits (b0 b1 b2 : UInt8) : UInt32 :=
  let v : Int32 := b0.toUInt32.toInt32 ||| (b1.toUInt32.toInt32 <<< 8) |||
    (b2.toUInt32.toInt32 <<< 16)
  let v : Int32 := (v <<< 8) >>> 8 -- sign-extend from 24 bits
  let v : ℚ := binary32.round v.toInt
  UInt32.ofNat (binary32.bits (binary32.round (v / 8388608)))

/-- The number a cell holds; 0 for what is not a finite number. -/
def cellValue (bits : UInt32) : ℚ := (binary32.decode bits.toNat).getD 0

theorem binary32_range : binary32.ulpMin = -149 ∧ binary32.ulpMax = 104 := by decide

/-- Integers of 24 bits and a sign are numbers of the format, and so are their quotients by
2^23. -/
theorem representable_scaled {v : ℤ} (hv : |v| < 2 ^ 24) :
    binary32.Representable v ∧ binary32.Representable (v / 2 ^ 23) := by
  obtain ⟨hmin, hmax⟩ := binary32_range
  refine ⟨⟨v, 0, hv, ?_, ?_, by norm_num⟩, ⟨v, -23, hv, ?_, ?_, ?_⟩⟩
  · rw [hmin]
    decide
  · rw [hmax]
    decide
  · rw [hmin]
    decide
  · rw [hmax]
    decide
  · rw [div_eq_mul_inv]
    norm_cast

/-- The patterns of a format of 32 bits fit into 32 bits. -/
theorem bits_lt {x : ℚ} (hx : binary32.Representable x) : binary32.bits x < 2 ^ 32 := by
  obtain ⟨hsig, -, hlead⟩ := hx.parts
  obtain ⟨hmin, hmax⟩ := binary32_range
  have hsig' : binary32.significand x < 2 * 2 ^ 23 := hsig
  have hulp := binary32.ulpMin_le_ulp x
  have hsign : (if x < 0 then 1 else 0) ≤ 1 := by split_ifs <;> decide
  have hbits : binary32.bits x = (if x < 0 then 1 else 0) * (2 ^ 23 * 2 ^ 8) +
      (binary32.ulp x - binary32.ulpMin).toNat * 2 ^ 23 + binary32.significand x := rfl
  rw [hmin] at hbits hlead hulp
  rw [hmax] at hlead
  have hk : (binary32.ulp x - -149).toNat ≤ 253 := by omega
  rw [hbits]
  omega

/-- The value of three bytes, and its quotient. -/
theorem value_representable (b0 b1 b2 : UInt8) :
    binary32.Representable (Pcm24.value b0 b1 b2) ∧
      binary32.Representable (Pcm24.value b0 b1 b2 / 2 ^ 23) := by
  refine representable_scaled (abs_lt.mpr ⟨?_, ?_⟩)
  · have := Pcm24.neg_le_value b0 b1 b2
    omega
  · have := Pcm24.value_lt b0 b1 b2
    omega

/-- What the stored pattern stands for. -/
theorem decode_s24ToBits (b0 b1 b2 : UInt8) :
    binary32.decode (s24ToBits b0 b1 b2).toNat = some (s24ToF32 b0 b1 b2) := by
  obtain ⟨hint, hquot⟩ := value_representable b0 b1 b2
  have hsign := Pcm24.signExtend_packed (Pcm24.toBitVec_or b0 b1 b2)
  have hnum : (8388608 : ℚ) = 2 ^ 23 := by norm_num
  have hbits : s24ToBits b0 b1 b2 =
      UInt32.ofNat (binary32.bits (Pcm24.value b0 b1 b2 / 2 ^ 23)) := by
    unfold s24ToBits
    dsimp only
    rw [hsign, Format.round_of_representable hint, hnum, Format.round_of_representable hquot]
  rw [hbits, UInt32.toNat_ofNat', Nat.mod_eq_of_lt (bits_lt hquot), Format.decode_bits hquot,
    s24ToF32_eq]

/-- **`s24_to_f32` does not round.** -/
theorem s24_to_f32_exact (b0 b1 b2 : UInt8) :
    binary32.round (Pcm24.value b0 b1 b2) = Pcm24.value b0 b1 b2 ∧
    binary32.round (Pcm24.value b0 b1 b2 / 2 ^ 23) = Pcm24.value b0 b1 b2 / 2 ^ 23 ∧
    binary32.decode (s24ToBits b0 b1 b2).toNat = some (s24ToF32 b0 b1 b2) ∧
    ∀ c0 c1 c2, s24ToBits b0 b1 b2 = s24ToBits c0 c1 c2 → b0 = c0 ∧ b1 = c1 ∧ b2 = c2 := by
  obtain ⟨hint, hquot⟩ := value_representable b0 b1 b2
  refine ⟨Format.round_of_representable hint, Format.round_of_representable hquot,
    decode_s24ToBits b0 b1 b2, fun c0 c1 c2 heq => ?_⟩
  have hsame := decode_s24ToBits b0 b1 b2
  rw [heq, decode_s24ToBits c0 c1 c2] at hsame
  exact s24ToF32_inj (Option.some.inj hsame).symm

/-- Half of the full scale, and its negative end. -/
example : s24ToBits 0 0 0x40 = 0x3F000000 ∧ s24ToBits 0 0 0x80 = 0xBF800000 := by
  decide +kernel

/-- A cell holds the sample. -/
theorem cellValue_s24ToBits (b0 b1 b2 : UInt8) :
    cellValue (s24ToBits b0 b1 b2) = s24ToF32 b0 b1 b2 := by
  unfold cellValue
  rw [decode_s24ToBits]
  rfl

end Line6
