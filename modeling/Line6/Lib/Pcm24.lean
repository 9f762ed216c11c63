import Mathlib.Algebra.Ring.Int.Defs
import Mathlib.Algebra.Ring.Nat
import Mathlib.Tactic.SplitIfs

/-!
# Packed 24-bit samples

Three bytes, the least significant one first, as a two's complement number.

* `value_inj`, `neg_le_value`, `value_lt`: different bytes have different values, from `-2^23` up
  to, but without, `2^23`.
* `signExtend_packed`: a 32-bit word that holds the three bytes is sign-extended by a shift to the
  left and an arithmetic shift back.
-/

namespace Pcm24

/-- The three bytes as an unsigned number. -/
def packed (b0 b1 b2 : UInt8) : Nat := b0.toNat + 256 * b1.toNat + 65536 * b2.toNat

/-- The three bytes as a two's complement number. -/
def value (b0 b1 b2 : UInt8) : Int :=
  if packed b0 b1 b2 < 2 ^ 23 then packed b0 b1 b2 else packed b0 b1 b2 - 2 ^ 24

variable {b0 b1 b2 : UInt8}

theorem packed_lt (b0 b1 b2 : UInt8) : packed b0 b1 b2 < 2 ^ 24 := by
  have h0 := b0.toNat_lt
  have h1 := b1.toNat_lt
  have h2 := b2.toNat_lt
  unfold packed
  omega

theorem packed_inj {c0 c1 c2 : UInt8} (h : packed b0 b1 b2 = packed c0 c1 c2) :
    b0 = c0 ∧ b1 = c1 ∧ b2 = c2 := by
  have h0 := b0.toNat_lt
  have h1 := b1.toNat_lt
  have hc0 := c0.toNat_lt
  have hc1 := c1.toNat_lt
  unfold packed at h
  simp only [← UInt8.toNat_inj]
  omega

theorem neg_le_value (b0 b1 b2 : UInt8) : -2 ^ 23 ≤ value b0 b1 b2 := by
  unfold value
  split_ifs <;> omega

theorem value_lt (b0 b1 b2 : UInt8) : value b0 b1 b2 < 2 ^ 23 := by
  have h := packed_lt b0 b1 b2
  unfold value
  split_ifs <;> omega

/-- **Different bytes have different values.** -/
theorem value_inj {c0 c1 c2 : UInt8} (h : value b0 b1 b2 = value c0 c1 c2) :
    b0 = c0 ∧ b1 = c1 ∧ b2 = c2 := by
  have hb := packed_lt b0 b1 b2
  have hc := packed_lt c0 c1 c2
  refine packed_inj ?_
  unfold value at h
  split_ifs at h <;> omega

/-! ## Shifts -/

/-- The three bytes put together in a word. -/
theorem toBitVec_or (b0 b1 b2 : UInt8) :
    (b0.toUInt32.toInt32 ||| (b1.toUInt32.toInt32 <<< 8) |||
      (b2.toUInt32.toInt32 <<< 16)).toBitVec = BitVec.ofNat 32 (packed b0 b1 b2) := by
  have h0 := b0.toNat_lt
  have h1 := b1.toNat_lt
  have h2 := b2.toNat_lt
  have hlow : b0.toNat ||| b1.toNat <<< 8 = b0.toNat + 256 * b1.toNat := by
    rw [Nat.or_comm, ← Nat.shiftLeft_add_eq_or_of_lt h0, Nat.shiftLeft_eq]
    omega
  have hall : (b0.toNat + 256 * b1.toNat) ||| b2.toNat <<< 16 = packed b0 b1 b2 := by
    rw [Nat.or_comm, ← Nat.shiftLeft_add_eq_or_of_lt (by omega), Nat.shiftLeft_eq]
    unfold packed
    omega
  have hshift1 : b1.toNat <<< 8 % 2 ^ 32 = b1.toNat <<< 8 := by
    rw [Nat.shiftLeft_eq]
    omega
  have hshift2 : b2.toNat <<< 16 % 2 ^ 32 = b2.toNat <<< 16 := by
    rw [Nat.shiftLeft_eq]
    omega
  apply BitVec.eq_of_toNat_eq
  rw [BitVec.toNat_ofNat, Nat.mod_eq_of_lt (Nat.lt_trans (packed_lt b0 b1 b2) (by decide))]
  calc _ = b0.toNat ||| b1.toNat <<< 8 % 2 ^ 32 ||| b2.toNat <<< 16 % 2 ^ 32 := by
        simp [BitVec.toNat_or, BitVec.toNat_shiftLeft]
    _ = packed b0 b1 b2 := by rw [hshift1, hshift2, hlow, hall]

/-- **Sign extension from 24 bits**: eight bits to the left and back again. -/
theorem signExtend_packed {v : Int32} (hv : v.toBitVec = BitVec.ofNat 32 (packed b0 b1 b2)) :
    ((v <<< 8) >>> 8).toInt = value b0 b1 b2 := by
  have hlt := packed_lt b0 b1 b2
  have hshift : (8 : Int32).toBitVec.smod 32 = 8#32 := by decide
  have hword : (BitVec.ofNat 32 (packed b0 b1 b2) <<< 8#32).toNat = 256 * packed b0 b1 b2 := by
    rw [BitVec.shiftLeft_eq', BitVec.toNat_shiftLeft, BitVec.toNat_ofNat, Nat.shiftLeft_eq]
    show packed b0 b1 b2 % 2 ^ 32 * 2 ^ 8 % 2 ^ 32 = _
    omega
  have hleft : (v <<< 8).toBitVec.toInt = 256 * value b0 b1 b2 := by
    rw [Int32.toBitVec_shiftLeft, hv, hshift, BitVec.toInt_eq_toNat_cond, hword]
    unfold value
    split_ifs <;> omega
  rw [← Int32.toInt_toBitVec, Int32.toBitVec_shiftRight, hshift, BitVec.sshiftRight_eq',
    BitVec.toInt_sshiftRight, hleft, Int.shiftRight_eq_div_pow]
  show 256 * value b0 b1 b2 / 256 = _
  omega

end Pcm24
