import Mathlib.Order.Basic

/-!
# The last event, and windows

`Last P k j` says that `j` is the last index up to `k` at which `P` holds. A counter that every
event sets to zero and that otherwise counts up to `n` and stays there reads `min n (k - j)`
(`Last.here`, `Last.succ`, `bump_min`); it is below `n` exactly if there was an event among the
last `n` indices (`Last.recent_iff`).
-/

namespace Window

variable {P : Nat → Prop} {k j n : Nat}

/-- `j` is the last index up to `k` where `P` holds. -/
structure Last (P : Nat → Prop) (k j : Nat) : Prop where
  le : j ≤ k
  holds : P j
  after : ∀ i, j < i → i ≤ k → ¬ P i

theorem Last.here (h : P k) : Last P k k :=
  ⟨Nat.le_refl k, h, fun _ hlt hle => absurd hle (by omega)⟩

theorem Last.succ (h : Last P k j) (hnot : ¬ P (k + 1)) : Last P (k + 1) j := by
  refine ⟨Nat.le_trans h.le (Nat.le_succ k), h.holds, fun i hlt hle => ?_⟩
  rcases Nat.le_or_eq_of_le_succ hle with hle | rfl
  · exact h.after i hlt hle
  · exact hnot

/-- There was an event among the last `n` indices exactly if the last one is among them. -/
theorem Last.recent_iff (h : Last P k j) : (∃ i ≤ k, k < i + n ∧ P i) ↔ k < j + n := by
  constructor
  · rintro ⟨i, hle, hlt, hP⟩
    have hij : ¬ j < i := fun hji => h.after i hji hle hP
    omega
  · intro hlt
    exact ⟨j, h.le, hlt, h.holds⟩

/-- A counter that stops at `n`. -/
def bump (n c : Nat) : Nat := if c < n then c + 1 else c

theorem bump_min (n d : Nat) : bump n (min n d) = min n (d + 1) := by
  unfold bump
  split_ifs <;> omega

end Window
