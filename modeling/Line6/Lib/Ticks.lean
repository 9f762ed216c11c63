import Mathlib.Algebra.Order.Floor.Semiring
import Mathlib.Algebra.Order.Field.Basic
import Mathlib.Tactic.Linarith
import Mathlib.Tactic.Positivity
import Mathlib.Data.List.Chain

/-!
# Counting period boundaries

The boundaries of a timeline with anchor `a` and period `P` lie at `a + ⌊n * P⌋₊`. A counter that
is asked at a time and then moves at most one boundary on (`advance`) stays at or behind the clock
(`boundary_advance_le`), and is at the latest boundary as long as it is asked once a period
(`lt_boundary_advance`). `counts` is the counter over a list of times, and has both facts of every
one of them, the latter if the period is half a tick or more (`counts_latest`).
-/

namespace Ticks

variable {K : Type*} [Field K] [LinearOrder K] [FloorSemiring K]
variable {a n now t : Nat} {P : K}

/-- The time of boundary `n`. -/
def boundary (a : Nat) (P : K) (n : Nat) : Nat := a + ⌊(n : K) * P⌋₊

/-- The counter after it was asked at `now`. -/
def advance (a : Nat) (P : K) (now n : Nat) : Nat :=
  if boundary a P (n + 1) ≤ now then n + 1 else n

/-- The counter after each of the times it is asked. -/
def counts (a : Nat) (P : K) : Nat → List Nat → List Nat
  | _, [] => []
  | n, now :: ts => advance a P now n :: counts a P (advance a P now n) ts

@[simp] theorem counts_nil (a : Nat) (P : K) (n : Nat) : counts a P n [] = [] := rfl

@[simp] theorem counts_cons (a : Nat) (P : K) (n now : Nat) (ts : List Nat) :
    counts a P n (now :: ts) = advance a P now n :: counts a P (advance a P now n) ts := rfl

/-! ## At or behind the clock -/

theorem le_advance (a : Nat) (P : K) (now n : Nat) : n ≤ advance a P now n := by
  unfold advance
  split_ifs <;> omega

theorem advance_le_succ (a : Nat) (P : K) (now n : Nat) : advance a P now n ≤ n + 1 := by
  unfold advance
  split_ifs <;> omega

/-- The counter is at or behind the clock. -/
theorem boundary_advance_le (h : boundary a P n ≤ now) :
    boundary a P (advance a P now n) ≤ now := by
  unfold advance
  split_ifs with hwrap
  · exact hwrap
  · exact h

theorem counts_chain (a : Nat) (P : K) (n : Nat) (ts : List Nat) :
    (n :: counts a P n ts).IsChain fun n n' => n ≤ n' ∧ n' ≤ n + 1 := by
  induction ts generalizing n with
  | nil => exact .singleton n
  | cons now ts ih => exact .cons_cons ⟨le_advance a P now n, advance_le_succ a P now n⟩ (ih _)

/-- Asked at times that do not decrease, the counter is at or behind each of them. -/
theorem counts_le {ts : List Nat} (h : boundary a P n ≤ t) (hts : (t :: ts).IsChain (· ≤ ·)) :
    List.Forall₂ (fun n now => boundary a P n ≤ now) (counts a P n ts) ts := by
  induction ts generalizing n t with
  | nil => exact .nil
  | cons now ts ih =>
    rw [List.isChain_cons_cons] at hts
    have hnow := boundary_advance_le (h.trans hts.1)
    exact .cons hnow (ih hnow hts.2)

/-! ## At the latest boundary -/

variable [IsStrictOrderedRing K]

theorem boundary_zero (a : Nat) (P : K) : boundary a P 0 = a := by
  simp [boundary]

theorem boundary_mono (hP : 0 ≤ P) {m : Nat} (h : m ≤ n) : boundary a P m ≤ boundary a P n := by
  unfold boundary
  gcongr

/-- A boundary is a whole period, rounded down, or more after the one before. -/
theorem boundary_add_floor_le (hP : 0 ≤ P) : boundary a P n + ⌊P⌋₊ ≤ boundary a P (n + 1) := by
  unfold boundary
  rw [Nat.add_assoc]
  refine Nat.add_le_add_left ?_ a
  have hn : (0 : K) ≤ n * P := mul_nonneg (Nat.cast_nonneg n) hP
  rw [Nat.le_floor_iff (by positivity)]
  push_cast
  have h₁ := Nat.floor_le hn
  have h₂ := Nat.floor_le hP
  linarith

/-- Asked within a period, rounded down, of a time when the counter was at the latest boundary, it
is again. -/
theorem lt_boundary_advance (hP : 0 ≤ P) (h : t < boundary a P (n + 1)) (hgap : now ≤ t + ⌊P⌋₊) :
    now < boundary a P (advance a P now n + 1) := by
  unfold advance
  split_ifs with hwrap
  · have := boundary_add_floor_le (a := a) (n := n + 1) hP
    omega
  · exact Nat.lt_of_not_le hwrap

/-- Two periods of half a tick or more are a tick more than one, rounded down. -/
theorem floor_lt_floor_two_mul (h : 1 / 2 ≤ P) : ⌊P⌋₊ < ⌊2 * P⌋₊ := by
  have hP : 0 ≤ P := (by positivity : (0 : K) ≤ 1 / 2).trans h
  have hle := Nat.floor_le hP
  refine Nat.lt_of_succ_le ((Nat.le_floor_iff (by positivity)).mpr ?_)
  rw [Nat.succ_eq_add_one, Nat.cast_add, Nat.cast_one]
  rcases Nat.eq_zero_or_pos ⌊P⌋₊ with hzero | hpos
  · rw [hzero, Nat.cast_zero]
    linarith
  · have hone : (1 : K) ≤ (⌊P⌋₊ : K) := by exact_mod_cast hpos
    linarith

/-- Asked within a period, rounded down, of the anchor, the counter is at the latest boundary. With
a period under a tick, boundary 1 is at the anchor, and boundary 2 after it. -/
theorem lt_boundary_advance_zero (h : 1 / 2 ≤ P) (hgap : now ≤ a + ⌊P⌋₊) :
    now < boundary a P (advance a P now 0 + 1) := by
  unfold advance
  split_ifs with hwrap
  · have hfloor := floor_lt_floor_two_mul h
    have htwo : boundary a P (0 + 1 + 1) = a + ⌊2 * P⌋₊ := by
      unfold boundary
      norm_num
    omega
  · exact Nat.lt_of_not_le hwrap

/-- Asked once a period, rounded down, of a time when it was at the latest boundary, the counter is
there each time. -/
theorem counts_latest_of_lt {ts : List Nat} (hP : 0 ≤ P) (h : t < boundary a P (n + 1))
    (hts : (t :: ts).IsChain fun t now => now ≤ t + ⌊P⌋₊) :
    List.Forall₂ (fun n now => now < boundary a P (n + 1)) (counts a P n ts) ts := by
  induction ts generalizing n t with
  | nil => exact .nil
  | cons now ts ih =>
    rw [List.isChain_cons_cons] at hts
    have hnow := lt_boundary_advance hP h hts.1
    exact .cons hnow (ih hnow hts.2)

/-- Asked once a period, rounded down, from the anchor on, the counter is at the latest boundary
each time. -/
theorem counts_latest {ts : List Nat} (h : 1 / 2 ≤ P)
    (hts : (a :: ts).IsChain fun t now => now ≤ t + ⌊P⌋₊) :
    List.Forall₂ (fun n now => now < boundary a P (n + 1)) (counts a P 0 ts) ts := by
  cases ts with
  | nil => exact .nil
  | cons now ts =>
    rw [List.isChain_cons_cons] at hts
    have hP : 0 ≤ P := (by positivity : (0 : K) ≤ 1 / 2).trans h
    have hnow := lt_boundary_advance_zero h hts.1
    exact .cons hnow (counts_latest_of_lt hP hnow hts.2)

end Ticks
