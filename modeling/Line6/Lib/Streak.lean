import Mathlib.Data.List.DropRight
import Mathlib.Data.List.Basic

/-!
# Streaks

`streak a l` is how often in a row `a` comes last in `l`. A counter that counts the `a`s and is set
back by everything else holds it, and it reaches `n` for the first time exactly when `l` contains
`a` `n` times in a row (`replicate_infix_concat`).
-/

namespace Streak

variable {β : Type*} [DecidableEq β] {a b : β} {l : List β} {n : Nat}

/-- How often in a row `a` comes last. -/
def streak (a : β) (l : List β) : Nat := (l.rtakeWhile fun b => b == a).length

@[simp] theorem streak_nil (a : β) : streak a [] = 0 := rfl

@[simp] theorem streak_concat_self (a : β) (l : List β) :
    streak a (l ++ [a]) = streak a l + 1 := by
  unfold streak
  rw [List.rtakeWhile_concat, if_pos (beq_self_eq_true a), List.length_append,
    List.length_singleton]

theorem streak_concat_of_ne (h : b ≠ a) (l : List β) : streak a (l ++ [b]) = 0 := by
  unfold streak
  rw [List.rtakeWhile_concat, if_neg (by simpa using h), List.length_nil]

/-- The streak is the longest run at the end. -/
theorem replicate_suffix_iff : List.replicate n a <:+ l ↔ n ≤ streak a l := by
  induction l using List.reverseRecOn generalizing n with
  | nil => simp
  | append_singleton l b ih =>
    cases n with
    | zero => simp
    | succ n =>
      rw [List.replicate_succ']
      by_cases h : b = a
      · subst h
        rw [List.suffix_append_self_iff, ih, streak_concat_self, Nat.add_le_add_iff_right]
      · rw [streak_concat_of_ne h, List.suffix_concat_iff]
        have hnot : ¬ n + 1 ≤ 0 := Nat.not_succ_le_zero n
        simp [hnot, Ne.symm h]

/-- A run in the longer list was there before, or it is completed now. -/
theorem replicate_infix_concat : List.replicate n a <:+: l ++ [b] ↔
    List.replicate n a <:+: l ∨ n ≤ streak a (l ++ [b]) := by
  rw [List.infix_concat_iff, replicate_suffix_iff, or_comm]

end Streak
