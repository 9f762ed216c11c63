import Mathlib.Data.Multiset.AddSub

/-!
# Reference counts

`Balanced refs held`: every count is the number of references there are, whoever holds them. It
stays so when a retain adds a reference and when a release drops one, and then an object is alive
exactly while somebody holds a reference to it (`Balanced.pos_iff`).
-/

namespace RefCount

variable {ι : Type*} [DecidableEq ι] {refs : ι → Nat} {held : Multiset ι} {i : ι}

/-- Every count is the number of references there are. -/
def Balanced (refs : ι → Nat) (held : Multiset ι) : Prop := ∀ i, refs i = held.count i

theorem balanced_zero : Balanced (fun _ : ι => 0) 0 := fun _ => rfl

theorem Balanced.retain (h : Balanced refs held) (i : ι) :
    Balanced (Function.update refs i (refs i + 1)) (i ::ₘ held) := by
  intro j
  by_cases hj : j = i
  · subst hj
    rw [Function.update_self, Multiset.count_cons_self, h j]
  · rw [Function.update_of_ne hj, Multiset.count_cons_of_ne hj, h j]

theorem Balanced.release (h : Balanced refs held) (i : ι) :
    Balanced (Function.update refs i (refs i - 1)) (held.erase i) := by
  intro j
  by_cases hj : j = i
  · subst hj
    rw [Function.update_self, Multiset.count_erase_self, h j]
  · rw [Function.update_of_ne hj, Multiset.count_erase_of_ne hj, h j]

theorem Balanced.pos_iff (h : Balanced refs held) : 0 < refs i ↔ i ∈ held := by
  rw [h i, Multiset.count_pos]

theorem Balanced.eq_zero_iff (h : Balanced refs held) : refs i = 0 ↔ i ∉ held := by
  rw [h i, Multiset.count_eq_zero]

end RefCount
