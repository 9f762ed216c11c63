import Mathlib.Data.Finset.Basic
import Mathlib.Data.Finset.Lattice.Lemmas

/-!
# A ledger of resources

A program acquires resources, uses them and gives them back. `replay` runs the list of what it did
from the set of resources it holds; it fails where something held is acquired again, or something
not held is released or used. So a ledger that replays has no double release and no use after
release.

* `replay_append`: ledgers compose. `replay_acquireAll`, `replay_useAll`, `replay_releaseAll`: the
  loops over distinct resources.
* `replay_count`: what is acquired is released or still held. `released_perm`: a ledger from
  nothing to nothing released exactly what it acquired, each as often.
-/

namespace Ledger

/-- What is done with a resource. -/
inductive Touch (ρ : Type) where
  | acquire (r : ρ)
  | release (r : ρ)
  | use (r : ρ)
  deriving Repr, DecidableEq

namespace Touch

variable {ρ : Type}

def acquired? : Touch ρ → Option ρ
  | acquire r => some r
  | _ => none

def released? : Touch ρ → Option ρ
  | release r => some r
  | _ => none

/-- What is held after a touch, `none` when it is not allowed. -/
def apply [DecidableEq ρ] (held : Finset ρ) : Touch ρ → Option (Finset ρ)
  | acquire r => if r ∈ held then none else some (insert r held)
  | release r => if r ∈ held then some (held.erase r) else none
  | use r => if r ∈ held then some held else none

end Touch

variable {ρ : Type}

/-- The resources acquired, in order. -/
def acquired (ts : List (Touch ρ)) : List ρ := ts.filterMap Touch.acquired?

/-- The resources released, in order. -/
def released (ts : List (Touch ρ)) : List ρ := ts.filterMap Touch.released?

theorem acquired_append (ts us : List (Touch ρ)) :
    acquired (ts ++ us) = acquired ts ++ acquired us := List.filterMap_append

theorem released_append (ts us : List (Touch ρ)) :
    released (ts ++ us) = released ts ++ released us := List.filterMap_append

section Simp

variable (r : ρ) (ts : List (Touch ρ))

@[simp] theorem acquired_nil : acquired ([] : List (Touch ρ)) = [] := rfl

@[simp] theorem acquired_acquire : acquired (.acquire r :: ts) = r :: acquired ts := rfl

@[simp] theorem acquired_release : acquired (.release r :: ts) = acquired ts := rfl

@[simp] theorem acquired_use : acquired (.use r :: ts) = acquired ts := rfl

@[simp] theorem released_nil : released ([] : List (Touch ρ)) = [] := rfl

@[simp] theorem released_acquire : released (.acquire r :: ts) = released ts := rfl

@[simp] theorem released_release : released (.release r :: ts) = r :: released ts := rfl

@[simp] theorem released_use : released (.use r :: ts) = released ts := rfl

end Simp

@[simp] theorem acquired_map_acquire (rs : List ρ) : acquired (rs.map .acquire) = rs := by
  induction rs with
  | nil => rfl
  | cons r rs ih => simp [ih]

@[simp] theorem acquired_map_release (rs : List ρ) : acquired (rs.map .release) = [] := by
  induction rs with
  | nil => rfl
  | cons r rs ih => simp [ih]

@[simp] theorem acquired_map_use (rs : List ρ) : acquired (rs.map .use) = [] := by
  induction rs with
  | nil => rfl
  | cons r rs ih => simp [ih]

@[simp] theorem released_map_acquire (rs : List ρ) : released (rs.map .acquire) = [] := by
  induction rs with
  | nil => rfl
  | cons r rs ih => simp [ih]

@[simp] theorem released_map_use (rs : List ρ) : released (rs.map .use) = [] := by
  induction rs with
  | nil => rfl
  | cons r rs ih => simp [ih]

variable [DecidableEq ρ]

/-- The resources held after a ledger. -/
def replay : List (Touch ρ) → Finset ρ → Option (Finset ρ)
  | [], held => some held
  | t :: ts, held => (t.apply held).bind (replay ts)

variable {held held' : Finset ρ}

theorem replay_append (ts us : List (Touch ρ)) (held : Finset ρ) :
    replay (ts ++ us) held = (replay ts held).bind (replay us) := by
  induction ts generalizing held with
  | nil => rfl
  | cons t ts ih =>
    show (t.apply held).bind (replay (ts ++ us)) = ((t.apply held).bind (replay ts)).bind _
    rw [Option.bind_assoc]
    exact congrArg _ (funext ih)

theorem replay_append_of_eq {ts us : List (Touch ρ)} (h : replay ts held = some held') :
    replay (ts ++ us) held = replay us held' := by
  rw [replay_append, h]
  rfl

/-! ## Loops -/

theorem replay_acquireAll {rs : List ρ} (hnodup : rs.Nodup) (hnew : ∀ r ∈ rs, r ∉ held) :
    replay (rs.map .acquire) held = some (held ∪ rs.toFinset) := by
  induction rs generalizing held with
  | nil => simp [replay]
  | cons r rs ih =>
    obtain ⟨hr, hrs⟩ := List.nodup_cons.mp hnodup
    have hstep : (Touch.acquire r).apply held = some (insert r held) :=
      if_neg (hnew r List.mem_cons_self)
    have hrest : ∀ x ∈ rs, x ∉ insert r held := by
      intro x hx hmem
      rcases Finset.mem_insert.mp hmem with rfl | hmem
      · exact hr hx
      · exact hnew x (List.mem_cons_of_mem r hx) hmem
    show ((Touch.acquire r).apply held).bind (replay (rs.map .acquire)) = _
    rw [hstep, Option.bind_some, ih hrs hrest, List.toFinset_cons, Finset.insert_union,
      Finset.union_insert]

theorem replay_useAll {rs : List ρ} (hheld : ∀ r ∈ rs, r ∈ held) :
    replay (rs.map .use) held = some held := by
  induction rs with
  | nil => rfl
  | cons r rs ih =>
    have hstep : (Touch.use r).apply held = some held := if_pos (hheld r List.mem_cons_self)
    show ((Touch.use r).apply held).bind (replay (rs.map .use)) = _
    rw [hstep]
    exact ih fun x hx => hheld x (List.mem_cons_of_mem r hx)

theorem replay_releaseAll {rs : List ρ} (hnodup : rs.Nodup) (hheld : ∀ r ∈ rs, r ∈ held) :
    replay (rs.map .release) held = some (held \ rs.toFinset) := by
  induction rs generalizing held with
  | nil => simp [replay]
  | cons r rs ih =>
    obtain ⟨hr, hrs⟩ := List.nodup_cons.mp hnodup
    have hstep : (Touch.release r).apply held = some (held.erase r) :=
      if_pos (hheld r List.mem_cons_self)
    have hrest : ∀ x ∈ rs, x ∈ held.erase r := by
      intro x hx
      refine Finset.mem_erase.mpr ⟨?_, hheld x (List.mem_cons_of_mem r hx)⟩
      rintro rfl
      exact hr hx
    show ((Touch.release r).apply held).bind (replay (rs.map .release)) = _
    rw [hstep, Option.bind_some, ih hrs hrest, List.toFinset_cons, Finset.sdiff_insert,
      Finset.erase_sdiff_comm]

/-! ## The balance -/

/-- Whether `r` is held, as a number. -/
def holds (held : Finset ρ) (r : ρ) : Nat := if r ∈ held then 1 else 0

theorem apply_count {t : Touch ρ} (h : t.apply held = some held') (r : ρ) :
    (acquired [t]).count r + holds held r = (released [t]).count r + holds held' r := by
  unfold holds
  cases t with
  | acquire x =>
    change (if x ∈ held then none else some (insert x held)) = some held' at h
    split_ifs at h with hx
    cases h
    by_cases hr : r = x
    · subst hr
      simp [hx]
    · simp [hr, Ne.symm hr]
  | release x =>
    change (if x ∈ held then some (held.erase x) else none) = some held' at h
    split_ifs at h with hx
    cases h
    by_cases hr : r = x
    · subst hr
      simp [hx]
    · simp [hr, Ne.symm hr]
  | use x =>
    change (if x ∈ held then some held else none) = some held' at h
    split_ifs at h with hx
    cases h
    rfl

/-- **What is acquired is released or still held.** -/
theorem replay_count {ts : List (Touch ρ)} (h : replay ts held = some held') (r : ρ) :
    (acquired ts).count r + holds held r = (released ts).count r + holds held' r := by
  induction ts generalizing held with
  | nil =>
    cases h
    rfl
  | cons t ts ih =>
    obtain ⟨mid, hstep, hrest⟩ := Option.bind_eq_some_iff.mp h
    have h₁ := apply_count hstep r
    have h₂ := ih hrest
    have hacq : acquired (t :: ts) = acquired [t] ++ acquired ts := acquired_append [t] ts
    have hrel : released (t :: ts) = released [t] ++ released ts := released_append [t] ts
    rw [hacq, hrel, List.count_append, List.count_append]
    omega

/-- **A ledger from nothing to nothing released exactly what it acquired.** -/
theorem released_perm {ts : List (Touch ρ)} (h : replay ts ∅ = some ∅) :
    (released ts).Perm (acquired ts) :=
  List.perm_iff_count.mpr fun r => (Nat.add_right_cancel (replay_count h r)).symm

end Ledger
