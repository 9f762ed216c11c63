import Line6.Lib.Prog

/-!
# A program in a hostile environment

`execAmid p env` runs one thread while somebody else changes the state before each of its actions:
by `env 0` before the first, by `env 1` before the second. What the thread found once it need not
find again. The mutex is granted whenever the thread does not hold it.

* `Ends Q l p`: whatever it finds, a program that holds the mutex or not (`l`) neither dies nor
  waits for itself, and ends in `Q` (`Ends.bind`, `Ends.mono`, `Ends.yields`).
* `Ends.amid`: so it does in every environment.
-/

namespace Conc

open Prog

variable {σ β γ : Type}

/-- The run of one thread in an environment. -/
def execAmid : Prog σ β → (Nat → σ → σ) → Bool → σ → Outcome σ β
  | .ret b, _, l, s => .done l s b
  | .access u k, env, l, s => execAmid (k (env 0 s)) (fun i => env (i + 1)) l (u (env 0 s))
  | .lock k, env, l, s =>
    if l then .stuck s else execAmid k (fun i => env (i + 1)) true (env 0 s)
  | .unlock k, env, l, s =>
    if l then execAmid k (fun i => env (i + 1)) false (env 0 s) else .stuck s
  | .callout k, env, l, s => execAmid k (fun i => env (i + 1)) l (env 0 s)
  | .trap, _, _, _ => .trapped

/-- Every branch ends, in `Q`, and keeps to the mutex. -/
def Ends (Q : Bool → β → Prop) : Bool → Prog σ β → Prop
  | l, .ret b => Q l b
  | l, .access _ k => ∀ s, Ends Q l (k s)
  | l, .lock k => l = false ∧ Ends Q true k
  | l, .unlock k => l = true ∧ Ends Q false k
  | l, .callout k => Ends Q l k
  | _, .trap => False

variable {Q : Bool → β → Prop} {l : Bool}

theorem Ends.bind {p : Prog σ γ} {f : γ → Prog σ β} (hp : Ends (fun l c => Ends Q l (f c)) l p) :
    Ends Q l (p >>= f) := by
  induction p generalizing l with
  | ret c => exact hp
  | access u k ih => exact fun s => ih s (hp s)
  | lock k ih => exact ⟨hp.1, ih hp.2⟩
  | unlock k ih => exact ⟨hp.1, ih hp.2⟩
  | callout k ih => exact ih hp
  | trap => exact hp

theorem Ends.mono {Q' : Bool → β → Prop} (h : ∀ l b, Q l b → Q' l b) {p : Prog σ β}
    (hp : Ends Q l p) : Ends Q' l p := by
  induction p generalizing l with
  | ret b => exact h l b hp
  | access u k ih => exact fun s => ih s (hp s)
  | lock k ih => exact ⟨hp.1, ih hp.2⟩
  | unlock k ih => exact ⟨hp.1, ih hp.2⟩
  | callout k ih => exact ih hp
  | trap => exact hp

/-- What every branch returns is what the program ends with. -/
theorem Ends.yields {P : β → Prop} {p : Prog σ β} (hp : Ends Q l p) (hP : Yields P p) :
    Ends (fun l b => Q l b ∧ P b) l p := by
  induction p generalizing l with
  | ret b => exact ⟨hp, hP⟩
  | access u k ih => exact fun s => ih s (hp s) (hP s)
  | lock k ih => exact ⟨hp.1, ih hp.2 hP⟩
  | unlock k ih => exact ⟨hp.1, ih hp.2 hP⟩
  | callout k ih => exact ih hp hP
  | trap => exact hp

/-- **Whatever the environment does, the program ends.** -/
theorem Ends.amid {p : Prog σ β} (hp : Ends Q l p) (env : Nat → σ → σ) (s : σ) :
    ∃ l' s' b, execAmid p env l s = .done l' s' b ∧ Q l' b := by
  induction p generalizing l env s with
  | ret b => exact ⟨l, s, b, rfl, hp⟩
  | access u k ih => exact ih (env 0 s) (hp (env 0 s)) _ _
  | lock k ih =>
    obtain ⟨rfl, hk⟩ := hp
    exact ih hk _ _
  | unlock k ih =>
    obtain ⟨rfl, hk⟩ := hp
    exact ih hk _ _
  | callout k ih => exact ih hp _ _
  | trap => exact hp.elim

end Conc
