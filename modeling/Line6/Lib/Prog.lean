import Mathlib.Logic.Function.Basic

/-!
# Programs over shared memory and one mutex

A thread is a tree of atomic actions over a shared state `σ`: `access` reads the state and
updates it in one step, `lock` / `unlock` are those of one non-recursive mutex, `callout` hands
control to foreign code that may call back, `trap` is the death of the process. Whatever is not
shared (local variables, arguments, answers of the environment) lives in the tree itself.

* `exec` runs one thread with nobody else around: the sequential meaning. A thread that locks a
  locked mutex is `stuck`, also when it is the thread itself that locked it.
* `Keeps R`: every access of the program relates the state before and after it by `R`, on every
  branch (`Keeps.bind`, `exec_keeps`). `Plain R`: the same, and the program neither touches the
  mutex nor calls out. `Yields P`: every branch that ends returns a result in `P`.

The interleaving meaning, and the rule that connects the two, are in `Pool.lean`.
-/

namespace Conc

/-- A program of one thread. -/
inductive Prog (σ β : Type) : Type where
  | ret (b : β)
  | access (upd : σ → σ) (k : σ → Prog σ β)
  | lock (k : Prog σ β)
  | unlock (k : Prog σ β)
  | callout (k : Prog σ β)
  | trap

namespace Prog

variable {σ β γ : Type}

def bind : Prog σ β → (β → Prog σ γ) → Prog σ γ
  | ret b, f => f b
  | access u k, f => access u fun s => (k s).bind f
  | lock k, f => lock (k.bind f)
  | unlock k, f => unlock (k.bind f)
  | callout k, f => callout (k.bind f)
  | trap, _ => trap

instance : Monad (Prog σ) where
  pure := ret
  bind := bind

/-- Read the shared state. -/
def rd (f : σ → β) : Prog σ β := access id fun s => ret (f s)

/-- Update the shared state. -/
def wr (u : σ → σ) : Prog σ Unit := access u fun _ => ret ()

def acquire : Prog σ Unit := lock (ret ())

def release : Prog σ Unit := unlock (ret ())

def callHost : Prog σ Unit := callout (ret ())

@[simp] theorem pure_eq (b : β) : (pure b : Prog σ β) = ret b := rfl

@[simp] theorem ret_bind (b : β) (f : β → Prog σ γ) : ret b >>= f = f b := rfl

@[simp] theorem access_bind (u : σ → σ) (k : σ → Prog σ β) (f : β → Prog σ γ) :
    access u k >>= f = access u fun s => k s >>= f := rfl

@[simp] theorem lock_bind (k : Prog σ β) (f : β → Prog σ γ) : lock k >>= f = lock (k >>= f) := rfl

@[simp] theorem unlock_bind (k : Prog σ β) (f : β → Prog σ γ) :
    unlock k >>= f = unlock (k >>= f) := rfl

@[simp] theorem callout_bind (k : Prog σ β) (f : β → Prog σ γ) :
    callout k >>= f = callout (k >>= f) := rfl

@[simp] theorem trap_bind (f : β → Prog σ γ) : (trap : Prog σ β) >>= f = trap := rfl

@[simp] theorem rd_bind (f : σ → β) (k : β → Prog σ γ) :
    rd f >>= k = access id fun s => k (f s) := rfl

@[simp] theorem wr_bind (u : σ → σ) (k : Unit → Prog σ γ) :
    wr u >>= k = access u fun _ => k () := rfl

@[simp] theorem acquire_bind (k : Unit → Prog σ γ) : acquire >>= k = lock (k ()) := rfl

@[simp] theorem release_bind (k : Unit → Prog σ γ) : release >>= k = unlock (k ()) := rfl

@[simp] theorem callHost_bind (k : Unit → Prog σ γ) : callHost >>= k = callout (k ()) := rfl

theorem bind_assoc {δ : Type} (p : Prog σ β) (f : β → Prog σ γ) (g : γ → Prog σ δ) :
    p >>= f >>= g = p >>= fun b => f b >>= g := by
  induction p with
  | ret b => rfl
  | access u k ih => exact congrArg (access u) (funext ih)
  | lock k ih => exact congrArg lock ih
  | unlock k ih => exact congrArg unlock ih
  | callout k ih => exact congrArg callout ih
  | trap => rfl

end Prog

open Prog

variable {σ β γ : Type}

/-! ## One thread alone -/

/-- How a program run alone ends: with the mutex locked or not, in a state, with a result;
waiting for a locked mutex nobody will unlock; or dead. -/
inductive Outcome (σ β : Type) where
  | done (locked : Bool) (s : σ) (b : β)
  | stuck (s : σ)
  | trapped

/-- **The sequential meaning.** `locked` says whether the mutex is locked. -/
def exec : Prog σ β → Bool → σ → Outcome σ β
  | .ret b, l, s => .done l s b
  | .access u k, l, s => exec (k s) l (u s)
  | .lock k, l, s => if l then .stuck s else exec k true s
  | .unlock k, l, s => if l then exec k false s else .stuck s
  | .callout k, l, s => exec k l s
  | .trap, _, _ => .trapped

@[simp] theorem exec_ret (b : β) (l : Bool) (s : σ) : exec (ret b) l s = .done l s b := rfl

@[simp] theorem exec_access (u : σ → σ) (k : σ → Prog σ β) (l : Bool) (s : σ) :
    exec (access u k) l s = exec (k s) l (u s) := rfl

@[simp] theorem exec_lock (k : Prog σ β) (s : σ) : exec (lock k) false s = exec k true s := rfl

@[simp] theorem exec_lock_locked (k : Prog σ β) (s : σ) : exec (lock k) true s = .stuck s := rfl

@[simp] theorem exec_unlock (k : Prog σ β) (s : σ) : exec (unlock k) true s = exec k false s := rfl

@[simp] theorem exec_callout (k : Prog σ β) (l : Bool) (s : σ) :
    exec (callout k) l s = exec k l s := rfl

@[simp] theorem exec_trap (l : Bool) (s : σ) : exec (trap : Prog σ β) l s = .trapped := rfl

namespace Outcome

/-- Go on with `f` after an outcome. -/
def andThen : Outcome σ β → (Bool → σ → β → Outcome σ γ) → Outcome σ γ
  | done l s b, f => f l s b
  | stuck s, _ => .stuck s
  | trapped, _ => .trapped

/-- The result, if there is one. -/
def result : Outcome σ β → Option β
  | done _ _ b => some b
  | _ => none

@[simp] theorem done_result (l : Bool) (s : σ) (b : β) : (done l s b).result = some b := rfl

@[simp] theorem done_andThen (l : Bool) (s : σ) (b : β) (f : Bool → σ → β → Outcome σ γ) :
    (done l s b).andThen f = f l s b := rfl

end Outcome

/-- Sequencing programs sequences their runs. -/
theorem exec_bind (p : Prog σ β) (f : β → Prog σ γ) (l : Bool) (s : σ) :
    exec (p >>= f) l s = (exec p l s).andThen fun l s b => exec (f b) l s := by
  induction p generalizing l s with
  | ret b => rfl
  | access u k ih => exact ih s l (u s)
  | lock k ih =>
    cases l
    · exact ih true s
    · rfl
  | unlock k ih =>
    cases l
    · rfl
    · exact ih false s
  | callout k ih => exact ih l s
  | trap => rfl

theorem exec_bind_done {p : Prog σ β} {f : β → Prog σ γ} {l l' : Bool} {s s' : σ} {b : β}
    (h : exec p l s = .done l' s' b) : exec (p >>= f) l s = exec (f b) l' s' := by
  rw [exec_bind, h, Outcome.done_andThen]

/-! ## What every access does -/

/-- Every access relates the states around it by `R`, on every branch. -/
def Keeps (R : σ → σ → Prop) : Prog σ β → Prop
  | .ret _ => True
  | .access u k => ∀ s, R s (u s) ∧ Keeps R (k s)
  | .lock k => Keeps R k
  | .unlock k => Keeps R k
  | .callout k => Keeps R k
  | .trap => True

variable {R : σ → σ → Prop}

theorem Keeps.bind {p : Prog σ β} {f : β → Prog σ γ} (hp : Keeps R p) (hf : ∀ b, Keeps R (f b)) :
    Keeps R (p >>= f) := by
  induction p with
  | ret b => exact hf b
  | access u k ih => exact fun s => ⟨(hp s).1, ih s (hp s).2⟩
  | lock k ih => exact ih hp
  | unlock k ih => exact ih hp
  | callout k ih => exact ih hp
  | trap => trivial

theorem Keeps.mono {R' : σ → σ → Prop} (h : ∀ s s', R s s' → R' s s') {p : Prog σ β}
    (hp : Keeps R p) : Keeps R' p := by
  induction p with
  | ret b => trivial
  | access u k ih => exact fun s => ⟨h _ _ (hp s).1, ih s (hp s).2⟩
  | lock k ih => exact ih hp
  | unlock k ih => exact ih hp
  | callout k ih => exact ih hp
  | trap => trivial

/-- A run alone relates its ends by any preorder every access keeps. -/
theorem exec_keeps (hrefl : ∀ s, R s s) (htrans : ∀ a b c, R a b → R b c → R a c)
    {p : Prog σ β} (hp : Keeps R p) {l l' : Bool} {s s' : σ} {b : β}
    (h : exec p l s = .done l' s' b) : R s s' := by
  induction p generalizing l s with
  | ret c =>
    cases h
    exact hrefl _
  | access u k ih => exact htrans _ _ _ (hp s).1 (ih s (hp s).2 h)
  | lock k ih =>
    cases l
    · exact ih hp h
    · cases h
  | unlock k ih =>
    cases l
    · cases h
    · exact ih hp h
  | callout k ih => exact ih hp h
  | trap => cases h

/-! ## What every branch returns -/

/-- Every result is in `P`, whatever is read. -/
def Yields (P : β → Prop) : Prog σ β → Prop
  | .ret b => P b
  | .access _ k => ∀ s, Yields P (k s)
  | .lock k => Yields P k
  | .unlock k => Yields P k
  | .callout k => Yields P k
  | .trap => True

theorem yields_any (p : Prog σ β) : Yields (fun _ => True) p := by
  induction p with
  | ret b => trivial
  | access u k ih => exact ih
  | lock k ih => exact ih
  | unlock k ih => exact ih
  | callout k ih => exact ih
  | trap => trivial

theorem Yields.bind {P : β → Prop} {Q : γ → Prop} {p : Prog σ β} {f : β → Prog σ γ}
    (hp : Yields P p) (hf : ∀ b, P b → Yields Q (f b)) : Yields Q (p >>= f) := by
  induction p with
  | ret b => exact hf b hp
  | access u k ih => exact fun s => ih s (hp s)
  | lock k ih => exact ih hp
  | unlock k ih => exact ih hp
  | callout k ih => exact ih hp
  | trap => trivial

theorem Yields.mono {P Q : β → Prop} (h : ∀ b, P b → Q b) {p : Prog σ β} (hp : Yields P p) :
    Yields Q p := by
  induction p with
  | ret b => exact h b hp
  | access u k ih => exact fun s => ih s (hp s)
  | lock k ih => exact ih hp
  | unlock k ih => exact ih hp
  | callout k ih => exact ih hp
  | trap => trivial

/-- A run alone ends with such a result. -/
theorem exec_yields {P : β → Prop} {p : Prog σ β} (hp : Yields P p) {l l' : Bool} {s s' : σ}
    {b : β} (h : exec p l s = .done l' s' b) : P b := by
  induction p generalizing l s with
  | ret c =>
    cases h
    exact hp
  | access u k ih => exact ih s (hp s) h
  | lock k ih =>
    cases l
    · exact ih hp h
    · cases h
  | unlock k ih =>
    cases l
    · cases h
    · exact ih hp h
  | callout k ih => exact ih hp h
  | trap => cases h

/-! ## Programs without synchronisation -/

/-- Accesses related by `R`, and nothing else. -/
def Plain (R : σ → σ → Prop) : Prog σ β → Prop
  | .ret _ => True
  | .access u k => ∀ s, R s (u s) ∧ Plain R (k s)
  | .lock _ => False
  | .unlock _ => False
  | .callout _ => False
  | .trap => True

theorem Plain.bind {p : Prog σ β} {f : β → Prog σ γ} (hp : Plain R p) (hf : ∀ b, Plain R (f b)) :
    Plain R (p >>= f) := by
  induction p with
  | ret b => exact hf b
  | access u k ih => exact fun s => ⟨(hp s).1, ih s (hp s).2⟩
  | lock k ih => exact hp
  | unlock k ih => exact hp
  | callout k ih => exact hp
  | trap => trivial

theorem Plain.keeps {p : Prog σ β} (hp : Plain R p) : Keeps R p := by
  induction p with
  | ret b => trivial
  | access u k ih => exact fun s => ⟨(hp s).1, ih s (hp s).2⟩
  | lock k ih => exact hp.elim
  | unlock k ih => exact hp.elim
  | callout k ih => exact hp.elim
  | trap => trivial

theorem Plain.mono {R' : σ → σ → Prop} (h : ∀ s s', R s s' → R' s s') {p : Prog σ β}
    (hp : Plain R p) : Plain R' p := by
  induction p with
  | ret b => trivial
  | access u k ih => exact fun s => ⟨h _ _ (hp s).1, ih s (hp s).2⟩
  | lock k ih => exact hp
  | unlock k ih => exact hp
  | callout k ih => exact hp
  | trap => trivial

theorem plain_rd (hR : ∀ s, R s s) (f : σ → β) : Plain R (rd f) := fun s => ⟨hR s, trivial⟩

theorem plain_wr {u : σ → σ} (hu : ∀ s, R s (u s)) : Plain R (wr u) := fun s => ⟨hu s, trivial⟩

end Conc
