import Line6.Lib.Pool

/-!
# What threads uphold together

`Upholds R P x s`: from `s` on, every access of `x` is within `R`, whatever the others do within `R`
in between, and `x` returns what is in `P`. In contrast to `Keeps`, an access may build on what the
program has read before: `R` is what is known of the state since.

The mutex plays no part. If every call upholds `R`, every run stays within it, and the calls
return what they should (`upheld_run`).
-/

namespace Conc

open Prog

variable {σ β γ : Type}

/-- Accesses within `R`, and results in `P`, as long as the others stay within `R`. -/
def Upholds (R : σ → σ → Prop) (P : β → σ → Prop) : Prog σ β → σ → Prop
  | .ret b, s => ∀ s', R s s' → P b s'
  | .access u k, s => ∀ s', R s s' → R s' (u s') ∧ Upholds R P (k s') (u s')
  | .lock k, s => Upholds R P k s
  | .unlock k, s => Upholds R P k s
  | .callout k, s => Upholds R P k s
  | .trap, _ => True

section

variable {R : σ → σ → Prop} {P : β → σ → Prop} {s s' : σ}

theorem Upholds.mono {P' : β → σ → Prop} {x : Prog σ β} (hP : ∀ b s, P b s → P' b s)
    (hx : Upholds R P x s) : Upholds R P' x s := by
  induction x generalizing s with
  | ret b => exact fun s' hr => hP b s' (hx s' hr)
  | access u k ih => exact fun s' hr => ⟨(hx s' hr).1, ih s' (hx s' hr).2⟩
  | lock k ih => exact ih hx
  | unlock k ih => exact ih hx
  | callout k ih => exact ih hx
  | trap => trivial

/-- What every access does anyway, and every branch returns. -/
theorem Keeps.upholds {Q : β → Prop} {x : Prog σ β} (hx : Keeps R x) (hQ : Yields Q x) (s : σ) :
    Upholds R (fun b _ => Q b) x s := by
  induction x generalizing s with
  | ret b => exact fun _ _ => hQ
  | access u k ih => exact fun s' _ => ⟨(hx s').1, ih s' (hx s').2 (hQ s') _⟩
  | lock k ih => exact ih hx hQ s
  | unlock k ih => exact ih hx hQ s
  | callout k ih => exact ih hx hQ s
  | trap => trivial

/-- **Sequencing**: the second program upholds it from wherever the first one ends. -/
theorem Upholds.bind (hrefl : ∀ s, R s s) {x : Prog σ γ} {f : γ → Prog σ β}
    (hx : Upholds R (fun c s => Upholds R P (f c) s) x s) : Upholds R P (x >>= f) s := by
  induction x generalizing s with
  | ret c => exact hx s (hrefl s)
  | access u k ih => exact fun s' hr => ⟨(hx s' hr).1, ih s' (hx s' hr).2⟩
  | lock k ih => exact ih hx
  | unlock k ih => exact ih hx
  | callout k ih => exact ih hx
  | trap => trivial

/-- What the others do within `R` does not matter. -/
theorem Upholds.rely (htrans : ∀ a b c, R a b → R b c → R a c) {x : Prog σ β}
    (hx : Upholds R P x s) (hr : R s s') : Upholds R P x s' := by
  induction x with
  | ret b => exact fun s'' hr' => hx s'' (htrans _ _ _ hr hr')
  | access u k => exact fun s'' hr' => hx s'' (htrans _ _ _ hr hr')
  | lock k ih => exact ih hx
  | unlock k ih => exact ih hx
  | callout k ih => exact ih hx
  | trap => trivial

/-- What `R` keeps holds at the end, too. -/
theorem Upholds.keep {I : σ → Prop} (hI : ∀ s s', R s s' → I s → I s') {x : Prog σ β}
    (hx : Upholds R P x s) (hs : I s) : Upholds R (fun b s' => P b s' ∧ I s') x s := by
  induction x generalizing s with
  | ret b => exact fun s' hr => ⟨hx s' hr, hI _ _ hr hs⟩
  | access u k ih =>
    exact fun s' hr => ⟨(hx s' hr).1, ih s' (hx s' hr).2 (hI _ _ (hx s' hr).1 (hI _ _ hr hs))⟩
  | lock k ih => exact ih hx hs
  | unlock k ih => exact ih hx hs
  | callout k ih => exact ih hx hs
  | trap => trivial

theorem upholds_rd (hrefl : ∀ s, R s s) {f : σ → γ} {k : γ → Prog σ β}
    (hk : ∀ s', R s s' → Upholds R P (k (f s')) s') : Upholds R P (rd f >>= k) s :=
  fun s' hr => ⟨hrefl s', hk s' hr⟩

theorem upholds_acquire {k : Unit → Prog σ β} (hk : Upholds R P (k ()) s) :
    Upholds R P (acquire >>= k) s := hk

theorem upholds_ite {c : Prop} [Decidable c] {x y : Prog σ β} (hx : c → Upholds R P x s)
    (hy : ¬ c → Upholds R P y s) : Upholds R P (if c then x else y) s := by
  by_cases hc : c
  · rw [if_pos hc]
    exact hx hc
  · rw [if_neg hc]
    exact hy hc

end

/-! ## In the pool -/

namespace Pool

variable {ι ε : Type} {p q : Pool ι σ ε β} {a : Act ι ε} {t : ι} {R : σ → σ → Prop}
  {P : ε → β → σ → Prop}

/-- Every thread is idle, or upholds `R` in its call, to return what its call should. -/
def Upheld (R : σ → σ → Prop) (P : ε → β → σ → Prop) (p : Pool ι σ ε β) : Prop :=
  ∀ t, (p.entry t = none ∧ ∃ b, p.thread t = .ret b) ∨
    ∃ e, p.entry t = some e ∧ Upholds R (P e) (p.thread t) p.shared

theorem upheld_init (s₀ : σ) (b₀ : ι → β) : Upheld R P (init s₀ b₀ : Pool ι σ ε β) :=
  fun _ => .inl ⟨rfl, _, rfl⟩

/-- A call that has come back. -/
theorem Upheld.returned (hrefl : ∀ s, R s s) (h : p.Upheld R P) {e : ε} (he : p.entry t = some e)
    {b : β} (hb : p.thread t = .ret b) : P e b p.shared := by
  rcases h t with ⟨hnone, -⟩ | ⟨e', he', hx⟩
  · rw [hnone] at he
    cases he
  · obtain rfl := Option.some.inj (he'.symm.trans he)
    rw [hb] at hx
    exact hx _ (hrefl _)

section

variable [DecidableEq ι] {start : ι → ε → β → Option (Prog σ β)}
  {ok : Pool ι σ ε β → Act ι ε → Prop} (hrefl : ∀ s, R s s)
  (htrans : ∀ a b c, R a b → R b c → R a c)
include hrefl

/-- A thread's own action is within `R`, and upholds it further. -/
theorem upholds_tick {P : β → σ → Prop} (hstep : Step start p (.tick t) q)
    (hx : Upholds R P (p.thread t) p.shared) :
    R p.shared q.shared ∧ Upholds R P (q.thread t) q.shared := by
  cases hstep with
  | access hp =>
    rw [hp] at hx
    rw [advance_thread]
    exact hx _ (hrefl _)
  | lock hp ho =>
    rw [hp] at hx
    rw [advance_thread]
    exact ⟨hrefl _, hx⟩
  | unlock hp ho =>
    rw [hp] at hx
    rw [advance_thread]
    exact ⟨hrefl _, hx⟩
  | callout hp =>
    rw [hp] at hx
    rw [advance_thread]
    exact ⟨hrefl _, hx⟩

/-- Every step is within `R`. -/
theorem Upheld.within (h : p.Upheld R P) (hnext : p.next start a = some q) :
    R p.shared q.shared := by
  have hstep := step_of_next hnext
  cases a with
  | call t e =>
    cases hstep
    exact hrefl _
  | tick t =>
    rcases h t with ⟨-, b, hb⟩ | ⟨e, -, hx⟩
    · exact absurd hb hstep.not_tick
    · exact (upholds_tick hrefl hstep hx).1

include htrans

/-- A step leaves all threads upholding it. -/
theorem Upheld.step (h : p.Upheld R P)
    (hstart : ∀ t e b x, start t e b = some x → Upholds R (P e) x p.shared)
    (hnext : p.next start a = some q) : q.Upheld R P := by
  have hstep := step_of_next hnext
  have hwithin := h.within hrefl hnext
  intro t
  by_cases ht : a.by = t
  · subst ht
    cases a with
    | call t e =>
      cases hstep with
      | @call _ _ b x hret hx =>
        refine .inr ⟨e, begin_entry .., ?_⟩
        rw [Act.by_call, begin_thread]
        exact hstart t e b x hx
    | tick t =>
      rcases h t with ⟨-, b, hb⟩ | ⟨e, he, hx⟩
      · exact absurd hb hstep.not_tick
      · have hentry : q.entry t = p.entry t := by cases hstep <;> rfl
        exact .inr ⟨e, hentry.trans he, (upholds_tick hrefl hstep hx).2⟩
  · obtain ⟨hthread, hentry, -, -⟩ := hstep.other ht
    rw [hthread, hentry]
    exact (h t).imp id fun ⟨e, he, hx⟩ => ⟨e, he, hx.rely htrans hwithin⟩

/-- **What every call upholds, every run does.** The calls may build on what holds of the state
they find, if `R` keeps that. -/
theorem upheld_run {I : σ → Prop} (hI : ∀ s s', R s s' → I s → I s')
    (hstart : ∀ t e b x s, I s → start t e b = some x → Upholds R (P e) x s) (h : p.Upheld R P)
    (hp : I p.shared) {as : List (Act ι ε)} (hrun : Run start ok p as q) :
    R p.shared q.shared ∧ q.Upheld R P := by
  induction hrun with
  | refl => exact ⟨hrefl _, h⟩
  | tail _ _ hnext ih =>
    obtain ⟨hbefore, hall⟩ := ih
    exact ⟨htrans _ _ _ hbefore (hall.within hrefl hnext),
      hall.step hrefl htrans (fun t e b x => hstart t e b x _ (hI _ _ hbefore hp)) hnext⟩

end

end Pool

end Conc
