import Line6.Lib.Pool

/-!
# Announcing the changes of a value

`Silent R x`: every access of `x` is within `R`, and `x` never calls out. `Announces watch inv x o`:
`x` changes the watched value only while nothing is owed, calls out exactly while something is
(`o`), and ends owing nothing; `inv` is what it may rely on and keeps.

A `Tally` counts the changes of the watched value and the callouts of a run. If one thread
announces and the others are silent, the tally is right in every state (`Announced.step`): the
callouts are the changes but for the one that is owed, and the announcer owes it only within a
call.
-/

namespace Conc

open Prog

variable {σ β γ : Type}

/-! ## Programs that never call out -/

/-- Accesses related by `R`, and no callout. -/
def Silent (R : σ → σ → Prop) : Prog σ β → Prop
  | .ret _ => True
  | .access u k => ∀ s, R s (u s) ∧ Silent R (k s)
  | .lock k => Silent R k
  | .unlock k => Silent R k
  | .callout _ => False
  | .trap => True

variable {R : σ → σ → Prop}

theorem Silent.bind {p : Prog σ β} {f : β → Prog σ γ} (hp : Silent R p)
    (hf : ∀ b, Silent R (f b)) : Silent R (p >>= f) := by
  induction p with
  | ret b => exact hf b
  | access u k ih => exact fun s => ⟨(hp s).1, ih s (hp s).2⟩
  | lock k ih => exact ih hp
  | unlock k ih => exact ih hp
  | callout k ih => exact hp.elim
  | trap => trivial

theorem Silent.mono {R' : σ → σ → Prop} (h : ∀ s s', R s s' → R' s s') {p : Prog σ β}
    (hp : Silent R p) : Silent R' p := by
  induction p with
  | ret b => trivial
  | access u k ih => exact fun s => ⟨h _ _ (hp s).1, ih s (hp s).2⟩
  | lock k ih => exact ih hp
  | unlock k ih => exact ih hp
  | callout k ih => exact hp
  | trap => trivial

theorem Plain.silent {p : Prog σ β} (hp : Plain R p) : Silent R p := by
  induction p with
  | ret b => trivial
  | access u k ih => exact fun s => ⟨(hp s).1, ih s (hp s).2⟩
  | lock k ih => exact hp.elim
  | unlock k ih => exact hp.elim
  | callout k ih => exact hp
  | trap => trivial

theorem Silent.keeps {p : Prog σ β} (hp : Silent R p) : Keeps R p := by
  induction p with
  | ret b => trivial
  | access u k ih => exact fun s => ⟨(hp s).1, ih s (hp s).2⟩
  | lock k ih => exact ih hp
  | unlock k ih => exact ih hp
  | callout k ih => exact hp.elim
  | trap => trivial

section Simp

variable {b : β} {u : σ → σ} {k : σ → Prog σ β} {p q : Prog σ β} {c : Prop} [Decidable c]

@[simp] theorem silent_ret : Silent R (ret b : Prog σ β) := trivial

@[simp] theorem silent_trap : Silent R (trap : Prog σ β) := trivial

@[simp] theorem silent_access : Silent R (access u k) ↔ ∀ s, R s (u s) ∧ Silent R (k s) := Iff.rfl

@[simp] theorem silent_lock : Silent R (lock p) ↔ Silent R p := Iff.rfl

@[simp] theorem silent_unlock : Silent R (unlock p) ↔ Silent R p := Iff.rfl

@[simp] theorem silent_rd {f : σ → β} : Silent R (rd f) ↔ ∀ s, R s s := by
  simp [rd]

@[simp] theorem silent_wr : Silent R (wr u) ↔ ∀ s, R s (u s) := by
  simp [wr]

@[simp] theorem silent_acquire : Silent R acquire := trivial

@[simp] theorem silent_release : Silent R release := trivial

@[simp] theorem silent_ite :
    Silent R (if c then p else q) ↔ (c → Silent R p) ∧ (¬ c → Silent R q) := by
  by_cases hc : c
  · simp [hc]
  · simp [hc]

end Simp

/-- The program is at a callout. -/
def Prog.isCallout : Prog σ β → Bool
  | .callout _ => true
  | _ => false

/-! ## Programs that announce -/

section

variable {ω : Type} (watch : σ → ω) (inv : σ → Prop)

/-- Calls out once for each change of the watched value, after it; `true`: a callout is owed. -/
def Announces : Prog σ β → Bool → Prop
  | .ret _, o => o = false
  | .access u k, o => ∀ s, inv s → inv (u s) ∧
      (watch (u s) = watch s → Announces (k s) o) ∧
      (watch (u s) ≠ watch s → o = false ∧ Announces (k s) true)
  | .lock k, o => Announces k o
  | .unlock k, o => Announces k o
  | .callout k, o => o = true ∧ Announces k false
  | .trap, _ => True

/-- The invariant is kept, and the watched value. -/
def Kept (s s' : σ) : Prop := inv s → inv s' ∧ watch s' = watch s

variable {watch inv}

theorem Announces.bind {p : Prog σ β} {f : β → Prog σ γ} {o : Bool}
    (hp : Announces watch inv p o) (hf : ∀ b, Announces watch inv (f b) false) :
    Announces watch inv (p >>= f) o := by
  induction p generalizing o with
  | ret b =>
    obtain rfl : o = false := hp
    exact hf b
  | access u k ih =>
    intro s hs
    obtain ⟨hinv, hsame, hchanged⟩ := hp s hs
    exact ⟨hinv, fun h => ih s (hsame h), fun h => ⟨(hchanged h).1, ih s (hchanged h).2⟩⟩
  | lock k ih => exact ih hp
  | unlock k ih => exact ih hp
  | callout k ih => exact ⟨hp.1, ih hp.2⟩
  | trap => trivial

/-- A silent program changes nothing that is owed. -/
theorem Silent.announces_bind {p : Prog σ β} {f : β → Prog σ γ} {o : Bool}
    (hp : Silent (Kept watch inv) p) (hf : ∀ b, Announces watch inv (f b) o) :
    Announces watch inv (p >>= f) o := by
  induction p with
  | ret b => exact hf b
  | access u k ih =>
    intro s hs
    obtain ⟨hinv, hsame⟩ := (hp s).1 hs
    exact ⟨hinv, fun _ => ih s (hp s).2, fun h => absurd hsame h⟩
  | lock k ih => exact ih hp
  | unlock k ih => exact ih hp
  | callout k ih => exact hp.elim
  | trap => trivial

end

/-! ## The tally of a run -/

/-- How often the watched value changed, how often a thread called out, and whether the last change
has not been followed by a callout. -/
structure Tally where
  changes : Nat := 0
  sent : Nat := 0
  owed : Bool := false
  deriving Repr, DecidableEq

namespace Pool

variable {ι ε ω : Type}

/-- The step is a callout. -/
def callsOut (p : Pool ι σ ε β) : Act ι ε → Bool
  | .call _ _ => false
  | .tick t => (p.thread t).isCallout

/-- The tally after a step. -/
def count [DecidableEq ω] (watch : σ → ω) (g : Tally) (p : Pool ι σ ε β) (a : Act ι ε)
    (q : Pool ι σ ε β) :
    Tally :=
  if watch q.shared ≠ watch p.shared then { g with changes := g.changes + 1, owed := true }
  else if p.callsOut a then { g with sent := g.sent + 1, owed := false }
  else g

variable (watch : σ → ω) (inv : σ → Prop)

/-- Thread `t₀` announces, the others are silent, and the tally is right. -/
structure Announced (t₀ : ι) (g : Tally) (p : Pool ι σ ε β) : Prop where
  holds : inv p.shared
  announcer : Announces watch inv (p.thread t₀) g.owed
  others : ∀ t ≠ t₀, Silent (Kept watch inv) (p.thread t)
  balance : g.changes = g.sent + if g.owed then 1 else 0

variable {watch inv} {start : ι → ε → β → Option (Prog σ β)} {t₀ : ι} {g : Tally}
  {p q : Pool ι σ ε β} {a : Act ι ε}

/-- The announcer owes nothing between its calls. -/
theorem Announced.idle (h : Announced watch inv t₀ g p) {b : β} (hret : p.thread t₀ = .ret b) :
    g.owed = false := by
  have hannouncer := h.announcer
  rw [hret] at hannouncer
  exact hannouncer

theorem callsOut_tick {t : ι} {x : Prog σ β} (hx : p.thread t = x) :
    p.callsOut (.tick t : Act ι ε) = x.isCallout := congrArg Prog.isCallout hx

variable [DecidableEq ω]

theorem count_silent (hsame : watch q.shared = watch p.shared) (hout : p.callsOut a = false) :
    count watch g p a q = g := by
  unfold count
  rw [if_neg (not_not_intro hsame), hout]
  rfl

theorem count_changed (hchanged : watch q.shared ≠ watch p.shared) :
    count watch g p a q = { g with changes := g.changes + 1, owed := true } := if_pos hchanged

theorem count_callout (hsame : watch q.shared = watch p.shared) (hout : p.callsOut a = true) :
    count watch g p a q = { g with sent := g.sent + 1, owed := false } := by
  unfold count
  rw [if_neg (not_not_intro hsame), if_pos hout]

variable [DecidableEq ι]

/-- An action of a program within `R`. -/
theorem keeps_tick {R : σ → σ → Prop} (hrefl : ∀ s, R s s) {t : ι}
    (hstep : Step start p (.tick t) q) (hk : Keeps R (p.thread t)) :
    R p.shared q.shared ∧ Keeps R (q.thread t) := by
  cases hstep with
  | access hp =>
    rw [hp] at hk
    rw [advance_thread]
    exact hk p.shared
  | lock hp ho =>
    rw [hp] at hk
    rw [advance_thread]
    exact ⟨hrefl _, hk⟩
  | unlock hp ho =>
    rw [hp] at hk
    rw [advance_thread]
    exact ⟨hrefl _, hk⟩
  | callout hp =>
    rw [hp] at hk
    rw [advance_thread]
    exact ⟨hrefl _, hk⟩

theorem count_advance {t : ι} {k : Prog σ β} {o : Option ι} {x : Prog σ β}
    (hx : p.thread t = x) (hout : x.isCallout = false) :
    count watch g p (.tick t) (p.advance t k o p.shared) = g :=
  count_silent rfl ((callsOut_tick hx).trans hout)

/-- A step of another thread than the announcer. -/
theorem Announced.other (h : Announced watch inv t₀ g p) {t : ι} (ht : t ≠ t₀)
    (hstep : Step start p (.tick t) q) : Announced watch inv t₀ (count watch g p (.tick t) q) q := by
  have hsilent := h.others t ht
  have hframe {k : Prog σ β} {o : Option ι} {s : σ} (hk : Silent (Kept watch inv) k)
      (hs : inv s) : Announced watch inv t₀ g (p.advance t k o s) := by
    refine ⟨hs, ?_, fun v hv => ?_, h.balance⟩
    · rw [p.advance_thread_ne _ _ _ ht.symm]
      exact h.announcer
    · by_cases hvt : v = t
      · rw [hvt, advance_thread]
        exact hk
      · rw [p.advance_thread_ne _ _ _ hvt]
        exact h.others v hv
  cases hstep with
  | access hp =>
    rw [hp] at hsilent
    obtain ⟨hkeeps, hk⟩ := hsilent p.shared
    obtain ⟨hs, hsame⟩ := hkeeps h.holds
    rw [count_silent hsame (callsOut_tick hp)]
    exact hframe hk hs
  | lock hp ho =>
    rw [hp] at hsilent
    rw [count_advance hp rfl]
    exact hframe hsilent h.holds
  | unlock hp ho =>
    rw [hp] at hsilent
    rw [count_advance hp rfl]
    exact hframe hsilent h.holds
  | callout hp =>
    rw [hp] at hsilent
    exact hsilent.elim

/-- A step of the announcer. -/
theorem Announced.own (h : Announced watch inv t₀ g p) (hstep : Step start p (.tick t₀) q) :
    Announced watch inv t₀ (count watch g p (.tick t₀) q) q := by
  have hannounces := h.announcer
  have hframe {k : Prog σ β} {o : Option ι} {s : σ} {g' : Tally}
      (hk : Announces watch inv k g'.owed) (hs : inv s)
      (hbalance : g'.changes = g'.sent + if g'.owed then 1 else 0) :
      Announced watch inv t₀ g' (p.advance t₀ k o s) := by
    refine ⟨hs, ?_, fun v hv => ?_, hbalance⟩
    · rwa [advance_thread]
    · rw [p.advance_thread_ne _ _ _ hv]
      exact h.others v hv
  cases hstep with
  | @access _ u k hp =>
    rw [hp] at hannounces
    obtain ⟨hs, hsame, hchanged⟩ := hannounces p.shared h.holds
    by_cases hw : watch (u p.shared) = watch p.shared
    · rw [count_silent hw (callsOut_tick hp)]
      exact hframe (hsame hw) hs h.balance
    · obtain ⟨howed, hk⟩ := hchanged hw
      have hbalance := h.balance
      rw [howed] at hbalance
      rw [count_changed hw]
      exact hframe hk hs (congrArg (· + 1) hbalance)
  | lock hp ho =>
    rw [hp] at hannounces
    rw [count_advance hp rfl]
    exact hframe hannounces h.holds h.balance
  | unlock hp ho =>
    rw [hp] at hannounces
    rw [count_advance hp rfl]
    exact hframe hannounces h.holds h.balance
  | callout hp =>
    rw [hp] at hannounces
    obtain ⟨howed, hk⟩ := hannounces
    have hbalance := h.balance
    rw [howed] at hbalance
    have hcount {k : Prog σ β} : count watch g p (.tick t₀) (p.advance t₀ k p.owner p.shared) =
        { g with sent := g.sent + 1, owed := false } :=
      count_callout rfl (callsOut_tick hp)
    rw [hcount]
    exact hframe hk h.holds hbalance

/-- **Every step keeps the tally right**, if what it calls announces or is silent. -/
theorem Announced.step (h : Announced watch inv t₀ g p)
    (hannouncer : ∀ e b k, a = .call t₀ e → start t₀ e b = some k → Announces watch inv k false)
    (hothers : ∀ t e b k, t ≠ t₀ → a = .call t e → start t e b = some k →
      Silent (Kept watch inv) k)
    (hnext : p.next start a = some q) : Announced watch inv t₀ (count watch g p a q) q := by
  have hstep := step_of_next hnext
  cases a with
  | tick t =>
    by_cases ht : t = t₀
    · subst ht
      exact h.own hstep
    · exact h.other ht hstep
  | call t e =>
    cases hstep with
    | @call _ _ b k hret hk =>
      have hcount : count watch g p (.call t e) (p.begin t e k) = g := count_silent rfl rfl
      rw [hcount]
      refine ⟨h.holds, ?_, fun v hv => ?_, h.balance⟩
      · by_cases ht : t = t₀
        · subst ht
          rw [begin_thread, h.idle hret]
          exact hannouncer e b k rfl hk
        · rw [p.begin_thread_ne _ _ (Ne.symm ht)]
          exact h.announcer
      · by_cases hvt : v = t
        · subst hvt
          rw [begin_thread]
          exact hothers v e b k hv rfl hk
        · rw [p.begin_thread_ne _ _ hvt]
          exact h.others v hv

end Pool

end Conc
