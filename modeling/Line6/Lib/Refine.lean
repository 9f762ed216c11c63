import Mathlib.Data.Option.Basic
import Mathlib.Tactic.SplitIfs
import Line6.Lib.Announce

/-!
# Two levels of shared state

A concrete state of type `τ` is seen as an abstract state of type `σ` through `view`. `Matches`
relates a program over `τ` to one over `σ` that takes the same actions, each with the same effect
as seen through `view`. `pull` makes the concrete program of an abstract one that changes the
abstract state only in ways the concrete state can follow.

* `Matches.bind`, `matches_pull`: how matching programs are built.
* `Matches.exec`: matching programs end alike, run alone.
* `Mirrors.next`: pools of matching programs have the same steps. `Mirrors.run`,
  `Mirrors.run_back`: they have the same runs.
-/

namespace Conc

open Prog

variable {σ τ β γ : Type}

/-- The programs take the same actions, seen through `view`. -/
inductive Matches (view : τ → σ) : Prog τ β → Prog σ β → Prop
  | ret (b : β) : Matches view (.ret b) (.ret b)
  | access {u : τ → τ} {u' : σ → σ} {k : τ → Prog τ β} {k' : σ → Prog σ β}
      (hupd : ∀ t, view (u t) = u' (view t)) (hk : ∀ t, Matches view (k t) (k' (view t))) :
      Matches view (.access u k) (.access u' k')
  | lock {k : Prog τ β} {k' : Prog σ β} (hk : Matches view k k') :
      Matches view (.lock k) (.lock k')
  | unlock {k : Prog τ β} {k' : Prog σ β} (hk : Matches view k k') :
      Matches view (.unlock k) (.unlock k')
  | callout {k : Prog τ β} {k' : Prog σ β} (hk : Matches view k k') :
      Matches view (.callout k) (.callout k')
  | trap : Matches view .trap .trap

variable {view : τ → σ}

theorem Matches.bind {p : Prog τ β} {p' : Prog σ β} {f : β → Prog τ γ} {f' : β → Prog σ γ}
    (hp : Matches view p p') (hf : ∀ b, Matches view (f b) (f' b)) :
    Matches view (p >>= f) (p' >>= f') := by
  induction hp with
  | ret b => exact hf b
  | access hupd _ ih => exact .access hupd ih
  | lock _ ih => exact .lock ih
  | unlock _ ih => exact .unlock ih
  | callout _ ih => exact .callout ih
  | trap => exact .trap

/-- Reading something that is there at both levels. -/
theorem matches_rd {f : τ → β} {f' : σ → β} (hf : ∀ t, f t = f' (view t)) :
    Matches view (rd f) (rd f') := by
  refine .access (fun _ => rfl) fun t => ?_
  rw [hf]
  exact .ret _

/-- Writing to both levels. -/
theorem matches_wr {u : τ → τ} {u' : σ → σ} (hu : ∀ t, view (u t) = u' (view t)) :
    Matches view (wr u) (wr u') := .access hu fun _ => .ret _

/-- The concrete program of an abstract one: `put t s` is `t` changed to look like `s`. -/
def pull (view : τ → σ) (put : τ → σ → τ) : Prog σ β → Prog τ β
  | .ret b => .ret b
  | .access u k => .access (fun t => put t (u (view t))) fun t => pull view put (k (view t))
  | .lock k => .lock (pull view put k)
  | .unlock k => .unlock (pull view put k)
  | .callout k => .callout (pull view put k)
  | .trap => .trap

/-- **A pulled program matches**, if its accesses stay within what `put` can follow. -/
theorem matches_pull {R : σ → σ → Prop} {put : τ → σ → τ}
    (hput : ∀ t s, R (view t) s → view (put t s) = s) {p : Prog σ β} (hp : Keeps R p) :
    Matches view (pull view put p) p := by
  induction p with
  | ret b => exact .ret b
  | access u k ih => exact .access (fun t => hput t _ (hp _).1) fun t => ih _ (hp _).2
  | lock k ih => exact .lock (ih hp)
  | unlock k ih => exact .unlock (ih hp)
  | callout k ih => exact .callout (ih hp)
  | trap => exact .trap

/-- What pulled programs keep. -/
theorem keeps_pull {Q : τ → τ → Prop} {put : τ → σ → τ} (hput : ∀ t s, Q t (put t s))
    (p : Prog σ β) : Keeps Q (pull view put p) := by
  induction p with
  | ret b => trivial
  | access u k ih => exact fun t => ⟨hput t _, ih _⟩
  | lock k ih => exact ih
  | unlock k ih => exact ih
  | callout k ih => exact ih
  | trap => trivial

/-- An outcome, seen through `view`. -/
def Outcome.map (view : τ → σ) : Outcome τ β → Outcome σ β
  | .done l t b => .done l (view t) b
  | .stuck t => .stuck (view t)
  | .trapped => .trapped

/-- **Matching programs end alike.** -/
theorem Matches.exec {p : Prog τ β} {p' : Prog σ β} (h : Matches view p p') (l : Bool) (t : τ) :
    exec p' l (view t) = (exec p l t).map view := by
  induction h generalizing l t with
  | ret b => rfl
  | @access u u' k k' hupd _ ih =>
    rw [exec_access, exec_access, ← hupd]
    exact ih t l (u t)
  | lock _ ih =>
    cases l
    · exact ih true t
    · rfl
  | unlock _ ih =>
    cases l
    · rfl
    · exact ih false t
  | callout _ ih => exact ih l t
  | trap => rfl

namespace Pool

variable {ι ε : Type} [DecidableEq ι]

/-- The pool `q` is the pool `p`, seen through `view`. -/
structure Mirrors (view : τ → σ) (q : Pool ι τ ε β) (p : Pool ι σ ε β) : Prop where
  shared : p.shared = view q.shared
  owner : p.owner = q.owner
  entry : p.entry = q.entry
  age : p.age = q.age
  thread : ∀ t, Matches view (q.thread t) (p.thread t)

variable {q q' : Pool ι τ ε β} {p p' : Pool ι σ ε β}
  {starts : ι → ε → β → Option (Prog τ β)} {start : ι → ε → β → Option (Prog σ β)}

omit [DecidableEq ι] in
theorem mirrors_init (t : τ) (b : ι → β) :
    Mirrors view (init t b : Pool ι τ ε β) (init (view t) b) := ⟨rfl, rfl, rfl, rfl, fun _ => .ret _⟩

omit [DecidableEq ι] in
/-- Idle threads are idle with the same result. -/
theorem Mirrors.ret_iff (h : Mirrors view q p) (t : ι) (b : β) :
    q.thread t = .ret b ↔ p.thread t = .ret b := by
  have hmatch := h.thread t
  generalize q.thread t = x, p.thread t = y at hmatch
  constructor
  · rintro rfl
    cases hmatch
    rfl
  · rintro rfl
    cases hmatch
    rfl

theorem Mirrors.advance (h : Mirrors view q p) (t : ι) {k : Prog τ β} {k' : Prog σ β}
    (hk : Matches view k k') (o : Option ι) {s : τ} {s' : σ} (hs : s' = view s) :
    Mirrors view (q.advance t k o s) (p.advance t k' o s') := by
  refine ⟨hs, rfl, h.entry, ?_, fun u => ?_⟩
  · show Function.update _ _ _ = Function.update _ _ _
    rw [h.age]
  · by_cases hu : u = t
    · rw [hu, advance_thread, advance_thread]
      exact hk
    · rw [advance_thread_ne _ _ _ _ hu, advance_thread_ne _ _ _ _ hu]
      exact h.thread u

theorem Mirrors.begin (h : Mirrors view q p) (t : ι) (e : ε) {k : Prog τ β} {k' : Prog σ β}
    (hk : Matches view k k') : Mirrors view (q.begin t e k) (p.begin t e k') := by
  refine ⟨h.shared, h.owner, ?_, ?_, fun u => ?_⟩
  · show Function.update _ _ _ = Function.update _ _ _
    rw [h.entry]
  · show Function.update _ _ _ = Function.update _ _ _
    rw [h.age]
  · by_cases hu : u = t
    · rw [hu, begin_thread, begin_thread]
      exact hk
    · rw [begin_thread_ne _ _ _ hu, begin_thread_ne _ _ _ hu]
      exact h.thread u

/-- **The pools have the same steps.** -/
theorem Mirrors.next (h : Mirrors view q p)
    (hstart : ∀ t e b, Option.Rel (Matches view) (starts t e b) (start t e b)) (a : Act ι ε) :
    Option.Rel (Mirrors view) (q.next starts a) (p.next start a) := by
  cases a with
  | call t e =>
    have hmatch := h.thread t
    simp only [Pool.next]
    generalize q.thread t = x, p.thread t = y at hmatch
    cases hmatch with
    | ret b =>
      have hprog := hstart t e b
      dsimp only
      generalize starts t e b = k, start t e b = k' at hprog
      cases hprog with
      | some hk => exact .some (h.begin t e hk)
      | none => exact .none
    | _ => exact .none
  | tick t =>
    have hmatch := h.thread t
    simp only [Pool.next]
    generalize q.thread t = x, p.thread t = y at hmatch
    cases hmatch with
    | ret b => exact .none
    | access hupd hk =>
      dsimp only
      rw [h.shared, h.owner]
      exact .some (h.advance t (hk _) _ (hupd _).symm)
    | lock hk =>
      dsimp only
      rw [h.owner]
      split_ifs
      · exact .some (h.advance t hk _ h.shared)
      · exact .none
    | unlock hk =>
      dsimp only
      rw [h.owner]
      split_ifs
      · exact .some (h.advance t hk _ h.shared)
      · exact .none
    | callout hk =>
      dsimp only
      rw [h.owner]
      exact .some (h.advance t hk _ h.shared)
    | trap => exact .none

/-- **Every run of the concrete pool is one of the abstract pool.** -/
theorem Mirrors.run (h : Mirrors view q p)
    (hstart : ∀ t e b, Option.Rel (Matches view) (starts t e b) (start t e b))
    {as : List (Act ι ε)} (hrun : Run starts Free q as q') :
    ∃ p', Run start Free p as p' ∧ Mirrors view q' p' := by
  induction hrun with
  | refl => exact ⟨p, .refl, h⟩
  | @tail as a q₁ q₂ _ _ hstep ih =>
    obtain ⟨p₁, hrun₁, h₁⟩ := ih
    have hnext := h₁.next hstart a
    rw [hstep] at hnext
    generalize hp : p₁.next start a = r at hnext
    cases hnext with
    | some h₂ => exact ⟨_, hrun₁.tail trivial hp, h₂⟩

/-- **And every run of the abstract pool is one of the concrete pool.** -/
theorem Mirrors.run_back (h : Mirrors view q p)
    (hstart : ∀ t e b, Option.Rel (Matches view) (starts t e b) (start t e b))
    {as : List (Act ι ε)} (hrun : Run start Free p as p') :
    ∃ q', Run starts Free q as q' ∧ Mirrors view q' p' := by
  induction hrun with
  | refl => exact ⟨q, .refl, h⟩
  | @tail as a p₁ p₂ _ _ hstep ih =>
    obtain ⟨q₁, hrun₁, h₁⟩ := ih
    have hnext := h₁.next hstart a
    rw [hstep] at hnext
    generalize hq : q₁.next starts a = r at hnext
    cases hnext with
    | some h₂ => exact ⟨_, hrun₁.tail trivial hq, h₂⟩

/-- **Runs keep what every program keeps.** -/
theorem keeps_run {R : σ → σ → Prop} (hrefl : ∀ s, R s s)
    (htrans : ∀ a b c, R a b → R b c → R a c) {ok : Pool ι σ ε β → Act ι ε → Prop}
    (hstart : ∀ t e b k, start t e b = some k → Keeps R k) (hinit : ∀ t, Keeps R (p.thread t))
    {as : List (Act ι ε)} (hrun : Run start ok p as p') :
    R p.shared p'.shared ∧ ∀ t, Keeps R (p'.thread t) := by
  induction hrun with
  | refl => exact ⟨hrefl _, hinit⟩
  | @tail as a p₁ p₂ _ _ hnext ih =>
    obtain ⟨hR, hkeep⟩ := ih
    have hstep := step_of_next hnext
    cases a with
    | call t e =>
      cases hstep with
      | @call _ _ b k _ hk =>
        refine ⟨hR, fun u => ?_⟩
        by_cases hu : u = t
        · rw [hu, begin_thread]
          exact hstart t e b k hk
        · rw [begin_thread_ne _ _ _ hu]
          exact hkeep u
    | tick t =>
      obtain ⟨hone, hrest⟩ := keeps_tick hrefl hstep (hkeep t)
      refine ⟨htrans _ _ _ hR hone, fun u => ?_⟩
      by_cases hu : u = t
      · rw [hu]
        exact hrest
      · rw [(hstep.other (Ne.symm hu)).1]
        exact hkeep u

end Pool

end Conc
