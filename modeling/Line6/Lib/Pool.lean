import Line6.Lib.Prog

/-!
# Interleaving threads, and rely/guarantee

A `Pool` is the shared state, the owner of the mutex and one program per thread. A thread whose
program is a `ret` is idle and may be given a new call (`Act.call`); any other thread may take
its next action (`Act.tick`), a `lock` only while nobody owns the mutex, so that a thread which
locks a mutex it owns waits forever (`SelfWaits`). `start` says which program a call runs, given
what the thread's previous call returned. `Run` is a run of labelled steps; `ok` restricts it.

* `run_alone`: ticking one thread while the others stand still is `exec`.
* `Safe T acq post`: the program keeps its guarantee `T.guar`, unlocks only while it holds and ends
  in `post`, whatever the other threads do within `T.rely`, provided it acquires the mutex only in
  states satisfying `acq`. With `T.strict` it also respects the lock discipline: it never locks and
  never calls out while it holds. Both relations may depend on whether the thread holds the mutex:
  what only the holder may change is stable while one holds it.
* `safe_step`: a step of the pool keeps a thread's `Safe`. `pool_safe`: threads whose guarantees
  imply each other's rely keep theirs in every run.
-/

namespace Conc

open Prog

/-- A label: thread `t` is called with `e`, or takes its next action. -/
inductive Act (ι ε : Type) where
  | call (t : ι) (e : ε)
  | tick (t : ι)
  deriving Repr, DecidableEq

/-- The thread a label is about. -/
def Act.by {ι ε : Type} : Act ι ε → ι
  | .call t _ => t
  | .tick t => t

@[simp] theorem Act.by_call {ι ε : Type} (t : ι) (e : ε) : (Act.call t e).by = t := rfl

@[simp] theorem Act.by_tick {ι ε : Type} (t : ι) : (Act.tick t : Act ι ε).by = t := rfl

/-- Threads over a shared state. `entry t` is the call thread `t` was last given, `age t` how many
actions it has taken in it. -/
structure Pool (ι σ ε β : Type) where
  shared : σ
  owner : Option ι
  thread : ι → Prog σ β
  entry : ι → Option ε
  age : ι → Nat

variable {ι σ ε β γ : Type} [DecidableEq ι]

namespace Pool

/-- Everybody idle, nobody holding the mutex. -/
def init (s : σ) (b : ι → β) : Pool ι σ ε β :=
  ⟨s, none, fun t => ret (b t), fun _ => none, fun _ => 0⟩

/-- Thread `t` goes on with `k`, leaving the owner `o` and the shared state `s`. -/
def advance (p : Pool ι σ ε β) (t : ι) (k : Prog σ β) (o : Option ι) (s : σ) : Pool ι σ ε β where
  shared := s
  owner := o
  thread := Function.update p.thread t k
  entry := p.entry
  age := Function.update p.age t (p.age t + 1)

/-- Thread `t` is given the call `e`, which runs `k`. -/
def begin (p : Pool ι σ ε β) (t : ι) (e : ε) (k : Prog σ β) : Pool ι σ ε β :=
  { p with
    thread := Function.update p.thread t k
    entry := Function.update p.entry t (some e)
    age := Function.update p.age t 0 }

/-- Thread `t` holds the mutex. -/
def holds (p : Pool ι σ ε β) (t : ι) : Bool := decide (p.owner = some t)

theorem holds_eq_true {p : Pool ι σ ε β} {t : ι} : p.holds t = true ↔ p.owner = some t := by
  simp [holds]

theorem holds_eq_false {p : Pool ι σ ε β} {t : ι} : p.holds t = false ↔ p.owner ≠ some t := by
  simp [holds]

/-- The mutex has one owner. -/
theorem holds_other {p : Pool ι σ ε β} {t u : ι} (hu : u ≠ t) (h : p.holds t = true) :
    p.holds u = false := by
  rw [holds_eq_false, holds_eq_true.mp h]
  simpa using Ne.symm hu

section Accessors

variable (p : Pool ι σ ε β) (t u : ι) (k : Prog σ β) (o : Option ι) (s : σ) (e : ε)

@[simp] theorem advance_shared : (p.advance t k o s).shared = s := rfl

@[simp] theorem advance_owner : (p.advance t k o s).owner = o := rfl

@[simp] theorem advance_entry : (p.advance t k o s).entry = p.entry := rfl

@[simp] theorem advance_thread : (p.advance t k o s).thread t = k := Function.update_self ..

@[simp] theorem advance_age : (p.advance t k o s).age t = p.age t + 1 := Function.update_self ..

variable {t u} in
theorem advance_thread_ne (h : u ≠ t) : (p.advance t k o s).thread u = p.thread u :=
  Function.update_of_ne h ..

variable {t u} in
theorem advance_age_ne (h : u ≠ t) : (p.advance t k o s).age u = p.age u :=
  Function.update_of_ne h ..

@[simp] theorem begin_shared : (p.begin t e k).shared = p.shared := rfl

@[simp] theorem begin_owner : (p.begin t e k).owner = p.owner := rfl

@[simp] theorem begin_thread : (p.begin t e k).thread t = k := Function.update_self ..

@[simp] theorem begin_entry : (p.begin t e k).entry t = some e := Function.update_self ..

@[simp] theorem begin_age : (p.begin t e k).age t = 0 := Function.update_self ..

variable {t u} in
theorem begin_thread_ne (h : u ≠ t) : (p.begin t e k).thread u = p.thread u :=
  Function.update_of_ne h ..

variable {t u} in
theorem begin_entry_ne (h : u ≠ t) : (p.begin t e k).entry u = p.entry u :=
  Function.update_of_ne h ..

variable {t u} in
theorem begin_age_ne (h : u ≠ t) : (p.begin t e k).age u = p.age u :=
  Function.update_of_ne h ..

end Accessors

variable (start : ι → ε → β → Option (Prog σ β))

/-- **One step of the pool**, if the label is enabled. -/
def next (p : Pool ι σ ε β) : Act ι ε → Option (Pool ι σ ε β)
  | .call t e =>
    match p.thread t with
    | .ret b => (start t e b).map (p.begin t e)
    | _ => none
  | .tick t =>
    match p.thread t with
    | .ret _ => none
    | .access u k => some (p.advance t (k p.shared) p.owner (u p.shared))
    | .lock k => if p.owner = none then some (p.advance t k (some t) p.shared) else none
    | .unlock k => if p.owner = some t then some (p.advance t k none p.shared) else none
    | .callout k => some (p.advance t k p.owner p.shared)
    | .trap => none

/-- The steps of `next`, one constructor per kind of action. -/
inductive Step : Pool ι σ ε β → Act ι ε → Pool ι σ ε β → Prop
  | call {p : Pool ι σ ε β} {t : ι} {e : ε} {b : β} {k : Prog σ β}
      (hret : p.thread t = .ret b) (hk : start t e b = some k) :
      Step p (.call t e) (p.begin t e k)
  | access {p : Pool ι σ ε β} {t : ι} {u : σ → σ} {k : σ → Prog σ β}
      (h : p.thread t = .access u k) :
      Step p (.tick t) (p.advance t (k p.shared) p.owner (u p.shared))
  | lock {p : Pool ι σ ε β} {t : ι} {k : Prog σ β} (h : p.thread t = .lock k)
      (ho : p.owner = none) : Step p (.tick t) (p.advance t k (some t) p.shared)
  | unlock {p : Pool ι σ ε β} {t : ι} {k : Prog σ β} (h : p.thread t = .unlock k)
      (ho : p.owner = some t) : Step p (.tick t) (p.advance t k none p.shared)
  | callout {p : Pool ι σ ε β} {t : ι} {k : Prog σ β} (h : p.thread t = .callout k) :
      Step p (.tick t) (p.advance t k p.owner p.shared)

variable {start} {p q : Pool ι σ ε β} {a : Act ι ε} {t : ι}

/-- **Every step of `next` is a `Step`.** -/
theorem step_of_next (h : p.next start a = some q) : Step start p a q := by
  cases a with
  | call t e =>
    simp only [next] at h
    split at h
    · rename_i b hb
      cases hk : start t e b with
      | none => rw [hk] at h; cases h
      | some k =>
        rw [hk] at h
        cases h
        exact Step.call hb hk
    · cases h
  | tick t =>
    simp only [next] at h
    split at h
    · cases h
    · rename_i u k hp
      cases h
      exact Step.access hp
    · rename_i k hp
      split at h
      · rename_i ho
        cases h
        exact Step.lock hp ho
      · cases h
    · rename_i k hp
      split at h
      · rename_i ho
        cases h
        exact Step.unlock hp ho
      · cases h
    · rename_i k hp
      cases h
      exact Step.callout hp
    · cases h

/-- An idle thread takes no action. -/
theorem Step.not_tick {b : β} (h : Step start p (.tick t) q) : p.thread t ≠ .ret b := by
  intro hret
  cases h <;> simp_all

/-- The next action of a thread at an access. -/
theorem Step.of_access {u : σ → σ} {k : σ → Prog σ β} (h : Step start p (.tick t) q)
    (hp : p.thread t = .access u k) :
    q.thread t = k p.shared ∧ q.entry t = p.entry t ∧ q.age t = p.age t + 1 ∧
      q.shared = u p.shared := by
  cases h with
  | access hp' =>
    rw [hp] at hp'
    cases hp'
    exact ⟨advance_thread .., rfl, advance_age .., rfl⟩
  | lock hp' _ => rw [hp] at hp'; cases hp'
  | unlock hp' _ => rw [hp] at hp'; cases hp'
  | callout hp' => rw [hp] at hp'; cases hp'

/-- An access neither takes the mutex nor leaves it. -/
theorem Step.holds_of_access {u : σ → σ} {k : σ → Prog σ β} (h : Step start p (.tick t) q)
    (hp : p.thread t = .access u k) : q.holds t = p.holds t := by
  cases h with
  | access _ => rfl
  | lock hp' _ => rw [hp] at hp'; cases hp'
  | unlock hp' _ => rw [hp] at hp'; cases hp'
  | callout hp' => rw [hp] at hp'; cases hp'

/-! ## Runs -/

variable (start)

/-- **A run** from `p₀` along a list of labels, every step of it allowed by `ok`. -/
inductive Run (ok : Pool ι σ ε β → Act ι ε → Prop) (p₀ : Pool ι σ ε β) :
    List (Act ι ε) → Pool ι σ ε β → Prop
  | refl : Run ok p₀ [] p₀
  | tail {as : List (Act ι ε)} {a : Act ι ε} {p q : Pool ι σ ε β} (hrun : Run ok p₀ as p)
      (hok : ok p a) (hstep : p.next start a = some q) : Run ok p₀ (as ++ [a]) q

/-- No restriction. -/
def Free (_ : Pool ι σ ε β) (_ : Act ι ε) : Prop := True

/-- A run with a ghost value that every step updates; `ok` sees the ghost before the step, and
both ends of the step. -/
inductive GhostRun {δ : Type*} (upd : δ → Pool ι σ ε β → Act ι ε → Pool ι σ ε β → δ)
    (ok : δ → Pool ι σ ε β → Act ι ε → Pool ι σ ε β → Prop) (p₀ : Pool ι σ ε β) (g₀ : δ) :
    List (Act ι ε) → Pool ι σ ε β → δ → Prop
  | refl : GhostRun upd ok p₀ g₀ [] p₀ g₀
  | tail {as : List (Act ι ε)} {a : Act ι ε} {p q : Pool ι σ ε β} {g : δ}
      (hrun : GhostRun upd ok p₀ g₀ as p g) (hok : ok g p a q) (hstep : p.next start a = some q) :
      GhostRun upd ok p₀ g₀ (as ++ [a]) q (upd g p a q)

/-- The pool a list of labels leads to. -/
def runActs : List (Act ι ε) → Pool ι σ ε β → Option (Pool ι σ ε β)
  | [], p => some p
  | a :: as, p => (p.next start a).bind (runActs as)

/-- The pool and the ghost a list of labels leads to. -/
def runGhost {δ : Type*} (upd : δ → Pool ι σ ε β → Act ι ε → Pool ι σ ε β → δ) :
    List (Act ι ε) → Pool ι σ ε β × δ → Option (Pool ι σ ε β × δ)
  | [], s => some s
  | a :: as, (p, g) => (p.next start a).bind fun q => runGhost upd as (q, upd g p a q)

variable {start} {ok : Pool ι σ ε β → Act ι ε → Prop}

theorem Run.append {p₀ p q : Pool ι σ ε β} {as bs : List (Act ι ε)} (h : Run start ok p₀ as p)
    (h' : Run start ok p bs q) : Run start ok p₀ (as ++ bs) q := by
  induction h' with
  | refl => rwa [List.append_nil]
  | tail _ hok hstep ih => rw [← List.append_assoc]; exact Run.tail ih hok hstep

theorem Run.mono {ok' : Pool ι σ ε β → Act ι ε → Prop} {p₀ p : Pool ι σ ε β}
    {as : List (Act ι ε)} (h : Run start ok p₀ as p) (hok : ∀ p a, ok p a → ok' p a) :
    Run start ok' p₀ as p := by
  induction h with
  | refl => exact Run.refl
  | tail _ ho hstep ih => exact Run.tail ih (hok _ _ ho) hstep

theorem Run.cons {p₀ p q : Pool ι σ ε β} {a : Act ι ε} {as : List (Act ι ε)} (hok : ok p₀ a)
    (hstep : p₀.next start a = some p) (h : Run start ok p as q) :
    Run start ok p₀ (a :: as) q :=
  Run.append (Run.tail Run.refl hok hstep) h

theorem Run.nil_eq {p₀ p : Pool ι σ ε β} (h : Run start ok p₀ [] p) : p = p₀ := by
  generalize hl : [] = l at h
  cases h with
  | refl => rfl
  | tail _ _ _ => simp at hl

/-- The first step of a run. -/
theorem Run.uncons {p₀ p : Pool ι σ ε β} {a : Act ι ε} {as : List (Act ι ε)}
    (h : Run start ok p₀ (a :: as) p) :
    ∃ p₁, ok p₀ a ∧ p₀.next start a = some p₁ ∧ Run start ok p₁ as p := by
  generalize hl : a :: as = l at h
  induction h generalizing as with
  | refl => cases hl
  | @tail bs b p' q hrun hok hstep ih =>
    cases bs with
    | nil =>
      cases hl
      obtain rfl := hrun.nil_eq
      exact ⟨q, hok, hstep, Run.refl⟩
    | cons c bs =>
      obtain ⟨rfl, rfl⟩ := List.cons.inj hl
      obtain ⟨p₁, hok₁, hstep₁, hrest⟩ := ih rfl
      exact ⟨p₁, hok₁, hstep₁, hrest.tail hok hstep⟩

/-- `runActs` computes runs. -/
theorem run_of_runActs : ∀ {as : List (Act ι ε)} {p q : Pool ι σ ε β},
    runActs start as p = some q → Run start Free p as q
  | [], p, q, h => by
    cases h
    exact Run.refl
  | a :: as, p, q, h => by
    simp only [runActs] at h
    cases hn : p.next start a with
    | none => rw [hn] at h; cases h
    | some p' =>
      rw [hn] at h
      exact Run.cons trivial hn (run_of_runActs h)

/-- Forget the ghost. -/
theorem GhostRun.run {δ : Type*} {upd : δ → Pool ι σ ε β → Act ι ε → Pool ι σ ε β → δ}
    {ok : δ → Pool ι σ ε β → Act ι ε → Pool ι σ ε β → Prop} {p₀ p : Pool ι σ ε β} {g₀ g : δ}
    {as : List (Act ι ε)} (h : GhostRun start upd ok p₀ g₀ as p g) : Run start Free p₀ as p := by
  induction h with
  | refl => exact Run.refl
  | tail _ _ hstep ih => exact ih.tail trivial hstep

theorem GhostRun.mono {δ : Type*} {upd : δ → Pool ι σ ε β → Act ι ε → Pool ι σ ε β → δ}
    {ok ok' : δ → Pool ι σ ε β → Act ι ε → Pool ι σ ε β → Prop} {p₀ p : Pool ι σ ε β} {g₀ g : δ}
    {as : List (Act ι ε)} (h : GhostRun start upd ok p₀ g₀ as p g)
    (hok : ∀ g p a q, ok g p a q → ok' g p a q) : GhostRun start upd ok' p₀ g₀ as p g := by
  induction h with
  | refl => exact .refl
  | tail _ hstep hnext ih => exact ih.tail (hok _ _ _ _ hstep) hnext

theorem GhostRun.append {δ : Type*} {upd : δ → Pool ι σ ε β → Act ι ε → Pool ι σ ε β → δ}
    {ok : δ → Pool ι σ ε β → Act ι ε → Pool ι σ ε β → Prop} {p₀ p q : Pool ι σ ε β}
    {g₀ g g' : δ} {as bs : List (Act ι ε)} (h : GhostRun start upd ok p₀ g₀ as p g)
    (h' : GhostRun start upd ok p g bs q g') : GhostRun start upd ok p₀ g₀ (as ++ bs) q g' := by
  induction h' with
  | refl => rwa [List.append_nil]
  | tail _ hok hstep ih =>
    rw [← List.append_assoc]
    exact ih.tail hok hstep

/-- `runGhost` computes runs along labels `L`, from a state with a property that such steps keep
and that allows them. -/
theorem GhostRun.of_runGhost_keeps {δ : Type*}
    {upd : δ → Pool ι σ ε β → Act ι ε → Pool ι σ ε β → δ}
    {ok : δ → Pool ι σ ε β → Act ι ε → Pool ι σ ε β → Prop} {P : Pool ι σ ε β → Prop}
    {L : Act ι ε → Prop}
    (hstep : ∀ g p a q, P p → L a → p.next start a = some q → ok g p a q ∧ P q) :
    ∀ {as : List (Act ι ε)} {p q : Pool ι σ ε β} {g g' : δ},
      runGhost start upd as (p, g) = some (q, g') → P p → (∀ a ∈ as, L a) →
        GhostRun start upd ok p g as q g'
  | [], p, q, g, g', h, _, _ => by
    cases h
    exact GhostRun.refl
  | a :: as, p, q, g, g', h, hp, hL => by
    obtain ⟨p₁, hnext, hrest⟩ := Option.bind_eq_some_iff.mp h
    obtain ⟨hok, hp₁⟩ := hstep g p a p₁ hp (hL a List.mem_cons_self) hnext
    have hfirst : GhostRun start upd ok p g [a] p₁ (upd g p a p₁) := GhostRun.refl.tail hok hnext
    exact hfirst.append (GhostRun.of_runGhost_keeps hstep hrest hp₁ fun b hb =>
      hL b (List.mem_cons_of_mem a hb))

/-- `runGhost` computes runs, along labels that are always allowed. -/
theorem GhostRun.of_runGhost {δ : Type*} {upd : δ → Pool ι σ ε β → Act ι ε → Pool ι σ ε β → δ}
    {ok : δ → Pool ι σ ε β → Act ι ε → Pool ι σ ε β → Prop} {as : List (Act ι ε)}
    {p q : Pool ι σ ε β} {g g' : δ} (h : runGhost start upd as (p, g) = some (q, g'))
    (hok : ∀ a ∈ as, ∀ g p q, ok g p a q) : GhostRun start upd ok p g as q g' :=
  GhostRun.of_runGhost_keeps (P := fun _ => True) (L := fun a => ∀ g p q, ok g p a q)
    (fun g p _ q _ ha _ => ⟨ha g p q, trivial⟩) h trivial hok

/-- A run along labels `L`, from a state and a ghost with a property that such steps keep and that
allows them. -/
theorem GhostRun.of_run {δ : Type*} {upd : δ → Pool ι σ ε β → Act ι ε → Pool ι σ ε β → δ}
    {ok : δ → Pool ι σ ε β → Act ι ε → Pool ι σ ε β → Prop} {P : δ → Pool ι σ ε β → Prop}
    {L : Act ι ε → Prop} {p₀ p : Pool ι σ ε β} {g₀ : δ} {as : List (Act ι ε)}
    (hrun : Run start Free p₀ as p) (h₀ : P g₀ p₀) (hL : ∀ a ∈ as, L a)
    (hstep : ∀ g p a q, P g p → L a → p.next start a = some q →
      ok g p a q ∧ P (upd g p a q) q) :
    ∃ g, GhostRun start upd ok p₀ g₀ as p g ∧ P g p := by
  induction hrun with
  | refl => exact ⟨g₀, GhostRun.refl, h₀⟩
  | @tail as a p q _ _ hnext ih =>
    obtain ⟨g, hrun, hp⟩ := ih fun b hb => hL b (List.mem_append_left _ hb)
    have ha : L a := hL a (List.mem_append_right _ (List.mem_singleton_self a))
    obtain ⟨hok, hq⟩ := hstep g p a q hp ha hnext
    exact ⟨_, hrun.tail hok hnext, hq⟩

/-- A run along labels `L`, from a state with a property those steps keep, is a run restricted by
what the property and the labels imply. -/
theorem Run.restrict {P : Pool ι σ ε β → Prop} {L : Act ι ε → Prop} {p₀ p : Pool ι σ ε β}
    {as : List (Act ι ε)} (hrun : Run start Free p₀ as p) (h₀ : P p₀) (hL : ∀ a ∈ as, L a)
    (hok : ∀ p a, P p → L a → ok p a)
    (hkeep : ∀ p a q, P p → L a → p.next start a = some q → P q) : Run start ok p₀ as p := by
  suffices h : P p ∧ Run start ok p₀ as p from h.2
  induction hrun with
  | refl => exact ⟨h₀, Run.refl⟩
  | @tail as a p q hrun _ hstep ih =>
    obtain ⟨hp, hrun'⟩ := ih fun b hb => hL b (List.mem_append_left _ hb)
    have ha : L a := hL a (List.mem_append_right _ (List.mem_singleton_self a))
    exact ⟨hkeep p a q hp ha hstep, hrun'.tail (hok p a hp ha) hstep⟩

/-! ## One thread alone, as a run -/

/-- **Sequential runs are runs of the pool**: while the others stand still, thread `t` reaches
the result and the state that `exec` computes. -/
theorem run_alone {x : Prog σ β} {l l' : Bool} {s s' : σ} {b : β}
    (h : exec x l s = .done l' s' b) :
    ∀ {p : Pool ι σ ε β}, p.thread t = x → p.shared = s →
      p.owner = (if l then some t else none) →
      ∃ n q, Run start Free p (List.replicate n (.tick t)) q ∧ q.thread t = .ret b ∧
        q.shared = s' ∧ q.owner = (if l' then some t else none) := by
  induction x generalizing l s with
  | ret c =>
    intro p hp hs ho
    cases h
    exact ⟨0, p, Run.refl, hp, hs, ho⟩
  | access u k ih =>
    intro p hp hs ho
    obtain ⟨n, q, hr, hq⟩ := ih s h (p := p.advance t (k p.shared) p.owner (u p.shared))
      (by simp [hs]) (by simp [hs]) ho
    exact ⟨n + 1, q, Run.cons trivial (by simp [next, hp]) hr, hq⟩
  | lock k ih =>
    intro p hp hs ho
    cases l with
    | true => cases h
    | false =>
      obtain ⟨n, q, hr, hq⟩ := ih h (p := p.advance t k (some t) p.shared) (by simp) hs rfl
      exact ⟨n + 1, q, Run.cons trivial (by simpa [next, hp] using ho) hr, hq⟩
  | unlock k ih =>
    intro p hp hs ho
    cases l with
    | false => cases h
    | true =>
      obtain ⟨n, q, hr, hq⟩ := ih h (p := p.advance t k none p.shared) (by simp) hs rfl
      exact ⟨n + 1, q, Run.cons trivial (by simpa [next, hp] using ho) hr, hq⟩
  | callout k ih =>
    intro p hp hs ho
    obtain ⟨n, q, hr, hq⟩ := ih h (p := p.advance t k p.owner p.shared) (by simp) hs ho
    exact ⟨n + 1, q, Run.cons trivial (by simp [next, hp]) hr, hq⟩
  | trap => cases h

/-! ## Other threads stand still -/

/-- A step of another thread leaves `t`'s program, call, age and hold on the mutex alone. -/
theorem Step.other (h : Step start p a q) (ht : a.by ≠ t) :
    q.thread t = p.thread t ∧ q.entry t = p.entry t ∧ q.age t = p.age t ∧
      q.holds t = p.holds t := by
  have hne := ht.symm
  cases h with
  | call hret hk =>
    exact ⟨begin_thread_ne _ _ _ hne, begin_entry_ne _ _ _ hne, begin_age_ne _ _ _ hne, rfl⟩
  | access h => exact ⟨advance_thread_ne _ _ _ _ hne, rfl, advance_age_ne _ _ _ _ hne, rfl⟩
  | lock h ho =>
    refine ⟨advance_thread_ne _ _ _ _ hne, rfl, advance_age_ne _ _ _ _ hne, ?_⟩
    rw [holds_eq_false.mpr (by simpa using ht), holds_eq_false.mpr (by simp [ho])]
  | unlock h ho =>
    refine ⟨advance_thread_ne _ _ _ _ hne, rfl, advance_age_ne _ _ _ _ hne, ?_⟩
    rw [holds_eq_false.mpr (by simp), holds_eq_false.mpr (by simpa [ho] using ht)]
  | callout h => exact ⟨advance_thread_ne _ _ _ _ hne, rfl, advance_age_ne _ _ _ _ hne, rfl⟩

end Pool

/-! ## Rely and guarantee -/

/-- What others may do (`rely`) and what one does oneself (`guar`), by whether one holds the
mutex; whether the lock discipline is asked for. -/
structure Terms (σ : Type) where
  strict : Prop
  rely : Bool → σ → σ → Prop
  guar : Bool → σ → σ → Prop
  refl : ∀ h s, rely h s s
  trans : ∀ {h a b c}, rely h a b → rely h b c → rely h a c

variable (T : Terms σ) (acq : σ → Prop) (post : Bool → β → σ → Prop)

/-- **The program is safe** from a state, holding the mutex or not. -/
def Safe : Bool → Prog σ β → σ → Prop
  | h, .ret b, s => ∀ s', T.rely h s s' → post h b s'
  | h, .access u k, s => ∀ s', T.rely h s s' → T.guar h s' (u s') ∧ Safe h (k s') (u s')
  | h, .lock k, s =>
    (T.strict → h = false) ∧ (h = false → ∀ s', T.rely false s s' → acq s' → Safe true k s')
  | h, .unlock k, s => h = true ∧ ∀ s', T.rely true s s' → Safe false k s'
  | h, .callout k, s => (T.strict → h = false) ∧ ∀ s', T.rely h s s' → Safe h k s'
  | _, .trap, _ => True

variable {T} {acq : σ → Prop} {post : Bool → β → σ → Prop} {h : Bool} {s s' : σ}

/-- Interference within the rely keeps a program safe. -/
theorem Safe.rely {x : Prog σ β} (hs : Safe T acq post h x s) (hr : T.rely h s s') :
    Safe T acq post h x s' := by
  cases x with
  | ret b => exact fun s'' h'' => hs s'' (T.trans hr h'')
  | access u k => exact fun s'' h'' => hs s'' (T.trans hr h'')
  | lock k =>
    refine ⟨hs.1, fun hh => ?_⟩
    subst hh
    exact fun s'' h'' => hs.2 rfl s'' (T.trans hr h'')
  | unlock k =>
    obtain ⟨rfl, hk⟩ := hs
    exact ⟨rfl, fun s'' h'' => hk s'' (T.trans hr h'')⟩
  | callout k => exact ⟨hs.1, fun s'' h'' => hs.2 s'' (T.trans hr h'')⟩
  | trap => trivial

/-- **Sequencing**: the second program is safe wherever the first one ends. -/
theorem Safe.bind {x : Prog σ γ} {f : γ → Prog σ β}
    (hx : Safe T acq (fun h c s => Safe T acq post h (f c) s) h x s) :
    Safe T acq post h (x >>= f) s := by
  induction x generalizing h s with
  | ret c => exact hx s (T.refl h s)
  | access u k ih => exact fun s' hr => ⟨(hx s' hr).1, ih s' (hx s' hr).2⟩
  | lock k ih => exact ⟨hx.1, fun hh s' hr ha => ih (hx.2 hh s' hr ha)⟩
  | unlock k ih => exact ⟨hx.1, fun s' hr => ih (hx.2 s' hr)⟩
  | callout k ih => exact ⟨hx.1, fun s' hr => ih (hx.2 s' hr)⟩
  | trap => trivial

theorem Safe.mono {post' : Bool → β → σ → Prop} {x : Prog σ β}
    (hpost : ∀ h b s, post h b s → post' h b s) (hx : Safe T acq post h x s) :
    Safe T acq post' h x s := by
  induction x generalizing h s with
  | ret b => exact fun s' hr => hpost _ _ _ (hx s' hr)
  | access u k ih => exact fun s' hr => ⟨(hx s' hr).1, ih s' (hx s' hr).2⟩
  | lock k ih => exact ⟨hx.1, fun hh s' hr ha => ih (hx.2 hh s' hr ha)⟩
  | unlock k ih => exact ⟨hx.1, fun s' hr => ih (hx.2 s' hr)⟩
  | callout k ih => exact ⟨hx.1, fun s' hr => ih (hx.2 s' hr)⟩
  | trap => trivial

/-- Fewer things others may do, more one may do oneself. -/
theorem Safe.weaken {T' : Terms σ} {x : Prog σ β} (hrely : ∀ h s s', T'.rely h s s' → T.rely h s s')
    (hguar : ∀ h s s', T.guar h s s' → T'.guar h s s') (hstrict : T'.strict → T.strict)
    (hx : Safe T acq post h x s) : Safe T' acq post h x s := by
  induction x generalizing h s with
  | ret b => exact fun s' hr => hx s' (hrely _ _ _ hr)
  | access u k ih =>
    intro s' hr
    obtain ⟨hg, hk⟩ := hx s' (hrely _ _ _ hr)
    exact ⟨hguar _ _ _ hg, ih s' hk⟩
  | lock k ih =>
    exact ⟨fun ht => hx.1 (hstrict ht), fun hh s' hr ha => ih (hx.2 hh s' (hrely _ _ _ hr) ha)⟩
  | unlock k ih => exact ⟨hx.1, fun s' hr => ih (hx.2 s' (hrely _ _ _ hr))⟩
  | callout k ih =>
    exact ⟨fun ht => hx.1 (hstrict ht), fun s' hr => ih (hx.2 s' (hrely _ _ _ hr))⟩
  | trap => trivial

/-- What every branch returns is what a safe program returns. -/
theorem Safe.yields {P : β → Prop} {x : Prog σ β} (hx : Safe T acq post h x s)
    (hP : Yields P x) : Safe T acq (fun _ b _ => P b) h x s := by
  induction x generalizing h s with
  | ret b => exact fun _ _ => hP
  | access u k ih => exact fun s' hr => ⟨(hx s' hr).1, ih s' (hx s' hr).2 (hP s')⟩
  | lock k ih => exact ⟨hx.1, fun hh s' hr ha => ih (hx.2 hh s' hr ha) hP⟩
  | unlock k ih => exact ⟨hx.1, fun s' hr => ih (hx.2 s' hr) hP⟩
  | callout k ih => exact ⟨hx.1, fun s' hr => ih (hx.2 s' hr) hP⟩
  | trap => trivial

/-- A program without synchronisation, every access of it within the guarantee, is safe and ends
as it began, holding the mutex or not. -/
theorem Plain.safe {R : σ → σ → Prop} {x : Prog σ β} (hx : Plain R x)
    (hR : ∀ s s', R s s' → T.guar h s s') : Safe T acq (fun h' _ _ => h' = h) h x s := by
  induction x generalizing s with
  | ret b => exact fun _ _ => rfl
  | access u k ih => exact fun s' _ => ⟨hR _ _ (hx s').1, ih s' (hx s').2⟩
  | lock k ih => exact hx.elim
  | unlock k ih => exact hx.elim
  | callout k ih => exact hx.elim
  | trap => trivial

namespace Pool

variable {start : ι → ε → β → Option (Prog σ β)} {p q : Pool ι σ ε β} {a : Act ι ε} {t : ι}

/-- A thread's own action keeps it safe, if it acquires the mutex only in `acq` states. -/
theorem safe_tick (hstep : Step start p (.tick t) q)
    (hacq : ∀ k, p.thread t = .lock k → acq p.shared)
    (hs : Safe T acq post (p.holds t) (p.thread t) p.shared) :
    Safe T acq post (q.holds t) (q.thread t) q.shared := by
  cases hstep with
  | access hp =>
    rw [hp] at hs
    rw [advance_thread]
    exact (hs _ (T.refl _ _)).2
  | lock hp ho =>
    rw [hp] at hs
    rw [advance_thread, holds_eq_true.mpr (advance_owner ..)]
    exact hs.2 (holds_eq_false.mpr (by simp [ho])) _ (T.refl _ _) (hacq _ hp)
  | unlock hp ho =>
    rw [hp] at hs
    rw [advance_thread, holds_eq_false.mpr (by simp)]
    exact hs.2 _ (T.refl _ _)
  | callout hp =>
    rw [hp] at hs
    rw [advance_thread]
    exact hs.2 _ (T.refl _ _)

/-- **A step of the pool keeps a thread safe**: its own action, or another thread's, if that
stays within the rely. -/
theorem safe_step (hstep : Step start p a q) (hcall : ∀ e, a ≠ .call t e)
    (hacq : ∀ k, p.thread t = .lock k → acq p.shared)
    (hrely : a.by ≠ t → T.rely (p.holds t) p.shared q.shared)
    (hs : Safe T acq post (p.holds t) (p.thread t) p.shared) :
    Safe T acq post (q.holds t) (q.thread t) q.shared := by
  by_cases ht : a.by = t
  · cases a with
    | call u e => exact absurd (by rw [← ht]; rfl) (hcall e)
    | tick u =>
      obtain rfl : u = t := ht
      exact safe_tick hstep hacq hs
  · obtain ⟨h1, -, -, h4⟩ := hstep.other ht
    rw [h1, h4]
    exact hs.rely (hrely ht)

/-- What a safe thread's action does to the shared state is within its guarantee. -/
theorem safe_guar (hrefl : ∀ h s, T.guar h s s) (hstep : Step start p (.tick t) q)
    (hs : Safe T acq post (p.holds t) (p.thread t) p.shared) :
    T.guar (p.holds t) p.shared q.shared := by
  cases hstep with
  | access hp =>
    rw [hp] at hs
    exact (hs _ (T.refl _ _)).1
  | lock hp ho => exact hrefl _ _
  | unlock hp ho => exact hrefl _ _
  | callout hp => exact hrefl _ _

/-- Thread `t` is at a `lock` of the mutex it holds: it waits forever. -/
def SelfWaits (p : Pool ι σ ε β) (t : ι) : Prop :=
  (∃ k, p.thread t = .lock k) ∧ p.owner = some t

/-- The lock discipline of thread `t` in one state of the pool. -/
structure Disciplined (p : Pool ι σ ε β) (t : ι) : Prop where
  no_self_wait : ¬ p.SelfWaits t
  returns_released : ∀ b, p.thread t = .ret b → p.owner ≠ some t
  callout_released : ∀ k, p.thread t = .callout k → p.owner ≠ some t
  unlocks_own : ∀ k, p.thread t = .unlock k → p.owner = some t

theorem idle_disciplined {b : β} (hb : p.thread t = .ret b) (hfree : p.holds t = false) :
    p.Disciplined t := by
  have ho := holds_eq_false.mp hfree
  refine ⟨fun h => ho h.2, fun _ _ => ho, fun _ _ => ho, fun k hk => ?_⟩
  rw [hb] at hk
  cases hk

/-- A strictly safe thread that ends released is disciplined. -/
theorem disciplined_of_safe (hT : T.strict) (hpost : ∀ h b s, post h b s → h = false)
    (hs : Safe T acq post (p.holds t) (p.thread t) p.shared) : p.Disciplined t := by
  refine ⟨fun ⟨⟨k, hk⟩, ho⟩ => ?_, fun b hb => ?_, fun k hk => ?_, fun k hk => ?_⟩
  · rw [hk] at hs
    exact holds_eq_false.mp (hs.1 hT) ho
  · rw [hb] at hs
    exact holds_eq_false.mp (hpost _ _ _ (hs _ (T.refl _ _)))
  · rw [hk] at hs
    exact holds_eq_false.mp (hs.1 hT)
  · rw [hk] at hs
    simpa [holds] using hs.1

/-- The steps in which every thread that acquires the mutex does so in a state its call's `acq`
allows. -/
def Acquires (acq : ε → σ → Prop) (p : Pool ι σ ε β) (a : Act ι ε) : Prop :=
  ∀ t e k, a = .tick t → p.thread t = .lock k → p.entry t = some e → acq e p.shared

/-- Every thread is idle or safe in its call. -/
def AllSafe (T : ι → Terms σ) (acq : ε → σ → Prop) (p : Pool ι σ ε β) : Prop :=
  ∀ t, (p.entry t = none ∧ p.holds t = false ∧ ∃ b, p.thread t = .ret b) ∨
    ∃ e, p.entry t = some e ∧
      Safe (T t) (acq e) (fun h _ _ => h = false) (p.holds t) (p.thread t) p.shared

variable {T : ι → Terms σ} {acq : ε → σ → Prop}

/-- An idle thread does not hold the mutex. -/
theorem AllSafe.idle_released (hsafe : AllSafe T acq p) {b : β} (hret : p.thread t = .ret b) :
    p.holds t = false := by
  rcases hsafe t with ⟨-, hf, -⟩ | ⟨e, -, hs⟩
  · exact hf
  · rw [hret] at hs
    exact hs _ ((T t).refl _ _)

/-- In a pool of safe threads every step is within the guarantee of the thread that takes it. -/
theorem AllSafe.guar (hsafe : AllSafe T acq p) (hrefl : ∀ t h s, (T t).guar h s s)
    (hnext : p.next start a = some q) :
    (T a.by).guar (p.holds a.by) p.shared q.shared := by
  have hstep := step_of_next hnext
  cases a with
  | call t e =>
    cases hstep
    exact hrefl _ _ _
  | tick t =>
    rcases hsafe t with ⟨-, -, b, hb⟩ | ⟨e, -, hs⟩
    · exact absurd hb hstep.not_tick
    · exact safe_guar (hrefl t) hstep hs

section Compatible

variable (hrefl : ∀ t h s, (T t).guar h s s)
  (hcompat : ∀ t u h h' s s', u ≠ t → (h = true → h' = false) → (T u).guar h' s s' →
    (T t).rely h s s')
  (hstart : ∀ t e b k s, start t e b = some k →
    Safe (T t) (acq e) (fun h _ _ => h = false) false k s)
include hrefl hcompat

/-- What a step does is within the rely of every other thread. -/
theorem AllSafe.rely (hsafe : AllSafe T acq p) (hnext : p.next start a = some q)
    (ht : a.by ≠ t) : (T t).rely (p.holds t) p.shared q.shared :=
  hcompat t a.by _ _ _ _ ht (holds_other ht) (hsafe.guar hrefl hnext)

include hstart

/-- A step keeps all threads safe. -/
theorem AllSafe.step (hsafe : AllSafe T acq p) (hok : Acquires acq p a)
    (hnext : p.next start a = some q) : AllSafe T acq q := by
  have hstep := step_of_next hnext
  intro t
  by_cases ht : a.by = t
  · subst ht
    cases a with
    | call u e =>
      cases hstep with
      | @call _ _ b k hret hk =>
        have hfree := hsafe.idle_released hret
        refine Or.inr ⟨e, begin_entry .., ?_⟩
        rw [Act.by_call, begin_thread, show (p.begin u e k).holds u = p.holds u from rfl, hfree]
        exact hstart u e b k _ hk
    | tick u =>
      rcases hsafe u with ⟨-, -, b, hb⟩ | ⟨e, he, hs⟩
      · exact absurd hb hstep.not_tick
      · have hent : q.entry u = some e := by
          rw [← he]
          cases hstep <;> rfl
        exact Or.inr ⟨e, hent, safe_tick hstep (fun k hk => hok u e k rfl hk he) hs⟩
  · obtain ⟨h1, h2, -, h4⟩ := hstep.other ht
    rw [h1, h2, h4]
    exact (hsafe t).imp id fun ⟨e', he', hs'⟩ =>
      ⟨e', he', hs'.rely (hsafe.rely hrefl hcompat hnext ht)⟩

/-- **Compatible threads stay safe**: if every call is safe from every state and one thread's
guarantee is within another's rely (two threads never hold the mutex together), all threads are
safe throughout every run whose acquisitions are in the allowed states. -/
theorem pool_safe {s₀ : σ} {b₀ : ι → β} {as : List (Act ι ε)}
    (hrun : Run start (Acquires acq) (init s₀ b₀) as p) : AllSafe T acq p := by
  induction hrun with
  | refl => exact fun t => Or.inl ⟨rfl, by simp [init, holds], _, rfl⟩
  | tail _ hok hnext ih => exact ih.step hrefl hcompat hstart hok hnext

end Compatible

end Pool

end Conc
