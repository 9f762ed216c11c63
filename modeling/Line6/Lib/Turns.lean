import Mathlib.Data.List.Induction
import Line6.Lib.Pool

/-!
# Taking turns under the mutex

A mutex protects a part `view` of the shared state if every call changes it only between a lock
and its unlock: the call takes a turn. `Orderly view inv legal post` says so of a program, that it
takes one turn at most, that its turn is `legal` and that it returns within `post`, given that every
access keeps `inv`. `Sealed R` is the same of a program whose accesses all leave the view alone.

`Turns` follows the turns of a run: the view when the mutex was last taken, the turns so far in the
order in which they released it, and the one each thread has had in its current call.

* `Turned.step`: whoever takes the next step, the turns so far are one sequential history of the
  view (`Serial`), each legal for its call.
* `turns_serial`: in every run, at every moment.
-/

namespace Conc

open Prog

variable {ι σ ε β γ κ : Type}

/-! ## One call -/

/-- Where a call stands with the mutex: outside, after the turn it has had in it, if any; or in a
turn that began with the view `v₀`, which is `v` now. -/
inductive Stage (κ : Type) where
  | out (turn : Option (κ × κ))
  | inside (v₀ v : κ)

/-- Outside, and no turn so far has changed the view. -/
def Stage.Idle : Stage κ → Prop
  | .out turn => ∀ v ∈ turn, v.2 = v.1
  | .inside _ _ => False

section

variable (view : σ → κ) (inv : σ → Prop) (legal : κ → κ → Prop) (post : Stage κ → β → Prop)

/-- The program changes the view in one turn at most, which is legal, keeps the invariant, and
returns within `post`. A program that locks the mutex in its turn waits forever. -/
def Orderly : Stage κ → Prog σ β → Prop
  | st, .ret b => post st b
  | .out turn, .access f k => ∀ s, inv s →
      inv (f s) ∧ view (f s) = view s ∧ Orderly (.out turn) (k s)
  | .inside v₀ v, .access f k => ∀ s, inv s → view s = v →
      inv (f s) ∧ Orderly (.inside v₀ (view (f s))) (k s)
  | .out none, .lock k => ∀ v, Orderly (.inside v v) k
  | .out (some _), .lock _ => False
  | .inside _ _, .lock _ => True
  | .out _, .unlock _ => True
  | .inside v₀ v, .unlock k => legal v₀ v ∧ Orderly (.out (some (v₀, v))) k
  | st, .callout k => Orderly st k
  | _, .trap => True

variable {view inv legal post}

theorem Orderly.mono {post' : Stage κ → β → Prop} (hpost : ∀ st b, post st b → post' st b)
    {st : Stage κ} {x : Prog σ β} (hx : Orderly view inv legal post st x) :
    Orderly view inv legal post' st x := by
  induction x generalizing st with
  | ret b => exact hpost st b hx
  | access f k ih =>
    cases st with
    | out turn => exact fun s hs => ⟨(hx s hs).1, (hx s hs).2.1, ih s (hx s hs).2.2⟩
    | inside v₀ v => exact fun s hs hv => ⟨(hx s hs hv).1, ih s (hx s hs hv).2⟩
  | lock k ih =>
    cases st with
    | out turn =>
      cases turn with
      | none => exact fun v => ih (hx v)
      | some u => exact hx.elim
    | inside v₀ v => trivial
  | unlock k ih =>
    cases st with
    | out turn => trivial
    | inside v₀ v => exact ⟨hx.1, ih hx.2⟩
  | callout k ih =>
    cases st with
    | out turn =>
      have hk : Orderly view inv legal post (.out turn) k := hx
      exact ih hk
    | inside v₀ v =>
      have hk : Orderly view inv legal post (.inside v₀ v) k := hx
      exact ih hk
  | trap => cases st <;> trivial

/-- A call that locks the mutex has had no turn. -/
theorem orderly_lock {turn : Option (κ × κ)} {k : Prog σ β}
    (h : Orderly view inv legal post (.out turn) (lock k)) :
    turn = none ∧ ∀ v, Orderly view inv legal post (.inside v v) k := by
  cases turn with
  | none => exact ⟨rfl, h⟩
  | some u => exact h.elim

/-- **Sequencing**: the second program goes on where the first one ends. -/
theorem Orderly.bind {st : Stage κ} {x : Prog σ γ} {f : γ → Prog σ β}
    (hx : Orderly view inv legal (fun st c => Orderly view inv legal post st (f c)) st x) :
    Orderly view inv legal post st (x >>= f) := by
  induction x generalizing st with
  | ret c => cases st <;> exact hx
  | access u k ih =>
    cases st with
    | out turn => exact fun s hs => ⟨(hx s hs).1, (hx s hs).2.1, ih s (hx s hs).2.2⟩
    | inside v₀ v => exact fun s hs hv => ⟨(hx s hs hv).1, ih s (hx s hs hv).2⟩
  | lock k ih =>
    cases st with
    | out turn =>
      cases turn with
      | none => exact fun v => ih (hx v)
      | some u => exact hx.elim
    | inside v₀ v => trivial
  | unlock k ih =>
    cases st with
    | out turn => trivial
    | inside v₀ v => exact ⟨hx.1, ih hx.2⟩
  | callout k ih =>
    cases st with
    | out turn =>
      have hk : Orderly view inv legal _ (.out turn) k := hx
      exact ih hk
    | inside v₀ v =>
      have hk : Orderly view inv legal _ (.inside v₀ v) k := hx
      exact ih hk
  | trap => cases st <;> trivial

end

/-! ## Calls that leave the view alone -/

/-- Before the call's turn, in it, or after it. -/
inductive Phase where
  | before
  | inside
  | after
  deriving Repr, DecidableEq

/-- Every access is within `R`, and the program locks the mutex once at most and returns without
it. -/
def Sealed (R : σ → σ → Prop) : Phase → Prog σ β → Prop
  | ph, .ret _ => ph ≠ .inside
  | ph, .access f k => ∀ s, R s (f s) ∧ Sealed R ph (k s)
  | .before, .lock k => Sealed R .inside k
  | .inside, .lock _ => True
  | .after, .lock _ => False
  | .before, .unlock _ => True
  | .inside, .unlock k => Sealed R .after k
  | .after, .unlock _ => True
  | ph, .callout k => Sealed R ph k
  | _, .trap => True

section

variable {R : σ → σ → Prop} {ph : Phase}

/-- A program that never locks may come before the turn as well as after it. -/
theorem Sealed.anywhere {x : Prog σ β} (hx : Sealed R .after x) (hph : ph ≠ .inside) :
    Sealed R ph x := by
  cases ph with
  | inside => exact absurd rfl hph
  | after => exact hx
  | before =>
    induction x with
    | ret b => exact hph
    | access f k ih => exact fun s => ⟨(hx s).1, ih s (hx s).2⟩
    | lock k ih => exact hx.elim
    | unlock k ih => trivial
    | callout k ih => exact ih hx
    | trap => trivial

theorem Sealed.bind {x : Prog σ γ} {f : γ → Prog σ β} (hx : Sealed R ph x)
    (hf : ∀ c, Sealed R .after (f c)) : Sealed R ph (x >>= f) := by
  induction x generalizing ph with
  | ret c => exact (hf c).anywhere (by cases ph <;> exact hx)
  | access u k ih => cases ph <;> exact fun s => ⟨(hx s).1, ih s (hx s).2⟩
  | lock k ih =>
    cases ph with
    | before =>
      have hk : Sealed R .inside k := hx
      exact ih hk
    | inside => trivial
    | after => exact hx
  | unlock k ih =>
    cases ph with
    | inside =>
      have hk : Sealed R .after k := hx
      exact ih hk
    | _ => trivial
  | callout k ih => cases ph <;> exact ih hx
  | trap => cases ph <;> trivial

/-- What does not synchronise stays where it is. -/
theorem Plain.sealed_bind {x : Prog σ γ} {f : γ → Prog σ β} (hx : Plain R x)
    (hf : ∀ c, Sealed R ph (f c)) : Sealed R ph (x >>= f) := by
  induction x with
  | ret c => exact hf c
  | access u k ih => cases ph <;> exact fun s => ⟨(hx s).1, ih s (hx s).2⟩
  | lock k ih => exact hx.elim
  | unlock k ih => exact hx.elim
  | callout k ih => exact hx.elim
  | trap => cases ph <;> trivial

theorem sealed_before (b : β) : Sealed R .before (ret b : Prog σ β) := nofun

theorem sealed_after (b : β) : Sealed R .after (ret b : Prog σ β) := nofun

section Simp

variable {b : β} {f : σ → σ} {k : σ → Prog σ β} {x y : Prog σ β} {c : Prop} [Decidable c]

@[simp] theorem sealed_ret : Sealed R ph (ret b : Prog σ β) ↔ ph ≠ .inside := by
  cases ph <;> exact Iff.rfl

@[simp] theorem sealed_access : Sealed R ph (access f k) ↔ ∀ s, R s (f s) ∧ Sealed R ph (k s) := by
  cases ph <;> exact Iff.rfl

@[simp] theorem sealed_lock : Sealed R .before (lock x) ↔ Sealed R .inside x := Iff.rfl

@[simp] theorem sealed_unlock : Sealed R .inside (unlock x) ↔ Sealed R .after x := Iff.rfl

@[simp] theorem sealed_release : Sealed R .inside release := nofun

@[simp] theorem sealed_callHost : Sealed R ph callHost ↔ ph ≠ .inside := by
  cases ph <;> exact Iff.rfl

@[simp] theorem sealed_ite :
    Sealed R ph (if c then x else y) ↔ (c → Sealed R ph x) ∧ (¬ c → Sealed R ph y) := by
  by_cases hc : c
  · simp [hc]
  · simp [hc]

end Simp

variable {view : σ → κ} {inv : σ → Prop} {legal : κ → κ → Prop}

/-- What does not synchronise and leaves the view alone stays where it is. -/
theorem Plain.orderly_bind (hR : ∀ s s', R s s' → inv s → inv s' ∧ view s' = view s)
    {post : Stage κ → β → Prop} {turn : Option (κ × κ)} {x : Prog σ γ} {f : γ → Prog σ β}
    (hx : Plain R x) (hf : ∀ c, Orderly view inv legal post (.out turn) (f c)) :
    Orderly view inv legal post (.out turn) (x >>= f) := by
  induction x with
  | ret c => exact hf c
  | access u k ih =>
    intro s hs
    obtain ⟨hinv, hview⟩ := hR _ _ (hx s).1 hs
    exact ⟨hinv, hview, ih s (hx s).2⟩
  | lock k ih => exact hx.elim
  | unlock k ih => exact hx.elim
  | callout k ih => exact hx.elim
  | trap => trivial

/-- **A sealed call is orderly**: its turn changes nothing. -/
theorem Sealed.orderly (hR : ∀ s s', R s s' → inv s → inv s' ∧ view s' = view s)
    (hlegal : ∀ v, legal v v) {x : Prog σ β} (hx : Sealed R .before x) :
    Orderly view inv legal (fun st _ => st.Idle) (.out none) x := by
  suffices h : (Sealed R .before x → Orderly view inv legal (fun st _ => st.Idle) (.out none) x) ∧
      ∀ v, (Sealed R .inside x → Orderly view inv legal (fun st _ => st.Idle) (.inside v v) x) ∧
        (Sealed R .after x →
          Orderly view inv legal (fun st _ => st.Idle) (.out (some (v, v))) x) from h.1 hx
  clear hx
  induction x with
  | ret b =>
    refine ⟨fun _ => nofun, fun v => ⟨fun hx => absurd rfl hx, fun _ u hu => ?_⟩⟩
    obtain rfl := Option.some.inj hu
    rfl
  | access f k ih =>
    refine ⟨fun hx s hs => ?_, fun v => ⟨fun hx s hs hv => ?_, fun hx s hs => ?_⟩⟩
    · obtain ⟨hinv, hview⟩ := hR _ _ (hx s).1 hs
      exact ⟨hinv, hview, (ih s).1 (hx s).2⟩
    · obtain ⟨hinv, hview⟩ := hR _ _ (hx s).1 hs
      rw [hview, hv]
      exact ⟨hinv, ((ih s).2 v).1 (hx s).2⟩
    · obtain ⟨hinv, hview⟩ := hR _ _ (hx s).1 hs
      exact ⟨hinv, hview, ((ih s).2 v).2 (hx s).2⟩
  | lock k ih => exact ⟨fun hx v => (ih.2 v).1 hx, fun _ => ⟨fun _ => trivial, fun hx => hx.elim⟩⟩
  | unlock k ih =>
    exact ⟨fun _ => trivial, fun v => ⟨fun hx => ⟨hlegal v, (ih.2 v).2 hx⟩, fun _ => trivial⟩⟩
  | callout k ih => exact ih
  | trap => exact ⟨fun _ => trivial, fun _ => ⟨fun _ => trivial, fun _ => trivial⟩⟩

/-- A sealed call that never locks the mutex takes no turn. -/
theorem Sealed.turnless (hR : ∀ s s', R s s' → inv s → inv s' ∧ view s' = view s)
    {turn : Option (κ × κ)} {x : Prog σ β} (hx : Sealed R .after x) :
    Orderly view inv legal (fun st _ => st = .out turn) (.out turn) x := by
  induction x with
  | ret b => rfl
  | access f k ih =>
    intro s hs
    obtain ⟨hinv, hview⟩ := hR _ _ (hx s).1 hs
    exact ⟨hinv, hview, ih s (hx s).2⟩
  | lock k ih => exact hx.elim
  | unlock k ih => trivial
  | callout k ih => exact ih hx
  | trap => trivial

end

/-! ## The turns of a run -/

/-- A turn: whose it was, in which call, and the view when it began and when it ended. -/
structure Turn (ι ε κ : Type) where
  who : ι
  entry : Option ε
  before : κ
  after : κ

/-- The view when the mutex was last taken, the turns so far, and the one each thread has had in its
current call. -/
structure Turns (ι ε κ : Type) where
  since : κ
  done : List (Turn ι ε κ)
  had : ι → Option (κ × κ)

/-- The turns lead from one view to another, each beginning with the view the one before it ended
with. -/
inductive Serial (v₀ : κ) : List (Turn ι ε κ) → κ → Prop
  | nil : Serial v₀ [] v₀
  | snoc {us : List (Turn ι ε κ)} {u : Turn ι ε κ} (h : Serial v₀ us u.before) :
      Serial v₀ (us ++ [u]) u.after

/-- A part of a sequential history is one. -/
theorem Serial.split {v₀ v : κ} {us ws : List (Turn ι ε κ)} (h : Serial v₀ (us ++ ws) v) :
    ∃ v₁, Serial v₀ us v₁ ∧ Serial v₁ ws v := by
  induction ws using List.reverseRecOn generalizing v with
  | nil => exact ⟨v, by rwa [List.append_nil] at h, .nil⟩
  | append_singleton ws w ih =>
    rw [← List.append_assoc] at h
    generalize hl : us ++ ws ++ [w] = l at h
    cases h with
    | nil => simp at hl
    | @snoc us' u h =>
      obtain ⟨rfl, hw⟩ := List.append_inj' hl rfl
      obtain rfl : w = u := by simpa using hw
      obtain ⟨v₁, h₁, h₂⟩ := ih h
      exact ⟨v₁, h₁, .snoc h₂⟩

theorem serial_nil {v₀ v : κ} (h : Serial v₀ ([] : List (Turn ι ε κ)) v) : v = v₀ := by
  generalize hl : ([] : List (Turn ι ε κ)) = l at h
  cases h with
  | nil => rfl
  | snoc _ => simp at hl

theorem serial_single {v₀ v : κ} {u : Turn ι ε κ} (h : Serial v₀ [u] v) :
    u.before = v₀ ∧ v = u.after := by
  generalize hl : [u] = l at h
  cases h with
  | nil => cases hl
  | @snoc us u' hnil =>
    obtain ⟨rfl, hu⟩ := List.append_inj' (show [] ++ [u] = us ++ [u'] from hl) rfl
    obtain rfl : u = u' := by simpa using hu
    exact ⟨serial_nil hnil, rfl⟩

/-- The last turn of a sequential history. -/
theorem Serial.last {v₀ v : κ} {us : List (Turn ι ε κ)} {u : Turn ι ε κ}
    (h : Serial v₀ (us ++ [u]) v) : v = u.after := by
  obtain ⟨v₁, -, hlast⟩ := h.split
  exact (serial_single hlast).2

/-- The first turn of a sequential history. -/
theorem Serial.uncons {v₀ v : κ} {u : Turn ι ε κ} {us : List (Turn ι ε κ)}
    (h : Serial v₀ (u :: us) v) : u.before = v₀ ∧ Serial u.after us v := by
  have happend : Serial v₀ ([u] ++ us) v := h
  obtain ⟨v₁, hfirst, hrest⟩ := happend.split
  obtain ⟨hbefore, rfl⟩ := serial_single hfirst
  exact ⟨hbefore, hrest⟩

variable [DecidableEq ι]

namespace Turns

/-- No turns yet. -/
def none (v : κ) : Turns ι ε κ := ⟨v, [], fun _ => .none⟩

variable (view : σ → κ)

/-- The turns after a step. -/
def track (g : Turns ι ε κ) (p : Pool ι σ ε β) (a : Act ι ε) (_ : Pool ι σ ε β) : Turns ι ε κ :=
  match a with
  | .call t _ => { g with had := Function.update g.had t .none }
  | .tick t =>
    match p.thread t with
    | .lock _ => { g with since := view p.shared }
    | .unlock _ =>
      { g with
        done := g.done ++ [⟨t, p.entry t, g.since, view p.shared⟩]
        had := Function.update g.had t (some (g.since, view p.shared)) }
    | _ => g

@[simp] theorem track_call_self (g : Turns ι ε κ) (p q : Pool ι σ ε β) (t : ι) (e : ε) :
    (g.track view p (.call t e) q).had t = .none := Function.update_self ..

theorem track_call_other (g : Turns ι ε κ) (p q : Pool ι σ ε β) {t u : ι} {e : ε} (hu : u ≠ t) :
    (g.track view p (.call t e) q).had u = g.had u := Function.update_of_ne hu ..

section

variable {g : Turns ι ε κ} {p q : Pool ι σ ε β} {t : ι}

theorem track_access {f : σ → σ} {k : σ → Prog σ β} (h : p.thread t = .access f k) :
    g.track view p (.tick t) q = g := by
  unfold track
  dsimp only
  rw [h]

theorem track_callout {k : Prog σ β} (h : p.thread t = .callout k) :
    g.track view p (.tick t) q = g := by
  unfold track
  dsimp only
  rw [h]

theorem track_lock {k : Prog σ β} (h : p.thread t = .lock k) :
    g.track view p (.tick t) q = { g with since := view p.shared } := by
  unfold track
  dsimp only
  rw [h]

theorem track_unlock {k : Prog σ β} (h : p.thread t = .unlock k) :
    g.track view p (.tick t) q = { g with
      done := g.done ++ [⟨t, p.entry t, g.since, view p.shared⟩]
      had := Function.update g.had t (some (g.since, view p.shared)) } := by
  unfold track
  dsimp only
  rw [h]

end

/-- The view the next turn will begin with, if the one that is on leaves no trace. -/
def standing (g : Turns ι ε κ) (p : Pool ι σ ε β) : κ :=
  if p.owner = .none then view p.shared else g.since

/-- Where a thread stands. -/
def stage (g : Turns ι ε κ) (p : Pool ι σ ε β) (t : ι) : Stage κ :=
  if p.owner = some t then .inside g.since (view p.shared) else .out (g.had t)

end Turns

namespace Pool

variable (view : σ → κ) (inv : σ → Prop) (legal : ε → κ → κ → Prop)
  (post : ε → Stage κ → β → Prop)

/-- The turns so far are one sequential history of the view, each legal for its call, and the calls
are orderly. -/
structure Turned (v₀ : κ) (g : Turns ι ε κ) (p : Pool ι σ ε β) : Prop where
  holds : inv p.shared
  serial : Serial v₀ g.done (g.standing view p)
  allowed : ∀ u ∈ g.done, ∃ e, u.entry = some e ∧ legal e u.before u.after
  mine : ∀ t v v', g.had t = some (v, v') → ⟨t, p.entry t, v, v'⟩ ∈ g.done
  first : ∀ t, p.owner = some t → g.had t = none
  calls : ∀ t, (p.entry t = none ∧ p.owner ≠ some t ∧ ∃ b, p.thread t = .ret b) ∨
    ∃ e, p.entry t = some e ∧
      Orderly view inv (legal e) (post e) (g.stage view p t) (p.thread t)

variable {view inv legal post} {start : ι → ε → β → Option (Prog σ β)} {v₀ : κ}
  {g : Turns ι ε κ} {p q : Pool ι σ ε β} {a : Act ι ε}

theorem turned_init {s₀ : σ} {b₀ : ι → β} (hs : inv s₀) :
    Turned view inv legal post (view s₀) (Turns.none (view s₀))
      (Pool.init s₀ b₀ : Pool ι σ ε β) where
  holds := hs
  serial := .nil
  allowed := fun _ hu => absurd hu List.not_mem_nil
  mine := fun _ _ _ h => nomatch h
  first := fun _ h => nomatch h
  calls := fun _ => .inl ⟨rfl, nofun, _, rfl⟩

theorem Turns.stage_holder {t : ι} (h : p.owner = some t) :
    g.stage view p t = .inside g.since (view p.shared) := if_pos h

theorem Turns.stage_other {t : ι} (h : p.owner ≠ some t) : g.stage view p t = .out (g.had t) :=
  if_neg h

theorem Turns.stage_advance_holder {t u : ι} {k : Prog σ β} {o : Option ι} {s : σ}
    (h : o = some u) : g.stage view (p.advance t k o s) u = .inside g.since (view s) := if_pos h

theorem Turns.stage_advance_other {t u : ι} {k : Prog σ β} {o : Option ι} {s : σ}
    (h : o ≠ some u) : g.stage view (p.advance t k o s) u = .out (g.had u) := if_neg h

/-- An idle thread does not hold the mutex, if calls return without it. -/
theorem Turned.idle (h : Turned view inv legal post v₀ g p)
    (hpost : ∀ e st b, post e st b → ∃ turn, st = .out turn) {t : ι} {b : β}
    (hret : p.thread t = .ret b) : p.owner ≠ some t := by
  rcases h.calls t with ⟨-, hfree, -⟩ | ⟨e, -, ho⟩
  · exact hfree
  · intro howner
    rw [hret, Turns.stage_holder howner] at ho
    obtain ⟨turn, hturn⟩ := hpost _ _ _ ho
    cases hturn

/-- A step that neither ends a turn nor begins a call: whoever else is in a call stays orderly. -/
theorem Turned.advance (h : Turned view inv legal post v₀ g p) {t : ι} {k : Prog σ β}
    {o : Option ι} {s : σ} {g' : Turns ι ε κ} {e : ε} (hentry : p.entry t = some e) (hs : inv s)
    (hserial : Serial v₀ g'.done (g'.standing view (p.advance t k o s)))
    (hallowed : ∀ u ∈ g'.done, ∃ e, u.entry = some e ∧ legal e u.before u.after)
    (hmine : ∀ t v v', g'.had t = some (v, v') → ⟨t, p.entry t, v, v'⟩ ∈ g'.done)
    (hfirst : ∀ u, o = some u → g'.had u = none)
    (hself : Orderly view inv (legal e) (post e) (g'.stage view (p.advance t k o s) t) k)
    (hothers : ∀ u ≠ t, (o = some u ↔ p.owner = some u) ∧ g'.had u = g.had u ∧
      (p.owner = some u → g'.since = g.since ∧ view s = view p.shared)) :
    Turned view inv legal post v₀ g' (p.advance t k o s) where
  holds := hs
  serial := hserial
  allowed := hallowed
  mine := hmine
  first := hfirst
  calls := by
    intro u
    by_cases hu : u = t
    · subst hu
      exact .inr ⟨e, hentry, by rwa [advance_thread]⟩
    · obtain ⟨howner, hhad, hview⟩ := hothers u hu
      rw [advance_entry, advance_owner, advance_thread_ne _ _ _ _ hu]
      refine (h.calls u).imp (fun ⟨h₁, h₂, h₃⟩ => ⟨h₁, fun ho => h₂ (howner.mp ho), h₃⟩) ?_
      rintro ⟨e', he', ho'⟩
      refine ⟨e', he', ?_⟩
      by_cases hheld : p.owner = some u
      · obtain ⟨hsince, hsame⟩ := hview hheld
        rw [Turns.stage_advance_holder (howner.mpr hheld), hsince, hsame,
          ← Turns.stage_holder hheld]
        exact ho'
      · rw [Turns.stage_advance_other fun ho => hheld (howner.mp ho), hhad,
          ← Turns.stage_other hheld]
        exact ho'

/-- The thread that acts is in a call. -/
theorem Turned.acts (h : Turned view inv legal post v₀ g p) {t : ι}
    (hstep : Step start p (.tick t) q) : ∃ e, p.entry t = some e ∧
      Orderly view inv (legal e) (post e) (g.stage view p t) (p.thread t) := by
  rcases h.calls t with ⟨-, -, b, hret⟩ | h
  · exact absurd hret hstep.not_tick
  · exact h

theorem Turned.tick (h : Turned view inv legal post v₀ g p) {t : ι}
    (hstep : Step start p (.tick t) q) :
    Turned view inv legal post v₀ (g.track view p (.tick t) q) q := by
  obtain ⟨e, he, ho⟩ := h.acts hstep
  cases hstep with
  | @access _ f k hp =>
    rw [hp] at ho
    rw [Turns.track_access view hp]
    by_cases hheld : p.owner = some t
    · rw [Turns.stage_holder hheld] at ho
      obtain ⟨hinv, hk⟩ := ho _ h.holds rfl
      refine h.advance he hinv ?_ h.allowed h.mine h.first ?_ fun u hu =>
        ⟨Iff.rfl, rfl, fun hu' => ?_⟩
      · have hserial := h.serial
        unfold Turns.standing at hserial ⊢
        rw [if_neg (by simp [hheld])] at hserial
        rwa [advance_owner, if_neg (by simp [hheld])]
      · rwa [Turns.stage_advance_holder hheld]
      · exact absurd (Option.some.inj (hu'.symm.trans hheld)) hu
    · rw [Turns.stage_other hheld] at ho
      obtain ⟨hinv, hview, hk⟩ := ho _ h.holds
      refine h.advance he hinv ?_ h.allowed h.mine h.first ?_ fun u _ =>
        ⟨Iff.rfl, rfl, fun _ => ⟨rfl, hview⟩⟩
      · have hserial := h.serial
        unfold Turns.standing at hserial ⊢
        rwa [advance_owner, advance_shared, hview]
      · rwa [Turns.stage_advance_other hheld]
  | @lock _ k hp hfree =>
    rw [hp] at ho
    rw [Turns.track_lock view hp]
    rw [Turns.stage_other (by simp [hfree])] at ho
    obtain ⟨hnone, hk⟩ := orderly_lock ho
    refine h.advance he h.holds ?_ h.allowed h.mine ?_ ?_ fun u hu => ⟨?_, rfl, fun hu' => ?_⟩
    · have hserial := h.serial
      unfold Turns.standing at hserial ⊢
      rw [if_pos hfree] at hserial
      rwa [advance_owner, if_neg (by simp)]
    · rintro u ⟨⟩
      exact hnone
    · rw [Turns.stage_advance_holder rfl]
      exact hk _
    · rw [hfree]
      simp [Ne.symm hu]
    · rw [hfree] at hu'
      cases hu'
  | @unlock _ k hp hheld =>
    rw [hp] at ho
    rw [Turns.track_unlock view hp]
    rw [Turns.stage_holder hheld] at ho
    obtain ⟨hlegal, hk⟩ := ho
    refine h.advance he h.holds ?_ ?_ ?_ nofun ?_ fun u hu => ⟨?_, ?_, fun hu' => ?_⟩
    · have hserial := h.serial
      unfold Turns.standing at hserial ⊢
      rw [if_neg (by simp [hheld])] at hserial
      rw [advance_owner, if_pos rfl]
      exact .snoc (u := ⟨t, p.entry t, g.since, view p.shared⟩) hserial
    · intro u hu
      rcases List.mem_append.mp hu with hu | hu
      · exact h.allowed u hu
      · obtain rfl := List.mem_singleton.mp hu
        exact ⟨e, he, hlegal⟩
    · intro u v v' hu
      dsimp only at hu
      by_cases hut : u = t
      · subst hut
        rw [Function.update_self] at hu
        cases hu
        exact List.mem_append_right _ (List.mem_singleton_self _)
      · rw [Function.update_of_ne hut] at hu
        exact List.mem_append_left _ (h.mine u v v' hu)
    · rw [Turns.stage_advance_other (by simp)]
      dsimp only
      rwa [Function.update_self]
    · simp [hheld, Ne.symm hu]
    · exact Function.update_of_ne hu ..
    · exact absurd (Option.some.inj (hu'.symm.trans hheld)) hu
  | @callout _ k hp =>
    rw [hp] at ho
    rw [Turns.track_callout view hp]
    refine h.advance he h.holds h.serial h.allowed h.mine h.first ?_ fun u _ =>
      ⟨Iff.rfl, rfl, fun _ => ⟨rfl, rfl⟩⟩
    by_cases hheld : p.owner = some t
    · rw [Turns.stage_holder hheld] at ho
      rw [Turns.stage_advance_holder hheld]
      exact ho
    · rw [Turns.stage_other hheld] at ho
      rw [Turns.stage_advance_other hheld]
      exact ho

/-- A call begins with no turn. -/
theorem Turned.call (h : Turned view inv legal post v₀ g p)
    (hpost : ∀ e st b, post e st b → ∃ turn, st = .out turn) {t : ι} {e : ε}
    (hstart : ∀ b k, start t e b = some k → Orderly view inv (legal e) (post e) (.out none) k)
    (hstep : Step start p (.call t e) q) :
    Turned view inv legal post v₀ (g.track view p (.call t e) q) q := by
  cases hstep with
  | @call _ _ b k hret hk =>
    have hfree := h.idle hpost hret
    refine ⟨h.holds, h.serial, h.allowed, fun u v v' hu => ?_, fun u hu => ?_, fun u => ?_⟩
    · by_cases hut : u = t
      · subst hut
        rw [Turns.track_call_self] at hu
        cases hu
      · rw [Turns.track_call_other _ _ _ _ hut] at hu
        rw [begin_entry_ne _ _ _ hut]
        exact h.mine u v v' hu
    · have hut : u ≠ t := fun hut => hfree (hut ▸ hu)
      rw [Turns.track_call_other _ _ _ _ hut]
      exact h.first u hu
    · by_cases hut : u = t
      · subst hut
        refine .inr ⟨e, begin_entry .., ?_⟩
        rw [begin_thread]
        unfold Turns.stage
        rw [begin_owner, if_neg hfree, Turns.track_call_self]
        exact hstart b k hk
      · rw [begin_entry_ne _ _ _ hut, begin_thread_ne _ _ _ hut]
        refine (h.calls u).imp id fun ⟨e', he', ho'⟩ => ⟨e', he', ?_⟩
        unfold Turns.stage at ho' ⊢
        rw [Turns.track_call_other _ _ _ _ hut]
        exact ho'

/-- A call that has returned did so within `post`, after the turn it has had. -/
theorem Turned.returned (h : Turned view inv legal post v₀ g p)
    (hpost : ∀ e st b, post e st b → ∃ turn, st = .out turn) {t : ι} {e : ε} {b : β}
    (hret : p.thread t = .ret b) (hentry : p.entry t = some e) : post e (.out (g.had t)) b := by
  have hfree := h.idle hpost hret
  rcases h.calls t with ⟨hnone, -⟩ | ⟨e', he', ho⟩
  · rw [hentry] at hnone
    cases hnone
  · obtain rfl : e = e' := Option.some.inj (hentry.symm.trans he')
    rw [hret, Turns.stage_other hfree] at ho
    exact ho

section

variable {ok : Turns ι ε κ → Pool ι σ ε β → Act ι ε → Pool ι σ ε β → Prop}
  (hpost : ∀ e st b, post e st b → ∃ turn, st = .out turn)
  (hstart : ∀ g p t e q b k, ok g p (.call t e) q → start t e b = some k →
    Orderly view inv (legal e) (post e) (.out none) k)
include hpost hstart

theorem Turned.step (h : Turned view inv legal post v₀ g p) (hok : ok g p a q)
    (hnext : p.next start a = some q) :
    Turned view inv legal post v₀ (g.track view p a q) q := by
  have hstep := step_of_next hnext
  cases a with
  | call t e => exact h.call hpost (fun b k => hstart g p t e q b k hok) hstep
  | tick t => exact h.tick hstep

end

end Pool

end Conc
