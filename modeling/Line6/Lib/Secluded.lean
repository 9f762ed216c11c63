import Line6.Lib.Announce

/-!
# A thread nobody disturbs

`Secluded view x`: the program `x` reads and changes the shared state only as far as `view` shows
it, and neither touches the mutex nor calls out. `Serves start`: the calls of one thread, one after
another, with nobody else around.

* `Secluded.exec`: such a program does not notice the rest of the state.
* `Pool.serves_of_run`: in a pool whose other threads leave `view` alone, a secluded thread gets
  from its calls what it would get alone, and leaves the `view` it would leave alone.
* `Pool.run_of_serves`: to run alone is one of the things a pool can do.
-/

namespace Conc

open Prog

variable {σ β γ ω ε : Type}

/-! ## Programs that see a part of the state -/

/-- Accesses to what `view` shows, and nothing else. -/
def Secluded (view : σ → ω) : Prog σ β → Prop
  | .ret _ => True
  | .access u k => (∀ s s', view s = view s' → view (u s) = view (u s') ∧ k s = k s') ∧
      ∀ s, Secluded view (k s)
  | .lock _ => False
  | .unlock _ => False
  | .callout _ => False
  | .trap => True

variable {view : σ → ω}

theorem Secluded.bind {p : Prog σ β} {f : β → Prog σ γ} (hp : Secluded view p)
    (hf : ∀ b, Secluded view (f b)) : Secluded view (p >>= f) := by
  induction p with
  | ret b => exact hf b
  | access u k ih =>
    refine ⟨fun s s' h => ?_, fun s => ih s (hp.2 s)⟩
    obtain ⟨hupd, hk⟩ := hp.1 s s' h
    refine ⟨hupd, ?_⟩
    show k s >>= f = k s' >>= f
    rw [hk]
  | lock k ih => exact hp
  | unlock k ih => exact hp
  | callout k ih => exact hp
  | trap => trivial

/-- Reading what is shown. -/
theorem secluded_rd (f : ω → β) : Secluded view (rd fun s => f (view s)) := by
  refine ⟨fun s s' h => ⟨h, ?_⟩, fun s => trivial⟩
  show ret (f (view s)) = ret (f (view s'))
  rw [h]

/-- Writing what is shown. -/
theorem secluded_wr {u : σ → σ} {v : ω → ω} (hu : ∀ s, view (u s) = v (view s)) :
    Secluded view (wr u) := by
  refine ⟨fun s s' h => ⟨?_, rfl⟩, fun s => trivial⟩
  rw [hu, hu, h]

/-- **The rest of the state is not noticed**: same end, same result, and the same is shown. -/
theorem Secluded.exec {p : Prog σ β} (hp : Secluded view p) {l l' : Bool} {s s' t : σ} {b : β}
    (h : view s = view s') (hexec : exec p l s = .done l' t b) :
    ∃ t', Conc.exec p l s' = .done l' t' b ∧ view t = view t' := by
  induction p generalizing s s' with
  | ret c =>
    cases hexec
    exact ⟨s', rfl, h⟩
  | access u k ih =>
    obtain ⟨hupd, hk⟩ := hp.1 s s' h
    obtain ⟨t', hexec', hview⟩ := ih s (hp.2 s) hupd hexec
    refine ⟨t', ?_, hview⟩
    rw [exec_access, ← hk]
    exact hexec'
  | lock k ih => exact hp.elim
  | unlock k ih => exact hp.elim
  | callout k ih => exact hp.elim
  | trap => cases hexec

/-! ## Calls one after another -/

section

variable (start : ε → β → Option (Prog σ β))

/-- The calls, one after another. -/
inductive Serves (b₀ : β) (s₀ : σ) : List ε → β → σ → Prop
  | none : Serves b₀ s₀ [] b₀ s₀
  | call {es : List ε} {e : ε} {b b' : β} {s s' : σ} {k : Prog σ β} (h : Serves b₀ s₀ es b s)
      (hk : start e b = some k) (hexec : exec k false s = .done false s' b') :
      Serves b₀ s₀ (es ++ [e]) b' s'

variable {start} {b₀ b b' b'' : β} {s₀ s s' s'' : σ} {es es' : List ε} {e : ε}

theorem Serves.append (h : Serves start b₀ s₀ es b s) (h' : Serves start b s es' b' s') :
    Serves start b₀ s₀ (es ++ es') b' s' := by
  induction h' with
  | none => rwa [List.append_nil]
  | call _ hk hexec ih =>
    rw [← List.append_assoc]
    exact ih.call hk hexec

theorem Serves.snoc_inv (h : Serves start b₀ s₀ (es ++ [e]) b' s') :
    ∃ b s k, Serves start b₀ s₀ es b s ∧ start e b = some k ∧
      exec k false s = .done false s' b' := by
  generalize hes : es ++ [e] = es' at h
  cases h with
  | none => exact absurd hes (by simp)
  | call h hk hexec =>
    obtain ⟨rfl, hlast⟩ := List.append_inj' hes rfl
    cases hlast
    exact ⟨_, _, _, h, hk, hexec⟩

/-- **The calls decide the outcome**, from the same `view`. -/
theorem Serves.same {s₀' : σ} (hstart : ∀ e b k, start e b = some k → Secluded view k)
    (hview : view s₀ = view s₀') (h : Serves start b₀ s₀ es b s)
    (h' : Serves start b₀ s₀' es b' s') : b = b' ∧ view s = view s' := by
  induction h generalizing b' s' with
  | none =>
    generalize hes : ([] : List ε) = es' at h'
    cases h' with
    | none => exact ⟨rfl, hview⟩
    | call => exact absurd hes (by simp)
  | call h hk hexec ih =>
    obtain ⟨b₁, s₁, k₁, h₁, hk₁, hexec₁⟩ := h'.snoc_inv
    obtain ⟨rfl, hsame⟩ := ih h₁
    obtain rfl := Option.some.inj (hk.symm.trans hk₁)
    obtain ⟨s₂, hexec₂, hview₂⟩ := (hstart _ _ _ hk).exec hsame hexec
    have heq := hexec₂.symm.trans hexec₁
    cases heq
    exact ⟨rfl, hview₂⟩

/-- From another state with the same `view`. -/
theorem Serves.transfer {s₀' : σ} (hstart : ∀ e b k, start e b = some k → Secluded view k)
    (hview : view s₀ = view s₀') (h : Serves start b₀ s₀ es b s) :
    ∃ s', Serves start b₀ s₀' es b s' ∧ view s = view s' := by
  induction h with
  | none => exact ⟨s₀', .none, hview⟩
  | call _ hk hexec ih =>
    obtain ⟨s₁, h₁, hview₁⟩ := ih
    obtain ⟨s₂, hexec₂, hview₂⟩ := (hstart _ _ _ hk).exec hview₁ hexec
    exact ⟨s₂, h₁.call hk hexec₂, hview₂⟩

end

/-! ## One thread of a pool -/

namespace Pool

variable {ι : Type} [DecidableEq ι] {start : ι → ε → β → Option (Prog σ β)} {p q : Pool ι σ ε β}
  {t : ι} {b₀ b : β} {s₀ s : σ} {es : List ε} {as : List (Act ι ε)} {a : Act ι ε}

/-- The calls of thread `t`. -/
def callsOf (t : ι) (as : List (Act ι ε)) : List ε :=
  as.filterMap fun
    | .call u e => if u = t then some e else none
    | .tick _ => none

theorem callsOf_append (t : ι) (as bs : List (Act ι ε)) :
    callsOf t (as ++ bs) = callsOf t as ++ callsOf t bs := List.filterMap_append

theorem callsOf_call (t : ι) (as : List (Act ι ε)) (e : ε) :
    callsOf t (as ++ [.call t e]) = callsOf t as ++ [e] := by
  rw [callsOf_append]
  simp [callsOf]

theorem callsOf_other (as : List (Act ι ε)) (ha : ∀ e, a ≠ .call t e) :
    callsOf t (as ++ [a]) = callsOf t as := by
  rw [callsOf_append]
  cases a with
  | tick u => exact List.append_nil _
  | call u e =>
    have hu : u ≠ t := fun h => ha e (by rw [h])
    simp [callsOf, hu]

/-- Thread `t` is as far as it would be alone: between two calls, or within one. -/
inductive Serving (start : ι → ε → β → Option (Prog σ β)) (view : σ → ω) (t : ι) (b₀ : β) (s₀ : σ) :
    List ε → Pool ι σ ε β → Prop
  | idle {p : Pool ι σ ε β} {es : List ε} {b : β} {s : σ}
      (hserves : Serves (start t) b₀ s₀ es b s) (hret : p.thread t = .ret b)
      (hview : view s = view p.shared) : Serving start view t b₀ s₀ es p
  | busy {p : Pool ι σ ε β} {es : List ε} {e : ε} {b : β} {s s' : σ} {k : Prog σ β}
      (hserves : Serves (start t) b₀ s₀ es b s) (hk : start t e b = some k)
      (hexec : exec k false s = exec (p.thread t) false s') (hview : view s' = view p.shared)
      (hsecluded : Secluded view (p.thread t)) : Serving start view t b₀ s₀ (es ++ [e]) p

omit [DecidableEq ι] in
/-- When it is idle, its calls are done. -/
theorem Serving.done (h : Serving start view t b₀ s₀ es p) (hret : p.thread t = .ret b) :
    ∃ s, Serves (start t) b₀ s₀ es b s ∧ view s = view p.shared := by
  cases h with
  | idle hserves hret' hview =>
    cases hret'.symm.trans hret
    exact ⟨_, hserves, hview⟩
  | busy hserves hk hexec hview =>
    rw [hret] at hexec
    exact ⟨_, hserves.call hk hexec, hview⟩

omit [DecidableEq ι] in
/-- A step of another thread. -/
theorem Serving.other (h : Serving start view t b₀ s₀ es p) (hthread : q.thread t = p.thread t)
    (hshared : view q.shared = view p.shared) : Serving start view t b₀ s₀ es q := by
  cases h with
  | idle hserves hret hview => exact .idle hserves (hthread.trans hret) (hview.trans hshared.symm)
  | busy hserves hk hexec hview hsecluded =>
    rw [← hthread] at hexec hsecluded
    exact .busy hserves hk hexec (hview.trans hshared.symm) hsecluded

/-- A step of its own. -/
theorem Serving.tick (h : Serving start view t b₀ s₀ es p) (hstep : Step start p (.tick t) q) :
    Serving start view t b₀ s₀ es q := by
  cases h with
  | idle _ hret _ => exact absurd hret hstep.not_tick
  | busy hserves hk hexec hview hsecluded =>
    cases hstep with
    | access hp =>
      rw [hp] at hexec hsecluded
      obtain ⟨hupd, hsame⟩ := hsecluded.1 _ _ hview
      refine .busy hserves hk ?_ hupd ?_
      · rw [advance_thread, hexec, exec_access, hsame]
      · rw [advance_thread]
        exact hsecluded.2 _
    | lock hp _ =>
      rw [hp] at hsecluded
      exact hsecluded.elim
    | unlock hp _ =>
      rw [hp] at hsecluded
      exact hsecluded.elim
    | callout hp =>
      rw [hp] at hsecluded
      exact hsecluded.elim

section

variable (hstart : ∀ e b k, start t e b = some k → Secluded view k)
  (hothers : ∀ u, u ≠ t → ∀ e b k, start u e b = some k →
    Keeps (fun s s' => view s' = view s) k)
include hstart hothers

/-- **A thread that is disturbed by nobody** is at every point of a run as far as it would be
alone. -/
theorem serving_run {ok : Pool ι σ ε β → Act ι ε → Prop} {bs : ι → β}
    (hrun : Run start ok (init s₀ bs) as p) :
    Serving start view t (bs t) s₀ (callsOf t as) p ∧
      ∀ u, u ≠ t → Keeps (fun s s' => view s' = view s) (p.thread u) := by
  induction hrun with
  | refl => exact ⟨.idle .none rfl rfl, fun u _ => trivial⟩
  | @tail as a p q _ _ hnext ih =>
    obtain ⟨hserving, hkeep⟩ := ih
    have hstep := step_of_next hnext
    cases a with
    | call u e =>
      cases hstep with
      | @call _ _ b k hret hk =>
        by_cases hu : u = t
        · subst hu
          obtain ⟨s, hserves, hview⟩ := hserving.done hret
          rw [callsOf_call]
          refine ⟨.busy hserves hk ?_ hview ?_, fun v hv => ?_⟩
          · rw [begin_thread]
          · rw [begin_thread]
            exact hstart e b k hk
          · rw [begin_thread_ne _ _ _ hv]
            exact hkeep v hv
        · have hcalls : callsOf t (as ++ [.call u e]) = callsOf t as :=
            callsOf_other as fun e' h => hu (by cases h; rfl)
          rw [hcalls]
          refine ⟨hserving.other (begin_thread_ne _ _ _ (Ne.symm hu)) rfl, fun v hv => ?_⟩
          by_cases hvu : v = u
          · rw [hvu, begin_thread]
            exact hothers u hu e b k hk
          · rw [begin_thread_ne _ _ _ hvu]
            exact hkeep v hv
    | tick u =>
      have hcalls : callsOf t (as ++ [.tick u]) = callsOf t as :=
        callsOf_other as fun _ h => by cases h
      rw [hcalls]
      by_cases hu : u = t
      · subst hu
        refine ⟨hserving.tick hstep, fun v hv => ?_⟩
        rw [(hstep.other (Ne.symm hv)).1]
        exact hkeep v hv
      · have hrefl (s : σ) : view s = view s := rfl
        obtain ⟨hsame, hrest⟩ := keeps_tick hrefl hstep (hkeep u hu)
        refine ⟨hserving.other (hstep.other hu).1 hsame, fun v hv => ?_⟩
        by_cases hvu : v = u
        · rw [hvu]
          exact hrest
        · rw [(hstep.other (Ne.symm hvu)).1]
          exact hkeep v hv

/-- **Its calls return what they would alone**, and leave what they would alone. -/
theorem serves_of_run {ok : Pool ι σ ε β → Act ι ε → Prop} {bs : ι → β}
    (hrun : Run start ok (init s₀ bs) as p) (hret : p.thread t = .ret b) :
    ∃ s, Serves (start t) (bs t) s₀ (callsOf t as) b s ∧ view s = view p.shared :=
  (serving_run hstart hothers hrun).1.done hret

end

/-- **To run alone** is one of the ways. -/
theorem run_of_serves {bs : ι → β} (h : Serves (start t) (bs t) s₀ es b s) :
    ∃ as q, Run start Free (init s₀ bs) as q ∧ (∀ a ∈ as, a.by = t) ∧ callsOf t as = es ∧
      q.thread t = .ret b ∧ q.shared = s ∧ q.owner = none := by
  induction h with
  | none => exact ⟨[], _, .refl, nofun, rfl, rfl, rfl, rfl⟩
  | @call es e b b' s s' k _ hk hexec ih =>
    obtain ⟨as, q, hrun, hby, hcalls, hret, hshared, howner⟩ := ih
    have hbegin : q.next start (.call t e) = some (q.begin t e k) := by
      simp only [next, hret, hk, Option.map_some]
    have halone : ∃ n q', Run start Free (q.begin t e k) (List.replicate n (.tick t)) q' ∧
        q'.thread t = .ret b' ∧ q'.shared = s' ∧ q'.owner = none :=
      run_alone hexec (begin_thread ..) hshared howner
    obtain ⟨n, q', hticks, hret', hshared', howner'⟩ := halone
    refine ⟨as ++ [.call t e] ++ List.replicate n (.tick t), q',
      (hrun.tail trivial hbegin).append hticks, ?_, ?_, hret', hshared', howner'⟩
    · intro a ha
      rcases List.mem_append.mp ha with ha | ha
      · rcases List.mem_append.mp ha with ha | ha
        · exact hby a ha
        · rw [List.mem_singleton.mp ha]
          rfl
      · rw [List.eq_of_mem_replicate ha]
        rfl
    · have hnone : callsOf t (List.replicate n (Act.tick t : Act ι ε)) = [] :=
        List.filterMap_eq_nil_iff.mpr fun a ha => by rw [List.eq_of_mem_replicate ha]
      rw [callsOf_append, callsOf_call, hcalls, hnone, List.append_nil]

end Pool

end Conc
