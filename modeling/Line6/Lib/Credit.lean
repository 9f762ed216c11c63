import Mathlib.Data.Finset.Card
import Line6.Lib.Turns

/-!
# Counters that stop at zero

A counter goes up in the turns of one class of calls and down in those of another, but never below
zero. It counts what is outstanding as long as nobody gives back more than there is. What is given
out without counting it (`free` calls) is credit: there may be as much more outstanding.

* `Covered.counts`: along a sequential history whose downs are covered, the counter is what it was
  with the ups and without the downs, up to the credit.
* `Owing.step`: there are no more turns of a class than calls of it.
* `solvent_covered`: if a call that gives back is made only while something is outstanding that
  nobody is giving back already, the downs of every run are covered.
-/

namespace Conc

open Prog Pool

variable {ι σ ε β κ : Type}

/-! ## Along a sequential history -/

/-- The turns of calls of a class. -/
def turnsOf (cls : ε → Bool) (us : List (Turn ι ε κ)) : Nat := us.countP fun u => u.entry.any cls

@[simp] theorem turnsOf_nil (cls : ε → Bool) : turnsOf cls ([] : List (Turn ι ε κ)) = 0 := rfl

theorem turnsOf_snoc (cls : ε → Bool) (us : List (Turn ι ε κ)) (u : Turn ι ε κ) :
    turnsOf cls (us ++ [u]) = turnsOf cls us + if u.entry.any cls then 1 else 0 := by
  unfold turnsOf
  rw [List.countP_append, List.countP_singleton]

section

variable (up down : ε → Bool)

/-- At no time are there more downs than ups and credit. -/
def Covered (credit : Nat) (us : List (Turn ι ε κ)) : Prop :=
  ∀ ws, ws <+: us → turnsOf down ws ≤ credit + turnsOf up ws

/-- A turn moves the counter of modulus `M` like its call's class says. -/
structure Moves (count : κ → Nat) (M : Nat) (u : Turn ι ε κ) : Prop where
  raises : u.entry.any up = true → count u.after = (count u.before + 1) % M
  lowers : u.entry.any down = true → u.entry.any up = false ∧ count u.after = count u.before - 1
  stays : u.entry.any up = false → u.entry.any down = false → count u.after = count u.before

variable {up down} {credit : Nat} {us : List (Turn ι ε κ)} {u : Turn ι ε κ}

/-- A turn of a call that goes up, or down, or neither. -/
theorem moves_of_eq {count : κ → Nat} {M : Nat} {e : ε} (hu : u.entry = some e)
    (hexcl : down e = true → up e = false)
    (h : count u.after = if up e then (count u.before + 1) % M
      else if down e then count u.before - 1 else count u.before) : Moves up down count M u := by
  have hup : u.entry.any up = up e := by
    rw [hu]
    rfl
  have hdown : u.entry.any down = down e := by
    rw [hu]
    rfl
  constructor
  · intro hraises
    rw [h, if_pos (hup ▸ hraises)]
  · intro hlowers
    have hnot := hexcl (hdown ▸ hlowers)
    refine ⟨hup.trans hnot, ?_⟩
    rw [h, hnot, if_neg nofun, if_pos (hdown ▸ hlowers)]
  · intro hstays hstays'
    rw [h, ← hup, ← hdown, hstays, hstays', if_neg nofun, if_neg nofun]

theorem covered_nil : Covered up down credit ([] : List (Turn ι ε κ)) := by
  intro ws hws
  obtain rfl := List.prefix_nil.mp hws
  exact Nat.zero_le _

theorem covered_snoc : Covered up down credit (us ++ [u]) ↔ Covered up down credit us ∧
    turnsOf down (us ++ [u]) ≤ credit + turnsOf up (us ++ [u]) := by
  constructor
  · intro h
    exact ⟨fun ws hws => h ws (hws.trans (List.prefix_append us [u])), h _ List.prefix_rfl⟩
  · rintro ⟨hus, hlast⟩ ws hws
    rcases List.prefix_concat_iff.mp hws with rfl | hws
    · exact hlast
    · exact hus ws hws

theorem Covered.mono {credit' : Nat} (h : Covered up down credit us) (hle : credit ≤ credit') :
    Covered up down credit' us := fun ws hws => (h ws hws).trans (Nat.add_le_add_right hle _)

/-- **What the counter counts.** With `n` more given back at most than was counted, the counter is
between what is outstanding without them and with them. -/
theorem Covered.counts {count : κ → Nat} {M n : Nat} {v₀ v : κ} (hus : Serial v₀ us v)
    (hcov : Covered up down (count v₀ + n) us) (hmoves : ∀ u ∈ us, Moves up down count M u)
    (hfits : count v₀ + turnsOf up us < M) :
    count v₀ + turnsOf up us ≤ count v + turnsOf down us ∧
      count v + turnsOf down us ≤ count v₀ + n + turnsOf up us ∧
      count v ≤ count v₀ + turnsOf up us := by
  induction hus with
  | nil => simp
  | @snoc us u hserial ih =>
    obtain ⟨hinit, hlast⟩ := covered_snoc.mp hcov
    have hup := turnsOf_snoc up us u
    have hdown := turnsOf_snoc down us u
    obtain ⟨hle, hge, hbound⟩ := ih hinit
      (fun w hw => hmoves w (List.mem_append_left _ hw)) (by omega)
    have hmove := hmoves u (List.mem_append_right _ (List.mem_singleton_self u))
    cases hdn : u.entry.any down with
    | true =>
      obtain ⟨hnot, hafter⟩ := hmove.lowers hdn
      rw [hnot] at hup
      rw [hdn] at hdown
      simp only [Bool.false_eq_true, if_true, if_false] at hup hdown
      omega
    | false =>
      rw [hdn] at hdown
      simp only [Bool.false_eq_true, if_false] at hdown
      cases hu : u.entry.any up with
      | true =>
        have hafter := hmove.raises hu
        rw [hu, if_pos rfl] at hup
        rw [Nat.mod_eq_of_lt (by omega)] at hafter
        omega
      | false =>
        have hafter := hmove.stays hu hdn
        rw [hu] at hup
        simp only [Bool.false_eq_true, if_false] at hup
        omega

end

/-! ## Along a run -/

/-- The label is a call of a class. -/
def Act.calls (cls : ε → Bool) : Act ι ε → Bool
  | .call _ e => cls e
  | .tick _ => false

/-- The turns of a run, how many calls were made to give back, and how many calls gave out for
free. -/
structure Account (ι ε κ : Type) where
  turns : Turns ι ε κ
  returns : Nat := 0
  gifts : Nat := 0

variable [DecidableEq ι]

section

variable (view : σ → κ) (up down free : ε → Bool)

/-- The account after a step. -/
def Account.track (g : Account ι ε κ) (p : Pool ι σ ε β) (a : Act ι ε) (q : Pool ι σ ε β) :
    Account ι ε κ where
  turns := g.turns.track view p a q
  returns := g.returns + if a.calls down then 1 else 0
  gifts := g.gifts + if a.calls free then 1 else 0

/-- Nobody gives back more than there is: a call that gives back is made only if, of what was there
at first (`n`), given out for free and counted, something is left after all such calls so far. -/
def Solvent (n : Nat) (g : Account ι ε κ) (a : Act ι ε) : Prop :=
  a.calls down = true → g.returns < n + g.gifts + turnsOf up g.turns.done

end

namespace Pool

variable {view : σ → κ} {inv : σ → Prop} {legal : ε → κ → κ → Prop}
  {post : ε → Stage κ → β → Prop} {start : ι → ε → β → Option (Prog σ β)} {v₀ : κ}
  {g : Turns ι ε κ} {p q : Pool ι σ ε β} {a : Act ι ε} {cls : ε → Bool} {n : Nat}

/-- Of `n` calls of a class, those that have had their turn, and those that have it ahead of
them. -/
def Owing (cls : ε → Bool) (n : Nat) (g : Turns ι ε κ) (p : Pool ι σ ε β) : Prop :=
  ∃ ahead : Finset ι, (∀ t e, p.entry t = some e → cls e = true → g.had t = none → t ∈ ahead) ∧
    turnsOf cls g.done + ahead.card ≤ n

omit [DecidableEq ι] in
theorem owing_init (cls : ε → Bool) (v : κ) (s : σ) (b : ι → β) :
    Owing cls 0 (Turns.none v) (Pool.init s b : Pool ι σ ε β) :=
  ⟨∅, fun _ _ h => (nomatch h), Nat.le_refl 0⟩

/-- **There are no more turns of a class than calls of it.** -/
theorem Owing.step (hturned : Turned view inv legal post v₀ g p) (h : Owing cls n g p)
    (hstep : Step start p a q) :
    Owing cls (n + if a.calls cls then 1 else 0) (g.track view p a q) q := by
  obtain ⟨ahead, hahead, hle⟩ := h
  cases hstep with
  | @call t e b k hret hk =>
    cases hcls : cls e with
    | true =>
      refine ⟨insert t ahead, fun u e' he' hc hnone => ?_, ?_⟩
      · by_cases hut : u = t
        · exact hut ▸ Finset.mem_insert_self u ahead
        · rw [begin_entry_ne _ _ _ hut] at he'
          rw [Turns.track_call_other _ _ _ _ hut] at hnone
          exact Finset.mem_insert_of_mem (hahead u e' he' hc hnone)
      · have hcard := Finset.card_insert_le t ahead
        show turnsOf cls g.done + _ ≤ n + if cls e = true then 1 else 0
        rw [hcls, if_pos rfl]
        omega
    | false =>
      refine ⟨ahead, fun u e' he' hc hnone => ?_, ?_⟩
      · by_cases hut : u = t
        · subst hut
          rw [begin_entry] at he'
          obtain rfl := Option.some.inj he'
          rw [hcls] at hc
          cases hc
        · rw [begin_entry_ne _ _ _ hut] at he'
          rw [Turns.track_call_other _ _ _ _ hut] at hnone
          exact hahead u e' he' hc hnone
      · show turnsOf cls g.done + _ ≤ n + if cls e = true then 1 else 0
        rw [hcls]
        exact hle
  | access hp => exact ⟨ahead, by rwa [Turns.track_access view hp], by
      rwa [Turns.track_access view hp]⟩
  | callout hp => exact ⟨ahead, by rwa [Turns.track_callout view hp], by
      rwa [Turns.track_callout view hp]⟩
  | lock hp hfree => exact ⟨ahead, by rwa [Turns.track_lock view hp], by
      rwa [Turns.track_lock view hp]⟩
  | @unlock t k hp hheld =>
    rw [Turns.track_unlock view hp]
    have hcount := turnsOf_snoc cls g.done ⟨t, p.entry t, g.since, view p.shared⟩
    refine ⟨ahead.erase t, fun u e he hc hnone => ?_, ?_⟩
    · dsimp only at hnone
      have hut : u ≠ t := by
        rintro rfl
        rw [Function.update_self] at hnone
        cases hnone
      rw [Function.update_of_ne hut] at hnone
      exact Finset.mem_erase.mpr ⟨hut, hahead u e he hc hnone⟩
    · show turnsOf cls (g.done ++ _) + _ ≤ n
      rw [hcount]
      cases hcls : (p.entry t).any cls with
      | true =>
        obtain ⟨e, he, hc⟩ := (Option.any_eq_true _ _).mp hcls
        have hmem := hahead t e he hc (hturned.first t hheld)
        have hcard := Finset.card_erase_add_one hmem
        rw [if_pos rfl]
        omega
      | false =>
        have hcard := Finset.card_erase_le (s := ahead) (a := t)
        simp only [Bool.false_eq_true, if_false]
        omega

/-- A step adds a turn, or none. -/
theorem done_step (hstep : Step start p a q) : (g.track view p a q).done = g.done ∨
    ∃ u, (g.track view p a q).done = g.done ++ [u] := by
  cases hstep with
  | call hret hk => exact .inl rfl
  | access hp => exact .inl (by rw [Turns.track_access view hp])
  | lock hp hfree => exact .inl (by rw [Turns.track_lock view hp])
  | unlock hp hheld => exact .inr ⟨_, by rw [Turns.track_unlock view hp]⟩
  | callout hp => exact .inl (by rw [Turns.track_callout view hp])

variable {up down free : ε → Bool} {G : Account ι ε κ}

/-- The calls that give back are owing their turns, and are covered by what there is. -/
structure InCredit (up down : ε → Bool) (n : Nat) (G : Account ι ε κ) (p : Pool ι σ ε β) :
    Prop where
  owing : Owing down G.returns G.turns p
  paid : G.returns ≤ n + G.gifts + turnsOf up G.turns.done
  covered : Covered up down (n + G.gifts) G.turns.done

theorem InCredit.step (hturned : Turned view inv legal post v₀ G.turns p)
    (h : InCredit up down n G p) (hsolvent : Solvent up down n G a) (hstep : Step start p a q) :
    InCredit up down n (G.track view down free p a q) q := by
  have howing := h.owing.step hturned hstep
  have hups : turnsOf up G.turns.done ≤ turnsOf up (G.turns.track view p a q).done := by
    rcases done_step (g := G.turns) hstep with hdone | ⟨u, hdone⟩
    · rw [hdone]
    · rw [hdone, turnsOf_snoc]
      exact Nat.le_add_right _ _
  have hpaid : G.returns + (if a.calls down then 1 else 0) ≤
      n + (G.gifts + if a.calls free then 1 else 0) +
        turnsOf up (G.turns.track view p a q).done := by
    have hbefore := h.paid
    cases hcalls : a.calls down with
    | true =>
      have hless := hsolvent hcalls
      rw [if_pos rfl]
      omega
    | false =>
      simp only [Bool.false_eq_true, if_false]
      omega
  refine ⟨howing, hpaid, ?_⟩
  have hmono : Covered up down (n + (G.gifts + if a.calls free then 1 else 0)) G.turns.done :=
    h.covered.mono (by omega)
  show Covered up down (n + (G.gifts + if a.calls free then 1 else 0))
    (G.turns.track view p a q).done
  rcases done_step (g := G.turns) hstep with hdone | ⟨u, hdone⟩
  · rwa [hdone]
  · obtain ⟨ahead, -, hle⟩ := howing
    rw [hdone] at hle hpaid ⊢
    exact covered_snoc.mpr ⟨hmono, by omega⟩

variable {ok : Account ι ε κ → Pool ι σ ε β → Act ι ε → Pool ι σ ε β → Prop}

/-- **The downs of a solvent run are covered**, whatever the interleaving. -/
theorem solvent_covered (hpost : ∀ e st b, post e st b → ∃ turn, st = .out turn)
    (hstart : ∀ G p t e q b k, ok G p (.call t e) q → start t e b = some k →
      Orderly view inv (legal e) (post e) (.out none) k)
    (hsolvent : ∀ G p a q, ok G p a q → Solvent up down n G a) {s₀ : σ} {b₀ : ι → β}
    {as : List (Act ι ε)} (hs : inv s₀)
    (hrun : GhostRun start (Account.track view down free) ok (Pool.init s₀ b₀)
      { turns := Turns.none (view s₀) } as p G) :
    Turned view inv legal post (view s₀) G.turns p ∧ InCredit up down n G p := by
  induction hrun with
  | refl => exact ⟨turned_init hs, owing_init down _ _ _, Nat.zero_le _, covered_nil⟩
  | @tail as a p q G hrun hok hnext ih =>
    obtain ⟨hturned, hcredit⟩ := ih
    have hstep := step_of_next hnext
    refine ⟨?_, hcredit.step hturned (hsolvent G p a q hok) hstep⟩
    cases a with
    | call t e => exact hturned.call hpost (fun b k => hstart G p t e q b k hok) hstep
    | tick t => exact hturned.tick hstep

/-- Nothing is given out for free where no call does so. -/
theorem no_gifts {p₀ : Pool ι σ ε β} {G₀ : Account ι ε κ} {as : List (Act ι ε)}
    (hrun : GhostRun start (Account.track view down fun _ => false) ok p₀ G₀ as p G) :
    G.gifts = G₀.gifts := by
  induction hrun with
  | refl => rfl
  | @tail as a p q G _ _ _ ih =>
    show G.gifts + (if a.calls (fun _ => false) then 1 else 0) = G₀.gifts
    cases a <;> exact ih

end Pool

end Conc
