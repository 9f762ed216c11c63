import Line6.Lib.Credit
import Line6.Plugin.Timeline
import Line6.System.Mutex

/-!
# References, IO clients and sessions

What the turns of a run say of the counters `gMutex` protects. `gRefCount` and `gIO_Running` go up
and down one by one, and stop at zero. The host gives back only what it has (`Honest`), but it may
do so from any thread. A session's timeline needs a machine with one timebase too (`HonestAt`).

* `io_clients_counted`: `gIO_Running` is the number of clients that have started and not stopped.
* `references_counted`: `gRefCount` is the number of references out, but for those the factory
  handed out, which it does not count.
* `session_timeline`: while a client is running, whoever starts and stops, all pairs handed out
  lie on one line.
-/

namespace Line6

open Conc Conc.Prog Conc.Pool

variable {α : Type}

/-! ## What a turn counts -/

/-- A `StartIO` of our device. -/
def Call.startsIo : Call → Bool
  | .entry (.startIo known _ _) => known
  | _ => false

/-- A `StopIO` of our device. -/
def Call.stopsIo : Call → Bool
  | .entry (.stopIo known) => known
  | _ => false

/-- A call that answers with a reference to the driver, and counts it. -/
def Call.takesRef : Call → Bool
  | .entry (.addRef known) => known
  | .entry (.queryInterface known outNull supported) => known && !outNull && supported
  | _ => false

/-- A `Release` of our driver. -/
def Call.dropsRef : Call → Bool
  | .entry (.release known) => known
  | _ => false

/-- A call that answers with a reference to the driver, and does not count it. -/
def Call.makesRef : Call → Bool
  | .line6Create supported => supported
  | _ => false

/-- The counters after a turn. -/
structure Counted (call : Call) (v v' : Guarded) : Prop where
  refs : v'.gRefCount = if call.takesRef then v.gRefCount + 1
    else if call.dropsRef ∧ v.gRefCount > 0 then v.gRefCount - 1 else v.gRefCount
  clients : v'.gIORunning = if call.startsIo then v.gIORunning + 1
    else if call.stopsIo ∧ v.gIORunning > 0 then v.gIORunning - 1 else v.gIORunning

section

variable {K : ℚ → Prop}

theorem counted_same {call : Call} (htakes : call.takesRef = false) (hdrops : call.dropsRef = false)
    (hstarts : call.startsIo = false) (hstops : call.stopsIo = false) {v v' : Guarded}
    (hrefs : v'.gRefCount = v.gRefCount) (hclients : v'.gIORunning = v.gIORunning) :
    Counted call v v' := by
  constructor
  · simp [htakes, hdrops, hrefs]
  · simp [hstarts, hstops, hclients]

theorem started_clients (v : Guarded) (now w₀ : UInt64) :
    (v.started now w₀).gIORunning = v.gIORunning + 1 := by
  unfold Guarded.started
  split_ifs with hidle
  · simp [hidle]
  · rfl

theorem started_refs (v : Guarded) (now w₀ : UInt64) :
    (v.started now w₀).gRefCount = v.gRefCount := by
  unfold Guarded.started
  split_ifs <;> rfl

/-- A turn of an atomic call: the states around the call, run alone. -/
theorem Alone.ran {x : Prog (World α) (Answer α)} {v v' : Guarded} {b : Answer α}
    (h : Alone K x (some (v, v')) b) : ∃ m m', K m.plug.gHostTicksPerFrame ∧
      exec x false m = .done false m' b ∧ v = m.guarded ∧ v' = m'.guarded := by
  obtain ⟨m, m', hticks, hexec, hturn⟩ := h
  rcases hturn with ⟨hnone, -⟩ | hsome
  · cases hnone
  · cases hsome
    exact ⟨m, m', hticks, hexec, rfl, rfl⟩

/-- The result of a program whose answer is wrapped. -/
theorem exec_wrapped {β : Type} {x : Prog (World α) β} {f : β → Answer α} {m m' : World α}
    {b : Answer α} (h : exec (x >>= fun r => ret (f r)) false m = .done false m' b) :
    ∃ r, exec x false m = .done false m' r ∧ b = f r := by
  rw [exec_bind] at h
  cases hx : exec x false m with
  | done held m₁ r =>
    rw [hx] at h
    cases h
    exact ⟨r, rfl, rfl⟩
  | stuck m₁ => rw [hx] at h; cases h
  | trapped => rw [hx] at h; cases h

/-- **What a turn counts.** -/
theorem LegalTurn.counted {call : Call} {v v' : Guarded} (h : LegalTurn α K call v v') :
    Counted call v v' := by
  cases h with
  | @attach e _ he =>
    cases e
    case setUp => exact counted_same rfl rfl rfl rfl rfl rfl
    case poll => exact counted_same rfl rfl rfl rfl rfl rfl
    all_goals exact he.elim
  | @alone e x b _ _ he hx h =>
    obtain ⟨m, m', -, hexec, rfl, rfl⟩ := h.ran
    cases e
    case queryInterface known outNull supported =>
      cases hx
      cases known <;> cases outNull <;> cases supported <;> cases hexec <;> exact ⟨rfl, rfl⟩
    case addRef known =>
      cases hx
      cases known <;> cases hexec <;> exact ⟨rfl, rfl⟩
    case release known =>
      cases hx
      cases known with
      | false =>
        cases hexec
        exact ⟨rfl, rfl⟩
      | true =>
        cases hexec
        refine ⟨?_, rfl⟩
        simp [World.guarded, Call.takesRef, Call.dropsRef]
    case startIo known sys now =>
      cases hx
      obtain ⟨r, hrun, -⟩ := exec_wrapped hexec
      cases known with
      | false =>
        cases hrun
        exact ⟨rfl, rfl⟩
      | true =>
        rw [exec_startIo] at hrun
        split_ifs at hrun
        cases hrun
        rw [guarded_startedIo]
        exact ⟨started_refs _ _ _, started_clients _ _ _⟩
    case stopIo known =>
      cases hx
      cases known with
      | false =>
        cases hexec
        exact ⟨rfl, rfl⟩
      | true =>
        cases hexec
        refine ⟨rfl, ?_⟩
        simp [World.guarded, Call.startsIo, Call.stopsIo]
    case getZeroTimeStamp known now =>
      cases hx
      cases known with
      | false =>
        cases hexec
        exact ⟨rfl, rfl⟩
      | true =>
        cases hexec
        have hsame : (m.plug.tickTimeline now).gRefCount = m.plug.gRefCount := by
          unfold Plugin.tickTimeline
          split_ifs <;> rfl
        exact counted_same rfl rfl rfl rfl hsame (tickTimeline_same m.plug now).2.2
    all_goals exact he.elim
  | read margin w =>
    unfold Guarded.read
    split_ifs <;> exact counted_same rfl rfl rfl rfl rfl rfl
  | named =>
    unfold Guarded.named
    split_ifs <;> exact counted_same rfl rfl rfl rfl rfl rfl

end

/-! ## The counters of a run -/

/-- A 64-bit counter that goes up, or down but not below zero. -/
theorem step_toNat64 (up down : Bool) (n : UInt64) :
    (if up then n + 1 else if down ∧ n > 0 then n - 1 else n).toNat =
      if up then (n.toNat + 1) % 2 ^ 64 else if down then n.toNat - 1 else n.toNat := by
  cases up with
  | true => exact UInt64.toNat_add n 1
  | false =>
    cases down with
    | false => simp
    | true =>
      have hpos : n > 0 ↔ 0 < n.toNat := UInt64.lt_iff_toNat_lt
      simp only [Bool.false_eq_true, if_false, true_and, if_true]
      split_ifs with h
      · exact UInt64.toNat_sub_of_le n 1 (UInt64.le_iff_toNat_le.mpr (hpos.mp h))
      · have hzero : ¬ 0 < n.toNat := fun hn => h (hpos.mpr hn)
        omega

/-- A 32-bit counter that goes up, or down but not below zero. -/
theorem step_toNat32 (up down : Bool) (n : UInt32) :
    (if up then n + 1 else if down ∧ n > 0 then n - 1 else n).toNat =
      if up then (n.toNat + 1) % 2 ^ 32 else if down then n.toNat - 1 else n.toNat := by
  cases up with
  | true => exact UInt32.toNat_add n 1
  | false =>
    cases down with
    | false => simp
    | true =>
      have hpos : n > 0 ↔ 0 < n.toNat := UInt32.lt_iff_toNat_lt
      simp only [Bool.false_eq_true, if_false, true_and, if_true]
      split_ifs with h
      · exact UInt32.toNat_sub_of_le n 1 (UInt32.le_iff_toNat_le.mpr (hpos.mp h))
      · have hzero : ¬ 0 < n.toNat := fun hn => h (hpos.mpr hn)
        omega

variable {u : CallTurn} {call : Call}

theorem moves_clients (hu : u.entry = some call) (h : Counted call u.before u.after) :
    Moves Call.startsIo Call.stopsIo (fun v => v.gIORunning.toNat) (2 ^ 64) u := by
  refine moves_of_eq hu (fun hstops => ?_) ?_
  · cases call with
    | entry e => cases e <;> first | rfl | cases hstops
    | line6Create supported => rfl
    | cfRelease i => rfl
  · rw [h.clients]
    exact step_toNat64 _ _ _

theorem moves_refs (hu : u.entry = some call) (h : Counted call u.before u.after) :
    Moves Call.takesRef Call.dropsRef (fun v => v.gRefCount.toNat) (2 ^ 32) u := by
  refine moves_of_eq hu (fun hdrops => ?_) ?_
  · cases call with
    | entry e => cases e <;> first | rfl | cases hdrops
    | line6Create supported => rfl
    | cfRelease i => rfl
  · rw [h.refs]
    exact step_toNat32 _ _ _

/-- Between the turns, the globals are what the turns so far make of them. -/
theorem Serialized.settled [Pcm α] {K : ℚ → Prop} {v₀ : Guarded} {g : History} {p : Asked α}
    (h : Serialized K v₀ g p) (hfree : p.owner = none) : Serial v₀ g.done p.shared.guarded := by
  have hserial := h.serial
  unfold Turns.standing at hserial
  rwa [if_pos hfree] at hserial

/-- The steps of a host that gives back no more than it has (`n` of it from the start). -/
def Honest (up down : Call → Bool) (n : Nat) (G : Account Tid Call Guarded) (_ : Asked α)
    (a : Act Tid Call) (_ : Asked α) : Prop :=
  Solvent up down n G a

/-- One rate. -/
def Rate (c : ℚ) : ℚ → Prop := fun r => r = c

/-- The steps of such a host on a machine whose timebase gives the rate `c`. -/
def HonestAt (c : ℚ) (up down : Call → Bool) (n : Nat) (G : Account Tid Call Guarded) (p : Asked α)
    (a : Act Tid Call) (q : Asked α) : Prop :=
  Honest up down n G p a q ∧ Clocked (Rate c) G.turns p a q

/-- The account of a run from the world `m`. -/
def openAccount (m : World α) : Account Tid Call Guarded where
  turns := Turns.none m.guarded

/-- **Honest runs are covered**: their turns are serial and legal, and no prefix of them gives back
more than there is. -/
theorem honest_covered [Pcm α] {K : ℚ → Prop} {m : World α} (hK : K m.plug.gHostTicksPerFrame)
    {up down free : Call → Bool} {n : Nat} {ok : Account Tid Call Guarded → Asked α →
      Act Tid Call → Asked α → Prop}
    (hok : ∀ G p a q, ok G p a q → Honest up down n G p a q ∧ Clocked K G.turns p a q)
    {as : List (Act Tid Call)} {p : Asked α} {G : Account Tid Call Guarded}
    (hrun : GhostRun ask (Account.track World.guarded down free) ok (Asked.init m) (openAccount m)
      as p G) :
    Serialized K m.guarded G.turns p ∧ Covered up down (n + G.gifts) G.turns.done := by
  have h : TakingTurns α K m.guarded G.turns p ∧ InCredit up down n G p :=
    solvent_covered answers_out
      (fun G p t call q b k h hk => takes_ask ⟨_, hK⟩ ((hok _ _ _ _ h).2 t call rfl) hk)
      (fun G p a q h => (hok _ _ _ _ h).1) hK hrun
  exact ⟨serialized_of_turns h.1, h.2.covered⟩

/-- Any rate. -/
def AnyRate : ℚ → Prop := fun _ => True

theorem clocked_any (call : Call) : call.Clocked AnyRate := by
  cases call with
  | entry e => cases e <;> trivial
  | line6Create supported => trivial
  | cfRelease i => trivial

/-- The counters do not depend on the clock. -/
theorem honest_any [Pcm α] {m : World α} {up down free : Call → Bool} {n : Nat}
    {as : List (Act Tid Call)} {p : Asked α} {G : Account Tid Call Guarded}
    (hrun : GhostRun ask (Account.track World.guarded down free) (Honest up down n) (Asked.init m)
      (openAccount m) as p G) :
    Serialized AnyRate m.guarded G.turns p ∧ Covered up down (n + G.gifts) G.turns.done :=
  honest_covered (K := AnyRate) trivial
    (fun _ _ _ _ h => ⟨h, fun _ call _ => clocked_any call⟩) hrun

/-! ## Sessions -/

/-- The pair of the timeline's last boundary, on a clock of `c` ticks a frame. -/
def Guarded.stamp (c : ℚ) (v : Guarded) (now : UInt64) : Stamp where
  now := now
  sampleTime := v.gNumberTimeStamps * kDeviceRingPeriod
  hostTime := v.gAnchorHostTime +
    truncU64 (v.gNumberTimeStamps.toNat * (c * kDeviceRingPeriod.toNat))
  seed := 1

/-- The pair a turn leaves to answer with, if it is one of `GetZeroTimeStamp`. -/
def stampOf (c : ℚ) (u : CallTurn) : Option Stamp :=
  match u.entry with
  | some (.entry (.getZeroTimeStamp true now)) => some (u.after.stamp c now)
  | _ => none

/-- `P`: the ticks of a period. -/
def periodOf (c : ℚ) : ℚ := c * kDeviceRingPeriod.toNat

/-- The next boundary and its sample time fit 64 bits. -/
def Guarded.NextFits (c : ℚ) (v : Guarded) : Prop :=
  Ticks.boundary v.gAnchorHostTime.toNat (periodOf c) (v.gNumberTimeStamps.toNat + 1) < 2 ^ 64 ∧
    8192 * (v.gNumberTimeStamps.toNat + 1) < 2 ^ 64

/-- The pairs handed out in a session that began at `a`, with period `P`: they are those of the
boundaries `ns`, which grow by at most one, at or behind the clock, and at its latest boundary if
`GetZeroTimeStamp` is called in every period. -/
structure SessionPairs (a : UInt64) (P : ℚ) (ss : List Stamp) (ns : List Nat) : Prop where
  pairs : List.Forall₂ (Stamp.OnLine a P) ns ss
  steps : (0 :: ns).IsChain fun n n' => n ≤ n' ∧ n' ≤ n + 1
  latest : 1 / 2 ≤ P → (a :: ss.map Stamp.now).IsChain (fun t t' => t'.toNat ≤ t.toNat + ⌊P⌋₊) →
    List.Forall₂ (fun n s => s.now.toNat < Ticks.boundary a.toNat P (n + 1)) ns ss

/-- A world with the timeline and the clients of `v`. -/
structure Shows (c : ℚ) (m : World α) (v : Guarded) : Prop where
  ticks : m.plug.gHostTicksPerFrame = c
  anchor : m.plug.gAnchorHostTime = v.gAnchorHostTime
  stamps : m.plug.gNumberTimeStamps = v.gNumberTimeStamps
  clients : m.plug.gIORunning = v.gIORunning

/-- A turn that leaves the timeline and the clients alone. -/
structure SameSession (v v' : Guarded) : Prop where
  anchor : v'.gAnchorHostTime = v.gAnchorHostTime
  stamps : v'.gNumberTimeStamps = v.gNumberTimeStamps
  clients : v'.gIORunning = v.gIORunning

section

variable {c : ℚ}

theorem shows_guarded {m : World α} (h : m.plug.gHostTicksPerFrame = c) : Shows c m m.guarded :=
  ⟨h, rfl, rfl, rfl⟩

theorem Shows.same {m : World α} {v v' : Guarded} (h : Shows c m v) (hsame : SameSession v v') :
    Shows c m v' :=
  ⟨h.ticks, h.anchor.trans hsame.anchor.symm, h.stamps.trans hsame.stamps.symm,
    h.clients.trans hsame.clients.symm⟩

theorem Shows.nextFits {m : World α} {v : Guarded} (h : Shows c m v) :
    m.plug.NextFits ↔ v.NextFits c := by
  unfold Plugin.NextFits Guarded.NextFits Plugin.period periodOf
  rw [h.ticks, h.anchor, h.stamps]

theorem sameSession_refl (v : Guarded) : SameSession v v := ⟨rfl, rfl, rfl⟩

/-- The pair `GetZeroTimeStamp` leaves. -/
theorem stamp_ticked {m : World α} (hticks : m.plug.gHostTicksPerFrame = c) (now : UInt64) :
    (World.guarded { m with plug := m.plug.tickTimeline now }).stamp c now =
      ⟨now, (m.plug.tickTimeline now).gNumberTimeStamps * kDeviceRingPeriod,
        (m.plug.tickTimeline now).boundary (m.plug.tickTimeline now).gNumberTimeStamps, 1⟩ := by
  unfold Guarded.stamp Plugin.boundary
  rw [(tickTimeline_same m.plug now).2.1.trans hticks]
  rfl

/-- **A turn is a visit, or it leaves the session as it is.** -/
theorem LegalTurn.visit {u : CallTurn} {call : Call} (hu : u.entry = some call)
    (h : LegalTurn α (Rate c) call u.before u.after) :
    SameSession u.before u.after ∧ stampOf c u = none ∨
      ∃ v : Visit α, v.Ran ∧ Shows c v.before u.before ∧ Shows c v.after u.after ∧
        v.stamp = stampOf c u := by
  obtain ⟨who, entry, before, after⟩ := u
  cases hu
  dsimp only at h
  cases h with
  | @attach e _ he =>
    refine .inl ⟨sameSession_refl _, ?_⟩
    cases e
    case getZeroTimeStamp => exact he.elim
    all_goals rfl
  | @alone e x b _ _ he hx h =>
    obtain ⟨m, m', hticks, hexec, rfl, rfl⟩ := h.ran
    cases e
    case queryInterface known outNull supported =>
      cases hx
      refine .inl ⟨?_, rfl⟩
      cases known <;> cases outNull <;> cases supported <;> cases hexec <;> exact ⟨rfl, rfl, rfl⟩
    case addRef known =>
      cases hx
      refine .inl ⟨?_, rfl⟩
      cases known <;> cases hexec <;> exact ⟨rfl, rfl, rfl⟩
    case release known =>
      cases hx
      refine .inl ⟨?_, rfl⟩
      cases known <;> cases hexec <;> exact ⟨rfl, rfl, rfl⟩
    case startIo known sys now =>
      cases hx
      obtain ⟨r, hrun, -⟩ := exec_wrapped hexec
      cases known with
      | false =>
        cases hrun
        exact .inl ⟨sameSession_refl _, rfl⟩
      | true =>
        have hok := hrun
        rw [exec_startIo] at hok
        split_ifs at hok
        cases hok
        refine .inr ⟨⟨m, _, none⟩, .start hrun, shows_guarded hticks, shows_guarded ?_, rfl⟩
        unfold World.startedIo
        dsimp only
        split_ifs <;> exact hticks
    case stopIo known =>
      cases hx
      cases known with
      | false =>
        cases hexec
        exact .inl ⟨sameSession_refl _, rfl⟩
      | true =>
        cases hexec
        exact .inr ⟨⟨m, _, none⟩, .stop (exec_stopIo m), shows_guarded hticks,
          shows_guarded hticks, rfl⟩
    case getZeroTimeStamp known now =>
      cases hx
      cases known with
      | false =>
        cases hexec
        exact .inl ⟨sameSession_refl _, rfl⟩
      | true =>
        cases hexec
        have hsame := (tickTimeline_same m.plug now).2.1.trans hticks
        exact .inr ⟨⟨m, _, _⟩, .stamp (exec_getZeroTimeStamp m now), shows_guarded hticks,
          shows_guarded hsame, congrArg some (stamp_ticked hticks now).symm⟩
    all_goals exact he.elim
  | read margin w =>
    refine .inl ⟨?_, rfl⟩
    unfold Guarded.read
    split_ifs <;> exact ⟨rfl, rfl, rfl⟩
  | named =>
    refine .inl ⟨?_, rfl⟩
    unfold Guarded.named
    split_ifs <;> exact ⟨rfl, rfl, rfl⟩

/-- **The turns of a session are a stretch of calls**, whoever called. -/
theorem session_stretch {v v' : Guarded} {us : List CallTurn}
    (hserial : Serial v us v')
    (hlegal : ∀ u ∈ us, ∃ call, u.entry = some call ∧ LegalTurn α (Rate c) call u.before u.after)
    (hruns : ∀ u ∈ us, u.after.gIORunning ≠ 0)
    (hnext : ∀ u ∈ us, stampOf c u ≠ none → u.before.NextFits c) {m : World α} (hm : Shows c m v) :
    ∃ vs m', Stretch m vs m' ∧ Shows c m' v' ∧ stamps vs = us.filterMap (stampOf c) ∧
      ∀ w ∈ vs, w.stamp ≠ none → w.before.plug.NextFits := by
  induction us generalizing v m with
  | nil =>
    obtain rfl := serial_nil hserial
    exact ⟨[], m, .nil, hm, rfl, fun _ hw => absurd hw List.not_mem_nil⟩
  | cons u us ih =>
    obtain ⟨rfl, hrest⟩ := hserial.uncons
    have ih := fun m₁ (hm₁ : Shows c m₁ u.after) => ih hrest
      (fun w hw => hlegal w (List.mem_cons_of_mem u hw))
      (fun w hw => hruns w (List.mem_cons_of_mem u hw))
      (fun w hw => hnext w (List.mem_cons_of_mem u hw)) hm₁
    obtain ⟨call, hcall, hturn⟩ := hlegal u List.mem_cons_self
    rcases hturn.visit hcall with ⟨hsame, hnone⟩ | ⟨w, hran, hbefore, hafter, hstamp⟩
    · rw [List.filterMap_cons_none hnone]
      exact ih m (hm.same hsame)
    · obtain ⟨vs, m', hstretch, hshows, hstamps, hfits⟩ := ih w.after hafter
      have hsame : SameTimeline m.plug w.before.plug :=
        ⟨hbefore.anchor.trans hm.anchor.symm, hbefore.stamps.trans hm.stamps.symm,
          hbefore.ticks.trans hm.ticks.symm⟩
      refine ⟨w :: vs, m', .cons hsame (hbefore.clients.trans hm.clients.symm) hran ?_ hstretch,
        hshows, ?_, fun x hx => ?_⟩
      · rw [hafter.clients]
        exact hruns u List.mem_cons_self
      · unfold stamps at hstamps ⊢
        rw [List.filterMap_cons, List.filterMap_cons, hstamp, hstamps]
      · rcases List.mem_cons.mp hx with rfl | hx
        · rw [hstamp, hbefore.nextFits]
          exact hnext u List.mem_cons_self
        · exact hfits x hx

/-- While IO runs, nobody moves the anchor. -/
theorem LegalTurn.anchor_kept {u : CallTurn} {call : Call} (hu : u.entry = some call)
    (h : LegalTurn α (Rate c) call u.before u.after) (hruns : u.before.gIORunning ≠ 0) :
    u.after.gAnchorHostTime = u.before.gAnchorHostTime := by
  rcases h.visit hu with ⟨hsame, -⟩ | ⟨w, hran, hbefore, hafter, -⟩
  · exact hsame.anchor
  · rw [← hafter.anchor, ← hbefore.anchor]
    have hclients : w.before.plug.gIORunning ≠ 0 := by rwa [hbefore.clients]
    cases hran with
    | start hrun => exact (Visit.Ran.others (.start hrun) hclients rfl).anchor
    | stop hrun => exact (Visit.Ran.others (.stop hrun) hclients rfl).anchor
    | @stamp m m' now sample host seed hrun =>
      rw [exec_getZeroTimeStamp] at hrun
      cases hrun
      exact (tickTimeline_same m.plug now).1

theorem session_anchor {v v' : Guarded} {ws : List CallTurn}
    (hserial : Serial v ws v')
    (hlegal : ∀ u ∈ ws, ∃ call, u.entry = some call ∧ LegalTurn α (Rate c) call u.before u.after)
    (hv : v.gIORunning ≠ 0) (hruns : ∀ u ∈ ws, u.after.gIORunning ≠ 0) :
    ∀ w ∈ ws, w.after.gAnchorHostTime = v.gAnchorHostTime := by
  induction ws generalizing v with
  | nil => exact fun w hw => absurd hw List.not_mem_nil
  | cons u us ih =>
    obtain ⟨rfl, hrest⟩ := hserial.uncons
    obtain ⟨call, hcall, hturn⟩ := hlegal u List.mem_cons_self
    have hfirst := hturn.anchor_kept hcall hv
    have hothers := ih hrest (fun w hw => hlegal w (List.mem_cons_of_mem u hw))
      (hruns u List.mem_cons_self) fun w hw => hruns w (List.mem_cons_of_mem u hw)
    intro w hw
    rcases List.mem_cons.mp hw with rfl | hw
    · exact hfirst
    · exact (hothers w hw).trans hfirst

/-- The turn that starts IO sets the anchor. -/
theorem LegalTurn.anchors {sys : Sys} {a : UInt64} {v v' : Guarded}
    (h : LegalTurn α (Rate c) (.entry (.startIo true sys a)) v v') (hidle : v.gIORunning = 0) :
    v'.gAnchorHostTime = a ∧ v'.gNumberTimeStamps = 0 ∧ v'.gIORunning ≠ 0 ∧
      ∃ m : World α, Shows c m v' := by
  cases h with
  | attach he => exact he.elim
  | @alone e x b _ _ he hx h =>
    obtain ⟨m, m', hticks, hexec, rfl, rfl⟩ := h.ran
    cases hx
    obtain ⟨r, hrun, -⟩ := exec_wrapped hexec
    rw [exec_startIo] at hrun
    split_ifs at hrun
    cases hrun
    have hm : m.plug.gIORunning = 0 := hidle
    have hstarted : Shows c (m.startedIo a) (m.startedIo a).guarded := by
      refine shows_guarded ?_
      unfold World.startedIo
      rw [if_pos hm]
      exact hticks
    refine ⟨?_, ?_, ?_, _, hstarted⟩ <;> unfold World.guarded World.startedIo <;> rw [if_pos hm]
    exact nofun

/-- The pairs of a session lie on its line. -/
theorem session_pairs {a : UInt64} {v v' : Guarded} {ws : List CallTurn}
    (hserial : Serial v ws v')
    (hlegal : ∀ u ∈ ws, ∃ call, u.entry = some call ∧ LegalTurn α (Rate c) call u.before u.after)
    (hruns : ∀ u ∈ ws, u.after.gIORunning ≠ 0)
    (hnext : ∀ u ∈ ws, stampOf c u ≠ none → u.before.NextFits c) {m : World α} (hm : Shows c m v)
    (hanchor : v.gAnchorHostTime = a) (hzero : v.gNumberTimeStamps = 0) (hv : v.gIORunning ≠ 0)
    (hpositive : 0 < c)
    (hclock : (a :: (ws.filterMap (stampOf c)).map Stamp.now).IsChain (· ≤ ·)) :
    ∃ ns, SessionPairs a (periodOf c) (ws.filterMap (stampOf c)) ns := by
  obtain ⟨vs, m', hstretch, -, hstamps, hfits⟩ :=
    session_stretch hserial hlegal hruns hnext hm
  have hperiod : m.plug.period = periodOf c := by
    unfold Plugin.period periodOf
    rw [hm.ticks]
  obtain ⟨-, hpairs⟩ := hstretch.refines (by rwa [hm.clients]) (hm.ticks ▸ hpositive.le) hfits
  rw [hm.anchor, hanchor, hm.stamps, hzero, hperiod] at hpairs
  unfold readings at hpairs
  rw [hstamps] at hpairs
  generalize ws.filterMap (stampOf c) = ss at hclock hpairs ⊢
  refine ⟨_, ?_, Ticks.counts_chain a.toNat (periodOf c) 0 (ss.map fun s => s.now.toNat),
    fun hlong hevery => ?_⟩
  · have hle : (a.toNat :: ss.map fun s => s.now.toNat).IsChain (· ≤ ·) := by
      have hmap := List.isChain_map_of_isChain UInt64.toNat
        (fun _ _ => UInt64.le_iff_toNat_le.mp) hclock
      simpa [Function.comp_def] using hmap
    have hbehind := Ticks.counts_le (Ticks.boundary_zero a.toNat (periodOf c)).le hle
    refine List.Forall₂.mp ?_ hpairs (List.forall₂_map_right_iff.mp hbehind)
    rintro n s ⟨hsample, hhost, hseed⟩ hn
    exact ⟨hsample, hhost, hseed, UInt64.le_iff_toNat_le.mpr (hhost ▸ hn)⟩
  · have hclose : (a.toNat :: ss.map fun s => s.now.toNat).IsChain
        fun t now => now ≤ t + ⌊periodOf c⌋₊ := by
      have hmap := List.isChain_map_of_isChain (S := fun t now => now ≤ t + ⌊periodOf c⌋₊)
        UInt64.toNat (fun _ _ h => h) hevery
      simpa [Function.comp_def] using hmap
    exact List.forall₂_map_right_iff.mp (Ticks.counts_latest hlong hclose)

end

/-- A `GetZeroTimeStamp` of our device answers with the pair of its turn. -/
theorem Serialized.stamped [Pcm α] {c : ℚ} {v₀ : Guarded} {g : History} {p : Asked α}
    (h : Serialized (Rate c) v₀ g p) {t : Tid} {now : UInt64} {b : Answer α}
    (hentry : p.entry t = some (.entry (.getZeroTimeStamp true now))) (hret : p.thread t = .ret b) :
    ∃ u ∈ g.done, u.who = t ∧ u.entry = p.entry t ∧ ∃ s, stampOf c u = some s ∧
      b = .stamp (.ok (s.sampleTime, s.hostTime, s.seed)) := by
  obtain ⟨turn, hturn, hanswer⟩ := h.answered t _ b hentry hret
  obtain rfl : g.had t = turn := by simpa using hturn
  obtain ⟨⟨v, v'⟩, hhad⟩ := Option.isSome_iff_exists.mp (hanswer.turned rfl)
  have halone := hanswer.alone _ trivial (fun _ _ _ _ _ h h' => h.trans h'.symm) rfl
  rw [hhad] at halone
  obtain ⟨m, m', hticks, hexec, rfl, rfl⟩ := halone.ran
  refine ⟨_, h.mine t _ _ hhad, rfl, rfl, m'.guarded.stamp c now, ?_, ?_⟩
  · unfold stampOf
    rw [hentry]
  · obtain ⟨r, hrun, rfl⟩ := exec_wrapped hexec
    rw [exec_getZeroTimeStamp] at hrun
    cases hrun
    rw [stamp_ticked hticks]

/-! ## IO clients -/

/-- The clients that are running, if there were `n` at first. -/
def running (n : Nat) (us : List CallTurn) : Nat :=
  n + turnsOf Call.startsIo us - turnsOf Call.stopsIo us

/-- `gIO_Running` counts the running clients. -/
theorem clients_running {K : ℚ → Prop} {v₀ v : Guarded} {us : List CallTurn}
    (hserial : Serial v₀ us v)
    (hlegal : ∀ u ∈ us, ∃ call, u.entry = some call ∧ LegalTurn α K call u.before u.after)
    (hcovered : Covered Call.startsIo Call.stopsIo v₀.gIORunning.toNat us)
    (hfits : v₀.gIORunning.toNat + turnsOf Call.startsIo us < 2 ^ 64) :
    v.gIORunning.toNat = running v₀.gIORunning.toNat us := by
  have hmoves (u : CallTurn) (hu : u ∈ us) :
      Moves Call.startsIo Call.stopsIo (fun v => v.gIORunning.toNat) (2 ^ 64) u := by
    obtain ⟨call, hcall, hturn⟩ := hlegal u hu
    exact moves_clients hcall hturn.counted
  have hcounts : v₀.gIORunning.toNat + turnsOf Call.startsIo us ≤
        v.gIORunning.toNat + turnsOf Call.stopsIo us ∧
      v.gIORunning.toNat + turnsOf Call.stopsIo us ≤
        v₀.gIORunning.toNat + 0 + turnsOf Call.startsIo us ∧ _ :=
    Covered.counts hserial hcovered hmoves hfits
  have hdowns := hcovered us List.prefix_rfl
  unfold running
  omega

/-- **`gIO_Running` counts the running clients**: in every interleaving, as long as the host stops
only what runs, it is the number of clients started and not stopped, and the device says so. -/
theorem io_clients_counted [Pcm α] {m : World α} {as : List (Act Tid Call)} {p : Asked α}
    {G : Account Tid Call Guarded}
    (hrun : GhostRun ask (Account.track World.guarded Call.stopsIo fun _ => false)
      (Honest Call.startsIo Call.stopsIo m.plug.gIORunning.toNat) (Asked.init m) (openAccount m)
      as p G)
    (hfits : m.plug.gIORunning.toNat + turnsOf Call.startsIo G.turns.done < 2 ^ 64)
    (hfree : p.owner = none) :
    p.shared.plug.gIORunning.toNat = running m.plug.gIORunning.toNat G.turns.done ∧
      ∀ k cf a q n, a.element = k.elementMain → k.deviceSel a.selector = some .deviceIsRunning →
        answer (getPropertyData k cf kObjectIDDevice a q n) p.shared = some (.ok (replyU32
          (if 0 < running m.plug.gIORunning.toNat G.turns.done then 1 else 0))) := by
  obtain ⟨h, hcovered⟩ := honest_any hrun
  rw [no_gifts hrun] at hcovered
  have hcount : p.shared.plug.gIORunning.toNat = running m.plug.gIORunning.toNat G.turns.done :=
    clients_running (h.settled hfree) h.legal hcovered hfits
  refine ⟨hcount, fun k cf a q n hmain hsel => ?_⟩
  have hpos : p.shared.plug.gIORunning > 0 ↔
      0 < running m.plug.gIORunning.toNat G.turns.done := by
    rw [← hcount]
    exact UInt64.lt_iff_toNat_lt
  unfold getPropertyData
  rw [if_neg (not_not_intro hmain), if_neg (by decide), if_pos rfl, hsel]
  show some (Except.ok (replyU32 (if p.shared.plug.gIORunning > 0 then 1 else 0))) = _
  rw [if_congr hpos rfl rfl]

/-- Ticks of a host thread. -/
def hostTicks (i n : Nat) : List (Act Tid Call) := List.replicate n (.tick (.host i))

/-- A run in which nothing is given back, computed. -/
theorem honest_run [Pcm α] (c : ℚ) (up : Call → Bool) {down free : Call → Bool} (n : Nat)
    {l : List (Act Tid Call)} {p q : Asked α} {g g' : Account Tid Call Guarded}
    (h : runGhost ask (Account.track World.guarded down free) l (p, g) = some (q, g'))
    (hdown : ∀ a ∈ l, a.calls down = false)
    (hclock : ∀ a ∈ l, ∀ t call, a = .call t call → call.Clocked (Rate c)) :
    GhostRun ask (Account.track World.guarded down free) (HonestAt c up down n) p g l q g' :=
  GhostRun.of_runGhost h fun a ha _ _ _ =>
    ⟨fun hcalls => absurd ((hdown a ha).symm.trans hcalls) nofun, hclock a ha⟩

/-- The first client starts IO while the second one asks to, and gets a pair. -/
def twoStart : List (Act Tid Call) :=
  [.call (.host 0) (.entry (.startIo true .fine 1000)),
    .call (.host 1) (.entry (.startIo true .fine 2000))] ++ hostTicks 0 9 ++
  .call (.host 0) (.entry (.getZeroTimeStamp true 4097000)) :: hostTicks 1 4 ++ hostTicks 0 5

/-- The first one stops, and the second one gets a pair. -/
def oneStops : List (Act Tid Call) :=
  hostTicks 0 3 ++ .call (.host 1) (.entry (.getZeroTimeStamp true 8193000)) :: hostTicks 1 5

theorem two_clients : ∃ (as : List (Act Tid Call)) (p : Asked ℚ) (G : Account Tid Call Guarded)
    (u : CallTurn) (ws : List CallTurn),
    GhostRun ask (Account.track World.guarded Call.stopsIo fun _ => false)
      (HonestAt 500 Call.startsIo Call.stopsIo 0) (Asked.init (clocked 500))
      (openAccount (clocked 500)) as p G ∧
    p.owner = none ∧ G.turns.done = u :: ws ∧
    u.entry = some (.entry (.startIo true .fine 1000)) ∧
    turnsOf Call.startsIo (u :: ws) = 2 ∧
    (∀ xs ∈ ws.inits, 0 < running 0 (u :: xs)) ∧ running 0 (u :: ws) = 1 ∧
    (ws.filterMap (stampOf 500)).map Stamp.now = [4097000, 8193000] ∧
    ∀ w ∈ ws, w.before.gAnchorHostTime = 1000 ∧ w.before.gNumberTimeStamps.toNat ≤ 1 := by
  obtain ⟨p₁, G₁, p₂, p, G, u, ws, h₁, hstarted, hreturns, h₂, h₃, hfree, hdone, hrest⟩ :
      ∃ (p₁ : Asked ℚ) (G₁ : Account Tid Call Guarded) (p₂ p : Asked ℚ)
        (G : Account Tid Call Guarded) (u : CallTurn)
        (ws : List CallTurn),
        runGhost ask (Account.track World.guarded Call.stopsIo fun _ => false) twoStart
          (Asked.init (clocked 500), openAccount (clocked 500)) = some (p₁, G₁) ∧
        turnsOf Call.startsIo G₁.turns.done = 2 ∧ G₁.returns = 0 ∧
        p₁.next ask (.call (.host 0) (.entry (.stopIo true))) = some p₂ ∧
        runGhost ask (Account.track World.guarded Call.stopsIo fun _ => false) oneStops
          (p₂, G₁.track World.guarded Call.stopsIo (fun _ => false) p₁
            (.call (.host 0) (.entry (.stopIo true))) p₂) = some (p, G) ∧
        p.owner = none ∧ G.turns.done = u :: ws ∧
        u.entry = some (.entry (.startIo true .fine 1000)) ∧
        turnsOf Call.startsIo (u :: ws) = 2 ∧
        (∀ xs ∈ ws.inits, 0 < running 0 (u :: xs)) ∧ running 0 (u :: ws) = 1 ∧
        (ws.filterMap (stampOf 500)).map Stamp.now = [4097000, 8193000] ∧
        ∀ w ∈ ws, w.before.gAnchorHostTime = 1000 ∧ w.before.gNumberTimeStamps.toNat ≤ 1 :=
    ⟨_, _, _, _, _, _, _, rfl, rfl, rfl, rfl, rfl, rfl, rfl, rfl, rfl, by decide +kernel, rfl,
      by decide +kernel, by decide +kernel⟩
  have hstop : HonestAt (α := ℚ) 500 Call.startsIo Call.stopsIo 0 G₁ p₁
      (.call (.host 0) (.entry (.stopIo true))) p₂ := by
    refine ⟨fun _ => ?_, ?_⟩
    · rw [hreturns, hstarted]
      exact Nat.lt_add_left _ (by decide)
    · rintro t call ⟨⟩
      trivial
  have hfirst := honest_run 500 Call.startsIo 0 h₁
    (by simp [twoStart, hostTicks, Act.calls, Call.stopsIo])
    (by simp [twoStart, hostTicks, Call.Clocked])
  have hsecond := honest_run 500 Call.startsIo 0 h₃
    (by simp [oneStops, hostTicks, Act.calls, Call.stopsIo])
    (by simp [oneStops, hostTicks, Call.Clocked])
  exact ⟨_, p, G, u, ws, (hfirst.tail hstop h₂).append hsecond, hfree, hdone, hrest⟩

theorem io_clients_counted_two : ∃ (as : List (Act Tid Call)) (p : Asked ℚ)
    (G : Account Tid Call Guarded),
    GhostRun ask (Account.track World.guarded Call.stopsIo fun _ => false)
      (Honest Call.startsIo Call.stopsIo 0) (Asked.init (clocked 500))
      (openAccount (clocked 500)) as p G ∧ p.shared.plug.gIORunning.toNat = 1 := by
  obtain ⟨as, p, G, u, ws, hrun, hfree, hdone, -, hstarted, -, hone, -⟩ := two_clients
  have hhonest := hrun.mono fun _ _ _ _ h => h.1
  obtain ⟨hcount, -⟩ := io_clients_counted (m := clocked 500) hhonest
    (by rw [hdone, hstarted]; decide) hfree
  rw [hdone] at hcount
  exact ⟨as, p, G, hhonest, hcount.trans hone⟩

/-! ## The timeline of a session -/

section

variable [Pcm α] {m : World α} {as : List (Act Tid Call)} {p : Asked α}
  {G : Account Tid Call Guarded}

/-- **The timeline of a session**, in every interleaving: from the turn that starts IO, as long as
some client runs, whoever starts and stops in between, nobody moves the anchor, and the pairs of all
the calls of `GetZeroTimeStamp` lie on one line. Each call answers with the pair of its turn. -/
theorem session_timeline
    (hrun : GhostRun ask (Account.track World.guarded Call.stopsIo fun _ => false)
      (HonestAt m.plug.gHostTicksPerFrame Call.startsIo Call.stopsIo m.plug.gIORunning.toNat)
      (Asked.init m) (openAccount m) as p G)
    (hfits : m.plug.gIORunning.toNat + turnsOf Call.startsIo G.turns.done < 2 ^ 64)
    (hpositive : 0 < m.plug.gHostTicksPerFrame) {us ws : List CallTurn}
    {u : CallTurn} (hdone : G.turns.done = us ++ u :: ws) {sys : Sys} {a : UInt64}
    (hstart : u.entry = some (.entry (.startIo true sys a)))
    (hidle : running m.plug.gIORunning.toNat us = 0)
    (hruns : ∀ ws', ws' <+: ws → 0 < running m.plug.gIORunning.toNat (us ++ u :: ws')) :
    (∀ w ∈ ws, w.after.gAnchorHostTime = a) ∧
    ((a :: (ws.filterMap (stampOf m.plug.gHostTicksPerFrame)).map Stamp.now).IsChain (· ≤ ·) →
      (∀ w ∈ ws, stampOf m.plug.gHostTicksPerFrame w ≠ none →
        w.before.NextFits m.plug.gHostTicksPerFrame) →
      ∃ ns, SessionPairs a (periodOf m.plug.gHostTicksPerFrame)
        (ws.filterMap (stampOf m.plug.gHostTicksPerFrame)) ns) ∧
    ∀ t now b, p.entry t = some (.entry (.getZeroTimeStamp true now)) → p.thread t = .ret b →
      ∃ w ∈ G.turns.done, w.who = t ∧ w.entry = p.entry t ∧
        ∃ s, stampOf m.plug.gHostTicksPerFrame w = some s ∧
          b = .stamp (.ok (s.sampleTime, s.hostTime, s.seed)) := by
  obtain ⟨h, hcovered⟩ := honest_covered (K := Rate m.plug.gHostTicksPerFrame) rfl
    (fun _ _ _ _ h => h) hrun
  rw [no_gifts hrun, hdone] at hcovered
  rw [hdone] at hfits
  have hlegal := h.legal
  have hserial := h.serial
  rw [hdone] at hlegal hserial
  obtain ⟨v, hbefore, hfrom⟩ := hserial.split
  obtain ⟨rfl, hrest⟩ := hfrom.uncons
  have hcount {xs : List CallTurn} (hxs : xs <+: us ++ u :: ws) {v₁ : Guarded}
      (hserial : Serial m.guarded xs v₁) :
      v₁.gIORunning.toNat = running m.plug.gIORunning.toNat xs :=
    clients_running hserial (fun x hx => hlegal x (hxs.subset hx))
      (fun ys hys => hcovered ys (hys.trans hxs))
      (lt_of_le_of_lt (Nat.add_le_add_left (hxs.sublist.countP_le) _) hfits)
  have hzero : u.before.gIORunning = 0 := by
    have hnobody := hcount (List.prefix_append us (u :: ws)) hbefore
    rw [hidle] at hnobody
    exact UInt64.toNat_inj.mp hnobody
  obtain ⟨call, hcall, hturn⟩ := hlegal u (List.mem_append_right us List.mem_cons_self)
  obtain rfl := Option.some.inj (hcall.symm.trans hstart)
  obtain ⟨hanchor, hstamps, hclients, m₁, hshows⟩ := hturn.anchors hzero
  have hon : ∀ w ∈ ws, w.after.gIORunning ≠ 0 := by
    intro w hw h0
    obtain ⟨ws₁, ws₂, rfl⟩ := List.append_of_mem hw
    have hsplit : us ++ u :: (ws₁ ++ w :: ws₂) = us ++ u :: (ws₁ ++ [w]) ++ ws₂ := by simp
    rw [hsplit] at hserial
    obtain ⟨v₁, hpart, -⟩ := hserial.split
    obtain rfl := (show Serial m.guarded ((us ++ u :: ws₁) ++ [w]) v₁ by simpa using hpart).last
    have hpos := hruns (ws₁ ++ [w]) ⟨ws₂, by simp⟩
    rw [← hcount ⟨ws₂, hsplit.symm⟩ hpart, h0] at hpos
    exact absurd hpos (by decide)
  have hlegal' : ∀ w ∈ ws, ∃ call, w.entry = some call ∧ LegalTurn α _ call w.before w.after :=
    fun w hw => hlegal w (List.mem_append_right us (List.mem_cons_of_mem u hw))
  refine ⟨fun w hw => (session_anchor hrest hlegal' hclients hon w hw).trans hanchor,
    fun hclock hnext => ?_, fun t now b hentry hret => h.stamped hentry hret⟩
  exact session_pairs hrest hlegal' hon hnext hshows hanchor hstamps hclients hpositive hclock

end

theorem session_timeline_two : ∃ (as : List (Act Tid Call)) (p : Asked ℚ)
    (G : Account Tid Call Guarded) (u : CallTurn)
    (ws : List CallTurn) (ns : List Nat),
    GhostRun ask (Account.track World.guarded Call.stopsIo fun _ => false)
      (HonestAt 500 Call.startsIo Call.stopsIo 0) (Asked.init (clocked 500))
      (openAccount (clocked 500)) as p G ∧ G.turns.done = u :: ws ∧
    (ws.filterMap (stampOf 500)).map Stamp.now = [4097000, 8193000] ∧
    SessionPairs 1000 (periodOf 500) (ws.filterMap (stampOf 500)) ns := by
  obtain ⟨as, p, G, u, ws, hrun, -, hdone, hstart, hstarted, hruns, -, hnow, hbefore⟩ := two_clients
  have hperiod : periodOf 500 = 4096000 := by
    show 500 * ((8192 : ℕ) : ℚ) = _
    norm_num
  have hnext : ∀ w ∈ ws, w.before.NextFits 500 := by
    intro w hw
    obtain ⟨hanchor, hn⟩ := hbefore w hw
    have hmono : Ticks.boundary 1000 (4096000 : ℚ) (w.before.gNumberTimeStamps.toNat + 1) ≤
        Ticks.boundary 1000 (4096000 : ℚ) 2 := Ticks.boundary_mono (by norm_num) (by omega)
    have htwo : Ticks.boundary 1000 (4096000 : ℚ) 2 = 8193000 := by
      unfold Ticks.boundary
      norm_num
    unfold Guarded.NextFits
    rw [hanchor, hperiod]
    exact ⟨lt_of_le_of_lt (hmono.trans htwo.le) (by decide), by omega⟩
  have hclock : (1000 :: (ws.filterMap (stampOf 500)).map Stamp.now).IsChain (· ≤ ·) := by
    rw [hnow]
    decide
  obtain ⟨-, hsession, -⟩ := session_timeline (m := clocked 500) hrun
    (by rw [hdone, hstarted]; decide) (by decide +kernel)
    (show G.turns.done = [] ++ u :: ws from hdone) hstart rfl
    fun xs hxs => hruns xs ((List.mem_inits _ _).mpr hxs)
  obtain ⟨ns, hpairs⟩ := hsession hclock fun w hw _ => hnext w hw
  exact ⟨as, p, G, u, ws, ns, hrun, hdone, hnow, hpairs⟩

/-! ## References -/

/-- The references to the driver that are out, if `n` were at first and `gifts` came from the
factory. -/
def referencesOut (n gifts : Nat) (us : List CallTurn) : Nat :=
  n + gifts + turnsOf Call.takesRef us - turnsOf Call.dropsRef us

/-- **`gRefCount` counts the references the entry points gave out**: in every interleaving, as long
as the host drops only what it has, it is at most the number of references out, and short of it by
those the factory gave out at most. -/
theorem references_counted [Pcm α] {m : World α} {as : List (Act Tid Call)} {p : Asked α}
    {G : Account Tid Call Guarded}
    (hrun : GhostRun ask (Account.track World.guarded Call.dropsRef Call.makesRef)
      (Honest Call.takesRef Call.dropsRef m.plug.gRefCount.toNat) (Asked.init m) (openAccount m)
      as p G)
    (hfits : m.plug.gRefCount.toNat + turnsOf Call.takesRef G.turns.done < 2 ^ 32)
    (hfree : p.owner = none) :
    p.shared.plug.gRefCount.toNat ≤ referencesOut m.plug.gRefCount.toNat G.gifts G.turns.done ∧
      referencesOut m.plug.gRefCount.toNat G.gifts G.turns.done ≤
        p.shared.plug.gRefCount.toNat + G.gifts := by
  obtain ⟨h, hcovered⟩ := honest_any hrun
  have hmoves (u : CallTurn) (hu : u ∈ G.turns.done) :
      Moves Call.takesRef Call.dropsRef (fun v => v.gRefCount.toNat) (2 ^ 32) u := by
    obtain ⟨call, hcall, hturn⟩ := h.legal u hu
    exact moves_refs hcall hturn.counted
  have hcounts : m.plug.gRefCount.toNat + turnsOf Call.takesRef G.turns.done ≤
        p.shared.plug.gRefCount.toNat + turnsOf Call.dropsRef G.turns.done ∧
      p.shared.plug.gRefCount.toNat + turnsOf Call.dropsRef G.turns.done ≤
        m.plug.gRefCount.toNat + G.gifts + turnsOf Call.takesRef G.turns.done ∧ _ :=
    Covered.counts (h.settled hfree) hcovered hmoves hfits
  unfold referencesOut
  omega

/-- The factory gives out a reference, and another one is taken. -/
def uncounted : List (Act Tid Call) :=
  [.call (.host 0) (.line6Create true), .call (.host 1) (.entry (.addRef true))] ++ hostTicks 1 4

/-- One of the two is dropped: the count is zero, and a reference is out. -/
theorem references_counted_factory : ∃ (as : List (Act Tid Call)) (p : Asked ℚ)
    (G : Account Tid Call Guarded),
    GhostRun ask (Account.track World.guarded Call.dropsRef Call.makesRef)
      (Honest Call.takesRef Call.dropsRef 0) (Asked.init (ticking 500))
      (openAccount (ticking (α := ℚ) 500)) as p G ∧
    p.shared.plug.gRefCount = 0 ∧ referencesOut 0 G.gifts G.turns.done = 1 ∧
    referencesOut 0 G.gifts G.turns.done ≤ p.shared.plug.gRefCount.toNat + G.gifts := by
  obtain ⟨p₁, G₁, p₂, p, G, h₁, htaken, hreturns, h₂, h₃, hfree, hcount, hout, htakes⟩ :
      ∃ (p₁ : Asked ℚ) (G₁ : Account Tid Call Guarded) (p₂ p : Asked ℚ)
        (G : Account Tid Call Guarded),
        runGhost ask (Account.track World.guarded Call.dropsRef Call.makesRef) uncounted
          (Asked.init (ticking 500), openAccount (ticking (α := ℚ) 500)) = some (p₁, G₁) ∧
        turnsOf Call.takesRef G₁.turns.done = 1 ∧ G₁.returns = 0 ∧
        p₁.next ask (.call (.host 0) (.entry (.release true))) = some p₂ ∧
        runGhost ask (Account.track World.guarded Call.dropsRef Call.makesRef) (hostTicks 0 4)
          (p₂, G₁.track World.guarded Call.dropsRef Call.makesRef p₁
            (.call (.host 0) (.entry (.release true))) p₂) = some (p, G) ∧
        p.owner = none ∧ p.shared.plug.gRefCount = 0 ∧
        referencesOut 0 G.gifts G.turns.done = 1 ∧ turnsOf Call.takesRef G.turns.done = 1 :=
    ⟨_, _, _, _, _, rfl, rfl, rfl, rfl, rfl, rfl, rfl, rfl, rfl⟩
  have hrelease : HonestAt (α := ℚ) 500 Call.takesRef Call.dropsRef 0 G₁ p₁
      (.call (.host 0) (.entry (.release true))) p₂ := by
    refine ⟨fun _ => ?_, ?_⟩
    · rw [hreturns, htaken]
      exact Nat.lt_add_left _ (by decide)
    · rintro t call ⟨⟩
      trivial
  have hfirst := honest_run 500 Call.takesRef 0 h₁
    (by simp [uncounted, hostTicks, Act.calls, Call.dropsRef])
    (by simp [uncounted, hostTicks, Call.Clocked])
  have hsecond := honest_run 500 Call.takesRef 0 h₃ (by simp [hostTicks, Act.calls])
    (by simp [hostTicks])
  have hrun := ((hfirst.tail hrelease h₂).append hsecond).mono fun _ _ _ _ h => h.1
  obtain ⟨-, hshort⟩ := references_counted (m := ticking 500) hrun (by rw [htakes]; decide) hfree
  exact ⟨_, p, G, hrun, hcount, hout, hshort⟩

end Line6
