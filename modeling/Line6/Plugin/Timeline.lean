import Mathlib.Data.Rat.Floor
import Line6.Lib.Ticks
import Line6.Plugin.Io

/-!
# The timeline of an IO session

`StartIO` sets the anchor when it starts IO, and every `GetZeroTimeStamp` moves the shared count of
periods at most one on. The whole of each call runs under the mutex, so a run of calls of any
number of clients is a list of them, in the order they took it.

* `timeline_consistent`: while IO runs, the pairs lie on the line through the anchor, at or behind
  the clock, and at its latest boundary if there is a call in every period; for periods of half a
  tick or more, as long as the next boundary fits the 64 bits of the clock.
-/

namespace Line6

open Conc Conc.Prog

variable {α : Type}

/-! ## Runs of calls -/

/-- A pair `GetZeroTimeStamp` returned, with its seed, and the clock it read. -/
structure Stamp where
  now : UInt64
  sampleTime : UInt64
  hostTime : UInt64
  seed : UInt64
  deriving Repr, DecidableEq

/-- A call of a client: the states around it, and the pair if it was a `GetZeroTimeStamp`. -/
structure Visit (α : Type) where
  before : World α
  after : World α
  stamp : Option Stamp

inductive Visit.Ran : Visit α → Prop
  | start {m m' : World α} {sys : Sys} {now : UInt64}
      (h : exec (startIo true sys now) false m = .done false m' (.ok ())) : Ran ⟨m, m', none⟩
  | stop {m m' : World α} (h : exec (stopIo true) false m = .done false m' (.ok ())) :
      Ran ⟨m, m', none⟩
  | stamp {m m' : World α} {now sample host seed : UInt64}
      (h : exec (getZeroTimeStamp true now) false m =
        .done false m' (.ok (sample, host, seed))) : Ran ⟨m, m', some ⟨now, sample, host, seed⟩⟩

/-- The timeline is as it was. -/
structure SameTimeline (p p' : Plugin) : Prop where
  anchor : p'.gAnchorHostTime = p.gAnchorHostTime
  stamps : p'.gNumberTimeStamps = p.gNumberTimeStamps
  ticks : p'.gHostTicksPerFrame = p.gHostTicksPerFrame

/-- A stretch in which IO keeps running: calls, and between them anything that leaves the timeline
and the number of clients alone. -/
inductive Stretch : World α → List (Visit α) → World α → Prop
  | nil {m : World α} : Stretch m [] m
  | cons {m m' : World α} {v : Visit α} {vs : List (Visit α)}
      (hsame : SameTimeline m.plug v.before.plug)
      (hclients : v.before.plug.gIORunning = m.plug.gIORunning) (hv : v.Ran)
      (hruns : v.after.plug.gIORunning ≠ 0) (hvs : Stretch v.after vs m') :
      Stretch m (v :: vs) m'

/-- The pairs returned, in order. -/
def stamps (vs : List (Visit α)) : List Stamp := vs.filterMap Visit.stamp

/-- `P`: the ticks of a period. -/
def Plugin.period (p : Plugin) : ℚ := p.gHostTicksPerFrame * kDeviceRingPeriod.toNat

/-- The next boundary and its sample time fit 64 bits. -/
def Plugin.NextFits (p : Plugin) : Prop :=
  Ticks.boundary p.gAnchorHostTime.toNat p.period (p.gNumberTimeStamps.toNat + 1) < 2 ^ 64 ∧
    8192 * (p.gNumberTimeStamps.toNat + 1) < 2 ^ 64

/-! ## Consistent stretches -/

/-- The pair of boundary `n` of the line through `a` with period `P`, at or behind the clock. -/
structure Stamp.OnLine (a : UInt64) (P : ℚ) (n : Nat) (s : Stamp) : Prop where
  sampleTime : s.sampleTime.toNat = 8192 * n
  hostTime : s.hostTime.toNat = a.toNat + ⌊(n : ℚ) * P⌋₊
  seed : s.seed = 1
  behind : s.hostTime ≤ s.now

/-- Calls other than `GetZeroTimeStamp` leave the timeline alone, and the pairs are those of the
boundaries `ns`, which grow by at most one per pair. -/
structure OnTimeline (a : UInt64) (P : ℚ) (vs : List (Visit α)) (ns : List Nat) : Prop where
  others : ∀ v ∈ vs, v.stamp = none → SameTimeline v.before.plug v.after.plug
  pairs : List.Forall₂ (Stamp.OnLine a P) ns (stamps vs)
  steps : (0 :: ns).IsChain fun n n' => n ≤ n' ∧ n' ≤ n + 1

/-- The calls are at most `⌊P⌋` ticks apart, the first from the anchor. -/
def EveryPeriod (a : UInt64) (P : ℚ) (vs : List (Visit α)) : Prop :=
  (a :: (stamps vs).map Stamp.now).IsChain fun t t' => t'.toNat ≤ t.toNat + ⌊P⌋₊

/-- Each pair is that of the latest boundary. -/
def AtLatest (a : UInt64) (P : ℚ) (vs : List (Visit α)) (ns : List Nat) : Prop :=
  List.Forall₂ (fun n s => s.now.toNat < a.toNat + ⌊((n + 1 : ℕ) : ℚ) * P⌋₊) ns (stamps vs)

/-! ## One call -/

/-- The 64-bit boundary, while it fits. -/
theorem boundary_toNat {p : Plugin} {n : UInt64}
    (h : Ticks.boundary p.gAnchorHostTime.toNat p.period n.toNat < 2 ^ 64) :
    (p.boundary n).toNat = Ticks.boundary p.gAnchorHostTime.toNat p.period n.toNat := by
  have hfloor : (truncU64 (n.toNat * p.period)).toNat = ⌊(n.toNat : ℚ) * p.period⌋₊ := by
    show (UInt64.ofNat _).toNat = _
    rw [UInt64.toNat_ofNat']
    exact Nat.mod_eq_of_lt (lt_of_le_of_lt (Nat.le_add_left _ _) h)
  show (p.gAnchorHostTime + truncU64 (n.toNat * p.period)).toNat = _
  rw [UInt64.toNat_add, hfloor]
  exact Nat.mod_eq_of_lt h

/-- **One `GetZeroTimeStamp`** advances the count like the abstract counter. -/
theorem tickTimeline_stamps {p : Plugin} (h : p.NextFits) (now : UInt64) :
    (p.tickTimeline now).gNumberTimeStamps.toNat =
      Ticks.advance p.gAnchorHostTime.toNat p.period now.toNat p.gNumberTimeStamps.toNat := by
  have hsucc : (p.gNumberTimeStamps + 1).toNat = p.gNumberTimeStamps.toNat + 1 := by
    have := h.2
    rw [UInt64.toNat_add]
    exact Nat.mod_eq_of_lt (show p.gNumberTimeStamps.toNat + 1 < 2 ^ 64 by omega)
  have hnext : (p.boundary (p.gNumberTimeStamps + 1)).toNat = Ticks.boundary
      p.gAnchorHostTime.toNat p.period (p.gNumberTimeStamps.toNat + 1) := by
    rw [boundary_toNat, hsucc]
    rw [hsucc]
    exact h.1
  have hiff : p.boundary (p.gNumberTimeStamps + 1) ≤ now ↔ Ticks.boundary
      p.gAnchorHostTime.toNat p.period (p.gNumberTimeStamps.toNat + 1) ≤ now.toNat := by
    rw [UInt64.le_iff_toNat_le, hnext]
  unfold Plugin.tickTimeline Ticks.advance
  by_cases hwrap : p.boundary (p.gNumberTimeStamps + 1) ≤ now
  · rw [if_pos hwrap, if_pos (hiff.mp hwrap)]
    exact hsucc
  · rw [if_neg hwrap, if_neg fun h => hwrap (hiff.mpr h)]

theorem tickTimeline_same (p : Plugin) (now : UInt64) :
    (p.tickTimeline now).gAnchorHostTime = p.gAnchorHostTime ∧
      (p.tickTimeline now).gHostTicksPerFrame = p.gHostTicksPerFrame ∧
      (p.tickTimeline now).gIORunning = p.gIORunning := by
  unfold Plugin.tickTimeline
  split_ifs
  · exact ⟨rfl, rfl, rfl⟩
  · exact ⟨rfl, rfl, rfl⟩

/-- While IO runs, `StartIO` and `StopIO` leave the timeline alone. -/
theorem Visit.Ran.others {v : Visit α} (h : v.Ran) (hruns : v.before.plug.gIORunning ≠ 0)
    (hstamp : v.stamp = none) : SameTimeline v.before.plug v.after.plug := by
  cases h with
  | start h =>
    rw [exec_startIo] at h
    split_ifs at h
    cases h
    unfold World.startedIo
    rw [if_neg hruns]
    exact ⟨rfl, rfl, rfl⟩
  | stop h =>
    rw [exec_stopIo] at h
    cases h
    exact ⟨rfl, rfl, rfl⟩
  | stamp h => cases hstamp

/-- **A `GetZeroTimeStamp` whose next boundary fits** advances the count and returns the pair of
the boundary it leaves. -/
theorem Visit.Ran.stamped {v : Visit α} (h : v.Ran) {s : Stamp} (hstamp : v.stamp = some s)
    (hfits : v.before.plug.NextFits) (hpositive : 0 ≤ v.before.plug.gHostTicksPerFrame) :
    let p := v.before.plug
    let n := Ticks.advance p.gAnchorHostTime.toNat p.period s.now.toNat p.gNumberTimeStamps.toNat
    v.after.plug.gNumberTimeStamps.toNat = n ∧
      v.after.plug.gAnchorHostTime = p.gAnchorHostTime ∧
      v.after.plug.gHostTicksPerFrame = p.gHostTicksPerFrame ∧
      s.sampleTime.toNat = 8192 * n ∧
      s.hostTime.toNat = Ticks.boundary p.gAnchorHostTime.toNat p.period n ∧ s.seed = 1 := by
  cases h with
  | start h => cases hstamp
  | stop h => cases hstamp
  | @stamp m m' now sample host seed h =>
    obtain rfl := Option.some.inj hstamp
    rw [exec_getZeroTimeStamp] at h
    obtain ⟨rfl, rfl, rfl, rfl⟩ : _ = m' ∧ _ = sample ∧ _ = host ∧ _ = seed := by
      simpa using h
    dsimp only at hfits hpositive ⊢
    have hcount := tickTimeline_stamps hfits now
    have hsame := tickTimeline_same m.plug now
    have hperiod : (m.plug.tickTimeline now).period = m.plug.period := by
      unfold Plugin.period
      rw [hsame.2.1]
    have hle := Ticks.advance_le_succ m.plug.gAnchorHostTime.toNat m.plug.period now.toNat
      m.plug.gNumberTimeStamps.toNat
    have hP : 0 ≤ m.plug.period := mul_nonneg hpositive (Nat.cast_nonneg _)
    refine ⟨hcount, hsame.1, hsame.2.1, ?_, ?_, rfl⟩
    · have := hfits.2
      rw [UInt64.toNat_mul, hcount]
      show _ * 8192 % 2 ^ 64 = _
      omega
    · rw [boundary_toNat]
      · rw [hcount, hsame.1, hperiod]
      · rw [hcount, hsame.1, hperiod]
        exact lt_of_le_of_lt (Ticks.boundary_mono hP hle) hfits.1

/-! ## Stretches -/

/-- The stamp of a call, if it has one, goes first. -/
theorem stamps_cons_none {v : Visit α} (h : v.stamp = none) (vs : List (Visit α)) :
    stamps (v :: vs) = stamps vs := by
  simp [stamps, h]

theorem stamps_cons_some {v : Visit α} {s : Stamp} (h : v.stamp = some s) (vs : List (Visit α)) :
    stamps (v :: vs) = s :: stamps vs := by
  simp [stamps, h]

/-- The clock readings of a stretch. -/
def readings (vs : List (Visit α)) : List Nat := (stamps vs).map fun s => s.now.toNat

theorem period_same {p p' : Plugin} (h : SameTimeline p p') : p'.period = p.period := by
  unfold Plugin.period
  rw [h.ticks]

/-- **A stretch refines the counter**: its pairs are those of the boundaries the counter is at when
it is asked at the clock readings. -/
theorem Stretch.refines {m m' : World α} {vs : List (Visit α)} (h : Stretch m vs m')
    (hruns : m.plug.gIORunning ≠ 0) (hpositive : 0 ≤ m.plug.gHostTicksPerFrame)
    (hfits : ∀ v ∈ vs, v.stamp ≠ none → v.before.plug.NextFits) :
    (∀ v ∈ vs, v.stamp = none → SameTimeline v.before.plug v.after.plug) ∧
      List.Forall₂ (fun n s => s.sampleTime.toNat = 8192 * n ∧
          s.hostTime.toNat = Ticks.boundary m.plug.gAnchorHostTime.toNat m.plug.period n ∧
          s.seed = 1)
        (Ticks.counts m.plug.gAnchorHostTime.toNat m.plug.period m.plug.gNumberTimeStamps.toNat
          (readings vs))
        (stamps vs) := by
  induction h with
  | nil =>
    refine ⟨fun v hv => absurd hv List.not_mem_nil, ?_⟩
    simp [readings, stamps]
  | @cons m m' v vs hsame hclients hv hruns' _ ih =>
    have hbefore : v.before.plug.gIORunning ≠ 0 := hclients ▸ hruns
    have hfits' : ∀ u ∈ vs, u.stamp ≠ none → u.before.plug.NextFits :=
      fun u hu => hfits u (List.mem_cons_of_mem v hu)
    cases hstamp : v.stamp with
    | none =>
      have hother := hv.others hbefore hstamp
      obtain ⟨hothers, hpairs⟩ := ih hruns' (by rwa [hother.ticks, hsame.ticks]) hfits'
      constructor
      · intro u hu
        rcases List.mem_cons.mp hu with rfl | hu
        · exact fun _ => hother
        · exact hothers u hu
      · unfold readings
        rw [stamps_cons_none hstamp]
        rw [hother.anchor, hother.stamps, period_same hother, hsame.anchor, hsame.stamps,
          period_same hsame] at hpairs
        exact hpairs
    | some s =>
      have hnext := hfits v List.mem_cons_self (by rw [hstamp]; simp)
      obtain ⟨hcount, hanchor, hticks, hsample, hhost, hseed⟩ :=
        hv.stamped hstamp hnext (by rwa [hsame.ticks])
      obtain ⟨hothers, hpairs⟩ := ih hruns' (by rwa [hticks, hsame.ticks]) hfits'
      have hperiod : v.after.plug.period = v.before.plug.period := by
        unfold Plugin.period
        rw [hticks]
      constructor
      · intro u hu
        rcases List.mem_cons.mp hu with rfl | hu
        · exact fun hnone => absurd (hstamp.symm.trans hnone) nofun
        · exact hothers u hu
      · unfold readings
        rw [stamps_cons_some hstamp, List.map_cons]
        rw [hcount, hanchor, hperiod, hsame.anchor, hsame.stamps, period_same hsame] at hpairs
        rw [hsame.anchor, hsame.stamps, period_same hsame] at hsample hhost
        rw [Ticks.counts_cons]
        exact .cons ⟨hsample, hhost, hseed⟩ hpairs

/-- **Timeline consistency.** From the `StartIO` that starts IO, as long as IO runs, whatever the
clients call and when: only `GetZeroTimeStamp` moves the timeline, its pairs lie on the line
through the anchor at or behind a clock that does not go back, and their boundaries grow by at most
one per call; and if the calls are at most a period, rounded down, apart, each is at the latest
boundary, for periods of half a tick or more. All as long as the next boundary fits 64 bits. -/
theorem timeline_consistent {m₀ m m' : World α} {sys : Sys} {a : UInt64}
    (hidle : m₀.plug.gIORunning = 0)
    (hstart : exec (startIo true sys a) false m₀ = .done false m (.ok ()))
    (hpositive : 0 < m₀.plug.gHostTicksPerFrame) {vs : List (Visit α)} (hrun : Stretch m vs m')
    (hclock : (a :: (stamps vs).map Stamp.now).IsChain (· ≤ ·))
    (hfits : ∀ v ∈ vs, v.stamp ≠ none → v.before.plug.NextFits) :
    ∃ ns, OnTimeline a m₀.plug.period vs ns ∧
      (1 / 2 ≤ m₀.plug.period → EveryPeriod a m₀.plug.period vs →
        AtLatest a m₀.plug.period vs ns) := by
  obtain ⟨hruns, hanchor, hstamps, hticks⟩ : m.plug.gIORunning ≠ 0 ∧
      m.plug.gAnchorHostTime = a ∧ m.plug.gNumberTimeStamps = 0 ∧
      m.plug.gHostTicksPerFrame = m₀.plug.gHostTicksPerFrame := by
    rw [exec_startIo] at hstart
    split_ifs at hstart
    cases hstart
    unfold World.startedIo
    rw [if_pos hidle]
    exact ⟨by simp, rfl, rfl, rfl⟩
  have hperiod : m.plug.period = m₀.plug.period := by
    unfold Plugin.period
    rw [hticks]
  obtain ⟨hothers, hpairs⟩ := hrun.refines hruns (hticks ▸ hpositive.le) hfits
  rw [hanchor, hstamps, hperiod] at hpairs
  refine ⟨_, ⟨hothers, ?_, Ticks.counts_chain a.toNat m₀.plug.period 0 (readings vs)⟩,
    fun hlong hevery => ?_⟩
  · have hle : (a.toNat :: readings vs).IsChain (· ≤ ·) := by
      have hmap := List.isChain_map_of_isChain UInt64.toNat
        (fun _ _ => UInt64.le_iff_toNat_le.mp) hclock
      simpa [readings, Function.comp_def] using hmap
    have hbehind := Ticks.counts_le (Ticks.boundary_zero a.toNat m₀.plug.period).le hle
    refine List.Forall₂.mp ?_ hpairs (List.forall₂_map_right_iff.mp hbehind)
    rintro n s ⟨hsample, hhost, hseed⟩ hn
    exact ⟨hsample, hhost, hseed, UInt64.le_iff_toNat_le.mpr (hhost ▸ hn)⟩
  · have hclose : (a.toNat :: readings vs).IsChain fun t now => now ≤ t + ⌊m₀.plug.period⌋₊ := by
      have hmap := List.isChain_map_of_isChain
        (S := fun t now => now ≤ t + ⌊m₀.plug.period⌋₊) UInt64.toNat (fun _ _ h => h) hevery
      simpa [readings, Function.comp_def] using hmap
    exact List.forall₂_map_right_iff.mp (Ticks.counts_latest hlong hclose)

/-! ## Examples -/

/-- The stretch of one `GetZeroTimeStamp`. -/
theorem stretch_single {m : World α} (hruns : m.plug.gIORunning ≠ 0) (now : UInt64) :
    let p := m.plug.tickTimeline now
    Stretch m [⟨m, { m with plug := p }, some
      ⟨now, p.gNumberTimeStamps * kDeviceRingPeriod, p.boundary p.gNumberTimeStamps, 1⟩⟩]
      { m with plug := p } :=
  .cons ⟨rfl, rfl, rfl⟩ rfl (.stamp (exec_getZeroTimeStamp m now))
    (by rw [(tickTimeline_same m.plug now).2.2]; exact hruns) .nil

/-- An attached, idle plugin on a clock of `ticks` per frame. -/
def clocked (ticks : ℚ) : World ℚ where
  linked := true
  shm := Shm.zero
  plug := { gShm := true, gHostTicksPerFrame := ticks }

theorem exec_startIo_clocked (ticks : ℚ) (a : UInt64) :
    exec (startIo true .fine a) false (clocked ticks) =
      .done false ((clocked ticks).startedIo a) (.ok ()) := by
  rw [exec_startIo]
  exact if_neg fun h => absurd h.2 (by simp [clocked])

theorem period_clocked (ticks : ℚ) : (clocked ticks).plug.period = ticks * 8192 := by
  show ticks * ((8192 : ℕ) : ℚ) = _
  norm_num

/-- Boundary 1 of a new session fits. -/
theorem nextFits_startedIo {ticks : ℚ} {a : UInt64} (h : a.toNat + ⌊ticks * 8192⌋₊ < 2 ^ 64) :
    ((clocked ticks).startedIo a).plug.NextFits := by
  refine ⟨?_, show 8192 * (0 + 1) < 2 ^ 64 by decide⟩
  show a.toNat + ⌊((0 + 1 : ℕ) : ℚ) * (clocked ticks).plug.period⌋₊ < 2 ^ 64
  rw [period_clocked]
  simpa using h

theorem timeline_consistent_apple : ∃ vs m' ns, Stretch ((clocked 500).startedIo 1000) vs m' ∧
    vs ≠ [] ∧ OnTimeline 1000 (clocked 500).plug.period vs ns ∧
    AtLatest 1000 (clocked 500).plug.period vs ns := by
  have hrun := stretch_single (m := (clocked 500).startedIo 1000) (by decide) 4097000
  have hperiod : ⌊(500 : ℚ) * 8192⌋₊ = 4096000 := by norm_num
  have hnext : ((clocked 500).startedIo 1000).plug.NextFits :=
    nextFits_startedIo (by rw [hperiod]; decide)
  obtain ⟨ns, honline, hlatest⟩ := timeline_consistent (a := 1000) rfl
    (exec_startIo_clocked 500 1000) (by decide +kernel) hrun (by decide)
    (by simpa using hnext)
  refine ⟨_, _, ns, hrun, by simp, honline, hlatest (by decide +kernel) ?_⟩
  rw [period_clocked]
  unfold EveryPeriod
  rw [hperiod]
  decide

/-- **Neither condition can be dropped**: with a period under half a tick the count falls behind
however often it is asked, and a boundary past the 64 bits of the clock wraps and is taken for one
that has passed. -/
theorem timeline_gaps :
    (¬ ∀ (m₀ m m' : World ℚ) (sys : Sys) (a : UInt64) (vs : List (Visit ℚ)),
      m₀.plug.gIORunning = 0 → exec (startIo true sys a) false m₀ = .done false m (.ok ()) →
      0 < m₀.plug.gHostTicksPerFrame → Stretch m vs m' →
      (a :: (stamps vs).map Stamp.now).IsChain (· ≤ ·) →
      (∀ v ∈ vs, v.stamp ≠ none → v.before.plug.NextFits) →
      ∃ ns, OnTimeline a m₀.plug.period vs ns ∧
        (EveryPeriod a m₀.plug.period vs → AtLatest a m₀.plug.period vs ns)) ∧
    ¬ ∀ (m₀ m m' : World ℚ) (sys : Sys) (a : UInt64) (vs : List (Visit ℚ)),
      m₀.plug.gIORunning = 0 → exec (startIo true sys a) false m₀ = .done false m (.ok ()) →
      1 ≤ m₀.plug.period → Stretch m vs m' →
      (a :: (stamps vs).map Stamp.now).IsChain (· ≤ ·) →
      ∃ ns, OnTimeline a m₀.plug.period vs ns ∧
        (EveryPeriod a m₀.plug.period vs → AtLatest a m₀.plug.period vs ns) := by
  constructor
  · intro h
    have hrun := stretch_single (m := (clocked (1 / 24576)).startedIo 7) (by decide) 7
    have hzero : ⌊(1 / 24576 : ℚ) * 8192⌋₊ = 0 := Nat.floor_eq_zero.mpr (by norm_num)
    have hnext : ((clocked (1 / 24576)).startedIo 7).plug.NextFits :=
      nextFits_startedIo (by rw [hzero]; decide)
    obtain ⟨ns, honline, hlatest⟩ := h _ _ _ .fine 7 _ rfl (exec_startIo_clocked (1 / 24576) 7)
      (by decide +kernel) hrun (by decide) (by intro v hv _; rwa [List.mem_singleton.mp hv])
    have hlatest := hlatest (.cons_cons (Nat.le_add_right _ _) (.singleton _))
    -- boundary 1 is at the anchor, and so is boundary 2
    obtain ⟨n, l, hn, hnil, rfl⟩ := List.forall₂_cons_right_iff.mp honline.pairs
    have hone : n = 1 := by
      have hsample := hn.sampleTime
      rw [show (Plugin.gNumberTimeStamps _ * kDeviceRingPeriod).toNat = 8192 by decide +kernel]
        at hsample
      omega
    have hlt := (List.forall₂_cons.mp hlatest).1
    have htwo : ⌊((1 + 1 : ℕ) : ℚ) * (1 / 24576 * 8192)⌋₊ = 0 :=
      Nat.floor_eq_zero.mpr (by norm_num)
    rw [period_clocked, hone, htwo] at hlt
    exact lt_irrefl _ hlt
  · intro h
    have hrun := stretch_single (m := (clocked 500).startedIo (0 - 10)) (by decide) (0 - 10)
    obtain ⟨ns, honline, -⟩ := h _ _ _ .fine (0 - 10) _ rfl (exec_startIo_clocked 500 (0 - 10))
      (by decide +kernel) hrun (by decide)
    obtain ⟨n, l, hn, hnil, rfl⟩ := List.forall₂_cons_right_iff.mp honline.pairs
    have hhost := hn.hostTime
    have hlow : (0 - 10 : UInt64).toNat = 2 ^ 64 - 10 := by decide
    have hwrapped : ((Plugin.tickTimeline (0 - 10) ((clocked 500).startedIo (0 - 10)).plug).boundary
        (Plugin.tickTimeline (0 - 10) ((clocked 500).startedIo (0 - 10)).plug).gNumberTimeStamps
        ).toNat = 4095990 := by decide +kernel
    rw [hwrapped, hlow] at hhost
    omega

end Line6
