import Line6.Daemon.Main

/-!
# Daemon instances on one segment

The segment is persistent, and nothing keeps a second daemon from opening it while the first one
captures. `Instances` is a family of daemons on one segment. A step is a pass of one of them
through its loop, or a completion of its capture. libusb lets at most one of them hold the audio
interface, and reports completions that fit their transfers (`Lawful`).

## Results

* `sound_run`: in every run, every capture is an accounted engine of a row of the table.
* `failed_start_spares_segment`: as long as no pass has `create` change the segment without
  getting the device, a pass whose `start_capture` fails leaves the segment as it was, and the
  write head does not decrease while anybody captures.
* `busy_instance_resets_segment`: a second instance that starts while the first one captures
  resets the write head, and then finds the device busy.
-/

namespace Line6

variable {α ι : Type}

/-- Daemons on one segment; `none` once `run_daemon` has returned. -/
structure Instances (ι α : Type) where
  daemon : ι → Option Daemon
  world : World α

/-- What can happen next. -/
inductive DaemonAct (ι : Type) where
  | pass (i : ι) (turn : Turn)
  | completion (i : ι) (c : Delivery)

/-- The completions of a step. -/
def DaemonAct.completions : DaemonAct ι → List Delivery
  | pass _ turn => turn.completions
  | completion _ c => [c]

/-- The daemon that goes on, if it does. -/
def Flow.daemon? : Flow → Option Daemon
  | next self => some self
  | returned _ => none

namespace Instances

/-- Every daemon about to start. -/
def init (times : ι → ℚ) (m : World α) : Instances ι α where
  daemon i := some (.init (times i))
  world := m

/-- The capture of an instance. -/
def capture (p : Instances ι α) (i : ι) : Option Active := (p.daemon i).bind Daemon.active

variable [DecidableEq ι]

/-- A step; nothing when it is not possible, or kills the process. -/
def next [Pcm α] (osc : Nat → α) (table : List Device) (args : ι → Args) (p : Instances ι α) :
    DaemonAct ι → Option (Instances ι α)
  | .pass i turn =>
    (p.daemon i).bind fun self =>
      (iterate osc table (args i) turn self p.world).map fun (flow, m) =>
        ⟨Function.update p.daemon i flow.daemon?, m⟩
  | .completion i c =>
    (p.daemon i).bind fun self => self.active.bind fun cap =>
      (deliver osc cap.eng c ⟨cap.st, cap.usb, p.world⟩).map fun s =>
        ⟨Function.update p.daemon i (some { self with active := some ⟨s.st, cap.eng, s.usb⟩ }),
          s.world⟩

/-- What libusb promises of a step: the completions fit the transfers of the instance's capture,
and an instance cannot claim the interface another one holds. -/
def Lawful (p : Instances ι α) : DaemonAct ι → Prop
  | .pass i turn =>
    (∀ cap, p.capture i = some cap → ∀ c ∈ turn.completions, c.Fits cap.eng) ∧
      ((∃ j, j ≠ i ∧ p.capture j ≠ none) → turn.start.claimRc ≠ 0)
  | .completion i c => ∀ cap, p.capture i = some cap → c.Fits cap.eng

/-- Every capture is sound. -/
def Sound (table : List Device) (p : Instances ι α) : Prop :=
  ∀ i self, p.daemon i = some self → self.Sound α table

/-- A run whose steps are all in `ok`. -/
inductive Run [Pcm α] (osc : Nat → α) (table : List Device) (args : ι → Args)
    (ok : Instances ι α → DaemonAct ι → Prop) (p₀ : Instances ι α) : Instances ι α → Prop
  | refl : Run osc table args ok p₀ p₀
  | tail {p q : Instances ι α} {a : DaemonAct ι} (hrun : Run osc table args ok p₀ p)
      (hok : ok p a) (hnext : p.next osc table args a = some q) : Run osc table args ok p₀ q

end Instances

open Instances

variable [DecidableEq ι] {osc : Nat → α} {table : Table} {args : ι → Args}

/-! ## Steps -/

/-- Replacing one daemon by a sound one. -/
theorem Sound.update {p : Instances ι α} (h : p.Sound table.rows) {i : ι} {next : Option Daemon}
    (hnext : ∀ self, next = some self → self.Sound α table.rows) (m : World α) :
    Instances.Sound table.rows ⟨Function.update p.daemon i next, m⟩ := by
  intro j self hself
  by_cases hij : j = i
  · subst hij
    exact hnext self (by rwa [← Function.update_self j next p.daemon])
  · exact h j self (by rwa [← Function.update_of_ne hij next p.daemon])

variable [Pcm α]

/-- **A completion** publishes its frames. -/
theorem completion_step {p q : Instances ι α} {i : ι} {c : Delivery} (hsound : p.Sound table.rows)
    (hlaw : Lawful p (.completion i c))
    (h : p.next osc table.rows args (.completion i c) = some q) :
    q.Sound table.rows ∧ p.world.shm.Grown 64 q.world.shm := by
  obtain ⟨self, hself, h⟩ := Option.bind_eq_some_iff.mp h
  obtain ⟨cap, hcap, h⟩ := Option.bind_eq_some_iff.mp h
  obtain ⟨s, hdeliver, rfl⟩ := Option.map_eq_some_iff.mp h
  obtain ⟨d, hd, heng, hacc⟩ := hsound i self hself cap hcap
  have hfits : c.Fits cap.eng := hlaw cap (by rw [Instances.capture, hself]; exact hcap)
  rw [heng] at hfits hdeliver
  have h₀ := hacc p.world
  constructor
  · refine Sound.update hsound (fun self' hself' => ?_) s.world
    cases hself'
    rintro cap' ⟨⟩
    exact ⟨d, hd, heng, (h₀.completes nofun (deliver_cases hdeliver)).world⟩
  · have hgrown := deliver_grown (table.channels_pos d hd) (table.channels_le d hd) h₀.of h₀.ids
      hfits hdeliver
    exact hgrown

/-- **A pass** has `create` fill the header, or publishes the frames of its completions, of which
there are none without a capture. -/
theorem pass_step {p q : Instances ι α} {i : ι} {turn : Turn} (hsound : p.Sound table.rows)
    (hlaw : Lawful p (.pass i turn)) (h : p.next osc table.rows args (.pass i turn) = some q) :
    q.Sound table.rows ∧ ∃ self, p.daemon i = some self ∧
      ((∃ device, Resets table.rows turn self device ∧
          q.world.shm = p.world.shm.describing device (args i).latencyFrames) ∨
        p.world.shm.Grown (turn.completions.length * 64) q.world.shm ∧
          (self.active = none → q.world.shm = p.world.shm)) := by
  obtain ⟨self, hself, h⟩ := Option.bind_eq_some_iff.mp h
  obtain ⟨⟨flow, m⟩, hiterate, rfl⟩ := Option.map_eq_some_iff.mp h
  have hflow (hnext : ∀ self', flow = .next self' → self'.Sound α table.rows) :
      Instances.Sound table.rows ⟨Function.update p.daemon i flow.daemon?, m⟩ := by
    refine Sound.update hsound (fun self' hself' => hnext self' ?_) m
    cases flow with
    | next self₁ =>
      cases hself'
      rfl
    | returned r => cases hself'
  cases hactive : self.active with
  | none =>
    obtain ⟨hshm, hnext⟩ := iterate_idle hactive hiterate
    refine ⟨hflow hnext, self, hself, hshm.imp_right ?_⟩
    rintro ⟨-, hsame⟩
    have hsame : m.shm = p.world.shm := hsame
    exact ⟨hsame ▸ Shm.grown_refl _ _, fun _ => hsame⟩
  | some cap =>
    obtain ⟨d, hd, heng, hacc⟩ := hsound i self hself cap hactive
    have hfits : ∀ c ∈ turn.completions, c.Fits (Engine.new d) := by
      rw [← heng]
      exact hlaw.1 cap (by rw [Instances.capture, hself]; exact hactive)
    obtain ⟨hgrown, hnext⟩ := iterate_active (table.channels_pos d hd) (table.channels_le d hd)
      hd hactive heng hacc hfits hiterate
    refine ⟨hflow hnext, self, hself, .inr ⟨hgrown, fun hidle => ?_⟩⟩
    rw [hactive] at hidle
    cases hidle

/-- **In every run, every capture is sound.** -/
theorem sound_run {ok : Instances ι α → DaemonAct ι → Prop} {times : ι → ℚ} {m : World α}
    {p : Instances ι α} (hok : ∀ p a, ok p a → Lawful p a)
    (hrun : Run osc table.rows args ok (Instances.init times m) p) : p.Sound table.rows := by
  induction hrun with
  | refl =>
    rintro i self ⟨⟩
    exact Daemon.sound_of_idle rfl
  | @tail p q a _ ha hnext ih =>
    cases a with
    | pass i turn => exact (pass_step ih (hok _ _ ha) hnext).1
    | completion i c => exact (completion_step ih (hok _ _ ha) hnext).1

/-! ## Instances that do not get the device -/

/-- A step that does not touch the segment for nothing: a pass has `create` change it only if it
gets the device and nobody captures. And the write head does not wrap. -/
def Spares (table : List Device) (args : ι → Args) (p : Instances ι α) (a : DaemonAct ι) : Prop :=
  (∀ i turn self device, a = .pass i turn → p.daemon i = some self →
    Resets table turn self device →
    (StartFails table (args i) turn self ∨ ∃ j, p.capture j ≠ none) →
    p.world.shm.describing device (args i).latencyFrames = p.world.shm) ∧
  p.world.shm.writeFrames.toNat + a.completions.length * 64 < 2 ^ 64

/-- What a step owes to the other instances: a failed `start_capture` leaves the segment as it
was, and the write head does not decrease while anybody captures. -/
structure LeavesAlone (table : List Device) (args : ι → Args) (p : Instances ι α)
    (a : DaemonAct ι) (q : Instances ι α) : Prop where
  failed : ∀ i turn self, a = .pass i turn → p.daemon i = some self →
    StartFails table (args i) turn self → q.world.shm = p.world.shm
  monotone : (∃ j, p.capture j ≠ none) → p.world.shm.writeFrames ≤ q.world.shm.writeFrames

/-- **Sparing steps leave the segment alone**, in every run made of them. -/
theorem failed_start_spares_segment {times : ι → ℚ} {m : World α} {p q : Instances ι α}
    {a : DaemonAct ι}
    (hrun : Run osc table.rows args (fun p a => Lawful p a ∧ Spares table.rows args p a)
      (Instances.init times m) p)
    (ha : Lawful p a ∧ Spares table.rows args p a)
    (hnext : p.next osc table.rows args a = some q) : LeavesAlone table.rows args p a q := by
  have hsound := sound_run (fun _ _ h => h.1) hrun
  obtain ⟨hlaw, hspares, hwrap⟩ := ha
  unfold DaemonAct.completions at hwrap
  cases a with
  | completion i c =>
    rw [List.length_singleton, Nat.one_mul] at hwrap
    constructor
    · rintro _ _ _ ⟨⟩
    · exact fun _ => (completion_step hsound hlaw hnext).2.le hwrap
  | pass i turn =>
    dsimp only at hwrap
    obtain ⟨-, self, hself, hcases⟩ := pass_step hsound hlaw hnext
    rcases hcases with ⟨device, hresets, hshm⟩ | ⟨hgrown, hidle⟩
    · have hspare := hspares i turn self device rfl hself hresets
      constructor
      · rintro _ _ self' ⟨⟩ hself' hfails
        cases hself.symm.trans hself'
        rw [hshm]
        exact hspare (.inl hfails)
      · intro hsome
        rw [hshm, hspare (.inr hsome)]
        exact UInt64.le_refl _
    · constructor
      · rintro _ _ self' ⟨⟩ hself' hfails
        cases hself.symm.trans hself'
        exact hidle hfails.idle
      · exact fun _ => hgrown.le hwrap

/-! ## A second instance -/

/-- A pass that finds the two-channel device; claiming its interface returns `claimRc`. -/
def findingTurn (claimRc : Int) : Turn where
  running := true
  now := 0
  events := []
  drain := []
  scan := ⟨0, [some (vidLine6, stereoDevice.productId)]⟩
  sys := .fine
  start := { StartAnswers.granted with claimRc := claimRc }

theorem lawful_finding {p : Instances Bool ℚ} {i : Bool} {claimRc : Int}
    (h : (∃ j, j ≠ i ∧ p.capture j ≠ none) → claimRc ≠ 0) :
    Lawful p (.pass i (findingTurn claimRc)) :=
  ⟨fun _ _ _ hc => absurd hc List.not_mem_nil, h⟩

/-- The first IN transfer completes with `tailedCompletion`. -/
def tailedDelivery : Delivery := ⟨0, tailedCompletion.buffer, tailedCompletion.packets, 0⟩

theorem lawful_tailed {p : Instances Bool ℚ} {i : Bool}
    (h : (p.capture i).map Active.eng = some (.new stereoDevice)) :
    Lawful p (.completion i tailedDelivery) := by
  intro cap hcap
  rw [hcap] at h
  have heng : cap.eng = Engine.new stereoDevice := Option.some.inj h
  rw [heng]
  rintro t ⟨⟩ -
  exact ⟨tailedCompletion, rfl, rfl, rfl⟩

/-- Two instances, nothing in the segment. -/
def twoInstances : Instances Bool ℚ := .init (fun _ => 0) ⟨true, Shm.zero, {}⟩

/-- No options, for either. -/
def twoArgs (_ : Bool) : Args := ⟨false, false, 64⟩

/-- A step of the two. -/
def twoStep (p : Instances Bool ℚ) (a : DaemonAct Bool) : Option (Instances Bool ℚ) :=
  p.next (fun _ => 0) monoStereo.rows twoArgs a

/-- The write head, who captures, and whether the second instance would call `create`. -/
def view (p : Instances Bool ℚ) : UInt64 × Bool × Bool × Option Bool :=
  (p.world.shm.writeFrames, (p.capture false).isSome, (p.capture true).isSome,
    (p.daemon true).map fun self => self.needsCreate stereoDevice)

theorem findingTurn_found {claimRc : Int} {device : Device}
    (h : findConnected monoStereo.rows (findingTurn claimRc).scan = some device) :
    device = stereoDevice := (Option.some.inj h).symm

/-- A second instance that starts before the first frame, and comes back after it. -/
theorem failed_start_spares_segment_twice : ∃ p q : Instances Bool ℚ,
    LeavesAlone monoStereo.rows twoArgs p (.pass true (findingTurn (-6))) q ∧
      view p = (8, true, false, some false) ∧ view q = (8, true, false, some false) := by
  obtain ⟨p₁, p₂, h₁, h₂, hshm, hpublished, heng⟩ : ∃ p₁ p₂,
      twoStep twoInstances (.pass false (findingTurn 0)) = some p₁ ∧
      twoStep p₁ (.pass true (findingTurn (-6))) = some p₂ ∧
      p₁.world.shm = Shm.zero.describing stereoDevice (twoArgs true).latencyFrames ∧
      p₂.world.shm.writeFrames = 0 ∧
      (p₂.capture false).map Active.eng = some (.new stereoDevice) :=
    ⟨_, _, rfl, rfl, rfl, rfl, rfl⟩
  have hrun : ((twoStep twoInstances (.pass false (findingTurn 0))).bind fun p₁ =>
      (twoStep p₁ (.pass true (findingTurn (-6)))).bind fun p₂ =>
        (twoStep p₂ (.completion false tailedDelivery)).bind fun p₃ =>
          (twoStep p₃ (.pass true (findingTurn (-6)))).map fun q => (view p₃, view q)) =
      some ((8, true, false, some false), (8, true, false, some false)) := by
    decide +kernel
  rw [h₁, Option.bind_some, h₂, Option.bind_some] at hrun
  obtain ⟨p₃, h₃, hrun⟩ := Option.bind_eq_some_iff.mp hrun
  obtain ⟨q, h₄, hview⟩ := Option.map_eq_some_iff.mp hrun
  have hbefore : view p₃ = (8, true, false, some false) := congrArg (·.1) hview
  have hafter : view q = (8, true, false, some false) := congrArg (·.2) hview
  have ha₁ : Spares monoStereo.rows twoArgs twoInstances
      (.pass false (findingTurn 0)) := by
    refine ⟨?_, by decide⟩
    rintro _ _ self device ⟨⟩ - - (hfails | ⟨j, hj⟩)
    · obtain ⟨device', hfound, -, e, he⟩ := hfails.failed
      rw [findingTurn_found hfound] at he
      cases he
    · exact absurd rfl hj
  have ha₂ : Spares monoStereo.rows twoArgs p₁
      (.pass true (findingTurn (-6))) := by
    rw [Spares, hshm]
    refine ⟨?_, by decide⟩
    rintro _ _ self device ⟨⟩ - hresets -
    rw [findingTurn_found hresets.found]
    rfl
  have ha₃ : Spares monoStereo.rows twoArgs p₂
      (.completion false tailedDelivery) := by
    rw [Spares, hpublished]
    exact ⟨by rintro _ _ _ _ ⟨⟩, by decide⟩
  have ha₄ : Spares monoStereo.rows twoArgs p₃
      (.pass true (findingTurn (-6))) := by
    have hwf : p₃.world.shm.writeFrames = 8 := congrArg (·.1) hbefore
    rw [Spares, hwf]
    refine ⟨?_, by decide⟩
    rintro _ _ self device ⟨⟩ hself hresets -
    have hneeds : (p₃.daemon true).map (fun self => self.needsCreate stereoDevice) = some false :=
      congrArg (·.2.2.2) hbefore
    have hneeded := hresets.needed
    rw [findingTurn_found hresets.found] at hneeded
    rw [hself, Option.map_some, hneeded] at hneeds
    cases hneeds
  have hlaw₁ : Lawful twoInstances (.pass false (findingTurn 0)) :=
    lawful_finding (by rintro ⟨j, -, hj⟩; exact absurd rfl hj)
  have hbusy {p : Instances Bool ℚ} : Lawful p (.pass true (findingTurn (-6))) :=
    lawful_finding fun _ => by decide
  have hruns : Run _ monoStereo.rows twoArgs
      (fun p a => Lawful p a ∧ Spares monoStereo.rows twoArgs p a) twoInstances p₃ :=
    ((Run.refl.tail ⟨hlaw₁, ha₁⟩ h₁).tail ⟨hbusy, ha₂⟩ h₂).tail ⟨lawful_tailed heng, ha₃⟩ h₃
  exact ⟨p₃, q, failed_start_spares_segment hruns ⟨hbusy, ha₄⟩ h₄, hbefore, hafter⟩

/-- **A second instance resets the segment of the first**, and then finds the device busy. -/
theorem busy_instance_resets_segment :
    ¬ ∀ (osc : Nat → ℚ) (table : Table) (args : Bool → Args) (times : Bool → ℚ) (m : World ℚ)
      (p : Instances Bool ℚ), Run osc table.rows args Lawful (.init times m) p →
      ∀ a q, Lawful p a → p.next osc table.rows args a = some q →
        LeavesAlone table.rows args p a q := by
  intro h
  obtain ⟨p₁, h₁, heng⟩ : ∃ p₁, twoStep twoInstances (.pass false (findingTurn 0)) = some p₁ ∧
      (p₁.capture false).map Active.eng = some (.new stereoDevice) := ⟨_, rfl, rfl⟩
  have hrun : ((twoStep twoInstances (.pass false (findingTurn 0))).bind fun p₁ =>
      (twoStep p₁ (.completion false tailedDelivery)).bind fun p₂ =>
        (twoStep p₂ (.pass true (findingTurn (-6)))).map fun q => (view p₂, view q)) =
      some ((8, true, false, some true), (0, true, false, some false)) := by
    decide +kernel
  rw [h₁, Option.bind_some] at hrun
  obtain ⟨p₂, h₂, hrun⟩ := Option.bind_eq_some_iff.mp hrun
  obtain ⟨q, h₃, hview⟩ := Option.map_eq_some_iff.mp hrun
  have hruns : Run _ monoStereo.rows _ Lawful twoInstances p₂ :=
    (Run.refl.tail (lawful_finding (by rintro ⟨j, -, hj⟩; exact absurd rfl hj)) h₁).tail
      (lawful_tailed heng) h₂
  have halone := h _ monoStereo _ _ _ p₂ hruns _ q (lawful_finding fun _ => by decide) h₃
  have hcapture : (p₂.capture false).isSome = true := congrArg (·.1.2.1) hview
  have hle := halone.monotone ⟨false, Option.isSome_iff_ne_none.mp hcapture⟩
  have hbefore : p₂.world.shm.writeFrames = 8 := congrArg (·.1.1) hview
  have hafter : q.world.shm.writeFrames = 0 := congrArg (·.2.1) hview
  rw [hbefore, hafter] at hle
  exact absurd hle (by decide)

end Line6
