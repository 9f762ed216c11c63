import Line6.Lib.Streak
import Line6.Daemon.Main

/-!
# When the daemon exits

A `DaemonRun` is any number of passes through the loop of `run_daemon`, with any answers of the
environment, and with the segment changing in any way between them. Its trace has for each pass the
answers and the variables before it, so that what the scans found (`scansOf`) and whether the loop
has seen a signal (`Signalled`) can be read off it.

* `Passed`, `iterate_passed`: every way a pass can go, as far as the count of absent scans and the
  return go.
* `ExitInv.pass`: the count is the streak of scans that found nothing.
* `DaemonRun.of_runDaemon`: a `runDaemon` that returns is such a run.
* `exit_rule`: `run_daemon` returns `Ok` without a signal exactly when `--exit-when-absent` was
  given and three scans in a row found no device, and `Err` only when `create` failed.
-/

namespace Line6

open Conc Streak

variable {α : Type}

/-! ## Scans and signals -/

/-- What the scan of a pass found, if the pass scans at all. -/
def Turn.scanned (table : List Device) (turn : Turn) (self : Daemon) : Option (Option Device) :=
  if turn.running && self.active.isNone then some (findConnected table turn.scan) else none

/-- What the scans of a run found. -/
def scansOf (table : List Device) (tr : List (Turn × Daemon)) : List (Option Device) :=
  tr.filterMap fun (turn, self) => turn.scanned table self

/-- A pass has found `RUNNING` unset, which is how the loop sees a signal. -/
def Signalled (tr : List (Turn × Daemon)) : Prop := ∃ x ∈ tr, x.1.running = false

section

variable {table : List Device} {args : Args} {turn : Turn} {self : Daemon}
  {tr : List (Turn × Daemon)}

theorem scansOf_concat : scansOf table (tr ++ [(turn, self)]) =
    scansOf table tr ++ (turn.scanned table self).toList := by
  unfold scansOf
  rw [List.filterMap_append]
  cases h : turn.scanned table self <;> simp [h]

theorem signalled_concat :
    Signalled (tr ++ [(turn, self)]) ↔ Signalled tr ∨ turn.running = false := by
  unfold Signalled
  simp

theorem Turn.scanned_of_quit (h : turn.running = false) : turn.scanned table self = none := by
  unfold scanned
  rw [h]
  rfl

theorem Turn.scanned_of_busy (h : self.active.isSome = true) :
    turn.scanned table self = none := by
  unfold scanned
  rw [Option.isNone_eq_false_iff.mpr h, Bool.and_false]
  rfl

theorem Turn.scanned_of_idle (hrunning : turn.running = true) (hidle : self.active = none) :
    turn.scanned table self = some (findConnected table turn.scan) := by
  unfold scanned
  rw [hrunning, hidle]
  rfl

/-- A pass that scans runs, with no capture. -/
theorem Turn.scanned_eq_some {found : Option Device} (h : turn.scanned table self = some found) :
    turn.running = true ∧ self.active = none ∧ findConnected table turn.scan = found := by
  unfold scanned at h
  split_ifs at h with hscan
  rw [Bool.and_eq_true, Option.isNone_iff_eq_none] at hscan
  exact ⟨hscan.1, hscan.2, Option.some.inj h⟩

/-! ## What a pass can do -/

/-- **Every way a pass can go**: what it does to the count of absent scans, and how it ends. -/
inductive Passed (α : Type) (table : List Device) (args : Args) (turn : Turn) (self : Daemon) :
    Flow → Prop
  /-- The loop has ended on a signal. -/
  | signalled (hquit : turn.running = false) :
      Passed α table args turn self (.returned (.ok ()))
  /-- A capture runs, or has been torn down by the watchdog. -/
  | served {self' : Daemon} (hrunning : turn.running = true)
      (hbusy : self.active.isSome = true) (hcount : self'.absentCount = self.absentCount) :
      Passed α table args turn self (.next self')
  /-- A device was found, whether or not the capture could be started. -/
  | found {d : Device} {self' : Daemon} (hscan : turn.scanned table self = some (some d))
      (hcount : self'.absentCount = 0) :
      Passed α table args turn self (.next self')
  /-- A device was found, and the segment could not be created. -/
  | failed {d : Device} {e : String} (m m' : World α)
      (hscan : turn.scanned table self = some (some d))
      (hcreate : exec (create d args.latencyFrames turn.sys) false m = .done false m' (.error e)) :
      Passed α table args turn self (.returned (.error e))
  /-- No device was found. -/
  | absent {self' : Daemon} (hscan : turn.scanned table self = some none)
      (hcount : args.exitWhenAbsent = true →
        self'.absentCount = self.absentCount + 1 ∧ self'.absentCount < absentExitGrace) :
      Passed α table args turn self (.next self')
  /-- No device was found once too often. -/
  | gone (hscan : turn.scanned table self = some none) (hflag : args.exitWhenAbsent = true)
      (hcount : absentExitGrace ≤ self.absentCount + 1) :
      Passed α table args turn self (.returned (.ok ()))

theorem Daemon.tryStart_absentCount {d : Device} {wf : UInt64} :
    (self.tryStart args d turn wf).absentCount = 0 := by
  unfold tryStart
  cases startCapture turn.start d args.sine <;> rfl

theorem Daemon.watchdog_absentCount {wf : UInt64} {now : ℚ} :
    (self.watchdog wf now).2.absentCount = self.absentCount := by
  unfold watchdog
  split_ifs <;> rfl

theorem iterate_passed [Pcm α] {osc : Nat → α} {m m' : World α} {flow : Flow}
    (h : iterate osc table args turn self m = some (flow, m')) :
    Passed α table args turn self flow := by
  have hscan (hrunning : turn.running = true) (hidle : self.active = none)
      {found : Option Device} (hfound : findConnected table turn.scan = found) :
      turn.scanned table self = some found := by
    rw [Turn.scanned_of_idle hrunning hidle, hfound]
  have hbusy {cap : Active} (hcap : self.active = some cap) : self.active.isSome = true := by
    rw [hcap]
    rfl
  cases iterate_iterated h with
  | quit hquit hidle => exact .signalled hquit
  | stop hquit hcap hstop => exact .signalled hquit
  | capture hrunning hcap hevents =>
    exact .served hrunning (hbusy hcap) Daemon.watchdog_absentCount
  | tearDown hrunning hcap hevents hstop =>
    exact .served hrunning (hbusy hcap) Daemon.watchdog_absentCount
  | createFails hrunning hidle hfound hfails hcreate hshm =>
    exact .failed m m' (hscan hrunning hidle hfound) hcreate
  | create hresets hshm =>
    exact .found (hscan hresets.running hresets.idle hresets.found) Daemon.tryStart_absentCount
  | keep hrunning hidle hfound hneeds =>
    exact .found (hscan hrunning hidle hfound) Daemon.tryStart_absentCount
  | absent hrunning hidle hfound hcount => exact .absent (hscan hrunning hidle hfound) hcount
  | gone hrunning hidle hfound hflag hcount =>
    exact .gone (hscan hrunning hidle hfound) hflag hcount

/-- A pass that scans always comes to its end. -/
theorem iterate_scan_isSome [Pcm α] (osc : Nat → α) (table : List Device) (args : Args)
    (hrunning : turn.running = true) (hidle : self.active = none) (m : World α) :
    (iterate osc table args turn self m).isSome = true := by
  unfold iterate
  rw [if_neg (by simpa using hrunning), hidle]
  dsimp only
  cases findConnected table turn.scan with
  | some d =>
    dsimp only
    split_ifs
    · rcases exec_create d args.latencyFrames turn.sys m with
        ⟨-, -, hexec⟩ | ⟨-, m₁, e, hexec, -⟩
      · rw [hexec]
        rfl
      · rw [hexec]
        rfl
    · rfl
  | none =>
    dsimp only
    unfold finalTeardown
    split_ifs <;> rfl

/-! ## The count over a whole run -/

/-- `--exit-when-absent` was given, and three scans in a row found no device. -/
def GoneAbsent (table : List Device) (args : Args) (tr : List (Turn × Daemon)) : Prop :=
  args.exitWhenAbsent = true ∧ List.replicate absentExitGrace none <:+: scansOf table tr

/-- A pass that scans extends the streak, or breaks it. -/
theorem goneAbsent_concat_scan {found : Option Device}
    (hscan : turn.scanned table self = some found) :
    GoneAbsent table args (tr ++ [(turn, self)]) ↔ GoneAbsent table args tr ∨
      args.exitWhenAbsent = true ∧ absentExitGrace ≤ streak none (scansOf table tr ++ [found]) := by
  unfold GoneAbsent
  rw [scansOf_concat, hscan, Option.toList_some, replicate_infix_concat, and_or_left]

theorem goneAbsent_concat_other (hscan : turn.scanned table self = none) :
    GoneAbsent table args (tr ++ [(turn, self)]) ↔ GoneAbsent table args tr := by
  unfold GoneAbsent
  rw [scansOf_concat, hscan, Option.toList_none, List.append_nil]

/-- What holds after every pass. While the loop goes on, the count is the streak of the scans that
found nothing. -/
def ExitInv (α : Type) (table : List Device) (args : Args) (tr : List (Turn × Daemon)) :
    Flow → Prop
  | .next self => ¬ Signalled tr ∧ ¬ GoneAbsent table args tr ∧
      (args.exitWhenAbsent = true → self.absentCount = streak none (scansOf table tr))
  | .returned (.ok ()) => (Signalled tr ∧ ¬ GoneAbsent table args tr) ∨
      (¬ Signalled tr ∧ GoneAbsent table args tr)
  | .returned (.error e) => ¬ GoneAbsent table args tr ∧ ∃ before turn self d,
      ∃ m m' : World α, tr = before ++ [(turn, self)] ∧ self.active = none ∧
        findConnected table turn.scan = some d ∧
        exec (create d args.latencyFrames turn.sys) false m = .done false m' (.error e)

/-- **Every pass keeps the count right**, and the loop ends as it says. -/
theorem ExitInv.pass {flow : Flow} (h : ExitInv α table args tr (.next self))
    (hpass : Passed α table args turn self flow) :
    ExitInv α table args (tr ++ [(turn, self)]) flow := by
  obtain ⟨hunsignalled, hpresent, hcounts⟩ := h
  have hquiet (hrunning : turn.running = true) : ¬ Signalled (tr ++ [(turn, self)]) := by
    rw [signalled_concat, hrunning]
    simpa using hunsignalled
  have hbroken {d : Device} (hscan : turn.scanned table self = some (some d)) :
      ¬ GoneAbsent table args (tr ++ [(turn, self)]) := by
    rw [goneAbsent_concat_scan hscan, streak_concat_of_ne (Option.some_ne_none d)]
    simpa [absentExitGrace] using hpresent
  cases hpass with
  | signalled hquit =>
    refine .inl ⟨signalled_concat.mpr (.inr hquit), ?_⟩
    rwa [goneAbsent_concat_other (Turn.scanned_of_quit hquit)]
  | served hrunning hbusy hcount =>
    have hscan : turn.scanned table self = none := Turn.scanned_of_busy hbusy
    refine ⟨hquiet hrunning, by rwa [goneAbsent_concat_other hscan], fun hflag => ?_⟩
    rw [scansOf_concat, hscan, Option.toList_none, List.append_nil, hcount, hcounts hflag]
  | @found d self' hscan hcount =>
    refine ⟨hquiet (Turn.scanned_eq_some hscan).1, hbroken hscan, fun _ => ?_⟩
    rw [scansOf_concat, hscan, Option.toList_some, streak_concat_of_ne (Option.some_ne_none d),
      hcount]
  | failed m m' hscan hcreate =>
    obtain ⟨-, hidle, hfound⟩ := Turn.scanned_eq_some hscan
    exact ⟨hbroken hscan, tr, turn, self, _, m, m', rfl, hidle, hfound, hcreate⟩
  | absent hscan hcount =>
    refine ⟨hquiet (Turn.scanned_eq_some hscan).1, ?_, fun hflag => ?_⟩
    · rw [goneAbsent_concat_scan hscan, streak_concat_self]
      rintro (hgone | ⟨hflag, hstreak⟩)
      · exact hpresent hgone
      · rw [← hcounts hflag, ← (hcount hflag).1] at hstreak
        exact absurd (hcount hflag).2 (Nat.not_lt_of_le hstreak)
    · rw [scansOf_concat, hscan, Option.toList_some, streak_concat_self, (hcount hflag).1,
        hcounts hflag]
  | gone hscan hflag hcount =>
    refine .inr ⟨hquiet (Turn.scanned_eq_some hscan).1, ?_⟩
    rw [goneAbsent_concat_scan hscan, streak_concat_self, ← hcounts hflag]
    exact .inr ⟨hflag, hcount⟩

end

/-- A run of `run_daemon`, with its trace: passes, and anything happening to the segment between
them. -/
inductive DaemonRun [Pcm α] (osc : Nat → α) (table : List Device) (args : Args) (now : ℚ) :
    List (Turn × Daemon) → Flow → World α → Prop
  | start (m : World α) : DaemonRun osc table args now [] (.next (.init now)) m
  | elsewhere {tr : List (Turn × Daemon)} {flow : Flow} {m : World α} (m' : World α)
      (h : DaemonRun osc table args now tr flow m) : DaemonRun osc table args now tr flow m'
  | pass {tr : List (Turn × Daemon)} {self : Daemon} {flow : Flow} {m m' : World α} (turn : Turn)
      (h : DaemonRun osc table args now tr (.next self) m)
      (hpass : iterate osc table args turn self m = some (flow, m')) :
      DaemonRun osc table args now (tr ++ [(turn, self)]) flow m'

section

variable [Pcm α] {osc : Nat → α} {table : List Device} {args : Args} {now : ℚ} {m m' : World α}
  {tr : List (Turn × Daemon)} {flow : Flow}

/-- What `runDaemon` returns, a run through its turns returns. -/
theorem DaemonRun.of_runDaemon {turns : List Turn} {self : Daemon} {r : Except String Unit}
    (hrun : DaemonRun osc table args now tr (.next self) m)
    (h : runDaemon osc table args turns self m = some (r, m')) :
    ∃ tr', DaemonRun osc table args now (tr ++ tr') (.returned r) m' ∧
      tr'.map Prod.fst <+: turns := by
  induction turns generalizing tr self m with
  | nil => cases h
  | cons turn turns ih =>
    unfold runDaemon at h
    cases hpass : iterate osc table args turn self m with
    | none =>
      rw [hpass] at h
      cases h
    | some out =>
      obtain ⟨flow, m₁⟩ := out
      rw [hpass] at h
      have hnext := hrun.pass turn hpass
      cases flow with
      | next self₁ =>
        obtain ⟨tr', hrun', hturns⟩ := ih hnext h
        rw [List.append_assoc] at hrun'
        exact ⟨(turn, self) :: tr', hrun', List.cons_prefix_cons.mpr ⟨rfl, hturns⟩⟩
      | returned r₁ =>
        cases h
        exact ⟨[(turn, self)], hnext, List.cons_prefix_cons.mpr ⟨rfl, List.nil_prefix⟩⟩

theorem DaemonRun.exitInv (h : DaemonRun osc table args now tr flow m) :
    ExitInv α table args tr flow := by
  induction h with
  | start m =>
    refine ⟨?_, ?_, fun _ => rfl⟩
    · simp [Signalled]
    · simp [GoneAbsent, scansOf, absentExitGrace]
  | elsewhere m' _ ih => exact ih
  | pass turn _ hpass ih => exact ih.pass (iterate_passed hpass)

/-- **The exit rule of the daemon**, in every run: what the scans found decides about the count,
so a device that could not be opened restarts it, and so does a capture that was started. -/
theorem exit_rule (h : DaemonRun osc table args now tr flow m) :
    -- It returns `Ok` without a signal exactly when three scans in a row found no device.
    ((flow = .returned (.ok ()) ∧ ¬ Signalled tr) ↔
      args.exitWhenAbsent = true ∧ List.replicate absentExitGrace none <:+: scansOf table tr) ∧
    -- Without the flag it returns `Ok` only on a signal.
    (args.exitWhenAbsent = false → flow = .returned (.ok ()) → Signalled tr) ∧
    -- It returns `Err` only when `create` failed, with no engine active.
    (∀ e, flow = .returned (.error e) → ∃ before turn self d, ∃ m₁ m₂ : World α,
      tr = before ++ [(turn, self)] ∧ self.active = none ∧
      findConnected table turn.scan = some d ∧
      exec (create d args.latencyFrames turn.sys) false m₁ = .done false m₂ (.error e)) ∧
    -- A pass that scans always comes to its end.
    ∀ self turn, flow = .next self → turn.running = true → self.active = none →
      (iterate osc table args turn self m).isSome = true := by
  have hinv := h.exitInv
  have hscans (self : Daemon) (turn : Turn) (_ : flow = .next self)
      (hrunning : turn.running = true) (hidle : self.active = none) :=
    iterate_scan_isSome osc table args hrunning hidle m
  change (_ ↔ GoneAbsent table args tr) ∧ _
  rcases flow with self | e | ⟨⟩
  · refine ⟨⟨nofun, fun hgone => absurd hgone hinv.2.1⟩, nofun, nofun, hscans⟩
  · obtain ⟨hpresent, hfailed⟩ := hinv
    refine ⟨⟨nofun, fun hgone => absurd hgone hpresent⟩, nofun, ?_, hscans⟩
    rintro e ⟨⟩
    exact hfailed
  · rcases hinv with ⟨hsignalled, hpresent⟩ | ⟨hunsignalled, hgone⟩
    · exact ⟨⟨fun h => absurd hsignalled h.2, fun hgone => absurd hgone hpresent⟩,
        fun _ _ => hsignalled, nofun, hscans⟩
    · refine ⟨⟨fun _ => hgone, fun _ => ⟨rfl, hunsignalled⟩⟩, fun hflag => ?_, nofun, hscans⟩
      rw [hgone.1] at hflag
      cases hflag

/-- A scan that finds nothing. -/
def Turn.missing (now : ℚ) : Turn where
  running := true
  now := now
  events := []
  drain := []
  scan := ⟨0, []⟩
  sys := .fine
  start := .granted

/-- A scan that finds the product, which cannot be opened. -/
def Turn.busy (productId : UInt16) (now : ℚ) : Turn :=
  { Turn.missing now with
    scan := ⟨0, [some (vidLine6, productId)]⟩
    start := { StartAnswers.granted with opened := false } }

/-- A device that cannot be opened after two scans that found nothing, and then three more. -/
theorem exit_rule_absent : ∃ (tr : List (Turn × Daemon)) (flow : Flow) (m : World ℚ),
    DaemonRun (fun _ => (0 : ℚ)) monoStereo.rows ⟨false, true, 10⟩ 0 tr flow m ∧
    scansOf monoStereo.rows tr = [none, none, some stereoDevice, none, none, none] ∧
    flow = .returned (.ok ()) := by
  have hstart : DaemonRun (fun _ => (0 : ℚ)) monoStereo.rows ⟨false, true, 10⟩ 0 [] _
      ⟨true, Shm.zero, {}⟩ := .start _
  have hfound := ((hstart.pass (.missing 0) rfl).pass (.missing 2) rfl).pass (.busy 2 4) rfl
  have hlast := ((hfound.pass (.missing 6) rfl).pass (.missing 8) rfl).pass (.missing 10) rfl
  exact ⟨_, _, _, hlast, rfl,
    ((exit_rule hlast).1.mpr ⟨rfl, [none, none, some stereoDevice], [], rfl⟩).1⟩

end

end Line6
