import Line6.Daemon.Engine

/-!
# Teardown of the engine (`stop`)

`stop` asks libusb to cancel the transfers, serves events while transfers are in flight and less
than two seconds have passed, and frees the transfers. The caller then drops the `StreamState`
that the transfers refer to. Nothing may be in flight at that moment.

## Results

* `drain_inFlight`: what is in flight after the drain loop.
* `teardown_safe_iff`: nothing is in flight when the transfers are freed, and no callback can run
  afterwards, exactly if each transfer in flight at `stop` completes in a `handle_events` that
  begins within the two seconds.
* `stop_frees_transfers_in_flight`: libusb may take longer, and the loop does not look at the
  counter again.
-/

namespace Line6

variable {α : Type}

/-- The iterations of the drain loop that begin in time. -/
def inTime (rounds : List Round) : List Round := rounds.takeWhile fun r => decide (r.elapsed < 2)

/-- The transfer has completed in one of the rounds. -/
def CompletedIn (rounds : List Round) (i : Nat) : Prop :=
  ∃ r ∈ rounds, ∃ c ∈ r.deliveries, c.transfer = i

/-- A stopped engine has in flight what was in flight and has not completed. -/
theorem handleEvents_inFlight [Pcm α] {osc : Nat → α} {eng : Engine} {d : Device}
    {cs : List Delivery} {s s' : Capture α} (h : Accounted eng d (.draining, s))
    (hevents : handleEvents osc eng cs s = some s') (i : Nat) :
    i ∈ s'.usb.inFlight ↔ i ∈ s.usb.inFlight ∧ ∀ c ∈ cs, c.transfer ≠ i := by
  induction cs generalizing s with
  | nil =>
    cases hevents
    simp
  | cons c cs ih =>
    obtain ⟨s₁, hdeliver, hrest⟩ := Option.bind_eq_some_iff.mp hevents
    have hc := deliver_cases hdeliver
    have herase : i ∈ s₁.usb.inFlight ↔ i ∈ s.usb.inFlight ∧ c.transfer ≠ i := by
      rw [h.erases nofun hc, h.nodup.mem_erase_iff]
      exact ⟨fun hi => ⟨hi.2, hi.1.symm⟩, fun hi => ⟨hi.2.symm, hi.1⟩⟩
    rw [ih (h.completes nofun hc) hrest, herase, List.forall_mem_cons, and_assoc]

/-- **What is in flight after the drain loop**: the loop runs through iterations that begin in
time, all of them unless nothing is left in flight. -/
theorem drain_inFlight [Pcm α] {osc : Nat → α} {eng : Engine} {d : Device} {rounds : List Round}
    {s s' : Capture α} (h : Accounted eng d (.draining, s))
    (hdrain : drain osc eng rounds s = some s') :
    ∃ done, done <+: inTime rounds ∧ (s'.usb.inFlight = [] ∨ done = inTime rounds) ∧
      ∀ i, i ∈ s'.usb.inFlight ↔ i ∈ s.usb.inFlight ∧ ¬ CompletedIn done i := by
  induction rounds generalizing s with
  | nil => cases hdrain
  | cons r rounds ih =>
    unfold drain at hdrain
    by_cases hguard : draining s.st r.elapsed = true
    · rw [if_pos hguard] at hdrain
      obtain ⟨s₁, hevents, hrest⟩ := Option.bind_eq_some_iff.mp hdrain
      have hph : Phase.draining ≠ .freed := by simp
      obtain ⟨done, hprefix, hend, hdone⟩ :=
        ih (accounted_run h (handleEvents_run hph hevents)) hrest
      have hcons : inTime (r :: rounds) = r :: inTime rounds :=
        List.takeWhile_cons_of_pos (Bool.and_elim_right hguard)
      refine ⟨r :: done, ?_, ?_, fun i => ?_⟩
      · rw [hcons]
        exact List.prefix_cons_inj r |>.mpr hprefix
      · rw [hcons]
        exact hend.imp_right fun hall => by rw [hall]
      · rw [hdone i, handleEvents_inFlight h hevents, and_assoc]
        refine and_congr_right fun _ => ?_
        unfold CompletedIn
        simp
    · rw [if_neg hguard] at hdrain
      cases hdrain
      refine ⟨[], List.nil_prefix, ?_, fun i => ?_⟩
      · by_cases hlate : r.elapsed < 2
        · left
          have hzero : ¬ 0 < s'.st.inFlight := by
            intro hpos
            exact hguard (by rw [draining, decide_eq_true hpos, decide_eq_true hlate]; rfl)
          have hcounter : s'.st.inFlight = s'.usb.inFlight.length := h.counter
          exact List.eq_nil_of_length_eq_zero (by omega)
        · right
          exact (List.takeWhile_cons_of_neg (by rwa [decide_eq_true_eq])).symm
      · unfold CompletedIn
        simp

/-- **`stop` frees the transfers with nothing in flight exactly if every transfer completes in
time.** -/
theorem teardown_safe_iff [Pcm α] (osc : Nat → α) (ans : StartAnswers) {d : Device} {sine : Bool}
    {eng : Engine} {st : StreamState} {u : Libusb}
    (hstart : usbStart ans d (.new d sine) .fresh = (.ok eng, st, u)) {m : World α}
    {s : Capture α} (hrun : EngineRun osc eng (.capturing, ⟨st, u, m⟩) (.capturing, s))
    {rounds : List Round} {s' : Capture α}
    (hdrain : drain osc eng rounds (stopRequest eng s) = some s') :
    (s'.usb.inFlight = [] ∧ ∀ c, deliver osc eng c (stopFree eng s') = none) ↔
      ∀ i ∈ s.usb.inFlight, CompletedIn (inTime rounds) i := by
  rcases usbStart_cases ans d (.new d sine) rfl with ⟨_, _, _, heq, -, -⟩ | ⟨heq, -⟩
  · rw [heq] at hstart
    cases hstart
  rw [heq] at hstart
  cases hstart
  have h := accounted_run (accounted_started ans (StreamState.new_of d sine) m) hrun
  obtain ⟨done, hprefix, hend, hdone⟩ := drain_inFlight h.stopRequest hdrain
  rw [stopRequest_usb] at hdone
  constructor
  · rintro ⟨hnone, -⟩ i hi
    have hcompleted : CompletedIn done i := by
      by_contra hnot
      have := (hdone i).mpr ⟨hi, hnot⟩
      rw [hnone] at this
      cases this
    obtain ⟨r, hr, hc⟩ := hcompleted
    exact ⟨r, hprefix.mem hr, hc⟩
  · intro hall
    have hnone : s'.usb.inFlight = [] := by
      rcases hend with hnone | rfl
      · exact hnone
      · refine List.eq_nil_iff_forall_not_mem.mpr fun i hi => ?_
        obtain ⟨hwas, hnot⟩ := (hdone i).mp hi
        exact hnot (hall i hwas)
    refine ⟨hnone, fun c => if_neg ?_⟩
    have hshut : (stopFree (Engine.new d) s').usb.inFlight = s'.usb.inFlight :=
      Libusb.inFlight_shutDown ..
    rw [hshut, hnone]
    exact List.not_mem_nil

/-- A capture just started: sixteen transfers in flight. -/
def justStarted : Capture ℚ where
  st := { StreamState.new stereoDevice false with inFlight := 16 }
  usb := .started .granted (Engine.new stereoDevice)
  world := ⟨true, Shm.zero, {}⟩

/-- A drain loop in which the sixteen transfers complete, cancelled, at once. -/
def cancelledRounds : List Round :=
  [⟨0, (List.range 16).map fun i => ⟨i, [], [], 0⟩⟩, ⟨1 / 10, []⟩]

theorem teardown_safe_granted : ∃ s' : Capture ℚ,
    drain (fun _ => 0) (Engine.new stereoDevice) cancelledRounds
      (stopRequest (Engine.new stereoDevice) justStarted) = some s' ∧ s'.usb.inFlight = [] := by
  have hstart : usbStart .granted stereoDevice (.new stereoDevice false) .fresh =
      (.ok (Engine.new stereoDevice), justStarted.st, justStarted.usb) := rfl
  obtain ⟨s', hs'⟩ : ∃ s', drain (fun _ => (0 : ℚ)) (Engine.new stereoDevice) cancelledRounds
      (stopRequest (Engine.new stereoDevice) justStarted) = some s' := ⟨_, rfl⟩
  have hall : ∀ i ∈ justStarted.usb.inFlight, CompletedIn (inTime cancelledRounds) i := by
    intro i hi
    have hlt : i < 16 := List.mem_range.mp ((accounted_started .granted
      (StreamState.new_of stereoDevice false) justStarted.world).ids i hi)
    refine ⟨⟨0, (List.range 16).map fun i => ⟨i, [], [], 0⟩⟩, ?_, ⟨i, [], [], 0⟩, ?_, rfl⟩
    · unfold inTime cancelledRounds
      simp
    · exact List.mem_map.mpr ⟨i, List.mem_range.mpr hlt, rfl⟩
  exact ⟨s', hs', ((teardown_safe_iff _ .granted hstart .refl hs').mpr hall).1⟩

/-- The iterations of the drain loop when libusb delivers nothing: one each tenth of a second. -/
def silentRounds : List Round := (List.range 21).map fun k => ⟨k / 10, []⟩

/-- **`stop` frees transfers that are in flight**, when libusb completes none for two seconds. -/
theorem stop_frees_transfers_in_flight :
    ¬ ∀ (osc : Nat → ℚ) (ans : StartAnswers) (d : Device) (sine : Bool) (eng : Engine)
      (st : StreamState) (u : Libusb), usbStart ans d (.new d sine) .fresh = (.ok eng, st, u) →
      ∀ m s, EngineRun osc eng (.capturing, ⟨st, u, m⟩) (.capturing, s) →
      ∀ rounds s', drain osc eng rounds (stopRequest eng s) = some s' → s'.usb.inFlight = [] := by
  intro h
  have hstart : usbStart .granted stereoDevice (.new stereoDevice false) .fresh =
      (.ok (Engine.new stereoDevice), justStarted.st, justStarted.usb) := rfl
  have hdrain : (drain (fun _ => (0 : ℚ)) (Engine.new stereoDevice) silentRounds
      (stopRequest (Engine.new stereoDevice) justStarted)).map (·.usb.inFlight.length) = some 16 := by
    decide +kernel
  obtain ⟨s', hs', hsixteen⟩ := Option.map_eq_some_iff.mp hdrain
  have hnone : s'.usb.inFlight = [] :=
    h _ .granted stereoDevice false _ _ _ hstart justStarted.world _ .refl _ _ hs'
  rw [hnone] at hsixteen
  cases hsixteen

end Line6
