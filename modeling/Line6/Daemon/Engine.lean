import Mathlib.Logic.Relation
import Line6.Daemon.Framing

/-!
# Transfer accounting and the resource ledger of the engine

`Libusb.Settled` says of what was asked of libusb that it was balanced: each resource acquired
once and released once, nothing used outside. `Libusb.Holds` says that exactly the resources of
an engine are held. `EngineStep` is what can happen to a started engine: a completion at any time
until the transfers are freed, `stop`, and the release at its end.

## Results

* `usbStart_cases`: every way `start` returns, with the ledger.
* `deliver_cases`: what a completion does to the counter and to the transfers in flight.
* `accounted_step`, `accounted_run`: the counter is the number of transfers in flight, and the
  ledger is right, in every state of a started engine.
* `usbStop_run`, `usbStop_returns`: `stop` is such a run, and it returns.
* `transfer_accounting`: all of it, for every sequence of answers of libusb.
-/

namespace Line6

open Conc Conc.Prog Ledger

variable {α : Type}

/-! ## Ledgers of libusb -/

/-- What was done with the resources, in order. -/
def Libusb.touches (u : Libusb) : List (Touch Resource) := u.calls.map LibusbCall.touch

/-- Everything acquired was acquired once and released once, and used only in between. -/
structure Libusb.Settled (u : Libusb) : Prop where
  once : (acquired u.touches).Nodup
  all : (released u.touches).Perm (acquired u.touches)
  replays : replay u.touches ∅ = some ∅

/-- The resources of an engine. -/
def Engine.resources (eng : Engine) : List Resource :=
  [.context, .handle, .interface] ++ eng.ids.map .transfer

/-- Exactly the resources of the engine are held, each acquired once. -/
structure Libusb.Holds (u : Libusb) (eng : Engine) : Prop where
  acquired : acquired u.touches = eng.resources
  none : released u.touches = []
  replays : replay u.touches ∅ = some eng.resources.toFinset

theorem Engine.resources_nodup (eng : Engine) : eng.resources.Nodup := by
  have hinj : Function.Injective Resource.transfer := fun i j h => Resource.transfer.inj h
  have hids : (eng.ids.map Resource.transfer).Nodup := List.nodup_range.map hinj
  unfold Engine.resources
  simp [hids]

theorem Engine.transfer_mem {eng : Engine} {i : Nat} (hi : i ∈ eng.ids) :
    Resource.transfer i ∈ eng.resources :=
  List.mem_append_right _ (List.mem_map_of_mem hi)

@[simp] theorem Libusb.touches_call (u : Libusb) (c : LibusbCall) :
    (u.call c).touches = u.touches ++ [c.touch] := List.map_append

/-- A loop of calls. -/
theorem Libusb.foldl_call (f : Nat → LibusbCall) (is : List Nat) (u : Libusb) :
    is.foldl (fun u i => u.call (f i)) u = ⟨u.calls ++ is.map f, u.inFlight⟩ := by
  induction is generalizing u with
  | nil => simp
  | cons i is ih =>
    rw [List.foldl_cons, ih]
    unfold call
    simp

/-- Using transfers of the engine keeps what is held. -/
theorem Libusb.Holds.use {u u' : Libusb} {eng : Engine} (h : u.Holds eng) {is : List Nat}
    (his : ∀ i ∈ is, i ∈ eng.ids)
    (hu : u'.touches = u.touches ++ (is.map Resource.transfer).map .use) : u'.Holds eng where
  acquired := by rw [hu, acquired_append, acquired_map_use, List.append_nil, h.acquired]
  none := by rw [hu, released_append, released_map_use, List.append_nil, h.none]
  replays := by
    rw [hu, replay_append_of_eq h.replays]
    refine replay_useAll fun r hr => ?_
    obtain ⟨i, hi, rfl⟩ := List.mem_map.mp hr
    exact List.mem_toFinset.mpr (Engine.transfer_mem (his i hi))

/-- The resources in the order in which they are given back. -/
def Engine.givenBack (eng : Engine) : List Resource :=
  eng.ids.map .transfer ++ [.interface, .handle, .context]

theorem Engine.givenBack_perm (eng : Engine) : eng.givenBack.Perm eng.resources :=
  List.perm_append_comm.trans (List.Perm.append_right _ (by decide))

theorem Libusb.touches_shutDown (u : Libusb) (eng : Engine) :
    (u.shutDown eng.ids).touches = u.touches ++ eng.givenBack.map .release := by
  have hloop := foldl_call (fun i => .release (.transfer i)) eng.ids u
  unfold shutDown release Engine.givenBack
  rw [touches_call, touches_call, touches_call, hloop]
  unfold touches
  simp [LibusbCall.touch]

theorem Libusb.inFlight_shutDown (u : Libusb) (is : List Nat) :
    (u.shutDown is).inFlight = u.inFlight := by
  have hloop := foldl_call (fun i => .release (.transfer i)) is u
  unfold shutDown release
  rw [hloop]
  rfl

/-- **Shutting the engine down settles the ledger.** -/
theorem Libusb.Holds.shutDown {u : Libusb} {eng : Engine} (h : u.Holds eng) :
    (u.shutDown eng.ids).Settled ∧ Ledger.acquired (u.shutDown eng.ids).touches = eng.resources := by
  have hacq : Ledger.acquired (u.shutDown eng.ids).touches = eng.resources := by
    rw [touches_shutDown, acquired_append, acquired_map_release, List.append_nil, h.acquired]
  have hreplay : replay (u.shutDown eng.ids).touches ∅ = some ∅ := by
    have hnodup : eng.givenBack.Nodup := eng.givenBack_perm.nodup_iff.mpr eng.resources_nodup
    have hheld : ∀ r ∈ eng.givenBack, r ∈ eng.resources.toFinset := fun r hr =>
      List.mem_toFinset.mpr (eng.givenBack_perm.mem_iff.mp hr)
    rw [touches_shutDown, replay_append_of_eq h.replays, replay_releaseAll hnodup hheld,
      List.toFinset_eq_of_perm _ _ eng.givenBack_perm, Finset.sdiff_self]
  exact ⟨⟨hacq ▸ eng.resources_nodup, released_perm hreplay, hreplay⟩, hacq⟩

/-! ## start -/

/-- **The submit loop**: the transfers whose submission succeeds are in flight, and counted. -/
theorem submitAll_eq (submitRc : Nat → Int) (is : List Nat) (st : StreamState) (u : Libusb) :
    submitAll submitRc is (st, u) =
      ({ st with inFlight := st.inFlight + (is.filter fun i => submitRc i = 0).length },
        ⟨u.calls ++ is.map .submit, (is.filter fun i => submitRc i = 0).reverse ++ u.inFlight⟩) := by
  induction is generalizing st u with
  | nil => simp [submitAll]
  | cons i is ih =>
    unfold submitAll Libusb.submit Libusb.call
    by_cases hrc : submitRc i = 0
    · simp [ih, hrc, Int.add_assoc, Int.add_comm 1]
    · simp [ih, hrc]

/-- Acquiring the resources of an engine, and submitting its transfers. -/
theorem Libusb.holds_of_touches (eng : Engine) {u : Libusb}
    (hu : u.touches = eng.resources.map .acquire ++ (eng.ids.map Resource.transfer).map .use) :
    u.Holds eng where
  acquired := by
    rw [hu, acquired_append, acquired_map_acquire, acquired_map_use, List.append_nil]
  none := by rw [hu, released_append, released_map_acquire, released_map_use, List.append_nil]
  replays := by
    have hnew : ∀ r ∈ eng.resources, r ∉ (∅ : Finset Resource) := fun r _ => Finset.notMem_empty r
    rw [hu, replay_append_of_eq (replay_acquireAll eng.resources_nodup hnew), Finset.empty_union]
    refine replay_useAll fun r hr => ?_
    obtain ⟨i, hi, rfl⟩ := List.mem_map.mp hr
    exact List.mem_toFinset.mpr (Engine.transfer_mem hi)

/-- The transfers whose submission succeeds. -/
def StartAnswers.accepted (ans : StartAnswers) (eng : Engine) : List Nat :=
  (eng.ids.filter fun i => ans.submitRc i = 0).reverse

/-- libusb after the submit loop. -/
def Libusb.started (ans : StartAnswers) (eng : Engine) : Libusb where
  calls := eng.resources.map .acquire ++ eng.ids.map .submit
  inFlight := ans.accepted eng

theorem Libusb.started_holds (ans : StartAnswers) (eng : Engine) : (started ans eng).Holds eng := by
  refine Libusb.holds_of_touches eng ?_
  unfold touches started
  simp [LibusbCall.touch, Function.comp_def]

/-- **Every way `start` returns**: an error with the ledger settled and nothing in flight, or the
engine with its transfers. -/
theorem usbStart_cases (ans : StartAnswers) (device : Device) (st : StreamState)
    (hst : st.inFlight = 0) :
    (∃ e st' u, usbStart ans device st .fresh = (.error e, st', u) ∧ u.Settled ∧
      u.inFlight = []) ∨
    (usbStart ans device st .fresh = (.ok (Engine.new device),
        { st with inFlight := (ans.accepted (Engine.new device)).length },
        .started ans (Engine.new device)) ∧
      ans.accepted (Engine.new device) ≠ []) := by
  have hloop : submitAll ans.submitRc (Engine.new device).ids
      (st, (Engine.new device).ids.foldl (fun u i => u.acquire (.transfer i))
        (((Libusb.fresh.acquire .context).acquire .handle).acquire .interface)) =
      ({ st with inFlight := (ans.accepted (Engine.new device)).length },
        .started ans (Engine.new device)) := by
    have hacquire := Libusb.foldl_call (fun i => .acquire (.transfer i)) (Engine.new device).ids
      (((Libusb.fresh.acquire .context).acquire .handle).acquire .interface)
    unfold Libusb.acquire at hacquire ⊢
    rw [hacquire, submitAll_eq, hst]
    unfold StartAnswers.accepted Libusb.started Engine.resources
    simp [Libusb.fresh, Libusb.call, StartAnswers.accepted]
  unfold usbStart
  dsimp only
  rw [hloop]
  by_cases hinit : ans.initRc ≠ 0
  · rw [if_pos hinit]
    exact .inl ⟨_, _, _, rfl, ⟨by decide, by decide, by decide⟩, rfl⟩
  rw [if_neg hinit]
  cases hopened : ans.opened with
  | false => exact .inl ⟨_, _, _, rfl, ⟨by decide, by decide, by decide⟩, rfl⟩
  | true =>
    rw [if_neg (by decide)]
    by_cases hclaim : ans.claimRc ≠ 0
    · rw [if_pos hclaim]
      exact .inl ⟨_, _, _, rfl, ⟨by decide, by decide, by decide⟩, rfl⟩
    rw [if_neg hclaim]
    by_cases halt : ans.altRc ≠ 0
    · rw [if_pos halt]
      exact .inl ⟨_, _, _, rfl, ⟨by decide, by decide, by decide⟩, rfl⟩
    rw [if_neg halt]
    by_cases hnone : ans.accepted (Engine.new device) = []
    · refine .inl ⟨_, _, _, if_pos (by rw [hnone]; rfl), ?_, ?_⟩
      · exact (Libusb.started_holds ans _).shutDown.1
      · rw [Libusb.inFlight_shutDown]
        exact hnone
    · refine .inr ⟨if_neg fun h => hnone ?_, hnone⟩
      exact List.eq_nil_of_length_eq_zero (Int.ofNat.inj h)

/-! ## The callbacks -/

/-- What a callback leaves alone before it comes to the resubmission. -/
structure StreamState.Kept (st st' : StreamState) : Prop where
  running : st'.running = st.running
  inFlight : st'.inFlight = st.inFlight
  channels : st'.channels = st.channels
  frameBytes : st'.frameBytes = st.frameBytes
  inPktLen : st'.inPktLen = st.inPktLen

theorem StreamState.Kept.trans {st st' st'' : StreamState} (h : st.Kept st')
    (h' : st'.Kept st'') : st.Kept st'' where
  running := h'.running.trans h.running
  inFlight := h'.inFlight.trans h.inFlight
  channels := h'.channels.trans h.channels
  frameBytes := h'.frameBytes.trans h.frameBytes
  inPktLen := h'.inPktLen.trans h.inPktLen

theorem kept_onInPacket [Pcm α] (osc : Nat → α) (buffer : List UInt8) (i : Nat) (d : IsoPacket)
    (st : StreamState) : Yields st.Kept (onInPacket osc buffer i d st) := by
  have hsame : st.Kept st := ⟨rfl, rfl, rfl, rfl, rfl⟩
  have hcount {st' : StreamState} (n k p : Nat) (h : st.Kept st') : st.Kept
      { st' with isoErrors := n, unalignedPackets := k, sinePhase := p } :=
    ⟨h.running, h.inFlight, h.channels, h.frameBytes, h.inPktLen⟩
  have herr : st.Kept (if !d.completed then { st with isoErrors := st.isoErrors + 1 } else st) := by
    split_ifs
    · exact hcount _ _ _ hsame
    · exact hsame
  unfold onInPacket
  generalize (if !d.completed then { st with isoErrors := st.isoErrors + 1 } else st) = st₁ at herr
  have htail : st.Kept (if d.actualLength % st₁.frameBytes ≠ 0 then
      { st₁ with unalignedPackets := st₁.unalignedPackets + 1 } else st₁) := by
    split_ifs
    · exact hcount _ _ _ herr
    · exact herr
  dsimp only
  generalize (if d.actualLength % st₁.frameBytes ≠ 0 then
      { st₁ with unalignedPackets := st₁.unalignedPackets + 1 } else st₁) = st₂ at htail
  by_cases hlen : d.actualLength = 0
  · rw [if_pos hlen]
    exact herr
  rw [if_neg hlen]
  by_cases hbytes : st₁.frameBytes = 0
  · rw [if_pos hbytes]
    trivial
  rw [if_neg hbytes]
  by_cases hwhole : (st₂.slice i d).2 = 0
  · rw [if_pos hwhole]
    exact htail
  rw [if_neg hwhole]
  by_cases hout : buffer.length < (st₂.slice i d).1 + (st₂.slice i d).2
  · rw [if_pos hout]
    trivial
  rw [if_neg hout]
  by_cases hsine : st₂.sine = true
  · rw [if_pos hsine]
    exact (yields_any _).bind fun phase _ => hcount _ _ _ htail
  · rw [if_neg hsine]
    exact (yields_any _).bind fun _ _ => htail

theorem kept_onInPackets [Pcm α] (osc : Nat → α) (buffer : List UInt8) (ds : List IsoPacket)
    (i : Nat) (st : StreamState) : Yields st.Kept (onInPackets osc buffer ds i st) := by
  induction ds generalizing i st with
  | nil => exact ⟨rfl, rfl, rfl, rfl, rfl⟩
  | cons d ds ih =>
    refine (kept_onInPacket osc buffer i d st).bind fun st' hst' => ?_
    refine (ih (i + 1) st').mono fun st'' hst'' => hst'.trans hst''

/-- **Both callbacks end with the resubmission.** -/
theorem yields_run [Pcm α] (osc : Nat → α) (t : Transfer) (c : Delivery) (st : StreamState) :
    Yields (fun st' => ∃ st₁, st.Kept st₁ ∧ st' = st₁.resubmit c.submitRc) (t.run osc c st) := by
  unfold Transfer.run
  cases t.callback with
  | onIn =>
    exact (kept_onInPackets osc c.buffer c.packets 0 st).bind fun st₁ hst₁ => ⟨st₁, hst₁, rfl⟩
  | onOut => exact ⟨st, ⟨rfl, rfl, rfl, rfl, rfl⟩, rfl⟩

/-! ## Completions -/

/-- Whether the callback's resubmission succeeds. -/
def Resubmitted (c : Delivery) (s : Capture α) : Prop := s.st.running = true ∧ c.submitRc = 0

instance (c : Delivery) (s : Capture α) : Decidable (Resubmitted c s) :=
  inferInstanceAs (Decidable (_ ∧ _))

/-- What a completion does to the counter, to the transfers in flight and to the ledger. -/
structure Completes (c : Delivery) (s s' : Capture α) : Prop where
  was : c.transfer ∈ s.usb.inFlight
  of : ∀ d, s.st.Of d → s'.st.Of d
  running : s'.st.running = s.st.running
  counter : s'.st.inFlight = if Resubmitted c s then s.st.inFlight else s.st.inFlight - 1
  inFlight : s'.usb.inFlight = if Resubmitted c s then
    c.transfer :: s.usb.inFlight.erase c.transfer else s.usb.inFlight.erase c.transfer
  touches : s'.usb.touches = s.usb.touches ++
    ((if s.st.running then [c.transfer] else []).map Resource.transfer).map .use

theorem resubmit_eq (st : StreamState) (rc : Int) : st.resubmit rc =
    { st with inFlight := if st.running = true ∧ rc = 0 then st.inFlight else st.inFlight - 1 } := by
  unfold StreamState.resubmit
  obtain ⟨running, _⟩ := st
  cases running <;> by_cases hrc : rc = 0 <;> simp [hrc]

/-- A completion is of a transfer in flight, and its callback returned. -/
theorem deliver_exec [Pcm α] {osc : Nat → α} {eng : Engine} {c : Delivery} {s s' : Capture α}
    (h : deliver osc eng c s = some s') : c.transfer ∈ s.usb.inFlight ∧
      (∃ t l, eng.transfers[c.transfer]? = some t ∧
        exec (t.run osc c s.st) false s.world = .done l s'.world s'.st) ∧
      s'.usb = (let u := { s.usb with inFlight := s.usb.inFlight.erase c.transfer }
        if s.st.running then u.submit c.transfer c.submitRc else u) := by
  unfold deliver at h
  by_cases hmem : c.transfer ∈ s.usb.inFlight
  swap
  · rw [if_neg hmem] at h
    cases h
  rw [if_pos hmem] at h
  cases ht : eng.transfers[c.transfer]? with
  | none => rw [ht] at h; cases h
  | some t =>
    rw [ht] at h
    dsimp only at h
    cases hexec : exec (t.run osc c s.st) false s.world with
    | stuck m => rw [hexec] at h; cases h
    | trapped => rw [hexec] at h; cases h
    | done l w st =>
      rw [hexec] at h
      cases h
      exact ⟨hmem, ⟨t, l, rfl, hexec⟩, rfl⟩

/-- **What a completion does.** -/
theorem deliver_cases [Pcm α] {osc : Nat → α} {eng : Engine} {c : Delivery} {s s' : Capture α}
    (h : deliver osc eng c s = some s') : Completes c s s' := by
  obtain ⟨hmem, ⟨t, l, -, hexec⟩, husb⟩ := deliver_exec h
  obtain ⟨st₁, hkept, hst⟩ := exec_yields (yields_run osc t c s.st) hexec
  rw [resubmit_eq] at hst
  refine ⟨hmem, fun d hd => ?_, ?_, ?_, ?_, ?_⟩
  · rw [hst]
    exact ⟨hkept.channels.trans hd.channels, hkept.frameBytes.trans hd.frameBytes,
      hkept.inPktLen.trans hd.inPktLen⟩
  · rw [hst]
    exact hkept.running
  · rw [hst]
    dsimp only
    rw [hkept.running, hkept.inFlight]
    rfl
  · rw [husb]
    unfold Libusb.submit Libusb.call
    by_cases hr : s.st.running = true <;> by_cases hrc : c.submitRc = 0 <;>
      simp [Resubmitted, hr, hrc]
  · rw [husb]
    unfold Libusb.submit Libusb.call Libusb.touches
    by_cases hr : s.st.running = true <;> by_cases hrc : c.submitRc = 0 <;>
      simp [LibusbCall.touch, hr, hrc]

/-! ## Runs of a started engine -/

/-- Where an engine is: started, inside `stop`, or with its transfers freed. -/
inductive Phase where
  | capturing
  | draining
  | freed
  deriving Repr, DecidableEq

/-- What can happen to an engine. -/
inductive EngineStep [Pcm α] (osc : Nat → α) (eng : Engine) :
    Phase × Capture α → Phase × Capture α → Prop
  | completion {ph : Phase} {s s' : Capture α} (c : Delivery) (hph : ph ≠ .freed)
      (h : deliver osc eng c s = some s') : EngineStep osc eng (ph, s) (ph, s')
  | stop {s : Capture α} : EngineStep osc eng (.capturing, s) (.draining, stopRequest eng s)
  | free {s : Capture α} : EngineStep osc eng (.draining, s) (.freed, stopFree eng s)

/-- Any number of steps. -/
abbrev EngineRun [Pcm α] (osc : Nat → α) (eng : Engine) :=
  Relation.ReflTransGen (EngineStep osc eng)

/-- The accounting of an engine for `d`, phase by phase. -/
structure Accounted (eng : Engine) (d : Device) (x : Phase × Capture α) : Prop where
  of : x.2.st.Of d
  counter : x.2.st.inFlight = x.2.usb.inFlight.length
  nodup : x.2.usb.inFlight.Nodup
  ids : ∀ i ∈ x.2.usb.inFlight, i ∈ eng.ids
  stopped : x.1 ≠ .capturing → x.2.st.running = false
  held : x.1 ≠ .freed → x.2.usb.Holds eng
  settled : x.1 = .freed → x.2.usb.Settled ∧ acquired x.2.usb.touches = eng.resources

/-- **A completion keeps the accounting**, in every phase. -/
theorem Accounted.completes {eng : Engine} {d : Device} {ph : Phase} {c : Delivery}
    {s s' : Capture α} (h : Accounted eng d (ph, s)) (hph : ph ≠ .freed) (hc : Completes c s s') :
    Accounted eng d (ph, s') := by
  have hpos : 0 < s.usb.inFlight.length := List.length_pos_of_mem hc.was
  have hlen : (s.usb.inFlight.erase c.transfer).length = s.usb.inFlight.length - 1 :=
    List.length_erase_of_mem hc.was
  have hcounter : s.st.inFlight = s.usb.inFlight.length := h.counter
  have hnodup : (s.usb.inFlight.erase c.transfer).Nodup := h.nodup.erase _
  have hids : ∀ i ∈ s.usb.inFlight.erase c.transfer, i ∈ eng.ids := fun i hi =>
    h.ids i (List.mem_of_mem_erase hi)
  refine ⟨hc.of d h.of, ?_, ?_, ?_, fun hne => hc.running.trans (h.stopped hne), fun _ => ?_,
    fun hfreed => absurd hfreed hph⟩
  · show s'.st.inFlight = s'.usb.inFlight.length
    rw [hc.counter, hc.inFlight]
    split_ifs
    · rw [List.length_cons, hlen]
      omega
    · rw [hlen]
      omega
  · show s'.usb.inFlight.Nodup
    rw [hc.inFlight]
    split_ifs
    · exact List.nodup_cons.mpr ⟨h.nodup.not_mem_erase, hnodup⟩
    · exact hnodup
  · show ∀ i ∈ s'.usb.inFlight, i ∈ eng.ids
    rw [hc.inFlight]
    split_ifs
    · intro i hi
      rcases List.mem_cons.mp hi with rfl | hi
      · exact h.ids _ hc.was
      · exact hids i hi
    · exact hids
  · refine (h.held hph).use (fun i hi => ?_) hc.touches
    split_ifs at hi
    · rw [List.mem_singleton.mp hi]
      exact h.ids _ hc.was
    · cases hi

/-- A stopped engine does not submit again. -/
theorem Accounted.erases {eng : Engine} {d : Device} {ph : Phase} {c : Delivery}
    {s s' : Capture α} (h : Accounted eng d (ph, s)) (hph : ph ≠ .capturing)
    (hc : Completes c s s') : s'.usb.inFlight = s.usb.inFlight.erase c.transfer := by
  have hstopped : s.st.running = false := h.stopped hph
  rw [hc.inFlight, if_neg]
  rintro ⟨hrunning, -⟩
  rw [hstopped] at hrunning
  cases hrunning

theorem stopRequest_usb (eng : Engine) (s : Capture α) : (stopRequest eng s).usb =
    ⟨s.usb.calls ++ eng.ids.map .cancel, s.usb.inFlight⟩ := Libusb.foldl_call ..

/-- The request to stop keeps it. -/
theorem Accounted.stopRequest {eng : Engine} {d : Device} {s : Capture α}
    (h : Accounted eng d (.capturing, s)) : Accounted eng d (.draining, stopRequest eng s) := by
  refine ⟨⟨h.of.channels, h.of.frameBytes, h.of.inPktLen⟩, ?_, ?_, ?_, fun _ => rfl, fun _ => ?_,
    nofun⟩
  · rw [stopRequest_usb]
    exact h.counter
  · rw [stopRequest_usb]
    exact h.nodup
  · rw [stopRequest_usb]
    exact h.ids
  · refine (h.held nofun).use (fun _ hi => hi) ?_
    rw [stopRequest_usb]
    unfold Libusb.touches
    simp [LibusbCall.touch, Function.comp_def]

/-- **Every step keeps it.** -/
theorem accounted_step [Pcm α] {osc : Nat → α} {eng : Engine} {d : Device}
    {x y : Phase × Capture α} (h : Accounted eng d x) (hstep : EngineStep osc eng x y) :
    Accounted eng d y := by
  cases hstep with
  | completion c hph hdeliver => exact h.completes hph (deliver_cases hdeliver)
  | stop => exact h.stopRequest
  | @free s =>
    have hshut : (stopFree eng s).usb.inFlight = s.usb.inFlight := Libusb.inFlight_shutDown ..
    refine ⟨h.of, ?_, ?_, ?_, fun _ => h.stopped nofun, fun hne => absurd rfl hne,
      fun _ => (h.held nofun).shutDown⟩
    · rw [hshut]
      exact h.counter
    · rw [hshut]
      exact h.nodup
    · rw [hshut]
      exact h.ids

theorem accounted_run [Pcm α] {osc : Nat → α} {eng : Engine} {d : Device}
    {x y : Phase × Capture α} (h : Accounted eng d x) (hrun : EngineRun osc eng x y) :
    Accounted eng d y := by
  induction hrun with
  | refl => exact h
  | tail _ hstep ih => exact accounted_step ih hstep

/-- **The counter never increases.** -/
theorem counter_step [Pcm α] {osc : Nat → α} {eng : Engine} {x y : Phase × Capture α}
    (hstep : EngineStep osc eng x y) : y.2.st.inFlight ≤ x.2.st.inFlight := by
  cases hstep with
  | completion c hph hdeliver =>
    rw [(deliver_cases hdeliver).counter]
    split_ifs
    · exact le_rfl
    · exact Int.sub_le_self _ (by decide)
  | stop => exact le_rfl
  | free => exact le_rfl

/-! ## start and stop as runs -/

/-- The engine `start` leaves. -/
theorem accounted_started [Pcm α] (ans : StartAnswers) {d : Device} {st : StreamState}
    (hst : st.Of d) (m : World α) :
    Accounted (Engine.new d) d (.capturing,
      ⟨{ st with inFlight := (ans.accepted (Engine.new d)).length },
        .started ans (Engine.new d), m⟩) where
  of := ⟨hst.channels, hst.frameBytes, hst.inPktLen⟩
  counter := rfl
  nodup := List.nodup_reverse.mpr (List.nodup_range.filter _)
  ids _ hi := (List.mem_filter.mp (List.mem_reverse.mp hi)).1
  stopped h := absurd rfl h
  held _ := Libusb.started_holds ans _
  settled h := nomatch h

theorem handleEvents_run [Pcm α] {osc : Nat → α} {eng : Engine} {ph : Phase} (hph : ph ≠ .freed)
    {cs : List Delivery} {s s' : Capture α} (h : handleEvents osc eng cs s = some s') :
    EngineRun osc eng (ph, s) (ph, s') := by
  induction cs generalizing s with
  | nil =>
    cases h
    exact .refl
  | cons c cs ih =>
    obtain ⟨s₁, hdeliver, hrest⟩ := Option.bind_eq_some_iff.mp h
    exact .head (.completion c hph hdeliver) (ih hrest)

theorem drain_run [Pcm α] {osc : Nat → α} {eng : Engine} {rounds : List Round}
    {s s' : Capture α} (h : drain osc eng rounds s = some s') :
    EngineRun osc eng (.draining, s) (.draining, s') := by
  induction rounds generalizing s with
  | nil => cases h
  | cons r rounds ih =>
    have hph : Phase.draining ≠ .freed := nofun
    unfold drain at h
    split_ifs at h
    · obtain ⟨s₁, hevents, hrest⟩ := Option.bind_eq_some_iff.mp h
      exact (handleEvents_run hph hevents).trans (ih hrest)
    · cases h
      exact .refl

/-- **`stop` is a run of the engine** to the release of everything. -/
theorem usbStop_run [Pcm α] {osc : Nat → α} {eng : Engine} {rounds : List Round}
    {s s' : Capture α} (h : usbStop osc eng rounds s = some s') :
    EngineRun osc eng (.capturing, s) (.freed, s') := by
  obtain ⟨s₁, hdrain, rfl⟩ := Option.map_eq_some_iff.mp h
  exact .head .stop ((drain_run hdrain).tail .free)

/-! ## stop returns -/

/-- A completion as libusb reports it: of an IN transfer, the buffer and the packets fit it. -/
def Delivery.Fits (eng : Engine) (c : Delivery) : Prop :=
  ∀ t, eng.transfers[c.transfer]? = some t → t.callback = .onIn →
    ∃ k : Completion t, k.buffer = c.buffer ∧ k.packets = c.packets ∧ k.submitRc = c.submitRc

/-- Completions libusb can deliver to a stopped engine: each of a transfer in flight, and no
transfer twice. -/
structure Deliverable (eng : Engine) (inFlight : List Nat) (cs : List Delivery) : Prop where
  once : (cs.map Delivery.transfer).Nodup
  inFlight : ∀ c ∈ cs, c.transfer ∈ inFlight
  fits : ∀ c ∈ cs, c.Fits eng

theorem Engine.new_transfers {d : Device} {i : Nat} (hi : i ∈ (Engine.new d).ids) :
    ∃ t, (Engine.new d).transfers[i]? = some t ∧ (t = inTransfer d ∨ t = outTransfer d) := by
  have hlt : i < (Engine.new d).transfers.length := List.mem_range.mp hi
  refine ⟨(Engine.new d).transfers[i], List.getElem?_eq_getElem hlt, ?_⟩
  have hmem := List.getElem_mem hlt
  rcases List.mem_append.mp hmem with hmem | hmem
  · exact .inl (List.eq_of_mem_replicate hmem)
  · exact .inr (List.eq_of_mem_replicate hmem)

/-- A callback of a well-formed completion returns. -/
theorem deliver_returns [Pcm α] (osc : Nat → α) {d : Device} (hpos : 1 ≤ d.captureChannels.toNat)
    (hch : d.captureChannels.toNat ≤ 8) {c : Delivery} {s : Capture α} {ph : Phase}
    (h : Accounted (Engine.new d) d (ph, s)) (hmem : c.transfer ∈ s.usb.inFlight)
    (hfits : c.Fits (Engine.new d)) : ∃ s', deliver osc (Engine.new d) c s = some s' := by
  obtain ⟨t, ht, hkind⟩ := Engine.new_transfers (h.ids _ hmem)
  have hdone : ∃ w st', exec (t.run osc c s.st) false s.world = .done false w st' := by
    rcases hkind with rfl | rfl
    · obtain ⟨k, hbuffer, hpackets, hrc⟩ := hfits _ ht rfl
      obtain ⟨w, st', -, hexec, -⟩ :=
        streamed_onIn osc hpos hch (appended_nil _ s.world) h.of k false
      rw [hbuffer, hpackets, hrc] at hexec
      exact ⟨w, st', hexec⟩
    · exact ⟨s.world, _, rfl⟩
  obtain ⟨w, st', hexec⟩ := hdone
  unfold deliver
  rw [if_pos hmem, ht]
  dsimp only
  rw [hexec]
  exact ⟨_, rfl⟩

/-- **`handle_events` returns**, and what it did not deliver can still be delivered. -/
theorem handleEvents_returns [Pcm α] (osc : Nat → α) {d : Device}
    (hpos : 1 ≤ d.captureChannels.toNat) (hch : d.captureChannels.toNat ≤ 8)
    {cs more : List Delivery} {s : Capture α} (h : Accounted (Engine.new d) d (.draining, s))
    (hcs : Deliverable (Engine.new d) s.usb.inFlight (cs ++ more)) :
    ∃ s', handleEvents osc (Engine.new d) cs s = some s' ∧
      Accounted (Engine.new d) d (.draining, s') ∧
      Deliverable (Engine.new d) s'.usb.inFlight more := by
  induction cs generalizing s with
  | nil => exact ⟨s, rfl, h, hcs⟩
  | cons c cs ih =>
    have hmem : c.transfer ∈ s.usb.inFlight := hcs.inFlight c List.mem_cons_self
    obtain ⟨s₁, hdeliver⟩ := deliver_returns osc hpos hch h hmem (hcs.fits c List.mem_cons_self)
    have hc := deliver_cases hdeliver
    have hnodup := List.nodup_cons.mp hcs.once
    have hcs₁ : Deliverable (Engine.new d) s₁.usb.inFlight (cs ++ more) := by
      refine ⟨hnodup.2, fun x hx => ?_, fun x hx => hcs.fits x (List.mem_cons_of_mem c hx)⟩
      rw [h.erases nofun hc]
      refine (List.mem_erase_of_ne ?_).mpr (hcs.inFlight x (List.mem_cons_of_mem c hx))
      intro heq
      exact hnodup.1 (heq ▸ List.mem_map_of_mem hx)
    obtain ⟨s', hrest, hs'⟩ := ih (h.completes nofun hc) hcs₁
    exact ⟨s', by rw [handleEvents, hdeliver]; exact hrest, hs'⟩

/-- The drain loop ends once its clock passes the limit. -/
theorem drain_returns [Pcm α] (osc : Nat → α) {d : Device}
    (hpos : 1 ≤ d.captureChannels.toNat) (hch : d.captureChannels.toNat ≤ 8)
    {rounds : List Round} {s : Capture α} (h : Accounted (Engine.new d) d (.draining, s))
    (hrounds : Deliverable (Engine.new d) s.usb.inFlight (completions rounds))
    (htime : ∃ r ∈ rounds, 2 ≤ r.elapsed) :
    ∃ s', drain osc (Engine.new d) rounds s = some s' := by
  induction rounds generalizing s with
  | nil =>
    obtain ⟨r, hr, -⟩ := htime
    cases hr
  | cons r rounds ih =>
    obtain ⟨r', hr', hlate⟩ := htime
    unfold drain
    by_cases hguard : draining s.st r.elapsed = true
    · obtain ⟨s₁, hevents, h₁, hrest⟩ := handleEvents_returns osc hpos hch h hrounds
      rw [if_pos hguard, hevents]
      refine ih h₁ hrest ?_
      rcases List.mem_cons.mp hr' with rfl | hr'
      · have hsoon : r'.elapsed < 2 := of_decide_eq_true (Bool.and_elim_right hguard)
        exact absurd hlate (not_le.mpr hsoon)
      · exact ⟨r', hr', hlate⟩
    · rw [if_neg hguard]
      exact ⟨s, rfl⟩

/-- **`stop` returns** once its clock passes the limit. -/
theorem usbStop_returns [Pcm α] (osc : Nat → α) {d : Device}
    (hpos : 1 ≤ d.captureChannels.toNat) (hch : d.captureChannels.toNat ≤ 8)
    {rounds : List Round} {s : Capture α} (h : Accounted (Engine.new d) d (.capturing, s))
    (hrounds : Deliverable (Engine.new d) s.usb.inFlight (completions rounds))
    (htime : ∃ r ∈ rounds, 2 ≤ r.elapsed) :
    ∃ s', usbStop osc (Engine.new d) rounds s = some s' := by
  rw [← congrArg Libusb.inFlight (stopRequest_usb (Engine.new d) s)] at hrounds
  obtain ⟨s', hs'⟩ := drain_returns osc hpos hch h.stopRequest hrounds htime
  exact ⟨stopFree _ s', by rw [usbStop, hs']; rfl⟩

/-! ## The theorem -/

/-- **The ledger and the counter are right**, whatever libusb answers to `start` and whatever
happens until the end of `stop`. -/
theorem transfer_accounting [Pcm α] (osc : Nat → α) (ans : StartAnswers) (d : Device)
    (sine : Bool) :
    (∀ e st u, usbStart ans d (.new d sine) .fresh = (.error e, st, u) →
      u.Settled ∧ u.inFlight = []) ∧
    ∀ eng st u, usbStart ans d (.new d sine) .fresh = (.ok eng, st, u) →
      eng.resources = [.context, .handle, .interface] ++ (List.range 16).map .transfer ∧
      u.Holds eng ∧ u.inFlight ≠ [] ∧
      ∀ m ph s, EngineRun osc eng (.capturing, ⟨st, u, m⟩) (ph, s) →
        s.usb.inFlight.Nodup ∧ s.st.inFlight = s.usb.inFlight.length ∧ 0 ≤ s.st.inFlight ∧
        (∀ y, EngineStep osc eng (ph, s) y → y.2.st.inFlight ≤ s.st.inFlight) ∧
        (ph = .capturing → ∀ rounds,
          (∀ s', usbStop osc eng rounds s = some s' →
            s'.usb.Settled ∧ acquired s'.usb.touches = eng.resources) ∧
          (1 ≤ d.captureChannels.toNat → d.captureChannels.toNat ≤ 8 →
            Deliverable eng s.usb.inFlight (completions rounds) →
            (∃ r ∈ rounds, 2 ≤ r.elapsed) → ∃ s', usbStop osc eng rounds s = some s')) := by
  have hcases := usbStart_cases ans d (.new d sine) rfl
  constructor
  · intro e st u hstart
    rcases hcases with ⟨e', st', u', heq, hsettled, hnone⟩ | ⟨heq, -⟩
    · rw [heq] at hstart
      cases hstart
      exact ⟨hsettled, hnone⟩
    · rw [heq] at hstart
      cases hstart
  · intro eng st u hstart
    rcases hcases with ⟨e', st', u', heq, -, -⟩ | ⟨heq, hsome⟩
    · rw [heq] at hstart
      cases hstart
    rw [heq] at hstart
    cases hstart
    refine ⟨rfl, Libusb.started_holds ans _, hsome, fun m ph s hrun => ?_⟩
    have hstarted := accounted_started ans (StreamState.new_of d sine) m
    have h := accounted_run hstarted hrun
    refine ⟨h.nodup, h.counter, h.counter ▸ Int.natCast_nonneg _,
      fun y hstep => counter_step hstep, ?_⟩
    rintro rfl rounds
    constructor
    · intro s' hstop
      exact (accounted_run h (usbStop_run hstop)).settled rfl
    · intro hpos hch hrounds htime
      exact usbStop_returns osc hpos hch h hrounds htime

/-- libusb granting everything. -/
def StartAnswers.granted : StartAnswers where
  initRc := 0
  opened := true
  claimRc := 0
  altRc := 0
  submitRc _ := 0

/-- All sixteen transfers started, none delivered in the two seconds of the drain loop. -/
theorem transfer_accounting_granted :
    ∃ eng st u, usbStart .granted stereoDevice (.new stereoDevice false) .fresh =
        (.ok eng, st, u) ∧
      u.Holds eng ∧ st.inFlight = 16 ∧ ∃ s', usbStop (fun _ => (0 : ℚ)) eng [⟨0, []⟩, ⟨2, []⟩]
        ⟨st, u, ⟨true, Shm.zero, {}⟩⟩ = some s' ∧ s'.usb.Settled := by
  obtain ⟨-, hok⟩ := transfer_accounting (fun _ => (0 : ℚ)) .granted stereoDevice false
  obtain ⟨-, hholds, -, hrun⟩ := hok _ _ _ rfl
  obtain ⟨-, -, -, -, hstop⟩ := hrun ⟨true, Shm.zero, {}⟩ _ _ .refl
  obtain ⟨hsettled, hreturns⟩ := hstop rfl [⟨0, []⟩, ⟨2, []⟩]
  obtain ⟨s', hs'⟩ := hreturns (by decide) (by decide) ⟨List.nodup_nil, nofun, nofun⟩
    ⟨⟨2, []⟩, by simp, le_rfl⟩
  exact ⟨_, _, _, rfl, hholds, rfl, s', hs', (hsettled s' hs').1⟩

end Line6
