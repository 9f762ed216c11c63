import Line6.Daemon.Loop
import Line6.System.Producer

/-!
# What the daemon captured, over a whole run

`Intake` is the stream as the device sent it: the packets of the completed IN transfers, engine by
engine, since the header was last filled. `heardFrames` is what should become of it: the whole
frames of the packets, or with `--sine` the tone, from its start in every engine. A `StreamRun` is
a `LoopRun` which takes this down as it goes. The `drain` loop of `stop` still delivers, so what
arrives during a tear-down counts as heard.

* `drain_eq`: the drain loop is `handle_events` on the completions of its rounds.
* `deliver_streams`, `handleEvents_streams`, `usbStop_streams`: completions append the frames of
  their packets.
* `StreamInv.pass`: so does a pass; `create` starts over.
* `capture_stream`: at any point of a run the segment has published exactly the frames heard since
  the header was filled, in order, whatever was torn down and rebuilt in between.
-/

namespace Line6

open Conc Conc.Prog RingLog

variable {α : Type}

/-! ## What is delivered -/

/-- The packets of a completion; those of an OUT transfer carry nothing. -/
def Engine.received (eng : Engine) (c : Delivery) : List Received :=
  match eng.transfers[c.transfer]? with
  | some t => match t.callback with
    | .onIn => receivedFrom t c.buffer c.packets 0
    | .onOut => []
  | none => []

/-- The completions the drain loop delivers. -/
def drained [Pcm α] (osc : Nat → α) (eng : Engine) : List Round → Capture α → List Delivery
  | [], _ => []
  | r :: rs, s =>
    if draining s.st r.elapsed then
      match handleEvents osc eng r.deliveries s with
      | some s => r.deliveries ++ drained osc eng rs s
      | none => []
    else []

/-- The completions a pass delivers. -/
def Daemon.delivered [Pcm α] (osc : Nat → α) (turn : Turn) (self : Daemon) (m : World α) :
    List Delivery :=
  match self.active with
  | none => []
  | some cap =>
    if !turn.running then drained osc cap.eng turn.drain (stopRequest cap.eng ⟨cap.st, cap.usb, m⟩)
    else
      match handleEvents osc cap.eng turn.events ⟨cap.st, cap.usb, m⟩ with
      | none => []
      | some s =>
        if (self.watchdog s.world.shm.writeFrames turn.now).1 then
          turn.events ++ drained osc cap.eng turn.drain (stopRequest cap.eng s)
        else turn.events

/-- The packets a pass receives. -/
def Daemon.received [Pcm α] (osc : Nat → α) (turn : Turn) (self : Daemon) (m : World α) :
    List Received :=
  match self.active with
  | none => []
  | some cap => (self.delivered osc turn m).flatMap cap.eng.received

theorem handleEvents_append [Pcm α] (osc : Nat → α) (eng : Engine) (cs more : List Delivery)
    (s : Capture α) : handleEvents osc eng (cs ++ more) s =
      (handleEvents osc eng cs s).bind (handleEvents osc eng more) := by
  induction cs generalizing s with
  | nil => rfl
  | cons c cs ih =>
    show (deliver osc eng c s).bind (handleEvents osc eng (cs ++ more)) = _
    rw [funext ih, ← Option.bind_assoc]
    rfl

/-- **The drain loop is `handle_events`** on what it delivers. -/
theorem drain_eq [Pcm α] {osc : Nat → α} {eng : Engine} {rounds : List Round} {s s' : Capture α}
    (h : drain osc eng rounds s = some s') :
    handleEvents osc eng (drained osc eng rounds s) s = some s' := by
  induction rounds generalizing s with
  | nil => cases h
  | cons r rounds ih =>
    unfold drain at h
    unfold drained
    split_ifs at h ⊢
    · obtain ⟨s₁, hevents, hrest⟩ := Option.bind_eq_some_iff.mp h
      rw [hevents, handleEvents_append, hevents]
      exact ih hrest
    · exact h

/-- It delivers nothing but what its rounds hold. -/
theorem drained_subset [Pcm α] (osc : Nat → α) (eng : Engine) (rounds : List Round)
    (s : Capture α) : drained osc eng rounds s ⊆ completions rounds := by
  induction rounds generalizing s with
  | nil => exact List.nil_subset _
  | cons r rounds ih =>
    have hsplit : completions (r :: rounds) = r.deliveries ++ completions rounds :=
      List.flatMap_cons
    unfold drained
    rw [hsplit]
    split_ifs
    · cases handleEvents osc eng r.deliveries s with
      | none => exact List.nil_subset _
      | some s₁ => exact List.append_subset.mpr ⟨List.subset_append_left _ _,
          List.subset_append_of_subset_right _ (ih s₁)⟩
    · exact List.nil_subset _

theorem Daemon.delivered_subset [Pcm α] (osc : Nat → α) (turn : Turn) (self : Daemon)
    (m : World α) : self.delivered osc turn m ⊆ turn.completions := by
  have hdrained (eng : Engine) (s : Capture α) :
      drained osc eng turn.drain s ⊆ turn.completions :=
    List.subset_append_of_subset_right _ (drained_subset osc eng turn.drain s)
  unfold delivered
  cases self.active with
  | none => exact List.nil_subset _
  | some cap =>
    dsimp only
    split_ifs
    · exact hdrained _ _
    · cases handleEvents osc cap.eng turn.events ⟨cap.st, cap.usb, m⟩ with
      | none => exact List.nil_subset _
      | some s =>
        dsimp only
        split_ifs
        · exact List.append_subset.mpr ⟨List.subset_append_left _ _, hdrained _ _⟩
        · exact List.subset_append_left _ _

section

variable [Pcm α] {osc : Nat → α} {turn : Turn} {self : Daemon} {cap : Active} {s : Capture α}
  {m : World α}

theorem Daemon.received_idle (hidle : self.active = none) : self.received osc turn m = [] := by
  unfold received
  rw [hidle]

theorem Daemon.received_of (hcap : self.active = some cap) {cs : List Delivery}
    (hcs : self.delivered osc turn m = cs) :
    self.received osc turn m = cs.flatMap cap.eng.received := by
  unfold received
  rw [hcap, hcs]

/-- At the end, what the drain loop delivers. -/
theorem Daemon.delivered_stop (hcap : self.active = some cap) (hquit : turn.running = false) :
    self.delivered osc turn m =
      drained osc cap.eng turn.drain (stopRequest cap.eng ⟨cap.st, cap.usb, m⟩) := by
  unfold delivered
  rw [hcap, hquit]
  rfl

/-- While the capture goes on, what `handle_events` delivers. -/
theorem Daemon.delivered_capture (hcap : self.active = some cap) (hrunning : turn.running = true)
    (hevents : handleEvents osc cap.eng turn.events ⟨cap.st, cap.usb, m⟩ = some s)
    (hgoing : (self.watchdog s.world.shm.writeFrames turn.now).1 = false) :
    self.delivered osc turn m = turn.events := by
  unfold delivered
  rw [hcap, hrunning]
  dsimp only
  rw [hevents]
  dsimp only
  rw [hgoing]
  rfl

/-- When the watchdog bites, both. -/
theorem Daemon.delivered_tearDown (hcap : self.active = some cap) (hrunning : turn.running = true)
    (hevents : handleEvents osc cap.eng turn.events ⟨cap.st, cap.usb, m⟩ = some s)
    (hstalled : (self.watchdog s.world.shm.writeFrames turn.now).1 = true) :
    self.delivered osc turn m =
      turn.events ++ drained osc cap.eng turn.drain (stopRequest cap.eng s) := by
  unfold delivered
  rw [hcap, hrunning]
  dsimp only
  rw [hevents]
  dsimp only
  rw [hstalled]
  rfl

end

/-! ## The stream -/

/-- The packets received since the header was filled: by the engines before the last one, in the
order of the engines, and by the last one. -/
structure Intake where
  earlier : List (List Received)
  current : List Received

/-- Nothing yet. -/
def Intake.none : Intake := ⟨[], []⟩

/-- What an event of a pass does to it. -/
def Intake.after (heard : Intake) : LoopEvent → Intake
  | .created _ => .none
  | .started _ _ _ => ⟨heard.earlier ++ [heard.current], []⟩
  | _ => heard

/-- More packets of the running engine. -/
def Intake.receive (heard : Intake) (ps : List Received) : Intake :=
  { heard with current := heard.current ++ ps }

/-- The frames of what an engine received. -/
def engineFrames [Pcm α] (osc : Nat → α) (sine : Bool) (ch : Nat) (ps : List Received) :
    List (Nat → α) :=
  if sine then toneFrames osc 0 (frameCount ch ps) else packetFrames ch ps

/-- The frames of the stream. -/
def heardFrames [Pcm α] (osc : Nat → α) (sine : Bool) (ch : Nat) (heard : Intake) :
    List (Nat → α) :=
  heard.earlier.flatMap (engineFrames osc sine ch) ++ engineFrames osc sine ch heard.current

theorem engineFrames_nil [Pcm α] (osc : Nat → α) (sine : Bool) (ch : Nat) :
    engineFrames osc sine ch [] = [] := by
  cases sine <;> rfl

theorem heardFrames_none [Pcm α] (osc : Nat → α) (sine : Bool) (ch : Nat) :
    heardFrames osc sine ch .none = [] := engineFrames_nil osc sine ch

/-- A new engine has heard nothing. -/
theorem heardFrames_started [Pcm α] (osc : Nat → α) (sine : Bool) (ch : Nat) (heard : Intake)
    (d : Device) (wf : UInt64) (now : ℚ) :
    heardFrames osc sine ch (heard.after (.started d wf now)) = heardFrames osc sine ch heard := by
  unfold heardFrames Intake.after
  simp [engineFrames_nil]

/-- What the completions of a fresh engine appended is what they should. -/
theorem Streamed.engineFrames [Pcm α] {osc : Nat → α} {d : Device} {sine : Bool}
    {ps : List Received} {log : List (Nat → α)} {st : StreamState}
    (h : Streamed osc d ps log (.new d sine) st) :
    log = engineFrames osc sine d.captureChannels.toNat ps := by
  cases sine with
  | false => exact h.captured rfl
  | true => exact h.tone rfl

/-- The request to stop does not concern the stream. -/
theorem Streamed.of_stopped [Pcm α] {osc : Nat → α} {d : Device} {ps : List Received}
    {log : List (Nat → α)} {st st' : StreamState}
    (h : Streamed osc d ps log { st with running := false } st') :
    Streamed osc d ps log st st' :=
  ⟨h.of, h.sine, h.captured, h.tone, h.phase, h.isoErrors, h.unaligned⟩

/-! ## Completions append their frames -/

section

variable [Pcm α] {osc : Nat → α} {d : Device} {s s' : Capture α} {m₀ : World α}
  {log : List (Nat → α)}

/-- **A completion appends the frames of its packets.** -/
theorem deliver_streams (hpos : 1 ≤ d.captureChannels.toNat) (hch : d.captureChannels.toNat ≤ 8)
    {c : Delivery} (hst : s.st.Of d) (hfits : c.Fits (Engine.new d))
    (h : deliver osc (Engine.new d) c s = some s')
    (hm : Appended d.captureChannels.toNat log m₀ s.world) :
    ∃ more, Appended d.captureChannels.toNat (log ++ more) m₀ s'.world ∧
      Streamed osc d ((Engine.new d).received c) more s.st s'.st := by
  obtain ⟨-, ⟨t, l, ht, hexec⟩, -⟩ := deliver_exec h
  have hid : c.transfer ∈ (Engine.new d).ids :=
    List.mem_range.mpr (List.getElem?_eq_some_iff.mp ht).1
  obtain ⟨t', ht', hkind⟩ := Engine.new_transfers hid
  obtain rfl := Option.some.inj (ht.symm.trans ht')
  unfold Engine.received
  rw [ht]
  rcases hkind with rfl | rfl
  · obtain ⟨k, hbuffer, hpackets, hrc⟩ := hfits _ ht rfl
    obtain ⟨w, st', more, hexec', hm', hstream⟩ := streamed_onIn osc hpos hch hm hst k false
    unfold Completion.received at hstream
    rw [hbuffer, hpackets, hrc] at hexec'
    rw [hbuffer, hpackets] at hstream
    have heq := hexec.symm.trans hexec'
    cases heq
    exact ⟨more, hm', hstream⟩
  · have hout : exec ((outTransfer d).run osc c s.st) false s.world =
        .done false s.world (s.st.resubmit c.submitRc) := rfl
    have heq := hexec.symm.trans hout
    injection heq with _ hworld hst'
    rw [hworld, hst']
    exact ⟨[], (List.append_nil log).symm ▸ hm, (streamed_nil osc hst).resubmit _⟩

/-- So do all the completions of a call of `handle_events`. -/
theorem handleEvents_streams (hpos : 1 ≤ d.captureChannels.toNat)
    (hch : d.captureChannels.toNat ≤ 8) {cs : List Delivery} (hst : s.st.Of d)
    (hfits : ∀ c ∈ cs, c.Fits (Engine.new d))
    (h : handleEvents osc (Engine.new d) cs s = some s')
    (hm : Appended d.captureChannels.toNat log m₀ s.world) :
    ∃ more, Appended d.captureChannels.toNat (log ++ more) m₀ s'.world ∧
      Streamed osc d (cs.flatMap (Engine.new d).received) more s.st s'.st := by
  induction cs generalizing s log with
  | nil =>
    cases h
    exact ⟨[], (List.append_nil log).symm ▸ hm, streamed_nil osc hst⟩
  | cons c cs ih =>
    obtain ⟨s₁, hdeliver, hrest⟩ := Option.bind_eq_some_iff.mp h
    obtain ⟨log₁, hm₁, hstream₁⟩ :=
      deliver_streams hpos hch hst (hfits c List.mem_cons_self) hdeliver hm
    obtain ⟨log₂, hm₂, hstream₂⟩ :=
      ih hstream₁.of (fun x hx => hfits x (List.mem_cons_of_mem c hx)) hrest hm₁
    refine ⟨log₁ ++ log₂, ?_, hstream₁.trans hstream₂⟩
    rwa [← List.append_assoc]

/-- And those that come in while the engine is stopped. -/
theorem usbStop_streams (hpos : 1 ≤ d.captureChannels.toNat) (hch : d.captureChannels.toNat ≤ 8)
    {eng : Engine} (heng : eng = Engine.new d) {rounds : List Round} (hst : s.st.Of d)
    (hfits : ∀ c ∈ drained osc eng rounds (stopRequest eng s), c.Fits eng)
    (h : usbStop osc eng rounds s = some s')
    (hm : Appended d.captureChannels.toNat log m₀ s.world) :
    ∃ more, Appended d.captureChannels.toNat (log ++ more) m₀ s'.world ∧
      Streamed osc d ((drained osc eng rounds (stopRequest eng s)).flatMap eng.received) more
        s.st s'.st := by
  obtain ⟨s₁, hdrain, rfl⟩ := Option.map_eq_some_iff.mp h
  have hevents := drain_eq hdrain
  have hst₀ : (stopRequest eng s).st = { s.st with running := false } := rfl
  have hworld : (stopRequest eng s).world = s.world := rfl
  have hfree : (stopFree eng s₁).world = s₁.world ∧ (stopFree eng s₁).st = s₁.st := ⟨rfl, rfl⟩
  rw [hfree.1, hfree.2]
  rw [← hworld] at hm
  generalize stopRequest eng s = s₀ at hevents hfits hst₀ hm ⊢
  subst heng
  have hof : s₀.st.Of d := by
    rw [hst₀]
    exact ⟨hst.channels, hst.frameBytes, hst.inPktLen⟩
  obtain ⟨more, hm', hstream⟩ := handleEvents_streams hpos hch hof hfits hevents hm
  rw [hst₀] at hstream
  exact ⟨more, hm', hstream.of_stopped⟩

end

/-! ## The invariant -/

/-- What was published since the write head was zero, as frames appended to some segment. -/
theorem published_iff_appended {ch : Nat} {log : List (Nat → α)} {m : World α} :
    Published ch log m ↔ ∃ m₀, m₀.shm.writeFrames = 0 ∧ Appended ch log m₀ m := by
  constructor
  · rintro ⟨hhead, hres⟩
    refine ⟨{ m with shm := { m.shm with writeFrames := 0 } }, rfl, m.shm.ring, ?_, hres⟩
    have hzero : ((0 : UInt64).toNat + log.length) = log.length := Nat.zero_add _
    dsimp only
    rw [hzero, ← hhead]
  · rintro ⟨m₀, hzero, ring, rfl, hres⟩
    rw [hzero] at hres
    refine ⟨?_, hres⟩
    dsimp only
    rw [hzero]
    exact congrArg UInt64.ofNat (Nat.zero_add _)

/-- The segment, the running engine and what was heard. -/
structure StreamInv [Pcm α] (osc : Nat → α) (args : Args) (m₀ : World α) (log : List LoopEvent)
    (heard : Intake) (flow : Flow) (m : World α) : Prop where
  untouched : lastCreated log = none → m.shm = m₀.shm
  published : ∀ d, lastCreated log = some d → Published d.captureChannels.toNat
    (heardFrames osc args.sine d.captureChannels.toNat heard) m
  running : ∀ self cap d, flow = .next self → self.active = some cap →
    lastCreated log = some d → Streamed osc d heard.current
      (engineFrames osc args.sine d.captureChannels.toNat heard.current) (.new d args.sine) cap.st

/-- What a pass makes of what was heard: first its completions, then its events. -/
def Intake.pass (heard : Intake) (ps : List Received) (evs : List LoopEvent) : Intake :=
  evs.foldl Intake.after (heard.receive ps)

theorem Intake.receive_nil (heard : Intake) : heard.receive [] = heard := by
  unfold receive
  rw [List.append_nil]

theorem Intake.receive_append (heard : Intake) (ps qs : List Received) :
    heard.receive (ps ++ qs) = (heard.receive ps).receive qs := by
  unfold receive
  rw [List.append_assoc]

section

variable [Pcm α] {osc : Nat → α} {d : Device} {sine : Bool} {heard : Intake} {m m' : World α}

/-- **The engine has heard more**, and its frames are appended. -/
theorem heard_more {ps : List Received} {st st' : StreamState}
    (hpub : Published d.captureChannels.toNat
      (heardFrames osc sine d.captureChannels.toNat heard) m)
    (hst : Streamed osc d heard.current
      (engineFrames osc sine d.captureChannels.toNat heard.current) (.new d sine) st)
    (hmore : ∀ {m₀ log}, Appended d.captureChannels.toNat log m₀ m →
      ∃ more, Appended d.captureChannels.toNat (log ++ more) m₀ m' ∧
        Streamed osc d ps more st st') :
    Published d.captureChannels.toNat
        (heardFrames osc sine d.captureChannels.toNat (heard.receive ps)) m' ∧
      Streamed osc d (heard.receive ps).current
        (engineFrames osc sine d.captureChannels.toNat (heard.receive ps).current)
        (.new d sine) st' := by
  obtain ⟨m₀, hzero, hm⟩ := published_iff_appended.mp hpub
  obtain ⟨more, hm', hstream⟩ := hmore hm
  have hall := hst.trans hstream
  have hframes := hall.engineFrames
  rw [hframes] at hall
  refine ⟨published_iff_appended.mpr ⟨m₀, hzero, ?_⟩, hall⟩
  unfold heardFrames at hm' ⊢
  rw [List.append_assoc, hframes] at hm'
  exact hm'

/-- A fresh engine has heard nothing. -/
theorem streamed_started (osc : Nat → α) (d : Device) (sine : Bool) (inFlight : Int) :
    Streamed osc d [] (engineFrames osc sine d.captureChannels.toNat []) (.new d sine)
      { StreamState.new d sine with inFlight := inFlight } := by
  have hnil := streamed_nil osc (StreamState.new_of d sine)
  rw [engineFrames_nil]
  exact ⟨⟨rfl, rfl, rfl⟩, hnil.sine, hnil.captured, hnil.tone, hnil.phase, hnil.isoErrors,
    hnil.unaligned⟩

/-- With a capture running, a pass returns exactly after the signal. -/
theorem iterateLogged_running {table : List Device} {args : Args} {turn : Turn} {self : Daemon}
    {flow : Flow} {evs : List LoopEvent} {cap : Active} (hcap : self.active = some cap)
    (h : iterateLogged osc table args turn self m = some (flow, m', evs)) :
    turn.running = true ↔ ∃ self', flow = .next self' := by
  have hpass : iterate osc table args turn self m = some (flow, m') := by
    rw [← iterateLogged_erase, h]
    rfl
  have hbusy (hidle : self.active = none) : False := by
    rw [hcap] at hidle
    cases hidle
  cases iterate_iterated hpass with
  | stop hquit _ _ => simp [hquit]
  | capture hrunning _ _ => exact iff_of_true hrunning ⟨_, rfl⟩
  | tearDown hrunning _ _ _ => exact iff_of_true hrunning ⟨_, rfl⟩
  | quit _ hidle => exact (hbusy hidle).elim
  | createFails _ hidle _ _ _ _ => exact (hbusy hidle).elim
  | create hresets _ => exact (hbusy hresets.idle).elim
  | keep _ hidle _ _ => exact (hbusy hidle).elim
  | absent _ hidle _ _ => exact (hbusy hidle).elim
  | gone _ hidle _ _ _ => exact (hbusy hidle).elim

/-- What `start_capture` leaves: no engine and no event, or a fresh engine. -/
theorem tryStartLogged_cases {self self' : Daemon} {args : Args} {turn : Turn} {wf : UInt64}
    {evs : List LoopEvent} (hidle : self.active = none)
    (h : self.tryStartLogged args d turn wf = (self', evs)) :
    (self'.active = none ∧ evs = []) ∨
    (∃ inFlight eng usb, self'.active =
        some ⟨{ StreamState.new d args.sine with inFlight := inFlight }, eng, usb⟩) ∧
      evs = [.started d wf turn.now] := by
  unfold Daemon.tryStartLogged at h
  rcases startCapture_cases turn.start d args.sine with ⟨e, hstart⟩ | hstart
  · rw [hstart] at h
    cases h
    exact .inl ⟨hidle, rfl⟩
  · rw [hstart] at h
    cases h
    exact .inr ⟨⟨_, _, _, rfl⟩, rfl⟩

/-- `start_capture` keeps the stream. -/
theorem StreamInv.tryStart {args : Args} {m₀ : World α} {log evs : List LoopEvent}
    {self self' : Daemon} {turn : Turn} {wf : UInt64}
    (h : StreamInv osc args m₀ log heard (.next self) m) (hidle : self.active = none)
    (hcreated : lastCreated log = some d)
    (hstart : self.tryStartLogged args d turn wf = (self', evs)) :
    StreamInv osc args m₀ (log ++ evs) (evs.foldl Intake.after heard) (.next self') m := by
  rcases tryStartLogged_cases hidle hstart with ⟨hidle', rfl⟩ | ⟨⟨n, eng, usb, hactive⟩, rfl⟩
  · rw [List.append_nil]
    refine ⟨h.untouched, h.published, ?_⟩
    rintro _ cap d' ⟨⟩ hcap -
    rw [hidle'] at hcap
    cases hcap
  · have hlast : lastCreated (log ++ [.started d wf turn.now]) = lastCreated log :=
      lastCreated_snoc ..
    refine ⟨?_, ?_, ?_⟩
    · rw [hlast]
      exact h.untouched
    · rw [hlast]
      intro d' hd'
      have hsame := heardFrames_started osc args.sine d'.captureChannels.toNat heard d wf turn.now
      exact hsame ▸ h.published d' hd'
    · rw [hlast, hcreated]
      rintro _ cap d' ⟨⟩ hcap ⟨⟩
      rw [hactive] at hcap
      cases hcap
      exact streamed_started osc d args.sine n

omit [Pcm α] in
/-- The device of a running capture. -/
theorem LoopInv.capturing {table : List Device} {log : List LoopEvent} {self : Daemon}
    (h : LoopInv table log self m) {cap : Active} (hcap : self.active = some cap) :
    ∃ d ∈ table, lastCreated log = some d ∧ cap.eng = Engine.new d ∧ cap.st.Of d := by
  obtain ⟨hptr, -, d, hcreated, heng, hof⟩ := h.running cap hcap
  obtain ⟨d', hd, hcreated', -⟩ := h.described hptr
  obtain rfl := Option.some.inj (hcreated.symm.trans hcreated')
  exact ⟨d, hd, hcreated, heng, hof⟩

/-- A pass with a capture running, from what it appended. -/
theorem streamInv_served {args : Args} {m₀ : World α} {log evs : List LoopEvent} {flow : Flow}
    {ps : List Received} {st : StreamState} (hcreated : lastCreated log = some d)
    (hlast : lastCreated (log ++ evs) = lastCreated log)
    (hboth : Published d.captureChannels.toNat
        (heardFrames osc args.sine d.captureChannels.toNat (heard.receive ps)) m ∧
      Streamed osc d (heard.receive ps).current
        (engineFrames osc args.sine d.captureChannels.toNat (heard.receive ps).current)
        (.new d args.sine) st)
    (hactive : ∀ self cap, flow = .next self → self.active = some cap → cap.st = st) :
    StreamInv osc args m₀ (log ++ evs) (heard.receive ps) flow m := by
  refine ⟨?_, ?_, ?_⟩
  · rw [hlast, hcreated]
    rintro ⟨⟩
  · rw [hlast, hcreated]
    rintro _ ⟨⟩
    exact hboth.1
  · rw [hlast, hcreated]
    rintro self cap _ hflow hcap ⟨⟩
    rw [hactive self cap hflow hcap]
    exact hboth.2

/-- What libusb promises of the completions of a pass. -/
def PassFits (osc : Nat → α) (turn : Turn) (self : Daemon) (m : World α) : Prop :=
  ∀ cap, self.active = some cap → ∀ c ∈ self.delivered osc turn m, c.Fits cap.eng

section

variable {table : List Device} {args : Args} {m₀ : World α} {log evs : List LoopEvent}
  {self self' : Daemon} {turn : Turn} {flow : Flow} {cap : Active} {s s' : Capture α}
  (h : StreamInv osc args m₀ log heard (.next self) m) (hloop : LoopInv table log self m)
  (hcount : ∀ d ∈ table, 1 ≤ d.captureChannels.toNat ∧ d.captureChannels.toNat ≤ 8)
  (hfits : PassFits osc turn self m)
include h hloop

include hcount hfits in
/-- The signal: what the drain loop delivers is appended. -/
theorem StreamInv.stop (hcap : self.active = some cap) (hquit : turn.running = false)
    (hstop : usbStop osc cap.eng turn.drain ⟨cap.st, cap.usb, m⟩ = some s)
    (r : Except String Unit) : StreamInv osc args m₀ (log ++ [.stopped])
      (heard.receive (self.received osc turn m)) (.returned r) s.world := by
  obtain ⟨d, hd, hcreated, heng, hof⟩ := hloop.capturing hcap
  obtain ⟨hpos, hch⟩ := hcount d hd
  have hdelivered : self.delivered osc turn m = _ := Daemon.delivered_stop hcap hquit
  have hdeliver := hfits cap hcap
  rw [hdelivered] at hdeliver
  rw [Daemon.received_of hcap hdelivered]
  have hboth := heard_more (h.published d hcreated) (h.running self cap d rfl hcap hcreated)
    fun hm => usbStop_streams hpos hch heng hof hdeliver hstop hm
  refine streamInv_served hcreated (lastCreated_snoc ..) hboth ?_
  rintro _ _ ⟨⟩

include hcount hfits in
/-- A pass that goes on capturing. -/
theorem StreamInv.capture (hcap : self.active = some cap) (hrunning : turn.running = true)
    (hevents : handleEvents osc cap.eng turn.events ⟨cap.st, cap.usb, m⟩ = some s)
    (hgoing : (self.watchdog s.world.shm.writeFrames turn.now).1 = false)
    (hnext : self'.active = some ⟨s.st, cap.eng, s.usb⟩) :
    StreamInv osc args m₀ (log ++ [.observed s.world.shm.writeFrames turn.now])
      (heard.receive (self.received osc turn m)) (.next self') s.world := by
  obtain ⟨d, hd, hcreated, heng, hof⟩ := hloop.capturing hcap
  obtain ⟨hpos, hch⟩ := hcount d hd
  have hdelivered := Daemon.delivered_capture hcap hrunning hevents hgoing
  have hdeliver := hfits cap hcap
  rw [hdelivered] at hdeliver
  rw [Daemon.received_of hcap hdelivered]
  rw [heng] at hevents hdeliver ⊢
  have hboth := heard_more (h.published d hcreated) (h.running self cap d rfl hcap hcreated)
    fun hm => handleEvents_streams hpos hch hof hdeliver hevents hm
  refine streamInv_served hcreated (lastCreated_snoc ..) hboth ?_
  rintro _ cap' ⟨⟩ hcap'
  rw [hnext] at hcap'
  cases hcap'
  rfl

include hcount hfits in
/-- A pass in which the watchdog bites. -/
theorem StreamInv.tearDown (hcap : self.active = some cap) (hrunning : turn.running = true)
    (hevents : handleEvents osc cap.eng turn.events ⟨cap.st, cap.usb, m⟩ = some s)
    (hstalled : (self.watchdog s.world.shm.writeFrames turn.now).1 = true)
    (hstop : usbStop osc cap.eng turn.drain s = some s') (hnext : self'.active = none) :
    StreamInv osc args m₀
      (log ++ [.observed s.world.shm.writeFrames turn.now, .tornDown turn.now])
      (heard.receive (self.received osc turn m)) (.next self') s'.world := by
  obtain ⟨d, hd, hcreated, heng, hof⟩ := hloop.capturing hcap
  obtain ⟨hpos, hch⟩ := hcount d hd
  have hdelivered := Daemon.delivered_tearDown hcap hrunning hevents hstalled
  have hdeliver := hfits cap hcap
  rw [hdelivered] at hdeliver
  rw [Daemon.received_of hcap hdelivered, List.flatMap_append, Intake.receive_append]
  have hsooner (c : Delivery) (hc : c ∈ turn.events) : c.Fits (Engine.new d) :=
    heng ▸ hdeliver c (List.mem_append_left _ hc)
  have hlater (c : Delivery) (hc : c ∈ drained osc cap.eng turn.drain (stopRequest cap.eng s)) :
      c.Fits cap.eng := hdeliver c (List.mem_append_right _ hc)
  have hof' : s.st.Of d := handleEvents_of hof hevents
  rw [heng] at hevents
  -- The completions before the watchdog bites, then those of the drain loop.
  have hserved := heard_more (h.published d hcreated) (h.running self cap d rfl hcap hcreated)
    fun hm => handleEvents_streams hpos hch hof hsooner hevents hm
  rw [← heng] at hserved
  have hboth := heard_more hserved.1 hserved.2
    fun hm => usbStop_streams hpos hch heng hof' hlater hstop hm
  have hlast : lastCreated (log ++ [.observed s.world.shm.writeFrames turn.now,
      .tornDown turn.now]) = lastCreated log := by
    rw [List.append_cons, lastCreated_snoc, lastCreated_snoc]
  refine streamInv_served hcreated hlast hboth ?_
  rintro _ cap' ⟨⟩ hcap'
  rw [hnext] at hcap'
  cases hcap'

omit h hloop in
/-- `create` fills the header, and the stream starts over. -/
theorem streamInv_create (hidle : self.active = none) (d : Device)
    (hshm : m'.shm = m.shm.describing d args.latencyFrames)
    (hstart : { self with shmPtr := true, shmPid := d.productId }.tryStartLogged args d turn
      m'.shm.writeFrames = (self', evs)) :
    StreamInv osc args m₀ (log ++ .scanned d :: .created d :: evs)
      (evs.foldl Intake.after .none) (.next self') m' := by
  have hlast : lastCreated (log ++ [.scanned d] ++ [.created d]) = some d := lastCreated_snoc ..
  have hcreated : StreamInv osc args m₀ (log ++ [.scanned d] ++ [.created d]) .none
      (.next { self with shmPtr := true, shmPid := d.productId }) m' := by
    refine ⟨?_, ?_, ?_⟩
    · rw [hlast]
      rintro ⟨⟩
    · rw [hlast]
      rintro _ ⟨⟩
      rw [heardFrames_none]
      unfold Published
      rw [hshm]
      exact ⟨rfl, resident_nil⟩
    · rintro _ cap _ ⟨⟩ hcap
      rw [hidle] at hcap
      cases hcap
  have hstarted := hcreated.tryStart hidle hlast hstart
  rwa [List.append_assoc, List.append_assoc] at hstarted

/-- A scan that finds the device the header is for: the stream goes on. -/
theorem StreamInv.keep (hdistinct : (table.map Device.productId).Nodup)
    (hidle : self.active = none) (hd : d ∈ table) (hneeds : self.needsCreate d = false)
    (hstart : self.tryStartLogged args d turn m.shm.writeFrames = (self', evs)) :
    StreamInv osc args m₀ (log ++ .scanned d :: evs) (evs.foldl Intake.after heard) (.next self')
      m := by
  obtain ⟨-, -, hcreated⟩ := hloop.keep hidle hdistinct hd hneeds
  have hlast : lastCreated (log ++ [.scanned d]) = lastCreated log := lastCreated_snoc ..
  have hkept : StreamInv osc args m₀ (log ++ [.scanned d]) heard (.next self) m := by
    refine ⟨?_, ?_, ?_⟩
    · rw [hlast]
      exact h.untouched
    · rw [hlast]
      exact h.published
    · rw [hlast]
      exact h.running
  have hstarted := hkept.tryStart hidle hcreated hstart
  rwa [List.append_assoc] at hstarted

end

/-- **A pass appends what it hears**; one that fills the header starts over. -/
theorem StreamInv.pass {table : List Device} (hdistinct : (table.map Device.productId).Nodup)
    (hcount : ∀ d ∈ table, 1 ≤ d.captureChannels.toNat ∧ d.captureChannels.toNat ≤ 8)
    {args : Args} {m₀ : World α} {log evs : List LoopEvent} {self : Daemon} {turn : Turn}
    {flow : Flow} (hloop : LoopInv table log self m)
    (h : StreamInv osc args m₀ log heard (.next self) m) (hfits : PassFits osc turn self m)
    (hpass : iterateLogged osc table args turn self m = some (flow, m', evs)) :
    StreamInv osc args m₀ (log ++ evs) (heard.pass (self.received osc turn m) evs) flow m' := by
  have hquiet (hidle : self.active = none) : heard.receive (self.received osc turn m) = heard := by
    rw [Daemon.received_idle hidle]
    exact heard.receive_nil
  unfold Intake.pass
  cases iterateLogged_pass hpass with
  | quit hidle =>
    rw [List.append_nil, List.foldl_nil, hquiet hidle]
    refine ⟨h.untouched, h.published, ?_⟩
    rintro _ _ _ ⟨⟩
  | stop hcap hstop =>
    have hnot := mt (iterateLogged_running hcap hpass).mp (by rintro ⟨_, ⟨⟩⟩)
    exact h.stop hloop hcount hfits hcap (Bool.eq_false_of_not_eq_true hnot) hstop _
  | capture hcap hevents hgoing =>
    have hrunning : turn.running = true := (iterateLogged_running hcap hpass).mpr ⟨_, rfl⟩
    exact h.capture hloop hcount hfits hcap hrunning hevents hgoing rfl
  | tearDown hcap hevents hstalled hstop =>
    have hrunning : turn.running = true := (iterateLogged_running hcap hpass).mpr ⟨_, rfl⟩
    exact h.tearDown hloop hcount hfits hcap hrunning hevents hstalled hstop rfl
  | @createFails d _ e hidle hneeds hshm =>
    have hlast : lastCreated (log ++ [.scanned d]) = lastCreated log := lastCreated_snoc ..
    rw [hquiet hidle]
    refine ⟨?_, ?_, ?_⟩
    · rw [hlast, hshm]
      exact h.untouched
    · rw [hlast]
      unfold Published
      rw [hshm]
      exact h.published
    · rintro _ _ _ ⟨⟩
  | create hidle hd hneeds hshm hstart => exact streamInv_create hidle _ hshm hstart
  | keep hidle hd hneeds hstart =>
    rw [hquiet hidle]
    exact h.keep hloop hdistinct hidle hd hneeds hstart
  | absent count hidle =>
    rw [List.append_nil, List.foldl_nil, hquiet hidle]
    refine ⟨h.untouched, h.published, ?_⟩
    rintro _ cap _ ⟨⟩ hcap
    rw [hidle] at hcap
    cases hcap

/-! ## Whole runs -/

/-- A run of `run_daemon`, with its log and what was heard since the header was filled. Between
the passes anyone may read the segment. -/
inductive StreamRun (osc : Nat → α) (table : List Device) (args : Args) (now : ℚ) (m₀ : World α) :
    List LoopEvent → Intake → Flow → World α → Prop
  | start : StreamRun osc table args now m₀ [] .none (.next (.init now)) m₀
  | elsewhere {log : List LoopEvent} {heard : Intake} {flow : Flow} {m m' : World α}
      (h : StreamRun osc table args now m₀ log heard flow m) (hshm : m'.shm = m.shm) :
      StreamRun osc table args now m₀ log heard flow m'
  | pass {log evs : List LoopEvent} {heard : Intake} {self : Daemon} {flow : Flow}
      {m m' : World α} (turn : Turn) (h : StreamRun osc table args now m₀ log heard (.next self) m)
      (hfits : PassFits osc turn self m)
      (hpass : iterateLogged osc table args turn self m = some (flow, m', evs)) :
      StreamRun osc table args now m₀ (log ++ evs) (heard.pass (self.received osc turn m) evs)
        flow m'

variable {table : List Device} {args : Args} {now : ℚ} {m₀ : World α} {log : List LoopEvent}
  {flow : Flow}

/-- It is a run of the loop. -/
theorem StreamRun.loopRun (h : StreamRun osc table args now m₀ log heard flow m) :
    LoopRun osc table args now m₀ log flow m := by
  induction h with
  | start => exact .start
  | @elsewhere _ _ _ m m' _ hshm ih => exact ih.elsewhere ⟨m.shm.writeFrames, m.shm.ring, hshm⟩
  | pass turn _ _ hpass ih => exact ih.pass turn hpass

/-- **The invariant in every reachable state.** -/
theorem streamRun_inv (hdistinct : (table.map Device.productId).Nodup)
    (hcount : ∀ d ∈ table, 1 ≤ d.captureChannels.toNat ∧ d.captureChannels.toNat ≤ 8)
    (h : StreamRun osc table args now m₀ log heard flow m) :
    StreamInv osc args m₀ log heard flow m := by
  induction h with
  | start =>
    refine ⟨fun _ => rfl, ?_, ?_⟩
    · rintro _ ⟨⟩
    · rintro _ _ _ _ _ ⟨⟩
  | elsewhere _ hshm ih =>
    refine ⟨?_, ?_, ih.running⟩
    · rw [hshm]
      exact ih.untouched
    · unfold Published
      rw [hshm]
      exact ih.published
  | pass turn hrun hfits hpass ih =>
    have hloop := loopRun_inv hdistinct hrun.loopRun
    exact ih.pass hdistinct hcount hloop hfits hpass

theorem engineFrames_length (osc : Nat → α) (sine : Bool) (ch : Nat) (ps : List Received) :
    (engineFrames osc sine ch ps).length = frameCount ch ps := by
  unfold engineFrames
  split_ifs
  · exact toneFrames_length _ _ _
  · exact packetFrames_length _ _

/-- As many frames as the packets have. -/
theorem heardFrames_length (osc : Nat → α) (sine : Bool) (ch : Nat) (heard : Intake) :
    (heardFrames osc sine ch heard).length =
      frameCount ch (heard.earlier.flatten ++ heard.current) := by
  have hearlier : (heard.earlier.flatMap (engineFrames osc sine ch)).length =
      frameCount ch heard.earlier.flatten := by
    induction heard.earlier with
    | nil => rfl
    | cons ps rest ih =>
      rw [List.flatMap_cons, List.length_append, engineFrames_length, ih, List.flatten_cons,
        frameCount_append]
  unfold heardFrames
  rw [List.length_append, hearlier, engineFrames_length, frameCount_append]

/-- **What was captured is what is published**, in every reachable state of `run_daemon`: nothing
lost, doubled or reordered, over any number of engines. -/
theorem capture_stream (hdistinct : (table.map Device.productId).Nodup)
    (hcount : ∀ d ∈ table, 1 ≤ d.captureChannels.toNat ∧ d.captureChannels.toNat ≤ 8)
    (h : StreamRun osc table args now m₀ log heard flow m) :
    -- Until the header is filled the segment is left alone.
    (lastCreated log = none → m.shm = m₀.shm) ∧
    -- From then on the write head counts the whole frames of the packets heard since,
    (∀ d, lastCreated log = some d →
      m.shm.writeFrames = UInt64.ofNat
        (frameCount d.captureChannels.toNat (heard.earlier.flatten ++ heard.current)) ∧
      -- and the ring has the last of these frames, each in its slot.
      ∀ k x, (heardFrames osc args.sine d.captureChannels.toNat heard)[k]? = some x →
        frameCount d.captureChannels.toNat (heard.earlier.flatten ++ heard.current) ≤ k + 65536 →
        ∀ c < d.captureChannels.toNat,
          m.shm.ring (cell 65536 d.captureChannels.toNat k c) = x c) ∧
    -- The counters are those of the running engine.
    ∀ self cap d, flow = .next self → self.active = some cap → lastCreated log = some d →
      cap.st.isoErrors = heard.current.countP (fun p => !p.1.completed) ∧
      cap.st.unalignedPackets = heard.current.countP
        (fun p => p.1.actualLength % (d.captureChannels.toNat * 3) != 0) ∧
      cap.st.sinePhase =
        if args.sine then frameCount d.captureChannels.toNat heard.current else 0 := by
  have hinv := streamRun_inv hdistinct hcount h
  refine ⟨hinv.untouched, fun d hd => ?_, fun self cap d hflow hcap hd => ?_⟩
  · obtain ⟨hhead, hres⟩ := hinv.published d hd
    rw [heardFrames_length] at hhead hres
    refine ⟨hhead, fun k x hx hrecent c hc => ?_⟩
    have hread := hres.read hx hrecent hc
    rwa [Nat.zero_add] at hread
  · have hstream := hinv.running self cap d hflow hcap hd
    refine ⟨hstream.isoErrors.trans (Nat.zero_add _), hstream.unaligned.trans (Nat.zero_add _), ?_⟩
    exact hstream.phase.trans (Nat.zero_add _)

end

/-- The second IN transfer completes with the tailed packets. -/
def secondDelivery : Delivery where
  transfer := 1
  buffer := tailedCompletion.buffer
  packets := tailedCompletion.packets
  submitRc := 0

theorem secondDelivery_fits : secondDelivery.Fits (Engine.new stereoDevice) := by
  rintro t ht -
  cases ht
  exact ⟨tailedCompletion, rfl, rfl, rfl⟩

set_option maxRecDepth 20000 in
/-- Eight frames, and eight more while the engine is stopped. -/
theorem capture_stream_tailed : ∃ (log : List LoopEvent) (heard : Intake) (flow : Flow)
    (m : World ℚ), StreamRun (fun _ => (0 : ℚ)) monoStereo.rows ⟨false, false, 10⟩ 0
      ⟨true, Shm.zero, {}⟩ log heard flow m ∧ stops log = 1 ∧ m.shm.writeFrames = 16 := by
  have hfits {cap : Active} (heng : cap.eng = Engine.new stereoDevice) {turn : Turn}
      (hturn : turn.completions = [secondDelivery]) : ∀ c ∈ turn.completions, c.Fits cap.eng := by
    intro c hc
    rw [hturn] at hc
    rw [heng, List.mem_singleton.mp hc]
    exact secondDelivery_fits
  have hstart : StreamRun (fun _ => (0 : ℚ)) monoStereo.rows ⟨false, false, 10⟩ 0
      ⟨true, Shm.zero, {}⟩ [] _ _ _ := .start
  have hfound := hstart.pass (.finding 2 0) (by rintro _ ⟨⟩) rfl
  have hheard := hfound.pass { Turn.finding 2 1 with events := [secondDelivery] }
    (fun cap hcap c hc => hfits (by cases hcap; rfl) rfl c (Daemon.delivered_subset _ _ _ _ hc)) rfl
  have hstopped := hheard.pass
    { Turn.finding 2 2 with running := false, drain := [⟨0, [secondDelivery]⟩, ⟨2, []⟩] }
    (fun cap hcap c hc => hfits (by cases hcap; rfl) rfl c (Daemon.delivered_subset _ _ _ _ hc)) rfl
  obtain ⟨-, hstream, -⟩ := capture_stream (by decide) (by decide) hstopped
  exact ⟨_, _, _, _, hstopped, rfl, (hstream stereoDevice rfl).1.trans rfl⟩

end Line6
