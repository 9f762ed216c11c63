import Line6.Daemon.Engine

/-!
# The daemon's main loop (`main.rs`, `find_connected` of `devices.rs`)

`iterate` is one pass through the loop of `run_daemon`, its guard included; `runDaemon` is the
loop. The local variables of `run_daemon` are a `Daemon`, the command line an `Args`. What the
environment answers in a pass is a `Turn`: the value of `RUNNING`, the clock, the bus scan, the
answers to `create` and `start`, and the completions `handle_events` and `stop` deliver. The
process sleeps and prints nothing here: `last_print` and `absent_logged` decide only about prints.

## Results

* `exec_create`: what `create` leaves in the segment.
* `startCapture_error`, `startCapture_ok`: what `start_capture` returns.
* `Shm.Grown`, `deliver_grown`, `usbStop_grown`: completions publish frames, and change nothing
  else but the ring.
* `iterate_iterated`: every way a pass can go.
* `iterate_active`, `iterate_idle`: what a pass does to the segment, and that the engine of a
  daemon is an accounted engine of a row of the table.
-/

namespace Line6

open Conc Conc.Prog

variable {α : Type}

/-! ## find_connected -/

/-- A bus scan: the return code of `libusb_init`, and for each device of the list its vendor and
product id, if its descriptor could be read. -/
structure Scan where
  initRc : Int
  descriptors : List (Option (UInt16 × UInt16))
  deriving Repr, DecidableEq

/-- `find_connected`, for the device table `table`. -/
def findConnected (table : List Device) (scan : Scan) : Option Device :=
  if scan.initRc ≠ 0 then none
  else scan.descriptors.findSome? fun desc =>
    match desc with
    | none => none
    | some (idVendor, idProduct) =>
      if idVendor ≠ vidLine6 then none else table.find? fun d => d.productId == idProduct

theorem findConnected_mem {table : List Device} {scan : Scan} {d : Device}
    (h : findConnected table scan = some d) : d ∈ table := by
  unfold findConnected at h
  split_ifs at h
  obtain ⟨desc, -, hdesc⟩ := List.exists_of_findSome?_eq_some h
  cases desc with
  | none => cases hdesc
  | some ids =>
    dsimp only at hdesc
    split_ifs at hdesc
    exact List.mem_of_find?_eq_some hdesc

/-! ## run_daemon -/

/-- The command line of `daemon`. -/
structure Args where
  sine : Bool
  exitWhenAbsent : Bool
  latencyMs : UInt32
  deriving Repr, DecidableEq

/-- `latency_ms.clamp(5, 500) * (SAMPLE_RATE_HZ / 1000)`. -/
def Args.latencyFrames (args : Args) : UInt32 :=
  max 5 (min args.latencyMs 500) * (sampleRate / 1000)

/-- A running capture: the boxed `StreamState`, the engine, and its libusb context. -/
structure Active where
  st : StreamState
  eng : Engine
  usb : Libusb
  deriving Repr, DecidableEq

/-- The local variables of `run_daemon`. `shmPtr` says whether `shm_ptr` is set; `lastProgress`
is a clock reading in seconds. -/
structure Daemon where
  active : Option Active
  shmPtr : Bool
  shmPid : UInt16
  lastWf : UInt64
  lastProgress : ℚ
  absentCount : Nat
  deriving Repr, DecidableEq

/-- The variables at the start, at the time `now`. -/
def Daemon.init (now : ℚ) : Daemon where
  active := none
  shmPtr := false
  shmPid := 0
  lastWf := 0
  lastProgress := now
  absentCount := 0

/-- What the environment answers during a pass through the loop. -/
structure Turn where
  running : Bool
  now : ℚ
  events : List Delivery
  drain : List Round
  scan : Scan
  sys : Sys
  start : StartAnswers

/-- How a pass ends: with the next pass, or with the return of `run_daemon`. -/
inductive Flow where
  | next (self : Daemon)
  | returned (r : Except String Unit)

/-- No new frames for this long: the engine is rebuilt. -/
def watchdogStall : ℚ := 1 / 2

/-- `ABSENT_EXIT_GRACE`. -/
def absentExitGrace : Nat := 3

/-- `start_capture`. -/
def startCapture (ans : StartAnswers) (device : Device) (sine : Bool) : Except String Active :=
  match usbStart ans device (.new device sine) .fresh with
  | (.ok eng, st, usb) => .ok ⟨st, eng, usb⟩
  | (.error e, _, _) => .error e

/-- `shm_ptr.is_null() || shm_pid != device.product_id`. -/
def Daemon.needsCreate (self : Daemon) (device : Device) : Bool :=
  !self.shmPtr || self.shmPid != device.productId

/-- The watchdog: whether the capture has stalled, and the variables after the comparison. -/
def Daemon.watchdog (self : Daemon) (wf : UInt64) (now : ℚ) : Bool × Daemon :=
  if wf ≠ self.lastWf then (false, { self with lastWf := wf, lastProgress := now })
  else (decide (watchdogStall < now - self.lastProgress), self)

/-- `match start_capture(..)`, the segment's write head being `wf`. -/
def Daemon.tryStart (self : Daemon) (args : Args) (device : Device) (turn : Turn) (wf : UInt64) :
    Daemon :=
  match startCapture turn.start device args.sine with
  | .ok cap => { self with
      active := some cap
      absentCount := 0
      lastProgress := turn.now
      lastWf := wf }
  | .error _ => { self with absentCount := 0 }

/-- The end of `run_daemon`, after the loop. -/
def finalTeardown [Pcm α] (osc : Nat → α) (turn : Turn) (self : Daemon) (m : World α) :
    Option (Flow × World α) :=
  match self.active with
  | some cap => (usbStop osc cap.eng turn.drain ⟨cap.st, cap.usb, m⟩).map fun s =>
      (.returned (.ok ()), s.world)
  | none => some (.returned (.ok ()), m)

/-- A pass through the loop of `run_daemon`. -/
def iterate [Pcm α] (osc : Nat → α) (table : List Device) (args : Args) (turn : Turn)
    (self : Daemon) (m : World α) : Option (Flow × World α) :=
  if !turn.running then finalTeardown osc turn self m
  else
    match self.active with
    | some cap =>
      (handleEvents osc cap.eng turn.events ⟨cap.st, cap.usb, m⟩).bind fun s =>
        let (stalled, self) := self.watchdog s.world.shm.writeFrames turn.now
        if stalled then
          (usbStop osc cap.eng turn.drain s).map fun s =>
            (.next { self with active := none }, s.world)
        else some (.next { self with active := some ⟨s.st, cap.eng, s.usb⟩ }, s.world)
    | none =>
      match findConnected table turn.scan with
      | some device =>
        if self.needsCreate device then
          match exec (create device args.latencyFrames turn.sys) false m with
          | .done _ m (.ok _) =>
            let self := { self with shmPtr := true, shmPid := device.productId }
            some (.next (self.tryStart args device turn m.shm.writeFrames), m)
          | .done _ m (.error e) => some (.returned (.error e), m)
          | _ => none
        else some (.next (self.tryStart args device turn m.shm.writeFrames), m)
      | none =>
        if args.exitWhenAbsent then
          let self := { self with absentCount := self.absentCount + 1 }
          if absentExitGrace ≤ self.absentCount then finalTeardown osc turn self m
          else some (.next self, m)
        else some (.next self, m)

/-- `run_daemon`: how it ends in the course of the turns, if it does. -/
def runDaemon [Pcm α] (osc : Nat → α) (table : List Device) (args : Args) :
    List Turn → Daemon → World α → Option (Except String Unit × World α)
  | [], _, _ => none
  | turn :: turns, self, m =>
    match iterate osc table args turn self m with
    | some (.next self, m) => runDaemon osc table args turns self m
    | some (.returned r, m) => some (r, m)
    | none => none

/-! ## What create leaves -/

/-- The bytes `write_name` leaves in the header. -/
def nameField (name : String) : Vector UInt8 nameLen :=
  let bytes := name.toUTF8.data.toList
  Vector.ofFn fun i => if i.val < min bytes.length (nameLen - 1) then bytes.getD i.val 0
    else (Vector.replicate nameLen 0).get i

/-- The segment as `create` leaves it: the header of the device, nothing published, the ring as
it was. -/
def Shm.describing (s : Shm α) (device : Device) (latencyFrames : UInt32) : Shm α :=
  { s with
    magic := shmMagic
    version := shmVersion
    sampleRate := Line6.sampleRate
    channels := device.captureChannels.toUInt32
    ringFrames := Line6.ringFrames
    latencyFrames := latencyFrames
    name := nameField device.name
    writeFrames := 0 }

/-- **`create`** fills the header when the segment can be opened and mapped, and else leaves it
alone. -/
theorem exec_create (device : Device) (latencyFrames : UInt32) (sys : Sys) (m : World α) :
    (sys.openOk = true ∧ sys.mmapOk = true ∧
      exec (create device latencyFrames sys) false m =
        .done false { m with linked := true, shm := m.shm.describing device latencyFrames }
          (.ok ())) ∨
    ¬ (sys.openOk = true ∧ sys.mmapOk = true) ∧ ∃ m' e,
      exec (create device latencyFrames sys) false m = .done false m' (.error e) ∧
        m'.shm = m.shm := by
  obtain ⟨openOk, mmapOk, errno⟩ := sys
  cases openOk with
  | false => exact .inr ⟨by simp, _, _, rfl, rfl⟩
  | true =>
    cases mmapOk with
    | false => exact .inr ⟨by simp, _, _, rfl, rfl⟩
    | true => exact .inl ⟨rfl, rfl, rfl⟩

/-! ## What start_capture returns -/

/-- **Every way `start_capture` returns.** -/
theorem startCapture_cases (ans : StartAnswers) (d : Device) (sine : Bool) :
    (∃ e, startCapture ans d sine = .error e) ∨
    startCapture ans d sine = .ok ⟨{ StreamState.new d sine with
      inFlight := (ans.accepted (Engine.new d)).length }, Engine.new d,
      .started ans (Engine.new d)⟩ := by
  unfold startCapture
  rcases usbStart_cases ans d (.new d sine) rfl with ⟨e, st, u, h, -, -⟩ | ⟨h, -⟩
  · rw [h]
    exact .inl ⟨e, rfl⟩
  · rw [h]
    exact .inr rfl

/-! ## What completions do to the segment -/

/-- At most `k` frames more are published; of the rest only the ring changed. -/
def Shm.Grown (k : Nat) (s s' : Shm α) : Prop :=
  ∃ n ≤ k, ∃ ring, s' = { s with
    writeFrames := UInt64.ofNat (s.writeFrames.toNat + n), ring := ring }

theorem Shm.grown_refl (k : Nat) (s : Shm α) : Grown k s s :=
  ⟨0, Nat.zero_le k, s.ring, by rw [Nat.add_zero, UInt64.ofNat_toNat]⟩

theorem Shm.Grown.trans {k k' : Nat} {s s' s'' : Shm α} (h : Grown k s s')
    (h' : Grown k' s' s'') : Grown (k + k') s s'' := by
  obtain ⟨n, hn, ring, rfl⟩ := h
  obtain ⟨n', hn', ring', rfl⟩ := h'
  refine ⟨n + n', Nat.add_le_add hn hn', ring', ?_⟩
  dsimp only
  rw [← Nat.add_assoc, UInt64.ofNat_add, UInt64.ofNat_toNat, ← UInt64.ofNat_add]

theorem Shm.Grown.mono {k k' : Nat} {s s' : Shm α} (h : Grown k s s') (hk : k ≤ k') :
    Grown k' s s' := by
  obtain ⟨n, hn, hring⟩ := h
  exact ⟨n, hn.trans hk, hring⟩

/-- The write head does not decrease, unless it wraps. -/
theorem Shm.Grown.le {k : Nat} {s s' : Shm α} (h : Grown k s s')
    (hwrap : s.writeFrames.toNat + k < 2 ^ 64) : s.writeFrames ≤ s'.writeFrames := by
  obtain ⟨n, hn, ring, rfl⟩ := h
  rw [UInt64.le_iff_toNat_le, UInt64.toNat_ofNat', Nat.mod_eq_of_lt (by omega)]
  exact Nat.le_add_right _ _

/-- **A completion publishes at most the frames of a transfer.** -/
theorem deliver_grown [Pcm α] {osc : Nat → α} {d : Device} (hpos : 1 ≤ d.captureChannels.toNat)
    (hch : d.captureChannels.toNat ≤ 8) {c : Delivery} {s s' : Capture α} (hst : s.st.Of d)
    (hids : ∀ i ∈ s.usb.inFlight, i ∈ (Engine.new d).ids) (hfits : c.Fits (Engine.new d))
    (h : deliver osc (Engine.new d) c s = some s') : s.world.shm.Grown 64 s'.world.shm := by
  obtain ⟨hmem, ⟨t, l, ht, hexec⟩, -⟩ := deliver_exec h
  obtain ⟨t', ht', hkind⟩ := Engine.new_transfers (hids _ hmem)
  rw [ht] at ht'
  cases ht'
  rcases hkind with rfl | rfl
  · obtain ⟨k, hbuffer, hpackets, hrc⟩ := hfits _ ht rfl
    obtain ⟨w, st', log, hexec', ⟨ring, hw, -⟩, hstream⟩ :=
      streamed_onIn osc hpos hch (appended_nil _ s.world) hst k false
    rw [hbuffer, hpackets, hrc] at hexec'
    have heq := hexec.symm.trans hexec'
    cases heq
    refine ⟨log.length, ?_, ring, congrArg World.shm hw⟩
    rw [hstream.length]
    exact k.frameCount_le
  · have hout : exec ((outTransfer d).run osc c s.st) false s.world =
        .done false s.world (s.st.resubmit c.submitRc) := rfl
    have hworld : s'.world = s.world := by
      injection hout.symm.trans hexec with _ hw
      exact hw.symm
    rw [hworld]
    exact Shm.grown_refl _ _

variable {d : Device} {osc : Nat → α}

theorem handleEvents_grown [Pcm α] (hpos : 1 ≤ d.captureChannels.toNat)
    (hch : d.captureChannels.toNat ≤ 8) {ph : Phase} (hph : ph ≠ .freed) {cs : List Delivery}
    {s s' : Capture α} (h : Accounted (Engine.new d) d (ph, s))
    (hfits : ∀ c ∈ cs, c.Fits (Engine.new d))
    (hevents : handleEvents osc (Engine.new d) cs s = some s') :
    s.world.shm.Grown (cs.length * 64) s'.world.shm := by
  induction cs generalizing s with
  | nil =>
    cases hevents
    exact Shm.grown_refl _ _
  | cons c cs ih =>
    obtain ⟨s₁, hdeliver, hrest⟩ := Option.bind_eq_some_iff.mp hevents
    have hfirst := deliver_grown hpos hch h.of h.ids (hfits c List.mem_cons_self) hdeliver
    have htail := ih (h.completes hph (deliver_cases hdeliver))
      (fun x hx => hfits x (List.mem_cons_of_mem c hx)) hrest
    refine (hfirst.trans htail).mono ?_
    rw [List.length_cons]
    omega

theorem drain_grown [Pcm α] (hpos : 1 ≤ d.captureChannels.toNat)
    (hch : d.captureChannels.toNat ≤ 8) {rounds : List Round} {s s' : Capture α}
    (h : Accounted (Engine.new d) d (.draining, s))
    (hfits : ∀ c ∈ completions rounds, c.Fits (Engine.new d))
    (hdrain : drain osc (Engine.new d) rounds s = some s') :
    s.world.shm.Grown ((completions rounds).length * 64) s'.world.shm := by
  induction rounds generalizing s with
  | nil => cases hdrain
  | cons r rounds ih =>
    have hph : Phase.draining ≠ .freed := nofun
    unfold drain at hdrain
    by_cases hguard : draining s.st r.elapsed = true
    · rw [if_pos hguard] at hdrain
      obtain ⟨s₁, hevents, hrest⟩ := Option.bind_eq_some_iff.mp hdrain
      have hsplit : completions (r :: rounds) = r.deliveries ++ completions rounds :=
        List.flatMap_cons
      rw [hsplit] at hfits ⊢
      have hfirst := handleEvents_grown hpos hch hph h
        (fun c hc => hfits c (List.mem_append_left _ hc)) hevents
      have htail := ih (accounted_run h (handleEvents_run hph hevents))
        (fun c hc => hfits c (List.mem_append_right _ hc)) hrest
      rw [List.length_append, Nat.add_mul]
      exact hfirst.trans htail
    · rw [if_neg hguard] at hdrain
      cases hdrain
      exact Shm.grown_refl _ _

theorem usbStop_grown [Pcm α] (hpos : 1 ≤ d.captureChannels.toNat)
    (hch : d.captureChannels.toNat ≤ 8) {rounds : List Round} {s s' : Capture α}
    (h : Accounted (Engine.new d) d (.capturing, s))
    (hfits : ∀ c ∈ completions rounds, c.Fits (Engine.new d))
    (hstop : usbStop osc (Engine.new d) rounds s = some s') :
    s.world.shm.Grown ((completions rounds).length * 64) s'.world.shm := by
  obtain ⟨s₁, hdrain, rfl⟩ := Option.map_eq_some_iff.mp hstop
  have hgrown := drain_grown hpos hch h.stopRequest hfits hdrain
  exact hgrown

/-! ## A pass through the loop -/

/-- The completions of a turn. -/
def Turn.completions (turn : Turn) : List Delivery := turn.events ++ Line6.completions turn.drain

/-- The pass calls `create`, which fills the header for `device`. -/
structure Resets (table : List Device) (turn : Turn) (v : Daemon) (device : Device) : Prop where
  running : turn.running = true
  idle : v.active = none
  found : findConnected table turn.scan = some device
  needed : v.needsCreate device = true
  opened : turn.sys.openOk = true
  mapped : turn.sys.mmapOk = true

/-- The pass calls `start_capture`, which returns `Err`. -/
structure StartFails (table : List Device) (args : Args) (turn : Turn) (v : Daemon) : Prop where
  running : turn.running = true
  idle : v.active = none
  failed : ∃ device, findConnected table turn.scan = some device ∧
    (v.needsCreate device = true → turn.sys.openOk = true ∧ turn.sys.mmapOk = true) ∧
    ∃ e, startCapture turn.start device args.sine = .error e

/-- The running capture, if any, is an accounted engine of a row of the table. -/
def Daemon.Sound (α : Type) (table : List Device) (self : Daemon) : Prop :=
  ∀ cap, self.active = some cap → ∃ d ∈ table, cap.eng = Engine.new d ∧
    ∀ m : World α, Accounted (Engine.new d) d (.capturing, ⟨cap.st, cap.usb, m⟩)

theorem Accounted.world {eng : Engine} {d : Device} {ph : Phase} {s : Capture α}
    (h : Accounted eng d (ph, s)) (m : World α) : Accounted eng d (ph, ⟨s.st, s.usb, m⟩) :=
  ⟨h.of, h.counter, h.nodup, h.ids, h.stopped, h.held, h.settled⟩

theorem Daemon.sound_of_idle {table : List Device} {self : Daemon} (h : self.active = none) :
    self.Sound α table := by
  intro cap hcap
  rw [h] at hcap
  cases hcap

theorem Daemon.tryStart_sound [Pcm α] {table : List Device} {self : Daemon} {args : Args}
    {turn : Turn} {wf : UInt64} (hidle : self.active = none) (hd : d ∈ table) :
    (self.tryStart args d turn wf).Sound α table := by
  unfold tryStart
  rcases startCapture_cases turn.start d args.sine with ⟨e, h⟩ | h
  · rw [h]
    exact sound_of_idle hidle
  · rw [h]
    rintro cap ⟨⟩
    exact ⟨d, hd, rfl, accounted_started turn.start (StreamState.new_of d args.sine)⟩

/-- **Every way a pass can go**, with what it leaves. -/
inductive Iterated [Pcm α] (osc : Nat → α) (table : List Device) (args : Args) (turn : Turn)
    (self : Daemon) (m : World α) : Flow → World α → Prop
  /-- The signal. -/
  | quit (hquit : turn.running = false) (hidle : self.active = none) :
      Iterated osc table args turn self m (.returned (.ok ())) m
  /-- The signal, with a capture running. -/
  | stop {cap : Active} {s : Capture α} (hquit : turn.running = false)
      (hcap : self.active = some cap)
      (hstop : usbStop osc cap.eng turn.drain ⟨cap.st, cap.usb, m⟩ = some s) :
      Iterated osc table args turn self m (.returned (.ok ())) s.world
  | capture {cap : Active} {s : Capture α} (hrunning : turn.running = true)
      (hcap : self.active = some cap)
      (hevents : handleEvents osc cap.eng turn.events ⟨cap.st, cap.usb, m⟩ = some s) :
      Iterated osc table args turn self m
        (.next { (self.watchdog s.world.shm.writeFrames turn.now).2 with
          active := some ⟨s.st, cap.eng, s.usb⟩ }) s.world
  | tearDown {cap : Active} {s s' : Capture α} (hrunning : turn.running = true)
      (hcap : self.active = some cap)
      (hevents : handleEvents osc cap.eng turn.events ⟨cap.st, cap.usb, m⟩ = some s)
      (hstop : usbStop osc cap.eng turn.drain s = some s') :
      Iterated osc table args turn self m
        (.next { (self.watchdog s.world.shm.writeFrames turn.now).2 with active := none }) s'.world
  | createFails {d : Device} {m' : World α} {e : String} (hrunning : turn.running = true)
      (hidle : self.active = none) (hfound : findConnected table turn.scan = some d)
      (hfails : ¬ (turn.sys.openOk = true ∧ turn.sys.mmapOk = true))
      (hcreate : exec (create d args.latencyFrames turn.sys) false m = .done false m' (.error e))
      (hshm : m'.shm = m.shm) :
      Iterated osc table args turn self m (.returned (.error e)) m'
  | create {d : Device} {m' : World α} (hresets : Resets table turn self d)
      (hshm : m'.shm = m.shm.describing d args.latencyFrames) :
      Iterated osc table args turn self m
        (.next ({ self with shmPtr := true, shmPid := d.productId }.tryStart args d turn
          m'.shm.writeFrames)) m'
  | keep {d : Device} (hrunning : turn.running = true) (hidle : self.active = none)
      (hfound : findConnected table turn.scan = some d) (hneeds : self.needsCreate d = false) :
      Iterated osc table args turn self m (.next (self.tryStart args d turn m.shm.writeFrames)) m
  /-- No device; without the flag the scan is not counted. -/
  | absent {count : Nat} (hrunning : turn.running = true) (hidle : self.active = none)
      (hfound : findConnected table turn.scan = none)
      (hcount : args.exitWhenAbsent = true →
        count = self.absentCount + 1 ∧ count < absentExitGrace) :
      Iterated osc table args turn self m (.next { self with absentCount := count }) m
  /-- No device for too long. -/
  | gone (hrunning : turn.running = true) (hidle : self.active = none)
      (hfound : findConnected table turn.scan = none) (hflag : args.exitWhenAbsent = true)
      (hcount : absentExitGrace ≤ self.absentCount + 1) :
      Iterated osc table args turn self m (.returned (.ok ())) m

theorem iterate_iterated [Pcm α] {table : List Device} {args : Args} {turn : Turn}
    {self : Daemon} {m m' : World α} {flow : Flow}
    (h : iterate osc table args turn self m = some (flow, m')) :
    Iterated osc table args turn self m flow m' := by
  unfold iterate at h
  by_cases hrunning : (!turn.running) = true
  · have hquit : turn.running = false := by simpa using hrunning
    rw [if_pos hrunning] at h
    unfold finalTeardown at h
    cases hcap : self.active with
    | none =>
      rw [hcap] at h
      cases h
      exact .quit hquit hcap
    | some cap =>
      rw [hcap] at h
      obtain ⟨s, hstop, heq⟩ := Option.map_eq_some_iff.mp h
      cases heq
      exact .stop hquit hcap hstop
  rw [if_neg hrunning] at h
  replace hrunning : turn.running = true := by simpa using hrunning
  cases hcap : self.active with
  | some cap =>
    rw [hcap] at h
    obtain ⟨s, hevents, hrest⟩ := Option.bind_eq_some_iff.mp h
    dsimp only at hrest
    split_ifs at hrest
    · obtain ⟨s', hstop, heq⟩ := Option.map_eq_some_iff.mp hrest
      cases heq
      exact .tearDown hrunning hcap hevents hstop
    · cases hrest
      exact .capture hrunning hcap hevents
  | none =>
    rw [hcap] at h
    dsimp only at h
    cases hfound : findConnected table turn.scan with
    | some d =>
      rw [hfound] at h
      dsimp only at h
      split_ifs at h with hneeds
      · rcases exec_create d args.latencyFrames turn.sys m with
          ⟨hopened, hmapped, hexec⟩ | ⟨hfails, m₁, e, hexec, hshm⟩
        · rw [hexec] at h
          cases h
          rw [← hcap]
          exact .create ⟨hrunning, hcap, hfound, hneeds, hopened, hmapped⟩ rfl
        · rw [hexec] at h
          cases h
          exact .createFails hrunning hcap hfound hfails hexec hshm
      · cases h
        exact .keep hrunning hcap hfound (Bool.eq_false_of_not_eq_true hneeds)
    | none =>
      rw [hfound] at h
      dsimp only at h
      unfold finalTeardown at h
      split_ifs at h with hflag hcount
      · cases h
        exact .gone hrunning hcap hfound hflag hcount
      · cases h
        rw [← hcap]
        exact .absent hrunning hcap hfound fun _ => ⟨rfl, Nat.lt_of_not_le hcount⟩
      · cases h
        exact .absent hrunning hcap hfound fun hset => absurd hset hflag

/-- **A pass with a running capture** publishes the frames of its completions. -/
theorem iterate_active [Pcm α] {table : List Device} {args : Args} {turn : Turn} {self : Daemon}
    {cap : Active} {m m' : World α} {flow : Flow} (hpos : 1 ≤ d.captureChannels.toNat)
    (hch : d.captureChannels.toNat ≤ 8) (hd : d ∈ table) (hcap : self.active = some cap)
    (heng : cap.eng = Engine.new d)
    (hacc : ∀ m : World α, Accounted (Engine.new d) d (.capturing, ⟨cap.st, cap.usb, m⟩))
    (hfits : ∀ c ∈ turn.completions, c.Fits (Engine.new d))
    (h : iterate osc table args turn self m = some (flow, m')) :
    m.shm.Grown (turn.completions.length * 64) m'.shm ∧
      ∀ self', flow = .next self' → self'.Sound α table := by
  have hevents (c : Delivery) (hc : c ∈ turn.events) : c.Fits (Engine.new d) :=
    hfits c (List.mem_append_left _ hc)
  have hdrain (c : Delivery) (hc : c ∈ completions turn.drain) : c.Fits (Engine.new d) :=
    hfits c (List.mem_append_right _ hc)
  have hlen : turn.completions.length = turn.events.length + (completions turn.drain).length :=
    List.length_append
  have hph : Phase.capturing ≠ .freed := nofun
  have hserved {s : Capture α}
      (hrun : handleEvents osc (Engine.new d) turn.events ⟨cap.st, cap.usb, m⟩ = some s) :
      Accounted (Engine.new d) d (.capturing, s) ∧
        m.shm.Grown (turn.events.length * 64) s.world.shm :=
    ⟨accounted_run (hacc m) (handleEvents_run hph hrun),
      handleEvents_grown hpos hch hph (hacc m) hevents hrun⟩
  have hbusy (hidle : self.active = none) : False := by
    rw [hcap] at hidle
    cases hidle
  cases iterate_iterated h with
  | stop hquit hcap' hstop =>
    obtain rfl := Option.some.inj (hcap.symm.trans hcap')
    rw [heng] at hstop
    exact ⟨(usbStop_grown hpos hch (hacc m) hdrain hstop).mono (by rw [hlen]; omega), nofun⟩
  | @capture cap' s hrunning hcap' hrun =>
    obtain rfl := Option.some.inj (hcap.symm.trans hcap')
    rw [heng] at hrun
    obtain ⟨hs, hgrown⟩ := hserved hrun
    refine ⟨hgrown.mono (by rw [hlen]; omega), ?_⟩
    rintro self' ⟨⟩ cap' ⟨⟩
    exact ⟨d, hd, heng, hs.world⟩
  | @tearDown cap' s s' hrunning hcap' hrun hstop =>
    obtain rfl := Option.some.inj (hcap.symm.trans hcap')
    rw [heng] at hrun hstop
    obtain ⟨hs, hgrown⟩ := hserved hrun
    refine ⟨?_, ?_⟩
    · rw [hlen, Nat.add_mul]
      exact hgrown.trans (usbStop_grown hpos hch hs hdrain hstop)
    · rintro self' ⟨⟩
      exact Daemon.sound_of_idle rfl
  | quit hquit hidle => exact (hbusy hidle).elim
  | createFails hrunning hidle hfound hfails hcreate hshm => exact (hbusy hidle).elim
  | create hresets hshm => exact (hbusy hresets.idle).elim
  | keep hrunning hidle hfound hneeds => exact (hbusy hidle).elim
  | absent hrunning hidle hfound hcount => exact (hbusy hidle).elim
  | gone hrunning hidle hfound hflag hcount => exact (hbusy hidle).elim

/-- **A pass with no capture running** has `create` fill the header for the device found, or
leaves the segment alone. -/
theorem iterate_idle [Pcm α] {table : List Device} {args : Args} {turn : Turn} {self : Daemon}
    {m m' : World α} {flow : Flow} (hidle : self.active = none)
    (h : iterate osc table args turn self m = some (flow, m')) :
    ((∃ device, Resets table turn self device ∧
        m'.shm = m.shm.describing device args.latencyFrames) ∨
      (∀ device, ¬ Resets table turn self device) ∧ m'.shm = m.shm) ∧
    ∀ self', flow = .next self' → self'.Sound α table := by
  have hbusy {cap : Active} (hcap : self.active = some cap) : False := by
    rw [hidle] at hcap
    cases hcap
  have hnone (hfound : findConnected table turn.scan = none) (device : Device) :
      ¬ Resets table turn self device := by
    intro hr
    have heq := hr.found
    rw [hfound] at heq
    cases heq
  cases iterate_iterated h with
  | quit hquit _ =>
    refine ⟨.inr ⟨fun device hr => ?_, rfl⟩, nofun⟩
    have hrunning := hr.running
    rw [hquit] at hrunning
    cases hrunning
  | stop hquit hcap hstop => exact (hbusy hcap).elim
  | capture hrunning hcap hrun => exact (hbusy hcap).elim
  | tearDown hrunning hcap hrun hstop => exact (hbusy hcap).elim
  | createFails hrunning _ hfound hfails hcreate hshm =>
    exact ⟨.inr ⟨fun _ hr => hfails ⟨hr.opened, hr.mapped⟩, hshm⟩, nofun⟩
  | create hresets hshm =>
    refine ⟨.inl ⟨_, hresets, hshm⟩, ?_⟩
    rintro self' ⟨⟩
    exact Daemon.tryStart_sound hidle (findConnected_mem hresets.found)
  | keep hrunning _ hfound hneeds =>
    refine ⟨.inr ⟨fun device hr => ?_, rfl⟩, ?_⟩
    · obtain rfl := Option.some.inj (hfound.symm.trans hr.found)
      rw [hr.needed] at hneeds
      cases hneeds
    · rintro self' ⟨⟩
      exact Daemon.tryStart_sound hidle (findConnected_mem hfound)
  | absent hrunning _ hfound hcount =>
    refine ⟨.inr ⟨hnone hfound, rfl⟩, ?_⟩
    rintro self' ⟨⟩
    exact Daemon.sound_of_idle hidle
  | gone hrunning _ hfound hflag hcount => exact ⟨.inr ⟨hnone hfound, rfl⟩, nofun⟩

/-- **A pass whose `start_capture` fails** leaves the segment alone exactly if it did not have
`create` change it. -/
theorem failed_start_iff [Pcm α] {table : List Device} {args : Args} {turn : Turn}
    {self : Daemon} {m m' : World α} {flow : Flow} (hfails : StartFails table args turn self)
    (h : iterate osc table args turn self m = some (flow, m')) :
    m'.shm = m.shm ↔ ∀ device, Resets table turn self device →
      m.shm.describing device args.latencyFrames = m.shm := by
  rcases (iterate_idle hfails.idle h).1 with ⟨device, hr, hshm⟩ | ⟨hnot, hshm⟩
  · rw [hshm]
    constructor
    · intro heq device' hr'
      have hsame := hr.found.symm.trans hr'.found
      cases hsame
      exact heq
    · intro hall
      exact hall device hr
  · exact ⟨fun _ device hr => absurd hr (hnot device), fun _ => hshm⟩

/-- A table of two devices, of one channel and of two. -/
def monoStereo : Table where
  rows := [{ stereoDevice with productId := 1, captureChannels := 1 }, stereoDevice]
  channels_pos := by decide
  channels_le := by decide
  distinct := by decide

end Line6
