import Line6.Lib.Secluded
import Line6.System.Image
import Line6.System.Stream

/-!
# The daemon's loop inside the system

The system of threads lets the daemon make any calls in any order; `run_daemon` makes certain ones,
and its model runs them with nobody else around. Both are connected here. The plugin's threads
never store to the segment and the daemon looks at nothing else, so the daemon is a secluded thread
of the system.

* `segment_undisturbed`: in every run, what the daemon's calls return and what they leave in the
  segment is what they would alone.
* `serves_onInPackets`, `serves_handleEvents`, `serves_usbStop`: what `run_daemon` does to the
  segment are calls of `push_frames`, one for each packet with a whole frame.
* `run_daemon_served`: every run of `run_daemon` is a series of calls of the daemon's thread. In
  whatever order the plugin's threads run meanwhile, the segment and the captured frames are those
  of `run_daemon`.
-/

namespace Line6

open Conc Conc.Prog Conc.Pool

variable {α : Type}

/-! ## The daemon sees the segment only -/

theorem secluded_wrShm (f : Shm α → Shm α) : Secluded World.shm (wrShm f) :=
  secluded_wr (v := f) fun _ => rfl

theorem secluded_create (d : Device) (latencyFrames : UInt32) (sys : Sys) :
    Secluded World.shm (create (α := α) d latencyFrames sys) := by
  have hlink : Secluded World.shm (wr fun m : World α => { m with linked := true }) :=
    secluded_wr (v := id) fun _ => rfl
  unfold create writeName
  split_ifs
  · trivial
  · exact hlink.bind fun _ => trivial
  · refine hlink.bind fun _ => ?_
    iterate 6 refine (secluded_wrShm _).bind fun _ => ?_
    exact ((secluded_wrShm _).bind fun _ => secluded_wrShm _).bind fun _ =>
      (secluded_wrShm _).bind fun _ => trivial

theorem secluded_storeChannels (val : Nat → Option α) (slot : Nat) :
    ∀ rem ch, Secluded World.shm (storeChannels val slot rem ch)
  | 0, _ => trivial
  | rem + 1, ch => by
    refine Secluded.bind ?_ fun _ => secluded_storeChannels val slot rem (ch + 1)
    unfold storeCell
    cases val ch with
    | none => trivial
    | some v =>
      split_ifs
      · exact secluded_wrShm _
      · trivial

theorem secluded_storeFrames (channels : Nat) (val : Nat → Nat → Option α) :
    ∀ rem f w, Secluded World.shm (storeFrames channels val rem f w)
  | 0, _, _ => trivial
  | rem + 1, f, w => (secluded_storeChannels _ _ _ _).bind fun _ =>
      secluded_storeFrames channels val rem (f + 1) (w + 1)

theorem secluded_pushFrames [Pcm α] (channels : Nat) (s24 : List UInt8) :
    Secluded World.shm (pushFrames (α := α) channels s24) := by
  unfold pushFrames
  dsimp only
  split_ifs
  · trivial
  · trivial
  · have hload : Secluded World.shm (rd fun m : World α => m.shm.writeFrames) :=
      secluded_rd (f := Shm.writeFrames)
    exact hload.bind fun w => (secluded_storeFrames _ _ _ _ _).bind fun _ => secluded_wrShm _

theorem secluded_startDaemon [Pcm α] (e : Entry) (b : Local α) (k : Prog (World α) (Local α))
    (h : startDaemon e b = some k) : Secluded World.shm k := by
  unfold startDaemon at h
  split at h
  · cases h
    refine (secluded_create _ _ _).bind fun r => ?_
    cases r <;> trivial
  · cases h
    exact (secluded_pushFrames _ _).bind fun _ => trivial
  · cases h

/-- The others leave the segment alone. -/
theorem keeps_shm_others [Pcm α] (t : Tid) (ht : t ≠ .daemon) (e : Entry) (b : Local α)
    (k : Prog (World α) (Local α)) (h : start t e b = some k) :
    Keeps (fun m m' : World α => m'.shm = m.shm) k := by
  have hshm (m m' : World α) (h : SameSegment m m') : m'.shm = m.shm := h.1
  cases t with
  | daemon => exact absurd rfl ht
  | monitor => exact (keeps_segment_monitor h).mono hshm
  | host i => exact (keeps_segment_host h).mono hshm

/-- The daemon's calls, one after another, nobody else around. -/
abbrev DaemonServes [Pcm α] (b₀ : Local α) (m₀ : World α) (es : List Entry) (b : Local α)
    (m : World α) : Prop := Serves startDaemon b₀ m₀ es b m

/-- **Nobody disturbs the daemon.** In every run, in whatever order the threads take their steps:
whenever the daemon is idle, its last result and the segment are what its calls alone would have
left, starting from any world with the same segment. -/
theorem segment_undisturbed [Pcm α] {ok : System α → Act Tid Entry → Prop} {m m₀ : World α}
    (hshm : m.shm = m₀.shm) {as : List (Act Tid Entry)} {p : System α} {b : Local α}
    (hrun : Run start ok (System.init m) as p) (hidle : p.thread .daemon = .ret b) :
    (∃ m', DaemonServes .fresh m₀ (callsOf .daemon as) b m' ∧ m'.shm = p.shared.shm) ∧
    ∀ b' m', DaemonServes .fresh m₀ (callsOf .daemon as) b' m' → b' = b ∧ m'.shm = p.shared.shm := by
  obtain ⟨m₁, hserves, hview⟩ :=
    serves_of_run (t := Tid.daemon) secluded_startDaemon keeps_shm_others hrun hidle
  obtain ⟨m₂, hserves₂, hview₂⟩ := hserves.transfer secluded_startDaemon hshm
  refine ⟨⟨m₂, hserves₂, hview₂.symm.trans hview⟩, fun b' m' h => ?_⟩
  obtain ⟨hb, hm⟩ := hserves₂.same secluded_startDaemon rfl h
  exact ⟨hb.symm, hm.symm.trans (hview₂.symm.trans hview)⟩

/-- The daemon creates the segment while a host thread reads from it. -/
def createWhileReading : List (Act Tid Entry) :=
  .call .daemon (.create monoDevice 258 .fine) :: .call (.host 0) (.doIo true false 1 7) ::
    (List.replicate 10 [.tick .daemon, .tick (.host 0)]).flatten

theorem segment_undisturbed_mono : ∃ (p : System ℚ) (m' : World ℚ),
    Run start Free (System.init attachedIdle) createWhileReading p ∧
      DaemonServes .fresh unattached [.create monoDevice 258 .fine] (.connected monoDevice) m' ∧
      m'.shm = p.shared.shm := by
  obtain ⟨p, hacts, hidle⟩ : ∃ p : System ℚ,
      runActs start createWhileReading (System.init attachedIdle) = some p ∧
        p.thread .daemon = .ret (.connected monoDevice) := ⟨_, rfl, rfl⟩
  have hrun : Run start Free (System.init attachedIdle) createWhileReading p :=
    run_of_runActs hacts
  have hsame : attachedIdle.shm = unattached.shm := rfl
  obtain ⟨⟨m', hserves, hshm⟩, -⟩ := segment_undisturbed hsame hrun hidle
  exact ⟨p, m', hrun, hserves, hshm⟩

/-! ## What the callbacks do to it -/

/-- The calls for some packets: their whole frames, if they have any. -/
def pushesOf (ch : Nat) (ps : List Received) : List Entry :=
  ps.flatMap fun p => if wholeFrames ch p.2 = 0 then []
    else [.push (p.2.take (p.2.length - p.2.length % (ch * 3)))]

theorem pushesOf_append (ch : Nat) (ps qs : List Received) :
    pushesOf ch (ps ++ qs) = pushesOf ch ps ++ pushesOf ch qs := List.flatMap_append

/-- The frames captured by some calls, from those captured before. -/
def capturedFrom [Pcm α] (ch : Nat) (log : List (Nat → α)) (es : List Entry) : List (Nat → α) :=
  es.foldl (fun log e => capture ch log (.call .daemon e)) log

theorem capturedFrom_append [Pcm α] (ch : Nat) (log : List (Nat → α)) (es es' : List Entry) :
    capturedFrom ch log (es ++ es') = capturedFrom ch (capturedFrom ch log es) es' :=
  List.foldl_append

/-- Only the daemon's calls count. -/
theorem captured_eq [Pcm α] (ch : Nat) (as : List (Act Tid Entry)) :
    captured (α := α) ch as = capturedFrom ch [] (callsOf .daemon as) := by
  induction as using List.reverseRecOn with
  | nil => rfl
  | append_singleton as a ih =>
    rw [captured_snoc, ih]
    by_cases ha : ∃ e, a = .call .daemon e
    · obtain ⟨e, rfl⟩ := ha
      rw [callsOf_call, capturedFrom_append]
      rfl
    · have hnot : ∀ e, a ≠ .call .daemon e := fun e h => ha ⟨e, h⟩
      rw [callsOf_other as hnot]
      cases a with
      | tick t => rfl
      | call t e =>
        cases t with
        | daemon => exact absurd rfl (hnot e)
        | monitor => rfl
        | host i => rfl

/-- The same frames, as far as there are channels. -/
def SameFrames (ch : Nat) (log log' : List (Nat → α)) : Prop :=
  List.Forall₂ (fun x y => ∀ c < ch, x c = y c) log log'

theorem SameFrames.append {ch : Nat} {log log' more more' : List (Nat → α)}
    (h : SameFrames ch log log') (h' : SameFrames ch more more') :
    SameFrames ch (log ++ more) (log' ++ more') := List.rel_append h h'

/-- Cutting the partial tail leaves the frames. -/
theorem sameFrames_take [Pcm α] (ch : Nat) (bytes : List UInt8) :
    SameFrames (α := α) ch
      (framesOf ch (bytes.take (bytes.length - bytes.length % (ch * 3)))) (framesOf ch bytes) := by
  unfold SameFrames framesOf
  rw [wholeFrames_take, List.forall₂_map_left_iff, List.forall₂_map_right_iff]
  exact List.forall₂_same.mpr fun f hf c hc => frameOf_take (List.mem_range.mp hf) hc

/-- **The calls for some packets capture their frames.** -/
theorem capturedFrom_pushes [Pcm α] {ch : Nat} {log log' : List (Nat → α)} (ps : List Received)
    (h : SameFrames ch log log') :
    SameFrames ch (capturedFrom ch log (pushesOf ch ps)) (log' ++ packetFrames ch ps) := by
  induction ps generalizing log log' with
  | nil =>
    show SameFrames ch log (log' ++ [])
    rwa [List.append_nil]
  | cons p ps ih =>
    have hpackets : packetFrames (α := α) ch (p :: ps) = framesOf ch p.2 ++ packetFrames ch ps :=
      List.flatMap_cons
    have hpushes : pushesOf ch (p :: ps) = pushesOf ch [p] ++ pushesOf ch ps :=
      pushesOf_append ch [p] ps
    have hone : SameFrames ch (capturedFrom ch log (pushesOf ch [p])) (log' ++ framesOf ch p.2) := by
      unfold pushesOf
      rw [List.flatMap_cons, List.flatMap_nil, List.append_nil]
      split_ifs with hzero
      · have hnone : framesOf (α := α) ch p.2 = [] := by
          unfold framesOf
          rw [hzero]
          rfl
        rw [hnone, List.append_nil]
        exact h
      · exact h.append (sameFrames_take ch p.2)
    rw [hpushes, capturedFrom_append, hpackets, ← List.append_assoc]
    exact ih hone

section

variable [Pcm α] {osc : Nat → α} {d : Device} {st : StreamState}

/-- **A packet is a call of `push_frames`**, or nothing. -/
theorem serves_onInPacket (osc : Nat → α) (hpos : 1 ≤ d.captureChannels.toNat)
    (hch : d.captureChannels.toNat ≤ 8)
    (hst : st.Of d) (hsine : st.sine = false) {buffer : List UInt8} {i : Nat} {p : IsoPacket}
    (hfit : i * st.inPktLen + p.actualLength ≤ buffer.length) (m : World α) :
    ∃ m', exec (onInPacket osc buffer i p st) false m = .done false m' (st.counted p) ∧
      DaemonServes (.connected d) m (pushesOf d.captureChannels.toNat
        [(p, (buffer.drop (i * st.inPktLen)).take p.actualLength)]) (.connected d) m' := by
  obtain ⟨bytes, hbytes⟩ : ∃ b, b = (buffer.drop (i * st.inPktLen)).take p.actualLength := ⟨_, rfl⟩
  have hlen : bytes.length = p.actualLength := by
    rw [hbytes, List.length_take, List.length_drop]
    omega
  have hfb : st.frameBytes ≠ 0 := by rw [hst.frameBytes]; omega
  have hwhole : p.actualLength - p.actualLength % st.frameBytes =
      wholeFrames d.captureChannels.toNat bytes * st.frameBytes := by
    unfold wholeFrames
    rw [hst.frameBytes, hlen, Nat.div_mul_self_eq_mod_sub_self]
  have hslice : (buffer.drop (i * st.inPktLen)).take (st.slice i p).2 =
      bytes.take (bytes.length - bytes.length % (d.captureChannels.toNat * 3)) := by
    rw [hbytes, List.take_take, ← hbytes, hlen, ← hst.frameBytes, Nat.min_eq_left (Nat.sub_le _ _)]
    rfl
  have hpushes : pushesOf d.captureChannels.toNat [(p, bytes)] =
      if wholeFrames d.captureChannels.toNat bytes = 0 then [] else
        [.push (bytes.take (bytes.length - bytes.length % (d.captureChannels.toNat * 3)))] :=
    List.append_nil _
  rw [onInPacket_eq osc hfit hfb, hslice, ← hbytes, hpushes]
  by_cases hzero : wholeFrames d.captureChannels.toNat bytes = 0
  · rw [if_pos (by rw [hwhole, hzero, Nat.zero_mul]), if_pos hzero]
    exact ⟨m, rfl, .none⟩
  · rw [if_neg (by rw [hwhole]; exact Nat.mul_ne_zero hzero hfb), if_neg hzero,
      if_neg (by rw [hsine]; exact Bool.false_ne_true), hst.channels]
    obtain ⟨m', hexec, -⟩ := exec_pushFrames hpos hch
      (bytes.take (bytes.length - bytes.length % (d.captureChannels.toNat * 3))) false m
    exact ⟨m', exec_bind_done hexec, Serves.none.call rfl (exec_bind_done hexec)⟩

/-- **A completed transfer**, packet after packet. -/
theorem serves_onInPackets (osc : Nat → α) (hpos : 1 ≤ d.captureChannels.toNat)
    (hch : d.captureChannels.toNat ≤ 8) (c : Completion (inTransfer d)) {ps : List IsoPacket}
    {i : Nat} (hps : ∀ j, ps[j]? = c.packets[i + j]?) (hst : st.Of d) (hsine : st.sine = false)
    (m : World α) :
    ∃ m' st', exec (onInPackets osc c.buffer ps i st) false m = .done false m' st' ∧
      DaemonServes (.connected d) m (pushesOf d.captureChannels.toNat
        (receivedFrom (inTransfer d) c.buffer ps i)) (.connected d) m' := by
  induction ps generalizing i m st with
  | nil => exact ⟨m, st, rfl, .none⟩
  | cons p ps ih =>
    have hp : c.packets[i]? = some p := (hps 0).symm
    obtain ⟨hbase, -, hfits, hregion⟩ := c.slice_inside hst hp
    have hbase' : i * st.inPktLen = (inTransfer d).offset i := hbase
    have hfit : i * st.inPktLen + p.actualLength ≤ c.buffer.length := by
      rw [hbase']
      omega
    obtain ⟨m₁, hexec₁, hserves₁⟩ := serves_onInPacket osc hpos hch hst hsine hfit m
    have hst₁ : (st.counted p).Of d := ⟨hst.channels, hst.frameBytes, hst.inPktLen⟩
    obtain ⟨m₂, st₂, hexec₂, hserves₂⟩ := ih (packets_tail hps) hst₁ hsine m₁
    rw [hbase'] at hserves₁
    refine ⟨m₂, st₂, (exec_bind_done hexec₁).trans hexec₂, ?_⟩
    have hsplit : pushesOf d.captureChannels.toNat
        (receivedFrom (inTransfer d) c.buffer (p :: ps) i) =
        pushesOf d.captureChannels.toNat [(p, (inTransfer d).packet c.buffer i p)] ++
          pushesOf d.captureChannels.toNat (receivedFrom (inTransfer d) c.buffer ps (i + 1)) :=
      pushesOf_append _ [_] _
    rw [hsplit]
    exact hserves₁.append hserves₂

variable {s s' : Capture α}

/-- A completion. -/
theorem serves_deliver (hpos : 1 ≤ d.captureChannels.toNat) (hch : d.captureChannels.toNat ≤ 8)
    {c : Delivery} (hst : s.st.Of d) (hsine : s.st.sine = false) (hfits : c.Fits (Engine.new d))
    (h : deliver osc (Engine.new d) c s = some s') :
    s'.st.Of d ∧ s'.st.sine = false ∧ DaemonServes (.connected d) s.world
      (pushesOf d.captureChannels.toNat ((Engine.new d).received c)) (.connected d) s'.world := by
  obtain ⟨more, -, hstream⟩ := deliver_streams hpos hch hst hfits h (appended_nil _ s.world)
  refine ⟨hstream.of, hstream.sine.trans hsine, ?_⟩
  obtain ⟨-, ⟨t, l, ht, hexec⟩, -⟩ := deliver_exec h
  have hid : c.transfer ∈ (Engine.new d).ids :=
    List.mem_range.mpr (List.getElem?_eq_some_iff.mp ht).1
  obtain ⟨t', ht', hkind⟩ := Engine.new_transfers hid
  obtain rfl := Option.some.inj (ht.symm.trans ht')
  unfold Engine.received
  rw [ht]
  rcases hkind with rfl | rfl
  · obtain ⟨k, hbuffer, hpackets, hrc⟩ := hfits _ ht rfl
    have hall (j : Nat) : k.packets[j]? = k.packets[0 + j]? := by rw [Nat.zero_add]
    obtain ⟨m', st', hexec', hserves⟩ :=
      serves_onInPackets osc hpos hch k hall hst hsine s.world
    have hrun : exec ((inTransfer d).run osc c s.st) false s.world =
        .done false m' (st'.resubmit c.submitRc) := by
      rw [hbuffer, hpackets] at hexec'
      exact exec_bind_done hexec'
    have heq := hexec.symm.trans hrun
    injection heq with _ hworld _
    rw [hbuffer, hpackets] at hserves
    rw [hworld]
    exact hserves
  · have hout : exec ((outTransfer d).run osc c s.st) false s.world =
        .done false s.world (s.st.resubmit c.submitRc) := rfl
    have heq := hexec.symm.trans hout
    injection heq with _ hworld _
    rw [hworld]
    exact .none

/-- **A call of `handle_events`.** -/
theorem serves_handleEvents (hpos : 1 ≤ d.captureChannels.toNat)
    (hch : d.captureChannels.toNat ≤ 8) {cs : List Delivery} (hst : s.st.Of d)
    (hsine : s.st.sine = false) (hfits : ∀ c ∈ cs, c.Fits (Engine.new d))
    (h : handleEvents osc (Engine.new d) cs s = some s') :
    s'.st.Of d ∧ s'.st.sine = false ∧ DaemonServes (.connected d) s.world
      (pushesOf d.captureChannels.toNat (cs.flatMap (Engine.new d).received)) (.connected d)
      s'.world := by
  induction cs generalizing s with
  | nil =>
    cases h
    exact ⟨hst, hsine, .none⟩
  | cons c cs ih =>
    obtain ⟨s₁, hdeliver, hrest⟩ := Option.bind_eq_some_iff.mp h
    obtain ⟨hst₁, hsine₁, hserves₁⟩ :=
      serves_deliver hpos hch hst hsine (hfits c List.mem_cons_self) hdeliver
    obtain ⟨hst', hsine', hserves⟩ :=
      ih hst₁ hsine₁ (fun x hx => hfits x (List.mem_cons_of_mem c hx)) hrest
    refine ⟨hst', hsine', ?_⟩
    rw [List.flatMap_cons, pushesOf_append]
    exact hserves₁.append hserves

/-- **`stop`**: the drain loop goes on pushing. -/
theorem serves_usbStop (hpos : 1 ≤ d.captureChannels.toNat) (hch : d.captureChannels.toNat ≤ 8)
    {eng : Engine} (heng : eng = Engine.new d) {rounds : List Round} (hst : s.st.Of d)
    (hsine : s.st.sine = false)
    (hfits : ∀ c ∈ drained osc eng rounds (stopRequest eng s), c.Fits eng)
    (h : usbStop osc eng rounds s = some s') :
    DaemonServes (.connected d) s.world (pushesOf d.captureChannels.toNat
      ((drained osc eng rounds (stopRequest eng s)).flatMap eng.received)) (.connected d)
      s'.world := by
  obtain ⟨s₁, hdrain, rfl⟩ := Option.map_eq_some_iff.mp h
  have hevents := drain_eq hdrain
  have hst₀ : (stopRequest eng s).st = { s.st with running := false } := rfl
  have hworld : (stopRequest eng s).world = s.world := rfl
  have hfree : (stopFree eng s₁).world = s₁.world := rfl
  rw [hfree, ← hworld]
  generalize stopRequest eng s = s₀ at hevents hfits hst₀ ⊢
  subst heng
  have hof : s₀.st.Of d := by
    rw [hst₀]
    exact ⟨hst.channels, hst.frameBytes, hst.inPktLen⟩
  have hsine₀ : s₀.st.sine = false := by
    rw [hst₀]
    exact hsine
  exact (serves_handleEvents hpos hch hof hsine₀ hfits hevents).2.2

end

/-! ## Passes of the loop -/

section

variable [Pcm α] {osc : Nat → α} {table : List Device} {args : Args} {turn : Turn}
  {self : Daemon} {m m' m₀ : World α} {flow : Flow} {log evs : List LoopEvent} {heard : Intake}
  {d : Device}

omit [Pcm α] in
/-- Only a `create` changes the device of the header. -/
theorem lastCreated_append (log : List LoopEvent) (h : ∀ d, .created d ∉ evs) :
    lastCreated (log ++ evs) = lastCreated log := by
  induction evs using List.reverseRecOn with
  | nil => rw [List.append_nil]
  | append_singleton evs e ih =>
    have hevs := ih fun d hd => h d (List.mem_append_left _ hd)
    rw [← List.append_assoc, lastCreated_snoc]
    cases e with
    | created d => exact absurd (List.mem_append_right _ (List.mem_singleton_self _)) (h d)
    | _ => exact hevs

/-- Only a `create` starts the stream over. -/
theorem heardFrames_events (osc : Nat → α) (sine : Bool) (ch : Nat) (heard : Intake)
    (h : ∀ d, .created d ∉ evs) :
    heardFrames osc sine ch (evs.foldl Intake.after heard) = heardFrames osc sine ch heard := by
  induction evs generalizing heard with
  | nil => rfl
  | cons e evs ih =>
    rw [List.foldl_cons, ih _ fun d hd => h d (List.mem_cons_of_mem e hd)]
    cases e with
    | created d => exact absurd List.mem_cons_self (h d)
    | started d wf now => exact heardFrames_started ..
    | _ => rfl

omit [Pcm α] in
theorem tryStartLogged_created (self : Daemon) (args : Args) (device : Device) (turn : Turn)
    (wf : UInt64) (d : Device) : .created d ∉ (self.tryStartLogged args device turn wf).2 := by
  unfold Daemon.tryStartLogged
  cases startCapture turn.start device args.sine <;> simp

/-- **A pass without a capture** calls `create` or leaves the segment alone. -/
theorem iterateLogged_idle (hidle : self.active = none)
    (h : iterateLogged osc table args turn self m = some (flow, m', evs)) :
    (m' = m ∧ ∀ d, .created d ∉ evs) ∨
    ∃ d ∈ table,
      (exec (create d args.latencyFrames turn.sys) false m = .done false m' (.ok ()) ∧
        turn.sys.openOk = true ∧ turn.sys.mmapOk = true ∧
        ∃ rest, evs = .scanned d :: .created d :: rest ∧ ∀ d', .created d' ∉ rest) ∨
      ∃ e, exec (create d args.latencyFrames turn.sys) false m = .done false m' (.error e) ∧
        ¬ (turn.sys.openOk = true ∧ turn.sys.mmapOk = true) ∧ flow = .returned (.error e) ∧
        evs = [.scanned d] := by
  have hfinal {self₁ : Daemon} (hsame : self₁.active = none)
      (h : finalTeardownLogged osc turn self₁ m = some (flow, m', evs)) :
      m' = m ∧ ∀ d, .created d ∉ evs := by
    unfold finalTeardownLogged at h
    rw [hsame] at h
    cases h
    exact ⟨rfl, fun _ => List.not_mem_nil⟩
  unfold iterateLogged at h
  by_cases hrunning : (!turn.running) = true
  · rw [if_pos hrunning] at h
    exact .inl (hfinal hidle h)
  rw [if_neg hrunning, hidle] at h
  dsimp only at h
  cases hfound : findConnected table turn.scan with
  | none =>
    rw [hfound] at h
    dsimp only at h
    split_ifs at h
    · exact .inl (hfinal rfl h)
    · cases h
      exact .inl ⟨rfl, fun _ => List.not_mem_nil⟩
    · cases h
      exact .inl ⟨rfl, fun _ => List.not_mem_nil⟩
  | some d =>
    have hd : d ∈ table := findConnected_mem hfound
    rw [hfound] at h
    dsimp only at h
    cases hneeds : self.needsCreate d with
    | false =>
      rw [if_neg (by rw [hneeds]; exact Bool.false_ne_true)] at h
      cases h
      refine .inl ⟨rfl, fun d' hd' => ?_⟩
      rcases List.mem_cons.mp hd' with hscan | hstart
      · cases hscan
      · exact tryStartLogged_created _ _ _ _ _ d' hstart
    | true =>
      rw [if_pos hneeds] at h
      refine .inr ⟨d, hd, ?_⟩
      rcases exec_create d args.latencyFrames turn.sys m with
        ⟨hopen, hmmap, hexec⟩ | ⟨hbad, m₁, e, hexec, -⟩
      · rw [hexec] at h
        cases h
        exact .inl ⟨hexec, hopen, hmmap, _, rfl, fun d' =>
          tryStartLogged_created _ _ _ _ _ d'⟩
      · rw [hexec] at h
        cases h
        exact .inr ⟨e, hexec, hbad, rfl, rfl⟩

/-- **A pass with a capture** pushes what it receives. -/
theorem serves_pass (hcount : ∀ d ∈ table,
      1 ≤ d.captureChannels.toNat ∧ d.captureChannels.toNat ≤ 8)
    (hloop : LoopInv table log self m) (hfits : PassFits osc turn self m) {cap : Active}
    (hcap : self.active = some cap) (hsine : cap.st.sine = false)
    (hpass : iterateLogged osc table args turn self m = some (flow, m', evs)) :
    (∀ d, .created d ∉ evs) ∧ ∃ d, lastCreated log = some d ∧
      DaemonServes (.connected d) m
        (pushesOf d.captureChannels.toNat (self.received osc turn m)) (.connected d) m' := by
  obtain ⟨d, hd, hcreated, heng, hof⟩ := hloop.capturing hcap
  obtain ⟨hpos, hch⟩ := hcount d hd
  have hdeliver := hfits cap hcap
  have hbusy (hidle : self.active = none) : False := by
    rw [hcap] at hidle
    cases hidle
  have hgoes := iterateLogged_running hcap hpass
  cases iterateLogged_pass hpass with
  | quit hidle => exact (hbusy hidle).elim
  | createFails e hidle => exact (hbusy hidle).elim
  | create hidle => exact (hbusy hidle).elim
  | keep hidle => exact (hbusy hidle).elim
  | absent count hidle => exact (hbusy hidle).elim
  | stop hcap' hstop =>
    obtain rfl := Option.some.inj (hcap.symm.trans hcap')
    have hquit : turn.running = false :=
      Bool.eq_false_of_not_eq_true (mt hgoes.mp (by rintro ⟨_, ⟨⟩⟩))
    have hdelivered : self.delivered osc turn m = _ := Daemon.delivered_stop hcap hquit
    rw [hdelivered] at hdeliver
    rw [Daemon.received_of hcap hdelivered]
    exact ⟨by simp, d, hcreated, serves_usbStop hpos hch heng hof hsine hdeliver hstop⟩
  | capture hcap' hevents hgoing =>
    obtain rfl := Option.some.inj (hcap.symm.trans hcap')
    have hdelivered := Daemon.delivered_capture hcap (hgoes.mpr ⟨_, rfl⟩) hevents hgoing
    rw [hdelivered] at hdeliver
    rw [Daemon.received_of hcap hdelivered]
    rw [heng] at hevents hdeliver ⊢
    exact ⟨by simp, d, hcreated, (serves_handleEvents hpos hch hof hsine hdeliver hevents).2.2⟩
  | tearDown hcap' hevents hstalled hstop =>
    obtain rfl := Option.some.inj (hcap.symm.trans hcap')
    have hdelivered := Daemon.delivered_tearDown hcap (hgoes.mpr ⟨_, rfl⟩) hevents hstalled
    rw [hdelivered] at hdeliver
    rw [Daemon.received_of hcap hdelivered, List.flatMap_append]
    have hsooner (c : Delivery) (hc : c ∈ turn.events) : c.Fits (Engine.new d) :=
      heng ▸ hdeliver c (List.mem_append_left _ hc)
    have hlater := fun c hc => hdeliver c (List.mem_append_right _ hc)
    have hevents' := heng ▸ hevents
    obtain ⟨hof', hsine', hserves⟩ := serves_handleEvents hpos hch hof hsine hsooner hevents'
    rw [← heng] at hserves
    refine ⟨by simp, d, hcreated, ?_⟩
    rw [pushesOf_append]
    exact hserves.append (serves_usbStop hpos hch heng hof' hsine' hlater hstop)

theorem heardFrames_receive (osc : Nat → α) (ch : Nat) (heard : Intake) (ps : List Received) :
    heardFrames osc false ch (heard.receive ps) =
      heardFrames osc false ch heard ++ packetFrames ch ps := by
  have hcurrent : engineFrames osc false ch (heard.current ++ ps) =
      engineFrames osc false ch heard.current ++ packetFrames ch ps := List.flatMap_append
  unfold heardFrames Intake.receive
  rw [hcurrent, List.append_assoc]

/-- The calls `es` do to the segment what the run did. -/
structure DaemonCalls (osc : Nat → α) (table : List Device) (args : Args) (m₀ : World α)
    (log : List LoopEvent) (heard : Intake) (flow : Flow) (m : World α) (es : List Entry) :
    Prop where
  served : ∃ b m₁, DaemonServes .fresh m₀ es b m₁ ∧ m₁.shm = m.shm ∧
    ∀ self d, flow = .next self → lastCreated log = some d → b = .connected d
  frames : ∀ d, lastCreated log = some d → SameFrames d.captureChannels.toNat
    (capturedFrom d.captureChannels.toNat [] es) (heardFrames osc false d.captureChannels.toNat heard)
  creates : ∀ d latency sys, .create d latency sys ∈ es → d ∈ table ∧ latency = args.latencyFrames

variable {es : List Entry}

/-- A pass with a capture adds its pushes. -/
theorem DaemonCalls.capturing (h : DaemonCalls osc table args m₀ log heard (.next self) m es)
    (hcreated : lastCreated log = some d) (hnone : ∀ d, .created d ∉ evs) {ps : List Received}
    (hserves : DaemonServes (.connected d) m (pushesOf d.captureChannels.toNat ps) (.connected d)
      m') : DaemonCalls osc table args m₀ (log ++ evs) (heard.pass ps evs) flow m'
        (es ++ pushesOf d.captureChannels.toNat ps) := by
  obtain ⟨b, m₁, hbefore, hshm, hlocal⟩ := h.served
  obtain rfl := hlocal self d rfl hcreated
  obtain ⟨m₂, hafter, hshm₂⟩ := hserves.transfer secluded_startDaemon hshm.symm
  have hlast := (lastCreated_append log hnone).trans hcreated
  refine ⟨⟨_, m₂, hbefore.append hafter, hshm₂.symm, ?_⟩, ?_, ?_⟩
  · rw [hlast]
    rintro _ _ - ⟨⟩
    rfl
  · rw [hlast]
    rintro _ ⟨⟩
    unfold Intake.pass
    rw [heardFrames_events _ _ _ _ hnone, heardFrames_receive, capturedFrom_append]
    exact capturedFrom_pushes ps (h.frames d hcreated)
  · intro d' latency sys hmem
    rcases List.mem_append.mp hmem with hmem | hmem
    · exact h.creates d' latency sys hmem
    · obtain ⟨p, -, hp⟩ := List.mem_flatMap.mp hmem
      split_ifs at hp
      · cases hp
      · cases List.mem_singleton.mp hp

/-- A pass without one adds nothing, or a `create`. -/
theorem DaemonCalls.idle (h : DaemonCalls osc table args m₀ log heard (.next self) m es)
    (hidle : self.active = none)
    (hpass : iterateLogged osc table args turn self m = some (flow, m', evs)) :
    ∃ es', DaemonCalls osc table args m₀ (log ++ evs) (heard.pass [] evs) flow m' es' := by
  obtain ⟨b, m₁, hbefore, hshm, hlocal⟩ := h.served
  unfold Intake.pass
  rw [heard.receive_nil]
  have hcall {d : Device} (hd : d ∈ table) : ∀ d' latency sys,
      .create d' latency sys ∈ es ++ [.create d args.latencyFrames turn.sys] →
        d' ∈ table ∧ latency = args.latencyFrames := by
    intro d' latency sys hmem
    rcases List.mem_append.mp hmem with hmem | hmem
    · exact h.creates d' latency sys hmem
    · cases List.mem_singleton.mp hmem
      exact ⟨hd, rfl⟩
  rcases iterateLogged_idle hidle hpass with
    ⟨rfl, hnone⟩ | ⟨d, hd, ⟨hexec, hopen, hmmap, rest, rfl, hrest⟩ | ⟨e, hexec, hbad, rfl, rfl⟩⟩
  · have hlast := lastCreated_append log hnone
    refine ⟨es, ⟨b, m₁, hbefore, hshm, ?_⟩, ?_, h.creates⟩
    · rw [hlast]
      exact fun _ d _ => hlocal self d rfl
    · rw [hlast]
      intro d hd
      rw [heardFrames_events _ _ _ _ hnone]
      exact h.frames d hd
  · have hone : DaemonServes b m [.create d args.latencyFrames turn.sys] (.connected d) m' :=
      Serves.none.call rfl (exec_bind_done hexec)
    obtain ⟨m₂, hafter, hshm₂⟩ := hone.transfer secluded_startDaemon hshm.symm
    have hlast : lastCreated (log ++ .scanned d :: .created d :: rest) = some d := by
      have hsplit := lastCreated_append (log ++ [.scanned d] ++ [.created d]) hrest
      rw [lastCreated_snoc, List.append_assoc, List.append_assoc] at hsplit
      exact hsplit
    refine ⟨_, ⟨_, m₂, hbefore.append hafter, hshm₂.symm, ?_⟩, ?_, hcall hd⟩
    · rw [hlast]
      rintro _ _ - ⟨⟩
      rfl
    · rw [hlast]
      rintro _ ⟨⟩
      have hempty : capturedFrom (α := α) d.captureChannels.toNat []
          (es ++ [.create d args.latencyFrames turn.sys]) = [] := by
        rw [capturedFrom_append]
        show (if (turn.sys.openOk && turn.sys.mmapOk) = true then [] else _) = _
        rw [hopen, hmmap]
        rfl
      have hnothing : heardFrames osc false d.captureChannels.toNat
          ((LoopEvent.scanned d :: .created d :: rest).foldl Intake.after heard) = [] :=
        (heardFrames_events osc false _ .none hrest).trans (heardFrames_none ..)
      rw [hempty, hnothing]
      exact .nil
  · have hone : DaemonServes b m [.create d args.latencyFrames turn.sys] .fresh m' :=
      Serves.none.call rfl (exec_bind_done hexec)
    obtain ⟨m₂, hafter, hshm₂⟩ := hone.transfer secluded_startDaemon hshm.symm
    have hlast : lastCreated (log ++ [.scanned d]) = lastCreated log := lastCreated_snoc ..
    refine ⟨_, ⟨_, m₂, hbefore.append hafter, hshm₂.symm, ?_⟩, ?_, hcall hd⟩
    · rintro _ _ ⟨⟩
    · rw [hlast]
      intro d' hd'
      have hkept : capturedFrom (α := α) d'.captureChannels.toNat []
          (es ++ [.create d args.latencyFrames turn.sys]) =
          capturedFrom d'.captureChannels.toNat [] es := by
        rw [capturedFrom_append]
        show (if (turn.sys.openOk && turn.sys.mmapOk) = true then [] else _) = _
        rw [if_neg (by rwa [Bool.and_eq_true])]
      rw [hkept]
      exact h.frames d' hd'

/-- **A run of `run_daemon` is a series of calls.** -/
theorem daemonCalls_run (hdistinct : (table.map Device.productId).Nodup)
    (hcount : ∀ d ∈ table, 1 ≤ d.captureChannels.toNat ∧ d.captureChannels.toNat ≤ 8)
    (hsine : args.sine = false) {now : ℚ}
    (h : StreamRun osc table args now m₀ log heard flow m) :
    ∃ es, DaemonCalls osc table args m₀ log heard flow m es := by
  induction h with
  | start =>
    refine ⟨[], ⟨_, m₀, .none, rfl, ?_⟩, ?_, fun _ _ _ => List.not_mem_nil.elim⟩
    · rintro _ _ - ⟨⟩
    · rintro _ ⟨⟩
  | elsewhere _ hshm ih =>
    obtain ⟨es, ⟨b, m₁, hserves, hsame, hlocal⟩, hframes, hcreates⟩ := ih
    exact ⟨es, ⟨b, m₁, hserves, hsame.trans hshm.symm, hlocal⟩, hframes, hcreates⟩
  | @pass _ _ _ self _ m _ turn hrun hfits hpass ih =>
    obtain ⟨es, hes⟩ := ih
    have hloop := loopRun_inv hdistinct hrun.loopRun
    cases hcap : self.active with
    | none =>
      rw [Daemon.received_idle hcap]
      exact hes.idle hcap hpass
    | some cap =>
      obtain ⟨d, -, hcreated, -⟩ := hloop.capturing hcap
      have hstream := (streamRun_inv hdistinct hcount hrun).running self cap d rfl hcap hcreated
      obtain ⟨hnone, d', hcreated', hserves⟩ :=
        serves_pass hcount hloop hfits hcap (hstream.sine.trans hsine) hpass
      exact ⟨_, hes.capturing hcreated' hnone hserves⟩

/-- **`run_daemon` inside the system.** Every run of `run_daemon` is a series of calls of the
daemon's thread, its `create`s for rows of the table. The system can make them; and however the
other threads run meanwhile, and whatever the plugin's globals were, it ends with the segment of
`run_daemon`, the captured frames being those of the packets. -/
theorem run_daemon_served (hdistinct : (table.map Device.productId).Nodup)
    (hcount : ∀ d ∈ table, 1 ≤ d.captureChannels.toNat ∧ d.captureChannels.toNat ≤ 8)
    (hsine : args.sine = false) {now : ℚ}
    (h : StreamRun osc table args now m₀ log heard flow m) :
    ∃ es, (∀ d latency sys, .create d latency sys ∈ es →
        d ∈ table ∧ latency = args.latencyFrames) ∧
      (∃ as p b, Run start Free (System.init m₀) as p ∧ callsOf .daemon as = es ∧
        p.thread .daemon = .ret b) ∧
      ∀ m₁ as p b, m₁.shm = m₀.shm → Run start Free (System.init m₁) as p →
        callsOf .daemon as = es → p.thread .daemon = .ret b →
        p.shared.shm = m.shm ∧ ∀ d, lastCreated log = some d →
          SameFrames d.captureChannels.toNat (captured d.captureChannels.toNat as)
            (heardFrames osc false d.captureChannels.toNat heard) := by
  obtain ⟨es, ⟨b, m', hserves, hsame, -⟩, hframes, hcreates⟩ :=
    daemonCalls_run hdistinct hcount hsine h
  refine ⟨es, hcreates, ?_, fun m₁ as p b' hshm hrun hcalls hidle => ⟨?_, fun d hd => ?_⟩⟩
  · have halone : ∃ as p, Run start Free (System.init m₀) as p ∧ (∀ a ∈ as, a.by = Tid.daemon) ∧
        callsOf .daemon as = es ∧ p.thread .daemon = .ret b ∧ p.shared = m' ∧ p.owner = none :=
      run_of_serves hserves
    obtain ⟨as, p, hrun, -, hcalls, hidle, -⟩ := halone
    exact ⟨as, p, b, hrun, hcalls, hidle⟩
  · obtain ⟨m₂, hserves₂, hview₂⟩ :=
      serves_of_run (t := Tid.daemon) secluded_startDaemon keeps_shm_others hrun hidle
    rw [hcalls] at hserves₂
    have hboth := hserves₂.same secluded_startDaemon hshm hserves
    exact (hview₂.symm.trans hboth.2).trans hsame
  · rw [captured_eq, hcalls]
    exact hframes d hd

end

set_option maxRecDepth 20000 in
/-- A device is found, and eight frames of it arrive. -/
theorem run_daemon_served_tailed : ∃ (p : System ℚ) (as : List (Act Tid Entry)),
    Run start Free (System.init ⟨true, Shm.zero, {}⟩) as p ∧ p.shared.shm.writeFrames = 8 := by
  have hstart : StreamRun (fun _ => (0 : ℚ)) monoStereo.rows ⟨false, false, 10⟩ 0
      ⟨true, Shm.zero, {}⟩ [] _ _ _ := .start
  have hfound := hstart.pass (.finding 2 0) (by rintro _ ⟨⟩) rfl
  have hheard := hfound.pass { Turn.finding 2 1 with events := [secondDelivery] } (by
    rintro cap hcap c hc
    obtain rfl := List.mem_singleton.mp (Daemon.delivered_subset _ _ _ _ hc)
    cases hcap
    exact secondDelivery_fits) rfl
  obtain ⟨es, -, ⟨as, p, b, hrun, hcalls, hidle⟩, hall⟩ :=
    run_daemon_served (by decide) (by decide) rfl hheard
  refine ⟨p, as, hrun, ?_⟩
  rw [(hall _ as p b rfl hrun hcalls hidle).1]
  rfl

end Line6
