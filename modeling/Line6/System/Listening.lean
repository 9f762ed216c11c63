import Line6.Plugin.Resync
import Line6.System.Fidelity
import Line6.System.Serving

/-!
# From the device to the host

A `Listening` run puts the two ends together: the passes of `run_daemon`, and between them the
first `DoIOOperation` call of one IO cycle after another, each with the buffer the host is handed.

* `streamRun_header`: the header is the one `create` filled, in every reachable state.
* `ListenInv.call`: a call copies its window of the stream.
* `usb_to_host`: what the host hears are the frames of the packets the device sent; and as long as
  the daemon keeps pace, the buffers one after another are one stretch of them, without a gap.
-/

namespace Line6

open Conc Conc.Prog RingLog

variable {α : Type}

/-! ## The header -/

/-- The words of the header that the plugin goes by. -/
structure Shm.HeaderFor (s : Shm α) (d : Device) (latencyFrames : UInt32) : Prop where
  channels : s.channels = d.captureChannels.toUInt32
  latency : s.latencyFrames = latencyFrames

theorem Shm.HeaderFor.of_same {s s' : Shm α} {d : Device} {latencyFrames : UInt32}
    (h : s.HeaderFor d latencyFrames) (hsame : s.SameHeader s') : s'.HeaderFor d latencyFrames := by
  obtain ⟨wf, ring, rfl⟩ := hsame
  exact ⟨h.channels, h.latency⟩

section

variable [Pcm α] {osc : Nat → α} {table : List Device} {args : Args} {turn : Turn} {now : ℚ}
  {self : Daemon} {m m' m₀ : World α} {flow : Flow} {log evs : List LoopEvent} {heard : Intake}
  {d : Device}

/-- A pass that fills the header fills it for a row of the table, the last it logs. -/
theorem Pass.created (h : Pass osc table args turn self m flow m' evs) (hmem : .created d ∈ evs) :
    d ∈ table ∧ lastCreated (log ++ evs) = some d := by
  cases h with
  | @create e _ rest _ hidle he hneeds hshm hstart =>
    have hrest : ∀ d', .created d' ∉ rest := fun d' => by
      have hnone := tryStartLogged_created { self with shmPtr := true, shmPid := e.productId }
        args e turn m'.shm.writeFrames d'
      rwa [hstart] at hnone
    obtain rfl : d = e := by
      rcases List.mem_cons.mp hmem with heq | hmem
      · cases heq
      · rcases List.mem_cons.mp hmem with heq | hmem
        · cases heq
          rfl
        · exact absurd hmem (hrest d)
    refine ⟨he, ?_⟩
    have hsplit := lastCreated_append (log ++ [.scanned d] ++ [.created d]) hrest
    rwa [lastCreated_snoc, List.append_assoc, List.append_assoc] at hsplit
  | @keep e rest _ hidle he hneeds hstart =>
    have hnone := tryStartLogged_created self args e turn m.shm.writeFrames d
    rw [hstart] at hnone
    rcases List.mem_cons.mp hmem with heq | hmem
    · cases heq
    · exact absurd hmem hnone
  | _ => simp at hmem

/-- **The header is the one `create` filled**, in every reachable state. -/
theorem streamRun_header (h : StreamRun osc table args now m₀ log heard flow m)
    (hd : lastCreated log = some d) : d ∈ table ∧ m.shm.HeaderFor d args.latencyFrames := by
  induction h with
  | start => cases hd
  | elsewhere _ hshm ih =>
    rw [hshm]
    exact ih hd
  | pass turn _ _ hpass ih =>
    have hpassed := iterateLogged_pass hpass
    rcases hpassed.segment with ⟨e, hmem, hshm⟩ | ⟨hnone, hgrown⟩
    · obtain ⟨he, hlast⟩ := hpassed.created hmem
      cases hlast.symm.trans hd
      rw [hshm]
      exact ⟨he, rfl, rfl⟩
    · rw [lastCreated_append _ hnone] at hd
      obtain ⟨hmem, hheader⟩ := ih hd
      exact ⟨hmem, hheader.of_same hgrown.sameHeader⟩

/-! ## The plugin during a pass -/

omit [Pcm α] in
theorem Appended.samePlugin {ch : Nat} {frames : List (Nat → α)} (h : Appended ch frames m m') :
    SamePlugin m m' := by
  obtain ⟨ring, rfl, -⟩ := h
  rfl

/-- **A pass leaves the plugin alone.** -/
theorem pass_samePlugin (hcount : ∀ d ∈ table,
      1 ≤ d.captureChannels.toNat ∧ d.captureChannels.toNat ≤ 8)
    (hloop : LoopInv table log self m) (hfits : PassFits osc turn self m)
    (hpass : iterateLogged osc table args turn self m = some (flow, m', evs)) :
    SamePlugin m m' := by
  cases hcap : self.active with
  | none =>
    have hcreate {d : Device} {r : Except String Unit}
        (hexec : exec (create d args.latencyFrames turn.sys) false m = .done false m' r) :
        SamePlugin m m' := by
      refine exec_keeps samePlugin_refl ?_ (plain_create _ _ _).keeps hexec
      exact fun _ _ _ h h' => Eq.trans h' h
    rcases iterateLogged_idle hcap hpass with
      ⟨rfl, -⟩ | ⟨d, -, ⟨hexec, -⟩ | ⟨e, hexec, -⟩⟩
    · rfl
    · exact hcreate hexec
    · exact hcreate hexec
  | some cap =>
    obtain ⟨d, hd, -, heng, hof⟩ := hloop.capturing hcap
    obtain ⟨hpos, hch⟩ := hcount d hd
    have hdeliver := hfits cap hcap
    have hgoes := iterateLogged_running hcap hpass
    have hnone := appended_nil d.captureChannels.toNat m
    have hbusy (hidle : self.active = none) : False := by
      rw [hcap] at hidle
      cases hidle
    cases iterateLogged_pass hpass with
    | quit hidle => exact (hbusy hidle).elim
    | createFails e hidle => exact (hbusy hidle).elim
    | create hidle => exact (hbusy hidle).elim
    | keep hidle => exact (hbusy hidle).elim
    | absent count hidle => exact (hbusy hidle).elim
    | stop hcap' hstop =>
      obtain rfl := Option.some.inj (hcap.symm.trans hcap')
      have hquit : turn.running = false :=
        Bool.eq_false_of_not_eq_true (mt hgoes.mp (by rintro ⟨_, ⟨⟩⟩))
      rw [Daemon.delivered_stop hcap hquit] at hdeliver
      obtain ⟨more, hmore, -⟩ := usbStop_streams hpos hch heng hof hdeliver hstop hnone
      exact hmore.samePlugin
    | capture hcap' hevents hgoing =>
      obtain rfl := Option.some.inj (hcap.symm.trans hcap')
      rw [Daemon.delivered_capture hcap (hgoes.mpr ⟨_, rfl⟩) hevents hgoing] at hdeliver
      rw [heng] at hevents hdeliver
      obtain ⟨more, hmore, -⟩ := handleEvents_streams hpos hch hof hdeliver hevents hnone
      exact hmore.samePlugin
    | tearDown hcap' hevents hstalled hstop =>
      obtain rfl := Option.some.inj (hcap.symm.trans hcap')
      rw [Daemon.delivered_tearDown hcap (hgoes.mpr ⟨_, rfl⟩) hevents hstalled] at hdeliver
      have hsooner (c : Delivery) (hc : c ∈ turn.events) : c.Fits (Engine.new d) :=
        heng ▸ hdeliver c (List.mem_append_left _ hc)
      have hof' := handleEvents_of hof hevents
      rw [heng] at hevents
      obtain ⟨more, hmore, -⟩ := handleEvents_streams hpos hch hof hsooner hevents hnone
      obtain ⟨later, hlater, -⟩ := usbStop_streams hpos hch heng hof'
        (fun c hc => hdeliver c (List.mem_append_right _ hc)) hstop hmore
      exact hlater.samePlugin

/-! ## The stream grows -/

/-- Until the header is filled anew, a pass only appends to the stream. -/
theorem heardFrames_pass (osc : Nat → α) (sine : Bool) (ch : Nat) (heard : Intake)
    (ps : List Received) (hnone : ∀ d, .created d ∉ evs) :
    heardFrames osc sine ch heard <+: heardFrames osc sine ch (heard.pass ps evs) := by
  unfold Intake.pass
  rw [heardFrames_events _ _ _ _ hnone]
  have hcurrent : engineFrames osc sine ch heard.current <+:
      engineFrames osc sine ch (heard.current ++ ps) := by
    cases sine with
    | false =>
      show packetFrames ch heard.current <+: packetFrames ch (heard.current ++ ps)
      unfold packetFrames
      rw [List.flatMap_append]
      exact List.prefix_append _ _
    | true =>
      show toneFrames osc 0 _ <+: toneFrames osc 0 _
      rw [frameCount_append, toneFrames_add]
      exact List.prefix_append _ _
  exact (List.prefix_append_right_inj _).mpr hcurrent

omit [Pcm α] in
/-- The stream read up to the write head does not change. -/
theorem heard_prefix [Pcm α] {ch w rf : Nat} {old new : List (Nat → α)} (h : old <+: new)
    (hw : w ≤ old.length) : Line6.heard ch new w rf = Line6.heard ch old w rf := by
  obtain ⟨more, rfl⟩ := h
  funext i
  unfold Line6.heard
  split_ifs with hlt
  · rw [List.getD_append _ _ _ _ (by omega)]
  · rfl

end

/-! ## The host -/

/-- What a `ReadInput` call hands out: its size, the write head it saw, the frame it starts from,
and its stores. -/
structure HostBuffer (α : Type) where
  frames : UInt32
  head : UInt64
  start : UInt64
  writes : List (Nat × α)

/-- Channel `c` of the buffer. -/
def HostBuffer.channel (b : HostBuffer α) (ch c : Nat) : List α :=
  (List.range b.frames.toNat).filterMap fun i => b.writes.lookup (i * ch + c)

/-- The buffer holds its window of the stream, and silence from the write head on. -/
structure HostBuffer.Plays [Pcm α] (b : HostBuffer α) (ch : Nat) (stream : List (Nat → α)) :
    Prop where
  head_le : b.head.toNat ≤ stream.length
  start_le : b.start.toNat ≤ b.head.toNat
  writes : b.writes =
    (List.range b.frames.toNat).flatMap (heard ch stream b.head.toNat b.start.toNat)

/-- Where a buffer starts when the one before ended at `rf`: there while its window is complete and
in the ring, else the latency behind the write head. -/
def HostBuffer.StartsAfter (b : HostBuffer α) (latencyFrames : UInt32) (rf : Nat) : Prop :=
  (Fits b.frames rf b.head → b.start.toNat = rf) ∧
  (¬ Fits b.frames rf b.head →
    b.start.toNat = b.head.toNat - max (2 * b.frames.toNat + 256) latencyFrames.toNat)

/-- The frame after its last. -/
def HostBuffer.stop (b : HostBuffer α) : Nat := b.start.toNat + b.frames.toNat

/-- A run of `run_daemon` from a point on at which the plugin is attached, the header not being
filled anew, with the buffers the host was handed: between the passes it makes the first calls of
IO cycles, and whatever else leaves the cursor and the segment alone. -/
inductive Listening [Pcm α] (osc : Nat → α) (table : List Device) (args : Args) (now : ℚ)
    (m₀ : World α) : List LoopEvent → Intake → Flow → World α → List (HostBuffer α) → Prop
  | attached {log : List LoopEvent} {heard : Intake} {flow : Flow} {m : World α}
      (h : StreamRun osc table args now m₀ log heard flow m) (hshm : m.plug.gShm = true) :
      Listening osc table args now m₀ log heard flow m []
  | between {log : List LoopEvent} {heard : Intake} {flow : Flow} {m m' : World α}
      {bs : List (HostBuffer α)} (h : Listening osc table args now m₀ log heard flow m bs)
      (hb : Between m m') (hshm : m'.shm = m.shm) :
      Listening osc table args now m₀ log heard flow m' bs
  | pass {log evs : List LoopEvent} {heard : Intake} {self : Daemon} {flow : Flow}
      {m m' : World α} {bs : List (HostBuffer α)} (turn : Turn)
      (h : Listening osc table args now m₀ log heard (.next self) m bs)
      (hfits : PassFits osc turn self m)
      (hpass : iterateLogged osc table args turn self m = some (flow, m', evs))
      (hnone : ∀ d, .created d ∉ evs) :
      Listening osc table args now m₀ (log ++ evs) (heard.pass (self.received osc turn m) evs)
        flow m' bs
  | call {log : List LoopEvent} {heard : Intake} {flow : Flow} {m m' : World α}
      {bs : List (HostBuffer α)} (h : Listening osc table args now m₀ log heard flow m bs)
      {n : UInt32} {cycle : UInt64} (hfirst : cycle ≠ m.plug.cursor.gLastCycle) {ch : UInt32}
      {w rf : UInt64} {ws : List (Nat × α)}
      (hcall : exec (doIOOperation true false n cycle) false m =
        .done false m' (.read ch w rf true ws)) :
      Listening osc table args now m₀ log heard flow m' (bs ++ [⟨n, w, rf, ws⟩])

section

variable [Pcm α] {osc : Nat → α} {table : List Device} {args : Args} {turn : Turn} {now : ℚ}
  {self : Daemon} {m m' m₀ : World α} {flow : Flow} {log evs : List LoopEvent} {heard : Intake}
  {d : Device} {bs : List (HostBuffer α)}

/-- Its passes are a run of `run_daemon`. -/
theorem Listening.streamRun (h : Listening osc table args now m₀ log heard flow m bs) :
    StreamRun osc table args now m₀ log heard flow m := by
  induction h with
  | attached h => exact h
  | between _ _ hshm ih => exact ih.elsewhere hshm
  | pass turn _ hfits hpass _ ih => exact ih.pass turn hfits hpass
  | call _ _ hcall ih =>
    have hkeeps (n : UInt32) (cycle : UInt64) :
        Keeps SameSegment (doIOOperation (α := α) true false n cycle) :=
      (silent_doIOOperation attaching_sameSegment.toBookkeeping
        (fun m _ => sameSegment_plug m _) true false n cycle).keeps
    exact ih.elsewhere (exec_keeps sameSegment_refl
      (fun _ _ _ h h' => ⟨h'.1.trans h.1, h'.2.trans h.2⟩) (hkeeps _ _) hcall).1

/-! ## The invariant -/

/-- The cursor and the buffers handed out, over the stream so far. -/
structure ListenInv (latencyFrames : UInt32) (ch : Nat) (stream : List (Nat → α)) (m : World α)
    (bs : List (HostBuffer α)) : Prop where
  attached : m.plug.gShm = true
  plays : ∀ b ∈ bs, b.Plays ch stream
  cursor : ∀ pre b, bs = pre ++ [b] → m.plug.cursor.gReadFrame.toNat = b.stop
  follows : ∀ pre a b post, bs = pre ++ a :: b :: post → b.StartsAfter latencyFrames a.stop

omit [Pcm α] in
/-- The latency in frames, as a number. -/
theorem Args.latencyFrames_eq (args : Args) :
    args.latencyFrames.toNat = 48 * max 5 (min args.latencyMs.toNat 500) := by
  have hmax (a b : UInt32) : (max a b).toNat = max a.toNat b.toNat := by
    show (if a ≤ b then b else a).toNat = _
    split_ifs with h <;> rw [UInt32.le_iff_toNat_le] at h <;> omega
  have hmin (a b : UInt32) : (min a b).toNat = min a.toNat b.toNat := by
    show (if a ≤ b then a else b).toNat = _
    split_ifs with h <;> rw [UInt32.le_iff_toNat_le] at h <;> omega
  have hms : (5 : UInt32).toNat = 5 ∧ (500 : UInt32).toNat = 500 := ⟨rfl, rfl⟩
  have hclamp := hmax 5 (min args.latencyMs 500)
  rw [hmin, hms.1, hms.2] at hclamp
  unfold latencyFrames
  rw [UInt32.toNat_mul, hclamp]
  show _ * 48 % 2 ^ 32 = _
  rw [Nat.mod_eq_of_lt (by omega), Nat.mul_comm]

omit [Pcm α] in
/-- It is clamped, so the margin is neither the default nor longer than the ring. -/
theorem Args.latencyFrames_range (args : Args) :
    240 ≤ args.latencyFrames.toNat ∧ args.latencyFrames.toNat ≤ 24000 := by
  have heq := args.latencyFrames_eq
  omega

omit [Pcm α] in
theorem depthOf_latencyFrames (args : Args) (n : UInt32) :
    depthOf n args.latencyFrames = max (2 * n.toNat + 256) args.latencyFrames.toNat := by
  have hrange := args.latencyFrames_range
  unfold depthOf
  rw [if_neg]
  intro hzero
  rw [hzero] at hrange
  exact absurd hrange.1 (by decide)

/-- A frame that a call copies, while the ring holds the last frames of the stream. -/
theorem frameOut_heard {ch : Nat} {stream : List (Nat → α)} (hpub : Published ch stream m)
    (hlen : stream.length < 2 ^ 63) {rf : UInt64} (hrf : m.shm.writeFrames.toNat ≤ rf.toNat + 65536)
    (hle : rf.toNat ≤ m.shm.writeFrames.toNat) {i : Nat} (hi : i < 2 ^ 32) :
    frameOut m ch m.shm.writeFrames rf i =
      Line6.heard ch stream m.shm.writeFrames.toNat rf.toNat i := by
  have hw : m.shm.writeFrames.toNat = stream.length := by
    rw [hpub.1, UInt64.toNat_ofNat', Nat.mod_eq_of_lt (by omega)]
  have hpos : (rf + UInt64.ofNat i).toNat = rf.toNat + i := toNat_position (by omega)
  unfold frameOut Line6.heard
  by_cases hlt : rf + UInt64.ofNat i < m.shm.writeFrames
  · have hlt' := UInt64.lt_iff_toNat_lt.mp hlt
    rw [hpos] at hlt'
    rw [if_pos hlt, if_pos hlt']
    refine List.map_congr_left fun c hc => ?_
    rw [read_position (by omega) hw.le (by omega) hlt (List.mem_range.mp hc) hpub.2]
  · have hlt' := mt UInt64.lt_iff_toNat_lt.mpr hlt
    rw [hpos] at hlt'
    rw [if_neg hlt, if_neg hlt']

/-- **A call of the host** copies its window of the stream, from where the last one ended if the
daemon keeps pace. -/
theorem ListenInv.call {stream : List (Nat → α)}
    (h : ListenInv args.latencyFrames d.captureChannels.toNat stream m bs)
    (hpos : 1 ≤ d.captureChannels.toNat) (hch : d.captureChannels.toNat ≤ 8)
    (hpub : Published d.captureChannels.toNat stream m)
    (hheader : m.shm.HeaderFor d args.latencyFrames) (hlen : stream.length < 2 ^ 63)
    {n : UInt32} (hn : n.toNat ≤ 32640) {cycle : UInt64}
    (hfirst : cycle ≠ m.plug.cursor.gLastCycle) {ch : UInt32} {w rf : UInt64}
    {ws : List (Nat × α)} (hcall : exec (doIOOperation true false n cycle) false m =
      .done false m' (.read ch w rf true ws)) :
    ListenInv args.latencyFrames d.captureChannels.toNat stream m' (bs ++ [⟨n, w, rf, ws⟩]) := by
  have hchannels : m.devChannels.toNat = d.captureChannels.toNat := by
    have hcount : d.captureChannels.toUInt32.toNat = d.captureChannels.toNat :=
      UInt8.toNat_toUInt32 _
    unfold World.devChannels
    rw [h.attached, if_pos rfl, hheader.channels,
      clampChannels_eq (hcount ▸ hpos) (hcount ▸ hch), hcount]
  have hw : m.shm.writeFrames.toNat = stream.length := by
    rw [hpub.1, UInt64.toNat_ofNat', Nat.mod_eq_of_lt (by omega)]
  have hrange := args.latencyFrames_range
  have hdepth := depthOf_latencyFrames args n
  have hexec := exec_first_doIOOperation h.attached hfirst n
  dsimp only at hexec
  rw [hcall, hchannels, hheader.latency] at hexec
  injection hexec with _ hm' hread
  injection hread with _ hhead hstart _ hwrites
  obtain ⟨hnear, hle⟩ := @window_margin m.plug.cursor n args.latencyFrames m.shm.writeFrames
    (by omega) (by omega) (by omega)
  rw [← hstart] at hnear hle hwrites
  subst hhead
  refine ⟨?_, ?_, ?_, ?_⟩
  · rw [hm']
    exact h.attached
  · intro b hb
    rcases List.mem_append.mp hb with hb | hb
    · exact h.plays b hb
    · rw [List.mem_singleton.mp hb]
      refine ⟨hw.le, hle, ?_⟩
      rw [hwrites]
      exact List.flatMap_congr fun i hi =>
        frameOut_heard hpub hlen (by omega) hle (by have := List.mem_range.mp hi; omega)
  · intro pre b hb
    obtain ⟨-, hb⟩ := List.append_inj' hb rfl
    cases hb
    rw [hm']
    show (_ + n.toUInt64).toNat = rf.toNat + n.toNat
    rw [← hstart, UInt64.toNat_add, UInt32.toNat_toUInt64, Nat.mod_eq_of_lt (by omega)]
  · intro pre a b post hsplit
    rcases List.eq_nil_or_concat post with rfl | ⟨post, x, rfl⟩
    · have hpair : pre ++ [a, b] = (pre ++ [a]) ++ [b] := List.append_cons ..
      rw [hpair] at hsplit
      obtain ⟨hbs, hb⟩ := List.append_inj' hsplit rfl
      cases hb
      have hcursor := h.cursor pre a hbs
      have hiff := @resyncs_eq_false m.plug.cursor n m.shm.writeFrames (by omega) (by omega)
      rw [hcursor] at hiff
      refine ⟨fun hfits => ?_, fun hfits => ?_⟩
      · rw [windowStart_of_not_resyncs (hiff.mpr hfits)] at hstart
        rw [hstart]
        exact hcursor
      · have hresync := Bool.eq_true_of_not_eq_false (mt hiff.mp hfits)
        show rf.toNat = _ - max (2 * n.toNat + 256) _
        rw [hstart, windowStart_resync hresync, hdepth]
    · have hlonger : pre ++ a :: b :: (post ++ [x]) = (pre ++ a :: b :: post) ++ [x] := by simp
      rw [List.concat_eq_append, hlonger] at hsplit
      obtain ⟨hbs, -⟩ := List.append_inj' hsplit rfl
      exact h.follows pre a b post hbs

/-- A pass of the daemon leaves what the host was handed. -/
theorem ListenInv.grow {latencyFrames : UInt32} {ch : Nat} {old stream : List (Nat → α)}
    (h : ListenInv latencyFrames ch old m bs) (hgrown : old <+: stream)
    (hcursor : m'.plug.cursor = m.plug.cursor) (hattached : m'.plug.gShm = m.plug.gShm) :
    ListenInv latencyFrames ch stream m' bs := by
  refine ⟨hattached.trans h.attached, fun b hb => ?_, ?_, h.follows⟩
  · obtain ⟨hhead, hstart, hwrites⟩ := h.plays b hb
    refine ⟨hhead.trans hgrown.length_le, hstart, ?_⟩
    rw [hwrites, heard_prefix hgrown hhead]
  · rw [hcursor]
    exact h.cursor

/-- **The invariant of a listening run.** -/
theorem listening_inv (hdistinct : (table.map Device.productId).Nodup)
    (hcount : ∀ d ∈ table, 1 ≤ d.captureChannels.toNat ∧ d.captureChannels.toNat ≤ 8)
    (h : Listening osc table args now m₀ log heard flow m bs)
    (hd : lastCreated log = some d) (hsizes : ∀ b ∈ bs, b.frames.toNat ≤ 32640)
    (hlen : (heardFrames osc args.sine d.captureChannels.toNat heard).length < 2 ^ 63) :
    ListenInv args.latencyFrames d.captureChannels.toNat
      (heardFrames osc args.sine d.captureChannels.toNat heard) m bs := by
  induction h with
  | attached _ hshm =>
    refine ⟨hshm, fun _ hb => absurd hb List.not_mem_nil, ?_, ?_⟩
    · intro pre b hb
      exact absurd hb (by simp)
    · intro pre a b post hb
      exact absurd hb (by simp)
  | between _ hb _ ih => exact (ih hd hsizes hlen).grow List.prefix_rfl hb.cursor hb.attached
  | @pass log _ heard self _ m _ _ turn hrun hfits hpass hnone ih =>
    rw [lastCreated_append _ hnone] at hd
    have hgrown := heardFrames_pass osc args.sine d.captureChannels.toNat heard
      (self.received osc turn m) hnone
    have hloop := loopRun_inv hdistinct hrun.streamRun.loopRun
    have hplug := pass_samePlugin hcount hloop hfits hpass
    exact (ih hd hsizes (hgrown.length_le.trans_lt hlen)).grow hgrown
      (congrArg Plugin.cursor hplug) (congrArg Plugin.gShm hplug)
  | call hrun hfirst hcall ih =>
    have hrun := hrun.streamRun
    obtain ⟨hmem, hheader⟩ := streamRun_header hrun hd
    have hpub := (streamRun_inv hdistinct hcount hrun).published d hd
    have hinv := ih hd (fun b hb => hsizes b (List.mem_append_left _ hb)) hlen
    exact hinv.call (hcount d hmem).1 (hcount d hmem).2 hpub hheader hlen
      (hsizes _ (List.mem_append_right _ (List.mem_singleton_self _))) hfirst hcall

end

/-! ## One stretch of the stream -/

/-- A store to the key of an entry is found by it, the keys being distinct. -/
theorem lookup_map {β : Type} (key : β → Nat) (val : β → α) {l : List β} {x : β} (hx : x ∈ l)
    (hinj : ∀ y ∈ l, key x = key y → x = y) :
    (l.map fun y => (key y, val y)).lookup (key x) = some (val x) := by
  induction l with
  | nil => cases hx
  | cons y l ih =>
    rw [List.map_cons, List.lookup_cons]
    by_cases heq : key x = key y
    · rw [← hinj y List.mem_cons_self heq, beq_self_eq_true]
    · rw [beq_eq_false_iff_ne.mpr heq]
      rcases List.mem_cons.mp hx with rfl | hx
      · cases heq rfl
      · exact ih hx fun z hz => hinj z (List.mem_cons_of_mem y hz)

/-- Channel `c` of a buffer whose frames are all below the write head. -/
theorem HostBuffer.Plays.channel [Pcm α] {b : HostBuffer α} {ch c : Nat}
    {stream : List (Nat → α)} (h : b.Plays ch stream) (hfull : b.stop ≤ b.head.toNat)
    (hc : c < ch) : b.channel ch c =
      ((stream.drop b.start.toNat).take b.frames.toNat).map fun frame => frame c := by
  have hstop : b.stop ≤ stream.length := hfull.trans h.head_le
  unfold stop at hfull hstop
  have hpairs : b.writes = (List.range b.frames.toNat ×ˢ List.range ch).map fun p =>
      (p.1 * ch + p.2, stream.getD (b.start.toNat + p.1) (fun _ => Pcm.silence) p.2) := by
    rw [h.writes]
    show _ = ((List.range b.frames.toNat).flatMap fun i => (List.range ch).map (Prod.mk i)).map _
    rw [List.map_flatMap]
    refine List.flatMap_congr fun i hi => ?_
    have hi := List.mem_range.mp hi
    unfold heard
    rw [if_pos (by omega), List.map_map]
    rfl
  have hcell {i : Nat} (hi : i < b.frames.toNat) : b.writes.lookup (i * ch + c) =
      some (stream.getD (b.start.toNat + i) (fun _ => Pcm.silence) c) := by
    rw [hpairs]
    refine lookup_map (fun p : Nat × Nat => p.1 * ch + p.2) _ (x := (i, c))
      (List.mem_product.mpr ⟨List.mem_range.mpr hi, List.mem_range.mpr hc⟩) ?_
    rintro ⟨j, e⟩ hmem heq
    have he := List.mem_range.mp (List.mem_product.mp hmem).2
    have hdiv {k e : Nat} (he : e < ch) : (k * ch + e) / ch = k := by
      rw [Nat.mul_comm, Nat.mul_add_div (by omega), Nat.div_eq_of_lt he, Nat.add_zero]
    dsimp only at heq
    obtain rfl : i = j := by rw [← hdiv (k := i) hc, heq, hdiv he]
    exact Prod.ext rfl (Nat.add_left_cancel heq)
  have hmap : b.channel ch c = (List.range b.frames.toNat).map fun i =>
      stream.getD (b.start.toNat + i) (fun _ => Pcm.silence) c := by
    exact List.filterMap_eq_map_iff_forall_eq_some.mpr fun i hi => hcell (List.mem_range.mp hi)
  rw [hmap]
  refine List.ext_getElem ?_ fun i hi _ => ?_
  · rw [List.length_map, List.length_map, List.length_take, List.length_drop, List.length_range]
    omega
  · rw [List.length_map, List.length_range] at hi
    rw [List.getElem_map, List.getElem_map, List.getElem_take, List.getElem_drop,
      List.getElem_range, List.getD_eq_getElem]

/-- The frames of some buffers. -/
def totalFrames (bs : List (HostBuffer α)) : Nat := (bs.map fun b => b.frames.toNat).sum

/-- **Buffers that follow one another** are one stretch of the stream. -/
theorem channel_stretch [Pcm α] {ch c : Nat} {stream : List (Nat → α)}
    {a : HostBuffer α} {bs : List (HostBuffer α)} (hc : c < ch)
    (hplays : ∀ b ∈ a :: bs, b.Plays ch stream) (hfull : ∀ b ∈ a :: bs, b.stop ≤ b.head.toNat)
    (hnext : ∀ pre x y post, a :: bs = pre ++ x :: y :: post → y.start.toNat = x.stop) :
    ((a :: bs).flatMap fun b => b.channel ch c) =
      ((stream.drop a.start.toNat).take (totalFrames (a :: bs))).map fun frame => frame c := by
  induction bs generalizing a with
  | nil =>
    have ha := (hplays a List.mem_cons_self).channel (hfull a List.mem_cons_self) hc
    rw [List.flatMap_singleton, ha]
    rfl
  | cons b bs ih =>
    have ha := (hplays a List.mem_cons_self).channel (hfull a List.mem_cons_self) hc
    have hrest := ih (a := b) (fun x hx => hplays x (List.mem_cons_of_mem a hx))
      (fun x hx => hfull x (List.mem_cons_of_mem a hx))
      fun pre x y post h => hnext (a :: pre) x y post (by rw [h]; rfl)
    have hb : b.start.toNat = a.start.toNat + a.frames.toNat := hnext [] a b bs rfl
    have htotal : totalFrames (a :: b :: bs) = a.frames.toNat + totalFrames (b :: bs) := rfl
    rw [List.flatMap_cons, ha, hrest, htotal, List.take_add, List.map_append, List.drop_drop, hb]

section

variable [Pcm α] {osc : Nat → α} {table : List Device} {args : Args} {now : ℚ} {m m₀ : World α}
  {flow : Flow} {log : List LoopEvent} {heard : Intake} {d : Device} {bs : List (HostBuffer α)}

/-- **From the device to the host.** The host hears the frames of the packets the device sent
since the header was filled, each buffer the window of them it starts at, and silence from the
write head on. A buffer starts where the one before ended while the daemon keeps pace, else the
latency behind the write head; and buffers between which it keeps pace are, channel by channel,
one stretch of the frames. -/
theorem usb_to_host (hdistinct : (table.map Device.productId).Nodup)
    (hcount : ∀ d ∈ table, 1 ≤ d.captureChannels.toNat ∧ d.captureChannels.toNat ≤ 8)
    (h : Listening osc table args now m₀ log heard flow m bs)
    (hd : lastCreated log = some d) (hsizes : ∀ b ∈ bs, b.frames.toNat ≤ 32640)
    (hlen : frameCount d.captureChannels.toNat (heard.earlier.flatten ++ heard.current) < 2 ^ 63) :
    (∀ b ∈ bs, b.Plays d.captureChannels.toNat
      (heardFrames osc args.sine d.captureChannels.toNat heard)) ∧
    (∀ pre a b post, bs = pre ++ a :: b :: post → b.StartsAfter args.latencyFrames a.stop) ∧
    ∀ pre a mid post, bs = pre ++ a :: mid ++ post → a.stop ≤ a.head.toNat →
      (∀ l x y r, a :: mid = l ++ x :: y :: r → Fits y.frames x.stop y.head) →
      ∀ c < d.captureChannels.toNat,
        ((a :: mid).flatMap fun b => b.channel d.captureChannels.toNat c) =
          (((heardFrames osc args.sine d.captureChannels.toNat heard).drop a.start.toNat).take
            (totalFrames (a :: mid))).map fun frame => frame c := by
  rw [← heardFrames_length osc args.sine] at hlen
  have hinv := listening_inv hdistinct hcount h hd hsizes hlen
  refine ⟨hinv.plays, hinv.follows, ?_⟩
  rintro pre a mid post rfl hfirst hpace c hc
  have hstarts (l : List (HostBuffer α)) (x y : HostBuffer α) (r : List (HostBuffer α))
      (hsplit : a :: mid = l ++ x :: y :: r) : y.start.toNat = x.stop := by
    refine (hinv.follows (pre ++ l) x y (r ++ post) ?_).1 (hpace l x y r hsplit)
    rw [hsplit]
    simp
  have hbelow (b : HostBuffer α) (hb : b ∈ a :: mid) : b.stop ≤ b.head.toNat := by
    rcases List.mem_cons.mp hb with rfl | hb
    · exact hfirst
    · obtain ⟨s, r, rfl⟩ := List.append_of_mem hb
      obtain ⟨l, x, hlast⟩ : ∃ l x, a :: s = l ++ [x] :=
        ⟨_, _, (List.dropLast_concat_getLast (List.cons_ne_nil a s)).symm⟩
      have hsplit : a :: (s ++ b :: r) = l ++ x :: b :: r := by
        rw [← List.cons_append, hlast, List.append_assoc]
        rfl
      have hstart := hstarts l x b r hsplit
      have hfits := (hpace l x b r hsplit).1
      unfold HostBuffer.stop at hstart hfits ⊢
      omega
  have hmem (b : HostBuffer α) (hb : b ∈ a :: mid) : b ∈ pre ++ a :: mid ++ post :=
    List.mem_append_left _ (List.mem_append_right _ hb)
  exact channel_stretch hc (fun b hb => hinv.plays b (hmem b hb)) hbelow hstarts

end

set_option maxRecDepth 20000 in
/-- Eight frames arrive, and the host takes them in two buffers. -/
theorem usb_to_host_tailed : ∃ (log : List LoopEvent) (heard : Intake) (flow : Flow) (m : World ℚ)
    (a b : HostBuffer ℚ), Listening (fun _ => (0 : ℚ)) monoStereo.rows ⟨false, false, 10⟩ 0
        ⟨true, Shm.zero, { gShm := true }⟩ log heard flow m [a, b] ∧
      (a.start, a.head, b.start, b.head) = (0, 8, 4, 8) ∧
      a.channel 2 1 ++ b.channel 2 1 =
        ((heardFrames (fun _ => (0 : ℚ)) false 2 heard).take 8).map fun frame => frame 1 := by
  have hstart : StreamRun (fun _ => (0 : ℚ)) monoStereo.rows ⟨false, false, 10⟩ 0
      ⟨true, Shm.zero, { gShm := true }⟩ [] _ _ _ := .start
  have hfound := hstart.pass (.finding 2 0) (by rintro _ ⟨⟩) rfl
  have hlisten := Listening.attached hfound rfl
  have hheard := hlisten.pass { Turn.finding 2 1 with events := [secondDelivery] } (by
    rintro cap hcap c hc
    obtain rfl := List.mem_singleton.mp (Daemon.delivered_subset _ _ _ _ hc)
    cases hcap
    exact secondDelivery_fits) rfl (by simp)
  have hfirst := hheard.call (n := 4) (by decide : (1 : UInt64) ≠ _)
    (exec_first_doIOOperation rfl (by decide) 4)
  have hsecond := hfirst.call (n := 4) (by decide : (2 : UInt64) ≠ _)
    (exec_first_doIOOperation rfl (by decide) 4)
  obtain ⟨-, -, hstretch⟩ := usb_to_host (by decide) (by decide) hsecond rfl
    (by simp) (by decide)
  have hboth := hstretch [] _ [_] [] rfl (by decide) (fun l x y r hsplit => ?_) 1 (by decide)
  · exact ⟨_, _, _, _, _, _, hsecond, rfl, hboth⟩
  · cases l with
    | nil =>
      cases hsplit
      exact ⟨by decide, by decide⟩
    | cons z l =>
      have hlength := congrArg List.length hsplit
      simp only [List.length_cons, List.length_append, List.length_nil] at hlength
      omega

end Line6
