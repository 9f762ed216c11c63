import Line6.Lib.Trace
import Line6.Daemon.Exit

/-!
# The daemon's loop over a whole run

`iterateLogged` is `iterate` with a ghost log of what the pass did: which device the scan found,
what `create` filled the header for, which engine was started, which write heads were observed and
which engine was stopped. `iterateLogged_erase` says that the log changes nothing. A `LoopRun` is
any number of passes, with any answers of the environment, and with anyone else publishing frames
in between.

* `Allowed` says of every event when it may come, in terms of the events before it.
* `publishes_onInPackets`, `usbStop_publishes`: completions only publish, for any number of
  channels.
* `iterateLogged_pass`: every way a pass can go, with its events.
* `LoopInv.pass`, `LoopRun.guarded`: every event of a run was allowed.
* `LoopRun.daemonRun`: without its log a run is a `DaemonRun`.
* `engine_header_invariant`: at most one engine exists, the header and the stream state are those
  of its device, it is torn down only after it stood still, the write head is set back only between
  engines and for another product, and every engine started has been stopped once at the end.
-/

namespace Line6

open Conc Conc.Prog

variable {α : Type}

/-! ## The log -/

/-- What a pass does, besides publishing frames. -/
inductive LoopEvent where
  | scanned (d : Device)
  | created (d : Device)
  | started (d : Device) (wf : UInt64) (now : ℚ)
  | observed (wf : UInt64) (now : ℚ)
  | tornDown (now : ℚ)
  | stopped
  deriving Repr, DecidableEq

namespace LoopEvent

def isScan : LoopEvent → Bool
  | scanned _ => true
  | _ => false

def isStart : LoopEvent → Bool
  | started _ _ _ => true
  | _ => false

/-- An engine is stopped inside the loop or after it. -/
def isStop : LoopEvent → Bool
  | tornDown _ => true
  | stopped => true
  | _ => false

end LoopEvent

/-- How often a scan found a device. -/
def scans (log : List LoopEvent) : Nat := log.countP LoopEvent.isScan

/-- How many engines were started. -/
def starts (log : List LoopEvent) : Nat := log.countP LoopEvent.isStart

/-- How often an engine was stopped. -/
def stops (log : List LoopEvent) : Nat := log.countP LoopEvent.isStop

/-- The device the header was last filled for. -/
def lastCreated (log : List LoopEvent) : Option Device :=
  log.foldl (fun last e => match e with
    | .created d => some d
    | _ => last) none

/-- The device an engine was last started for. -/
def lastStarted (log : List LoopEvent) : Option Device :=
  log.foldl (fun last e => match e with
    | .started d _ _ => some d
    | _ => last) none

/-- The last observed change of the write head, or the start of the engine if there was none since:
the value and the time. -/
def lastChange (log : List LoopEvent) : Option (UInt64 × ℚ) :=
  log.foldl (fun last e => match e with
    | .started _ wf now => some (wf, now)
    | .observed wf now => if last.map Prod.fst = some wf then last else some (wf, now)
    | _ => last) none

section

variable (log : List LoopEvent) (e : LoopEvent)

@[simp] theorem scans_snoc : scans (log ++ [e]) = scans log + if e.isScan then 1 else 0 := by
  unfold scans
  rw [List.countP_append, List.countP_singleton]

@[simp] theorem starts_snoc : starts (log ++ [e]) = starts log + if e.isStart then 1 else 0 := by
  unfold starts
  rw [List.countP_append, List.countP_singleton]

@[simp] theorem stops_snoc : stops (log ++ [e]) = stops log + if e.isStop then 1 else 0 := by
  unfold stops
  rw [List.countP_append, List.countP_singleton]

@[simp] theorem lastCreated_snoc : lastCreated (log ++ [e]) = match e with
    | .created d => some d
    | _ => lastCreated log := List.foldl_concat ..

@[simp] theorem lastStarted_snoc : lastStarted (log ++ [e]) = match e with
    | .started d _ _ => some d
    | _ => lastStarted log := List.foldl_concat ..

@[simp] theorem lastChange_snoc : lastChange (log ++ [e]) = match e with
    | .started _ wf now => some (wf, now)
    | .observed wf now =>
      if (lastChange log).map Prod.fst = some wf then lastChange log else some (wf, now)
    | _ => lastChange log := List.foldl_concat ..

end

/-- Since an event of `log` that showed `wf` at the time `t`, nothing else was observed. -/
def StillSince (log : List LoopEvent) (wf : UInt64) (t : ℚ) : Prop :=
  ∃ pre e post, log = pre ++ e :: post ∧ (e = .observed wf t ∨ ∃ d, e = .started d wf t) ∧
    (∀ wf' t', .observed wf' t' ∈ post → wf' = wf) ∧ ∀ d wf' t', .started d wf' t' ∉ post

theorem StillSince.snoc {log : List LoopEvent} {wf : UInt64} {t : ℚ} (h : StillSince log wf t)
    {e : LoopEvent} (hobserved : ∀ wf' t', e = .observed wf' t' → wf' = wf)
    (hstarted : ∀ d wf' t', e ≠ .started d wf' t') : StillSince (log ++ [e]) wf t := by
  obtain ⟨pre, first, post, rfl, hfirst, hall, hnone⟩ := h
  refine ⟨pre, first, post ++ [e], by simp, hfirst, fun wf' t' hmem => ?_,
    fun d wf' t' hmem => ?_⟩
  · rcases List.mem_append.mp hmem with hmem | hmem
    · exact hall wf' t' hmem
    · exact hobserved wf' t' (List.mem_singleton.mp hmem).symm
  · rcases List.mem_append.mp hmem with hmem | hmem
    · exact hnone d wf' t' hmem
    · exact hstarted d wf' t' (List.mem_singleton.mp hmem).symm

/-- What `lastChange` is. -/
theorem stillSince_lastChange {log : List LoopEvent} {wf : UInt64} {t : ℚ}
    (h : lastChange log = some (wf, t)) : StillSince log wf t := by
  induction log using List.reverseRecOn with
  | nil => cases h
  | append_singleton log e ih =>
    rw [lastChange_snoc] at h
    cases e with
    | started d wf' now =>
      cases h
      exact ⟨log, _, [], rfl, .inr ⟨d, rfl⟩, by simp, by simp⟩
    | observed wf' now =>
      dsimp only at h
      split_ifs at h with hsame
      · rw [h] at hsame
        refine (ih h).snoc ?_ nofun
        rintro wf'' t' ⟨⟩
        exact (Option.some.inj hsame).symm
      · cases h
        exact ⟨log, _, [], rfl, .inl rfl, by simp, by simp⟩
    | scanned d => exact (ih h).snoc nofun nofun
    | created d => exact (ih h).snoc nofun nofun
    | tornDown now => exact (ih h).snoc nofun nofun
    | stopped => exact (ih h).snoc nofun nofun

/-- When an event may come after the events of `log`. -/
def Allowed (log : List LoopEvent) : LoopEvent → Prop
  | .scanned _ => starts log = stops log
  | .created d => starts log = stops log ∧
      (scans log = 1 ∨ ∃ d', lastCreated log = some d' ∧ d'.productId ≠ d.productId)
  | .started d _ _ => starts log = stops log ∧ lastCreated log = some d
  | .observed _ _ => starts log = stops log + 1
  | .tornDown now => starts log = stops log + 1 ∧
      ∃ wf t, lastChange log = some (wf, t) ∧ watchdogStall < now - t
  | .stopped => starts log = stops log + 1

/-- **At most one engine at a time**, at every point of a log of allowed events. -/
theorem guarded_balanced {log : List LoopEvent} (h : Trace.Guarded Allowed log) :
    stops log ≤ starts log ∧ starts log ≤ stops log + 1 := by
  induction h with
  | nil => exact ⟨Nat.le_refl 0, Nat.zero_le 1⟩
  | @snoc log e _ hok ih =>
    rw [starts_snoc, stops_snoc]
    cases e with
    | scanned d => simpa [LoopEvent.isStart, LoopEvent.isStop] using ih
    | created d => simpa [LoopEvent.isStart, LoopEvent.isStop] using ih
    | observed wf now => simpa [LoopEvent.isStart, LoopEvent.isStop] using ih
    | started d wf now =>
      have := hok.1
      simp only [LoopEvent.isStart, LoopEvent.isStop, if_true, Bool.false_eq_true, if_false]
      omega
    | tornDown now =>
      have := hok.1
      simp only [LoopEvent.isStart, LoopEvent.isStop, if_true, Bool.false_eq_true, if_false]
      omega
    | stopped =>
      change starts log = stops log + 1 at hok
      simp only [LoopEvent.isStart, LoopEvent.isStop, if_true, Bool.false_eq_true, if_false]
      omega

/-! ## The loop with its log -/

/-- `finalTeardown`, with the events of it. -/
def finalTeardownLogged [Pcm α] (osc : Nat → α) (turn : Turn) (self : Daemon) (m : World α) :
    Option (Flow × World α × List LoopEvent) :=
  match self.active with
  | some cap => (usbStop osc cap.eng turn.drain ⟨cap.st, cap.usb, m⟩).map fun s =>
      (.returned (.ok ()), s.world, [.stopped])
  | none => some (.returned (.ok ()), m, [])

/-- `tryStart`, with the events of it. -/
def Daemon.tryStartLogged (self : Daemon) (args : Args) (device : Device) (turn : Turn)
    (wf : UInt64) : Daemon × List LoopEvent :=
  match startCapture turn.start device args.sine with
  | .ok cap => ({ self with
      active := some cap
      absentCount := 0
      lastProgress := turn.now
      lastWf := wf }, [.started device wf turn.now])
  | .error _ => ({ self with absentCount := 0 }, [])

/-- `iterate`, with the events of the pass. -/
def iterateLogged [Pcm α] (osc : Nat → α) (table : List Device) (args : Args) (turn : Turn)
    (self : Daemon) (m : World α) : Option (Flow × World α × List LoopEvent) :=
  if !turn.running then finalTeardownLogged osc turn self m
  else
    match self.active with
    | some cap =>
      (handleEvents osc cap.eng turn.events ⟨cap.st, cap.usb, m⟩).bind fun s =>
        let wf := s.world.shm.writeFrames
        let (stalled, self) := self.watchdog wf turn.now
        if stalled then
          (usbStop osc cap.eng turn.drain s).map fun s =>
            (.next { self with active := none }, s.world,
              [.observed wf turn.now, .tornDown turn.now])
        else some (.next { self with active := some ⟨s.st, cap.eng, s.usb⟩ }, s.world,
          [.observed wf turn.now])
    | none =>
      match findConnected table turn.scan with
      | some device =>
        if self.needsCreate device then
          match exec (create device args.latencyFrames turn.sys) false m with
          | .done _ m (.ok _) =>
            let self := { self with shmPtr := true, shmPid := device.productId }
            let (self, log) := self.tryStartLogged args device turn m.shm.writeFrames
            some (.next self, m, .scanned device :: .created device :: log)
          | .done _ m (.error e) => some (.returned (.error e), m, [.scanned device])
          | _ => none
        else
          let (self, log) := self.tryStartLogged args device turn m.shm.writeFrames
          some (.next self, m, .scanned device :: log)
      | none =>
        if args.exitWhenAbsent then
          let self := { self with absentCount := self.absentCount + 1 }
          if absentExitGrace ≤ self.absentCount then finalTeardownLogged osc turn self m
          else some (.next self, m, [])
        else some (.next self, m, [])

/-- Forget the log. -/
def unlogged : Flow × World α × List LoopEvent → Flow × World α
  | (flow, m, _) => (flow, m)

theorem finalTeardownLogged_erase [Pcm α] (osc : Nat → α) (turn : Turn) (self : Daemon)
    (m : World α) : (finalTeardownLogged osc turn self m).map unlogged =
      finalTeardown osc turn self m := by
  unfold finalTeardownLogged finalTeardown
  cases self.active with
  | none => rfl
  | some cap => exact Option.map_map ..

theorem Daemon.tryStartLogged_fst (self : Daemon) (args : Args) (device : Device) (turn : Turn)
    (wf : UInt64) : (self.tryStartLogged args device turn wf).1 =
      self.tryStart args device turn wf := by
  unfold tryStartLogged tryStart
  cases startCapture turn.start device args.sine <;> rfl

/-- **The log changes nothing.** -/
theorem iterateLogged_erase [Pcm α] (osc : Nat → α) (table : List Device) (args : Args)
    (turn : Turn) (self : Daemon) (m : World α) :
    (iterateLogged osc table args turn self m).map unlogged =
      iterate osc table args turn self m := by
  have hfinal := finalTeardownLogged_erase osc turn
  unfold iterateLogged iterate
  by_cases hrunning : (!turn.running) = true
  · rw [if_pos hrunning, if_pos hrunning]
    exact hfinal self m
  rw [if_neg hrunning, if_neg hrunning]
  cases self.active with
  | some cap =>
    dsimp only
    rw [Option.map_bind]
    congr 1
    funext s
    dsimp only [Function.comp]
    split_ifs
    · exact Option.map_map ..
    · rfl
  | none =>
    dsimp only
    cases findConnected table turn.scan with
    | none =>
      dsimp only
      split_ifs
      · exact hfinal _ m
      · rfl
      · rfl
    | some device =>
      dsimp only
      split_ifs
      · cases exec (create device args.latencyFrames turn.sys) false m with
        | done l m' r =>
          cases r with
          | ok u =>
            dsimp only
            rw [← Daemon.tryStartLogged_fst]
            rfl
          | error e => rfl
        | stuck m' => rfl
        | trapped => rfl
      · rw [← Daemon.tryStartLogged_fst]
        rfl

/-! ## What completions do to the segment, for any number of channels -/

/-- Wherever the program ends, it published at most `k` frames. -/
def Publishes {β : Type} (k : Nat) (p : Prog (World α) β) : Prop :=
  ∀ l m l' m' b, exec p l m = .done l' m' b → m.shm.Grown k m'.shm

section

variable {β γ : Type} {k k' : Nat}

theorem publishes_ret (k : Nat) (b : β) : Publishes (α := α) k (ret b) := by
  intro l m l' m' b' h
  cases h
  exact Shm.grown_refl k _

theorem publishes_trap (k : Nat) : Publishes (α := α) (β := β) k trap := by
  intro l m l' m' b h
  cases h

theorem Publishes.mono {p : Prog (World α) β} (hp : Publishes k p) (hk : k ≤ k') :
    Publishes k' p := fun l m l' m' b h => (hp l m l' m' b h).mono hk

theorem Publishes.bind {p : Prog (World α) β} {f : β → Prog (World α) γ} (hp : Publishes k p)
    (hf : ∀ b, Publishes k' (f b)) : Publishes (k + k') (p >>= f) := by
  intro l m l' m' c h
  rw [exec_bind] at h
  cases hfirst : exec p l m with
  | done l₁ m₁ b =>
    rw [hfirst] at h
    exact (hp _ _ _ _ _ hfirst).trans (hf b _ _ _ _ _ h)
  | stuck m₁ => rw [hfirst] at h; cases h
  | trapped => rw [hfirst] at h; cases h

/-- The frame loop returns the write position after its frames. -/
theorem yields_storeFrames (channels : Nat) (val : Nat → Nat → Option α) :
    ∀ rem f w, Yields (fun w' => w' = UInt64.ofNat (w.toNat + rem))
      (storeFrames channels val rem f w)
  | 0, _, w => UInt64.ofNat_toNat.symm
  | rem + 1, f, w => by
    have ih := yields_storeFrames channels val rem (f + 1) (w + 1)
    refine (yields_any _).bind fun _ _ => ih.mono fun w' hw' => ?_
    rw [hw', UInt64.ofNat_add, UInt64.ofNat_toNat, ← Nat.add_assoc, Nat.add_right_comm,
      UInt64.ofNat_add, UInt64.ofNat_add, UInt64.ofNat_toNat]
    rfl

/-- **A batch publishes its frames.** -/
theorem publishes_pushBatch (channels frames : Nat) (val : Nat → Nat → Option α) :
    Publishes frames (pushBatch channels frames val) := by
  intro l m l' m' b h
  have hrest : exec (storeFrames channels val frames 0 m.shm.writeFrames >>= fun w =>
      wrShm fun s => { s with writeFrames := w }) l m = .done l' m' b := h
  rw [exec_bind] at hrest
  cases hframes : exec (storeFrames channels val frames 0 m.shm.writeFrames) l m with
  | done l₁ m₁ w =>
    have hw := exec_yields (yields_storeFrames channels val frames 0 m.shm.writeFrames) hframes
    have hring : ∃ ring, m₁.shm = { m.shm with ring := ring } := by
      refine exec_keeps (R := fun m m' : World α => ∃ ring, m'.shm = { m.shm with ring := ring })
        (fun m => ⟨m.shm.ring, rfl⟩) ?_ (plain_storeFrames ?_ _ _ _ _ _).keeps hframes
      · rintro m m' m'' ⟨ring, h⟩ ⟨ring', h'⟩
        exact ⟨ring', by rw [h', h]⟩
      · exact fun m i v => ⟨_, rfl⟩
    obtain ⟨ring, hring⟩ := hring
    rw [hframes] at hrest
    cases hrest
    refine ⟨frames, Nat.le_refl _, ring, ?_⟩
    dsimp only
    rw [hring, hw]
  | stuck m₁ => rw [hframes] at hrest; cases hrest
  | trapped => rw [hframes] at hrest; cases hrest

theorem publishes_pushFrames [Pcm α] (channels : Nat) (s24 : List UInt8) :
    Publishes s24.length (pushFrames (α := α) channels s24) := by
  show Publishes _ (if channels * 3 = 0 then trap
    else if s24.length / (channels * 3) = 0 then ret () else pushBatch _ _ _)
  split_ifs
  · exact publishes_trap _
  · exact publishes_ret _ _
  · exact (publishes_pushBatch _ _ _).mono (Nat.div_le_self _ _)

theorem publishes_onInPacket [Pcm α] (osc : Nat → α) (buffer : List UInt8) (i : Nat)
    (d : IsoPacket) (st : StreamState) : Publishes buffer.length (onInPacket osc buffer i d st) := by
  unfold onInPacket
  dsimp only
  generalize (if !d.completed then { st with isoErrors := st.isoErrors + 1 } else st) = st₁
  generalize (if d.actualLength % st₁.frameBytes ≠ 0 then
      { st₁ with unalignedPackets := st₁.unalignedPackets + 1 } else st₁) = st₂
  by_cases hlen : d.actualLength = 0
  · rw [if_pos hlen]
    exact publishes_ret _ _
  rw [if_neg hlen]
  by_cases hbytes : st₁.frameBytes = 0
  · rw [if_pos hbytes]
    exact publishes_trap _
  rw [if_neg hbytes]
  by_cases hwhole : (st₂.slice i d).2 = 0
  · rw [if_pos hwhole]
    exact publishes_ret _ _
  rw [if_neg hwhole]
  by_cases hout : buffer.length < (st₂.slice i d).1 + (st₂.slice i d).2
  · rw [if_pos hout]
    exact publishes_trap _
  rw [if_neg hout]
  by_cases hsine : st₂.sine = true
  · rw [if_pos hsine]
    have hframes : (st₂.slice i d).2 / st₂.frameBytes ≤ buffer.length :=
      (Nat.div_le_self _ _).trans (by omega)
    refine ((Publishes.bind ?_ fun phase => publishes_ret 0 _).mono (Nat.le_refl _))
    exact (((publishes_pushBatch _ _ _).mono hframes).bind fun _ => publishes_ret 0 _).mono
      (Nat.le_refl _)
  · rw [if_neg hsine]
    have hslice : ((buffer.drop (st₂.slice i d).1).take (st₂.slice i d).2).length ≤
        buffer.length := by
      rw [List.length_take, List.length_drop]
      omega
    exact (((publishes_pushFrames _ _).mono hslice).bind fun _ => publishes_ret 0 _).mono
      (Nat.le_refl _)

theorem publishes_onInPackets [Pcm α] (osc : Nat → α) (buffer : List UInt8)
    (packets : List IsoPacket) (i : Nat) (st : StreamState) :
    Publishes (packets.length * buffer.length) (onInPackets osc buffer packets i st) := by
  induction packets generalizing i st with
  | nil => exact publishes_ret _ _
  | cons d ds ih =>
    rw [List.length_cons, Nat.succ_mul, Nat.add_comm]
    exact (publishes_onInPacket osc buffer i d st).bind fun st' => ih (i + 1) st'

/-- The frames a completion publishes, at most. -/
def Delivery.room (c : Delivery) : Nat := c.packets.length * c.buffer.length

theorem deliver_publishes [Pcm α] {osc : Nat → α} {eng : Engine} {c : Delivery}
    {s s' : Capture α} (h : deliver osc eng c s = some s') :
    s.world.shm.Grown c.room s'.world.shm := by
  obtain ⟨-, ⟨t, l, -, hexec⟩, -⟩ := deliver_exec h
  unfold Transfer.run at hexec
  cases hcb : t.callback with
  | onIn =>
    rw [hcb] at hexec
    have hin := (publishes_onInPackets osc c.buffer c.packets 0 s.st).bind
      (f := fun st => ret (st.resubmit c.submitRc)) fun st => publishes_ret 0 _
    exact hin _ _ _ _ _ hexec
  | onOut =>
    rw [hcb] at hexec
    exact publishes_ret c.room _ _ _ _ _ _ hexec

/-- The frames completions publish, at most. -/
def room (cs : List Delivery) : Nat := (cs.map Delivery.room).sum

theorem room_append (cs cs' : List Delivery) : room (cs ++ cs') = room cs + room cs' := by
  unfold room
  rw [List.map_append, List.sum_append]

theorem handleEvents_publishes [Pcm α] {osc : Nat → α} {eng : Engine} {cs : List Delivery}
    {s s' : Capture α} (h : handleEvents osc eng cs s = some s') :
    s.world.shm.Grown (room cs) s'.world.shm := by
  induction cs generalizing s with
  | nil =>
    cases h
    exact Shm.grown_refl _ _
  | cons c cs ih =>
    obtain ⟨s₁, hdeliver, hrest⟩ := Option.bind_eq_some_iff.mp h
    exact (deliver_publishes hdeliver).trans (ih hrest)

theorem usbStop_publishes [Pcm α] {osc : Nat → α} {eng : Engine} {rounds : List Round}
    {s s' : Capture α} (h : usbStop osc eng rounds s = some s') :
    s.world.shm.Grown (room (completions rounds)) s'.world.shm := by
  have hdrain {rounds : List Round} {s s' : Capture α} (h : drain osc eng rounds s = some s') :
      s.world.shm.Grown (room (completions rounds)) s'.world.shm := by
    induction rounds generalizing s with
    | nil => cases h
    | cons r rounds ih =>
      unfold drain at h
      split_ifs at h
      · obtain ⟨s₁, hevents, hrest⟩ := Option.bind_eq_some_iff.mp h
        have hsplit : completions (r :: rounds) = r.deliveries ++ completions rounds :=
          List.flatMap_cons
        rw [hsplit, room_append]
        exact (handleEvents_publishes hevents).trans (ih hrest)
      · cases h
        exact Shm.grown_refl _ _
  obtain ⟨s₁, hstop, rfl⟩ := Option.map_eq_some_iff.mp h
  have hgrown := hdrain hstop
  exact hgrown

/-- A completion leaves what the stream state says of its device. -/
theorem handleEvents_of [Pcm α] {osc : Nat → α} {eng : Engine} {cs : List Delivery} {d : Device}
    {s s' : Capture α} (hst : s.st.Of d) (h : handleEvents osc eng cs s = some s') :
    s'.st.Of d := by
  induction cs generalizing s with
  | nil =>
    cases h
    exact hst
  | cons c cs ih =>
    obtain ⟨s₁, hdeliver, hrest⟩ := Option.bind_eq_some_iff.mp h
    exact ih ((deliver_cases hdeliver).of d hst) hrest

end

/-! ## What a pass can do -/

/-- **Every way a pass can go**: how it ends, what it leaves, and its events. -/
inductive Pass [Pcm α] (osc : Nat → α) (table : List Device) (args : Args) (turn : Turn)
    (self : Daemon) (m : World α) : Flow → World α → List LoopEvent → Prop
  /-- The signal, or no device for too long. -/
  | quit (hidle : self.active = none) : Pass osc table args turn self m (.returned (.ok ())) m []
  /-- The signal, with a capture running. -/
  | stop {cap : Active} {s : Capture α} (hcap : self.active = some cap)
      (hstop : usbStop osc cap.eng turn.drain ⟨cap.st, cap.usb, m⟩ = some s) :
      Pass osc table args turn self m (.returned (.ok ())) s.world [.stopped]
  | capture {cap : Active} {s : Capture α} (hcap : self.active = some cap)
      (hevents : handleEvents osc cap.eng turn.events ⟨cap.st, cap.usb, m⟩ = some s)
      (hgoing : (self.watchdog s.world.shm.writeFrames turn.now).1 = false) :
      Pass osc table args turn self m
        (.next { (self.watchdog s.world.shm.writeFrames turn.now).2 with
          active := some ⟨s.st, cap.eng, s.usb⟩ }) s.world
        [.observed s.world.shm.writeFrames turn.now]
  | tearDown {cap : Active} {s s' : Capture α} (hcap : self.active = some cap)
      (hevents : handleEvents osc cap.eng turn.events ⟨cap.st, cap.usb, m⟩ = some s)
      (hstalled : (self.watchdog s.world.shm.writeFrames turn.now).1 = true)
      (hstop : usbStop osc cap.eng turn.drain s = some s') :
      Pass osc table args turn self m
        (.next { (self.watchdog s.world.shm.writeFrames turn.now).2 with active := none }) s'.world
        [.observed s.world.shm.writeFrames turn.now, .tornDown turn.now]
  | createFails {d : Device} {m' : World α} (e : String) (hidle : self.active = none)
      (hneeds : self.needsCreate d = true) (hshm : m'.shm = m.shm) :
      Pass osc table args turn self m (.returned (.error e)) m' [.scanned d]
  | create {d : Device} {m' : World α} {log : List LoopEvent} {self' : Daemon}
      (hidle : self.active = none) (hd : d ∈ table) (hneeds : self.needsCreate d = true)
      (hshm : m'.shm = m.shm.describing d args.latencyFrames)
      (hstart : { self with shmPtr := true, shmPid := d.productId }.tryStartLogged args d turn
        m'.shm.writeFrames = (self', log)) :
      Pass osc table args turn self m (.next self') m' (.scanned d :: .created d :: log)
  | keep {d : Device} {log : List LoopEvent} {self' : Daemon} (hidle : self.active = none)
      (hd : d ∈ table) (hneeds : self.needsCreate d = false)
      (hstart : self.tryStartLogged args d turn m.shm.writeFrames = (self', log)) :
      Pass osc table args turn self m (.next self') m (.scanned d :: log)
  | absent (count : Nat) (hidle : self.active = none) :
      Pass osc table args turn self m (.next { self with absentCount := count }) m []

theorem iterateLogged_pass [Pcm α] {osc : Nat → α} {table : List Device} {args : Args}
    {turn : Turn} {self : Daemon} {m m' : World α} {flow : Flow} {evs : List LoopEvent}
    (h : iterateLogged osc table args turn self m = some (flow, m', evs)) :
    Pass osc table args turn self m flow m' evs := by
  have hfinal {self₁ : Daemon} (hsame : self₁.active = self.active)
      (h : finalTeardownLogged osc turn self₁ m = some (flow, m', evs)) :
      Pass osc table args turn self m flow m' evs := by
    unfold finalTeardownLogged at h
    cases hcap : self₁.active with
    | none =>
      rw [hcap] at h
      cases h
      exact .quit (hsame ▸ hcap)
    | some cap =>
      rw [hcap] at h
      obtain ⟨s, hstop, heq⟩ := Option.map_eq_some_iff.mp h
      cases heq
      exact .stop (hsame ▸ hcap) hstop
  unfold iterateLogged at h
  by_cases hrunning : (!turn.running) = true
  · rw [if_pos hrunning] at h
    exact hfinal rfl h
  rw [if_neg hrunning] at h
  obtain ⟨active, shmPtr, shmPid, lastWf, lastProgress, absentCount⟩ := self
  cases active with
  | some cap =>
    obtain ⟨s, hevents, hrest⟩ := Option.bind_eq_some_iff.mp h
    dsimp only at hrest
    cases hstalled : (Daemon.watchdog _ s.world.shm.writeFrames turn.now).1 with
    | true =>
      rw [if_pos hstalled] at hrest
      obtain ⟨s', hstop, heq⟩ := Option.map_eq_some_iff.mp hrest
      cases heq
      exact .tearDown rfl hevents hstalled hstop
    | false =>
      rw [if_neg (by rw [hstalled]; exact Bool.false_ne_true)] at hrest
      cases hrest
      exact .capture rfl hevents hstalled
  | none =>
    dsimp only at h
    cases hfound : findConnected table turn.scan with
    | some d =>
      have hd : d ∈ table := findConnected_mem hfound
      rw [hfound] at h
      dsimp only at h
      cases hneeds : Daemon.needsCreate _ d with
      | true =>
        rw [if_pos hneeds] at h
        rcases exec_create d args.latencyFrames turn.sys m with
          ⟨-, -, hexec⟩ | ⟨-, m₁, e, hexec, hshm⟩
        · rw [hexec] at h
          cases h
          exact .create rfl hd hneeds rfl rfl
        · rw [hexec] at h
          cases h
          exact .createFails e rfl hneeds hshm
      | false =>
        rw [if_neg (by rw [hneeds]; exact Bool.false_ne_true)] at h
        cases h
        exact .keep rfl hd hneeds rfl
    | none =>
      rw [hfound] at h
      dsimp only at h
      split_ifs at h
      · exact hfinal rfl h
      · cases h
        exact .absent _ rfl
      · cases h
        exact .absent absentCount rfl

/-! ## The invariant of the loop -/

/-- The header is that of the device. -/
structure Shm.Describes (s : Shm α) (d : Device) : Prop where
  channels : s.channels = d.captureChannels.toUInt32
  name : s.name = nameField d.name

/-- Of the segment only the write head and the ring changed. -/
def Shm.SameHeader (s s' : Shm α) : Prop :=
  ∃ writeFrames ring, s' = { s with writeFrames := writeFrames, ring := ring }

theorem Shm.Grown.sameHeader {k : Nat} {s s' : Shm α} (h : s.Grown k s') : s.SameHeader s' := by
  obtain ⟨n, -, ring, rfl⟩ := h
  exact ⟨_, ring, rfl⟩

theorem Shm.Describes.of_same {s s' : Shm α} {d : Device} (h : s.Describes d)
    (hsame : s.SameHeader s') : s'.Describes d := by
  obtain ⟨wf, ring, rfl⟩ := hsame
  exact ⟨h.channels, h.name⟩

/-- The capture is one of the device. -/
structure Active.For (cap : Active) (d : Device) : Prop where
  eng : cap.eng = Engine.new d
  st : cap.st.Of d

/-- The loop variables and the segment after the events of `log`. -/
structure LoopInv (table : List Device) (log : List LoopEvent) (v : Daemon) (m : World α) :
    Prop where
  guarded : Trace.Guarded Allowed log
  balance : starts log = stops log + if v.active.isSome then 1 else 0
  fresh : v.shmPtr = false → scans log = 0
  described : v.shmPtr = true → ∃ d ∈ table, lastCreated log = some d ∧
    v.shmPid = d.productId ∧ m.shm.Describes d
  running : ∀ cap, v.active = some cap → v.shmPtr = true ∧
    lastStarted log = lastCreated log ∧ ∃ d, lastCreated log = some d ∧ cap.For d
  clock : v.active.isSome = true → lastChange log = some (v.lastWf, v.lastProgress)

/-- The invariant while the loop goes on; no engine is left when `run_daemon` returns. -/
def FlowInv (table : List Device) (log : List LoopEvent) (flow : Flow) (m : World α) : Prop :=
  match flow with
  | .next self => LoopInv table log self m
  | .returned _ => Trace.Guarded Allowed log ∧ starts log = stops log

section

variable {table : List Device} {log : List LoopEvent} {self : Daemon} {m m' : World α}

theorem loopInv_init (now : ℚ) (m : World α) : LoopInv table [] (.init now) m where
  guarded := .nil
  balance := rfl
  fresh _ := rfl
  described h := nomatch h
  running _ h := nomatch h
  clock h := nomatch h

theorem LoopInv.idle (h : LoopInv table log self m) (hidle : self.active = none) :
    starts log = stops log := by
  have hbalance := h.balance
  rw [hidle] at hbalance
  exact hbalance

theorem LoopInv.busy (h : LoopInv table log self m) {cap : Active} (hcap : self.active = some cap) :
    starts log = stops log + 1 := by
  have hbalance := h.balance
  rw [hcap] at hbalance
  exact hbalance

theorem LoopInv.elsewhere (h : LoopInv table log self m) (hsame : m.shm.SameHeader m'.shm) :
    LoopInv table log self m' := by
  refine ⟨h.guarded, h.balance, h.fresh, fun hptr => ?_, h.running, h.clock⟩
  obtain ⟨d, hd, hcreated, hpid, hheader⟩ := h.described hptr
  exact ⟨d, hd, hcreated, hpid, hheader.of_same hsame⟩

/-- `create` fills the header. -/
theorem LoopInv.create (h : LoopInv table log self m) (hidle : self.active = none) {d : Device}
    (hd : d ∈ table) (hneeds : self.needsCreate d = true) (latencyFrames : UInt32)
    (hshm : m'.shm = m.shm.describing d latencyFrames) :
    LoopInv table (log ++ [.scanned d] ++ [.created d])
      { self with shmPtr := true, shmPid := d.productId } m' := by
  have hscan : Allowed log (.scanned d) := h.idle hidle
  have hguarded := h.guarded.snoc hscan
  have hbalance : starts (log ++ [.scanned d]) = stops (log ++ [.scanned d]) := by
    simpa [LoopEvent.isStart, LoopEvent.isStop] using h.idle hidle
  have hcreate : Allowed (log ++ [.scanned d]) (.created d) := by
    refine ⟨hbalance, ?_⟩
    cases hptr : self.shmPtr with
    | false => exact .inl (by simp [h.fresh hptr, LoopEvent.isScan])
    | true =>
      -- The header is set up, so `create` is needed for the product id only.
      obtain ⟨d', -, hcreated, hpid, -⟩ := h.described hptr
      refine .inr ⟨d', by simpa using hcreated, ?_⟩
      rw [← hpid]
      simpa [Daemon.needsCreate, hptr] using hneeds
  generalize log ++ [LoopEvent.scanned d] = log₁ at hguarded hbalance hcreate ⊢
  refine ⟨hguarded.snoc hcreate, ?_, nofun, fun _ => ?_, ?_, ?_⟩
  · simpa [LoopEvent.isStart, LoopEvent.isStop, hidle] using hbalance
  · refine ⟨d, hd, by simp, rfl, ?_⟩
    rw [hshm]
    exact ⟨rfl, rfl⟩
  · intro cap hcap
    rw [hidle] at hcap
    cases hcap
  · intro hsome
    rw [hidle] at hsome
    cases hsome

/-- A scan that finds the device the header is for. -/
theorem LoopInv.keep (h : LoopInv table log self m) (hidle : self.active = none)
    (hdistinct : (table.map Device.productId).Nodup) {d : Device} (hd : d ∈ table)
    (hneeds : self.needsCreate d = false) :
    LoopInv table (log ++ [.scanned d]) self m ∧ self.shmPtr = true ∧
      lastCreated (log ++ [.scanned d]) = some d := by
  have hbalance := h.idle hidle
  have hkept : self.shmPtr = true ∧ self.shmPid = d.productId := by
    simpa [Daemon.needsCreate] using hneeds
  obtain ⟨d', hd', hcreated, hpid, hheader⟩ := h.described hkept.1
  have hsame : d' = d := List.inj_on_of_nodup_map hdistinct hd' hd (hpid.symm.trans hkept.2)
  have hlast : lastCreated (log ++ [.scanned d]) = some d := by
    rw [lastCreated_snoc, ← hsame]
    exact hcreated
  refine ⟨⟨h.guarded.snoc hbalance, ?_, ?_, fun _ => ?_, ?_, ?_⟩, hkept.1, hlast⟩
  · simpa [LoopEvent.isStart, LoopEvent.isStop, hidle] using hbalance
  · intro hptr
    rw [hkept.1] at hptr
    cases hptr
  · exact ⟨d, hd, hlast, hkept.2, hsame ▸ hheader⟩
  · intro cap hcap
    rw [hidle] at hcap
    cases hcap
  · intro hsome
    rw [hidle] at hsome
    cases hsome

/-- `start_capture` for the device the header is for. -/
theorem LoopInv.tryStart (h : LoopInv table log self m) (hidle : self.active = none)
    (hptr : self.shmPtr = true) {d : Device} (hcreated : lastCreated log = some d) (args : Args)
    (turn : Turn) {self' : Daemon} {evs : List LoopEvent} {wf : UInt64}
    (hstart : self.tryStartLogged args d turn wf = (self', evs)) :
    LoopInv table (log ++ evs) self' m := by
  have hbalance := h.idle hidle
  unfold Daemon.tryStartLogged at hstart
  rcases startCapture_cases turn.start d args.sine with ⟨e, hfails⟩ | hok
  · rw [hfails] at hstart
    cases hstart
    rw [List.append_nil]
    exact ⟨h.guarded, h.balance, h.fresh, h.described, h.running, h.clock⟩
  · rw [hok] at hstart
    cases hstart
    refine ⟨h.guarded.snoc ⟨hbalance, hcreated⟩, ?_, ?_, ?_, ?_, ?_⟩
    · simpa [LoopEvent.isStart, LoopEvent.isStop] using hbalance
    · intro hfresh
      rw [hptr] at hfresh
      cases hfresh
    · simpa using h.described
    · rintro cap ⟨⟩
      refine ⟨hptr, by simpa using hcreated.symm, d, by simpa using hcreated, rfl, rfl, rfl, rfl⟩
    · simp

/-- An observation of the write head: what the watchdog remembers is the last change. -/
theorem LoopInv.observe (h : LoopInv table log self m) {cap : Active}
    (hcap : self.active = some cap) (wf : UInt64) (now : ℚ) :
    Trace.Guarded Allowed (log ++ [.observed wf now]) ∧
      lastChange (log ++ [.observed wf now]) =
        some ((self.watchdog wf now).2.lastWf, (self.watchdog wf now).2.lastProgress) ∧
      (self.watchdog wf now).2.shmPtr = self.shmPtr ∧
      (self.watchdog wf now).2.shmPid = self.shmPid := by
  have hclock := h.clock (by rw [hcap]; rfl)
  refine ⟨h.guarded.snoc (h.busy hcap), ?_, ?_⟩
  · unfold Daemon.watchdog
    by_cases hwf : wf = self.lastWf
    · simp [hclock, hwf]
    · simp [hclock, hwf, Ne.symm hwf]
  · unfold Daemon.watchdog
    split_ifs
    · exact ⟨rfl, rfl⟩
    · exact ⟨rfl, rfl⟩

/-- The watchdog bites only when the write head stood still for too long. -/
theorem Daemon.watchdog_stalled (self : Daemon) {wf : UInt64} {now : ℚ}
    (h : (self.watchdog wf now).1 = true) :
    watchdogStall < now - (self.watchdog wf now).2.lastProgress := by
  unfold watchdog at h ⊢
  split_ifs at h ⊢
  exact of_decide_eq_true h

/-- **Every pass keeps the invariant**, and if it returns no engine is left. -/
theorem LoopInv.pass [Pcm α] {osc : Nat → α} {args : Args} {turn : Turn} {flow : Flow}
    {evs : List LoopEvent} (hdistinct : (table.map Device.productId).Nodup)
    (h : LoopInv table log self m) (hpass : Pass osc table args turn self m flow m' evs) :
    FlowInv table (log ++ evs) flow m' := by
  cases hpass with
  | quit hidle =>
    rw [List.append_nil]
    exact ⟨h.guarded, h.idle hidle⟩
  | stop hcap hstop =>
    have hbusy := h.busy hcap
    refine ⟨h.guarded.snoc hbusy, ?_⟩
    simpa [LoopEvent.isStart, LoopEvent.isStop] using hbusy
  | @capture cap s hcap hevents hgoing =>
    obtain ⟨hguarded, hclock, hptr, hpid⟩ :=
      h.observe hcap s.world.shm.writeFrames turn.now
    have hbusy := h.busy hcap
    have hheader := h.elsewhere (handleEvents_publishes hevents).sameHeader
    refine ⟨hguarded, ?_, ?_, ?_, ?_, fun _ => hclock⟩
    · simpa [LoopEvent.isStart, LoopEvent.isStop] using hbusy
    · simpa [hptr, LoopEvent.isScan] using h.fresh
    · simpa [hptr, hpid] using hheader.described
    · rintro cap' ⟨⟩
      obtain ⟨hset, hlast, d, hcreated, heng, hst⟩ := h.running cap hcap
      exact ⟨hptr.trans hset, by simpa using hlast, d, by simpa using hcreated, heng,
        handleEvents_of hst hevents⟩
  | @tearDown cap s s' hcap hevents hstalled hstop =>
    obtain ⟨hguarded, hclock, hptr, hpid⟩ :=
      h.observe hcap s.world.shm.writeFrames turn.now
    have hbusy := h.busy hcap
    have hheader := (h.elsewhere (handleEvents_publishes hevents).sameHeader).elsewhere
      (usbStop_publishes hstop).sameHeader
    have hlate := self.watchdog_stalled hstalled
    have htorn : Allowed (log ++ [.observed s.world.shm.writeFrames turn.now])
        (.tornDown turn.now) := by
      refine ⟨?_, _, _, hclock, hlate⟩
      simpa [LoopEvent.isStart, LoopEvent.isStop] using hbusy
    have hall := hguarded.snoc htorn
    rw [List.append_assoc] at hall
    refine ⟨hall, ?_, ?_, ?_, nofun, nofun⟩
    · rw [List.append_cons]
      simpa [LoopEvent.isStart, LoopEvent.isStop, -List.append_assoc] using hbusy
    · rw [List.append_cons]
      simpa [hptr, LoopEvent.isScan, -List.append_assoc] using h.fresh
    · rw [List.append_cons]
      simpa [hptr, hpid, -List.append_assoc] using hheader.described
  | createFails e hidle hneeds hshm =>
    have hbalance := h.idle hidle
    refine ⟨h.guarded.snoc hbalance, ?_⟩
    simpa [LoopEvent.isStart, LoopEvent.isStop] using hbalance
  | @create d _ evs self' hidle hd hneeds hshm hstart =>
    have hcreated := h.create hidle hd hneeds args.latencyFrames hshm
    have hstarted := hcreated.tryStart hidle rfl (lastCreated_snoc ..) args turn hstart
    simpa [FlowInv] using hstarted
  | @keep d evs self' hidle hd hneeds hstart =>
    obtain ⟨hkept, hptr, hlast⟩ := h.keep hidle hdistinct hd hneeds
    have hstarted := hkept.tryStart hidle hptr hlast args turn hstart
    simpa [FlowInv] using hstarted
  | absent count hidle =>
    rw [List.append_nil]
    exact ⟨h.guarded, h.balance, h.fresh, h.described, h.running, h.clock⟩

end

/-! ## Whole runs -/

/-- A run of `run_daemon`, with its log: passes, and anyone else publishing frames between them. -/
inductive LoopRun [Pcm α] (osc : Nat → α) (table : List Device) (args : Args) (now : ℚ)
    (m₀ : World α) : List LoopEvent → Flow → World α → Prop
  | start : LoopRun osc table args now m₀ [] (.next (.init now)) m₀
  | elsewhere {log : List LoopEvent} {flow : Flow} {m m' : World α}
      (h : LoopRun osc table args now m₀ log flow m) (hsame : m.shm.SameHeader m'.shm) :
      LoopRun osc table args now m₀ log flow m'
  | pass {log evs : List LoopEvent} {self : Daemon} {flow : Flow} {m m' : World α} (turn : Turn)
      (h : LoopRun osc table args now m₀ log (.next self) m)
      (hpass : iterateLogged osc table args turn self m = some (flow, m', evs)) :
      LoopRun osc table args now m₀ (log ++ evs) flow m'

section

variable [Pcm α] {osc : Nat → α} {table : List Device} {args : Args} {now : ℚ} {m₀ m : World α}
  {log : List LoopEvent} {flow : Flow}

/-- The invariant in every reachable state. -/
theorem loopRun_inv (hdistinct : (table.map Device.productId).Nodup)
    (h : LoopRun osc table args now m₀ log flow m) :
    FlowInv table log flow m := by
  induction h with
  | start => exact loopInv_init now m₀
  | @elsewhere log flow m m' _ hsame ih =>
    cases flow with
    | next self => exact ih.elsewhere hsame
    | returned r => exact ih
  | pass turn _ hpass ih => exact ih.pass hdistinct (iterateLogged_pass hpass)

/-- Without its log it is a run of the daemon. -/
theorem LoopRun.daemonRun (h : LoopRun osc table args now m₀ log flow m) :
    ∃ tr, DaemonRun osc table args now tr flow m := by
  induction h with
  | start => exact ⟨[], .start m₀⟩
  | elsewhere _ _ ih =>
    obtain ⟨tr, hrun⟩ := ih
    exact ⟨tr, hrun.elsewhere _⟩
  | @pass log evs self flow m m' turn _ hpass ih =>
    obtain ⟨tr, hrun⟩ := ih
    have herased := iterateLogged_erase osc table args turn self m
    rw [hpass] at herased
    exact ⟨_, hrun.pass turn herased.symm⟩

theorem LoopRun.guarded (hdistinct : (table.map Device.productId).Nodup)
    (h : LoopRun osc table args now m₀ log flow m) : Trace.Guarded Allowed log := by
  have hinv := loopRun_inv hdistinct h
  cases flow with
  | next self =>
    change LoopInv table log self m at hinv
    exact hinv.guarded
  | returned r => exact hinv.1

end

/-- The frames the completions of a turn publish, at most. -/
def Turn.room (turn : Turn) : Nat :=
  Line6.room turn.events + Line6.room (Line6.completions turn.drain)

/-- **What a pass does to the segment**: `create` fills the header and sets the write head back, or
the write head only grows. -/
theorem Pass.segment [Pcm α] {osc : Nat → α} {table : List Device} {args : Args} {turn : Turn}
    {self : Daemon} {m m' : World α} {flow : Flow} {evs : List LoopEvent}
    (h : Pass osc table args turn self m flow m' evs) :
    (∃ d, .created d ∈ evs ∧ m'.shm = m.shm.describing d args.latencyFrames) ∨
      (∀ d, .created d ∉ evs) ∧ m.shm.Grown turn.room m'.shm := by
  have hevents : room turn.events ≤ turn.room := Nat.le_add_right _ _
  have hdrain : room (completions turn.drain) ≤ turn.room := Nat.le_add_left _ _
  have hnone {self₁ self₂ : Daemon} {d : Device} {wf : UInt64} {log : List LoopEvent}
      (hstart : self₁.tryStartLogged args d turn wf = (self₂, log)) (d' : Device) :
      .created d' ∉ log := by
    unfold Daemon.tryStartLogged at hstart
    cases hstarted : startCapture turn.start d args.sine with
    | ok cap =>
      rw [hstarted] at hstart
      cases hstart
      simp
    | error e =>
      rw [hstarted] at hstart
      cases hstart
      simp
  cases h with
  | quit hidle => exact .inr ⟨by simp, Shm.grown_refl _ _⟩
  | stop hcap hstop => exact .inr ⟨by simp, (usbStop_publishes hstop).mono hdrain⟩
  | capture hcap hrun hgoing => exact .inr ⟨by simp, (handleEvents_publishes hrun).mono hevents⟩
  | tearDown hcap hrun hstalled hstop =>
    exact .inr ⟨by simp, (handleEvents_publishes hrun).trans (usbStop_publishes hstop)⟩
  | createFails e hidle hneeds hshm =>
    refine .inr ⟨by simp, ?_⟩
    rw [hshm]
    exact Shm.grown_refl _ _
  | @create d _ _ _ hidle hd hneeds hshm hstart => exact .inl ⟨d, by simp, hshm⟩
  | keep hidle hd hneeds hstart =>
    refine .inr ⟨fun d => ?_, Shm.grown_refl _ _⟩
    simpa using hnone hstart d
  | absent count hidle => exact .inr ⟨by simp, Shm.grown_refl _ _⟩

/-- **The engine and the header of the daemon**, in every reachable state of `run_daemon`. -/
theorem engine_header_invariant [Pcm α] {osc : Nat → α} {table : List Device}
    (hdistinct : (table.map Device.productId).Nodup) {args : Args} {now : ℚ} {m₀ m : World α}
    {log : List LoopEvent} {flow : Flow} (h : LoopRun osc table args now m₀ log flow m) :
    -- At most one engine exists, at every point of the run.
    (∀ pre post, log = pre ++ post → stops pre ≤ starts pre ∧ starts pre ≤ stops pre + 1) ∧
    -- The header and the stream state are those of its device.
    (∀ self, flow = .next self →
      (starts log = stops log + if self.active.isSome then 1 else 0) ∧
      ∀ cap, self.active = some cap → ∃ d ∈ table, lastStarted log = some d ∧
        cap.eng = Engine.new d ∧ self.shmPtr = true ∧ self.shmPid = d.productId ∧
        m.shm.channels = d.captureChannels.toUInt32 ∧ m.shm.name = nameField d.name ∧
        cap.st.channels = d.captureChannels.toNat ∧ cap.st.frameBytes = d.captureFrameBytes) ∧
    -- It is torn down only after the write head stood still.
    (∀ pre now' post, log = pre ++ .tornDown now' :: post →
      ∃ wf t, StillSince pre wf t ∧ watchdogStall < now' - t) ∧
    -- The write head is set back only between engines, for another product or the first device,
    (∀ pre d post, log = pre ++ .created d :: post → starts pre = stops pre ∧
      (scans pre = 1 ∨ ∃ d', lastCreated pre = some d' ∧ d'.productId ≠ d.productId)) ∧
    -- and by nothing else.
    (∀ self, flow = .next self → ∀ turn flow' m' evs,
      iterateLogged osc table args turn self m = some (flow', m', evs) →
        (∃ d, .created d ∈ evs ∧ m'.shm = m.shm.describing d args.latencyFrames) ∨
        (∀ d, .created d ∉ evs) ∧ m.shm.Grown turn.room m'.shm) ∧
    -- Every engine was stopped.
    ∀ r, flow = .returned r → starts log = stops log := by
  have hguarded := h.guarded hdistinct
  have hinv := loopRun_inv hdistinct h
  refine ⟨?_, ?_, ?_, ?_, ?_, ?_⟩
  · rintro pre post rfl
    exact guarded_balanced hguarded.of_append
  · rintro self rfl
    change LoopInv table log self m at hinv
    refine ⟨hinv.balance, fun cap hcap => ?_⟩
    obtain ⟨hptr, hlast, d, hcreated, hcap⟩ := hinv.running cap hcap
    obtain ⟨d', hd, hcreated', hpid, hheader⟩ := hinv.described hptr
    rw [hcreated] at hcreated'
    cases hcreated'
    exact ⟨d, hd, hlast.trans hcreated, hcap.eng, hptr, hpid, hheader.channels, hheader.name,
      hcap.st.channels, hcap.st.frameBytes⟩
  · rintro pre now' post rfl
    obtain ⟨-, wf, t, hchange, hlate⟩ := hguarded.allowed
    exact ⟨wf, t, stillSince_lastChange hchange, hlate⟩
  · rintro pre d post rfl
    exact hguarded.allowed
  · rintro self rfl turn flow' m' evs hpass
    exact (iterateLogged_pass hpass).segment
  · rintro r rfl
    exact hinv.2

/-- A turn at the time `now` in which the scan finds the product, and the system and libusb grant
everything. -/
def Turn.finding (productId : UInt16) (now : ℚ) : Turn where
  running := true
  now := now
  events := []
  drain := []
  scan := ⟨0, [some (vidLine6, productId)]⟩
  sys := .fine
  start := .granted

/-- A device found at the start, seven frames, and a signal. -/
theorem engine_header_invariant_stereo : ∃ (log : List LoopEvent) (flow : Flow) (m : World ℚ),
    LoopRun (fun _ => (0 : ℚ)) monoStereo.rows ⟨false, false, 10⟩ 0 ⟨true, Shm.zero, {}⟩
      log flow m ∧
    log = [.scanned stereoDevice, .created stereoDevice, .started stereoDevice 0 0,
      .observed 7 1, .stopped] ∧ starts log = stops log := by
  have hstart : LoopRun (fun _ => (0 : ℚ)) monoStereo.rows ⟨false, false, 10⟩ 0
      ⟨true, Shm.zero, {}⟩ [] _ _ := .start
  have hfirst := hstart.pass (.finding 2 0) rfl
  have hpublished : LoopRun (fun _ => (0 : ℚ)) monoStereo.rows ⟨false, false, 10⟩ 0
      ⟨true, Shm.zero, {}⟩ _ _ { linked := true, plug := {}, shm :=
        { Shm.zero.describing stereoDevice 480 with writeFrames := 7 } } :=
    hfirst.elsewhere ⟨7, _, rfl⟩
  have hsecond := hpublished.pass (.finding 2 1) rfl
  have hlast := hsecond.pass { Turn.finding 2 2 with running := false, drain := [⟨2, []⟩] } rfl
  have hall := engine_header_invariant (by decide) hlast
  exact ⟨_, _, _, hlast, rfl, hall.2.2.2.2.2 _ rfl⟩

end Line6
