import Line6.Lib.Uphold
import Line6.Daemon.Push
import Line6.System.Footprint

/-!
# What holds however the threads interleave

`Upkeep` is what every access of every thread keeps: the header stays one the plugin knows, the
plugin stays attached, it attaches to no other segment, and the ring holds samples only.

* `upholds_start`: every call keeps it, `AttachShm` because the magic and the version that it has
  read cannot change any more.
* `attached_compatible`: so an attached plugin is attached to a segment it knows, and only there
  does the host get audio from.
* `samples_heard`: whatever the host gets is a sample, from -1 up to 1, also where a window is torn
  by the daemon or by another device.
-/

namespace Line6

open Conc Conc.Prog Conc.Pool

variable {α β : Type}

/-! ## The relation -/

/-- The segment exists, with a header the plugin knows. -/
structure World.Compatible (m : World α) : Prop where
  linked : m.linked = true
  magic : m.shm.magic = shmMagic
  version : m.shm.version = shmVersion

/-- The samples of the ring are good. -/
def Shm.HoldsOnly (Good : α → Prop) (s : Shm α) : Prop := ∀ i < ringSamples, Good (s.ring i)

/-- What every access keeps. -/
structure Upkeep (Good : α → Prop) (m m' : World α) : Prop where
  linked : m.linked = true → m'.linked = true
  magic : m.shm.magic = shmMagic → m'.shm.magic = shmMagic
  version : m.shm.version = shmVersion → m'.shm.version = shmVersion
  attached : m.plug.gShm = true → m'.plug.gShm = true
  checked : (m.plug.gShm = true → m.Compatible) → m'.plug.gShm = true → m'.Compatible
  samples : m.shm.HoldsOnly Good → m'.shm.HoldsOnly Good

/-- Neither the segment nor the attachment changes. -/
structure SameAttachment (m m' : World α) : Prop where
  segment : SameSegment m m'
  attached : m'.plug.gShm = m.plug.gShm

theorem sameAttachment_plug {m : World α} {p : Plugin} (h : p.gShm = m.plug.gShm) :
    SameAttachment m { m with plug := p } := ⟨⟨rfl, rfl⟩, h⟩

theorem bookkeeping_sameAttachment : Bookkeeping (SameAttachment (α := α)) where
  refl := fun _ => ⟨⟨rfl, rfl⟩, rfl⟩
  plug := fun _ _ hshm _ _ _ => sameAttachment_plug hshm

section

variable {Good : α → Prop}

theorem upkeep_refl (m : World α) : Upkeep Good m m := ⟨id, id, id, id, id, id⟩

theorem upkeep_trans (a b c : World α) (h : Upkeep Good a b) (h' : Upkeep Good b c) :
    Upkeep Good a c :=
  ⟨h'.linked ∘ h.linked, h'.magic ∘ h.magic, h'.version ∘ h.version, h'.attached ∘ h.attached,
    h'.checked ∘ h.checked, h'.samples ∘ h.samples⟩

/-- A segment the plugin knows stays one. -/
theorem Upkeep.compatible {m m' : World α} (h : Upkeep Good m m') (hm : m.Compatible) :
    m'.Compatible := ⟨h.linked hm.linked, h.magic hm.magic, h.version hm.version⟩

theorem SameAttachment.upkeep {m m' : World α} (h : SameAttachment m m') : Upkeep Good m m' := by
  obtain ⟨⟨hshm, hlinked⟩, hattached⟩ := h
  refine ⟨hlinked.trans, ?_, ?_, hattached.trans, fun hm hm' => ?_, ?_⟩
  · exact fun hmagic => hshm ▸ hmagic
  · exact fun hversion => hshm ▸ hversion
  · obtain ⟨hl, hmagic, hversion⟩ := hm (hattached.symm.trans hm')
    exact ⟨hlinked.trans hl, hshm ▸ hmagic, hshm ▸ hversion⟩
  · exact fun hring => hshm ▸ hring

/-! ## The daemon -/

/-- A store of the daemon that leaves the magic and the version, or sets them right. -/
theorem keeps_upkeep_wrShm {f : Shm α → Shm α}
    (hmagic : ∀ s, s.magic = shmMagic → (f s).magic = shmMagic)
    (hversion : ∀ s, s.version = shmVersion → (f s).version = shmVersion)
    (hring : ∀ s : Shm α, s.HoldsOnly Good → (f s).HoldsOnly Good) :
    Keeps (Upkeep Good) (wrShm f) :=
  (plain_wr fun _ => ⟨id, hmagic _, hversion _, id, fun h hm =>
    ⟨(h hm).linked, hmagic _ (h hm).magic, hversion _ (h hm).version⟩, hring _⟩).keeps

theorem keeps_upkeep_create (d : Device) (latencyFrames : UInt32) (sys : Sys) :
    Keeps (Upkeep Good) (create (α := α) d latencyFrames sys) := by
  have hlink : Keeps (Upkeep Good) (wr fun m : World α => { m with linked := true }) :=
    (plain_wr fun _ => ⟨fun _ => rfl, id, id, id, fun h hm =>
      ⟨rfl, (h hm).magic, (h hm).version⟩, id⟩).keeps
  have hstore {f : Shm α → Shm α} (hmagic : ∀ s, (f s).magic = s.magic)
      (hversion : ∀ s, (f s).version = s.version) (hring : ∀ s, (f s).ring = s.ring) :
      Keeps (Upkeep Good) (wrShm f) :=
    keeps_upkeep_wrShm (fun s => (hmagic s).trans) (fun s => (hversion s).trans)
      fun s hs i hi => hring s ▸ hs i hi
  unfold create writeName
  split_ifs
  · trivial
  · exact hlink.bind fun _ => trivial
  · refine hlink.bind fun _ => ?_
    refine Keeps.bind (keeps_upkeep_wrShm (fun _ _ => rfl) (fun _ => id) fun _ => id) fun _ => ?_
    refine Keeps.bind (keeps_upkeep_wrShm (fun _ => id) (fun _ _ => rfl) fun _ => id) fun _ => ?_
    iterate 4
      refine Keeps.bind (hstore (fun _ => rfl) (fun _ => rfl) fun _ => rfl) fun _ => ?_
    refine Keeps.bind (Keeps.bind ?_ fun _ => ?_) fun _ => Keeps.bind ?_ fun _ => trivial
    all_goals exact hstore (fun _ => rfl) (fun _ => rfl) fun _ => rfl

theorem keeps_upkeep_storeChannels {val : Nat → Option α} (hval : ∀ c v, val c = some v → Good v)
    (slot : Nat) : ∀ rem ch, Keeps (Upkeep Good) (storeChannels val slot rem ch)
  | 0, _ => trivial
  | rem + 1, ch => by
    refine Keeps.bind ?_ fun _ => keeps_upkeep_storeChannels hval slot rem (ch + 1)
    unfold storeCell
    cases hv : val ch with
    | none => trivial
    | some v =>
      split_ifs
      · refine keeps_upkeep_wrShm (fun _ => id) (fun _ => id) fun s hs i hi => ?_
        show Good (Function.update s.ring (slot + ch) v i)
        by_cases heq : i = slot + ch
        · rw [heq, Function.update_self]
          exact hval ch v hv
        · rw [Function.update_of_ne heq]
          exact hs i hi
      · trivial

theorem keeps_upkeep_storeFrames (channels : Nat) {val : Nat → Nat → Option α}
    (hval : ∀ f c v, val f c = some v → Good v) :
    ∀ rem f w, Keeps (Upkeep Good) (storeFrames channels val rem f w)
  | 0, _, _ => trivial
  | rem + 1, f, w => (keeps_upkeep_storeChannels (hval f) _ _ _).bind fun _ =>
      keeps_upkeep_storeFrames channels hval rem (f + 1) (w + 1)

/-- `push_frames` stores samples. -/
theorem keeps_upkeep_pushFrames [Pcm α]
    (hgood : ∀ channels ch b0 b1 b2, Good (Pcm.s24 channels ch b0 b1 b2)) (channels : Nat)
    (s24 : List UInt8) : Keeps (Upkeep Good) (pushFrames (α := α) channels s24) := by
  have hsample (f c : Nat) (v : α)
      (hv : s24At channels c s24 (f * (channels * 3) + c * 3) = some v) : Good v := by
    unfold s24At at hv
    obtain ⟨b0, -, hv⟩ := Option.bind_eq_some_iff.mp hv
    obtain ⟨b1, -, hv⟩ := Option.bind_eq_some_iff.mp hv
    obtain ⟨b2, -, hv⟩ := Option.bind_eq_some_iff.mp hv
    cases hv
    exact hgood ..
  have hload : Keeps (Upkeep Good) (rd fun m : World α => m.shm.writeFrames) :=
    (plain_rd upkeep_refl _).keeps
  show Keeps _ (if channels * 3 = 0 then trap
    else if s24.length / (channels * 3) = 0 then ret () else pushBatch _ _ _)
  split_ifs
  · trivial
  · trivial
  · exact hload.bind fun _ => (keeps_upkeep_storeFrames _ hsample _ _ _).bind fun _ =>
      keeps_upkeep_wrShm (fun _ => id) (fun _ => id) fun _ => id

end

/-! ## Programs that attach -/

section

variable {Good : α → Prop}

/-- The program keeps the upkeep, the others doing so too, from any state. -/
def Tends (Good : α → Prop) (x : Prog (World α) β) : Prop :=
  ∀ m, Upholds (Upkeep Good) (fun _ _ => True) x m

theorem Tends.bind {γ : Type} {x : Prog (World α) γ} {f : γ → Prog (World α) β}
    (hx : Tends Good x) (hf : ∀ c, Tends Good (f c)) : Tends Good (x >>= f) := fun m =>
  Upholds.bind upkeep_refl ((hx m).mono fun c m' _ => hf c m')

theorem Tends.ite {c : Prop} [Decidable c] {x y : Prog (World α) β} (hx : Tends Good x)
    (hy : Tends Good y) : Tends Good (if c then x else y) := by
  split_ifs
  · exact hx
  · exact hy

theorem tends_keeps {x : Prog (World α) β} (hx : Keeps (Upkeep Good) x) : Tends Good x :=
  fun m => hx.upholds (yields_any x) m

theorem tends_silent {x : Prog (World α) β} (hx : Silent SameAttachment x) : Tends Good x :=
  tends_keeps (hx.keeps.mono fun _ _ h => h.upkeep)

theorem tends_load (f : World α → β) : Tends Good (rd f) :=
  tends_silent (silent_load bookkeeping_sameAttachment f)

theorem tends_wrPlug {f : Plugin → Plugin} (hf : ∀ p, (f p).gShm = p.gShm) :
    Tends Good (wrPlug (α := α) f) :=
  tends_silent (silent_wr.mpr fun m => sameAttachment_plug (hf m.plug))

/-- **`AttachShm`** attaches to a segment it knows: what it has read of the header stays. -/
theorem tends_attachShm (sys : Sys) : Tends Good (attachShm sys) := by
  intro m
  have hout (m : World α) : Upholds (Upkeep Good) (fun _ _ => True) release m := fun _ _ => trivial
  refine upholds_rd upkeep_refl fun m _ => upholds_ite (fun _ _ _ => trivial) fun _ => ?_
  refine upholds_acquire (upholds_rd upkeep_refl fun m _ => ?_)
  refine upholds_ite (fun _ => hout m) fun _ => upholds_rd upkeep_refl fun m₁ _ => ?_
  refine upholds_ite (fun _ => hout m₁) fun hopen => upholds_ite (fun _ => hout m₁) fun _ => ?_
  refine upholds_rd upkeep_refl fun m₂ h₂ => upholds_ite (fun _ => hout m₂) fun hmagic => ?_
  refine upholds_rd upkeep_refl fun m₃ h₃ => upholds_ite (fun _ => hout m₃) fun hversion => ?_
  simp only [Bool.not_eq_true, Bool.not_eq_false', Bool.and_eq_true] at hopen
  simp only [bne_iff_ne, ne_eq, not_not] at hmagic hversion
  have hknown : m₃.Compatible := ⟨h₃.linked (h₂.linked hopen.1), h₃.magic hmagic, hversion⟩
  intro m₄ h₄
  obtain ⟨hl, hm, hv⟩ := h₄.compatible hknown
  exact ⟨⟨id, id, id, fun _ => rfl, fun _ _ => ⟨hl, hm, hv⟩, id⟩, hout _⟩

theorem tends_line6Initialize (known host : Bool) (tb : Timebase) (sys : Sys) :
    Tends Good (line6Initialize (α := α) known host tb sys) := by
  refine Tends.ite (tends_silent silent_ret) ?_
  refine Tends.bind (tends_wrPlug fun _ => rfl) fun _ => ?_
  refine Tends.bind (tends_wrPlug fun _ => rfl) fun _ => ?_
  exact (tends_attachShm sys).bind fun _ =>
    Tends.bind (tends_wrPlug fun _ => rfl) fun _ => tends_silent silent_ret

theorem tends_startIo (known : Bool) (sys : Sys) (now : UInt64) :
    Tends Good (startIo (α := α) known sys now) := by
  have hend : Tends Good _ := tends_silent (silent_counted (bookkeeping_sameAttachment (α := α)))
  refine Tends.ite (tends_silent silent_ret) (Tends.bind (tends_silent silent_acquire) fun _ => ?_)
  refine Tends.bind (tends_load _) fun running => Tends.ite ?_ hend
  refine (tends_attachShm sys).bind fun _ => ?_
  refine Tends.bind (tends_wrPlug fun _ => rfl) fun _ => ?_
  exact (tends_silent (silent_head bookkeeping_sameAttachment)).bind fun _ =>
    Tends.bind (tends_wrPlug fun _ => rfl) fun _ => hend

theorem tends_presenceMonitor (sys : Sys) (l : Monitor) :
    Tends Good (presenceMonitor (α := α) sys l) := by
  have hread : Tends Good _ := tends_silent (silent_observe (bookkeeping_sameAttachment (α := α)) l)
  have hnotify : Tends Good (notifyDeviceList (α := α)) :=
    Tends.bind (tends_load _) fun _ => Tends.ite (tends_keeps trivial) (tends_silent silent_ret)
  have hpoll : Tends Good (presencePoll (α := α) sys l) := by
    refine (tends_attachShm sys).bind fun _ => hread.bind fun r => ?_
    have hswap (m : World α) :
        SameAttachment m { m with plug := { m.plug with gDevicePresent := r.1 } } :=
      sameAttachment_plug rfl
    refine Tends.bind (tends_keeps fun m => ⟨(hswap m).upkeep, trivial⟩) fun prev => ?_
    exact Tends.ite (hnotify.bind fun _ => tends_silent silent_ret) (tends_silent silent_ret)
  exact Tends.bind (tends_load _) fun _ =>
    Tends.ite (hpoll.bind fun _ => tends_silent silent_ret) (tends_silent silent_ret)

/-! ## The copy -/

theorem Upkeep.holdsOnly (m m' : World α) (h : Upkeep Good m m') (hm : m.shm.HoldsOnly Good) :
    m'.shm.HoldsOnly Good := h.samples hm

theorem upholds_copyCells {slot dst rem c : Nat} {m : World α} (hm : m.shm.HoldsOnly Good) :
    Upholds (Upkeep Good) (fun ws _ => ∀ w ∈ ws, Good w.2) (copyCells slot dst rem c) m := by
  induction rem generalizing c m with
  | zero => exact fun _ _ _ hw => absurd hw List.not_mem_nil
  | succ rem ih =>
    have hload : Upholds (Upkeep Good) (fun v _ => Good v) (loadCell (slot + c)) m := by
      unfold loadCell
      exact upholds_ite (fun hi m₁ h₁ => ⟨upkeep_refl m₁, fun _ _ => h₁.samples hm _ hi⟩)
        fun _ => trivial
    refine Upholds.bind upkeep_refl ((hload.keep Upkeep.holdsOnly hm).mono ?_)
    rintro v m₁ ⟨hv, hm₁⟩
    refine Upholds.bind upkeep_refl ((ih hm₁).mono fun ws m₂ hws => ?_)
    intro _ _ w hw
    rcases List.mem_cons.mp hw with rfl | hw
    · exact hv
    · exact hws w hw

/-- **The copy of a window** copies samples, whatever the daemon does meanwhile. -/
theorem upholds_copyFrames [Pcm α] (hsilence : Good Pcm.silence) {ch : Nat} {w rf : UInt64}
    {rem i : Nat} {m : World α} (hm : m.shm.HoldsOnly Good) :
    Upholds (Upkeep Good) (fun ws _ => ∀ w ∈ ws, Good w.2) (copyFrames ch w rf rem i) m := by
  induction rem generalizing i m with
  | zero => exact fun _ _ _ hw => absurd hw List.not_mem_nil
  | succ rem ih =>
    have hframe : Upholds (Upkeep Good) (fun ws _ => ∀ w ∈ ws, Good w.2)
        (if rf + UInt64.ofNat i < w
          then copyCells (((rf + UInt64.ofNat i) &&& ringMask).toNat * ch) (i * ch) ch 0
          else pure (silenceCells (i * ch) ch)) m := by
      refine upholds_ite (fun _ => upholds_copyCells hm) fun _ _ _ v hv => ?_
      obtain ⟨j, -, rfl⟩ := List.mem_map.mp hv
      exact hsilence
    refine Upholds.bind upkeep_refl ((hframe.keep Upkeep.holdsOnly hm).mono ?_)
    rintro ws m₁ ⟨hws, hm₁⟩
    refine Upholds.bind upkeep_refl ((ih hm₁).mono fun ws' m₂ hws' => ?_)
    intro _ _ v hv
    rcases List.mem_append.mp hv with hv | hv
    · exact hws v hv
    · exact hws' v hv

/-- What a `DoIOOperation` call that has come back should have handed out: samples, and those of the
ring only if the plugin is attached. -/
structure IOResult.Proper (Good : α → Prop) (r : IOResult α) (m : World α) : Prop where
  samples : ∀ w ∈ r.writes, Good w.2
  attached : ∀ ch w rf first writes, r = .read ch w rf first writes → m.plug.gShm = true

theorem upholds_doIOOperation [Pcm α] (hsilence : Good Pcm.silence) (readInput outNull : Bool)
    (n : UInt32) (cycle : UInt64) {m : World α} (hm : m.shm.HoldsOnly Good) :
    Upholds (Upkeep Good) (IOResult.Proper Good) (doIOOperation readInput outNull n cycle) m := by
  have hskipped (m : World α) : Upholds (Upkeep Good) (IOResult.Proper Good) (ret .skipped) m :=
    fun _ _ => ⟨fun _ hw => absurd hw List.not_mem_nil, fun _ _ _ _ _ => nofun⟩
  refine upholds_ite (fun _ => hskipped m) fun _ => upholds_ite (fun _ => hskipped m) fun _ => ?_
  have hbook := bookkeeping_sameAttachment (α := α)
  have hcount := (tends_silent (silent_devChannels hbook) m).keep Upkeep.holdsOnly hm
  refine Upholds.bind upkeep_refl (hcount.mono fun ch m₁ hm₁ => ?_)
  refine upholds_rd upkeep_refl fun m₂ h₂ => upholds_ite (fun _ m₃ _ => ?_) fun hshm => ?_
  · refine ⟨fun w hw => ?_, fun _ _ _ _ _ => nofun⟩
    obtain ⟨j, -, rfl⟩ := List.mem_map.mp hw
    exact hsilence
  · have hshm : m₂.plug.gShm = true := by simpa using hshm
    refine upholds_rd upkeep_refl fun m₃ h₃ => ?_
    have hcursor : Silent SameAttachment (cursorSection (α := α) n cycle m₃.shm.writeFrames) :=
      silent_cursorSection hbook.refl (fun m c => sameAttachment_plug rfl) n cycle _
    have hkeep := (tends_silent hcursor m₃).keep (I := fun m => m.shm.HoldsOnly Good ∧
        m.plug.gShm = true) (fun _ _ h h' => ⟨h.samples h'.1, h.attached h'.2⟩)
      ⟨h₃.samples (h₂.samples hm₁.2), h₃.attached hshm⟩
    refine Upholds.bind upkeep_refl (hkeep.mono ?_)
    rintro ⟨rf, first⟩ m₄ ⟨-, hm₄, hshm₄⟩
    have hcopy : Upholds (Upkeep Good) (fun ws _ => ∀ w ∈ ws, Good w.2)
        (copyFrames ch.toNat m₃.shm.writeFrames rf n.toNat 0) m₄ :=
      upholds_copyFrames hsilence hm₄
    have hcopy := hcopy.keep (I := fun m => m.plug.gShm = true) (fun _ _ h => h.attached) hshm₄
    refine Upholds.bind upkeep_refl (hcopy.mono ?_)
    rintro ws m₅ ⟨hws, hshm₅⟩ m₆ h₆
    exact ⟨hws, fun _ _ _ _ _ _ => h₆.attached hshm₅⟩

/-! ## All calls -/

/-- What a call should have returned. -/
def Local.Proper (Good : α → Prop) : Local α → World α → Prop
  | .io r, m => r.Proper Good m
  | _, _ => True

/-- The results of most calls do not matter. -/
theorem upholds_other {x : Prog (World α) β} (hx : Tends Good x) (m : World α) {f : β → Local α}
    (hf : ∀ c m, (f c).Proper Good m) :
    Upholds (Upkeep Good) (Local.Proper Good) (x >>= fun c => ret (f c)) m :=
  Upholds.bind upkeep_refl ((hx m).mono fun c _ _ _ _ => hf c _)

theorem upholds_startDaemon [Pcm α]
    (hgood : ∀ channels ch b0 b1 b2, Good (Pcm.s24 channels ch b0 b1 b2)) {e : Entry}
    {b : Local α} {x : Prog (World α) (Local α)} (h : startDaemon e b = some x) (m : World α) :
    Upholds (Upkeep Good) (Local.Proper Good) x m := by
  unfold startDaemon at h
  split at h
  · cases h
    refine Upholds.bind upkeep_refl ((tends_keeps (keeps_upkeep_create _ _ _) m).mono ?_)
    rintro (_ | _) _ - _ _ <;> exact trivial
  · cases h
    exact upholds_other (tends_keeps (keeps_upkeep_pushFrames hgood _ _)) m fun _ _ => trivial
  · cases h

theorem upholds_startMonitor {e : Entry} {b : Local α} {x : Prog (World α) (Local α)}
    (h : startMonitor e b = some x) (m : World α) :
    Upholds (Upkeep Good) (Local.Proper Good) x m := by
  unfold startMonitor at h
  split at h <;> cases h <;>
    exact upholds_other (tends_presenceMonitor _ _) m fun _ _ => trivial

theorem upholds_startHost [Pcm α] (hsilence : Good Pcm.silence) {e : Entry}
    {x : Prog (World α) (Local α)} {m : World α} (hm : m.shm.HoldsOnly Good)
    (h : startHost e = some x) : Upholds (Upkeep Good) (Local.Proper Good) x m := by
  have hsilent {γ : Type} {x : Prog (World α) γ} (hx : Silent SameAttachment x) {f : γ → Local α}
      (hf : ∀ c m, (f c).Proper Good m) :
      Upholds (Upkeep Good) (Local.Proper Good) (x >>= fun c => ret (f c)) m :=
    upholds_other (tends_silent hx) m hf
  have hbook := bookkeeping_sameAttachment (α := α)
  cases e <;> cases h
  case queryInterface => exact hsilent (silent_queryInterface hbook _ _ _) fun _ _ => trivial
  case addRef => exact hsilent (silent_addRef hbook _) fun _ _ => trivial
  case release => exact hsilent (silent_line6Release hbook _) fun _ _ => trivial
  case setUp => exact upholds_other (tends_line6Initialize _ _ _ _) m fun _ _ => trivial
  case getPropertyDataSize =>
    exact hsilent (silent_getPropertyDataSize hbook _ _ _) fun _ _ => trivial
  case getPropertyData =>
    exact hsilent (silent_getPropertyData hbook _ _ _ _ _ _) fun _ _ => trivial
  case startIo => exact upholds_other (tends_startIo _ _ _) m fun _ _ => trivial
  case stopIo => exact hsilent (silent_stopIo hbook _) fun _ _ => trivial
  case getZeroTimeStamp => exact hsilent (silent_getZeroTimeStamp hbook _ _) fun _ _ => trivial
  case doIo =>
    exact Upholds.bind upkeep_refl ((upholds_doIOOperation hsilence _ _ _ _ hm).mono
      fun r m' hr m'' h' => ⟨hr.samples, fun ch w rf first ws h =>
        h'.attached (hr.attached ch w rf first ws h)⟩)

/-- **Every call keeps the upkeep**, from any state whose ring holds samples. -/
theorem upholds_start [Pcm α] (hsilence : Good Pcm.silence)
    (hgood : ∀ channels ch b0 b1 b2, Good (Pcm.s24 channels ch b0 b1 b2)) {t : Tid} {e : Entry}
    {b : Local α} {x : Prog (World α) (Local α)} {m : World α} (hm : m.shm.HoldsOnly Good)
    (h : start t e b = some x) : Upholds (Upkeep Good) (Local.Proper Good) x m := by
  cases t with
  | daemon => exact upholds_startDaemon hgood h m
  | monitor => exact upholds_startMonitor h m
  | host i => exact upholds_startHost hsilence hm h

/-- A run stays within the upkeep, and its calls return what they should. -/
theorem upkeep_run [Pcm α] (hsilence : Good Pcm.silence)
    (hgood : ∀ channels ch b0 b1 b2, Good (Pcm.s24 channels ch b0 b1 b2))
    {ok : System α → Act Tid Entry → Prop} {p q : System α} {as : List (Act Tid Entry)}
    (hp : p.Upheld (Upkeep Good) fun _ => Local.Proper Good) (hring : p.shared.shm.HoldsOnly Good)
    (hrun : Run start ok p as q) :
    Upkeep Good p.shared q.shared ∧ q.Upheld (Upkeep Good) fun _ => Local.Proper Good :=
  upheld_run upkeep_refl upkeep_trans Upkeep.holdsOnly
    (fun _ _ _ _ _ hm h => upholds_start hsilence hgood hm h) hp hring hrun

end

/-- **An attached plugin knows its segment.** From a plugin that is not attached (or is, to a
segment it knows), however the daemon, the monitor and the host threads interleave: once attached
it stays so, the segment exists and has the magic and the version of the plugin from then on, and
before that no `DoIOOperation` call hands out what the ring holds. -/
theorem attached_compatible [Pcm α] {ok : System α → Act Tid Entry → Prop} {m : World α}
    (hm : m.plug.gShm = true → m.Compatible) {p q : System α} {as bs : List (Act Tid Entry)}
    (hrun : Run start ok (System.init m) as p) (hrest : Run start ok p bs q) :
    (p.shared.plug.gShm = true → q.shared.plug.gShm = true) ∧
    (q.shared.plug.gShm = true → q.shared.Compatible) ∧
    ∀ t readInput outNull n cycle ch w rf first ws,
      q.entry t = some (.doIo readInput outNull n cycle) →
      q.thread t = .ret (.io (.read ch w rf first ws)) →
      q.shared.plug.gShm = true ∧ q.shared.Compatible := by
  have hany (s : Shm α) : s.HoldsOnly fun _ => True := fun _ _ => trivial
  have hinit : (System.init m).Upheld (Upkeep fun _ : α => True)
    fun _ => Local.Proper fun _ => True := upheld_init _ _
  obtain ⟨hbefore, hp⟩ := upkeep_run trivial (fun _ _ _ _ _ => trivial) hinit (hany _) hrun
  obtain ⟨hafter, hq⟩ := upkeep_run trivial (fun _ _ _ _ _ => trivial) hp (hany _) hrest
  have hchecked := (upkeep_trans _ _ _ hbefore hafter).checked hm
  refine ⟨hafter.attached, hchecked, fun t readInput outNull n cycle ch w rf first ws he hret => ?_⟩
  have hproper : IOResult.Proper _ _ _ := hq.returned upkeep_refl he hret
  have hshm := hproper.attached _ _ _ _ _ rfl
  exact ⟨hshm, hchecked hshm⟩

/-- Before the daemon and the plugin have done anything. -/
def bareWorld : World ℚ where
  linked := false
  shm := Shm.zero
  plug := {}

/-- The monitor looks for the segment before the daemon has created it and after, and the daemon
captures a frame whose sample is a half. -/
def createAndPush : List (Act Tid Entry) :=
  .call .monitor (.poll .fine) :: .tick .monitor ::
    .call .daemon (.create monoDevice 258 .fine) :: List.replicate 10 (.tick .daemon) ++
    List.replicate 11 (.tick .monitor) ++
    .call .daemon (.push [0, 0, 0x40]) :: List.replicate 3 (.tick .daemon)

/-- A host thread reads it. -/
def readFrame : List (Act Tid Entry) :=
  .call (.host 0) (.doIo true false 1 1) :: List.replicate 12 (.tick (.host 0))

/-- The frame the host thread gets. -/
def frameRead (p : System ℚ) : Prop :=
  p.entry (.host 0) = some (.doIo true false 1 1) ∧
    p.thread (.host 0) = .ret (.io (.read 1 1 0 true [(0, s24ToF32 0 0 0x40)]))

theorem create_push_read : ∃ p q : System ℚ,
    Run start Free (System.init bareWorld) createAndPush p ∧ Run start Free p readFrame q ∧ p.shared.plug.gShm = true ∧ frameRead q := by
  obtain ⟨p, q, h₁, h₂, hrest⟩ : ∃ p q : System ℚ,
      runActs start createAndPush (System.init bareWorld) = some p ∧
      runActs start readFrame p = some q ∧ p.shared.plug.gShm = true ∧ frameRead q :=
    ⟨_, _, rfl, rfl, rfl, rfl, rfl⟩
  exact ⟨p, q, run_of_runActs h₁, run_of_runActs h₂, hrest⟩

theorem attached_compatible_read : ∃ p q : System ℚ,
    Run start Free (System.init bareWorld) createAndPush p ∧ Run start Free p readFrame q ∧
    frameRead q ∧ q.shared.plug.gShm = true ∧ q.shared.Compatible := by
  obtain ⟨p, q, hrun, hrest, -, hentry, hret⟩ := create_push_read
  obtain ⟨-, -, hread⟩ := attached_compatible (fun h => absurd h (by decide)) hrun hrest
  exact ⟨p, q, hrun, hrest, ⟨hentry, hret⟩, hread _ _ _ _ _ _ _ _ _ _ hentry hret⟩

/-! ## What the host hears -/

/-- One of the values that three bytes stand for. -/
def IsSample (v : ℚ) : Prop := ∃ b0 b1 b2, v = s24ToF32 b0 b1 b2

theorem isSample_silence : IsSample Pcm.silence := by
  have hzero : Pcm24.value 0 0 0 = 0 := by decide
  refine ⟨0, 0, 0, ?_⟩
  rw [s24ToF32_eq, hzero, Int.cast_zero, zero_div]
  rfl

/-- **The host hears samples.** From a segment whose ring holds samples (one that `ftruncate`
created, or that a daemon left), however the threads interleave: the ring goes on holding samples,
and every float that a `DoIOOperation` call stores is the value of three bytes, at least -1 and
below 1. -/
theorem samples_heard {ok : System ℚ → Act Tid Entry → Prop} {m : World ℚ}
    (hring : m.shm.HoldsOnly IsSample) {p : System ℚ} {as : List (Act Tid Entry)}
    (hrun : Run start ok (System.init m) as p) :
    p.shared.shm.HoldsOnly IsSample ∧
    ∀ t readInput outNull n cycle r, p.entry t = some (.doIo readInput outNull n cycle) →
      p.thread t = .ret (.io r) → ∀ w ∈ r.writes, IsSample w.2 ∧ -1 ≤ w.2 ∧ w.2 < 1 := by
  obtain ⟨hkept, hall⟩ := upkeep_run isSample_silence
    (fun _ _ b0 b1 b2 => ⟨b0, b1, b2, rfl⟩) (upheld_init _ _) hring hrun
  refine ⟨hkept.samples hring, fun t readInput outNull n cycle r he hret w hw => ?_⟩
  have hproper : IOResult.Proper _ _ _ := hall.returned upkeep_refl he hret
  obtain ⟨b0, b1, b2, heq⟩ := hproper.samples w hw
  rw [heq]
  exact ⟨⟨b0, b1, b2, rfl⟩, s24ToF32_mem b0 b1 b2⟩

theorem samples_heard_half : ∃ p q : System ℚ,
    Run start Free (System.init bareWorld) createAndPush p ∧ Run start Free p readFrame q ∧
    frameRead q ∧ s24ToF32 0 0 0x40 < 1 := by
  obtain ⟨p, q, hrun, hrest, -, hentry, hret⟩ := create_push_read
  have hring : bareWorld.shm.HoldsOnly IsSample := fun i _ => isSample_silence
  obtain ⟨-, hheard⟩ := samples_heard hring (hrun.append hrest)
  have hhalf := hheard (.host 0) true false 1 1 _ hentry hret (0, _) (List.mem_singleton_self _)
  exact ⟨p, q, hrun, hrest, ⟨hentry, hret⟩, hhalf.2.2⟩

end Line6
