import Line6.System

/-!
# The lock discipline of the plugin

`gMutex` is not recursive. Every entry point and every monitor iteration keeps its discipline on
every branch, but for `StartIO`: it calls `AttachShm` with `gMutex` held, and `AttachShm` takes
`gMutex` unless the segment is attached already.

* `lock_discipline`: in every run in which `StartIO` takes the mutex only while IO is running or
  the segment is attached, every thread is disciplined in every state.
* `startIo_waits_for_itself`: the run in which it is not.
-/

namespace Line6

open Conc Conc.Prog Conc.Pool

variable {α : Type}

/-! ## What threads do to each other -/

/-- What the mutex protects is as it was. -/
structure Protected (p p' : Plugin) : Prop where
  refCount : p'.gRefCount = p.gRefCount
  running : p'.gIORunning = p.gIORunning
  anchor : p'.gAnchorHostTime = p.gAnchorHostTime
  stamps : p'.gNumberTimeStamps = p.gNumberTimeStamps
  cursor : p'.cursor = p.cursor
  cachedName : p'.gCachedName = p.gCachedName
  cachedNameStr : p'.gCachedNameStr = p.gCachedNameStr
  strings : p'.strings = p.strings

theorem protected_refl (p : Plugin) : Protected p p := ⟨rfl, rfl, rfl, rfl, rfl, rfl, rfl, rfl⟩

theorem Protected.trans {p p' p'' : Plugin} (h : Protected p p') (h' : Protected p' p'') :
    Protected p p'' :=
  ⟨h'.1.trans h.1, h'.2.trans h.2, h'.3.trans h.3, h'.4.trans h.4, h'.5.trans h.5,
    h'.6.trans h.6, h'.7.trans h.7, h'.8.trans h.8⟩

/-- The plugin stays attached, and to who holds the mutex what it protects stands still. -/
def Rely (h : Bool) (m m' : World α) : Prop :=
  (m.plug.gShm = true → m'.plug.gShm = true) ∧ (h = true → Protected m.plug m'.plug)

theorem rely_refl (h : Bool) (m : World α) : Rely h m m := ⟨id, fun _ => protected_refl _⟩

theorem Rely.trans {h : Bool} {a b c : World α} (h₁ : Rely h a b) (h₂ : Rely h b c) :
    Rely h a c := ⟨h₂.1 ∘ h₁.1, fun hh => (h₁.2 hh).trans (h₂.2 hh)⟩

/-- A plugin thread never detaches, never writes the segment, and changes what the mutex protects
only while it holds it. -/
def hostTerms (strict : Prop) : Terms (World α) where
  strict := strict
  rely := Rely
  guar h m m' := SameSegment m m' ∧ (m.plug.gShm = true → m'.plug.gShm = true) ∧
    (h = false → Protected m.plug m'.plug)
  refl := rely_refl
  trans := Rely.trans

/-- The daemon never writes the plugin's globals. -/
def daemonTerms (strict : Prop) : Terms (World α) where
  strict := strict
  rely := Rely
  guar _ := SamePlugin
  refl := rely_refl
  trans := Rely.trans

def terms (strict : Prop) : Tid → Terms (World α)
  | .daemon => daemonTerms strict
  | _ => hostTerms strict

theorem terms_guar_refl (strict : Prop) (t : Tid) (h : Bool) (m : World α) :
    (terms strict t).guar h m m := by
  cases t with
  | daemon => exact samePlugin_refl m
  | monitor => exact ⟨⟨rfl, rfl⟩, id, fun _ => protected_refl _⟩
  | host i => exact ⟨⟨rfl, rfl⟩, id, fun _ => protected_refl _⟩

/-- Two threads never hold the mutex together, so one's guarantee is within the other's rely. -/
theorem terms_compatible (strict : Prop) (t u : Tid) {h h' : Bool} {m m' : World α}
    (hne : h = true → h' = false) (hg : (terms strict u).guar h' m m') :
    (terms strict t).rely h m m' := by
  have hrely : Rely h m m' := by
    cases u with
    | daemon =>
      have hp : m'.plug = m.plug := hg
      exact ⟨fun hm => hp ▸ hm, fun _ => hp ▸ protected_refl _⟩
    | monitor => exact ⟨hg.2.1, fun hh => hg.2.2 (hne hh)⟩
    | host i => exact ⟨hg.2.1, fun hh => hg.2.2 (hne hh)⟩
  cases t <;> exact hrely

/-- Neither the segment, nor the attachment, nor what the mutex protects changes. -/
def Calm (m m' : World α) : Prop :=
  SameSegment m m' ∧ m'.plug.gShm = m.plug.gShm ∧ Protected m.plug m'.plug

variable {strict : Prop}

theorem Calm.guar {m m' : World α} (h : Calm m m') (b : Bool) : (hostTerms strict).guar b m m' :=
  ⟨h.1, fun hm => h.2.1.trans hm, fun _ => h.2.2⟩

theorem calm_refl (m : World α) : Calm m m := ⟨⟨rfl, rfl⟩, rfl, protected_refl _⟩

/-- A program ends with the mutex released. -/
def Released {β : Type} (h : Bool) (_ : β) (_ : World α) : Prop := h = false

variable {β γ : Type} {acq : World α → Prop}

/-- The lock discipline of a program from every state: released at its start and at its end. -/
def Clean (strict : Prop) (acq : World α → Prop) (x : Prog (World α) β) : Prop :=
  ∀ m, Safe (hostTerms strict) acq Released false x m

theorem Clean.bind {x : Prog (World α) γ} {f : γ → Prog (World α) β} (hx : Clean strict acq x)
    (hf : ∀ c, Clean strict acq (f c)) : Clean strict acq (x >>= f) := fun m =>
  Safe.bind ((hx m).mono fun _ c m' hh => by
    obtain rfl : _ = false := hh
    exact hf c m')

theorem clean_plain {x : Prog (World α) β} (hx : Plain Calm x) : Clean strict acq x := fun _ =>
  hx.safe fun _ _ h => h.guar _

theorem clean_ret (b : β) : Clean strict acq (ret b : Prog (World α) β) := fun _ _ _ => rfl

theorem Clean.ite {c : Prop} [Decidable c] {x y : Prog (World α) β} (hx : Clean strict acq x)
    (hy : Clean strict acq y) : Clean strict acq (if c then x else y) := by
  split_ifs
  · exact hx
  · exact hy

theorem clean_rd (f : World α → β) : Clean strict acq (rd f) := clean_plain (plain_rd calm_refl f)

theorem clean_wr {f : Plugin → Plugin} (hf : ∀ p, (f p).gShm = p.gShm ∧ Protected p (f p)) :
    Clean strict acq (wrPlug (α := α) f) :=
  clean_plain (plain_wr fun m => ⟨⟨rfl, rfl⟩, hf m.plug⟩)

/-! ### Sections under the mutex -/

/-- The lock discipline of a program that begins with the mutex held and ends with it released. -/
def Held (strict : Prop) (acq : World α → Prop) (x : Prog (World α) β) : Prop :=
  ∀ m, Safe (hostTerms strict) acq Released true x m

theorem clean_acquire {x : Prog (World α) β} (hx : Held strict acq x) :
    Clean strict acq (acquire >>= fun _ => x) := fun _ => ⟨fun _ => rfl, fun _ m' _ _ => hx m'⟩

theorem held_release {x : Prog (World α) β} (hx : Clean strict acq x) :
    Held strict acq (release >>= fun _ => x) := fun _ => ⟨rfl, fun m' _ => hx m'⟩

theorem held_rd {f : World α → γ} {k : γ → Prog (World α) β} (hk : ∀ c, Held strict acq (k c)) :
    Held strict acq (rd f >>= k) := fun _ m' _ => ⟨⟨⟨rfl, rfl⟩, id, nofun⟩, hk (f m') m'⟩

theorem held_plain {x : Prog (World α) γ} {k : γ → Prog (World α) β} (hx : Plain Calm x)
    (hk : ∀ c, Held strict acq (k c)) : Held strict acq (x >>= k) := fun _ =>
  Safe.bind ((hx.safe fun _ _ h => h.guar _).mono fun _ c m' hh => by
    obtain rfl : _ = true := hh
    exact hk c m')

theorem held_wr {f : Plugin → Plugin} {k : Unit → Prog (World α) β}
    (hf : ∀ p, p.gShm = true → (f p).gShm = true) (hk : Held strict acq (k ())) :
    Held strict acq (wrPlug f >>= k) :=
  fun _ m' _ => ⟨⟨⟨rfl, rfl⟩, hf m'.plug, nofun⟩, hk _⟩

theorem Held.ite {c : Prop} [Decidable c] {x y : Prog (World α) β} (hx : Held strict acq x)
    (hy : Held strict acq y) : Held strict acq (if c then x else y) := by
  split_ifs
  · exact hx
  · exact hy

/-! ## The helpers -/

theorem clean_attachShm (sys : Sys) : Clean strict acq (attachShm (α := α) sys) := by
  have hout : Held strict acq (release : Prog (World α) Unit) := held_release (clean_ret ())
  refine (clean_rd _).bind fun attached => Clean.ite (clean_ret ()) (clean_acquire ?_)
  refine held_rd fun attached => Held.ite hout ?_
  refine held_rd fun opened => Held.ite hout (Held.ite hout ?_)
  refine held_rd fun magic => Held.ite hout (held_rd fun version => Held.ite hout ?_)
  exact held_wr (fun _ _ => rfl) hout

theorem clean_devChannels : Clean strict acq (devChannels (α := α)) := by
  refine (clean_rd _).bind fun attached => Clean.ite ?_ (clean_ret _)
  exact (clean_rd _).bind fun c => clean_ret _

theorem clean_deviceNameCopy (cf : Cf) : Clean strict acq (deviceNameCopy (α := α) cf) := by
  have hname : Clean strict acq (do
      if ← rd fun m : World α => m.plug.gShm then
        let v ← rd fun m => m.shm.name
        return some v
      else
        return none) :=
    (clean_rd _).bind fun attached =>
      Clean.ite ((clean_rd _).bind fun v => clean_ret _) (clean_ret _)
  refine hname.bind fun name => clean_acquire (held_rd fun stale => ?_)
  have hend : Held strict acq (retainCached (α := α)) := by
    refine held_rd fun cached => ?_
    cases cached with
    | none => exact fun _ => trivial
    | some i => exact held_wr (fun _ h => h) (held_release (clean_ret i))
  refine Held.ite (held_wr (fun p h => ?_) (held_wr (fun p h => ?_) (held_wr (fun p h => h) hend)))
    hend
  · cases p.gCachedName <;> exact h
  · unfold Plugin.cfCreate
    split_ifs <;> exact h

theorem plain_readMargin : Plain Calm (readMargin (α := α)) := by
  refine (plain_rd calm_refl _).bind fun word => ?_
  split_ifs
  · exact plain_rd calm_refl _
  · trivial

theorem clean_cursorSection (n : UInt32) (cycle w : UInt64) :
    Clean strict acq (cursorSection (α := α) n cycle w) := by
  have hend (first : Bool) : Held strict acq (do
      let rf ← rd fun m : World α => m.plug.cursor.gCycleReadFrame
      release
      return (rf, first)) := held_rd fun rf => held_release (clean_ret _)
  refine clean_acquire (held_rd fun first => Held.ite ?_ (hend first))
  exact held_plain plain_readMargin fun margin => held_wr (fun _ h => h) (hend first)

/-! ## The entry points -/

theorem clean_addRef (known : Bool) : Clean strict acq (addRef (α := α) known) :=
  Clean.ite (clean_ret 0) (clean_acquire (held_wr (fun _ h => h) (held_rd fun r =>
    held_release (clean_ret r))))

theorem clean_line6Release (known : Bool) : Clean strict acq (line6Release (α := α) known) :=
  Clean.ite (clean_ret 0) (clean_acquire (held_wr (fun _ h => h) (held_rd fun r =>
    held_release (clean_ret r))))

theorem clean_queryInterface (known outNull supported : Bool) :
    Clean strict acq (queryInterface (α := α) known outNull supported) :=
  Clean.ite (clean_ret _) (Clean.ite (clean_acquire (held_wr (fun _ h => h)
    (held_release (clean_ret _)))) (clean_ret _))

theorem clean_stopIo (known : Bool) : Clean strict acq (stopIo (α := α) known) :=
  Clean.ite (clean_ret _) (clean_acquire (held_wr (fun _ h => h) (held_release (clean_ret _))))

theorem clean_getZeroTimeStamp (known : Bool) (now : UInt64) :
    Clean strict acq (getZeroTimeStamp (α := α) known now) := by
  refine Clean.ite (clean_ret _) (clean_acquire (held_wr (fun p h => ?_) (held_rd fun n =>
    held_rd fun host => held_release (clean_ret _))))
  unfold Plugin.tickTimeline
  split_ifs <;> exact h

theorem clean_line6Initialize (known host : Bool) (tb : Timebase) (sys : Sys) :
    Clean strict acq (line6Initialize (α := α) known host tb sys) := by
  refine Clean.ite (clean_ret _) ?_
  refine Clean.bind (clean_wr fun p => ⟨rfl, rfl, rfl, rfl, rfl, rfl, rfl, rfl, rfl⟩) fun _ => ?_
  refine Clean.bind (clean_wr fun p => ⟨rfl, rfl, rfl, rfl, rfl, rfl, rfl, rfl, rfl⟩) fun _ => ?_
  exact (clean_attachShm sys).bind fun _ =>
    Clean.bind (clean_wr fun p => ⟨rfl, rfl, rfl, rfl, rfl, rfl, rfl, rfl, rfl⟩) fun _ => clean_ret _

/-- The monitor notifies the host with the mutex released. -/
theorem clean_notifyDeviceList : Clean strict acq (notifyDeviceList (α := α)) :=
  (clean_rd _).bind fun _ =>
    Clean.ite (fun _ => ⟨fun _ => rfl, fun _ _ => clean_ret () _⟩) (clean_ret ())

theorem clean_presencePoll (sys : Sys) (l : Monitor) :
    Clean strict acq (presencePoll (α := α) sys l) := by
  refine (clean_attachShm sys).bind fun _ => Clean.bind ?_ fun r => ?_
  · refine (clean_rd _).bind fun attached => Clean.ite (clean_ret _) ?_
    exact (clean_rd _).bind fun wf => clean_ret _
  · have hswap : Clean strict acq (access
        (fun m : World α => { m with plug := { m.plug with gDevicePresent := r.1 } })
        fun m => ret m.plug.gDevicePresent) :=
      clean_plain fun m => ⟨⟨⟨rfl, rfl⟩, rfl, rfl, rfl, rfl, rfl, rfl, rfl, rfl, rfl⟩, trivial⟩
    exact hswap.bind fun prev =>
      Clean.ite (clean_notifyDeviceList.bind fun _ => clean_ret _) (clean_ret _)

theorem clean_presenceMonitor (sys : Sys) (l : Monitor) :
    Clean strict acq (presenceMonitor (α := α) sys l) :=
  (clean_rd _).bind fun _ =>
    Clean.ite ((clean_presencePoll sys l).bind fun _ => clean_ret _) (clean_ret _)

theorem plain_loadCell {R : World α → World α → Prop} (hR : ∀ m, R m m) (i : Nat) :
    Plain R (loadCell (α := α) i) := by
  unfold loadCell
  split_ifs
  · exact plain_rd hR _
  · trivial

theorem plain_copyCells {R : World α → World α → Prop} (hR : ∀ m, R m m) (slot dst : Nat) :
    ∀ rem c, Plain R (copyCells (α := α) slot dst rem c)
  | 0, _ => trivial
  | rem + 1, c => (plain_loadCell hR _).bind fun _ =>
      (plain_copyCells hR slot dst rem (c + 1)).bind fun _ => trivial

theorem plain_copyFrames [Pcm α] {R : World α → World α → Prop} (hR : ∀ m, R m m) (ch : Nat)
    (w rf : UInt64) : ∀ rem i, Plain R (copyFrames (α := α) ch w rf rem i)
  | 0, _ => trivial
  | rem + 1, i => by
    refine Plain.bind ?_ fun _ => (plain_copyFrames hR ch w rf rem (i + 1)).bind fun _ => trivial
    split_ifs
    · exact plain_copyCells hR _ _ _ _
    · trivial

theorem clean_doIOFromLoad [Pcm α] (n : UInt32) (cycle : UInt64) (ch : UInt32) :
    Clean strict acq (doIOFromLoad (α := α) n cycle ch) := by
  refine (clean_rd _).bind fun w => (clean_cursorSection n cycle w).bind fun r => ?_
  exact (clean_plain (plain_copyFrames calm_refl _ _ _ _ _)).bind fun writes => clean_ret _

theorem clean_doIOOperation [Pcm α] (readInput outNull : Bool) (n : UInt32) (cycle : UInt64) :
    Clean strict acq (doIOOperation (α := α) readInput outNull n cycle) := by
  refine Clean.ite (clean_ret _) (Clean.ite (clean_ret _) ?_)
  refine clean_devChannels.bind fun ch => (clean_rd _).bind fun attached => ?_
  exact Clean.ite (clean_ret _) (clean_doIOFromLoad n cycle ch)

theorem clean_getPropertyDataSize (k : Sdk) (obj : UInt32) (a : Address) :
    Clean strict acq (getPropertyDataSize (α := α) k obj a) := by
  have hplug (s : PlugInSel) : Clean strict acq (plugInDataSize (α := α) s) := by
    cases s <;> first | exact clean_ret _ | exact (clean_rd _).bind fun _ => clean_ret _
  have hdev (s : DeviceSel) : Clean strict acq (deviceDataSize (α := α) k a.scope s) := by
    cases s <;> exact clean_ret _
  have hstr (s : StreamSel) : Clean strict acq (streamDataSize (α := α) s) := by
    cases s <;> exact clean_ret _
  unfold getPropertyDataSize
  split_ifs
  · exact clean_ret _
  · cases k.plugInSel a.selector
    · exact clean_ret _
    · exact hplug _
  · cases k.deviceSel a.selector
    · exact clean_ret _
    · exact hdev _
  · cases k.streamSel a.selector
    · exact clean_ret _
    · exact hstr _
  · exact clean_ret _

theorem clean_deviceData (k : Sdk) (cf : Cf) (scope inSize : UInt32) (s : DeviceSel) :
    Clean strict acq (deviceData (α := α) k cf scope inSize s) := by
  cases s with
  | name => exact (clean_deviceNameCopy cf).bind fun _ => clean_ret _
  | deviceIsRunning => exact (clean_rd _).bind fun _ => clean_ret _
  | streamConfiguration =>
    exact Clean.ite (clean_ret _) (clean_devChannels.bind fun _ => clean_ret _)
  | _ => exact clean_ret _

theorem clean_getPropertyData (k : Sdk) (cf : Cf) (obj : UInt32) (a : Address) (q : Qualifier)
    (inSize : UInt32) : Clean strict acq (getPropertyData (α := α) k cf obj a q inSize) := by
  have hplug (s : PlugInSel) : Clean strict acq (plugInData (α := α) k q inSize s) := by
    cases s <;> first | exact clean_ret _ | exact (clean_rd _).bind fun _ => clean_ret _
  have hstr (chans : UInt32) (s : StreamSel) : Clean strict acq (streamData (α := α) k chans s) := by
    cases s <;> exact clean_ret _
  unfold getPropertyData
  split_ifs
  · exact clean_ret _
  · cases k.plugInSel a.selector
    · exact clean_ret _
    · exact hplug _
  · cases k.deviceSel a.selector
    · exact clean_ret _
    · exact clean_deviceData _ _ _ _ _
  · refine clean_devChannels.bind fun chans => ?_
    cases k.streamSel a.selector
    · exact clean_ret _
    · exact hstr _ _
  · exact clean_ret _

/-! ## StartIO -/

/-- `StartIO` may take the mutex: it will not call `AttachShm`, or `AttachShm` will not take it. -/
def MayStart (m : World α) : Prop := m.plug.gShm = true ∨ m.plug.gIORunning ≠ 0

/-- `AttachShm` with the mutex held returns holding it: it does not take the mutex on an attached
plugin, and waits forever on another. -/
theorem safe_attachShm_held (sys : Sys) {m : World α} (hm : strict → m.plug.gShm = true) :
    Safe (hostTerms strict) acq (fun h _ _ => h = true) true (attachShm sys) m := by
  intro m' hr
  refine ⟨⟨⟨rfl, rfl⟩, id, nofun⟩, ?_⟩
  show Safe _ _ _ true (if m'.plug.gShm = true then ret () else _) m'
  by_cases hm' : m'.plug.gShm = true
  · rw [if_pos hm']
    exact fun _ _ => rfl
  · rw [if_neg hm']
    exact ⟨fun hstrict => absurd (hr.1 (hm hstrict)) hm', nofun⟩

theorem safe_startIo (known : Bool) (sys : Sys) (now : UInt64)
    (hmay : ∀ m, acq m → strict → MayStart m) (m : World α) :
    Safe (hostTerms strict) acq Released false (startIo known sys now) m := by
  have hend : Held strict acq (do
      wrPlug (α := α) fun p => { p with gIORunning := p.gIORunning + 1 }
      release
      return (.ok () : Except HalError Unit)) := held_wr (fun _ h => h) (held_release (clean_ret _))
  cases known with
  | false => exact clean_ret _ m
  | true =>
    refine ⟨fun _ => rfl, fun _ m₁ _ hacq m₂ h₂ => ⟨⟨⟨rfl, rfl⟩, id, nofun⟩, ?_⟩⟩
    show Safe _ _ Released true (if (m₂.plug.gIORunning == 0) = true then _ else _) m₂
    split_ifs with h0
    · have hatt : strict → m₂.plug.gShm = true := fun hstrict => by
        -- the count cannot have changed since the mutex was taken
        have hrun : m₁.plug.gIORunning = 0 := (h₂.2 rfl).running.symm.trans (eq_of_beq h0)
        exact h₂.1 ((hmay m₁ hacq hstrict).resolve_right fun h => h hrun)
      refine Safe.bind ((safe_attachShm_held sys hatt).mono fun h _ m₃ hh => ?_)
      obtain rfl : h = true := hh
      have hhead : Plain Calm (do
          if ← rd fun m : World α => m.plug.gShm then rd fun m => m.shm.writeFrames
          else return 0) := by
        refine (plain_rd calm_refl _).bind fun attached => ?_
        split_ifs
        · exact plain_rd calm_refl _
        · trivial
      refine held_wr ?_ (held_plain hhead fun w₀ => held_wr ?_ hend) m₃
      · exact fun _ h => h
      · exact fun _ h => h
    · exact hend m₂

/-! ## All calls -/

theorem clean_finish {x : Prog (World α) β} (hx : Clean strict acq x) : Clean strict acq (finish x) :=
  hx.bind fun _ => clean_ret _

theorem safe_startDaemon [Pcm α] {e : Entry} {b : Local α} {x : Prog (World α) (Local α)}
    (h : startDaemon e b = some x) (m : World α) :
    Safe (daemonTerms strict) acq Released false x m := by
  have hplain {β : Type} {x : Prog (World α) β} (hx : Plain SamePlugin x) (m : World α) :
      Safe (daemonTerms strict) acq Released false x m := hx.safe fun _ _ h => h
  unfold startDaemon at h
  split at h
  · cases h
    refine hplain ((plain_create _ _ _).bind fun r => ?_) m
    cases r <;> trivial
  · cases h
    refine hplain ((plain_pushFrames _ _).bind fun _ => ?_) m
    exact trivial
  · cases h

theorem clean_startMonitor {e : Entry} {b : Local α} {x : Prog (World α) (Local α)}
    (h : startMonitor e b = some x) : Clean strict acq x := by
  unfold startMonitor at h
  split at h <;> cases h <;> exact (clean_presenceMonitor _ _).bind fun _ => clean_ret _

/-- Where the calls may take the mutex. -/
def mayAcquire : Entry → World α → Prop
  | .startIo .. => MayStart
  | _ => fun _ => True

/-- The condition on the acquisitions is needed for the lock discipline only. -/
theorem safe_startHost [Pcm α] {e : Entry} {x : Prog (World α) (Local α)}
    (h : startHost e = some x) (hmay : ∀ m, acq m → strict → mayAcquire e m) (m : World α) :
    Safe (hostTerms strict) acq Released false x m := by
  cases e <;> cases h
  case queryInterface => exact clean_finish (clean_queryInterface _ _ _) m
  case addRef => exact clean_finish (clean_addRef _) m
  case release => exact clean_finish (clean_line6Release _) m
  case setUp => exact clean_finish (clean_line6Initialize _ _ _ _) m
  case getPropertyDataSize =>
    exact (clean_getPropertyDataSize _ _ _).bind (fun _ => clean_ret _) m
  case getPropertyData =>
    exact (clean_getPropertyData _ _ _ _ _ _).bind (fun _ => clean_ret _) m
  case startIo =>
    exact Safe.bind ((safe_startIo _ _ _ hmay m).mono fun h _ m' hh => by
      obtain rfl : h = false := hh
      exact clean_ret _ m')
  case stopIo => exact clean_finish (clean_stopIo _) m
  case getZeroTimeStamp => exact clean_finish (clean_getZeroTimeStamp _ _) m
  case doIo => exact (clean_doIOOperation _ _ _ _).bind (fun _ => clean_ret _) m

/-- **Every call is safe**; strictly, if it takes the mutex only where it may. -/
theorem safe_start [Pcm α] {t : Tid} {e : Entry} {b : Local α} {x : Prog (World α) (Local α)}
    (h : start t e b = some x) (hmay : ∀ m, acq m → strict → mayAcquire e m) (m : World α) :
    Safe (terms strict t) acq Released false x m := by
  cases t with
  | daemon => exact safe_startDaemon h m
  | monitor => exact clean_startMonitor h m
  | host i => exact safe_startHost h hmay m

/-! ## The system -/

/-- All threads are safe, the lock discipline apart. -/
abbrev System.Safe (p : System α) : Prop := AllSafe (terms False) (fun _ _ => True) p

theorem free_acquires (p : System α) (a : Act Tid Entry) :
    Acquires (fun _ _ => True) p a := fun _ _ _ _ _ _ => trivial

/-- Every step keeps the threads safe. -/
theorem system_safe_step [Pcm α] {p q : System α} {a : Act Tid Entry} (h : p.Safe)
    (hnext : p.next start a = some q) : q.Safe :=
  h.step (terms_guar_refl False) (fun t u _ _ _ _ _ => terms_compatible False t u)
    (fun _ _ _ _ s hk => safe_start hk (fun _ _ => False.elim) s) (free_acquires p a) hnext

/-- The threads of the system are safe throughout every run. -/
theorem system_safe [Pcm α] {ok : System α → Act Tid Entry → Prop} {m : World α}
    {as : List (Act Tid Entry)} {p : System α} (hrun : Run start ok (System.init m) as p) :
    p.Safe :=
  pool_safe (terms_guar_refl False) (fun t u _ _ _ _ _ => terms_compatible False t u)
    (fun _ _ _ _ s hk => safe_start hk (fun _ _ => False.elim) s)
    (hrun.mono fun p a _ => free_acquires p a)

/-- What a step of another thread may do to a thread of the plugin. -/
theorem system_rely [Pcm α] {p q : System α} {a : Act Tid Entry} {t : Tid} (h : p.Safe)
    (hnext : p.next start a = some q) (ht : a.by ≠ t) :
    Rely (p.holds t) p.shared q.shared := by
  have := h.rely (terms_guar_refl False) (fun t u _ _ _ _ _ => terms_compatible False t u)
    hnext ht
  cases t <;> exact this

/-- Only the daemon writes the segment. -/
theorem same_segment [Pcm α] {p q : System α} {a : Act Tid Entry} (hsafe : p.Safe)
    (hnext : p.next start a = some q) (ha : a.by ≠ .daemon) :
    SameSegment p.shared q.shared := by
  have hguar := hsafe.guar (terms_guar_refl False) hnext
  cases hby : a.by with
  | daemon => exact absurd hby ha
  | monitor =>
    rw [hby] at hguar
    exact hguar.1
  | host i =>
    rw [hby] at hguar
    exact hguar.1

/-- The system at its start is safe. -/
theorem init_safe (m : World α) : (System.init m).Safe :=
  fun _ => Or.inl ⟨rfl, by simp [System.init, Pool.init, holds], _, rfl⟩

/-- The daemon is idle and the plugin attached. -/
structure Resting (p : System α) : Prop where
  safe : p.Safe
  attached : p.shared.plug.gShm = true
  idle : ∃ b, p.thread .daemon = .ret b

/-- While the daemon rests, nothing changes the segment or the attachment. -/
theorem Resting.step [Pcm α] {p q : System α} {a : Act Tid Entry} (h : Resting p)
    (ha : a.by ≠ .daemon) (hnext : p.next start a = some q) :
    Resting q ∧ q.shared.shm = p.shared.shm ∧ q.shared.devChannels = p.shared.devChannels := by
  obtain ⟨b, hb⟩ := h.idle
  have hg := (system_rely h.safe hnext ha).1 h.attached
  have hshm := (same_segment h.safe hnext ha).1
  refine ⟨⟨system_safe_step h.safe hnext, hg, b, ?_⟩, hshm, ?_⟩
  · exact ((step_of_next hnext).other ha).1.trans hb
  · unfold World.devChannels
    rw [hg, h.attached, hshm]

/-- Only the daemon creates the segment. -/
theorem create_by_daemon [Pcm α] {p q : System α} {t : Tid} {d : Device} {latency : UInt32}
    {sys : Sys} (hnext : p.next start (.call t (.create d latency sys)) = some q) :
    t = .daemon := by
  cases step_of_next hnext with
  | @call _ _ b _ _ hk =>
    cases t with
    | daemon => rfl
    | monitor => cases b <;> cases hk
    | host i => cases hk

/-- **The lock discipline** of every thread, in every state of every run from any world, provided
`StartIO` takes the mutex only while IO runs or the segment is attached: no thread waits for a
mutex it holds, no call returns with it, and the host is never called back with it. -/
theorem lock_discipline [Pcm α] {m : World α} {as : List (Act Tid Entry)} {p : System α}
    (hrun : Run start (Acquires mayAcquire) (System.init m) as p) (t : Tid) :
    p.Disciplined t := by
  have hsafe : AllSafe (terms True) mayAcquire p :=
    pool_safe (terms_guar_refl True) (fun t u _ _ _ _ _ => terms_compatible True t u)
      (fun _ _ _ _ s hk => safe_start hk (fun _ h _ => h) s) hrun
  have hstrict : (terms (α := α) True t).strict := by cases t <;> trivial
  rcases hsafe t with ⟨-, hfree, b, hb⟩ | ⟨e, -, hs⟩
  · exact idle_disciplined hb hfree
  · exact disciplined_of_safe hstrict (fun h _ _ hh => hh) hs

/-- A plugin that has not attached, no segment there. -/
def unattached : World ℚ where
  linked := false
  shm := Shm.zero
  plug := {}

/-- A plugin that has attached, nobody doing IO. -/
def attachedIdle : World ℚ where
  linked := true
  shm := Shm.zero
  plug := { gShm := true }

theorem lock_discipline_attached : ∃ p : System ℚ,
    p.owner = some (.host 0) ∧ p.Disciplined (.host 0) := by
  have hcall : Run start (Acquires mayAcquire) (System.init attachedIdle)
      [.call (.host 0) (.startIo true .fine 7)] _ :=
    Run.cons (by rintro t e k ⟨⟩) rfl Run.refl
  refine ⟨_, ?_, lock_discipline (hcall.tail (a := .tick (.host 0)) ?_ rfl) (.host 0)⟩
  · rfl
  · rintro t e k ⟨⟩ - he
    cases he
    exact Or.inl rfl

/-- The first `StartIO` after a failed attach: the thread locks the mutex, finds no IO running and
no segment, and locks the mutex again. -/
theorem startIo_waits_for_itself : ¬ ∀ (as : List (Act Tid Entry)) (p : System ℚ) (t : Tid),
    Run start Free (System.init unattached) as p → p.Disciplined t := by
  intro h
  have hrun : Run start Free (System.init unattached)
      [.call (.host 0) (.startIo true .fine 7), .tick (.host 0), .tick (.host 0),
        .tick (.host 0)] _ := run_of_runActs rfl
  exact (h _ _ (.host 0) hrun).no_self_wait ⟨⟨_, rfl⟩, rfl⟩

end Line6
