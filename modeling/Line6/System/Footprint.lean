import Line6.Lib.Announce
import Line6.System.Lock

/-!
# What a call may change

Most calls leave the globals that the host's threads look at alone (`Aside`). The exceptions:
`Initialize` stores the host interface, the monitor exchanges the presence flag, `StartIO` and
`DoIOOperation` move the read cursor (`Entry.Effect`). None of them but the monitor calls out, and
none of them stores to the segment.

* `Bookkeeping R`, `Attaching R`: what a relation has to allow for the programs of the plugin to be
  within it.
* `silent_hostCall`, `keeps_monitorCall`: every entry point and the monitor, within any such
  relation.
* `silent_startHost`, `silent_startDaemon`: every call but the monitor's is within its effect and
  silent. `keeps_segment_host`, `keeps_segment_monitor`: the plugin leaves the segment alone.
-/

namespace Line6

open Conc Conc.Prog Conc.Pool

variable {α : Type}

/-- The plugin stays attached, and its host interface, presence flag and read cursor are as they
were. -/
structure Aside (m m' : World α) : Prop where
  attached : m.plug.gShm = true → m'.plug.gShm = true
  host : m'.plug.gHost = m.plug.gHost
  present : m'.plug.gDevicePresent = m.plug.gDevicePresent
  cursor : m'.plug.cursor = m.plug.cursor

@[simp] theorem aside_refl (m : World α) : Aside m m := ⟨id, rfl, rfl, rfl⟩

/-- The call is one of those that move the read cursor. -/
def Entry.MovesCursor : Entry → Prop
  | .startIo .. => True
  | .doIo .. => True
  | _ => False

/-- What a call may do to them. -/
structure Entry.Effect (e : Entry) (m m' : World α) : Prop where
  attached : m.plug.gShm = true → m'.plug.gShm = true
  host : m'.plug.gHost = m.plug.gHost ∨ ∃ known tb sys, e = .setUp known m'.plug.gHost tb sys
  present : m'.plug.gDevicePresent = m.plug.gDevicePresent ∨ ∃ sys, e = .poll sys
  cursor : m'.plug.cursor = m.plug.cursor ∨ e.MovesCursor

theorem Aside.effect {m m' : World α} (h : Aside m m') (e : Entry) : e.Effect m m' :=
  ⟨h.attached, .inl h.host, .inl h.present, .inl h.cursor⟩

@[simp] theorem sameSegment_refl (m : World α) : SameSegment m m := ⟨rfl, rfl⟩

@[simp] theorem sameSegment_plug (m : World α) (p : Plugin) :
    SameSegment m { m with plug := p } := ⟨rfl, rfl⟩

/-! ## What a relation allows -/

/-- `R` lets the plugin look around, and store to the globals the host's threads do not look at. -/
structure Bookkeeping (R : World α → World α → Prop) : Prop where
  refl : ∀ m, R m m
  plug : ∀ (m : World α) (p : Plugin), p.gShm = m.plug.gShm → p.gHost = m.plug.gHost →
    p.gDevicePresent = m.plug.gDevicePresent → p.cursor = m.plug.cursor → R m { m with plug := p }

/-- It lets it attach, too. -/
structure Attaching (R : World α → World α → Prop) : Prop extends Bookkeeping R where
  attach : ∀ m, R m { m with plug := { m.plug with gShm := true } }

theorem attaching_aside : Attaching (Aside (α := α)) where
  refl := aside_refl
  plug := fun _ _ hshm hhost hpresent hcursor => ⟨hshm.trans, hhost, hpresent, hcursor⟩
  attach := fun _ => ⟨fun _ => rfl, rfl, rfl, rfl⟩

theorem attaching_effect (e : Entry) : Attaching (e.Effect (α := α)) where
  refl := fun m => (aside_refl m).effect e
  plug := fun m p hshm hhost hpresent hcursor =>
    (attaching_aside.plug m p hshm hhost hpresent hcursor).effect e
  attach := fun m => (attaching_aside.attach m).effect e

theorem attaching_sameSegment : Attaching (SameSegment (α := α)) where
  refl := sameSegment_refl
  plug := fun m p _ _ _ _ => sameSegment_plug m p
  attach := fun m => sameSegment_plug m _

/-! ## Programs that only keep their books -/

section

variable {R : World α → World α → Prop} (hR : Bookkeeping R)
include hR

theorem silent_load {β : Type} (f : World α → β) : Silent R (rd f) := silent_rd.mpr hR.refl

theorem silent_wrPlug {f : Plugin → Plugin} (hf : ∀ p, (f p).gShm = p.gShm ∧
    (f p).gHost = p.gHost ∧ (f p).gDevicePresent = p.gDevicePresent ∧
    (f p).cursor = p.cursor) : Silent R (wrPlug (α := α) f) := by
  refine silent_wr.mpr fun m => ?_
  obtain ⟨hshm, hhost, hpresent, hcursor⟩ := hf m.plug
  exact hR.plug m _ hshm hhost hpresent hcursor

theorem silent_devChannels : Silent R (devChannels (α := α)) := by
  simp [devChannels, hR.refl]

theorem silent_deviceNameCopy (cf : Cf) : Silent R (deviceNameCopy (α := α) cf) := by
  have hname : Silent R (do
      if ← rd fun m : World α => m.plug.gShm then
        let v ← rd fun m => m.shm.name
        return some v
      else
        return none) := by simp [hR.refl]
  have hend : Silent R (retainCached (α := α)) := by
    refine (silent_load hR _).bind fun cached => ?_
    cases cached with
    | none => exact silent_trap
    | some i =>
      exact Silent.bind (silent_wrPlug hR fun p => ⟨rfl, rfl, rfl, rfl⟩) fun _ =>
        silent_release.bind fun _ => silent_ret
  unfold deviceNameCopy
  refine hname.bind fun name => ?_
  refine silent_acquire.bind fun _ => ?_
  refine (silent_load hR _).bind fun stale => ?_
  dsimp only
  cases stale with
  | false => exact hend
  | true =>
    rw [if_pos rfl]
    refine Silent.bind (silent_wrPlug hR fun p => ?_) fun _ => ?_
    · cases p.gCachedName <;> exact ⟨rfl, rfl, rfl, rfl⟩
    refine Silent.bind (silent_wrPlug hR fun p => ?_) fun _ => ?_
    · unfold Plugin.cfCreate
      split_ifs <;> exact ⟨rfl, rfl, rfl, rfl⟩
    exact Silent.bind (silent_wrPlug hR fun p => ⟨rfl, rfl, rfl, rfl⟩) fun _ => hend

theorem silent_addRef (known : Bool) : Silent R (addRef (α := α) known) := by
  simp [addRef, wrPlug, hR.refl, hR.plug]

theorem silent_line6Release (known : Bool) : Silent R (line6Release (α := α) known) := by
  simp [line6Release, wrPlug, hR.refl, hR.plug]

theorem silent_queryInterface (known outNull supported : Bool) :
    Silent R (queryInterface (α := α) known outNull supported) := by
  simp [queryInterface, wrPlug, hR.plug]

theorem silent_stopIo (known : Bool) : Silent R (stopIo (α := α) known) := by
  simp [stopIo, wrPlug, hR.plug]

theorem silent_getZeroTimeStamp (known : Bool) (now : UInt64) :
    Silent R (getZeroTimeStamp (α := α) known now) := by
  have htick : Silent R (wrPlug (α := α) fun p => p.tickTimeline now) := by
    refine silent_wrPlug hR fun p => ?_
    unfold Plugin.tickTimeline
    split_ifs <;> exact ⟨rfl, rfl, rfl, rfl⟩
  have hend : Silent R (do
      let n ← rd fun m : World α => m.plug.gNumberTimeStamps
      let host ← rd fun m => m.plug.boundary n
      release
      return (.ok (n * kDeviceRingPeriod, host, 1) : Except HalError _)) := by simp [hR.refl]
  refine silent_ite.mpr ⟨fun _ => trivial, fun _ => ?_⟩
  exact silent_acquire.bind fun _ => htick.bind fun _ => hend

theorem silent_getPropertyDataSize (k : Sdk) (obj : UInt32) (a : Address) :
    Silent R (getPropertyDataSize (α := α) k obj a) := by
  have hplug (s : PlugInSel) : Silent R (plugInDataSize (α := α) s) := by
    cases s <;> simp [plugInDataSize, hR.refl]
  have hdev (s : DeviceSel) : Silent R (deviceDataSize (α := α) k a.scope s) := by
    cases s <;> simp [deviceDataSize]
  have hstr (s : StreamSel) : Silent R (streamDataSize (α := α) s) := by
    cases s <;> simp [streamDataSize]
  unfold getPropertyDataSize
  cases k.plugInSel a.selector <;> cases k.deviceSel a.selector <;>
    cases k.streamSel a.selector <;> simp [hplug, hdev, hstr]

theorem silent_getPropertyData (k : Sdk) (cf : Cf) (obj : UInt32) (a : Address) (q : Qualifier)
    (inSize : UInt32) : Silent R (getPropertyData (α := α) k cf obj a q inSize) := by
  have hplug (s : PlugInSel) : Silent R (plugInData (α := α) k q inSize s) := by
    cases s <;> simp [plugInData, hR.refl]
  have hdev (s : DeviceSel) : Silent R (deviceData (α := α) k cf a.scope inSize s) := by
    cases s with
    | name => exact (silent_deviceNameCopy hR cf).bind fun _ => silent_ret
    | streamConfiguration =>
      exact silent_ite.mpr ⟨fun _ => silent_ret, fun _ =>
        (silent_devChannels hR).bind fun _ => silent_ret⟩
    | _ => simp [deviceData, hR.refl]
  have hstr (chans : UInt32) (s : StreamSel) : Silent R (streamData (α := α) k chans s) := by
    cases s <;> simp [streamData]
  unfold getPropertyData
  split_ifs
  · exact silent_ret
  · cases k.plugInSel a.selector with
    | none => exact silent_ret
    | some s => exact hplug s
  · cases k.deviceSel a.selector with
    | none => exact silent_ret
    | some s => exact hdev s
  · refine (silent_devChannels hR).bind fun chans => ?_
    cases k.streamSel a.selector with
    | none => exact silent_ret
    | some s => exact hstr chans s
  · exact silent_ret

/-- What the monitor reads in an iteration. -/
theorem silent_observe (l : Monitor) : Silent R (do
    if !(← rd fun m : World α => m.plug.gShm) then return (false, { l with haveLast := false })
    else
      let wf ← rd fun m => m.shm.writeFrames
      return l.observe wf) := by simp [hR.refl]

/-- The write head that `StartIO` anchors to. -/
theorem silent_head : Silent R (do
    if ← rd fun m : World α => m.plug.gShm then rd fun m => m.shm.writeFrames
    else return 0) := by simp [hR.refl]

/-- The end of `StartIO`. -/
theorem silent_counted : Silent R (do
    wrPlug (α := α) fun p => { p with gIORunning := p.gIORunning + 1 }
    release
    return (.ok () : Except HalError Unit)) :=
  (silent_wrPlug hR fun p => by simp).bind fun _ => silent_release.bind fun _ => silent_ret

end

/-! ## The read cursor -/

theorem silent_cursorSection {R : World α → World α → Prop} (hrefl : ∀ m, R m m)
    (hcursor : ∀ m c, R m { m with plug := { m.plug with cursor := c } }) (n : UInt32)
    (cycle w : UInt64) : Silent R (cursorSection n cycle w) := by
  have hmargin : Silent R (readMargin (α := α)) := by simp [readMargin, hrefl]
  have hmove (margin : UInt32) : Silent R (wrPlug (α := α) fun p =>
      { p with cursor := p.cursor.move n margin cycle w }) := silent_wr.mpr fun m => hcursor m _
  have hend (first : Bool) : Silent R (do
      let rf ← rd fun m : World α => m.plug.cursor.gCycleReadFrame
      release
      return (rf, first)) := by simp [hrefl]
  refine silent_acquire.bind fun _ => (silent_rd.mpr hrefl).bind fun first => ?_
  refine silent_ite.mpr ⟨fun _ => ?_, fun _ => hend first⟩
  exact hmargin.bind fun margin => (hmove margin).bind fun _ => hend first

theorem silent_doIOOperation [Pcm α] {R : World α → World α → Prop} (hR : Bookkeeping R)
    (hcursor : ∀ m c, R m { m with plug := { m.plug with cursor := c } })
    (readInput outNull : Bool) (n : UInt32) (cycle : UInt64) :
    Silent R (doIOOperation (α := α) readInput outNull n cycle) := by
  have hcopy (ch : Nat) (w rf : UInt64) : Silent R (copyFrames (α := α) ch w rf n.toNat 0) :=
    (plain_copyFrames hR.refl ch w rf n.toNat 0).silent
  refine silent_ite.mpr ⟨fun _ => silent_ret, fun _ => ?_⟩
  refine silent_ite.mpr ⟨fun _ => silent_ret, fun _ => ?_⟩
  refine (silent_devChannels hR).bind fun ch => (silent_load hR _).bind fun attached => ?_
  refine silent_ite.mpr ⟨fun _ => silent_ret, fun _ => ?_⟩
  exact (silent_load hR _).bind fun w =>
    (silent_cursorSection hR.refl hcursor n cycle w).bind fun r =>
      (hcopy ch.toNat w r.1).bind fun writes => silent_ret

/-! ## Programs that attach -/

section

variable {R : World α → World α → Prop} (hR : Attaching R)
include hR

theorem silent_attachShm (sys : Sys) : Silent R (attachShm (α := α) sys) := by
  simp [attachShm, wrPlug, hR.refl, hR.attach]

theorem silent_line6Initialize {host : Bool}
    (hhost : ∀ m, R m { m with plug := { m.plug with gHost := host } }) (known : Bool)
    (tb : Timebase) (sys : Sys) : Silent R (line6Initialize (α := α) known host tb sys) := by
  have hbook {f : Plugin → Plugin} (hf : ∀ p, (f p).gShm = p.gShm ∧ (f p).gHost = p.gHost ∧
      (f p).gDevicePresent = p.gDevicePresent ∧ (f p).cursor = p.cursor) :
      Silent R (wrPlug (α := α) f) := silent_wrPlug hR.toBookkeeping hf
  have hstore : Silent R (wrPlug (α := α) fun p => { p with gHost := host }) := silent_wr.mpr hhost
  refine silent_ite.mpr ⟨fun _ => silent_ret, fun _ => ?_⟩
  refine hstore.bind fun _ => (hbook fun p => by simp).bind fun _ => ?_
  exact (silent_attachShm hR sys).bind fun _ => (hbook fun p => by simp).bind fun _ => silent_ret

theorem silent_startIo (hcursor : ∀ m c, R m { m with plug := { m.plug with cursor := c } })
    (known : Bool) (sys : Sys) (now : UInt64) :
    Silent R (startIo (α := α) known sys now) := by
  have hanchor (c : Cursor) : Silent R (wrPlug (α := α) fun p => { p with cursor := c }) :=
    silent_wr.mpr fun m => hcursor m c
  have hend := silent_counted hR.toBookkeeping
  refine silent_ite.mpr ⟨fun _ => silent_ret, fun _ => ?_⟩
  refine silent_acquire.bind fun _ => (silent_load hR.toBookkeeping _).bind fun running => ?_
  dsimp only
  by_cases hidle : (running == 0) = true
  · rw [if_pos hidle]
    refine (silent_attachShm hR sys).bind fun _ => ?_
    refine Silent.bind (silent_wrPlug hR.toBookkeeping fun p => by simp) fun _ => ?_
    exact (silent_head hR.toBookkeeping).bind fun w₀ =>
      (hanchor ⟨w₀, w₀, 0 - 1⟩).bind fun _ => hend
  · rw [if_neg hidle]
    exact hend

/-- **Every entry point** is silent, and within a relation that allows what it stores. -/
theorem silent_hostCall [Pcm α] {e : Entry}
    (hhost : ∀ known host tb sys, e = .setUp known host tb sys →
      ∀ m, R m { m with plug := { m.plug with gHost := host } })
    (hcursor : e.MovesCursor → ∀ m c, R m { m with plug := { m.plug with cursor := c } })
    {x : Prog (World α) (Local α)} (h : startHost e = some x) : Silent R x := by
  have hbook := hR.toBookkeeping
  have hfinish {β : Type} {x : Prog (World α) β} (hx : Silent R x) : Silent R (finish x) :=
    hx.bind fun _ => silent_ret
  cases e <;> cases h
  case queryInterface => exact hfinish (silent_queryInterface hbook _ _ _)
  case addRef => exact hfinish (silent_addRef hbook _)
  case release => exact hfinish (silent_line6Release hbook _)
  case setUp => exact hfinish (silent_line6Initialize hR (hhost _ _ _ _ rfl) _ _ _)
  case getPropertyDataSize =>
    exact (silent_getPropertyDataSize hbook _ _ _).bind fun _ => silent_ret
  case getPropertyData =>
    exact (silent_getPropertyData hbook _ _ _ _ _ _).bind fun _ => silent_ret
  case startIo => exact hfinish (silent_startIo hR (hcursor trivial) _ _ _)
  case stopIo => exact hfinish (silent_stopIo hbook _)
  case getZeroTimeStamp => exact hfinish (silent_getZeroTimeStamp hbook _ _)
  case doIo => exact (silent_doIOOperation hbook (hcursor trivial) _ _ _ _).bind fun _ => silent_ret

/-- The monitor exchanges the presence flag, and may call out. -/
theorem keeps_monitorCall {e : Entry} (hpresent : (∃ sys, e = .poll sys) →
      ∀ m b, R m { m with plug := { m.plug with gDevicePresent := b } })
    {b : Local α} {x : Prog (World α) (Local α)} (h : startMonitor e b = some x) : Keeps R x := by
  have hbook := hR.toBookkeeping
  have hnotify : Keeps R (notifyDeviceList (α := α)) := by
    refine (silent_load hbook _).keeps.bind fun host => ?_
    split_ifs <;> trivial
  have hpoll (sys : Sys) (l : Monitor) (he : e = .poll sys) :
      Keeps R (presencePoll (α := α) sys l) := by
    refine (silent_attachShm hR sys).keeps.bind fun _ => ?_
    refine (silent_observe hbook l).keeps.bind fun r => ?_
    refine Keeps.bind (fun m => ⟨hpresent ⟨sys, he⟩ m _, trivial⟩) fun prev => ?_
    dsimp only
    split_ifs
    · exact hnotify.bind fun _ => trivial
    · trivial
  have hmonitor (sys : Sys) (l : Monitor) (he : e = .poll sys) :
      Keeps R (presenceMonitor (α := α) sys l) := by
    refine (silent_load hbook _).keeps.bind fun run => ?_
    split_ifs
    · exact (hpoll sys l he).bind fun _ => trivial
    · trivial
  unfold startMonitor at h
  split at h <;> cases h
  · exact (hmonitor _ _ rfl).bind fun _ => trivial
  · exact (hmonitor _ _ rfl).bind fun _ => trivial

end

/-! ## All calls -/

/-- **Every call of a host thread** is within its effect and silent. -/
theorem silent_startHost [Pcm α] {e : Entry} {x : Prog (World α) (Local α)}
    (h : startHost e = some x) : Silent e.Effect x := by
  refine silent_hostCall (attaching_effect e) ?_ ?_ h
  · exact fun known host tb sys he _ => ⟨id, .inr ⟨known, tb, sys, he⟩, .inl rfl, .inl rfl⟩
  · exact fun hmoves _ _ => ⟨id, .inl rfl, .inl rfl, .inr hmoves⟩

theorem silent_startDaemon [Pcm α] {e : Entry} {b : Local α} {x : Prog (World α) (Local α)}
    (h : startDaemon e b = some x) : Silent e.Effect x := by
  have hsame (m m' : World α) (h : SamePlugin m m') : e.Effect m m' := by
    have hplug : m'.plug = m.plug := h
    exact ⟨fun hshm => hplug ▸ hshm, .inl (hplug ▸ rfl), .inl (hplug ▸ rfl), .inl (hplug ▸ rfl)⟩
  unfold startDaemon at h
  split at h
  · cases h
    refine (((plain_create _ _ _).silent).mono hsame).bind fun r => ?_
    cases r <;> exact silent_ret
  · cases h
    exact (((plain_pushFrames _ _).silent).mono hsame).bind fun _ => silent_ret
  · cases h

theorem keeps_startMonitor {e : Entry} {b : Local α} {x : Prog (World α) (Local α)}
    (h : startMonitor e b = some x) : Keeps e.Effect x :=
  keeps_monitorCall (attaching_effect e)
    (fun hpoll _ _ => ⟨id, .inl rfl, .inr hpoll, .inl rfl⟩) h

/-- **Every call is within its effect.** -/
theorem keeps_start [Pcm α] {t : Tid} {e : Entry} {b : Local α} {x : Prog (World α) (Local α)}
    (h : start t e b = some x) : Keeps e.Effect x := by
  cases t with
  | daemon => exact (silent_startDaemon h).keeps
  | monitor => exact keeps_startMonitor h
  | host i => exact (silent_startHost h).keeps

theorem keeps_segment_host [Pcm α] {e : Entry} {x : Prog (World α) (Local α)}
    (h : startHost e = some x) : Keeps SameSegment x :=
  (silent_hostCall attaching_sameSegment (fun _ _ _ _ _ m => sameSegment_plug m _)
    (fun _ m _ => sameSegment_plug m _) h).keeps

theorem keeps_segment_monitor {e : Entry} {b : Local α} {x : Prog (World α) (Local α)}
    (h : startMonitor e b = some x) : Keeps SameSegment x :=
  keeps_monitorCall attaching_sameSegment (fun _ m _ => sameSegment_plug m _) h

/-! ## Runs -/

/-- Every thread is idle or within the effect of its call. -/
def System.Within (p : System α) : Prop :=
  ∀ t, (p.entry t = none ∧ ∃ b, p.thread t = .ret b) ∨
    ∃ e, p.entry t = some e ∧ Keeps e.Effect (p.thread t)

section

variable [Pcm α] {p q : System α} {a : Act Tid Entry}

/-- An action is within the effect of its thread's call. -/
theorem System.Within.tick (h : p.Within) {t : Tid} (hnext : p.next start (.tick t) = some q) :
    ∃ e, p.entry t = some e ∧ e.Effect p.shared q.shared := by
  have hstep := step_of_next hnext
  rcases h t with ⟨-, b, hret⟩ | ⟨e, he, hk⟩
  · exact absurd hret hstep.not_tick
  · exact ⟨e, he, (keeps_tick (fun m => (aside_refl m).effect e) hstep hk).1⟩

theorem System.Within.step (h : p.Within) (hnext : p.next start a = some q) : q.Within := by
  have hstep := step_of_next hnext
  intro t
  by_cases ht : a.by = t
  · subst ht
    cases a with
    | call t e =>
      cases hstep with
      | @call _ _ b k hret hk =>
        refine .inr ⟨e, begin_entry .., ?_⟩
        rw [Act.by_call, begin_thread]
        exact keeps_start hk
    | tick t =>
      rcases h t with ⟨-, b, hret⟩ | ⟨e, he, hk⟩
      · exact absurd hret hstep.not_tick
      · have hentry : q.entry t = p.entry t := by cases hstep <;> rfl
        exact .inr ⟨e, hentry.trans he, (keeps_tick (fun m => (aside_refl m).effect e) hstep hk).2⟩
  · obtain ⟨hthread, hentry, -, -⟩ := hstep.other ht
    rw [hthread, hentry]
    exact h t

theorem system_within {ok : System α → Act Tid Entry → Prop} {m : World α}
    {as : List (Act Tid Entry)} (hrun : Run start ok (System.init m) as p) : p.Within := by
  induction hrun with
  | refl => exact fun t => .inl ⟨rfl, _, rfl⟩
  | tail _ _ hnext ih => exact ih.step hnext

end

end Line6
