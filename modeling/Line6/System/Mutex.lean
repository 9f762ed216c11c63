import Line6.Lib.Turns
import Line6.Plugin.Name
import Line6.System.Lock

/-!
# What `gMutex` protects

The reference count, the number of IO clients, the timeline, the read cursor and the name cache are
changed only by the thread that holds `gMutex` (`Guarded`; of the strings the texts, since clients
drop references without it). So whatever the interleaving of the daemon, the monitor and the host's
threads, the calls take turns with them.

The host's threads ask for the entry points and the factory and get the answers (`Answer`), and
drop references to names they were given. `ask` is `start` but for that (`ask_erases`).
`Initialize` stores the clock's rate without the mutex; `K` are the rates of a run (`Clocked`).

* `takes_sealed`, `takes_free`: most calls leave the guarded globals alone.
* `takes_ask`: every call changes them in one turn at most, as `LegalTurn` says.
* `mutex_serializes`: the turns of every run, and the answers of the calls.
-/

namespace Line6

open Conc Conc.Prog Conc.Pool

variable {α : Type}

/-! ## Guarded globals -/

/-- The globals that `gMutex` protects. -/
structure Guarded where
  gRefCount : UInt32
  gIORunning : UInt64
  gAnchorHostTime : UInt64
  gNumberTimeStamps : UInt64
  cursor : Cursor
  gCachedName : Option Nat
  gCachedNameStr : Vector UInt8 nameLen
  texts : List (List UInt8)
  deriving Repr, DecidableEq

def World.guarded (m : World α) : Guarded where
  gRefCount := m.plug.gRefCount
  gIORunning := m.plug.gIORunning
  gAnchorHostTime := m.plug.gAnchorHostTime
  gNumberTimeStamps := m.plug.gNumberTimeStamps
  cursor := m.plug.cursor
  gCachedName := m.plug.gCachedName
  gCachedNameStr := m.plug.gCachedNameStr
  texts := m.plug.strings.map CFString.text

/-- The cursor section of a call of cycle `cycle`. -/
def Guarded.read (v : Guarded) (inFrames margin : UInt32) (cycle w : UInt64) : Guarded :=
  if v.cursor.gLastCycle = cycle then v
  else { v with cursor := v.cursor.move inFrames margin cycle w }

/-- Nothing is cached, or another name. -/
def Guarded.nameStale (v : Guarded) (buf : List UInt8) : Bool :=
  v.gCachedName.isNone || buf != cString v.gCachedNameStr.toList

/-- The name section of a call that found the name `buf`. -/
def Guarded.named (v : Guarded) (buf : List UInt8) : Guarded :=
  if v.nameStale buf then
    { v with
      gCachedName := some v.texts.length
      gCachedNameStr := strncpyName v.gCachedNameStr buf
      texts := v.texts ++ [buf] }
  else v

/-! ## Calls and their answers -/

/-- What a host thread does: it calls an entry point or the factory, or drops a reference to a
name. -/
inductive Call where
  | entry (e : Entry)
  | line6Create (supported : Bool)
  | cfRelease (i : Nat)

/-- What a call returns to its caller. -/
inductive Answer (α : Type) where
  | kept (b : Local α)
  | driver (given : Bool)
  | hresult (r : HResult)
  | count (r : UInt32)
  | status (r : Except HalError Unit)
  | stamp (r : Except HalError (UInt64 × UInt64 × UInt64))

/-- What the pool of `start` keeps of an answer. -/
def Answer.toLocal : Answer α → Local α
  | .kept b => b
  | _ => .returned

/-- The entry points whose answers `start` drops. -/
def answering : Entry → Option (Prog (World α) (Answer α))
  | .queryInterface known outNull supported => some do
    return .hresult (← queryInterface known outNull supported)
  | .addRef known => some do return .count (← addRef known)
  | .release known => some do return .count (← line6Release known)
  | .setUp known host tb sys => some do return .status (← line6Initialize known host tb sys)
  | .startIo known sys now => some do return .status (← startIo known sys now)
  | .stopIo known => some do return .status (← stopIo known)
  | .getZeroTimeStamp known now => some do return .stamp (← getZeroTimeStamp known now)
  | _ => none

/-- The call returns what `start` keeps of it. -/
def kept (x : Option (Prog (World α) (Local α))) : Option (Prog (World α) (Answer α)) :=
  x.map fun x => x >>= fun b => ret (.kept b)

/-- The program of a call, with its answer. -/
def ask [Pcm α] : Tid → Call → Answer α → Option (Prog (World α) (Answer α))
  | .host i, .entry e, b => (answering e).or (kept (start (.host i) e b.toLocal))
  | .host _, .line6Create supported, _ => some do return .driver (← line6Create supported)
  | .host _, .cfRelease i, _ => some do
    wrPlug fun p => p.cfRelease i
    return .kept .returned
  | t, .entry e, b => kept (start t e b.toLocal)
  | _, _, _ => none

/-- Drop the answer. -/
def dropAnswer (x : Prog (World α) (Answer α)) : Prog (World α) (Local α) :=
  x >>= fun b => ret b.toLocal

theorem bind_ret (x : Prog (World α) (Local α)) : x >>= (fun b => ret b) = x := by
  induction x with
  | ret b => rfl
  | access f k ih => exact congrArg (access f) (funext ih)
  | lock k ih => exact congrArg lock ih
  | unlock k ih => exact congrArg unlock ih
  | callout k ih => exact congrArg callout ih
  | trap => rfl

theorem drop_kept (x : Option (Prog (World α) (Local α))) : (kept x).map dropAnswer = x := by
  cases x with
  | none => rfl
  | some x => exact congrArg some ((Prog.bind_assoc ..).trans (bind_ret x))

theorem answering_start [Pcm α] {e : Entry} {x : Prog (World α) (Answer α)}
    (h : answering e = some x) : startHost e = some (dropAnswer x) := by
  have hfinish {β : Type} (x : Prog (World α) β) {f : β → Answer α}
      (hf : ∀ b, (f b).toLocal = .returned) :
      finish x = dropAnswer (x >>= fun b => ret (f b)) := by
    unfold finish dropAnswer
    rw [Prog.bind_assoc]
    simp only [ret_bind, hf]
  cases e <;> cases h <;> exact congrArg some (hfinish _ fun _ => rfl)

/-- **Without the answers, `ask` is `start`.** -/
theorem ask_erases [Pcm α] (t : Tid) (e : Entry) (b : Answer α) :
    (ask t (.entry e) b).map dropAnswer = start t e b.toLocal := by
  cases t with
  | daemon => exact drop_kept _
  | monitor => exact drop_kept _
  | host i =>
    show ((answering e).or _).map _ = _
    cases hx : answering (α := α) e with
    | none => exact drop_kept _
    | some x => exact (answering_start hx).symm

/-! ## Calls that leave the guarded globals alone -/

section

variable (K : ℚ → Prop)

/-- The clock's rate stays one of `K`, and the guarded globals are as they were. -/
def Untouched (m m' : World α) : Prop :=
  K m.plug.gHostTicksPerFrame → K m'.plug.gHostTicksPerFrame ∧ m'.guarded = m.guarded

variable {K}

@[simp] theorem untouched_refl (m : World α) : Untouched K m m := fun h => ⟨h, rfl⟩

theorem untouched_samePlugin {m m' : World α} (h : SamePlugin m m') : Untouched K m m' := by
  have hplug : m'.plug = m.plug := h
  unfold Untouched World.guarded
  rw [hplug]
  exact fun h => ⟨h, rfl⟩

theorem sealed_attachShm (sys : Sys) : Sealed (Untouched K) .before (attachShm (α := α) sys) := by
  simp [attachShm, wrPlug, Untouched, World.guarded]

theorem plain_devChannels : Plain (Untouched K) (devChannels (α := α)) := by
  refine (plain_rd untouched_refl _).bind fun attached => ?_
  split_ifs
  · exact (plain_rd untouched_refl _).bind fun _ => trivial
  · trivial

theorem sealed_getPropertyDataSize (k : Sdk) (obj : UInt32) (a : Address) :
    Sealed (Untouched K) .after (getPropertyDataSize (α := α) k obj a) := by
  have hplug (s : PlugInSel) : Sealed (Untouched K) .after (plugInDataSize (α := α) s) := by
    cases s <;> simp [plugInDataSize]
  have hdev (s : DeviceSel) :
      Sealed (Untouched K) .after (deviceDataSize (α := α) k a.scope s) := by
    cases s <;> simp [deviceDataSize]
  have hstr (s : StreamSel) : Sealed (Untouched K) .after (streamDataSize (α := α) s) := by
    cases s <;> simp [streamDataSize]
  unfold getPropertyDataSize
  cases k.plugInSel a.selector <;> cases k.deviceSel a.selector <;>
    cases k.streamSel a.selector <;> simp [hplug, hdev, hstr]

/-- The queries other than that for the device's name. -/
theorem sealed_deviceData (k : Sdk) (cf : Cf) (scope inSize : UInt32) {s : DeviceSel}
    (hs : s ≠ .name) : Sealed (Untouched K) .after (deviceData (α := α) k cf scope inSize s) := by
  cases s with
  | name => exact absurd rfl hs
  | streamConfiguration =>
    exact sealed_ite.mpr ⟨fun _ => sealed_after _, fun _ =>
      plain_devChannels.sealed_bind fun _ => sealed_after _⟩
  | _ => simp [deviceData]

theorem sealed_plugInData (k : Sdk) (q : Qualifier) (inSize : UInt32) (s : PlugInSel) :
    Sealed (Untouched K) .after (plugInData (α := α) k q inSize s) := by
  cases s <;> simp [plugInData]

theorem sealed_streamData (k : Sdk) (chans : UInt32) (s : StreamSel) :
    Sealed (Untouched K) .after (streamData (α := α) k chans s) := by
  cases s <;> simp [streamData]

theorem sealed_line6Initialize (known host : Bool) {tb : Timebase} (sys : Sys)
    (htb : K tb.ticksPerFrame) :
    Sealed (Untouched K) .before (line6Initialize (α := α) known host tb sys) := by
  have hwr {f : Plugin → Plugin} (hf : ∀ m : World α, Untouched K m { m with plug := f m.plug }) :
      Plain (Untouched K) (wrPlug (α := α) f) := plain_wr hf
  have hhost : Plain (Untouched K) (wrPlug (α := α) fun p => { p with gHost := host }) :=
    hwr fun m h => ⟨h, rfl⟩
  have hticks : Plain (Untouched K)
      (wrPlug (α := α) fun p => { p with gHostTicksPerFrame := tb.ticksPerFrame }) :=
    hwr fun m _ => ⟨htb, rfl⟩
  have hrun : Plain (Untouched K) (wrPlug (α := α) fun p => { p with gMonitorRun := true }) :=
    hwr fun m h => ⟨h, rfl⟩
  refine sealed_ite.mpr ⟨fun _ => sealed_before _, fun _ => ?_⟩
  refine hhost.sealed_bind fun _ => hticks.sealed_bind fun _ => ?_
  exact (sealed_attachShm sys).bind fun _ => hrun.sealed_bind fun _ => sealed_after _

/-- The monitor's iteration after its sleep. -/
theorem sealed_presencePoll (sys : Sys) (l : Monitor) :
    Sealed (Untouched K) .before (presencePoll (α := α) sys l) := by
  have hread : Plain (Untouched K) (do
      if !(← rd fun m : World α => m.plug.gShm) then
        return (false, { l with haveLast := false })
      else
        let wf ← rd fun m => m.shm.writeFrames
        return l.observe wf) := by
    refine (plain_rd untouched_refl _).bind fun attached => ?_
    split_ifs
    · trivial
    · exact (plain_rd untouched_refl _).bind fun _ => trivial
  have hnotify : Sealed (Untouched K) .after (notifyDeviceList (α := α)) := by
    simp [notifyDeviceList]
  have hend (present : Bool) (l : Monitor) : Sealed (Untouched K) .after (do
      if present then notifyDeviceList (α := α)
      return l) := by
    cases present with
    | false => exact sealed_after _
    | true => exact hnotify.bind fun _ => sealed_after _
  refine (sealed_attachShm sys).bind fun _ => hread.sealed_bind fun r => ?_
  exact fun m => ⟨fun h => ⟨h, rfl⟩, hend (m.plug.gDevicePresent != r.1) r.2⟩

theorem sealed_presenceMonitor (sys : Sys) (l : Monitor) :
    Sealed (Untouched K) .before (presenceMonitor (α := α) sys l) := by
  refine (plain_rd untouched_refl _).sealed_bind fun run => ?_
  split_ifs
  · exact (sealed_presencePoll sys l).bind fun _ => sealed_after _
  · exact sealed_before _

theorem sealed_startDaemon [Pcm α] {e : Entry} {b : Local α} {x : Prog (World α) (Local α)}
    (h : startDaemon e b = some x) : Sealed (Untouched K) .after x := by
  unfold startDaemon at h
  split at h
  · cases h
    refine Plain.sealed_bind ((plain_create _ _ _).mono fun _ _ => untouched_samePlugin) fun r => ?_
    cases r <;> exact sealed_after _
  · cases h
    exact Plain.sealed_bind ((plain_pushFrames _ _).mono fun _ _ => untouched_samePlugin)
      fun _ => sealed_after _
  · cases h

end

/-! ## Turns -/

/-- The entry points that do all they do in their turn. -/
def Entry.Atomic : Entry → Prop
  | .queryInterface .. => True
  | .addRef .. => True
  | .release .. => True
  | .startIo .. => True
  | .stopIo .. => True
  | .getZeroTimeStamp .. => True
  | _ => False

/-- Those of them that take a turn: the driver is ours, and there is something to do. -/
def Entry.locks : Entry → Bool
  | .queryInterface known outNull supported => known && !outNull && supported
  | .addRef known | .release known | .startIo known _ _ | .stopIo known
  | .getZeroTimeStamp known _ => known
  | _ => false

theorem atomic_of_locks {e : Entry} (h : e.locks = true) : e.Atomic := by
  cases e <;> trivial

/-- The calls that take a turn to attach, and for nothing else. -/
def Entry.Attaches : Entry → Prop
  | .setUp .. => True
  | .poll .. => True
  | _ => False

/-- The program, run alone in some world with a rate of `K`, returns `b`, and the guarded globals
are around it as they are around the turn, or unchanged if there was none. -/
def Alone (K : ℚ → Prop) (x : Prog (World α) (Answer α)) (turn : Option (Guarded × Guarded))
    (b : Answer α) : Prop :=
  ∃ m m', K m.plug.gHostTicksPerFrame ∧ exec x false m = .done false m' b ∧
    (turn = none ∧ m'.guarded = m.guarded ∨ turn = some (m.guarded, m'.guarded))

variable (α) in
/-- What a call may do in a turn: `AttachShm` changes nothing, an atomic call does what it does
alone, `DoIOOperation` moves the cursor for a head, and a name query renews the cache for a name, if
CoreFoundation takes it. No other call takes a turn. -/
inductive LegalTurn (K : ℚ → Prop) : Call → Guarded → Guarded → Prop
  | attach {e : Entry} {v : Guarded} (he : e.Attaches) : LegalTurn K (.entry e) v v
  | alone {e : Entry} {x : Prog (World α) (Answer α)} {b : Answer α} {v v' : Guarded}
      (he : e.Atomic) (hx : answering e = some x) (h : Alone K x (some (v, v')) b) :
      LegalTurn K (.entry e) v v'
  | read {n : UInt32} {cycle : UInt64} {v : Guarded} (margin : UInt32) (w : UInt64) :
      LegalTurn K (.entry (.doIo true false n cycle)) v (v.read n margin cycle w)
  | named {k : Sdk} {cf : Cf} {obj : UInt32} {a : Address} {q : Qualifier} {inSize : UInt32}
      {v : Guarded} (hasks : Asks k obj a .name) (name : Option (Vector UInt8 nameLen))
      (hcf : v.nameStale (nameBuf name) = true → cf.createUTF8 (nameBuf name) = true) :
      LegalTurn K (.entry (.getPropertyData k cf obj a q inSize)) v (v.named (nameBuf name))

/-- The clock has one rate. -/
def OneRate (K : ℚ → Prop) : Prop := ∀ r r', K r → K r' → r = r'

/-- What a call that has had `turn` may answer: an atomic call what it answers alone
(`GetZeroTimeStamp` reads the clock's rate twice), `DoIOOperation` the window its turn left for the
head it cuts it by, a name query the string its turn left in the cache. -/
structure MayAnswer (K : ℚ → Prop) (e : Entry) (turn : Option (Guarded × Guarded)) (b : Answer α) :
    Prop where
  turned : e.locks = true → turn.isSome = true
  alone : ∀ x, e.Atomic → (∀ known now, e = .getZeroTimeStamp known now → OneRate K) →
    answering e = some x → Alone K x turn b
  window : ∀ readInput outNull n cycle ch w rf first writes,
    e = .doIo readInput outNull n cycle → b = .kept (.io (.read ch w rf first writes)) →
      ∃ v margin, turn = some (v, v.read n margin cycle w) ∧
        (v.read n margin cycle w).cursor.gCycleReadFrame = rf ∧
        (first = true ↔ v.cursor.gLastCycle ≠ cycle)
  name : ∀ k cf obj a q inSize, e = .getPropertyData k cf obj a q inSize →
    Asks k obj a .name → ∃ v name i, turn = some (v, v.named (nameBuf name)) ∧
      (v.named (nameBuf name)).gCachedName = some i ∧
      b = .kept (.replied (.ok (replyString (.object i))))

/-- How a call returns. -/
def Answers (K : ℚ → Prop) : Call → Stage Guarded → Answer α → Prop
  | .entry e, st, b => ∃ turn, st = .out turn ∧ MayAnswer K e turn b
  | .line6Create supported, st, b => ∃ turn, st = .out turn ∧ b = .driver supported
  | .cfRelease _, st, _ => ∃ turn, st = .out turn

/-- The program of the call is orderly. -/
def Takes (K : ℚ → Prop) (call : Call) (x : Prog (World α) (Answer α)) : Prop :=
  Orderly World.guarded (fun m => K m.plug.gHostTicksPerFrame) (LegalTurn α K call)
    (Answers K call) (.out none) x

section

variable {K : ℚ → Prop}

/-- An atomic call may answer what it answers alone. -/
theorem answered_alone {e : Entry} {x : Prog (World α) (Answer α)} (hx : answering e = some x)
    {turn : Option (Guarded × Guarded)} {b : Answer α} (h : Alone K x turn b)
    (hturned : e.locks = true → turn.isSome = true) (hb : ∀ l, b ≠ .kept l) :
    Answers K (.entry e) (.out turn) b := by
  refine ⟨turn, rfl, hturned, fun y _ _ hy => ?_,
    fun _ _ _ _ _ _ _ _ _ _ hb' => absurd hb' (hb _), ?_⟩
  · obtain rfl : x = y := Option.some.inj (hx.symm.trans hy)
    exact h
  · rintro k cf obj a q inSize rfl
    cases hx

/-- The end of an atomic call's turn. -/
theorem atomic_leaves {e : Entry} (he : e.Atomic) {x : Prog (World α) (Answer α)}
    (hx : answering e = some x) {m m' : World α} {b : Answer α}
    (hm : K m.plug.gHostTicksPerFrame) (hexec : exec x false m = .done false m' b)
    (hb : ∀ l, b ≠ .kept l) : LegalTurn α K (.entry e) m.guarded m'.guarded ∧
      Answers K (.entry e) (.out (some (m.guarded, m'.guarded))) b := by
  have halone : Alone K x (some (m.guarded, m'.guarded)) b := ⟨m, m', hm, hexec, .inr rfl⟩
  exact ⟨.alone he hx halone, answered_alone hx halone (fun _ => rfl) hb⟩

/-- A world in which the clock has a given rate. -/
def ticking [Pcm α] (c : ℚ) : World α where
  linked := false
  shm := Shm.zero
  plug := { gHostTicksPerFrame := c }

/-- A call that is not for us answers without a turn. -/
theorem alone_unknown [Pcm α] (hK : ∃ c, K c) {x : Prog (World α) (Answer α)} {b : Answer α}
    (h : ∀ m, exec x false m = .done false m b) : Alone K x none b := by
  obtain ⟨c, hc⟩ := hK
  exact ⟨ticking c, ticking c, hc, h _, .inl ⟨rfl, rfl⟩⟩

variable [Pcm α] {x : Prog (World α) (Answer α)}

theorem takes_addRef (hK : ∃ c, K c) {known : Bool} (hx : answering (.addRef known) = some x) :
    Takes K (.entry (.addRef known)) x := by
  cases known with
  | false =>
    cases hx
    exact answered_alone (e := .addRef false) rfl (alone_unknown hK fun m => rfl) nofun nofun
  | true =>
    cases hx
    rintro _ m hm rfl
    refine ⟨hm, fun m₂ hm₂ hv₂ => ⟨hm₂, ?_⟩⟩
    have hcount : m₂.plug.gRefCount = m.plug.gRefCount + 1 := congrArg Guarded.gRefCount hv₂
    show LegalTurn α K _ m.guarded m₂.guarded ∧
      Answers K _ (.out (some (m.guarded, m₂.guarded))) (.count m₂.plug.gRefCount)
    rw [hv₂, hcount]
    exact atomic_leaves (e := .addRef true) trivial rfl hm rfl nofun

theorem takes_release (hK : ∃ c, K c) {known : Bool} (hx : answering (.release known) = some x) :
    Takes K (.entry (.release known)) x := by
  cases known with
  | false =>
    cases hx
    exact answered_alone (e := .release false) rfl (alone_unknown hK fun m => rfl) nofun nofun
  | true =>
    cases hx
    rintro _ m hm rfl
    refine ⟨hm, fun m₂ hm₂ hv₂ => ⟨hm₂, ?_⟩⟩
    have hcount : m₂.plug.gRefCount = _ := congrArg Guarded.gRefCount hv₂
    show LegalTurn α K _ m.guarded m₂.guarded ∧
      Answers K _ (.out (some (m.guarded, m₂.guarded))) (.count m₂.plug.gRefCount)
    rw [hv₂, hcount]
    exact atomic_leaves (e := .release true) trivial rfl hm rfl nofun

theorem takes_queryInterface (hK : ∃ c, K c) {known outNull supported : Bool}
    (hx : answering (.queryInterface known outNull supported) = some x) :
    Takes K (.entry (.queryInterface known outNull supported)) x := by
  cases hx
  by_cases hturn : known = true ∧ outNull = false ∧ supported = true
  · obtain ⟨rfl, rfl, rfl⟩ := hturn
    rintro _ m hm rfl
    exact ⟨hm, atomic_leaves (e := .queryInterface true false true) trivial rfl hm rfl nofun⟩
  · have hnone (r : HResult) (hr : queryInterface (α := α) known outNull supported = ret r) :
        Takes K (.entry (.queryInterface known outNull supported))
          (queryInterface known outNull supported >>= fun r =>
            ret (Answer.hresult (α := α) r)) := by
      rw [hr]
      refine answered_alone (e := .queryInterface known outNull supported) rfl
        (alone_unknown hK fun m => ?_) (fun hlocks => absurd ?_ hturn) nofun
      · rw [hr]
        rfl
      · simpa [Entry.locks, and_assoc] using hlocks
    cases known <;> cases outNull <;> cases supported <;>
      first | exact hnone _ rfl | exact absurd ⟨rfl, rfl, rfl⟩ hturn

theorem takes_stopIo (hK : ∃ c, K c) {known : Bool} (hx : answering (.stopIo known) = some x) :
    Takes K (.entry (.stopIo known)) x := by
  cases known with
  | false =>
    cases hx
    exact answered_alone (e := .stopIo false) rfl (alone_unknown hK fun m => rfl) nofun nofun
  | true =>
    cases hx
    rintro _ m hm rfl
    exact ⟨hm, atomic_leaves (e := .stopIo true) trivial rfl hm rfl nofun⟩

theorem takes_getZeroTimeStamp (hK : ∃ c, K c) {known : Bool} {now : UInt64}
    (hx : answering (.getZeroTimeStamp known now) = some x) :
    Takes K (.entry (.getZeroTimeStamp known now)) x := by
  cases known with
  | false =>
    cases hx
    exact answered_alone (e := .getZeroTimeStamp false now) rfl (alone_unknown hK fun m => rfl)
      nofun nofun
  | true =>
    cases hx
    rintro _ m hm rfl
    have hticks : K (m.plug.tickTimeline now).gHostTicksPerFrame := by
      unfold Plugin.tickTimeline
      split_ifs <;> exact hm
    refine ⟨hticks, fun m₂ hm₂ hv₂ => ⟨hm₂, fun m₃ hm₃ hv₃ => ⟨hm₃, ?_⟩⟩⟩
    have hv : m₃.guarded = { m with plug := m.plug.tickTimeline now }.guarded := hv₃.trans hv₂
    have hstamps : m₂.plug.gNumberTimeStamps = (m.plug.tickTimeline now).gNumberTimeStamps :=
      congrArg Guarded.gNumberTimeStamps hv₂
    show LegalTurn α K _ m.guarded m₃.guarded ∧
      Answers K _ (.out (some (m.guarded, m₃.guarded)))
        (.stamp (.ok (m₂.plug.gNumberTimeStamps * kDeviceRingPeriod,
          m₃.plug.boundary m₂.plug.gNumberTimeStamps, 1)))
    rw [hv, hstamps]
    obtain ⟨hlegal, -⟩ := atomic_leaves (e := .getZeroTimeStamp true now) trivial rfl hm rfl nofun
    refine ⟨hlegal, _, rfl, fun _ => rfl, fun y _ hrate hy => ?_, fun _ _ _ _ _ _ _ _ _ he => ?_,
      fun _ _ _ _ _ _ he => ?_⟩
    · cases hy
      have hsame := hrate true now rfl _ _ hm₃ hticks
      have hboundary (n : UInt64) :
          m₃.plug.boundary n = (m.plug.tickTimeline now).boundary n := by
        unfold Plugin.boundary
        rw [hsame, show m₃.plug.gAnchorHostTime = _ from congrArg Guarded.gAnchorHostTime hv]
        rfl
      rw [hboundary]
      exact ⟨m, _, hm, rfl, .inr rfl⟩
    · cases he
    · cases he

/-- What `StartIO` does to the guarded globals, when it finds the write head at `w₀`. -/
def Guarded.started (v : Guarded) (now w₀ : UInt64) : Guarded :=
  if v.gIORunning = 0 then
    { v with
      gAnchorHostTime := now
      gNumberTimeStamps := 0
      cursor := ⟨w₀, w₀, 0 - 1⟩
      gIORunning := 1 }
  else { v with gIORunning := v.gIORunning + 1 }

omit [Pcm α] in
theorem guarded_startedIo (m : World α) (now : UInt64) :
    (m.startedIo now).guarded = m.guarded.started now m.shm.writeFrames := by
  by_cases hidle : m.plug.gIORunning = 0
  · simp [World.startedIo, Guarded.started, World.guarded, hidle]
  · simp [World.startedIo, Guarded.started, World.guarded, hidle]

omit [Pcm α] in
/-- `StartIO` does that alone, once the segment is attached and the write head there. -/
theorem startIo_leaves (sys : Sys) (now w₀ : UInt64) {m : World α}
    (hm : K m.plug.gHostTicksPerFrame) :
    LegalTurn α K (.entry (.startIo true sys now)) m.guarded (m.guarded.started now w₀) ∧
      Answers K (.entry (.startIo true sys now))
        (.out (some (m.guarded, m.guarded.started now w₀))) (Answer.status (α := α) (.ok ())) := by
  let m' : World α := { m with
    plug := { m.plug with gShm := true }, shm := { m.shm with writeFrames := w₀ } }
  have hexec : exec (startIo true sys now >>= fun r => ret (Answer.status (α := α) r)) false m' =
      .done false (m'.startedIo now) (.status (.ok ())) := by
    rw [exec_bind, exec_startIo, if_neg (by simp [m'])]
    rfl
  have hleaves := atomic_leaves (e := .startIo true sys now) trivial rfl (m := m') hm hexec nofun
  rwa [guarded_startedIo] at hleaves

omit [Pcm α] in
/-- `AttachShm`, called with the mutex held, returns as it was called, or never. -/
theorem orderly_attachShm_held (sys : Sys) {legal : Guarded → Guarded → Prop} (v₀ v : Guarded) :
    Orderly World.guarded (fun m : World α => K m.plug.gHostTicksPerFrame) legal
      (fun st _ => st = .inside v₀ v) (.inside v₀ v) (attachShm sys) := by
  rintro m hm rfl
  refine ⟨hm, ?_⟩
  show Orderly _ _ _ _ (.inside v₀ m.guarded) (if m.plug.gShm = true then ret () else _)
  by_cases hattached : m.plug.gShm = true
  · rw [if_pos hattached]
    rfl
  · rw [if_neg hattached]
    trivial

omit [Pcm α] in
/-- The read of the write head in `StartIO`. -/
theorem orderly_head {legal : Guarded → Guarded → Prop} (v₀ v : Guarded) :
    Orderly World.guarded (fun m : World α => K m.plug.gHostTicksPerFrame) legal
      (fun st (_ : UInt64) => st = .inside v₀ v) (.inside v₀ v)
      (do if ← rd fun m => m.plug.gShm then rd fun m => m.shm.writeFrames else return 0) := by
  rintro m hm rfl
  refine ⟨hm, ?_⟩
  show Orderly _ _ _ _ (.inside v₀ m.guarded)
    (if m.plug.gShm = true then rd fun m : World α => m.shm.writeFrames else ret 0)
  by_cases hattached : m.plug.gShm = true
  · rw [if_pos hattached]
    exact fun m' hm' hv' => ⟨hm', congrArg (Stage.inside v₀) hv'⟩
  · rw [if_neg hattached]
    rfl

theorem takes_startIo (hK : ∃ c, K c) {known : Bool} {sys : Sys} {now : UInt64}
    (hx : answering (.startIo known sys now) = some x) :
    Takes K (.entry (.startIo known sys now)) x := by
  cases known with
  | false =>
    cases hx
    exact answered_alone (e := .startIo false sys now) rfl (alone_unknown hK fun m => rfl)
      nofun nofun
  | true =>
    cases hx
    refine Orderly.bind ?_
    rintro _ m hm rfl
    refine ⟨hm, ?_⟩
    show Orderly _ _ _ _ (.inside m.guarded m.guarded)
      (if (m.plug.gIORunning == 0) = true then _ else _)
    split_ifs with h0
    · have hidle : m.guarded.gIORunning = 0 := eq_of_beq h0
      refine Orderly.bind ((orderly_attachShm_held sys _ _).mono ?_)
      rintro st - rfl m₁ hm₁ hv₁
      refine ⟨hm₁, Orderly.bind (x := do
        if ← rd fun m : World α => m.plug.gShm then rd fun m => m.shm.writeFrames
        else return 0) ((orderly_head _ _).mono ?_)⟩
      rintro st w₀ rfl m₂ hm₂ hv₂
      refine ⟨hm₂, fun m₃ hm₃ hv₃ => ?_⟩
      have hleaves := startIo_leaves sys now w₀ hm
      have hanchored : m₂.guarded =
          { m.guarded with gAnchorHostTime := now, gNumberTimeStamps := 0 } := by
        rw [hv₂, ← hv₁]
        rfl
      have hafter : m.guarded.started now w₀ =
          { m₃ with plug := { m₃.plug with gIORunning := m₃.plug.gIORunning + 1 } }.guarded := by
        show _ = { m₃.guarded with gIORunning := m₃.guarded.gIORunning + 1 }
        rw [hv₃]
        show _ = { m₂.guarded with
          cursor := ⟨w₀, w₀, 0 - 1⟩, gIORunning := m₂.guarded.gIORunning + 1 }
        rw [hanchored]
        unfold Guarded.started
        rw [if_pos hidle]
        simp [hidle]
      rw [hafter] at hleaves
      exact ⟨hm₃, hleaves⟩
    · have hruns : m.guarded.gIORunning ≠ 0 := fun h => h0 (beq_iff_eq.mpr h)
      intro m₁ hm₁ hv₁
      have hleaves := startIo_leaves sys now 0 hm
      have hafter : m.guarded.started now 0 =
          { m₁ with plug := { m₁.plug with gIORunning := m₁.plug.gIORunning + 1 } }.guarded := by
        unfold Guarded.started
        rw [if_neg hruns, ← hv₁]
        rfl
      rw [hafter] at hleaves
      exact ⟨hm₁, hleaves⟩

omit [Pcm α] in
theorem untouched_keeps (m m' : World α) (h : Untouched K m m')
    (hm : K m.plug.gHostTicksPerFrame) :
    K m'.plug.gHostTicksPerFrame ∧ m'.guarded = m.guarded := h hm

omit [Pcm α] in
/-- A call that has nothing to answer about the guarded globals. -/
theorem answered_free {e : Entry} (hatomic : ¬ e.Atomic)
    (hwindow : ∀ readInput outNull n cycle, e ≠ .doIo readInput outNull n cycle)
    (hname : ∀ k cf obj a q inSize, e = .getPropertyData k cf obj a q inSize →
      ¬ Asks k obj a .name) {turn : Option (Guarded × Guarded)} {b : Answer α} :
    Answers K (.entry e) (.out turn) b :=
  ⟨turn, rfl, fun he => absurd (atomic_of_locks he) hatomic, fun _ he => absurd he hatomic,
    fun _ _ _ _ _ _ _ _ _ he => absurd he (hwindow _ _ _ _),
    fun _ _ _ _ _ _ he ha => absurd ha (hname _ _ _ _ _ _ he)⟩

omit [Pcm α] in
/-- A call that attaches, and leaves the guarded globals alone. -/
theorem takes_sealed {e : Entry} (he : e.Attaches) (hx : Sealed (Untouched K) .before x) :
    Takes K (.entry e) x := by
  have hsame (v : Guarded) : LegalTurn α K (.entry e) v v := .attach he
  refine (hx.orderly untouched_keeps hsame).mono fun st b hst => ?_
  cases st with
  | inside v₀ v => exact hst.elim
  | out turn =>
    cases e with
    | setUp known host tb sys => exact answered_free (e := .setUp known host tb sys) id nofun nofun
    | poll sys => exact answered_free (e := .poll sys) id nofun nofun
    | _ => exact absurd he id

omit [Pcm α] in
/-- A call that never takes the mutex. -/
theorem takes_free {e : Entry} (hatomic : ¬ e.Atomic)
    (hwindow : ∀ readInput outNull n cycle, e ≠ .doIo readInput outNull n cycle)
    (hname : ∀ k cf obj a q inSize, e = .getPropertyData k cf obj a q inSize →
      ¬ Asks k obj a .name) (hx : Sealed (Untouched K) .after x) : Takes K (.entry e) x := by
  refine (hx.turnless untouched_keeps).mono fun st b hst => ?_
  rw [hst]
  exact answered_free hatomic hwindow hname

/-! ### DoIOOperation -/

omit [Pcm α] in
theorem orderly_readMargin {legal : Guarded → Guarded → Prop} (v₀ v : Guarded) :
    Orderly World.guarded (fun m : World α => K m.plug.gHostTicksPerFrame) legal
      (fun st _ => st = .inside v₀ v) (.inside v₀ v) readMargin := by
  rintro m hm rfl
  refine ⟨hm, ?_⟩
  show Orderly _ _ _ _ (.inside v₀ m.guarded)
    (if (m.shm.latencyFrames != 0) = true then rd fun m : World α => m.shm.latencyFrames
      else ret kDefaultMargin)
  by_cases hzero : (m.shm.latencyFrames != 0) = true
  · rw [if_pos hzero]
    exact fun m' hm' hv' => ⟨hm', congrArg (Stage.inside v₀) hv'⟩
  · rw [if_neg hzero]
    rfl

omit [Pcm α] in
/-- The end of the cursor section. -/
theorem cursor_leaves {n margin : UInt32} {cycle w : UInt64} {v v' : Guarded} {first : Bool}
    (hread : v.read n margin cycle w = v') (hfirst : first = true ↔ v.cursor.gLastCycle ≠ cycle) :
    LegalTurn α K (.entry (.doIo true false n cycle)) v v' ∧ ∃ u margin,
      Stage.out (some (v, v')) = .out (some (u, u.read n margin cycle w)) ∧
      (u.read n margin cycle w).cursor.gCycleReadFrame = v'.cursor.gCycleReadFrame ∧
      (first = true ↔ u.cursor.gLastCycle ≠ cycle) := by
  subst hread
  exact ⟨.read margin w, v, margin, rfl, rfl, hfirst⟩

omit [Pcm α] in
theorem orderly_cursorSection (n : UInt32) (cycle w : UInt64) :
    Orderly World.guarded (fun m : World α => K m.plug.gHostTicksPerFrame)
      (LegalTurn α K (.entry (.doIo true false n cycle)))
      (fun st r => ∃ v margin, st = .out (some (v, v.read n margin cycle w)) ∧
        (v.read n margin cycle w).cursor.gCycleReadFrame = r.1 ∧
        (r.2 = true ↔ v.cursor.gLastCycle ≠ cycle))
      (.out none) (cursorSection n cycle w) := by
  rintro _ m hm rfl
  refine ⟨hm, ?_⟩
  show Orderly _ _ _ _ (.inside m.guarded m.guarded)
    (if (cycle != m.plug.cursor.gLastCycle) = true then _ else _)
  by_cases hfirst : m.plug.cursor.gLastCycle = cycle
  · rw [if_neg (by simp [hfirst])]
    intro m₁ hm₁ hv₁
    have hread : m.guarded.read n kDefaultMargin cycle w = m₁.guarded :=
      (if_pos hfirst).trans hv₁.symm
    exact ⟨hm₁, cursor_leaves hread (by simp [World.guarded, hfirst])⟩
  · rw [if_pos (by simpa using Ne.symm hfirst)]
    refine Orderly.bind ((orderly_readMargin _ _).mono ?_)
    rintro st margin rfl m₁ hm₁ hv₁
    refine ⟨hm₁, fun m₂ hm₂ hv₂ => ?_⟩
    have hread : m.guarded.read n margin cycle w = m₂.guarded := by
      refine (if_neg hfirst).trans (Eq.trans ?_ hv₂.symm)
      rw [← hv₁]
      rfl
    exact ⟨hm₂, cursor_leaves hread (by simpa [World.guarded, hfirst] using Ne.symm hfirst)⟩

theorem takes_doIo (readInput outNull : Bool) (n : UInt32) (cycle : UInt64) :
    Takes K (.entry (.doIo readInput outNull n cycle))
      (doIOOperation (α := α) readInput outNull n cycle >>= fun r => ret (.kept (.io r))) := by
  have hout {readInput outNull : Bool} {r : IOResult α}
      (hr : ∀ ch w rf first writes, r ≠ .read ch w rf first writes) :
      Answers K (.entry (.doIo readInput outNull n cycle)) (.out none)
        (Answer.kept (Local.io r)) := by
    refine ⟨none, rfl, nofun, fun _ he => he.elim, ?_, fun _ _ _ _ _ _ he => nomatch he⟩
    rintro _ _ _ _ ch w rf first writes - hb
    cases hb
    exact absurd rfl (hr ch w rf first writes)
  refine Orderly.bind ?_
  unfold doIOOperation
  cases readInput with
  | false => exact hout nofun
  | true =>
    cases outNull with
    | true => exact hout nofun
    | false =>
      refine plain_devChannels.orderly_bind untouched_keeps fun ch => ?_
      refine (plain_rd untouched_refl _).orderly_bind untouched_keeps fun attached => ?_
      cases attached with
      | false => exact hout nofun
      | true =>
        refine (plain_rd untouched_refl _).orderly_bind untouched_keeps fun w => ?_
        refine Orderly.bind ((orderly_cursorSection n cycle w).mono ?_)
        rintro st ⟨rf, first⟩ ⟨v, margin, rfl, hrf, hfirst⟩
        refine (plain_copyFrames untouched_refl _ _ _ _ _).orderly_bind untouched_keeps
          fun writes => ?_
        refine ⟨_, rfl, nofun, fun _ he => he.elim, ?_, fun _ _ _ _ _ _ he => nomatch he⟩
        rintro _ _ _ _ _ _ _ _ _ ⟨⟩ ⟨⟩
        exact ⟨v, margin, rfl, hrf, hfirst⟩

/-! ### The name of the device -/

theorem texts_modify (l : List CFString) (i : Nat) (f : Nat → Nat) :
    (l.modify i fun o => { o with refs := f o.refs }).map CFString.text =
      l.map CFString.text := by
  refine List.ext_getElem? fun j => ?_
  rw [List.getElem?_map, List.getElem?_map, List.getElem?_modify]
  cases l[j]? with
  | none => rfl
  | some o => by_cases hj : i = j <;> simp [hj]

omit [Pcm α] in
theorem guarded_cfRetain (m : World α) (i : Nat) :
    { m with plug := m.plug.cfRetain i }.guarded = m.guarded :=
  congrArg (fun texts => { m.guarded with texts := texts })
    (texts_modify m.plug.strings i fun n => n + 1)

omit [Pcm α] in
theorem guarded_cfRelease (m : World α) (i : Nat) :
    { m with plug := m.plug.cfRelease i }.guarded = m.guarded :=
  congrArg (fun texts => { m.guarded with texts := texts })
    (texts_modify m.plug.strings i fun n => n - 1)

omit [Pcm α] in
theorem guarded_dropCached (m : World α) :
    { m with plug := m.plug.dropCached }.guarded = m.guarded := by
  unfold Plugin.dropCached
  cases m.plug.gCachedName with
  | none => rfl
  | some i => exact guarded_cfRelease m i

omit [Pcm α] in
/-- Creating the string, if CoreFoundation accepts it. -/
theorem guarded_cfCreate (cf : Cf) (m : World α) (buf : List UInt8) :
    { m with plug := m.plug.cfCreate cf buf }.guarded =
      if cf.createUTF8 buf then
        { m.guarded with
          gCachedName := some m.guarded.texts.length
          texts := m.guarded.texts ++ [buf] }
      else { m.guarded with gCachedName := none } := by
  unfold Plugin.cfCreate
  split_ifs
  · simp [World.guarded]
  · rfl

theorem ticks_dropCached (p : Plugin) :
    p.dropCached.gHostTicksPerFrame = p.gHostTicksPerFrame := by
  unfold Plugin.dropCached
  cases p.gCachedName <;> rfl

theorem ticks_cfCreate (cf : Cf) (p : Plugin) (buf : List UInt8) :
    (p.cfCreate cf buf).gHostTicksPerFrame = p.gHostTicksPerFrame := by
  unfold Plugin.cfCreate
  split_ifs <;> rfl

omit [Pcm α] in
/-- The end of a name query's turn. -/
theorem orderly_retainCached {legal : Guarded → Guarded → Prop} {v₀ v : Guarded}
    (hlegal : legal v₀ v) :
    Orderly World.guarded (fun m : World α => K m.plug.gHostTicksPerFrame) legal
      (fun st i => st = .out (some (v₀, v)) ∧ v.gCachedName = some i) (.inside v₀ v)
      retainCached := by
  rintro m hm rfl
  refine ⟨hm, ?_⟩
  dsimp only
  cases hcached : m.plug.gCachedName with
  | none => trivial
  | some i =>
    intro m₁ hm₁ hv₁
    have hv : { m₁ with plug := m₁.plug.cfRetain i }.guarded = m.guarded :=
      (guarded_cfRetain m₁ i).trans hv₁
    refine ⟨hm₁, ?_⟩
    show legal v₀ _ ∧ Stage.out (some (v₀, _)) = _ ∧ _
    rw [hv]
    exact ⟨hlegal, rfl, hcached⟩

omit [Pcm α] in
/-- A name query whose string could not be made dies. -/
theorem orderly_retainCached_none {legal : Guarded → Guarded → Prop}
    {post : Stage Guarded → Nat → Prop} {v₀ v : Guarded} (hv : v.gCachedName = none) :
    Orderly World.guarded (fun m : World α => K m.plug.gHostTicksPerFrame) legal post
      (.inside v₀ v) retainCached := by
  rintro m hm rfl
  refine ⟨hm, ?_⟩
  dsimp only
  have hcached : m.plug.gCachedName = none := hv
  rw [hcached]
  trivial

omit [Pcm α] in
/-- The string is made anew, if CoreFoundation takes the bytes. -/
theorem orderly_rename (cf : Cf) {legal : Guarded → Guarded → Prop}
    {post : Stage Guarded → Nat → Prop} {v₀ v : Guarded} {buf : List UInt8}
    (hstale : v.nameStale buf = true)
    (hend : cf.createUTF8 buf = true →
      Orderly World.guarded (fun m : World α => K m.plug.gHostTicksPerFrame) legal post
        (.inside v₀ (v.named buf)) retainCached) :
    Orderly World.guarded (fun m : World α => K m.plug.gHostTicksPerFrame) legal post
      (.inside v₀ v) (do
        wrPlug Plugin.dropCached
        wrPlug fun p => p.cfCreate cf buf
        wrPlug fun p => { p with gCachedNameStr := strncpyName p.gCachedNameStr buf }
        retainCached) := by
  have hrate {r r' : ℚ} (hr : r' = r) (h : K r) : K r' := hr ▸ h
  rintro m hm rfl
  refine ⟨hrate (ticks_dropCached m.plug) hm, fun m₁ hm₁ hv₁ => ?_⟩
  have hcreate := guarded_cfCreate cf m₁ buf
  rw [hv₁.trans (guarded_dropCached m)] at hcreate
  refine ⟨hrate (ticks_cfCreate cf m₁.plug buf) hm₁, fun m₂ hm₂ hv₂ => ⟨hm₂, ?_⟩⟩
  have hv : m₂.guarded = _ := hv₂.trans hcreate
  show Orderly _ _ _ _ (.inside v₀ { m₂.guarded with
    gCachedNameStr := strncpyName m₂.guarded.gCachedNameStr buf }) retainCached
  rw [hv]
  split_ifs with hcf
  · have hnamed : m.guarded.named buf = _ := if_pos hstale
    have hkept := hend hcf
    rwa [hnamed] at hkept
  · exact orderly_retainCached_none rfl

omit [Pcm α] in
/-- The turn of `DeviceNameCopy`, for the name it found. -/
theorem orderly_nameSection (cf : Cf) {legal : Guarded → Guarded → Prop} (buf : List UInt8)
    (hlegal : ∀ v : Guarded, (v.nameStale buf = true → cf.createUTF8 buf = true) →
      legal v (v.named buf)) :
    Orderly World.guarded (fun m : World α => K m.plug.gHostTicksPerFrame) legal
      (fun st i => ∃ v, st = .out (some (v, v.named buf)) ∧ (v.named buf).gCachedName = some i)
      (.out none) (do
        acquire
        if ← rd fun m => m.plug.nameStale buf then
          wrPlug Plugin.dropCached
          wrPlug fun p => p.cfCreate cf buf
          wrPlug fun p => { p with gCachedNameStr := strncpyName p.gCachedNameStr buf }
        retainCached) := by
  have hend (v : Guarded) (hcf : v.nameStale buf = true → cf.createUTF8 buf = true) :
      Orderly World.guarded (fun m : World α => K m.plug.gHostTicksPerFrame) legal
        (fun st i => ∃ v, st = .out (some (v, v.named buf)) ∧ (v.named buf).gCachedName = some i)
        (.inside v (v.named buf)) retainCached :=
    (orderly_retainCached (hlegal v hcf)).mono fun st i ⟨hst, hi⟩ => ⟨v, hst, hi⟩
  rintro _ m hm rfl
  refine ⟨hm, ?_⟩
  dsimp only
  cases hstale : m.plug.nameStale buf with
  | false =>
    have hfresh : ¬ m.guarded.nameStale buf = true :=
      fun h => absurd (hstale.symm.trans h) Bool.false_ne_true
    have hnamed : m.guarded.named buf = m.guarded := if_neg hfresh
    have hkept := hend m.guarded fun h => absurd h hfresh
    rw [hnamed] at hkept
    exact hkept
  | true => exact orderly_rename cf hstale fun hcf => hend m.guarded fun _ => hcf

omit [Pcm α] in
theorem orderly_deviceNameCopy (cf : Cf) {legal : Guarded → Guarded → Prop}
    (hlegal : ∀ (v : Guarded) (name : Option (Vector UInt8 nameLen)),
      (v.nameStale (nameBuf name) = true → cf.createUTF8 (nameBuf name) = true) →
        legal v (v.named (nameBuf name))) :
    Orderly World.guarded (fun m : World α => K m.plug.gHostTicksPerFrame) legal
      (fun st i => ∃ v name, st = .out (some (v, v.named (nameBuf name))) ∧
        (v.named (nameBuf name)).gCachedName = some i) (.out none) (deviceNameCopy cf) := by
  have hname : Plain (Untouched K) (do
      if ← rd fun m : World α => m.plug.gShm then
        let v ← rd fun m => m.shm.name
        return some v
      else
        return none) := by
    refine (plain_rd untouched_refl _).bind fun attached => ?_
    split_ifs
    · exact (plain_rd untouched_refl _).bind fun v => trivial
    · trivial
  refine hname.orderly_bind untouched_keeps fun name => ?_
  exact (orderly_nameSection cf (nameBuf name) fun v => hlegal v name).mono
    fun st i ⟨v, hst, hi⟩ => ⟨v, name, hst, hi⟩

omit [Pcm α] in
theorem sealed_getPropertyData {k : Sdk} (cf : Cf) {obj : UInt32} {a : Address} (q : Qualifier)
    (inSize : UInt32) (hname : ¬ Asks k obj a .name) :
    Sealed (Untouched K) .after (getPropertyData (α := α) k cf obj a q inSize) := by
  unfold getPropertyData
  split_ifs with hel hplug hdev
  · exact sealed_after _
  · cases k.plugInSel a.selector with
    | none => exact sealed_after _
    | some s => exact sealed_plugInData k q inSize s
  · cases hs : k.deviceSel a.selector with
    | none => exact sealed_after _
    | some s =>
      refine sealed_deviceData k cf a.scope inSize fun hn => hname ⟨hdev, not_not.mp hel, ?_⟩
      rw [hs, hn]
  · refine plain_devChannels.sealed_bind fun chans => ?_
    cases k.streamSel a.selector with
    | none => exact sealed_after _
    | some s => exact sealed_streamData k chans s
  · exact sealed_after _

omit [Pcm α] in
theorem takes_getPropertyData (k : Sdk) (cf : Cf) (obj : UInt32) (a : Address) (q : Qualifier)
    (inSize : UInt32) : Takes K (.entry (.getPropertyData k cf obj a q inSize))
      (getPropertyData (α := α) k cf obj a q inSize >>= fun r => ret (.kept (.replied r))) := by
  by_cases hname : Asks k obj a .name
  · have hdata : getPropertyData (α := α) k cf obj a q inSize =
        deviceNameCopy cf >>= fun i => ret (.ok (replyString (.object i))) := by
      unfold getPropertyData
      rw [if_neg (not_not_intro hname.2.1), if_neg (by rw [hname.1]; decide), if_pos hname.1,
        hname.2.2]
      rfl
    rw [hdata, Prog.bind_assoc]
    refine Orderly.bind ((orderly_deviceNameCopy cf fun v name => .named hname name).mono ?_)
    rintro st i ⟨v, name, rfl, hi⟩
    refine ⟨_, rfl, nofun, fun _ he => he.elim, fun _ _ _ _ _ _ _ _ _ he => (nomatch he), ?_⟩
    exact fun _ _ _ _ _ _ _ _ => ⟨v, name, i, rfl, hi, rfl⟩
  · refine takes_free id (fun _ _ _ _ => nofun) ?_
      ((sealed_getPropertyData cf q inSize hname).bind fun _ => sealed_after _)
    rintro _ _ _ _ _ _ ⟨⟩
    exact hname

/-! ## All calls -/

/-- `Initialize` finds a timebase that gives one of the rates. -/
def Call.Clocked (K : ℚ → Prop) : Call → Prop
  | .entry (.setUp _ _ tb _) => K tb.ticksPerFrame
  | _ => True

theorem takes_daemon {e : Entry} {b : Local α} {y : Prog (World α) (Local α)}
    (hy : startDaemon e b = some y) :
    Takes K (.entry e) (y >>= fun b => ret (.kept b)) := by
  have hsealed : Sealed (Untouched K) .after (y >>= fun b => ret (Answer.kept b)) :=
    (sealed_startDaemon hy).bind fun _ => sealed_after _
  cases e with
  | create d latency sys => exact takes_free id nofun nofun hsealed
  | push s24 => exact takes_free id nofun nofun hsealed
  | _ => cases b <;> cases hy

omit [Pcm α] in
theorem takes_monitor {e : Entry} {b : Local α} {y : Prog (World α) (Local α)}
    (hy : startMonitor e b = some y) :
    Takes K (.entry e) (y >>= fun b => ret (.kept b)) := by
  have hpoll (sys : Sys) (l : Monitor) : Takes K (.entry (.poll sys))
      (presenceMonitor (α := α) sys l >>= fun l => ret (.kept (.locals l))) :=
    takes_sealed trivial ((sealed_presenceMonitor sys l).bind fun _ => sealed_after _)
  unfold startMonitor at hy
  split at hy <;> cases hy <;> rw [Prog.bind_assoc] <;> exact hpoll _ _

theorem takes_host (hK : ∃ c, K c) {e : Entry} (hclock : (Call.entry e).Clocked K)
    {y : Prog (World α) (Answer α)}
    (hy : (answering e).or (kept (startHost e)) = some y) : Takes K (.entry e) y := by
  cases e <;> cases hy
  case queryInterface => exact takes_queryInterface hK rfl
  case addRef => exact takes_addRef hK rfl
  case release => exact takes_release hK rfl
  case setUp known host tb sys =>
    exact takes_sealed trivial ((sealed_line6Initialize known host sys hclock).bind
      fun _ => sealed_after _)
  case getPropertyDataSize k obj a =>
    dsimp only
    rw [Prog.bind_assoc]
    exact takes_free id nofun nofun
      ((sealed_getPropertyDataSize k obj a).bind fun _ => sealed_after _)
  case getPropertyData =>
    dsimp only
    rw [Prog.bind_assoc]
    exact takes_getPropertyData _ _ _ _ _ _
  case startIo => exact takes_startIo hK rfl
  case stopIo => exact takes_stopIo hK rfl
  case getZeroTimeStamp => exact takes_getZeroTimeStamp hK rfl
  case doIo =>
    dsimp only
    rw [Prog.bind_assoc]
    exact takes_doIo _ _ _ _

omit [Pcm α] in
theorem takes_cfRelease (i : Nat) : Takes K (.cfRelease i) (do
    wrPlug (α := α) fun p => p.cfRelease i
    return .kept .returned) :=
  fun m hm => ⟨hm, guarded_cfRelease m i, none, rfl⟩

/-- **Every call takes turns** with what `gMutex` protects. -/
theorem takes_ask (hK : ∃ c, K c) {t : Tid} {call : Call} {b : Answer α} (hclock : call.Clocked K)
    {y : Prog (World α) (Answer α)} (hy : ask t call b = some y) : Takes K call y := by
  have hkept {z : Option (Prog (World α) (Local α))} (hz : kept z = some y) :
      ∃ z', z = some z' ∧ y = (z' >>= fun b => ret (.kept b)) := by
    obtain ⟨z', hz', rfl⟩ := Option.map_eq_some_iff.mp hz
    exact ⟨z', hz', rfl⟩
  cases call with
  | line6Create supported =>
    cases t with
    | host j =>
      cases hy
      cases supported <;> exact ⟨none, rfl, rfl⟩
    | _ => cases hy
  | cfRelease i =>
    cases t with
    | host j =>
      cases hy
      exact takes_cfRelease i
    | _ => cases hy
  | entry e =>
    cases t with
    | daemon =>
      obtain ⟨z, hz, rfl⟩ := hkept hy
      exact takes_daemon hz
    | monitor =>
      obtain ⟨z, hz, rfl⟩ := hkept hy
      exact takes_monitor hz
    | host j => exact takes_host hK hclock hy

end

/-! ## The system -/

/-- The system whose calls answer. -/
abbrev Asked (α : Type) : Type := Pool Tid (World α) Call (Answer α)

/-- The system before anything ran, in an arbitrary world. -/
def Asked.init (m : World α) : Asked α := Pool.init m fun _ => .kept .fresh

/-- A turn of a call of the system. -/
abbrev CallTurn : Type := Conc.Turn Tid Call Guarded

/-- The turns of a run of the system. -/
abbrev History : Type := Turns Tid Call Guarded

/-- The steps of a machine whose timebase gives the rates `K`. -/
def Clocked (K : ℚ → Prop) (_ : History) (_ : Asked α) (a : Act Tid Call) (_ : Asked α) : Prop :=
  ∀ t call, a = .call t call → call.Clocked K

/-- What the turns of a run show of its state: they are one sequential history of the guarded
globals, each is what its call may do in a turn, a call in its turn has had none before, and the
calls that have returned answer for the turn they have had. -/
structure Serialized [Pcm α] (K : ℚ → Prop) (v₀ : Guarded) (g : History) (p : Asked α) : Prop where
  serial : Serial v₀ g.done (g.standing World.guarded p)
  legal : ∀ u ∈ g.done, ∃ call, u.entry = some call ∧ LegalTurn α K call u.before u.after
  mine : ∀ t v v', g.had t = some (v, v') → ⟨t, p.entry t, v, v'⟩ ∈ g.done
  first : ∀ t, p.owner = some t → g.had t = none
  answered : ∀ t call b, p.entry t = some call → p.thread t = .ret b →
    Answers K call (.out (g.had t)) b

theorem answers_out {K : ℚ → Prop} (call : Call) (st : Stage Guarded) (b : Answer α)
    (h : Answers K call st b) : ∃ turn, st = .out turn := by
  cases call with
  | entry e => exact ⟨h.choose, h.choose_spec.1⟩
  | line6Create supported => exact ⟨h.choose, h.choose_spec.1⟩
  | cfRelease i => exact h

/-- The calls of the system take turns with what `gMutex` protects. -/
abbrev TakingTurns (α : Type) [Pcm α] (K : ℚ → Prop) : Guarded → History → Asked α → Prop :=
  Turned World.guarded (fun m => K m.plug.gHostTicksPerFrame) (LegalTurn α K) (Answers K)

theorem serialized_of_turns [Pcm α] {K : ℚ → Prop} {v₀ : Guarded} {g : History} {p : Asked α}
    (h : TakingTurns α K v₀ g p) : Serialized K v₀ g p :=
  ⟨h.serial, h.allowed, h.mine, h.first,
    fun _ _ _ hcall hret => h.returned answers_out hret hcall⟩

end Line6
