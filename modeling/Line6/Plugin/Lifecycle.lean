import Line6.Plugin.Io

/-!
# The plugin's lifecycle and its presence monitor

`Line6_Create`, `Line6_QueryInterface`, `Line6_AddRef`, `Line6_Release`, `Line6_Initialize`,
`NotifyDeviceList` and one iteration of `PresenceMonitor` (`Line6HAL.c`). The loop of the monitor
thread is the iteration again and again; its local variables are passed from one to the next. The
thread `Initialize` starts is a thread of the pool.
-/

namespace Line6

open Conc Conc.Prog

variable {α : Type}

/-! ## The factory -/

/-- `Line6_Create`: whether it returns the driver reference; `supported`: the requested type is that
of an audio server plug-in. It does not count the reference. -/
def line6Create (supported : Bool) : Prog (World α) Bool := do
  if supported then return true
  return false

/-! ## IUnknown -/

inductive HResult where
  | ok
  | invalidArg
  | noInterface
  deriving Repr, DecidableEq

/-- `Line6_QueryInterface`; `known`: the driver is ours, `outNull`: no place for the answer,
`supported`: the requested interface is IUnknown or the driver interface. -/
def queryInterface (known outNull supported : Bool) : Prog (World α) HResult := do
  if !known || outNull then return .invalidArg
  if supported then
    acquire
    wrPlug fun p => { p with gRefCount := p.gRefCount + 1 }
    release
    return .ok
  else
    return .noInterface

/-- `Line6_AddRef`: the new count. -/
def addRef (known : Bool) : Prog (World α) UInt32 := do
  if !known then return 0
  acquire
  wrPlug fun p => { p with gRefCount := p.gRefCount + 1 }
  let r ← rd fun m => m.plug.gRefCount
  release
  return r

/-- `Line6_Release`: the new count. -/
def line6Release (known : Bool) : Prog (World α) UInt32 := do
  if !known then return 0
  acquire
  wrPlug fun p =>
    { p with gRefCount := if p.gRefCount > 0 then p.gRefCount - 1 else p.gRefCount }
  let r ← rd fun m => m.plug.gRefCount
  release
  return r

/-! ## Initialize -/

/-- `mach_timebase_info`. -/
structure Timebase where
  numer : UInt32
  denom : UInt32
  deriving Repr, DecidableEq

/-- `hostClockHz / kSampleRate`. -/
def Timebase.ticksPerFrame (tb : Timebase) : ℚ :=
  1000000000 * tb.denom.toNat / tb.numer.toNat / sampleRate.toNat

/-- `Line6_Initialize`; `host`: the host interface handed in is not NULL. -/
def line6Initialize (known host : Bool) (tb : Timebase) (sys : Sys) :
    Prog (World α) (Except HalError Unit) := do
  if !known then return .error .badObject
  wrPlug fun p => { p with gHost := host }
  wrPlug fun p => { p with gHostTicksPerFrame := tb.ticksPerFrame }
  attachShm sys
  wrPlug fun p => { p with gMonitorRun := true }
  return .ok ()

/-! ## The presence monitor -/

def kPresenceStallMax : Nat := 4

/-- `NotifyDeviceList`. -/
def notifyDeviceList : Prog (World α) Unit := do
  if ← rd fun m => m.plug.gHost then callHost

/-- The local variables of `PresenceMonitor`. -/
structure Monitor where
  lastWf : UInt64 := 0
  haveLast : Bool := false
  stall : Nat := 0
  deriving Repr, DecidableEq

/-- The verdict on a reading of `write_frames`: whether a device is present, and the locals. -/
def Monitor.observe (l : Monitor) (wf : UInt64) : Bool × Monitor :=
  if !l.haveLast || wf != l.lastWf then
    (true, { lastWf := wf, haveLast := true, stall := 0 })
  else
    let stall := if l.stall < kPresenceStallMax then l.stall + 1 else l.stall
    (decide (stall < kPresenceStallMax), { l with stall := stall })

/-- One iteration of `PresenceMonitor` after its sleep. -/
def presencePoll (sys : Sys) (l : Monitor) : Prog (World α) Monitor := do
  attachShm sys
  let (present, l) ← (do
    if !(← rd fun m => m.plug.gShm) then return (false, { l with haveLast := false })
    else
      let wf ← rd fun m => m.shm.writeFrames
      return l.observe wf)
  let prev ← access (fun m => { m with plug := { m.plug with gDevicePresent := present } })
    fun m => ret m.plug.gDevicePresent
  if prev != present then notifyDeviceList -- not holding the lock: callback may re-enter
  return l

/-- The loop test, then the iteration: the locals after it, or nothing once the thread ends. -/
def presenceMonitor (sys : Sys) (l : Monitor) : Prog (World α) (Option Monitor) := do
  if ← rd fun m => m.plug.gMonitorRun then
    let l ← presencePoll sys l
    return some l
  else
    return none

end Line6
