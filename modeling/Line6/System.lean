import Line6.Shm
import Line6.Plugin.Io
import Line6.Plugin.Lifecycle
import Line6.Plugin.Property

/-!
# The daemon and the plugin as one pool of threads

The threads of the system: the daemon, the presence monitor, and any number of host threads that
call the plugin's entry points. `start` says which program a call runs, given what the thread's
previous call returned: the daemon pushes with the channel count of the device it last created
the segment for, the monitor passes its local variables on.
-/

namespace Line6

open Conc Conc.Prog

variable {α : Type}

/-- The threads. -/
inductive Tid where
  | daemon
  | monitor
  | host (i : Nat)
  deriving Repr, DecidableEq

/-- The calls. -/
inductive Entry where
  | create (d : Device) (latencyFrames : UInt32) (sys : Sys)
  | push (s24 : List UInt8)
  | poll (sys : Sys)
  | queryInterface (known outNull supported : Bool)
  | addRef (known : Bool)
  | release (known : Bool)
  | setUp (known host : Bool) (tb : Timebase) (sys : Sys)
  | getPropertyDataSize (k : Sdk) (obj : UInt32) (a : Address)
  | getPropertyData (k : Sdk) (cf : Cf) (obj : UInt32) (a : Address) (q : Qualifier)
      (inSize : UInt32)
  | startIo (known : Bool) (sys : Sys) (now : UInt64)
  | stopIo (known : Bool)
  | getZeroTimeStamp (known : Bool) (now : UInt64)
  | doIo (readInput outNull : Bool) (inFrames : UInt32) (cycle : UInt64)

/-- What a thread keeps from its last call. -/
inductive Local (α : Type) where
  | fresh
  | connected (d : Device)
  | locals (l : Option Monitor)
  | io (r : IOResult α)
  | sized (r : Except HalError UInt32)
  | replied (r : Except HalError Reply)
  | returned

/-- Run `p` and forget its result. -/
def finish {β : Type} (p : Prog (World α) β) : Prog (World α) (Local α) := p >>= fun _ => ret .returned

/-- The daemon: `create` for a row, then batches with that row's stride. A failed `create` ends
it. -/
def startDaemon [Pcm α] : Entry → Local α → Option (Prog (World α) (Local α))
  | .create d latencyFrames sys, _ => some do
    match ← create d latencyFrames sys with
    | .ok () => return .connected d
    | .error _ => return .fresh
  | .push s24, .connected d => some do
    pushFrames d.captureChannels.toNat s24
    return .connected d
  | _, _ => none

/-- The monitor: its iterations, until one finds it stopped. -/
def startMonitor : Entry → Local α → Option (Prog (World α) (Local α))
  | .poll sys, .locals (some l) => some do return .locals (← presenceMonitor sys l)
  | .poll _, .locals none => none
  | .poll sys, _ => some do return .locals (← presenceMonitor sys {})
  | _, _ => none

/-- A host thread: the entry points. -/
def startHost [Pcm α] : Entry → Option (Prog (World α) (Local α))
  | .queryInterface known outNull supported => some (finish (queryInterface known outNull supported))
  | .addRef known => some (finish (addRef known))
  | .release known => some (finish (line6Release known))
  | .setUp known host tb sys => some (finish (line6Initialize known host tb sys))
  | .getPropertyDataSize k obj a => some do return .sized (← getPropertyDataSize k obj a)
  | .getPropertyData k cf obj a q inSize => some do
    return .replied (← getPropertyData k cf obj a q inSize)
  | .startIo known sys now => some (finish (startIo known sys now))
  | .stopIo known => some (finish (stopIo known))
  | .getZeroTimeStamp known now => some (finish (getZeroTimeStamp known now))
  | .doIo readInput outNull inFrames cycle => some do
    return .io (← doIOOperation readInput outNull inFrames cycle)
  | _ => none

/-- The program of a call. -/
def start [Pcm α] : Tid → Entry → Local α → Option (Prog (World α) (Local α))
  | .daemon, e, b => startDaemon e b
  | .monitor, e, b => startMonitor e b
  | .host _, e, _ => startHost e

/-- The states of the system. -/
abbrev System (α : Type) : Type := Pool Tid (World α) Entry (Local α)

/-- The daemon creates the segment for rows of the table. -/
def FromTable (T : Table) (_ : System α) (a : Act Tid Entry) : Prop :=
  ∀ t d latency sys, a = .call t (.create d latency sys) → d ∈ T.rows

/-- A device of one channel. -/
def monoDevice : Device :=
  { name := "mono", productId := 1, audioInterface := 0, altSetting := 1, epAudioIn := 0x86,
    epAudioOut := 0x02, captureChannels := 1, playbackChannels := 2 }

/-- The one it is swapped for. -/
def dualDevice : Device := { monoDevice with productId := 2, captureChannels := 2 }

def monoDual : Table where
  rows := [monoDevice, dualDevice]
  channels_pos := by decide
  channels_le := by decide
  distinct := by decide

/-- The system before anything ran, in an arbitrary world. -/
def System.init (m : World α) : System α := Pool.init m fun _ => .fresh

end Line6
