import Mathlib.Algebra.Order.Ring.Rat
import Line6.Lib.Pool
import Line6.Lib.RingLog

/-!
# The state the daemon and the plugin share

`Shm` is `line6_shm_t` (`shared/line6_shm.h`, mirrored by `daemon/src/shm.rs`): a header and a
ring of samples. `Plugin` is the plugin's global variables (`plugin/Line6HAL.c`). `World` holds
both, and whether the segment exists under its name; every program of the model is a `Prog` over
it. The segment is persistent: once the plugin has mapped it, `gShm->x` is the `x` of this `Shm`.

The sample type is a parameter. `Pcm` says what a ring cell holds after `push_frames` stored three
bytes for a channel of a frame, and what silence is; `ℚ` is the instance of the code (a 24-bit
integer over 2^23 is exact in `f32`), the coordinates of the store being ignored by it.
-/

namespace Line6

open Conc

/-! ## Constants -/

def shmName : String := "/line6_audio"

def shmMagic : UInt32 := 0x4C494E36

def shmVersion : UInt32 := 1

def sampleRate : UInt32 := 48000

def maxChannels : UInt32 := 8

def nameLen : Nat := 32

def ringFrames : UInt32 := 65536

def ringMask : UInt64 := 65535

/-- Cells of the ring: it is sized for the widest device. -/
def ringSamples : Nat := 65536 * 8

theorem ringMask_toNat : ringMask.toNat = 2 ^ 16 - 1 := by decide

/-- The cells of a stride up to 8 lie in the ring. -/
theorem cell_lt_ring (k : Nat) {ch c : Nat} (hch : ch ≤ 8) (hc : c < ch) :
    RingLog.cell 65536 ch k c < ringSamples :=
  Nat.lt_of_lt_of_le (RingLog.cell_lt (by decide) hc) (Nat.mul_le_mul_left 65536 hch)

/-- The slot of a 64-bit frame counter lies in the ring for every stride up to 8. -/
theorem slot_lt (k : UInt64) {ch c : Nat} (hch : ch ≤ 8) (hc : c < ch) :
    (k &&& ringMask).toNat * ch + c < ringSamples := by
  rw [RingLog.and_mask ringMask_toNat]
  exact cell_lt_ring k.toNat hch hc

/-! ## Devices (`devices.rs`) -/

def vidLine6 : UInt16 := 0x0E41

def bytesPerSample : Nat := 3

/-- One row of the device table. -/
structure Device where
  name : String
  productId : UInt16
  audioInterface : UInt8
  altSetting : UInt8
  epAudioIn : UInt8
  epAudioOut : UInt8
  captureChannels : UInt8
  playbackChannels : UInt8
  deriving Repr, DecidableEq

namespace Device

def captureFrameBytes (d : Device) : Nat := d.captureChannels.toNat * bytesPerSample

def playbackFrameBytes (d : Device) : Nat := d.playbackChannels.toNat * bytesPerSample

end Device

/-- The rows of `DEVICES`. -/
def devices : List Device :=
  [{ name := "POD X3 Live", productId := 0x414B, audioInterface := 0, altSetting := 1,
     epAudioIn := 0x86, epAudioOut := 0x02, captureChannels := 8, playbackChannels := 2 },
   { name := "POD X3", productId := 0x414A, audioInterface := 0, altSetting := 1,
     epAudioIn := 0x86, epAudioOut := 0x02, captureChannels := 8, playbackChannels := 2 }]

/-- A device table as the documentation promises it: 1 to 8 capture channels per row, and no two
rows with one product id. -/
structure Table where
  rows : List Device
  channels_pos : ∀ d ∈ rows, 1 ≤ d.captureChannels.toNat
  channels_le : ∀ d ∈ rows, d.captureChannels.toNat ≤ 8
  distinct : ∀ d ∈ rows, ∀ e ∈ rows, d.productId = e.productId → d = e

example : Table := ⟨devices, by decide, by decide, by decide⟩

/-! ## Samples -/

/-- What the ring's cells are: silence, and the value stored at channel `ch` of a frame of
`channels` channels for the bytes `b0 b1 b2`. -/
class Pcm (α : Type) where
  silence : α
  s24 (channels ch : Nat) (b0 b1 b2 : UInt8) : α

/-- `s24_to_f32`: 3 bytes S24_3LE to a number in [-1, 1). -/
def s24ToF32 (b0 b1 b2 : UInt8) : ℚ :=
  let v : Int32 := b0.toUInt32.toInt32 ||| (b1.toUInt32.toInt32 <<< 8) |||
    (b2.toUInt32.toInt32 <<< 16)
  let v : Int32 := (v <<< 8) >>> 8 -- sign-extend from 24 bits
  (v.toInt : ℚ) / 8388608

instance : Pcm ℚ where
  silence := 0
  s24 _ _ := s24ToF32

/-! ## The shared segment -/

/-- `line6_shm_t`. Cells of `ring` from `ringSamples` on are outside the segment. -/
structure Shm (α : Type) where
  magic : UInt32
  version : UInt32
  sampleRate : UInt32
  channels : UInt32
  ringFrames : UInt32
  latencyFrames : UInt32
  name : Vector UInt8 nameLen
  writeFrames : UInt64
  ring : Nat → α

/-- A segment as `ftruncate` creates it: all bytes zero. -/
def Shm.zero {α : Type} [Pcm α] : Shm α where
  magic := 0
  version := 0
  sampleRate := 0
  channels := 0
  ringFrames := 0
  latencyFrames := 0
  name := Vector.replicate nameLen 0
  writeFrames := 0
  ring := fun _ => Pcm.silence

/-! ## The plugin's globals -/

/-- The read cursor. -/
structure Cursor where
  gReadFrame : UInt64 := 0
  gCycleReadFrame : UInt64 := 0
  gLastCycle : UInt64 := 0 - 1
  deriving Repr, DecidableEq

/-- A CFString object: its bytes and its reference count. -/
structure CFString where
  text : List UInt8
  refs : Nat
  deriving Repr, DecidableEq

/-- The globals of `Line6HAL.c`. `gShm` and `gHost` say whether the pointer is set; `strings` are
the CFString objects the plugin created, `gCachedName` an index into them. -/
structure Plugin where
  gRefCount : UInt32 := 0
  gHost : Bool := false
  gIORunning : UInt64 := 0
  gHostTicksPerFrame : ℚ := 0
  gAnchorHostTime : UInt64 := 0
  gNumberTimeStamps : UInt64 := 0
  gShm : Bool := false
  cursor : Cursor := {}
  gDevicePresent : Bool := true
  gMonitorRun : Bool := true
  gCachedName : Option Nat := none
  gCachedNameStr : Vector UInt8 nameLen := Vector.replicate nameLen 0
  strings : List CFString := []

/-- Everything shared. `linked`: the segment exists under `shmName`. -/
structure World (α : Type) where
  linked : Bool
  shm : Shm α
  plug : Plugin

/-- The answers of the system calls that open and map the segment. -/
structure Sys where
  openOk : Bool
  mmapOk : Bool
  errno : Int
  deriving Repr, DecidableEq

/-- The answers of a system that maps the segment. -/
def Sys.fine : Sys := ⟨true, true, 0⟩

/-- The segment, its name included, is as it was. -/
def SameSegment {α : Type} (m m' : World α) : Prop := m'.shm = m.shm ∧ m'.linked = m.linked

/-- The plugin's globals are as they were. -/
def SamePlugin {α : Type} (m m' : World α) : Prop := m'.plug = m.plug

/-- The bytes of a C string: up to the first NUL. -/
def cString (bytes : List UInt8) : List UInt8 := bytes.takeWhile (· != 0)

end Line6
