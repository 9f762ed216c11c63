import Line6.Lib.Ledger
import Line6.Shm

/-!
# The USB capture engine (`usb.rs`)

`StreamState`, `make_iso`, the two completion callbacks, `start` and `stop`. A callback is a
program over the `World`, for it pushes into the segment. libusb is an environment: its answers
are arguments, and `Libusb` records what was asked of it, in order, and which transfers are in
flight: a submitted transfer is, until its callback runs, and `libusb_cancel_transfer` only asks
for that. A transfer is named by its index in the engine; pointers are left out. An index out of a
buffer, a division by zero and an index into nothing are `trap`, as in `Shm.lean`.
-/

namespace Line6

open Conc Conc.Prog

variable {α : Type}

/-- Packets per transfer. -/
def isoPackets : Nat := 8

/-- Transfers in flight per direction. -/
def isoBuffers : Nat := 8

/-- Upper bound on frames in one IN packet, for buffer sizing. -/
def maxFramesPerInPkt : Nat := 8

/-- Frames per OUT silence packet. -/
def outFramesPerPkt : Nat := 6

/-! ## StreamState -/

/-- Per-stream state shared by all transfers. `sinePhase` counts the steps of the oscillator. -/
structure StreamState where
  running : Bool
  inFlight : Int
  channels : Nat
  frameBytes : Nat
  inPktLen : Nat
  sine : Bool
  sinePhase : Nat
  isoErrors : Nat
  unalignedPackets : Nat
  deriving Repr, DecidableEq

/-- `StreamState::new`. -/
def StreamState.new (device : Device) (sine : Bool) : StreamState where
  running := true
  inFlight := 0
  channels := device.captureChannels.toNat
  frameBytes := device.captureFrameBytes
  inPktLen := device.captureFrameBytes * maxFramesPerInPkt
  sine := sine
  sinePhase := 0
  isoErrors := 0
  unalignedPackets := 0

/-! ## Transfers -/

inductive Callback where
  | onIn
  | onOut
  deriving Repr, DecidableEq

/-- A `libusb_transfer` as `make_iso` fills it; `packetLengths` are the requested lengths of its
`num_iso_packets` packets, `capacity` the size of the buffer behind `buffer`. -/
structure Transfer where
  endpoint : UInt8
  timeout : Nat
  capacity : Nat
  length : Nat
  callback : Callback
  flags : Nat
  packetLengths : List Nat
  deriving Repr, DecidableEq

/-- `make_iso`, with a buffer of `capacity` bytes. -/
def makeIso (endpoint : UInt8) (packets pktLen : Nat) (cb : Callback) (capacity : Nat) :
    Transfer where
  endpoint := endpoint
  timeout := 1000
  capacity := capacity
  length := packets * pktLen
  callback := cb
  flags := 0
  packetLengths := List.replicate packets pktLen

/-- The IN transfers of `start`. -/
def inTransfer (device : Device) : Transfer :=
  let inPktLen := device.captureFrameBytes * maxFramesPerInPkt
  makeIso device.epAudioIn isoPackets inPktLen .onIn (isoPackets * inPktLen)

/-- The OUT transfers of `start`. -/
def outTransfer (device : Device) : Transfer :=
  let outPktLen := device.playbackFrameBytes * outFramesPerPkt
  makeIso device.epAudioOut isoPackets outPktLen .onOut (isoPackets * outPktLen)

/-- What libusb reports of a packet: whether its status is `COMPLETED`, and its `actual_length`. -/
structure IsoPacket where
  completed : Bool
  actualLength : Nat
  deriving Repr, DecidableEq

/-! ## The callbacks -/

/-- `if !(st.running && libusb_submit_transfer(t) == 0) { st.in_flight -= 1; }`, where
`submitRc` is what the submission returns if it is made. -/
def StreamState.resubmit (st : StreamState) (submitRc : Int) : StreamState :=
  if !(st.running && submitRc == 0) then { st with inFlight := st.inFlight - 1 } else st

/-- The slice of the transfer buffer taken for packet `i`: where it starts
(`i * st.in_pkt_len`) and its length (`whole`). -/
def StreamState.slice (st : StreamState) (i : Nat) (d : IsoPacket) : Nat × Nat :=
  (i * st.inPktLen, d.actualLength - d.actualLength % st.frameBytes)

/-- The body of `on_in`'s loop, for packet `i`. -/
def onInPacket [Pcm α] (osc : Nat → α) (buffer : List UInt8) (i : Nat) (d : IsoPacket)
    (st : StreamState) : Prog (World α) StreamState := do
  let st := if !d.completed then { st with isoErrors := st.isoErrors + 1 } else st
  let alen := d.actualLength
  if alen = 0 then return st
  if st.frameBytes = 0 then trap
  let st := if alen % st.frameBytes ≠ 0 then { st with unalignedPackets := st.unalignedPackets + 1 }
    else st
  let (base, whole) := st.slice i d
  if whole = 0 then return st
  if buffer.length < base + whole then trap -- the slice would leave the buffer
  if st.sine then
    let phase ← pushSine osc st.channels (whole / st.frameBytes) st.sinePhase
    return { st with sinePhase := phase }
  pushFrames st.channels ((buffer.drop base).take whole)
  return st

/-- `on_in`'s loop, from packet `i` on. -/
def onInPackets [Pcm α] (osc : Nat → α) (buffer : List UInt8) :
    List IsoPacket → Nat → StreamState → Prog (World α) StreamState
  | [], _, st => return st
  | d :: ds, i, st => do
    let st ← onInPacket osc buffer i d st
    onInPackets osc buffer ds (i + 1) st

/-- `on_in`. -/
def onIn [Pcm α] (osc : Nat → α) (buffer : List UInt8) (packets : List IsoPacket)
    (submitRc : Int) (st : StreamState) : Prog (World α) StreamState := do
  let st ← onInPackets osc buffer packets 0 st
  return st.resubmit submitRc

/-- `on_out`. -/
def onOut (submitRc : Int) (st : StreamState) : Prog (World α) StreamState :=
  return st.resubmit submitRc

/-! ## libusb -/

inductive Resource where
  | context
  | handle
  | interface
  | transfer (i : Nat)
  deriving Repr, DecidableEq

/-- What is asked of libusb. -/
inductive LibusbCall where
  | acquire (r : Resource)
  | release (r : Resource)
  | submit (i : Nat)
  | cancel (i : Nat)
  deriving Repr, DecidableEq

/-- What a call does with a resource. -/
def LibusbCall.touch : LibusbCall → Ledger.Touch Resource
  | acquire r => .acquire r
  | release r => .release r
  | submit i => .use (.transfer i)
  | cancel i => .use (.transfer i)

/-- The calls made so far, and the transfers in flight. -/
structure Libusb where
  calls : List LibusbCall
  inFlight : List Nat
  deriving Repr, DecidableEq

namespace Libusb

/-- Nothing asked yet. -/
def fresh : Libusb := ⟨[], []⟩

def call (u : Libusb) (c : LibusbCall) : Libusb := { u with calls := u.calls ++ [c] }

def acquire (u : Libusb) (r : Resource) : Libusb := u.call (.acquire r)

def release (u : Libusb) (r : Resource) : Libusb := u.call (.release r)

/-- `libusb_cancel_transfer`. -/
def cancel (u : Libusb) (i : Nat) : Libusb := u.call (.cancel i)

/-- `libusb_submit_transfer`, which returns `rc`. -/
def submit (u : Libusb) (i : Nat) (rc : Int) : Libusb :=
  let u := u.call (.submit i)
  if rc = 0 then { u with inFlight := i :: u.inFlight } else u

/-- `libusb_free_transfer`, `libusb_release_interface`, `libusb_close`, `libusb_exit`: the end of
`stop`, and of a `start` that started nothing. -/
def shutDown (u : Libusb) (transfers : List Nat) : Libusb :=
  (((transfers.foldl (fun u i => u.release (.transfer i)) u).release .interface).release
    .handle).release .context

end Libusb

/-! ## start -/

/-- What libusb answers to `start`: the return codes, and whether the device was opened. -/
structure StartAnswers where
  initRc : Int
  opened : Bool
  claimRc : Int
  altRc : Int
  submitRc : Nat → Int

/-- `Engine`. -/
structure Engine where
  interface : UInt8
  transfers : List Transfer
  deriving Repr, DecidableEq

/-- The indices of the transfers. -/
def Engine.ids (eng : Engine) : List Nat := List.range eng.transfers.length

/-- The submit loop of `start`. -/
def submitAll (submitRc : Nat → Int) : List Nat → StreamState × Libusb → StreamState × Libusb
  | [], s => s
  | i :: is, (st, u) =>
    let st := if submitRc i = 0 then { st with inFlight := st.inFlight + 1 } else st
    submitAll submitRc is (st, u.submit i (submitRc i))

/-- The engine `start` builds. -/
def Engine.new (device : Device) : Engine where
  interface := device.audioInterface
  transfers := List.replicate isoBuffers (inTransfer device) ++
    List.replicate isoBuffers (outTransfer device)

/-- `start`. -/
def usbStart (ans : StartAnswers) (device : Device) (st : StreamState) (u : Libusb) :
    Except String Engine × StreamState × Libusb :=
  if ans.initRc ≠ 0 then (.error "libusb_init failed", st, u)
  else
    let u := u.acquire .context
    if !ans.opened then
      (.error s!"could not open {device.name} over USB", st, u.release .context)
    else
      let u := u.acquire .handle
      let iface := device.audioInterface
      let rc := ans.claimRc
      if rc ≠ 0 then
        (.error s!"claim_interface({iface}): {rc}", st, (u.release .handle).release .context)
      else
        let u := u.acquire .interface
        let rc := ans.altRc
        if rc ≠ 0 then
          (.error s!"set_alt_setting: {rc}", st,
            ((u.release .interface).release .handle).release .context)
        else
          let eng := Engine.new device
          let u := eng.ids.foldl (fun u i => u.acquire (.transfer i)) u
          let (st, u) := submitAll ans.submitRc eng.ids (st, u)
          if st.inFlight = 0 then
            (.error "no transfer started", st, u.shutDown eng.ids)
          else
            (.ok eng, st, u)

/-! ## Events and stop -/

/-- The completion of a transfer: its index, for an IN transfer the bytes of its buffer and the
reports on its packets, and what a resubmission would return. -/
structure Delivery where
  transfer : Nat
  buffer : List UInt8
  packets : List IsoPacket
  submitRc : Int
  deriving Repr, DecidableEq

/-- A capture: its stream state, libusb, and the world its callbacks push into. -/
structure Capture (α : Type) where
  st : StreamState
  usb : Libusb
  world : World α

/-- The callback of a transfer. -/
def Transfer.run [Pcm α] (osc : Nat → α) (t : Transfer) (c : Delivery) (st : StreamState) :
    Prog (World α) StreamState :=
  match t.callback with
  | .onIn => onIn osc c.buffer c.packets c.submitRc st
  | .onOut => onOut c.submitRc st

/-- One completion inside `libusb_handle_events`: the transfer is no longer in flight, its
callback runs, which submits it again while the stream is running. Nothing when the transfer was
not in flight, or its callback kills the process. -/
def deliver [Pcm α] (osc : Nat → α) (eng : Engine) (c : Delivery) (s : Capture α) :
    Option (Capture α) :=
  if c.transfer ∈ s.usb.inFlight then
    match eng.transfers[c.transfer]? with
    | none => none
    | some t =>
      match exec (t.run osc c s.st) false s.world with
      | .done _ w st =>
        let u := { s.usb with inFlight := s.usb.inFlight.erase c.transfer }
        some ⟨st, if s.st.running then u.submit c.transfer c.submitRc else u, w⟩
      | _ => none
  else none

/-- A call of `handle_events`: the completions it delivers, one after another. -/
def handleEvents [Pcm α] (osc : Nat → α) (eng : Engine) :
    List Delivery → Capture α → Option (Capture α)
  | [], s => some s
  | c :: cs, s => (deliver osc eng c s).bind (handleEvents osc eng cs)

/-- What `stop` does before it drains: no more resubmissions, and a request to cancel each
transfer. -/
def stopRequest (eng : Engine) (s : Capture α) : Capture α where
  st := { s.st with running := false }
  usb := eng.ids.foldl Libusb.cancel s.usb
  world := s.world

/-- An iteration of the drain loop: the seconds `drain.elapsed()` at its guard, and what
`handle_events` delivers if the guard holds. -/
structure Round where
  elapsed : ℚ
  deliveries : List Delivery
  deriving Repr, DecidableEq

/-- The completions the drain loop delivers. -/
def completions (rounds : List Round) : List Delivery := rounds.flatMap Round.deliveries

/-- The guard of the drain loop. -/
def draining (st : StreamState) (elapsed : ℚ) : Bool :=
  decide (0 < st.inFlight) && decide (elapsed < 2)

/-- The drain loop, over the iterations to come. Nothing when a callback kills the process, or
when the loop goes on after the last of them. -/
def drain [Pcm α] (osc : Nat → α) (eng : Engine) : List Round → Capture α → Option (Capture α)
  | [], _ => none
  | r :: rs, s =>
    if draining s.st r.elapsed then (handleEvents osc eng r.deliveries s).bind (drain osc eng rs)
    else some s

/-- What `stop` does after it drained. -/
def stopFree (eng : Engine) (s : Capture α) : Capture α :=
  { s with usb := s.usb.shutDown eng.ids }

/-- `stop`. -/
def usbStop [Pcm α] (osc : Nat → α) (eng : Engine) (rounds : List Round) (s : Capture α) :
    Option (Capture α) :=
  (drain osc eng rounds (stopRequest eng s)).map (stopFree eng)

end Line6
