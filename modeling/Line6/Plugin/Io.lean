import Line6.Plugin.SharedMemory

/-!
# The plugin's IO entry points

`Line6_StartIO`, `Line6_StopIO`, `Line6_GetZeroTimeStamp` and `Line6_DoIOOperation`
(`Line6HAL.c`, "IO"), with the 32- and 64-bit unsigned arithmetic of the source. Clock readings
and the results of system calls are arguments. `Float64` products are exact rationals, a cast to
`UInt64` truncates.

`DoIOOperation` returns its local variables `ch`, `w`, `rf`, whether it was the call that moved
the cursor (`first`), and its stores to the host's buffer in program order: index of the float and
value.
-/

namespace Line6

open Conc Conc.Prog

variable {α : Type}

inductive HalError where
  | unknownProperty
  | badObject
  | unsupportedOperation
  deriving Repr, DecidableEq

def kSafetyOffset : UInt32 := 256

def kDefaultMargin : UInt32 := 3072

def kDeviceRingPeriod : UInt64 := 8192

/-! ## StartIO, StopIO, GetZeroTimeStamp -/

/-- `Line6_StartIO`; `known`: the driver and the device are ours. -/
def startIo (known : Bool) (sys : Sys) (now : UInt64) :
    Prog (World α) (Except HalError Unit) := do
  if !known then return .error .badObject
  acquire
  if (← rd fun m => m.plug.gIORunning) == 0 then
    attachShm sys
    wrPlug fun p => { p with gAnchorHostTime := now, gNumberTimeStamps := 0 }
    let w0 ← (do
      if ← rd fun m => m.plug.gShm then rd fun m => m.shm.writeFrames else return 0)
    wrPlug fun p => { p with cursor := ⟨w0, w0, 0 - 1⟩ } -- re-anchors on the first DoIO
  wrPlug fun p => { p with gIORunning := p.gIORunning + 1 }
  release
  return .ok ()

/-- `Line6_StopIO`. -/
def stopIo (known : Bool) : Prog (World α) (Except HalError Unit) := do
  if !known then return .error .badObject
  acquire
  wrPlug fun p =>
    { p with gIORunning := if p.gIORunning > 0 then p.gIORunning - 1 else p.gIORunning }
  release
  return .ok ()

/-- `(UInt64)x` for a non-negative `x`. -/
def truncU64 (x : ℚ) : UInt64 := UInt64.ofNat x.floor.toNat

/-- The host time of period boundary `n`. -/
def Plugin.boundary (p : Plugin) (n : UInt64) : UInt64 :=
  p.gAnchorHostTime +
    truncU64 (n.toNat * (p.gHostTicksPerFrame * kDeviceRingPeriod.toNat))

/-- `if (now >= nextWrapTime) gNumberTimeStamps++`. -/
def Plugin.tickTimeline (now : UInt64) (p : Plugin) : Plugin :=
  if p.boundary (p.gNumberTimeStamps + 1) ≤ now then
    { p with gNumberTimeStamps := p.gNumberTimeStamps + 1 }
  else p

/-- `Line6_GetZeroTimeStamp`: sample time, host time, seed. -/
def getZeroTimeStamp (known : Bool) (now : UInt64) :
    Prog (World α) (Except HalError (UInt64 × UInt64 × UInt64)) := do
  if !known then return .error .badObject
  acquire
  wrPlug fun p => p.tickTimeline now
  let n ← rd fun m => m.plug.gNumberTimeStamps
  let host ← rd fun m => m.plug.boundary n
  release
  return .ok (n * kDeviceRingPeriod, host, 1)

/-! ## DoIOOperation: the cursor -/

/-- The read depth `lat`: two buffers and the safety offset, or the margin if that is more. -/
def readDepth (inFrames margin : UInt32) : UInt64 :=
  let lat := inFrames.toUInt64 * 2 + kSafetyOffset.toUInt64
  if lat < margin.toUInt64 then margin.toUInt64 else lat

/-- The three resync conditions: the buffer would reach the write head, the cursor is past it,
the cursor fell out of the ring. -/
def Cursor.resyncs (c : Cursor) (inFrames : UInt32) (w : UInt64) : Bool :=
  decide (w < c.gReadFrame + inFrames.toUInt64) || decide (w < c.gReadFrame) ||
    decide ((ringFrames - inFrames).toUInt64 < w - c.gReadFrame)

/-- Where the window of the cycle starts. -/
def Cursor.windowStart (c : Cursor) (inFrames margin : UInt32) (w : UInt64) : UInt64 :=
  if c.resyncs inFrames w then
    let lat := readDepth inFrames margin
    if lat < w then w - lat else 0
  else c.gReadFrame

/-- The cursor section of a cycle's first call. -/
def Cursor.move (c : Cursor) (inFrames margin : UInt32) (cycle w : UInt64) : Cursor :=
  let rf := c.windowStart inFrames margin w
  { gReadFrame := rf + inFrames.toUInt64, gCycleReadFrame := rf, gLastCycle := cycle }

/-- `gShm->latency_frames ? gShm->latency_frames : kDefaultMargin`: the word is read twice. -/
def readMargin : Prog (World α) UInt32 := do
  if (← rd fun m => m.shm.latencyFrames) != 0 then rd fun m => m.shm.latencyFrames
  else return kDefaultMargin

/-- The section of `DoIOOperation` under the mutex: the start of the window, and whether this
call moved the cursor. -/
def cursorSection (inFrames : UInt32) (cycle w : UInt64) : Prog (World α) (UInt64 × Bool) := do
  acquire
  let first ← rd fun m => cycle != m.plug.cursor.gLastCycle
  if first then
    let margin ← readMargin
    wrPlug fun p => { p with cursor := p.cursor.move inFrames margin cycle w }
  let rf ← rd fun m => m.plug.cursor.gCycleReadFrame
  release
  return (rf, first)

/-! ## DoIOOperation: the copy -/

/-- `ring[i]`; a read outside the segment is a `trap`. -/
def loadCell (i : Nat) : Prog (World α) α :=
  if i < ringSamples then rd fun m => m.shm.ring i else trap

/-- `memset(&out[dst], 0, ..)` over `count` floats. -/
def silenceCells [Pcm α] (dst count : Nat) : List (Nat × α) :=
  (List.range count).map fun j => (dst + j, Pcm.silence)

/-- `memcpy` of one frame: the `rem` channels from `c` on, from `ring[slot ..]` to `out[dst ..]`. -/
def copyCells (slot dst : Nat) : Nat → Nat → Prog (World α) (List (Nat × α))
  | 0, _ => return []
  | rem + 1, c => do
    let v ← loadCell (slot + c)
    let rest ← copyCells slot dst rem (c + 1)
    return (dst + c, v) :: rest

/-- The copy loop: the `rem` frames from `i` on. -/
def copyFrames [Pcm α] (ch : Nat) (w rf : UInt64) : Nat → Nat → Prog (World α) (List (Nat × α))
  | 0, _ => return []
  | rem + 1, i => do
    let src := rf + UInt64.ofNat i
    let frame ← (if src < w then copyCells ((src &&& ringMask).toNat * ch) (i * ch) ch 0
      else return silenceCells (i * ch) ch) -- underrun -> silence
    let rest ← copyFrames ch w rf rem (i + 1)
    return frame ++ rest

/-- How a `DoIOOperation` call went. -/
inductive IOResult (α : Type) where
  | skipped
  | detached (ch : UInt32) (writes : List (Nat × α))
  | read (ch : UInt32) (w rf : UInt64) (first : Bool) (writes : List (Nat × α))

/-- The stores to the host's buffer. -/
def IOResult.writes : IOResult α → List (Nat × α)
  | .skipped => []
  | .detached _ writes => writes
  | .read _ _ _ _ writes => writes

/-- `DoIOOperation` from its load of `write_frames` on. -/
def doIOFromLoad [Pcm α] (inFrames : UInt32) (cycle : UInt64) (ch : UInt32) :
    Prog (World α) (IOResult α) := do
  let w ← rd fun m => m.shm.writeFrames
  let (rf, first) ← cursorSection inFrames cycle w
  let writes ← copyFrames ch.toNat w rf inFrames.toNat 0
  return .read ch w rf first writes

/-- `Line6_DoIOOperation`; `readInput`: the operation is ReadInput, `outNull`: the main buffer is
NULL. -/
def doIOOperation [Pcm α] (readInput outNull : Bool) (inFrames : UInt32) (cycle : UInt64) :
    Prog (World α) (IOResult α) := do
  if !readInput then return .skipped
  if outNull then return .skipped
  let ch ← devChannels
  if !(← rd fun m => m.plug.gShm) then
    return .detached ch (silenceCells 0 (inFrames.toNat * ch.toNat))
  doIOFromLoad inFrames cycle ch

/-! ## The cells a call writes -/

theorem silenceCells_fst [Pcm α] (dst count : Nat) :
    (silenceCells (α := α) dst count).map Prod.fst = List.range' dst count := by
  unfold silenceCells
  rw [List.map_map, List.range'_eq_map_range]
  rfl

theorem yields_copyCells (slot dst : Nat) {rem c : Nat} :
    Yields (fun ws => ws.map Prod.fst = List.range' (dst + c) rem)
      (copyCells (α := α) slot dst rem c) := by
  induction rem generalizing c with
  | zero => rfl
  | succ rem ih =>
    refine (yields_any _).bind fun v _ => (ih (c := c + 1)).bind fun ws hws => ?_
    show (dst + c) :: ws.map Prod.fst = _
    rw [hws, List.range'_succ]
    rfl

/-- The copy writes the cells of its frames, one after another, whatever it reads. -/
theorem yields_copyFrames [Pcm α] (ch : Nat) (w rf : UInt64) {rem i : Nat} :
    Yields (fun ws => ws.map Prod.fst = List.range' (i * ch) (rem * ch))
      (copyFrames (α := α) ch w rf rem i) := by
  induction rem generalizing i with
  | zero =>
    rw [Nat.zero_mul]
    rfl
  | succ rem ih =>
    have hframe : Yields (fun ws => ws.map Prod.fst = List.range' (i * ch) ch)
        (if rf + UInt64.ofNat i < w
          then copyCells (((rf + UInt64.ofNat i) &&& ringMask).toNat * ch) (i * ch) ch 0
          else pure (silenceCells (α := α) (i * ch) ch)) := by
      by_cases hbelow : rf + UInt64.ofNat i < w
      · rw [if_pos hbelow]
        exact yields_copyCells _ (i * ch) (c := 0)
      · rw [if_neg hbelow]
        exact silenceCells_fst _ _
    refine hframe.bind fun ws hws => (ih (i := i + 1)).bind fun ws' hws' => ?_
    show (ws ++ ws').map Prod.fst = _
    rw [List.map_append, hws, hws', Nat.succ_mul, Nat.succ_mul, Nat.add_comm (rem * ch),
      List.range'_append_1]

/-- **A call writes the floats of `inFrames` frames of its stride**, each once and in order. -/
theorem yields_doIOFromLoad [Pcm α] (n : UInt32) (cycle : UInt64) (ch : UInt32) :
    Yields (fun r => r.writes.map Prod.fst = List.range (n.toNat * ch.toNat))
      (doIOFromLoad (α := α) n cycle ch) := by
  refine (yields_any _).bind fun w _ => (yields_any _).bind fun r _ => ?_
  refine (yields_copyFrames ch.toNat w r.1).bind fun ws hws => ?_
  show ws.map Prod.fst = _
  rw [hws, Nat.zero_mul, List.range_eq_range']

/-! ## Whole calls of StartIO, StopIO and GetZeroTimeStamp -/

/-- The globals after a `StartIO` that starts IO, or joins it. -/
def World.startedIo (m : World α) (now : UInt64) : World α :=
  { m with plug :=
    if m.plug.gIORunning = 0 then
      { m.plug with
        gAnchorHostTime := now
        gNumberTimeStamps := 0
        cursor := ⟨m.shm.writeFrames, m.shm.writeFrames, 0 - 1⟩
        gIORunning := 1 }
    else { m.plug with gIORunning := m.plug.gIORunning + 1 } }

/-- **`StartIO`**, nobody interfering: it returns if IO runs already or the segment is attached,
and otherwise waits for the mutex it holds. -/
theorem exec_startIo (m : World α) (sys : Sys) (now : UInt64) :
    exec (startIo true sys now) false m =
      if m.plug.gIORunning = 0 ∧ m.plug.gShm = false then .stuck m
      else .done false (m.startedIo now) (.ok ()) := by
  unfold startIo World.startedIo
  by_cases hrun : m.plug.gIORunning = 0
  · cases hshm : m.plug.gShm
    · simp [hrun, hshm, attachShm]
    · simp [hrun, hshm, attachShm, wrPlug]
  · simp [hrun, wrPlug]

theorem exec_stopIo (m : World α) :
    exec (stopIo true) false m = .done false { m with plug := { m.plug with
      gIORunning := if m.plug.gIORunning > 0 then m.plug.gIORunning - 1
        else m.plug.gIORunning } } (.ok ()) := rfl

theorem exec_getZeroTimeStamp (m : World α) (now : UInt64) :
    exec (getZeroTimeStamp true now) false m =
      .done false { m with plug := m.plug.tickTimeline now }
        (.ok ((m.plug.tickTimeline now).gNumberTimeStamps * kDeviceRingPeriod,
          (m.plug.tickTimeline now).boundary (m.plug.tickTimeline now).gNumberTimeStamps, 1)) :=
  rfl

end Line6
