import Line6.World

/-!
# The producer side of the segment (`shm.rs`)

`create`, `write_name`, `push_frames` and `push_sine` as programs over the shared `World`, every
store to the segment one action, in program order. Local variables (the write position `w`, the
loop counters) are arguments; the answers of `shm_open` and `mmap` are a `Sys`. A panic (an index
out of its slice, a division by zero) and a store outside the ring are `trap`.

The sine oscillator of `push_sine` is a parameter `osc`: its `n`-th value after the phase 0, so
that `phase` counts the steps taken.
-/

namespace Line6

open Conc Conc.Prog

variable {α : Type}

/-- Change the segment. -/
def wrShm (f : Shm α → Shm α) : Prog (World α) Unit := wr fun m => { m with shm := f m.shm }

/-- `write_name`: zero the field, then copy at most `NAME_LEN - 1` bytes. -/
def writeName (name : String) : Prog (World α) Unit := do
  wrShm fun s => { s with name := Vector.replicate nameLen 0 }
  let bytes := name.toUTF8.data.toList
  let n := min bytes.length (nameLen - 1)
  wrShm fun s => { s with name := Vector.ofFn fun i =>
    if i.val < n then bytes.getD i.val 0 else s.name.get i }

/-- `create`: open and map the segment, fill the header for `device`. -/
def create (device : Device) (latencyFrames : UInt32) (sys : Sys) :
    Prog (World α) (Except String Unit) := do
  if !sys.openOk then
    return .error s!"shm_open({shmName}) failed (errno {sys.errno})"
  wr fun m => { m with linked := true }
  if !sys.mmapOk then
    return .error s!"mmap failed (errno {sys.errno})"
  wrShm fun s => { s with magic := shmMagic }
  wrShm fun s => { s with version := shmVersion }
  wrShm fun s => { s with sampleRate := sampleRate }
  wrShm fun s => { s with channels := device.captureChannels.toUInt32 }
  wrShm fun s => { s with ringFrames := ringFrames }
  wrShm fun s => { s with latencyFrames := latencyFrames }
  writeName device.name
  wrShm fun s => { s with writeFrames := 0 }
  return .ok ()

/-! ## The frame loops -/

/-- `*ring.add(i) = v`, where `v` is `none` when computing it panicked. -/
def storeCell (i : Nat) : Option α → Prog (World α) Unit
  | some v => if i < ringSamples then
      wrShm fun s => { s with ring := Function.update s.ring i v }
    else trap
  | none => trap

/-- `for ch in ..channels`: the `rem` channels from `ch` on, at `slot`. -/
def storeChannels (val : Nat → Option α) (slot : Nat) : Nat → Nat → Prog (World α) Unit
  | 0, _ => ret ()
  | rem + 1, ch => do
    storeCell (slot + ch) (val ch)
    storeChannels val slot rem (ch + 1)

/-- `for f in ..frames`: the `rem` frames from `f` on, the first at write position `w`. -/
def storeFrames (channels : Nat) (val : Nat → Nat → Option α) :
    Nat → Nat → UInt64 → Prog (World α) UInt64
  | 0, _, w => ret w
  | rem + 1, f, w => do
    storeChannels (val f) ((w &&& ringMask).toNat * channels) channels 0
    storeFrames channels val rem (f + 1) (w + 1)

/-- The common body of `push_frames` and `push_sine`: load `write_frames`, store the frames,
publish. -/
def pushBatch (channels frames : Nat) (val : Nat → Nat → Option α) : Prog (World α) Unit := do
  let w ← rd fun m => m.shm.writeFrames
  let w ← storeFrames channels val frames 0 w
  wrShm fun s => { s with writeFrames := w }

/-- The sample of the three bytes at `o`, or `none` when an index is out of the slice. -/
def s24At [Pcm α] (channels ch : Nat) (s24 : List UInt8) (o : Nat) : Option α := do
  return Pcm.s24 channels ch (← s24[o]?) (← s24[o + 1]?) (← s24[o + 2]?)

/-- `push_frames`. -/
def pushFrames [Pcm α] (channels : Nat) (s24 : List UInt8) : Prog (World α) Unit :=
  let frameBytes := channels * 3
  if frameBytes = 0 then trap
  else
    let frames := s24.length / frameBytes
    if frames = 0 then ret ()
    else pushBatch channels frames fun f ch => s24At channels ch s24 (f * frameBytes + ch * 3)

/-- `push_sine`: the phase after the batch. -/
def pushSine (osc : Nat → α) (channels frames phase : Nat) : Prog (World α) Nat := do
  pushBatch channels frames fun f _ => some (osc (phase + f))
  return phase + frames

/-! ## A batch as a list of stores -/

/-- The `rem` stores from `j` on of the cells `cellAt`. -/
def storeAll (cellAt : Nat → Nat × α) : Nat → Nat → Prog (World α) Unit
  | 0, _ => ret ()
  | rem + 1, j => do
    wrShm fun s => { s with ring := Function.update s.ring (cellAt j).1 (cellAt j).2 }
    storeAll cellAt rem (j + 1)

theorem storeAll_add (g : Nat → Nat × α) :
    ∀ a b j, storeAll g (a + b) j = storeAll g a j >>= fun _ => storeAll g b (j + a)
  | 0, b, j => by rw [Nat.zero_add]; rfl
  | a + 1, b, j => by
    have ih := storeAll_add g a b (j + 1)
    rw [Nat.add_right_comm, show j + (a + 1) = j + 1 + a by omega]
    exact congrArg _ (funext fun _ => ih)

theorem storeAll_congr {g g' : Nat → Nat × α} :
    ∀ {rem j j' : Nat}, (∀ i < rem, g (j + i) = g' (j' + i)) →
      storeAll g rem j = storeAll g' rem j'
  | 0, _, _, _ => rfl
  | rem + 1, j, j', h => by
    have ih : storeAll g rem (j + 1) = storeAll g' rem (j' + 1) := storeAll_congr fun i hi => by
      have := h (i + 1) (Nat.succ_lt_succ hi)
      rwa [show j + 1 + i = j + (i + 1) by omega, show j' + 1 + i = j' + (i + 1) by omega]
    have h0 := h 0 (Nat.succ_pos _)
    rw [Nat.add_zero, Nat.add_zero] at h0
    unfold storeAll
    rw [h0, ih]

theorem storeChannels_eq {val : Nat → Option α} {v : Nat → α} {slot : Nat} :
    ∀ {rem ch : Nat}, (∀ i < rem, val (ch + i) = some (v (ch + i))) →
      (∀ i < rem, slot + (ch + i) < ringSamples) →
      storeChannels val slot rem ch = storeAll (fun j => (slot + j, v j)) rem ch
  | 0, _, _, _ => rfl
  | rem + 1, ch, hv, hs => by
    have h0 : val ch = some (v ch) := hv 0 (Nat.succ_pos _)
    have hlt : slot + ch < ringSamples := hs 0 (Nat.succ_pos _)
    have ih : storeChannels val slot rem (ch + 1) = storeAll _ rem (ch + 1) :=
      storeChannels_eq
        (fun i hi => by
          have := hv (i + 1) (Nat.succ_lt_succ hi)
          rwa [show ch + 1 + i = ch + (i + 1) by omega])
        (fun i hi => by
          have := hs (i + 1) (Nat.succ_lt_succ hi)
          omega)
    unfold storeChannels storeCell
    rw [h0, ih]
    simp only [if_pos hlt]
    rfl

open RingLog in
/-- **The frame loops are the stores of a batch**, in order. -/
theorem storeFrames_eq {ch : Nat} (hpos : 1 ≤ ch) (hch : ch ≤ 8) {val : Nat → Nat → Option α}
    {frame : Nat → Nat → α} (base : Nat) :
    ∀ {rem f : Nat}, (∀ i < rem, ∀ c < ch, val (f + i) c = some (frame (f + i) c)) →
      storeFrames ch val rem f (UInt64.ofNat (base + f)) =
        storeAll (batchCell 65536 ch base frame) (rem * ch) (f * ch) >>= fun _ =>
          ret (UInt64.ofNat (base + f + rem))
  | 0, f, _ => by rw [Nat.zero_mul]; rfl
  | rem + 1, f, hv => by
    have hslot : (UInt64.ofNat (base + f) &&& ringMask).toNat = (base + f) % 65536 := by
      rw [and_mask ringMask_toNat]
      exact ofNat_slot (by decide) _
    have hfirst : storeChannels (val f) ((UInt64.ofNat (base + f) &&& ringMask).toNat * ch) ch 0 =
        storeAll (batchCell 65536 ch base frame) ch (f * ch) := by
      rw [storeChannels_eq (v := frame f)
        (fun i hi => by
          have := hv 0 (Nat.succ_pos _) (0 + i) (by omega)
          rwa [Nat.add_zero] at this)
        (fun i hi => slot_lt _ hch (by omega))]
      refine storeAll_congr fun i hi => ?_
      have hdiv : (f * ch + i) / ch = f ∧ (f * ch + i) % ch = i :=
        (Nat.div_mod_unique hpos).mpr ⟨by rw [Nat.mul_comm, Nat.add_comm], hi⟩
      unfold batchCell cell
      rw [hdiv.1, hdiv.2, hslot, Nat.zero_add]
    have hnext : UInt64.ofNat (base + f) + 1 = UInt64.ofNat (base + (f + 1)) :=
      (UInt64.ofNat_add _ _).symm
    have ih : storeFrames ch val rem (f + 1) (UInt64.ofNat (base + (f + 1))) = _ :=
      storeFrames_eq hpos hch base fun i hi c hc => by
        have := hv (i + 1) (Nat.succ_lt_succ hi) c hc
        rwa [show f + 1 + i = f + (i + 1) by omega]
    have hsplit : storeAll (batchCell 65536 ch base frame) ((rem + 1) * ch) (f * ch) =
        storeAll (batchCell 65536 ch base frame) ch (f * ch) >>= fun _ =>
          storeAll (batchCell 65536 ch base frame) (rem * ch) ((f + 1) * ch) := by
      rw [Nat.succ_mul rem, Nat.succ_mul f, Nat.add_comm (rem * ch), storeAll_add]
    unfold storeFrames
    rw [hfirst, hnext, ih, hsplit, bind_assoc,
      show base + (f + 1) + rem = base + f + (rem + 1) by omega]

/-- What a push program does once its values are known: load, store the cells, publish. -/
def pushCells (ch frames : Nat) (frame : Nat → Nat → α) : Prog (World α) Unit := do
  let w ← rd fun m => m.shm.writeFrames
  storeAll (RingLog.batchCell 65536 ch w.toNat frame) (frames * ch) 0
  wrShm fun s => { s with writeFrames := UInt64.ofNat (w.toNat + frames) }

theorem pushBatch_eq {ch frames : Nat} (hpos : 1 ≤ ch) (hch : ch ≤ 8)
    {val : Nat → Nat → Option α} {frame : Nat → Nat → α}
    (hv : ∀ f < frames, ∀ c < ch, val f c = some (frame f c)) :
    pushBatch ch frames val = pushCells ch frames frame := by
  have hbody (w : UInt64) : storeFrames ch val frames 0 w =
      storeAll (RingLog.batchCell 65536 ch w.toNat frame) (frames * ch) 0 >>= fun _ =>
        ret (UInt64.ofNat (w.toNat + frames)) := by
    have hall : ∀ i < frames, ∀ c < ch, val (0 + i) c = some (frame (0 + i) c) :=
      fun i hi c hc => by rw [Nat.zero_add]; exact hv i hi c hc
    have := storeFrames_eq hpos hch w.toNat hall
    rwa [Nat.add_zero, Nat.zero_mul, UInt64.ofNat_toNat] at this
  unfold pushBatch pushCells
  refine congrArg _ (funext fun w => ?_)
  rw [hbody, bind_assoc]
  rfl

/-- Whole frames in a slice. -/
def wholeFrames (ch : Nat) (s24 : List UInt8) : Nat := s24.length / (ch * 3)

/-- Channel `c` of frame `f` of a slice. -/
def frameOf [Pcm α] (ch : Nat) (s24 : List UInt8) (f c : Nat) : α :=
  let o := f * (ch * 3) + c * 3
  Pcm.s24 ch c (s24.getD o 0) (s24.getD (o + 1) 0) (s24.getD (o + 2) 0)

/-- The frames of a slice. -/
def framesOf [Pcm α] (ch : Nat) (s24 : List UInt8) : List (Nat → α) :=
  (List.range (wholeFrames ch s24)).map (frameOf ch s24)

theorem framesOf_length [Pcm α] (ch : Nat) (s24 : List UInt8) :
    (framesOf (α := α) ch s24).length = wholeFrames ch s24 := by
  unfold framesOf
  rw [List.length_map, List.length_range]

/-- Every byte `push_frames` reads is in the slice. -/
theorem s24At_eq [Pcm α] {ch : Nat} {s24 : List UInt8} {f c : Nat}
    (hf : f < wholeFrames ch s24) (hc : c < ch) :
    s24At ch c s24 (f * (ch * 3) + c * 3) = some (frameOf (α := α) ch s24 f c) := by
  have hlen : f * (ch * 3) + c * 3 + 2 < s24.length := by
    have h1 : (f + 1) * (ch * 3) ≤ s24.length :=
      (Nat.mul_le_mul_right _ hf).trans (Nat.div_mul_le_self _ _)
    rw [Nat.succ_mul] at h1
    omega
  have hget (o : Nat) (ho : o < s24.length) : s24[o]? = some (s24.getD o 0) := by
    rw [List.getD_eq_getElem?_getD, List.getElem?_eq_getElem ho]
    rfl
  unfold s24At frameOf
  rw [hget _ (by omega), hget _ (by omega), hget _ hlen]
  rfl

/-- **`push_frames`**: nothing without a whole frame, else the cells of its frames. -/
theorem pushFrames_eq [Pcm α] {ch : Nat} (hpos : 1 ≤ ch) (hch : ch ≤ 8) (s24 : List UInt8) :
    pushFrames (α := α) ch s24 = if wholeFrames ch s24 = 0 then ret ()
      else pushCells ch (wholeFrames ch s24) (frameOf ch s24) := by
  show (if ch * 3 = 0 then trap else if wholeFrames ch s24 = 0 then ret () else pushBatch _ _ _) = _
  rw [if_neg (by omega)]
  refine if_congr Iff.rfl rfl (pushBatch_eq hpos hch fun f hf c hc => s24At_eq hf hc)

/-! ## A push, nobody interfering -/

open RingLog in
/-- The segment of `m₀` with the frames `log` appended. -/
def Appended (ch : Nat) (log : List (Nat → α)) (m₀ m : World α) : Prop :=
  ∃ ring, m = { m₀ with shm := { m₀.shm with
      writeFrames := UInt64.ofNat (m₀.shm.writeFrames.toNat + log.length), ring := ring } } ∧
    Resident 65536 ch m₀.shm.writeFrames.toNat log log.length ring

theorem appended_nil (ch : Nat) (m : World α) : Appended ch [] m m := by
  refine ⟨m.shm.ring, ?_, RingLog.resident_nil⟩
  rw [List.length_nil, Nat.add_zero, UInt64.ofNat_toNat]

open RingLog in
/-- The stores of a batch, from cell `j` on. -/
theorem exec_storeAll {ch base : Nat} {log : List (Nat → α)} {frame : Nat → Nat → α}
    (hpos : 1 ≤ ch) (rem : Nat) {j : Nat} {m : World α}
    (hm : Stored 65536 ch base log frame j m.shm.ring) (l : Bool) :
    ∃ ring, exec (storeAll (batchCell 65536 ch (base + log.length) frame) rem j) l m =
        .done l { m with shm := { m.shm with ring := ring } } () ∧
      Stored 65536 ch base log frame (j + rem) ring := by
  induction rem generalizing j m with
  | zero => exact ⟨m.shm.ring, rfl, hm⟩
  | succ rem ih =>
    have hstep := hm.step hpos
    obtain ⟨ring, hexec, hstored⟩ := ih (m := { m with shm := { m.shm with ring := _ } }) hstep
    refine ⟨ring, hexec, ?_⟩
    rwa [show j + (rem + 1) = j + 1 + rem by omega]

/-- Stores change no cell but their own. -/
theorem exec_storeAll_other (g : Nat → Nat × α) (rem : Nat) {j : Nat} {m : World α} (l : Bool) :
    ∃ ring, exec (storeAll g rem j) l m =
        .done l { m with shm := { m.shm with ring := ring } } () ∧
      ∀ i, (∀ t < rem, i ≠ (g (j + t)).1) → ring i = m.shm.ring i := by
  induction rem generalizing j m with
  | zero => exact ⟨m.shm.ring, rfl, fun _ _ => rfl⟩
  | succ rem ih =>
    obtain ⟨ring, hexec, hother⟩ := ih (j := j + 1) (m := { m with shm := { m.shm with
      ring := Function.update m.shm.ring (g j).1 (g j).2 } })
    refine ⟨ring, hexec, fun i hi => ?_⟩
    rw [hother i fun t ht => by rw [Nat.add_right_comm]; exact hi (t + 1) (Nat.succ_lt_succ ht)]
    exact Function.update_of_ne (hi 0 (Nat.succ_pos rem)) ..

open RingLog in
/-- **A push appends its frames.** -/
theorem exec_pushCells {ch : Nat} {log : List (Nat → α)} {m₀ m : World α} (hpos : 1 ≤ ch)
    (hm : Appended ch log m₀ m) (n : Nat) (frame : Nat → Nat → α) (l : Bool) :
    ∃ m', exec (pushCells ch n frame) l m = .done l m' () ∧
      Appended ch (log ++ (List.range n).map frame) m₀ m' := by
  obtain ⟨ring, rfl, hres⟩ := hm
  have hcells : batchCell 65536 ch
      (UInt64.ofNat (m₀.shm.writeFrames.toNat + log.length)).toNat frame =
      batchCell 65536 ch (m₀.shm.writeFrames.toNat + log.length) frame :=
    batchCell_congr (ofNat_slot (b := 16) (by decide) _) frame
  have hnext : UInt64.ofNat ((UInt64.ofNat (m₀.shm.writeFrames.toNat + log.length)).toNat + n) =
      UInt64.ofNat (m₀.shm.writeFrames.toNat + (log ++ (List.range n).map frame).length) := by
    rw [UInt64.ofNat_add, UInt64.ofNat_toNat, ← UInt64.ofNat_add, List.length_append,
      List.length_map, List.length_range, Nat.add_assoc]
  obtain ⟨ring', hexec, hstored⟩ := exec_storeAll hpos (n * ch)
    (m := { m₀ with shm := { m₀.shm with
      writeFrames := UInt64.ofNat (m₀.shm.writeFrames.toNat + log.length), ring := ring } })
    (stored_zero hres) l
  refine ⟨_, ?_, ring', rfl, ?_⟩
  · show exec (storeAll _ (n * ch) 0 >>= fun _ => wrShm _) l _ = _
    rw [hcells]
    refine (exec_bind_done hexec).trans ?_
    rw [← hnext]
    rfl
  · rw [Nat.zero_add] at hstored
    exact hstored.all hpos

/-! ## The daemon never touches the plugin -/

theorem samePlugin_refl (m : World α) : SamePlugin m m := rfl

theorem plain_wrShm (f : Shm α → Shm α) : Plain SamePlugin (wrShm f) := plain_wr fun _ => rfl

theorem plain_create (d : Device) (latencyFrames : UInt32) (sys : Sys) :
    Plain SamePlugin (create (α := α) d latencyFrames sys) := by
  unfold create writeName
  have hlink : Plain SamePlugin (wr fun m : World α => { m with linked := true }) :=
    plain_wr fun _ => rfl
  split_ifs
  · trivial
  · exact hlink.bind fun _ => trivial
  · refine hlink.bind fun _ => ?_
    iterate 6 refine (plain_wrShm _).bind fun _ => ?_
    exact ((plain_wrShm _).bind fun _ => plain_wrShm _).bind fun _ =>
      (plain_wrShm _).bind fun _ => trivial

section

variable {R : World α → World α → Prop} (hring : ∀ (m : World α) (i : Nat) (v : α),
  R m { m with shm := { m.shm with ring := Function.update m.shm.ring i v } })
include hring

theorem plain_storeChannels (val : Nat → Option α) (slot : Nat) :
    ∀ rem ch, Plain R (storeChannels val slot rem ch)
  | 0, _ => trivial
  | rem + 1, ch => by
    refine Plain.bind ?_ fun _ => plain_storeChannels val slot rem (ch + 1)
    unfold storeCell
    cases val ch with
    | none => trivial
    | some v =>
      split_ifs
      · exact plain_wr fun m => hring m _ v
      · trivial

/-- The frame loops only store in the ring. -/
theorem plain_storeFrames (channels : Nat) (val : Nat → Nat → Option α) :
    ∀ rem f w, Plain R (storeFrames channels val rem f w)
  | 0, _, _ => trivial
  | rem + 1, f, w => (plain_storeChannels hring _ _ _ _).bind fun _ =>
      plain_storeFrames channels val rem (f + 1) (w + 1)

end

theorem plain_pushBatch (channels frames : Nat) (val : Nat → Nat → Option α) :
    Plain SamePlugin (pushBatch channels frames val) := by
  have hload : Plain SamePlugin (rd fun m : World α => m.shm.writeFrames) :=
    plain_rd samePlugin_refl _
  exact hload.bind fun _ => (plain_storeFrames (fun _ _ _ => rfl) _ _ _ _ _).bind fun _ =>
    plain_wrShm _

theorem plain_pushFrames [Pcm α] (channels : Nat) (s24 : List UInt8) :
    Plain SamePlugin (pushFrames (α := α) channels s24) := by
  show Plain SamePlugin (if channels * 3 = 0 then trap
    else if s24.length / (channels * 3) = 0 then ret () else pushBatch _ _ _)
  split_ifs
  · trivial
  · trivial
  · exact plain_pushBatch _ _ _

end Line6
