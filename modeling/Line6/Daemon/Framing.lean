import Mathlib.Algebra.BigOperators.Group.List.Defs
import Line6.Daemon.Usb

/-!
# Framing of isochronous packets (`docs/PROTOCOL.md`, "Framing caveat")

Every packet starts on a frame boundary and may end inside a frame. libusb puts packet `i` of a
transfer at the sum of the lengths requested before it (`Transfer.offset`); `on_in` slices the
buffer at `i * in_pkt_len` and cuts the partial tail.

## Results

* `exec_onInPacket`: one packet appends its whole frames and nothing else.
* `streamed_onIn`: so does one completed transfer, packet after packet.
* `packet_framing`: any sequence of completed IN transfers appends exactly the whole frames of
  their packets, in order (with `--sine`, as many frames of the tone), counts the partial tails and
  the failed packets, and never slices outside a packet's region of the buffer.
-/

namespace Line6

open Conc Conc.Prog

variable {α : Type}

/-! ## What libusb promises of a completion -/

/-- Where libusb stores packet `i`. -/
def Transfer.offset (t : Transfer) (i : Nat) : Nat := (t.packetLengths.take i).sum

/-- The bytes of packet `i`. -/
def Transfer.packet (t : Transfer) (buffer : List UInt8) (i : Nat) (p : IsoPacket) : List UInt8 :=
  (buffer.drop (t.offset i)).take p.actualLength

/-- A completion of the transfer `t`: one report for each packet requested, none longer than
requested. -/
structure Completion (t : Transfer) where
  buffer : List UInt8
  packets : List IsoPacket
  submitRc : Int
  buffer_length : buffer.length = t.capacity
  packets_length : packets.length = t.packetLengths.length
  packet_fits : ∀ (i n : Nat) (p : IsoPacket), packets[i]? = some p →
    t.packetLengths[i]? = some n → p.actualLength ≤ n

/-- A packet as received: libusb's report, and its bytes. -/
abbrev Received := IsoPacket × List UInt8

/-- The packets of a completion from packet `i` on. -/
def receivedFrom (t : Transfer) (buffer : List UInt8) : List IsoPacket → Nat → List Received
  | [], _ => []
  | p :: ps, i => (p, t.packet buffer i p) :: receivedFrom t buffer ps (i + 1)

/-- The packets of a completion, in order. -/
def Completion.received {t : Transfer} (c : Completion t) : List Received :=
  receivedFrom t c.buffer c.packets 0

/-- `on_in`, for one completed transfer after another. -/
def onIns [Pcm α] (osc : Nat → α) {t : Transfer} :
    List (Completion t) → StreamState → Prog (World α) StreamState
  | [], st => return st
  | c :: cs, st => do
    let st ← onIn osc c.buffer c.packets c.submitRc st
    onIns osc cs st

/-! ## Where the packets are -/

/-- The stream state is one of `d`. -/
structure StreamState.Of (st : StreamState) (d : Device) : Prop where
  channels : st.channels = d.captureChannels.toNat
  frameBytes : st.frameBytes = d.captureChannels.toNat * 3
  inPktLen : st.inPktLen = d.captureFrameBytes * maxFramesPerInPkt

theorem StreamState.new_of (d : Device) (sine : Bool) : (StreamState.new d sine).Of d :=
  ⟨rfl, rfl, rfl⟩

variable {d : Device} {st st' : StreamState}

theorem inTransfer_packetLengths (d : Device) :
    (inTransfer d).packetLengths = List.replicate 8 (d.captureFrameBytes * 8) := rfl

/-- `on_in`'s offset is libusb's. -/
theorem inTransfer_offset {i : Nat} (hi : i < 8) :
    (inTransfer d).offset i = i * (d.captureFrameBytes * 8) := by
  unfold Transfer.offset
  rw [inTransfer_packetLengths, List.take_replicate, List.sum_replicate, Nat.min_eq_left hi.le]
  rfl

/-- **The slice of a packet lies in the packet**, the packet in its region, and the region in the
buffer. -/
theorem Completion.slice_inside (c : Completion (inTransfer d)) (hst : st.Of d) {i : Nat}
    {p : IsoPacket} (hp : c.packets[i]? = some p) :
    (st.slice i p).1 = (inTransfer d).offset i ∧ (st.slice i p).2 ≤ p.actualLength ∧
      p.actualLength ≤ (inTransfer d).packetLengths.getD i 0 ∧
      (inTransfer d).offset i + (inTransfer d).packetLengths.getD i 0 ≤ c.buffer.length := by
  have hi : i < 8 := by
    have := (List.getElem?_eq_some_iff.mp hp).1
    rwa [c.packets_length] at this
  have hlen : (inTransfer d).packetLengths[i]? = some (d.captureFrameBytes * 8) := by
    rw [inTransfer_packetLengths, List.getElem?_replicate, if_pos hi]
  have hfit := c.packet_fits i _ p hp hlen
  have hcap : c.buffer.length = 8 * (d.captureFrameBytes * 8) := c.buffer_length
  rw [inTransfer_offset hi, List.getD_eq_getElem?_getD, hlen, Option.getD_some, hcap]
  refine ⟨?_, Nat.sub_le _ _, hfit, ?_⟩
  · show i * st.inPktLen = _
    rw [hst.inPktLen]
    rfl
  · have := Nat.mul_le_mul_right (d.captureFrameBytes * 8) (Nat.succ_le_of_lt hi)
    rwa [Nat.succ_mul] at this

theorem Completion.packet_length (c : Completion (inTransfer d)) (hst : st.Of d) {i : Nat}
    {p : IsoPacket} (hp : c.packets[i]? = some p) :
    ((inTransfer d).packet c.buffer i p).length = p.actualLength := by
  obtain ⟨-, -, hfits, hregion⟩ := c.slice_inside hst hp
  unfold Transfer.packet
  rw [List.length_take, List.length_drop]
  omega

/-! ## The frames of a slice -/

/-- A frame lies in the whole frames of its packet. -/
theorem frame_end {ch f c : Nat} {bytes : List UInt8} (hf : f < wholeFrames ch bytes)
    (hc : c < ch) : f * (ch * 3) + c * 3 + 2 < bytes.length - bytes.length % (ch * 3) := by
  have h1 : (f + 1) * (ch * 3) ≤ bytes.length / (ch * 3) * (ch * 3) := Nat.mul_le_mul_right _ hf
  have h2 := Nat.div_add_mod' bytes.length (ch * 3)
  rw [Nat.succ_mul] at h1
  omega

theorem wholeFrames_take {ch : Nat} (bytes : List UInt8) :
    wholeFrames ch (bytes.take (bytes.length - bytes.length % (ch * 3))) =
      wholeFrames ch bytes := by
  unfold wholeFrames
  rw [List.length_take, Nat.min_eq_left (Nat.sub_le _ _)]
  exact Nat.div_eq_sub_mod_div.symm

/-- Below the whole frames, the slice has the bytes of the packet. -/
theorem frameOf_take [Pcm α] {ch f c : Nat} {bytes : List UInt8} (hf : f < wholeFrames ch bytes)
    (hc : c < ch) :
    frameOf (α := α) ch (bytes.take (bytes.length - bytes.length % (ch * 3))) f c =
      frameOf ch bytes f c := by
  have hend := frame_end hf hc
  have hget (o : Nat) (ho : o < bytes.length - bytes.length % (ch * 3)) :
      (bytes.take (bytes.length - bytes.length % (ch * 3))).getD o 0 = bytes.getD o 0 := by
    rw [List.getD_eq_getElem?_getD, List.getD_eq_getElem?_getD, List.getElem?_take_of_lt ho]
  dsimp only [frameOf]
  rw [hget _ (by omega), hget _ (by omega), hget _ hend]

/-- **Cutting the partial tail loses no frame**: `push_frames` of the slice pushes the frames of
the packet. -/
theorem pushFrames_take [Pcm α] {ch : Nat} (hpos : 1 ≤ ch) (hch : ch ≤ 8) (bytes : List UInt8)
    (hne : wholeFrames ch bytes ≠ 0) :
    pushFrames (α := α) ch (bytes.take (bytes.length - bytes.length % (ch * 3))) =
      pushCells ch (wholeFrames ch bytes) (frameOf ch bytes) := by
  show (if ch * 3 = 0 then trap else if wholeFrames ch _ = 0 then ret () else
    pushBatch ch (wholeFrames ch _) _) = _
  rw [if_neg (by omega), wholeFrames_take, if_neg hne]
  refine pushBatch_eq hpos hch fun f hf c hc => ?_
  rw [← frameOf_take hf hc]
  exact s24At_eq (by rwa [wholeFrames_take]) hc

/-- `push_sine` pushes the next `frames` steps of the oscillator, on every channel. -/
theorem pushSine_eq (osc : Nat → α) {ch : Nat} (hpos : 1 ≤ ch) (hch : ch ≤ 8)
    (frames phase : Nat) :
    pushSine osc ch frames phase =
      pushCells ch frames (fun f _ => osc (phase + f)) >>= fun _ => ret (phase + frames) := by
  have hbatch : pushBatch ch frames (fun f _ => some (osc (phase + f))) =
      pushCells ch frames fun f _ => osc (phase + f) :=
    pushBatch_eq hpos hch fun _ _ _ _ => rfl
  unfold pushSine
  rw [hbatch]
  rfl

/-! ## What the packets do -/

/-- The whole frames of the packets. -/
def frameCount (ch : Nat) (ps : List Received) : Nat := (ps.map fun p => wholeFrames ch p.2).sum

/-- The frames of the packets. -/
def packetFrames [Pcm α] (ch : Nat) (ps : List Received) : List (Nat → α) :=
  ps.flatMap fun p => framesOf ch p.2

/-- `n` frames of the tone, from step `phase` on. -/
def toneFrames (osc : Nat → α) (phase n : Nat) : List (Nat → α) :=
  (List.range n).map fun f _ => osc (phase + f)

theorem frameCount_append (ch : Nat) (ps qs : List Received) :
    frameCount ch (ps ++ qs) = frameCount ch ps + frameCount ch qs := by
  unfold frameCount
  rw [List.map_append, List.sum_append]

theorem packetFrames_length [Pcm α] (ch : Nat) (ps : List Received) :
    (packetFrames (α := α) ch ps).length = frameCount ch ps := by
  unfold packetFrames frameCount
  simp only [List.length_flatMap, framesOf_length]

theorem toneFrames_length (osc : Nat → α) (phase n : Nat) :
    (toneFrames osc phase n).length = n := by
  unfold toneFrames
  rw [List.length_map, List.length_range]

theorem toneFrames_add (osc : Nat → α) (phase n k : Nat) :
    toneFrames osc phase (n + k) = toneFrames osc phase n ++ toneFrames osc (phase + n) k := by
  unfold toneFrames
  rw [List.range_add, List.map_append, List.map_map]
  refine congrArg _ (List.map_congr_left fun f _ => funext fun _ => ?_)
  rw [Function.comp_apply, Nat.add_assoc]

/-- What handling the packets `ps` did: `log` was appended, and the counters grew. -/
structure Streamed [Pcm α] (osc : Nat → α) (d : Device) (ps : List Received)
    (log : List (Nat → α)) (st st' : StreamState) : Prop where
  of : st'.Of d
  sine : st'.sine = st.sine
  captured : st.sine = false → log = packetFrames d.captureChannels.toNat ps
  tone : st.sine = true →
    log = toneFrames osc st.sinePhase (frameCount d.captureChannels.toNat ps)
  phase : st'.sinePhase =
    st.sinePhase + if st.sine then frameCount d.captureChannels.toNat ps else 0
  isoErrors : st'.isoErrors = st.isoErrors + ps.countP fun p => !p.1.completed
  unaligned : st'.unalignedPackets =
    st.unalignedPackets + ps.countP fun p => p.1.actualLength % (d.captureChannels.toNat * 3) != 0

/-- As many frames are appended as the packets have, with and without `--sine`. -/
theorem Streamed.length [Pcm α] {osc : Nat → α} {ps : List Received} {log : List (Nat → α)}
    (h : Streamed osc d ps log st st') : log.length = frameCount d.captureChannels.toNat ps := by
  cases hsine : st.sine with
  | false => rw [h.captured hsine, packetFrames_length]
  | true => rw [h.tone hsine, toneFrames_length]

theorem streamed_nil [Pcm α] (osc : Nat → α) (hst : st.Of d) : Streamed osc d [] [] st st where
  of := hst
  sine := rfl
  captured _ := rfl
  tone _ := rfl
  phase := by cases st.sine <;> rfl
  isoErrors := rfl
  unaligned := rfl

theorem Streamed.trans [Pcm α] {osc : Nat → α} {ps qs : List Received}
    {log more : List (Nat → α)} {st'' : StreamState} (h₁ : Streamed osc d ps log st st')
    (h₂ : Streamed osc d qs more st' st'') : Streamed osc d (ps ++ qs) (log ++ more) st st'' where
  of := h₂.of
  sine := h₂.sine.trans h₁.sine
  captured hsine := by
    rw [h₁.captured hsine, h₂.captured (h₁.sine.trans hsine)]
    exact List.flatMap_append.symm
  tone hsine := by
    rw [h₁.tone hsine, h₂.tone (h₁.sine.trans hsine), h₁.phase, if_pos hsine, frameCount_append,
      toneFrames_add]
  phase := by
    rw [h₂.phase, h₁.phase, h₁.sine, frameCount_append]
    split_ifs <;> omega
  isoErrors := by rw [h₂.isoErrors, h₁.isoErrors, List.countP_append, Nat.add_assoc]
  unaligned := by rw [h₂.unaligned, h₁.unaligned, List.countP_append, Nat.add_assoc]

/-- A resubmission, or its failure, does not concern the stream. -/
theorem Streamed.resubmit [Pcm α] {osc : Nat → α} {ps : List Received} {log : List (Nat → α)}
    (h : Streamed osc d ps log st st') (submitRc : Int) :
    Streamed osc d ps log st (st'.resubmit submitRc) := by
  unfold StreamState.resubmit
  split_ifs
  · exact ⟨⟨h.of.channels, h.of.frameBytes, h.of.inPktLen⟩, h.sine, h.captured, h.tone, h.phase,
      h.isoErrors, h.unaligned⟩
  · exact h

/-! ## One packet -/

/-- The counters after packet `p`. -/
def StreamState.counted (st : StreamState) (p : IsoPacket) : StreamState :=
  { st with
    isoErrors := st.isoErrors + (if p.completed then 0 else 1)
    unalignedPackets := st.unalignedPackets + (if p.actualLength % st.frameBytes = 0 then 0 else 1) }

theorem onInPacket_eq [Pcm α] (osc : Nat → α) {buffer : List UInt8} {i : Nat} {p : IsoPacket}
    (hfit : i * st.inPktLen + p.actualLength ≤ buffer.length) (hfb : st.frameBytes ≠ 0) :
    onInPacket osc buffer i p st =
      if p.actualLength - p.actualLength % st.frameBytes = 0 then ret (st.counted p)
      else if st.sine then
        pushSine osc st.channels ((st.slice i p).2 / st.frameBytes) st.sinePhase >>= fun phase =>
          ret { st.counted p with sinePhase := phase }
      else
        pushFrames st.channels ((buffer.drop (i * st.inPktLen)).take (st.slice i p).2) >>= fun _ =>
          ret (st.counted p) := by
  obtain ⟨completed, alen⟩ := p
  have hinside : ¬ buffer.length < i * st.inPktLen + (alen - alen % st.frameBytes) := by
    have : i * st.inPktLen + alen ≤ buffer.length := hfit
    omega
  by_cases hzero : alen = 0
  · subst hzero
    unfold onInPacket StreamState.counted
    cases completed <;> simp
  · unfold onInPacket StreamState.counted StreamState.slice
    by_cases hrem : alen % st.frameBytes = 0
    · have hwhole : ¬ buffer.length < i * st.inPktLen + alen := by simpa [hrem] using hinside
      cases completed <;> simp [hzero, hfb, hrem, hwhole]
    · cases completed <;> simp [hzero, hfb, hrem, hinside]

/-- A packet whose frames are appended, and which advances the phase by them under `--sine`. -/
theorem streamed_counted [Pcm α] {osc : Nat → α} (hst : st.Of d) {p : IsoPacket}
    {bytes : List UInt8} {log : List (Nat → α)} {phase : Nat}
    (hcaptured : st.sine = false → log = framesOf d.captureChannels.toNat bytes)
    (htone : st.sine = true →
      log = toneFrames osc st.sinePhase (wholeFrames d.captureChannels.toNat bytes))
    (hphase : phase =
      st.sinePhase + if st.sine then wholeFrames d.captureChannels.toNat bytes else 0) :
    Streamed osc d [(p, bytes)] log st { st.counted p with sinePhase := phase } where
  of := ⟨hst.channels, hst.frameBytes, hst.inPktLen⟩
  sine := rfl
  captured hsine := (hcaptured hsine).trans (List.append_nil _).symm
  tone := htone
  phase := hphase
  isoErrors := by
    rw [List.countP_singleton]
    cases hcompleted : p.completed <;> simp [StreamState.counted, hcompleted]
  unaligned := by
    rw [List.countP_singleton, ← hst.frameBytes]
    by_cases hrem : p.actualLength % st.frameBytes = 0 <;> simp [StreamState.counted, hrem]

/-- **One packet appends its whole frames**, whatever its status and length. -/
theorem exec_onInPacket [Pcm α] (osc : Nat → α) (hpos : 1 ≤ d.captureChannels.toNat)
    (hch : d.captureChannels.toNat ≤ 8) (hst : st.Of d) {m₀ m : World α}
    {log : List (Nat → α)} (hm : Appended d.captureChannels.toNat log m₀ m)
    {buffer : List UInt8} {i : Nat} {p : IsoPacket}
    (hfit : i * st.inPktLen + p.actualLength ≤ buffer.length) (l : Bool) :
    ∃ m' st' more, exec (onInPacket osc buffer i p st) l m = .done l m' st' ∧
      Appended d.captureChannels.toNat (log ++ more) m₀ m' ∧
      Streamed osc d [(p, (buffer.drop (i * st.inPktLen)).take p.actualLength)] more st st' := by
  obtain ⟨bytes, hbytes⟩ : ∃ b, b = (buffer.drop (i * st.inPktLen)).take p.actualLength := ⟨_, rfl⟩
  have hlen : bytes.length = p.actualLength := by
    rw [hbytes, List.length_take, List.length_drop]
    omega
  have hfb : st.frameBytes ≠ 0 := by rw [hst.frameBytes]; omega
  have hwhole : p.actualLength - p.actualLength % st.frameBytes =
      wholeFrames d.captureChannels.toNat bytes * st.frameBytes := by
    unfold wholeFrames
    rw [hst.frameBytes, hlen, Nat.div_mul_self_eq_mod_sub_self]
  have hslice : (buffer.drop (i * st.inPktLen)).take (st.slice i p).2 =
      bytes.take (bytes.length - bytes.length % (d.captureChannels.toNat * 3)) := by
    rw [hbytes, List.take_take, ← hbytes, hlen, ← hst.frameBytes, Nat.min_eq_left (Nat.sub_le _ _)]
    rfl
  rw [onInPacket_eq osc hfit hfb, hslice, ← hbytes]
  by_cases hzero : wholeFrames d.captureChannels.toNat bytes = 0
  · rw [if_pos (by rw [hwhole, hzero, Nat.zero_mul])]
    refine ⟨m, st.counted p, [], rfl, (List.append_nil log).symm ▸ hm, ?_⟩
    refine streamed_counted hst (fun _ => ?_) (fun _ => ?_) ?_
    · unfold framesOf
      rw [hzero]
      rfl
    · rw [hzero]
      rfl
    · rw [hzero, ite_self]
      rfl
  rw [if_neg (by rw [hwhole]; exact Nat.mul_ne_zero hzero hfb), hst.channels]
  by_cases hsine : st.sine = true
  · have hframes : (st.slice i p).2 / st.frameBytes =
        wholeFrames d.captureChannels.toNat bytes := by
      show (p.actualLength - _) / _ = _
      rw [hwhole, Nat.mul_div_cancel _ (Nat.pos_of_ne_zero hfb)]
    obtain ⟨m', hexec, hm'⟩ := exec_pushCells hpos hm
      (wholeFrames d.captureChannels.toNat bytes) (fun f _ => osc (st.sinePhase + f)) l
    rw [if_pos hsine, pushSine_eq osc hpos hch, hframes, bind_assoc]
    refine ⟨m', _, _, exec_bind_done hexec, hm', ?_⟩
    refine streamed_counted hst (fun h => ?_) (fun _ => rfl) ?_
    · rw [hsine] at h
      cases h
    · rw [if_pos hsine]
  · obtain ⟨m', hexec, hm'⟩ := exec_pushCells hpos hm
      (wholeFrames d.captureChannels.toNat bytes) (frameOf d.captureChannels.toNat bytes) l
    rw [if_neg hsine, pushFrames_take hpos hch bytes hzero]
    refine ⟨m', st.counted p, _, exec_bind_done hexec, hm', ?_⟩
    refine streamed_counted hst (fun _ => rfl) (fun h => absurd h hsine) ?_
    rw [if_neg hsine]
    rfl

/-! ## Transfers -/

theorem packets_tail {ps packets : List IsoPacket} {p : IsoPacket} {i : Nat}
    (hps : ∀ j, (p :: ps)[j]? = packets[i + j]?) (j : Nat) : ps[j]? = packets[i + 1 + j]? := by
  rw [Nat.add_assoc, Nat.add_comm 1 j]
  exact hps (j + 1)

/-- **One completed transfer.** -/
theorem exec_onInPackets [Pcm α] (osc : Nat → α) (hpos : 1 ≤ d.captureChannels.toNat)
    (hch : d.captureChannels.toNat ≤ 8) {m₀ : World α} (c : Completion (inTransfer d)) (l : Bool)
    {ps : List IsoPacket} {i : Nat} (hps : ∀ j, ps[j]? = c.packets[i + j]?) {m : World α}
    {log : List (Nat → α)} (hm : Appended d.captureChannels.toNat log m₀ m) {st : StreamState}
    (hst : st.Of d) :
    ∃ m' st' more, exec (onInPackets osc c.buffer ps i st) l m = .done l m' st' ∧
      Appended d.captureChannels.toNat (log ++ more) m₀ m' ∧
      Streamed osc d (receivedFrom (inTransfer d) c.buffer ps i) more st st' := by
  induction ps generalizing i m log st with
  | nil => exact ⟨m, st, [], rfl, (List.append_nil log).symm ▸ hm, streamed_nil osc hst⟩
  | cons p ps ih =>
    have hp : c.packets[i]? = some p := (hps 0).symm
    obtain ⟨hbase, -, hfits, hregion⟩ := c.slice_inside hst hp
    have hbase' : i * st.inPktLen = (inTransfer d).offset i := hbase
    have hfit : i * st.inPktLen + p.actualLength ≤ c.buffer.length := by
      rw [hbase']
      omega
    obtain ⟨m₁, st₁, log₁, hexec₁, hm₁, hstream₁⟩ := exec_onInPacket osc hpos hch hst hm hfit l
    obtain ⟨m₂, st₂, log₂, hexec₂, hm₂, hstream₂⟩ := ih (packets_tail hps) hm₁ hstream₁.of
    rw [hbase'] at hstream₁
    refine ⟨m₂, st₂, log₁ ++ log₂, (exec_bind_done hexec₁).trans hexec₂, ?_,
      hstream₁.trans hstream₂⟩
    rwa [← List.append_assoc]

/-- The packets of a transfer have room for eight frames each. -/
theorem frameCount_receivedFrom (c : Completion (inTransfer d)) {ps : List IsoPacket} {i : Nat}
    (hps : ∀ j, ps[j]? = c.packets[i + j]?) :
    frameCount d.captureChannels.toNat (receivedFrom (inTransfer d) c.buffer ps i) ≤
      ps.length * 8 := by
  induction ps generalizing i with
  | nil => exact le_rfl
  | cons p ps ih =>
    have hp : c.packets[i]? = some p := (hps 0).symm
    have hst := StreamState.new_of d false
    have hlen := c.packet_length hst hp
    have hfits := (c.slice_inside hst hp).2.2.1
    have hroom : (inTransfer d).packetLengths.getD i 0 ≤ d.captureChannels.toNat * 3 * 8 := by
      rw [inTransfer_packetLengths, List.getD_eq_getElem?_getD, List.getElem?_replicate]
      split_ifs
      · exact le_rfl
      · exact Nat.zero_le _
    have hwhole : wholeFrames d.captureChannels.toNat ((inTransfer d).packet c.buffer i p) ≤ 8 := by
      unfold wholeFrames
      rw [hlen]
      exact Nat.div_le_of_le_mul (hfits.trans hroom)
    have hsum : frameCount d.captureChannels.toNat
        (receivedFrom (inTransfer d) c.buffer (p :: ps) i) =
        wholeFrames d.captureChannels.toNat ((inTransfer d).packet c.buffer i p) +
          frameCount d.captureChannels.toNat (receivedFrom (inTransfer d) c.buffer ps (i + 1)) :=
      List.sum_cons
    have := ih (packets_tail hps)
    rw [hsum, List.length_cons]
    omega

theorem Completion.frameCount_le (c : Completion (inTransfer d)) :
    frameCount d.captureChannels.toNat c.received ≤ 64 := by
  have hlen : c.packets.length = 8 := c.packets_length
  have hall (j : Nat) : c.packets[j]? = c.packets[0 + j]? := by rw [Nat.zero_add]
  have := frameCount_receivedFrom c hall
  rwa [hlen] at this

theorem streamed_onIn [Pcm α] (osc : Nat → α) (hpos : 1 ≤ d.captureChannels.toNat)
    (hch : d.captureChannels.toNat ≤ 8) {m₀ m : World α} {log : List (Nat → α)}
    (hm : Appended d.captureChannels.toNat log m₀ m) (hst : st.Of d)
    (c : Completion (inTransfer d)) (l : Bool) :
    ∃ m' st' more, exec (onIn osc c.buffer c.packets c.submitRc st) l m = .done l m' st' ∧
      Appended d.captureChannels.toNat (log ++ more) m₀ m' ∧
      Streamed osc d c.received more st st' := by
  have hall (j : Nat) : c.packets[j]? = c.packets[0 + j]? := by rw [Nat.zero_add]
  obtain ⟨m', st', more, hexec, hm', hstream⟩ := exec_onInPackets osc hpos hch c l hall hm hst
  exact ⟨m', st'.resubmit c.submitRc, more, exec_bind_done hexec, hm',
    hstream.resubmit c.submitRc⟩

theorem streamed_onIns [Pcm α] (osc : Nat → α) (hpos : 1 ≤ d.captureChannels.toNat)
    (hch : d.captureChannels.toNat ≤ 8) {m₀ : World α} (l : Bool)
    (cs : List (Completion (inTransfer d))) {m : World α} {log : List (Nat → α)}
    (hm : Appended d.captureChannels.toNat log m₀ m) {st : StreamState} (hst : st.Of d) :
    ∃ m' st' more, exec (onIns osc cs st) l m = .done l m' st' ∧
      Appended d.captureChannels.toNat (log ++ more) m₀ m' ∧
      Streamed osc d (cs.flatMap Completion.received) more st st' := by
  induction cs generalizing m log st with
  | nil => exact ⟨m, st, [], rfl, (List.append_nil log).symm ▸ hm, streamed_nil osc hst⟩
  | cons c cs ih =>
    obtain ⟨m₁, st₁, log₁, hexec₁, hm₁, hstream₁⟩ := streamed_onIn osc hpos hch hm hst c l
    obtain ⟨m₂, st₂, log₂, hexec₂, hm₂, hstream₂⟩ := ih hm₁ hstream₁.of
    refine ⟨m₂, st₂, log₁ ++ log₂, (exec_bind_done hexec₁).trans hexec₂, ?_,
      hstream₁.trans hstream₂⟩
    rwa [← List.append_assoc]

/-- **No packet rotates the channels, and only partial tails are lost.** -/
theorem packet_framing [Pcm α] (osc : Nat → α) (d : Device) (hpos : 1 ≤ d.captureChannels.toNat)
    (hch : d.captureChannels.toNat ≤ 8) (cs : List (Completion (inTransfer d)))
    {st : StreamState} (hst : st.Of d) (m : World α) (l : Bool) :
    (∃ m' st' log, exec (onIns osc cs st) l m = .done l m' st' ∧
      Appended d.captureChannels.toNat log m m' ∧
      Streamed osc d (cs.flatMap Completion.received) log st st' ∧
      log.length = frameCount d.captureChannels.toNat (cs.flatMap Completion.received)) ∧
    ∀ s : StreamState, s.Of d → ∀ c ∈ cs, ∀ i p, c.packets[i]? = some p →
      ((inTransfer d).packet c.buffer i p).length = p.actualLength ∧
      (inTransfer d).offset i = (s.slice i p).1 ∧ (s.slice i p).2 ≤ p.actualLength ∧
      p.actualLength ≤ (inTransfer d).packetLengths.getD i 0 ∧
      (inTransfer d).offset i + (inTransfer d).packetLengths.getD i 0 ≤ c.buffer.length := by
  constructor
  · obtain ⟨m', st', log, hexec, hm', hstream⟩ :=
      streamed_onIns osc hpos hch l cs (appended_nil _ m) hst
    exact ⟨m', st', log, hexec, hm', hstream, hstream.length⟩
  · intro s hs c _ i p hp
    obtain ⟨hbase, hrest⟩ := c.slice_inside hs hp
    exact ⟨c.packet_length hs hp, hbase.symm, hrest⟩

/-- A device of two channels. -/
def stereoDevice : Device :=
  { name := "stereo", productId := 2, audioInterface := 0, altSetting := 1, epAudioIn := 0x86,
    epAudioOut := 0x02, captureChannels := 2, playbackChannels := 2 }

/-- Eight packets of a frame and a byte each, the bytes counting up, all of them failed. -/
def tailedCompletion : Completion (inTransfer stereoDevice) where
  buffer := (List.range 384).map UInt8.ofNat
  packets := List.replicate 8 ⟨false, 7⟩
  submitRc := 0
  buffer_length := by rw [List.length_map, List.length_range]; rfl
  packets_length := rfl
  packet_fits i n p hp hn := by
    rw [inTransfer_packetLengths, List.getElem?_replicate] at hn
    rw [List.getElem?_replicate] at hp
    split_ifs at hp hn
    cases hp
    cases hn
    decide

/-- A fresh capture of the tailed packets: one frame each, and both counters count all eight. -/
theorem packet_framing_tailed :
    ∃ (m' : World ℚ) (st' : StreamState) (log : List (Nat → ℚ)),
      exec (onIns (fun _ => 0) [tailedCompletion] (.new stereoDevice false)) false
        ⟨true, Shm.zero, {}⟩ = .done false m' st' ∧
      m'.shm.writeFrames = 8 ∧ log.length = 8 ∧ st'.isoErrors = 8 ∧ st'.unalignedPackets = 8 := by
  obtain ⟨⟨m', st', log, hexec, ⟨ring, hm', -⟩, hstream, hlen⟩, -⟩ :=
    packet_framing (α := ℚ) (fun _ => 0) stereoDevice (by decide) (by decide) [tailedCompletion]
      (StreamState.new_of stereoDevice false) ⟨true, Shm.zero, {}⟩ false
  have hlen' : log.length = 8 := hlen.trans (by decide)
  refine ⟨m', st', log, hexec, ?_, hlen', ?_, ?_⟩
  · rw [hm', hlen']
    rfl
  · rw [hstream.isoErrors]
    decide
  · rw [hstream.unaligned]
    decide

end Line6
