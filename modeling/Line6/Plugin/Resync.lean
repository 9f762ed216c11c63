import Line6.Plugin.Cursor

/-!
# Where a resync puts the cursor

`DoIOOperation` resyncs the cursor when the window it is about to read would reach the write head,
lies beyond it, or has fallen out of the ring; the cursor then stands `lat` frames behind the
write head. Three things the rest of the program counts on follow only in part.

## Results

* `residency_iff`: the frames of the window that are below the write head are still in the ring
  exactly if the buffer fits the ring and no resync goes further back than the ring is long.
* `first_cycle_anchors_iff`: `StartIO` leaves the cursor at the write head and counts on the first
  `DoIOOperation` to resync; it does unless the whole window has been captured meanwhile.
* `no_frame_twice`: no captured frame is delivered in two cycles of a session whose resyncs do not
  move the cursor back.
-/

namespace Line6

open Conc Conc.Prog

variable {α : Type}

/-- Where a resync puts the window. -/
theorem windowStart_resync {c : Cursor} {n latencyFrames : UInt32} {w : UInt64}
    (h : c.resyncs n w = true) :
    (c.windowStart n (marginOf latencyFrames) w).toNat = w.toNat - depthOf n latencyFrames := by
  rw [windowStart_of_resyncs h, readDepth_eq]
  split_ifs <;> omega

/-! ## Residency -/

/-- A window of `n` frames from `rf` under the write head `w`: `LINE6_RING_FRAMES - inFrames` does
not wrap, and every frame of it below the write head is in the ring. -/
structure WindowResident (n : UInt32) (w rf : UInt64) : Prop where
  no_wrap : (ringFrames - n).toNat + n.toNat = ringFrames.toNat
  resident : ∀ i < n.toNat, rf + UInt64.ofNat i < w →
    w.toNat - (rf + UInt64.ofNat i).toNat ≤ ringFrames.toNat

theorem no_wrap_iff (n : UInt32) :
    (ringFrames - n).toNat + n.toNat = ringFrames.toNat ↔ n.toNat ≤ 65536 := by
  have hn := n.toNat_lt
  rw [UInt32.toNat_sub]
  show (2 ^ 32 - n.toNat + 65536) % 2 ^ 32 + n.toNat = 65536 ↔ _
  omega

/-- The window of a cursor is resident exactly if the buffer fits the ring and a resync does not
reach back over more frames than the ring holds. -/
theorem windowStart_resident_iff (c : Cursor) {n latencyFrames : UInt32} {w : UInt64}
    (hw : w.toNat < 2 ^ 63) :
    WindowResident n w (c.windowStart n (marginOf latencyFrames) w) ↔
      n.toNat ≤ 65536 ∧ (c.resyncs n w = true →
        n = 0 ∨ depthOf n latencyFrames ≤ 65536 ∨ w.toNat ≤ 65536) := by
  have hn := n.toNat_lt
  cases hresync : c.resyncs n w with
  | false =>
    constructor
    · exact fun h => ⟨(no_wrap_iff n).mp h.no_wrap, nofun⟩
    · rintro ⟨hfits, -⟩
      obtain ⟨h₁, h₂⟩ := (resyncs_eq_false hfits hw).mp hresync
      rw [windowStart_of_not_resyncs hresync]
      refine ⟨(no_wrap_iff n).mpr hfits, fun i hi _ => ?_⟩
      rw [toNat_position (by omega)]
      show _ ≤ 65536
      omega
  | true =>
    have hstart : (c.windowStart n (marginOf latencyFrames) w).toNat =
        w.toNat - depthOf n latencyFrames := windowStart_resync hresync
    have hsrc (i : Nat) (hi : i < n.toNat) :
        (c.windowStart n (marginOf latencyFrames) w + UInt64.ofNat i).toNat =
          w.toNat - depthOf n latencyFrames + i := by
      rw [toNat_position (by omega), hstart]
    constructor
    · intro h
      refine ⟨(no_wrap_iff n).mp h.no_wrap, fun _ => ?_⟩
      by_cases hzero : n = 0
      · exact .inl hzero
      · -- the first frame of the window is the furthest back
        right
        have hpos : 0 < n.toNat := Nat.pos_of_ne_zero fun h0 => hzero (UInt32.toNat_inj.mp h0)
        have hdepth : 0 < depthOf n latencyFrames := lt_max_of_lt_left (by omega)
        have hfirst := h.resident 0 hpos
        rw [UInt64.lt_iff_toNat_lt, hsrc 0 hpos] at hfirst
        change _ → _ ≤ 65536 at hfirst
        by_cases hempty : w.toNat = 0
        · omega
        · have := hfirst (by omega)
          omega
    · rintro ⟨hfits, hback⟩
      refine ⟨(no_wrap_iff n).mpr hfits, fun i hi hlt => ?_⟩
      rw [hsrc i hi]
      show _ ≤ 65536
      rcases hback rfl with rfl | hback
      · exact absurd hi (Nat.not_lt_zero i)
      · omega

/-- The cursor section of a cycle's first call. -/
theorem exec_first_cursorSection {m : World α} {cycle : UInt64}
    (hfirst : cycle ≠ m.plug.cursor.gLastCycle) (n : UInt32) (w : UInt64) :
    exec (cursorSection n cycle w) false m = .done false
      { m with plug := { m.plug with
          cursor := m.plug.cursor.move n (marginOf m.shm.latencyFrames) cycle w } }
      (m.plug.cursor.windowStart n (marginOf m.shm.latencyFrames) w, true) := by
  have hexec := exec_cursorSection n cycle w m
  rwa [Cursor.after_ne hfirst, bne_iff_ne.mpr hfirst] at hexec

/-- **Residency.** The first call of a cycle, which loaded the write head `w`, chooses a resident
window exactly if its buffer fits the ring and it does not have to resync by more than the ring,
the cursor, the latency word and the sizes being arbitrary. -/
theorem residency_iff (m : World α) (n : UInt32) (cycle : UInt64) {w : UInt64}
    (hfirst : cycle ≠ m.plug.cursor.gLastCycle) (hw : w.toNat < 2 ^ 63) :
    ∃ m' rf, exec (cursorSection n cycle w) false m = .done false m' (rf, true) ∧
      (WindowResident n w rf ↔ n.toNat ≤ 65536 ∧ (m.plug.cursor.resyncs n w = true →
        n = 0 ∨ depthOf n m.shm.latencyFrames ≤ 65536 ∨ w.toNat ≤ 65536)) := by
  exact ⟨_, _, exec_first_cursorSection hfirst n w, windowStart_resident_iff m.plug.cursor hw⟩

/-- A plugin whose header asks for a latency longer than the ring. -/
def deepLatency : World ℚ where
  linked := true
  shm := { started.shm with latencyFrames := 70000, writeFrames := 100000 }
  plug := { gShm := true, cursor := ⟨100000, 100000, 0 - 1⟩ }

theorem residency_started : ∃ m' rf, exec (cursorSection 512 0 10000) false started =
    .done false m' (rf, true) ∧ WindowResident 512 10000 rf := by
  obtain ⟨m', rf, hexec, hiff⟩ :=
    residency_iff started 512 0 (w := 10000) (by decide) (by decide)
  exact ⟨m', rf, hexec, hiff.mpr ⟨by decide, fun _ => .inr (.inl (by decide))⟩⟩

/-- **A resync may reach back over more frames than the ring holds.** -/
theorem deep_resync_leaves_ring : ¬ ∀ (m : World ℚ) (n : UInt32) (cycle w : UInt64) m' rf,
    cycle ≠ m.plug.cursor.gLastCycle → w.toNat < 2 ^ 63 →
    exec (cursorSection n cycle w) false m = .done false m' (rf, true) →
    WindowResident n w rf := by
  intro h
  have hresident := h deepLatency 512 0 100000 _ _ (by decide) (by decide)
    (exec_first_cursorSection (by decide) 512 100000)
  have hback := ((windowStart_resident_iff deepLatency.plug.cursor (by decide)).mp hresident).2
    (by decide)
  revert hback
  decide

/-! ## The first cycle of a session -/

/-- Where the documentation puts the first window: the whole depth behind the write head, or at 0
while fewer frames were written. -/
def Anchored (n latencyFrames : UInt32) (w rf : UInt64) : Prop :=
  rf.toNat = if depthOf n latencyFrames < w.toNat then w.toNat - depthOf n latencyFrames else 0

/-- A `StartIO` that starts IO and returns has found the segment attached. -/
theorem startIo_idle {m m₁ : World α} {sys : Sys} {now : UInt64} (hidle : m.plug.gIORunning = 0)
    (hstart : exec (startIo true sys now) false m = .done false m₁ (.ok ())) :
    m.plug.gShm = true ∧ m₁ = m.startedIo now := by
  rw [exec_startIo] at hstart
  split_ifs at hstart with hstuck
  obtain ⟨⟩ := hstart
  exact ⟨eq_true_of_ne_false fun hdetached => hstuck ⟨hidle, hdetached⟩, rfl⟩

/-- The first call of a cycle, on an attached segment. -/
theorem exec_first_doIOOperation [Pcm α] {m : World α} (hm : m.plug.gShm = true) {cycle : UInt64}
    (hfirst : cycle ≠ m.plug.cursor.gLastCycle) (n : UInt32) :
    let rf := m.plug.cursor.windowStart n (marginOf m.shm.latencyFrames) m.shm.writeFrames
    exec (doIOOperation true false n cycle) false m = .done false
      { m with plug := { m.plug with
          cursor := m.plug.cursor.move n (marginOf m.shm.latencyFrames) cycle m.shm.writeFrames } }
      (.read m.devChannels m.shm.writeFrames rf true ((List.range n.toNat).flatMap
        (frameOut m m.devChannels.toNat m.shm.writeFrames rf))) := by
  have hexec := exec_doIOOperation hm n cycle
  dsimp only at hexec
  rwa [Cursor.after_ne hfirst, bne_iff_ne.mpr hfirst] at hexec

/-- **First-cycle anchoring.** The first `ReadInput` of a session finds the cursor where `StartIO`
left it, at the write head of then. It anchors the cursor exactly if it resyncs, which it does not
when the window from there is complete and in the ring, or if the cursor is in place by chance. -/
theorem first_cycle_anchors_iff [Pcm α] {m m₁ m₂ : World α} {sys : Sys} {now : UInt64}
    (hidle : m.plug.gIORunning = 0)
    (hstart : exec (startIo true sys now) false m = .done false m₁ (.ok ()))
    (hcursor : m₂.plug.cursor = m₁.plug.cursor) (hattached : m₂.plug.gShm = m₁.plug.gShm)
    {n : UInt32} {cycle : UInt64} (hcycle : cycle ≠ 0 - 1) (hn : n.toNat ≤ 65536)
    (hw : m₂.shm.writeFrames.toNat < 2 ^ 63) :
    ∃ m₃ ch rf ws, exec (doIOOperation true false n cycle) false m₂ =
        .done false m₃ (.read ch m₂.shm.writeFrames rf true ws) ∧
      m₃.plug.cursor.gReadFrame = rf + n.toUInt64 ∧
      (Anchored n m₂.shm.latencyFrames m₂.shm.writeFrames rf ↔
        (m₂.shm.writeFrames.toNat < m.shm.writeFrames.toNat + n.toNat ∨
          m.shm.writeFrames.toNat + 65536 < m₂.shm.writeFrames.toNat + n.toNat) ∨
        Anchored n m₂.shm.latencyFrames m₂.shm.writeFrames m.shm.writeFrames) := by
  obtain ⟨hshm, rfl⟩ := startIo_idle hidle hstart
  have hcur : m₂.plug.cursor = ⟨m.shm.writeFrames, m.shm.writeFrames, 0 - 1⟩ := by
    rw [hcursor, World.startedIo, if_pos hidle]
  have hm₂ : m₂.plug.gShm = true := by
    rw [hattached, World.startedIo, if_pos hidle]
    exact hshm
  have hne : cycle ≠ m₂.plug.cursor.gLastCycle := by rwa [hcur]
  refine ⟨_, _, _, _, exec_first_doIOOperation hm₂ hne n, rfl, ?_⟩
  show Anchored _ _ _ (m₂.plug.cursor.windowStart n (marginOf m₂.shm.latencyFrames) _) ↔ _
  have hiff := resyncs_eq_false (c := m₂.plug.cursor) hn hw
  cases hresync : m₂.plug.cursor.resyncs n m₂.shm.writeFrames with
  | false =>
    have hroom := hiff.mp hresync
    rw [windowStart_of_not_resyncs hresync]
    rw [hcur] at hroom ⊢
    dsimp only at hroom ⊢
    exact ⟨.inr, fun h => h.resolve_left (by omega)⟩
  | true =>
    have hanchored : Anchored n m₂.shm.latencyFrames m₂.shm.writeFrames
        (m₂.plug.cursor.windowStart n (marginOf m₂.shm.latencyFrames) m₂.shm.writeFrames) := by
      unfold Anchored
      rw [windowStart_of_resyncs hresync, readDepth_eq]
    refine iff_of_true hanchored (.inl ?_)
    rw [hresync, hcur] at hiff
    dsimp only at hiff
    by_contra hroom
    exact absurd (hiff.mpr (by omega)) (by simp)

/-- An attached plugin on a segment of two channels with `w` frames captured. -/
def capturing (w : UInt64) : World ℚ where
  linked := true
  shm := { (Shm.zero : Shm ℚ) with channels := 2, writeFrames := w }
  plug := { gShm := true }

/-- The same after a `StartIO` that found `w₀` frames. -/
def joined (w₀ w : UInt64) : World ℚ where
  linked := true
  shm := (capturing w).shm
  plug := ((capturing w₀).startedIo 7).plug

theorem exec_startIo_capturing (w : UInt64) : exec (startIo true .fine 7) false (capturing w) =
    .done false ((capturing w).startedIo 7) (.ok ()) := by
  rw [exec_startIo]
  exact if_neg fun h => absurd h.2 (by simp [capturing])

theorem first_cycle_anchors_soon : ∃ m₃ ch rf ws,
    exec (doIOOperation true false 512 0) false (joined 10000 10100) =
      .done false m₃ (.read ch 10100 rf true ws) ∧ Anchored 512 0 10100 rf := by
  have hcursor : (joined 10000 10100).plug.cursor = ((capturing 10000).startedIo 7).plug.cursor :=
    rfl
  have hcycle : (0 : UInt64) ≠ 0 - 1 := by decide
  obtain ⟨m₃, ch, rf, ws, hexec, -, hiff⟩ := first_cycle_anchors_iff rfl
    (exec_startIo_capturing 10000) hcursor rfl (n := 512) hcycle (by decide) (by decide)
  exact ⟨m₃, ch, rf, ws, hexec, hiff.mpr (.inl (.inl (by decide)))⟩

/-- **A session may start without its cushion**: once a buffer has been captured since `StartIO`,
the first call goes on from the write head `StartIO` saw. -/
theorem first_cycle_not_anchored : ¬ ∀ (m m₁ m₂ m₃ : World ℚ) (sys : Sys) (now : UInt64)
    (n : UInt32) (cycle : UInt64) (ch : UInt32) (rf : UInt64) (ws : List (Nat × ℚ)),
    m.plug.gIORunning = 0 → exec (startIo true sys now) false m = .done false m₁ (.ok ()) →
    m₂.plug.cursor = m₁.plug.cursor → m₂.plug.gShm = m₁.plug.gShm → cycle ≠ 0 - 1 →
    n.toNat ≤ 4096 → m₂.shm.latencyFrames.toNat ≤ 24000 → m₂.shm.writeFrames.toNat < 2 ^ 63 →
    exec (doIOOperation true false n cycle) false m₂ =
      .done false m₃ (.read ch m₂.shm.writeFrames rf true ws) →
    Anchored n m₂.shm.latencyFrames m₂.shm.writeFrames rf := by
  intro h
  have hanchored := h _ _ (joined 10000 10600) _ .fine 7 512 0 _ _ _ rfl
    (exec_startIo_capturing 10000) rfl rfl (by decide) (by decide) (by decide) (by decide)
    (exec_doIOOperation rfl 512 0)
  unfold Anchored at hanchored
  revert hanchored
  decide

/-! ## Sessions in which nothing is heard twice -/

/-- What happens between the calls of a session: anything, but the cursor and the attachment stay
(no StartIO) and the write head does not decrease. -/
structure Onward (m m' : World α) : Prop where
  cursor : m'.plug.cursor = m.plug.cursor
  attached : m'.plug.gShm = m.plug.gShm
  head : m.shm.writeFrames ≤ m'.shm.writeFrames

/-- An IO cycle as its clients hear it: its counter and buffer size, the write head when the cycle
before it ended, the state its first call finds, and what the calls of its clients do. -/
structure ClientCycle (α : Type) where
  counter : UInt64
  frames : UInt32
  lastHead : UInt64
  found : World α
  calls : List (IOResult α)

/-- One cycle: a first call, and any number of further calls of other clients. -/
inductive ClientCycle.Ran [Pcm α] : World α → ClientCycle α → World α → Prop
  | first {m m₁ m₂ : World α} {counter : UInt64} {n : UInt32} {r : IOResult α}
      (hb : Onward m m₁) (hnew : counter ≠ m₁.plug.cursor.gLastCycle)
      (hcall : exec (doIOOperation true false n counter) false m₁ = .done false m₂ r) :
      Ran m ⟨counter, n, m.shm.writeFrames, m₁, [r]⟩ m₂
  | again {m m₁ m₂ m₃ : World α} {c : ClientCycle α} {r : IOResult α} (hrun : Ran m c m₁)
      (hb : Onward m₁ m₂)
      (hcall : exec (doIOOperation true false c.frames c.counter) false m₂ = .done false m₃ r) :
      Ran m { c with calls := c.calls ++ [r] } m₃

/-- A session: cycles one after another. -/
inductive Playback [Pcm α] : World α → List (ClientCycle α) → World α → Prop
  | nil {m : World α} : Playback m [] m
  | cons {m m₁ m₂ : World α} {c : ClientCycle α} {cs : List (ClientCycle α)} (hc : c.Ran m m₁)
      (hcs : Playback m₁ cs m₂) : Playback m (c :: cs) m₂

/-- The captured frames a call of `n` frames delivers as audio. -/
def IOResult.audio (n : UInt32) : IOResult α → Set Nat
  | .read _ w rf _ _ => {k | ∃ i < n.toNat, rf + UInt64.ofNat i < w ∧ k = (rf + UInt64.ofNat i).toNat}
  | _ => ∅

/-- The captured frames a cycle delivers. -/
def ClientCycle.audio (c : ClientCycle α) : Set Nat := {k | ∃ r ∈ c.calls, k ∈ r.audio c.frames}

/-- If the first call of the cycle resyncs, it goes back to no frame below both the cursor and the
write head of the cycle before. -/
def ClientCycle.Forward (c : ClientCycle α) : Prop :=
  c.found.plug.cursor.resyncs c.frames c.found.shm.writeFrames = true →
    min c.found.plug.cursor.gReadFrame.toNat c.lastHead.toNat ≤
      c.found.shm.writeFrames.toNat - depthOf c.frames c.found.shm.latencyFrames

/-- A call delivers the ring's frames below the write head it loads, and silence from there on. -/
def Heard [Pcm α] (n : UInt32) (r : IOResult α) : Prop :=
  ∃ (m : World α) (rf : UInt64) (first : Bool), r = .read m.devChannels m.shm.writeFrames rf first
    ((List.range n.toNat).flatMap (frameOut m m.devChannels.toNat m.shm.writeFrames rf))

/-- The window starts at or below the write head. -/
theorem windowStart_le (c : Cursor) (n latencyFrames : UInt32) (w : UInt64) :
    (c.windowStart n (marginOf latencyFrames) w).toNat ≤ w.toNat := by
  cases hresync : c.resyncs n w with
  | true =>
    rw [windowStart_resync hresync]
    exact Nat.sub_le _ _
  | false =>
    rw [windowStart_of_not_resyncs hresync]
    unfold Cursor.resyncs at hresync
    simp only [Bool.or_eq_false_iff, decide_eq_false_iff_not, UInt64.lt_iff_toNat_lt,
      Nat.not_lt] at hresync
    exact hresync.1.2

/-- **One cycle**: its first call moves the cursor, and every call delivers the window of that
move, under a write head of its own. -/
theorem ClientCycle.Ran.spec [Pcm α] {m m' : World α} {c : ClientCycle α} (h : c.Ran m m')
    (hm : m.plug.gShm = true) :
    let rf := m.plug.cursor.windowStart c.frames (marginOf c.found.shm.latencyFrames)
      c.found.shm.writeFrames
    c.found.plug.cursor = m.plug.cursor ∧ c.lastHead = m.shm.writeFrames ∧
      m'.plug.gShm = true ∧ m.shm.writeFrames ≤ m'.shm.writeFrames ∧
      m'.plug.cursor = ⟨rf + c.frames.toUInt64, rf, c.counter⟩ ∧
      ∀ r ∈ c.calls, ∃ (k : World α) (first : Bool), k.shm.writeFrames ≤ m'.shm.writeFrames ∧
        r = .read k.devChannels k.shm.writeFrames rf first ((List.range c.frames.toNat).flatMap
          (frameOut k k.devChannels.toNat k.shm.writeFrames rf)) := by
  induction h with
  | @first m₁ m₂ counter n r hb hnew hcall =>
    have hm₁ : m₁.plug.gShm = true := hb.attached.trans hm
    obtain ⟨rfl, rfl⟩ : _ = m₂ ∧ _ = r := by
      rw [exec_first_doIOOperation hm₁ hnew n] at hcall
      injection hcall with _ hm₂ hr
      exact ⟨hm₂, hr⟩
    rw [← hb.cursor]
    refine ⟨rfl, rfl, hm₁, hb.head, rfl, ?_⟩
    intro r hr
    obtain rfl := List.mem_singleton.mp hr
    exact ⟨m₁, true, UInt64.le_refl _, rfl⟩
  | @again m₁ m₂ m₃ c r _ hb hcall ih =>
    obtain ⟨hcur, hlast, hm₁, hhead, hmove, hcalls⟩ := ih
    have hm₂ : m₂.plug.gShm = true := hb.attached.trans hm₁
    have hcur₂ : m₂.plug.cursor = ⟨_, _, c.counter⟩ := hb.cursor.trans hmove
    have hexec := exec_doIOOperation hm₂ c.frames c.counter
    dsimp only at hexec
    rw [hcur₂, Cursor.after_same ⟨_, _, c.counter⟩] at hexec
    obtain ⟨rfl, rfl⟩ : _ = m₃ ∧ _ = r := by
      rw [hexec] at hcall
      injection hcall with _ hm₃ hr
      exact ⟨hm₃, hr⟩
    refine ⟨hcur, hlast, hm₂, UInt64.le_trans hhead hb.head, rfl, ?_⟩
    intro r hr
    rcases List.mem_append.mp hr with hr | hr
    · obtain ⟨k, first, hk, hread⟩ := hcalls r hr
      exact ⟨k, first, UInt64.le_trans hk hb.head, hread⟩
    · obtain rfl := List.mem_singleton.mp hr
      exact ⟨m₂, _, UInt64.le_refl _, rfl⟩

/-- The buffer of the cycle has at most 4096 frames, and the write head its first call loads leaves
room for one more such buffer below `2^64`. -/
structure ClientCycle.Sane (c : ClientCycle α) : Prop where
  small : c.frames.toNat ≤ 4096
  room : c.found.shm.writeFrames.toNat + 4096 < 2 ^ 64

/-- The frames delivered so far lie below the cursor and below the write head. -/
def Behind (heard : Set Nat) (m : World α) : Prop :=
  ∀ k ∈ heard, k < min m.plug.cursor.gReadFrame.toNat m.shm.writeFrames.toNat

/-- The audio of a cycle lies between the cursor it chooses and the cursor it leaves, and below the
write head it leaves. -/
theorem ClientCycle.Ran.audio_bounds [Pcm α] {m m' : World α} {c : ClientCycle α}
    (h : c.Ran m m') (hm : m.plug.gShm = true) (hc : c.Sane) {k : Nat} (hk : k ∈ c.audio) :
    (m.plug.cursor.windowStart c.frames (marginOf c.found.shm.latencyFrames)
        c.found.shm.writeFrames).toNat ≤ k ∧
      k < min m'.plug.cursor.gReadFrame.toNat m'.shm.writeFrames.toNat := by
  obtain ⟨-, -, -, -, hmove, hcalls⟩ := h.spec hm
  have hstart := windowStart_le m.plug.cursor c.frames c.found.shm.latencyFrames
    c.found.shm.writeFrames
  obtain ⟨hn, hroom⟩ := hc
  obtain ⟨r, hr, hrk⟩ := hk
  obtain ⟨m₁, first, hhead, rfl⟩ := hcalls r hr
  obtain ⟨i, hi, hlt, rfl⟩ := hrk
  have hread : m'.plug.cursor.gReadFrame.toNat = (m.plug.cursor.windowStart c.frames
      (marginOf c.found.shm.latencyFrames) c.found.shm.writeFrames).toNat + c.frames.toNat := by
    rw [hmove]
    dsimp only
    rw [UInt64.toNat_add, UInt32.toNat_toUInt64]
    exact Nat.mod_eq_of_lt (by omega)
  rw [UInt64.lt_iff_toNat_lt] at hlt
  rw [UInt64.le_iff_toNat_le] at hhead
  rw [hread, toNat_position (by omega)] at *
  exact ⟨Nat.le_add_right _ _, lt_min (by omega) (by omega)⟩

/-- **One cycle, seen from what was heard before**: unless it is the first that is heard, and if it
does not go back, its audio lies above everything heard, and the cursor stays ahead of it all. -/
theorem ClientCycle.Ran.advances [Pcm α] {m m' : World α} {c : ClientCycle α} (h : c.Ran m m')
    (hm : m.plug.gShm = true) (hc : c.Sane) {heard : Set Nat} (hheard : Behind heard m)
    (hforward : heard = ∅ ∨ c.Forward) :
    (∀ a ∈ heard, ∀ b ∈ c.audio, a < b) ∧ Behind (heard ∪ c.audio) m' := by
  obtain ⟨hcur, hlast, -, hhead, hmove, -⟩ := h.spec hm
  rw [UInt64.le_iff_toNat_le] at hhead
  have hroom := hc.room
  have hn := hc.small
  set rf := m.plug.cursor.windowStart c.frames (marginOf c.found.shm.latencyFrames)
    c.found.shm.writeFrames with hrf
  have hrf_le : rf.toNat ≤ c.found.shm.writeFrames.toNat := windowStart_le _ _ _ _
  -- the window starts above everything heard
  have hstart : ∀ a ∈ heard, a < rf.toNat := by
    intro a ha
    have hbehind := hheard a ha
    rcases hforward with rfl | hforward
    · exact ha.elim
    · cases hresync : m.plug.cursor.resyncs c.frames c.found.shm.writeFrames with
      | false =>
        rw [hrf, windowStart_of_not_resyncs hresync]
        exact lt_of_lt_of_le hbehind (Nat.min_le_left _ _)
      | true =>
        have hback := hforward (by rwa [hcur])
        rw [hcur, hlast] at hback
        rw [hrf, windowStart_resync hresync]
        exact lt_of_lt_of_le hbehind hback
  have hread : m'.plug.cursor.gReadFrame.toNat = rf.toNat + c.frames.toNat := by
    rw [hmove]
    dsimp only
    rw [UInt64.toNat_add, UInt32.toNat_toUInt64]
    exact Nat.mod_eq_of_lt (by omega)
  constructor
  · intro a ha b hb
    exact lt_of_lt_of_le (hstart a ha) (h.audio_bounds hm hc hb).1
  · rintro k (hk | hk)
    · have := hstart k hk
      have := hheard k hk
      exact lt_min (by omega) (by omega)
    · exact (h.audio_bounds hm hc hk).2

/-- **A session whose resyncs do not go back**, seen from what was heard before it. -/
theorem Playback.ordered [Pcm α] {m m' : World α} {cs : List (ClientCycle α)}
    (h : Playback m cs m') (hm : m.plug.gShm = true) (hsane : ∀ c ∈ cs, c.Sane)
    (hforward : ∀ c ∈ cs, c.Forward) {heard : Set Nat} (hheard : Behind heard m) :
    (∀ c ∈ cs, ∀ a ∈ heard, ∀ b ∈ c.audio, a < b) ∧
      cs.Pairwise fun c d => ∀ a ∈ c.audio, ∀ b ∈ d.audio, a < b := by
  induction h generalizing heard with
  | nil => exact ⟨nofun, .nil⟩
  | @cons m m₁ m₂ c cs hc _ ih =>
    obtain ⟨habove, hbehind⟩ := hc.advances hm (hsane c (by simp)) hheard
      (.inr (hforward c (by simp)))
    obtain ⟨-, -, hm₁, -⟩ := hc.spec hm
    obtain ⟨hrest, hpairs⟩ := ih hm₁ (fun d hd => hsane d (by simp [hd]))
      (fun d hd => hforward d (by simp [hd])) hbehind
    constructor
    · intro d hd a ha
      rcases List.mem_cons.mp hd with rfl | hd
      · exact habove a ha
      · exact hrest d hd a (.inl ha)
    · exact hpairs.cons fun d hd a ha => hrest d hd a (.inr ha)

/-- Every call of a session delivers the ring below its write head and silence above. -/
theorem Playback.heard [Pcm α] {m m' : World α} {cs : List (ClientCycle α)}
    (h : Playback m cs m') (hm : m.plug.gShm = true) :
    ∀ c ∈ cs, ∀ r ∈ c.calls, Heard c.frames r := by
  induction h with
  | nil => exact nofun
  | @cons m m₁ m₂ c cs hc _ ih =>
    obtain ⟨-, -, hm₁, -, -, hcalls⟩ := hc.spec hm
    intro d hd r hr
    rcases List.mem_cons.mp hd with rfl | hd
    · obtain ⟨k, first, -, hread⟩ := hcalls r hr
      exact ⟨k, _, first, hread⟩
    · exact ih hm₁ d hd r hr

/-- **No frame is delivered twice** in a session of any cycles after the `StartIO` that starts it,
under any progress of the producer, as long as no resync after the first cycle goes back to a frame
below both the cursor and the write head of the cycle before; and what lies above the write head is
delivered as silence. -/
theorem no_frame_twice [Pcm α] {m₀ m m' : World α} {sys : Sys} {now : UInt64}
    (hstart : exec (startIo true sys now) false m₀ = .done false m (.ok ()))
    (hidle : m₀.plug.gIORunning = 0) {cs : List (ClientCycle α)} (hrun : Playback m cs m')
    (hsane : ∀ c ∈ cs, c.Sane) (hforward : ∀ c ∈ cs.tail, c.Forward) :
    (cs.Pairwise fun c d => ∀ a ∈ c.audio, ∀ b ∈ d.audio, a < b) ∧
      ∀ c ∈ cs, ∀ r ∈ c.calls, Heard c.frames r := by
  obtain ⟨hshm, rfl⟩ := startIo_idle hidle hstart
  have hm : (m₀.startedIo now).plug.gShm = true := by
    rw [World.startedIo, if_pos hidle]
    exact hshm
  refine ⟨?_, hrun.heard hm⟩
  cases hrun with
  | nil => exact .nil
  | @cons _ m₁ _ c cs hc hcs =>
    have hnothing : Behind ∅ (m₀.startedIo now) := nofun
    obtain ⟨-, hbehind⟩ := hc.advances hm (hsane c (by simp)) hnothing (.inl rfl)
    obtain ⟨-, -, hm₁, -⟩ := hc.spec hm
    obtain ⟨habove, hpairs⟩ := hcs.ordered hm₁ (fun d hd => hsane d (by simp [hd])) hforward
      hbehind
    exact hpairs.cons fun d hd a ha => habove d hd a (.inr ha)

/-- The cycle of one call that finds `w` frames captured, in the state `m` left by the one before. -/
def ClientCycle.single [Pcm α] (m : World α) (n : UInt32) (counter w : UInt64) : ClientCycle α where
  counter := counter
  frames := n
  lastHead := m.shm.writeFrames
  found := { m with shm := { m.shm with writeFrames := w } }
  calls :=
    let rf := m.plug.cursor.windowStart n (marginOf m.shm.latencyFrames) w
    [.read m.devChannels w rf true ((List.range n.toNat).flatMap
      (frameOut { m with shm := { m.shm with writeFrames := w } } m.devChannels.toNat w rf))]

/-- The state after that call. -/
def World.played (m : World α) (n : UInt32) (counter w : UInt64) : World α where
  linked := m.linked
  shm := { m.shm with writeFrames := w }
  plug := { m.plug with
    cursor := m.plug.cursor.move n (marginOf m.shm.latencyFrames) counter w }

theorem ran_single [Pcm α] {m : World α} (n : UInt32) (counter w : UInt64)
    (hm : m.plug.gShm = true) (hw : m.shm.writeFrames ≤ w)
    (hne : counter ≠ m.plug.cursor.gLastCycle) :
    (ClientCycle.single m n counter w).Ran m (m.played n counter w) := by
  have hb : Onward m { m with shm := { m.shm with writeFrames := w } } := ⟨rfl, rfl, hw⟩
  refine .first hb hne ?_
  exact exec_first_doIOOperation (m := { m with shm := { m.shm with writeFrames := w } }) hm hne n

/-- A session on a segment that holds `w` frames. -/
def opened (w : UInt64) : World ℚ := (capturing w).startedIo 7

theorem no_frame_twice_flowing : ∃ cs m', Playback (opened 5000) cs m' ∧ cs.length = 2 ∧
    cs.Pairwise fun c d => ∀ a ∈ c.audio, ∀ b ∈ d.audio, a < b := by
  have hrun : Playback (opened 5000) _ _ :=
    .cons (ran_single 512 0 5100 rfl (by decide) (by decide))
      (.cons (ran_single 512 1 5700 rfl (by decide) (by decide)) .nil)
  refine ⟨_, _, hrun, rfl, (no_frame_twice (exec_startIo_capturing 5000) rfl hrun ?_ ?_).1⟩
  · intro c hc
    rcases List.mem_pair.mp hc with rfl | rfl <;> exact ⟨by decide, by decide⟩
  · intro c hc
    obtain rfl := List.mem_singleton.mp hc
    exact fun h => absurd h (by decide)

/-- **A stalled producer is heard again**: 300 frames were captured, and each of two cycles resyncs
to the same window and delivers them. -/
theorem stalled_frames_twice : ¬ ∀ (m₀ m m' : World ℚ) (sys : Sys) (now : UInt64)
    (cs : List (ClientCycle ℚ)), exec (startIo true sys now) false m₀ = .done false m (.ok ()) →
    m₀.plug.gIORunning = 0 → Playback m cs m' → (∀ c ∈ cs, c.frames.toNat ≤ 4096) →
    (cs.Pairwise fun c d => ∀ a ∈ c.audio, ∀ b ∈ d.audio, a < b) ∧
      ∀ c ∈ cs, ∀ r ∈ c.calls, Heard c.frames r := by
  intro h
  have hrun : Playback (opened 300) _ _ :=
    .cons (ran_single 512 0 300 rfl (by decide) (by decide))
      (.cons (ran_single 512 1 300 rfl (by decide) (by decide)) .nil)
  have hpairs := (h _ _ _ .fine 7 _ (exec_startIo_capturing 300) rfl hrun ?_).1
  · rw [List.pairwise_pair] at hpairs
    refine absurd (hpairs 0 ?_ 0 ?_) (lt_irrefl 0)
    · exact ⟨_, List.mem_singleton_self _, 0, by decide, by decide, by decide⟩
    · exact ⟨_, List.mem_singleton_self _, 0, by decide, by decide, by decide⟩
  · intro c hc
    rcases List.mem_pair.mp hc with rfl | rfl <;> decide

end Line6
