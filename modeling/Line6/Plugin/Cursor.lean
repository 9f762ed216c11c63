import Mathlib.Data.List.Basic
import Line6.Lib.RingLog
import Line6.Plugin.Io

/-!
# The read cursor over a session

The unsigned comparisons of `DoIOOperation` read as arithmetic on naturals (`resyncs_eq_false`,
`readDepth_toNat`), the sequential meaning of a whole call (`exec_doIOOperation`), and the
behaviour of the cursor over a session of IO cycles.
-/

namespace Line6

open Conc Conc.Prog

variable {α : Type}

/-! ## The comparisons -/

theorem readDepth_toNat (n margin : UInt32) :
    (readDepth n margin).toNat = max (2 * n.toNat + 256) margin.toNat := by
  have hn := n.toNat_lt
  have hm := margin.toNat_lt
  have hlat : (n.toUInt64 * 2 + kSafetyOffset.toUInt64).toNat = 2 * n.toNat + 256 := by
    rw [UInt64.toNat_add, UInt64.toNat_mul, UInt32.toNat_toUInt64]
    show (n.toNat * 2 % 2 ^ 64 + 256) % 2 ^ 64 = _
    omega
  unfold readDepth
  simp only [UInt64.lt_iff_toNat_lt, hlat, UInt32.toNat_toUInt64]
  split_ifs with h
  · rw [UInt32.toNat_toUInt64]
    omega
  · rw [hlat]
    omega

/-- **The three resync conditions**, for a buffer that fits the ring and a write head below
`2^63`: no resync iff the window lies below the write head and in the ring. It holds of every
64-bit cursor, also one so large that `gReadFrame + inFrames` wraps. -/
theorem resyncs_eq_false {c : Cursor} {n : UInt32} {w : UInt64} (hn : n.toNat ≤ 65536)
    (hw : w.toNat < 2 ^ 63) :
    c.resyncs n w = false ↔
      c.gReadFrame.toNat + n.toNat ≤ w.toNat ∧
        w.toNat + n.toNat ≤ c.gReadFrame.toNat + 65536 := by
  have hg := c.gReadFrame.toNat_lt
  have hring : (ringFrames - n).toUInt64.toNat = 65536 - n.toNat := by
    rw [UInt32.toNat_toUInt64, UInt32.toNat_sub]
    show (2 ^ 32 - n.toNat + 65536) % 2 ^ 32 = _
    have := n.toNat_lt
    omega
  unfold Cursor.resyncs
  simp only [Bool.or_eq_false_iff, decide_eq_false_iff_not, UInt64.lt_iff_toNat_lt, hring,
    UInt64.toNat_add, UInt64.toNat_sub, UInt32.toNat_toUInt64]
  omega

theorem windowStart_of_not_resyncs {c : Cursor} {n margin : UInt32} {w : UInt64}
    (h : c.resyncs n w = false) : c.windowStart n margin w = c.gReadFrame := by
  unfold Cursor.windowStart
  rw [h]
  exact if_neg Bool.false_ne_true

theorem windowStart_of_resyncs {c : Cursor} {n margin : UInt32} {w : UInt64}
    (h : c.resyncs n w = true) :
    (c.windowStart n margin w).toNat =
      if (readDepth n margin).toNat < w.toNat then w.toNat - (readDepth n margin).toNat else 0 := by
  unfold Cursor.windowStart
  rw [h, if_pos rfl]
  simp only [UInt64.lt_iff_toNat_lt]
  split_ifs with hlt
  · exact UInt64.toNat_sub_of_le _ _ (UInt64.le_iff_toNat_le.mpr hlt.le)
  · rfl

/-- **The window of a cycle**: below the write head with the whole buffer and in the ring, or
`lat` behind the write head, or at 0 while fewer than `lat` frames were written. -/
theorem windowStart_cases (c : Cursor) {n margin : UInt32} {w : UInt64} (hn : n.toNat ≤ 65536)
    (hw : w.toNat < 2 ^ 63) :
    ((c.windowStart n margin w).toNat + n.toNat ≤ w.toNat ∧
        w.toNat + n.toNat ≤ (c.windowStart n margin w).toNat + 65536) ∨
      ((readDepth n margin).toNat < w.toNat ∧
        (c.windowStart n margin w).toNat = w.toNat - (readDepth n margin).toNat) ∨
      (w.toNat ≤ (readDepth n margin).toNat ∧ (c.windowStart n margin w).toNat = 0) := by
  cases h : c.resyncs n w with
  | false =>
    rw [windowStart_of_not_resyncs h]
    exact Or.inl ((resyncs_eq_false hn hw).mp h)
  | true =>
    rw [windowStart_of_resyncs h]
    split_ifs with hlt
    · exact Or.inr (Or.inl ⟨hlt, rfl⟩)
    · exact Or.inr (Or.inr ⟨Nat.le_of_not_lt hlt, rfl⟩)

/-! ## A whole call -/

/-- The margin a latency word asks for. -/
def marginOf (latencyFrames : UInt32) : UInt32 :=
  if latencyFrames = 0 then kDefaultMargin else latencyFrames

/-- The depth a call keeps behind the write head. -/
def depthOf (n latency : UInt32) : Nat :=
  max (2 * n.toNat + 256) (if latency = 0 then 3072 else latency.toNat)

theorem readDepth_eq (n latency : UInt32) :
    (readDepth n (marginOf latency)).toNat = depthOf n latency := by
  rw [readDepth_toNat]
  unfold depthOf marginOf
  split_ifs <;> rfl

/-- The frame positions of a window, while they do not wrap. -/
theorem toNat_position {rf : UInt64} {i : Nat} (h : rf.toNat + i < 2 ^ 64) :
    (rf + UInt64.ofNat i).toNat = rf.toNat + i := by
  rw [UInt64.toNat_add, UInt64.toNat_ofNat', Nat.mod_eq_of_lt (by omega : i < 2 ^ 64),
    Nat.mod_eq_of_lt h]

/-- The stores of frame `i` of a copy from `rf` under the write head `w`. -/
def frameOut [Pcm α] (m : World α) (ch : Nat) (w rf : UInt64) (i : Nat) : List (Nat × α) :=
  if rf + UInt64.ofNat i < w then
    (List.range ch).map fun c =>
      (i * ch + c, m.shm.ring (((rf + UInt64.ofNat i) &&& ringMask).toNat * ch + c))
  else silenceCells (i * ch) ch

theorem exec_loadCell {i : Nat} (hi : i < ringSamples) (l : Bool) (m : World α) :
    exec (loadCell i) l m = .done l m (m.shm.ring i) := by
  unfold loadCell
  rw [if_pos hi]
  rfl

theorem exec_copyCells (slot dst : Nat) (m : World α) (l : Bool) :
    ∀ {rem c : Nat}, (∀ j < rem, slot + (c + j) < ringSamples) →
      exec (copyCells slot dst rem c) l m =
        .done l m ((List.range rem).map fun j =>
          (dst + (c + j), m.shm.ring (slot + (c + j))))
  | 0, _, _ => rfl
  | rem + 1, c, h => by
    have h0 : slot + c < ringSamples := by simpa using h 0 (Nat.succ_pos _)
    have ih := exec_copyCells slot dst m l fun (j : Nat) (hj : j < rem) => by
        have := h (j + 1) (by omega)
        rwa [show c + 1 + j = c + (j + 1) by omega]
    unfold copyCells
    rw [exec_bind_done (exec_loadCell h0 l m), exec_bind_done ih, List.range_succ_eq_map]
    simp only [pure_eq, exec_ret, List.map_cons, List.map_map, Nat.add_zero]
    congr 2
    refine List.map_congr_left fun j _ => ?_
    simp only [Function.comp, Nat.succ_eq_add_one, show c + 1 + j = c + (j + 1) by omega]

theorem exec_copyFrames [Pcm α] {ch : Nat} (hch : ch ≤ 8) (w rf : UInt64) (m : World α)
    (l : Bool) : ∀ rem i, exec (copyFrames ch w rf rem i) l m =
      .done l m ((List.range rem).flatMap fun j => frameOut m ch w rf (i + j))
  | 0, _ => rfl
  | rem + 1, i => by
    have hframe : exec (if rf + UInt64.ofNat i < w
          then copyCells (((rf + UInt64.ofNat i) &&& ringMask).toNat * ch) (i * ch) ch 0
          else pure (silenceCells (i * ch) ch)) l m = .done l m (frameOut m ch w rf i) := by
      unfold frameOut
      split_ifs with h
      · rw [exec_copyCells _ _ m l fun j hj => by rw [Nat.zero_add]; exact slot_lt _ hch hj]
        simp only [Nat.zero_add]
      · rfl
    unfold copyFrames
    rw [exec_bind_done hframe, exec_bind_done (exec_copyFrames hch w rf m l rem (i + 1)),
      List.range_succ_eq_map]
    simp only [pure_eq, exec_ret, List.flatMap_cons, List.flatMap_map, Nat.add_zero]
    refine congrArg (fun f => Outcome.done l m (frameOut m ch w rf i ++ List.flatMap f _))
      (funext fun j => ?_)
    rw [show i + 1 + j = i + Nat.succ j by omega]

/-- The cursor a call leaves. -/
def Cursor.after (c : Cursor) (n latencyFrames : UInt32) (cycle w : UInt64) : Cursor :=
  if cycle = c.gLastCycle then c else c.move n (marginOf latencyFrames) cycle w

theorem exec_cursorSection (n : UInt32) (cycle w : UInt64) (m : World α) :
    exec (cursorSection n cycle w) false m =
      .done false
        { m with plug := { m.plug with
            cursor := m.plug.cursor.after n m.shm.latencyFrames cycle w } }
        ((m.plug.cursor.after n m.shm.latencyFrames cycle w).gCycleReadFrame,
          cycle != m.plug.cursor.gLastCycle) := by
  unfold cursorSection Cursor.after readMargin marginOf
  by_cases h : cycle = m.plug.cursor.gLastCycle
  · simp [h]
  · by_cases hl : m.shm.latencyFrames = 0
    · simp [h, hl, wrPlug]
    · simp [h, hl, wrPlug]

/-- **A `ReadInput` call on an attached segment**, nobody interfering: the cursor section at the
write head and the latency found, then every frame of the window, from the ring below the write
head and silent above. -/
theorem exec_doIOOperation [Pcm α] {m : World α} (hm : m.plug.gShm = true) (n : UInt32)
    (cycle : UInt64) :
    let w := m.shm.writeFrames
    let c' := m.plug.cursor.after n m.shm.latencyFrames cycle w
    exec (doIOOperation true false n cycle) false m =
      .done false { m with plug := { m.plug with cursor := c' } }
        (.read m.devChannels w c'.gCycleReadFrame (cycle != m.plug.cursor.gLastCycle)
          ((List.range n.toNat).flatMap
            (frameOut m m.devChannels.toNat w c'.gCycleReadFrame))) := by
  intro w c'
  unfold doIOOperation devChannels doIOFromLoad World.devChannels
  simp only [Bool.not_true, Bool.false_eq_true, if_false, rd_bind, access_bind, exec_access, hm,
    if_true, id_eq, pure_eq, ret_bind]
  rw [exec_bind_done (exec_cursorSection n cycle _ m),
    exec_bind_done (exec_copyFrames (clampChannels_le _) _ _ _ _ _ _)]
  simp only [Nat.zero_add, exec_ret, hm]
  rfl

/-! ## Sessions of IO cycles -/

/-- What happens between the calls of a session: anything, but the cursor, the attachment and the
latency word stay (no StartIO). -/
structure Between (m m' : World α) : Prop where
  cursor : m'.plug.cursor = m.plug.cursor
  attached : m'.plug.gShm = m.plug.gShm
  latency : m'.shm.latencyFrames = m.shm.latencyFrames

/-- An IO cycle: its counter, the state its first call finds and what that call does. -/
structure IOCycle (α : Type) where
  counter : UInt64
  found : World α
  result : IOResult α

/-- The write head the first call loads. -/
def IOCycle.head (c : IOCycle α) : UInt64 := c.found.shm.writeFrames

/-- One cycle: a first call of `n` frames, then any number of further calls of any size. -/
inductive CycleRun [Pcm α] (n : UInt32) : World α → IOCycle α → World α → Prop
  | first {m m₁ m₂ : World α} {counter : UInt64} {r : IOResult α} (hb : Between m m₁)
      (hcall : exec (doIOOperation true false n counter) false m₁ = .done false m₂ r) :
      CycleRun n m ⟨counter, m₁, r⟩ m₂
  | again {m m₁ m₂ m₃ : World α} {c : IOCycle α} {n' : UInt32} {r : IOResult α}
      (hrun : CycleRun n m c m₁) (hb : Between m₁ m₂)
      (hcall : exec (doIOOperation true false n' c.counter) false m₂ = .done false m₃ r) :
      CycleRun n m c m₃

/-- The first call of the cycle resyncs. -/
def IOCycle.Resyncs (n : UInt32) (c : IOCycle α) : Prop :=
  c.found.plug.cursor.resyncs n c.head = true

/-- The first call of the cycle moves the cursor to a window starting at `start`. -/
def IOCycle.StartsAt (c : IOCycle α) (start : Nat) : Prop :=
  ∃ ch w rf writes, c.result = .read ch w rf true writes ∧ w = c.head ∧ rf.toNat = start

/-- The first call of the cycle delivers the ring's frames `start ..` and nothing else: output
frame `i` is the ring's frame `start + i`, for every channel, with no silence. -/
def IOCycle.Delivers (n : UInt32) (c : IOCycle α) (start : Nat) : Prop :=
  ∃ ch w rf, c.result = .read ch w rf true
    ((List.range n.toNat).flatMap fun i => (List.range ch.toNat).map fun j =>
      (i * ch.toNat + j, c.found.shm.ring (RingLog.cell 65536 ch.toNat (start + i) j)))

theorem Cursor.after_same (c : Cursor) (n latencyFrames : UInt32) (w : UInt64) :
    c.after n latencyFrames c.gLastCycle w = c := if_pos rfl

theorem Cursor.after_ne {c : Cursor} {cycle : UInt64} (h : cycle ≠ c.gLastCycle)
    (n latencyFrames : UInt32) (w : UInt64) :
    c.after n latencyFrames cycle w = c.move n (marginOf latencyFrames) cycle w := if_neg h

/-- **What a cycle does**: its first call moves the cursor from where the session left it, its
further calls leave it there. -/
theorem CycleRun.spec [Pcm α] {n : UInt32} {m m' : World α} {c : IOCycle α}
    (h : CycleRun n m c m') (hm : m.plug.gShm = true)
    (hne : c.counter ≠ m.plug.cursor.gLastCycle) :
    let cur := m.plug.cursor.move n (marginOf m.shm.latencyFrames) c.counter c.head
    c.found.plug.cursor = m.plug.cursor ∧
      Between { m with plug := { m.plug with cursor := cur } } m' ∧
      c.result = .read c.found.devChannels c.head cur.gCycleReadFrame true
        ((List.range n.toNat).flatMap
          (frameOut c.found c.found.devChannels.toNat c.head cur.gCycleReadFrame)) := by
  induction h with
  | @first m₁ m₂ counter r hb hcall =>
    rw [exec_doIOOperation (hb.attached.trans hm)] at hcall
    injection hcall with _ hm₂ hr
    rw [hb.cursor, hb.latency, Cursor.after_ne hne] at hm₂ hr
    refine ⟨hb.cursor, ?_, ?_⟩
    · subst hm₂
      exact ⟨rfl, hb.attached, hb.latency⟩
    · rw [← hr, bne_iff_ne.mpr hne]
      rfl
  | @again m₁ m₂ m₃ c n' r _ hb hcall ih =>
    obtain ⟨hcur, hbt, hres⟩ := ih hne
    refine ⟨hcur, ?_, hres⟩
    have hlast : m₂.plug.cursor.gLastCycle = c.counter := by rw [hb.cursor, hbt.cursor]; rfl
    rw [exec_doIOOperation ((hb.attached.trans hbt.attached).trans hm), ← hlast,
      Cursor.after_same] at hcall
    injection hcall with _ hm₃ _
    subst hm₃
    exact ⟨hb.cursor.trans hbt.cursor, hb.attached.trans hbt.attached,
      hb.latency.trans hbt.latency⟩

/-- Without a resync every frame of the window is below the write head, and the output is the
ring's. -/
theorem frameOut_below [Pcm α] {m : World α} {ch : Nat} {w rf : UInt64} {i : Nat}
    (h : rf.toNat + i < w.toNat) :
    frameOut m ch w rf i = (List.range ch).map fun j =>
      (i * ch + j, m.shm.ring (RingLog.cell 65536 ch (rf.toNat + i) j)) := by
  have hw := w.toNat_lt
  have hsum : (rf + UInt64.ofNat i).toNat = rf.toNat + i := toNat_position (by omega)
  unfold frameOut
  rw [if_pos (UInt64.lt_iff_toNat_lt.mpr (hsum ▸ h)), RingLog.and_mask ringMask_toNat, hsum]
  rfl

/-- The write head leaves room for the window of `n` frames at `start` on both sides. -/
def Fits (n : UInt32) (start : Nat) (w : UInt64) : Prop :=
  start + n.toNat ≤ w.toNat ∧ w.toNat + n.toNat ≤ start + 65536

/-- Where a cycle leaves the cursor: `n` frames behind its window. -/
theorem CycleRun.advance [Pcm α] {n : UInt32} {m m' : World α} {c : IOCycle α}
    (h : CycleRun n m c m') (hm : m.plug.gShm = true)
    (hne : c.counter ≠ m.plug.cursor.gLastCycle) :
    m'.plug.cursor.gReadFrame =
      m.plug.cursor.windowStart n (marginOf m.shm.latencyFrames) c.head + n.toUInt64 := by
  obtain ⟨-, hbt, -⟩ := h.spec hm hne
  rw [hbt.cursor]
  rfl

/-- One cycle of a session whose cursor stands at `start`. -/
theorem CycleRun.window [Pcm α] {n : UInt32} {m m' : World α} {c : IOCycle α}
    (h : CycleRun n m c m') (hm : m.plug.gShm = true)
    (hne : c.counter ≠ m.plug.cursor.gLastCycle) (hn : n.toNat ≤ 65536)
    (hw : c.head.toNat < 2 ^ 63) :
    (Fits n m.plug.cursor.gReadFrame.toNat c.head →
      ¬ c.Resyncs n ∧ c.StartsAt m.plug.cursor.gReadFrame.toNat ∧
        c.Delivers n m.plug.cursor.gReadFrame.toNat ∧
        m'.plug.cursor.gReadFrame.toNat = m.plug.cursor.gReadFrame.toNat + n.toNat) ∧
    (¬ Fits n m.plug.cursor.gReadFrame.toNat c.head → c.Resyncs n) := by
  obtain ⟨hcur, -, hres⟩ := h.spec hm hne
  have hread := h.advance hm hne
  have hfits : m.plug.cursor.resyncs n c.head = false ↔
      Fits n m.plug.cursor.gReadFrame.toNat c.head := resyncs_eq_false hn hw
  unfold IOCycle.Resyncs
  rw [hcur]
  refine ⟨fun hf => ?_, fun hf => ?_⟩
  · have hno := hfits.mpr hf
    rw [windowStart_of_not_resyncs hno] at hread
    refine ⟨by rw [hno]; exact Bool.false_ne_true, ⟨_, _, _, _, hres, rfl, ?_⟩, ?_, ?_⟩
    · exact congrArg UInt64.toNat (windowStart_of_not_resyncs hno)
    · refine ⟨_, _, _, hres.trans (congrArg _ ?_)⟩
      refine List.flatMap_congr fun i hi => ?_
      have hstart : (m.plug.cursor.move n (marginOf m.shm.latencyFrames) c.counter
          c.head).gCycleReadFrame = m.plug.cursor.gReadFrame := windowStart_of_not_resyncs hno
      rw [hstart]
      refine frameOut_below ?_
      have := List.mem_range.mp hi
      have := hf.1
      omega
    · rw [hread, UInt64.toNat_add, UInt32.toNat_toUInt64]
      have := hf.1
      omega
  · rw [← hfits] at hf
    exact Bool.eq_true_of_not_eq_false hf

/-- A plugin that just started IO at write head 10000. -/
def started : World ℚ where
  linked := true
  shm := { (Shm.zero : Shm ℚ) with channels := 2, writeFrames := 10000 }
  plug := { gShm := true, cursor := ⟨10000, 10000, 0 - 1⟩ }

end Line6
