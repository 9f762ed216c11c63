import Mathlib.Data.Rat.Defs
import Mathlib.Tactic.Linarith
import Mathlib.Tactic.NormNum
import Line6.Lib.Pcm24
import Line6.Shm

/-!
# What push_frames leaves in the ring

A batch may be longer than the ring: of two frames with one slot the later one is left there.

* `s24ToF32_eq`: the sample of three bytes is their two's complement value over 2^23.
* `push_frames_spec`: the write head after a push, the samples it leaves, and the cells it does not
  touch.
-/

namespace Line6

open Conc Conc.Prog RingLog

variable {α : Type}

/-! ## Samples -/

/-- **`s24_to_f32`** is exact. -/
theorem s24ToF32_eq (b0 b1 b2 : UInt8) :
    s24ToF32 b0 b1 b2 = (Pcm24.value b0 b1 b2 : ℚ) / 2 ^ 23 := by
  have hsign := Pcm24.signExtend_packed (Pcm24.toBitVec_or b0 b1 b2)
  unfold s24ToF32
  dsimp only
  rw [hsign]
  norm_num

/-- Samples lie in [-1, 1). -/
theorem s24ToF32_mem (b0 b1 b2 : UInt8) : -1 ≤ s24ToF32 b0 b1 b2 ∧ s24ToF32 b0 b1 b2 < 1 := by
  have hlow : (-2 ^ 23 : ℚ) ≤ Pcm24.value b0 b1 b2 := by exact_mod_cast Pcm24.neg_le_value b0 b1 b2
  have hhigh : (Pcm24.value b0 b1 b2 : ℚ) < 2 ^ 23 := by exact_mod_cast Pcm24.value_lt b0 b1 b2
  rw [s24ToF32_eq]
  constructor
  · rw [le_div_iff₀ (by norm_num)]
    linarith
  · rw [div_lt_iff₀ (by norm_num)]
    linarith

/-- Different bytes give different samples. -/
theorem s24ToF32_inj {b0 b1 b2 c0 c1 c2 : UInt8} (h : s24ToF32 b0 b1 b2 = s24ToF32 c0 c1 c2) :
    b0 = c0 ∧ b1 = c1 ∧ b2 = c2 := by
  rw [s24ToF32_eq, s24ToF32_eq, div_left_inj' (by norm_num)] at h
  exact Pcm24.value_inj (by exact_mod_cast h)

/-! ## The ring -/

/-- What a push of `n` frames changes, `frame f c` being the sample of channel `c` of frame `f`. -/
structure Pushed (ch n : Nat) (frame : Nat → Nat → α) (m m' : World α) : Prop where
  rest : m' = { m with shm := { m.shm with
    writeFrames := m'.shm.writeFrames, ring := m'.shm.ring } }
  head : m'.shm.writeFrames = UInt64.ofNat (m.shm.writeFrames.toNat + n)
  stored : ∀ j f, LastAt 65536 m.shm.writeFrames.toNat n j f →
    ∀ c < ch, m'.shm.ring (j * ch + c) = frame f c
  kept : ∀ i, (∀ j f, LastAt 65536 m.shm.writeFrames.toNat n j f →
    ∀ c < ch, i ≠ j * ch + c) → m'.shm.ring i = m.shm.ring i

theorem exec_pushCells_pushed {ch : Nat} (hpos : 1 ≤ ch) (n : Nat) (frame : Nat → Nat → α)
    (l : Bool) (m : World α) :
    ∃ m', exec (pushCells ch n frame) l m = .done l m' () ∧ Pushed ch n frame m m' := by
  obtain ⟨m', hexec, ring, rfl, hres⟩ := exec_pushCells hpos (appended_nil ch m) n frame l
  obtain ⟨ring', hexec', hother⟩ := exec_storeAll_other
    (batchCell 65536 ch m.shm.writeFrames.toNat frame) (n * ch) (j := 0) (m := m) l
  rw [List.nil_append] at hexec hres
  obtain rfl : ring = ring' := by
    have hcells : exec (pushCells ch n frame) l m = .done l { m with shm := { m.shm with
        writeFrames := UInt64.ofNat (m.shm.writeFrames.toNat + n), ring := ring' } } () := by
      show exec (storeAll _ (n * ch) 0 >>= fun _ => wrShm _) l _ = _
      exact exec_bind_done hexec'
    injection hexec.symm.trans hcells with _ hworld _
    exact congrArg (fun w => w.shm.ring) hworld
  have hlen : ((List.range n).map frame).length = n := by
    rw [List.length_map, List.length_range]
  rw [hlen] at hexec hres
  refine ⟨_, hexec, rfl, rfl, fun j f hf c hc => ?_, fun i hi => hother i fun t ht => ?_⟩
  · have hframe : ((List.range n).map frame)[f]? = some (frame f) := by
      rw [List.getElem?_map, List.getElem?_range hf.lt]
      rfl
    rw [← hf.slot]
    exact hres.read hframe (hf.recent (by decide)) hc
  · rw [Nat.zero_add]
    have hf : t / ch < n := Nat.div_lt_of_lt_mul (by rwa [Nat.mul_comm])
    obtain ⟨f, hlast⟩ : ∃ f, LastAt 65536 m.shm.writeFrames.toNat n
        ((m.shm.writeFrames.toNat + t / ch) % 65536) f := exists_lastAt hf
    exact hi _ f hlast (t % ch) (Nat.mod_lt t hpos)

/-- **`push_frames`**, nobody interfering: every byte it reads is in the slice, every cell it
stores to in the ring. -/
theorem exec_pushFrames [Pcm α] {ch : Nat} (hpos : 1 ≤ ch) (hch : ch ≤ 8) (s24 : List UInt8)
    (l : Bool) (m : World α) : ∃ m', exec (pushFrames ch s24) l m = .done l m' () ∧
      Pushed ch (wholeFrames ch s24) (frameOf ch s24) m m' := by
  rw [pushFrames_eq hpos hch]
  split_ifs with hzero
  · refine ⟨m, rfl, rfl, ?_, fun j f hf => ?_, fun _ _ => rfl⟩
    · rw [hzero, Nat.add_zero, UInt64.ofNat_toNat]
    · exact absurd hf.lt (by omega)
  · exact exec_pushCells_pushed hpos _ _ l m

/-- The bytes of channel `c` of frame `f` are in the slice. -/
theorem frameOf_bytes {ch : Nat} {s24 : List UInt8} {f c : Nat} (hf : f < wholeFrames ch s24)
    (hc : c < ch) : ∃ b0 b1 b2, s24[f * (ch * 3) + c * 3]? = some b0 ∧
      s24[f * (ch * 3) + c * 3 + 1]? = some b1 ∧ s24[f * (ch * 3) + c * 3 + 2]? = some b2 ∧
      frameOf (α := ℚ) ch s24 f c = (Pcm24.value b0 b1 b2 : ℚ) / 2 ^ 23 := by
  have hread := s24At_eq (α := ℚ) hf hc
  unfold s24At at hread
  obtain ⟨b0, h0, hread⟩ := Option.bind_eq_some_iff.mp hread
  obtain ⟨b1, h1, hread⟩ := Option.bind_eq_some_iff.mp hread
  obtain ⟨b2, h2, hread⟩ := Option.bind_eq_some_iff.mp hread
  refine ⟨b0, b1, b2, h0, h1, h2, ?_⟩
  rw [← s24ToF32_eq]
  exact (Option.some.inj hread).symm

/-- **`push_frames`, in full.** It stays in the slice and in the ring, advances the write head by
the whole frames of the slice, leaves at every slot the samples of the last frame stored there and
changes nothing else. A sample is the value of its three bytes over 2^23. -/
theorem push_frames_spec {ch : Nat} (hpos : 1 ≤ ch) (hch : ch ≤ 8) (s24 : List UInt8) (l : Bool)
    (m : World ℚ) (hwrap : m.shm.writeFrames.toNat + s24.length / (3 * ch) < 2 ^ 64) :
    (∃ m', exec (pushFrames ch s24) l m = .done l m' () ∧
      m' = { m with shm := { m.shm with
        writeFrames := m'.shm.writeFrames, ring := m'.shm.ring } } ∧
      m'.shm.writeFrames.toNat = m.shm.writeFrames.toNat + s24.length / (3 * ch) ∧
      (∀ j f, LastAt 65536 m.shm.writeFrames.toNat (s24.length / (3 * ch)) j f → ∀ c < ch,
        ∃ b0 b1 b2, s24[f * (ch * 3) + c * 3]? = some b0 ∧
          s24[f * (ch * 3) + c * 3 + 1]? = some b1 ∧ s24[f * (ch * 3) + c * 3 + 2]? = some b2 ∧
          m'.shm.ring (j * ch + c) = (Pcm24.value b0 b1 b2 : ℚ) / 2 ^ 23) ∧
      ∀ i, (∀ j f, LastAt 65536 m.shm.writeFrames.toNat (s24.length / (3 * ch)) j f →
        ∀ c < ch, i ≠ j * ch + c) → m'.shm.ring i = m.shm.ring i) ∧
    (∀ b0 b1 b2, s24ToF32 b0 b1 b2 = (Pcm24.value b0 b1 b2 : ℚ) / 2 ^ 23 ∧
      -1 ≤ s24ToF32 b0 b1 b2 ∧ s24ToF32 b0 b1 b2 < 1) ∧
    ∀ b0 b1 b2 c0 c1 c2, s24ToF32 b0 b1 b2 = s24ToF32 c0 c1 c2 → b0 = c0 ∧ b1 = c1 ∧ b2 = c2 := by
  refine ⟨?_, fun b0 b1 b2 => ⟨s24ToF32_eq b0 b1 b2, s24ToF32_mem b0 b1 b2⟩,
    fun _ _ _ _ _ _ => s24ToF32_inj⟩
  rw [Nat.mul_comm] at hwrap ⊢
  obtain ⟨m', hexec, hpushed⟩ := exec_pushFrames hpos hch s24 l m
  refine ⟨m', hexec, hpushed.rest, ?_, fun j f hf c hc => ?_, hpushed.kept⟩
  · rw [hpushed.head, UInt64.toNat_ofNat']
    exact Nat.mod_eq_of_lt hwrap
  · obtain ⟨b0, b1, b2, h0, h1, h2, hframe⟩ := frameOf_bytes hf.lt hc
    exact ⟨b0, b1, b2, h0, h1, h2, (hpushed.stored j f hf c hc).trans hframe⟩

/-- Two frames of one channel, and a byte more, at the end of the ring. -/
theorem push_frames_spec_mono : ∃ m' : World ℚ,
    exec (pushFrames 1 [0, 0, 64, 0, 0, 128, 7]) false
        ⟨true, { (Shm.zero : Shm ℚ) with writeFrames := 65535 }, {}⟩ = .done false m' () ∧
      m'.shm.writeFrames.toNat = 65537 ∧ m'.shm.ring 65535 = 1 / 2 ∧ m'.shm.ring 0 = -1 := by
  have hmono : 1 ≤ 1 := le_rfl
  obtain ⟨⟨m', hexec, -, hhead, hstored, -⟩, -, -⟩ := push_frames_spec hmono (by decide)
    [0, 0, 64, 0, 0, 128, 7] false ⟨true, { (Shm.zero : Shm ℚ) with writeFrames := 65535 }, {}⟩
    (by decide)
  have hfirst : LastAt 65536 65535 2 65535 0 := ⟨by decide, rfl, by omega⟩
  have hsecond : LastAt 65536 65535 2 0 1 := ⟨by decide, rfl, by omega⟩
  obtain ⟨b0, b1, b2, h0, h1, h2, hcell⟩ := hstored 65535 0 hfirst 0 Nat.one_pos
  obtain ⟨c0, c1, c2, hc0, hc1, hc2, hcell'⟩ := hstored 0 1 hsecond 0 Nat.one_pos
  cases h0; cases h1; cases h2; cases hc0; cases hc1; cases hc2
  refine ⟨m', hexec, hhead, hcell.trans ?_, hcell'.trans ?_⟩
  · decide +kernel
  · decide +kernel

end Line6
