import Mathlib.Logic.Function.Basic
import Mathlib.Data.Nat.ModEq

/-!
# A ring buffer as the tail of a log

A writer appends frames of `stride` cells to a log and stores frame `k` of it at slot
`(base + k) % cap` of a flat memory. `Resident log begun mem` says that the memory holds every
frame of the log that a writer who has begun `begun` frames cannot have overwritten yet: a frame
is lost when the frame `cap` places after it is begun, not when it is finished.

* `Resident.store`: a store into the frame being written (frame `log.length`, already counted in
  `begun`) spares the resident frames.
* `Resident.snoc`: once its cells are stored, the frame is resident with the others.
* `Resident.read`: what a reader of an old enough frame finds.
* `LastAt`: the frame of a batch that is left at its slot.
* `Stored`: a batch of frames after the log, `j` of its cells stored, frame by frame; one more
  store (`Stored.step`) takes it to `j + 1`, and a whole batch joins the log (`Stored.all`).
-/

namespace RingLog

variable {α : Type}

/-- The cell of channel `c` of frame `k`. -/
def cell (cap stride k c : Nat) : Nat := k % cap * stride + c

variable {cap stride base begun : Nat}

theorem cell_lt (hcap : 0 < cap) {k c : Nat} (hc : c < stride) :
    cell cap stride k c < cap * stride := by
  have hk : k % cap + 1 ≤ cap := Nat.mod_lt k hcap
  calc cell cap stride k c < k % cap * stride + stride := Nat.add_lt_add_left hc _
    _ = (k % cap + 1) * stride := (Nat.succ_mul ..).symm
    _ ≤ cap * stride := Nat.mul_le_mul_right _ hk

/-- A cell names its slot and its channel. -/
theorem cell_inj {k k' c c' : Nat} (hc : c < stride) (hc' : c' < stride)
    (h : cell cap stride k c = cell cap stride k' c') : k % cap = k' % cap ∧ c = c' := by
  unfold cell at h
  have hs : 0 < stride := Nat.zero_lt_of_lt hc
  have hdiv : ∀ a b, b < stride → (a * stride + b) / stride = a := fun a b hb => by
    rw [Nat.add_comm, Nat.add_mul_div_right _ _ hs, Nat.div_eq_of_lt hb, Nat.zero_add]
  have hq : k % cap = k' % cap := by rw [← hdiv (k % cap) c hc, h, hdiv _ _ hc']
  rw [hq] at h
  exact ⟨hq, Nat.add_left_cancel h⟩

theorem cell_mod {k c : Nat} (hc : c < stride) : cell cap stride k c % stride = c := by
  unfold cell
  rw [Nat.add_comm, Nat.add_mul_mod_self_right, Nat.mod_eq_of_lt hc]

/-- Frames less than `cap` apart have different slots. -/
theorem slot_ne {k k' : Nat} (h : k < k') (h' : k' < k + cap) : k % cap ≠ k' % cap := by
  intro he
  have hd : cap ∣ k' - k := (Nat.modEq_iff_dvd' h.le).mp he
  have := Nat.le_of_dvd (by omega) hd
  omega

/-- A free-running 64-bit counter masked to a power-of-two capacity is the slot of its frame. -/
theorem and_mask {w m : UInt64} {b : Nat} (hm : m.toNat = 2 ^ b - 1) :
    (w &&& m).toNat = w.toNat % 2 ^ b := by
  rw [UInt64.toNat_and, hm, Nat.and_two_pow_sub_one_eq_mod]

/-- The wrap of the counter does not move the slots. -/
theorem ofNat_slot {b : Nat} (hb : b ≤ 64) (k : Nat) :
    (UInt64.ofNat k).toNat % 2 ^ b = k % 2 ^ b := by
  rw [UInt64.toNat_ofNat', Nat.mod_mod_of_dvd _ (Nat.pow_dvd_pow 2 hb)]

/-- The frames of the log that `begun` begun frames leave in the memory. -/
def Resident (cap stride base : Nat) (log : List (Nat → α)) (begun : Nat) (mem : Nat → α) :
    Prop :=
  ∀ k x, log[k]? = some x → begun ≤ k + cap → ∀ c < stride,
    mem (cell cap stride (base + k) c) = x c

variable {log : List (Nat → α)} {mem : Nat → α}

theorem resident_nil : Resident cap stride base ([] : List (Nat → α)) begun mem := by
  intro k x h
  simp at h

/-- Beginning more frames leaves fewer resident. -/
theorem Resident.mono {begun' : Nat} (h : Resident cap stride base log begun mem)
    (hb : begun ≤ begun') : Resident cap stride base log begun' mem :=
  fun k x hk hle => h k x hk (hb.trans hle)

theorem Resident.of_append {more : List (Nat → α)}
    (h : Resident cap stride base (log ++ more) begun mem) :
    Resident cap stride base log begun mem := by
  intro k x hk hle
  have hlt := (List.getElem?_eq_some_iff.mp hk).1
  exact h k x (by rw [List.getElem?_append_left hlt, hk]) hle

/-- A store into the frame after the log spares the frames still resident once it is begun. -/
theorem Resident.store (h : Resident cap stride base log begun mem)
    (hb : log.length < begun) {c : Nat} (hc : c < stride) (v : α) :
    Resident cap stride base log begun
      (Function.update mem (cell cap stride (base + log.length) c) v) := by
  intro k x hk hle c' hc'
  have hlt := (List.getElem?_eq_some_iff.mp hk).1
  rw [Function.update_of_ne]
  · exact h k x hk hle c' hc'
  · intro he
    have hl : base + k < base + log.length := Nat.add_lt_add_left hlt base
    exact slot_ne hl (by omega) (cell_inj hc' hc he).1

/-- A frame whose cells are all stored joins the log. -/
theorem Resident.snoc (h : Resident cap stride base log begun mem) {x : Nat → α}
    (hx : ∀ c < stride, mem (cell cap stride (base + log.length) c) = x c) :
    Resident cap stride base (log ++ [x]) begun mem := by
  intro k y hk hle c hc
  rcases Nat.lt_or_ge k log.length with hlt | hge
  · rw [List.getElem?_append_left hlt] at hk
    exact h k y hk hle c hc
  · have hk' := (List.getElem?_eq_some_iff.mp hk).1
    rw [List.length_append, List.length_singleton] at hk'
    obtain rfl : k = log.length := by omega
    rw [List.getElem?_concat_length] at hk
    cases hk
    exact hx c hc

/-- A reader of frame `k` finds it, if no frame `cap` after it has been begun. -/
theorem Resident.read (h : Resident cap stride base log begun mem) {k c : Nat} {x : Nat → α}
    (hk : log[k]? = some x) (hle : begun ≤ k + cap) (hc : c < stride) :
    mem (cell cap stride (base + k) c) = x c :=
  h k x hk hle c hc

/-! ## Batches longer than the ring -/

variable (cap base) in
/-- Frame `f` is the last of `n` frames, the first of them at position `base`, with slot `j`. -/
structure LastAt (n j f : Nat) : Prop where
  lt : f < n
  slot : (base + f) % cap = j
  last : ∀ f', f < f' → f' < n → (base + f') % cap ≠ j

/-- It is among the last `cap` frames. -/
theorem LastAt.recent {n j f : Nat} (hcap : 0 < cap) (h : LastAt cap base n j f) : n ≤ f + cap := by
  by_contra hlt
  refine h.last (f + cap) (by omega) (by omega) ?_
  rw [← Nat.add_assoc, Nat.add_mod_right, h.slot]

/-- Every slot a frame was stored at has a last one. -/
theorem exists_lastAt {n f : Nat} (hf : f < n) : ∃ f', LastAt cap base n ((base + f) % cap) f' := by
  induction n with
  | zero => exact absurd hf (Nat.not_lt_zero f)
  | succ n ih =>
    by_cases hslot : (base + n) % cap = (base + f) % cap
    · exact ⟨n, Nat.lt_succ_self n, hslot, fun f' hlt hle => absurd hle (by omega)⟩
    · have hne : f ≠ n := fun heq => hslot (by rw [heq])
      obtain ⟨f', h⟩ := ih (by omega)
      refine ⟨f', Nat.lt_succ_of_lt h.lt, h.slot, fun f'' hlt hle => ?_⟩
      rcases Nat.lt_succ_iff_lt_or_eq.mp hle with hle | rfl
      · exact h.last f'' hlt hle
      · exact hslot

/-! ## Batches -/

variable (cap stride base) in
/-- Cell `j` of a batch whose first frame has position `base`: its address and its value. -/
def batchCell (frame : Nat → Nat → α) (j : Nat) : Nat × α :=
  (cell cap stride (base + j / stride) (j % stride), frame (j / stride) (j % stride))

/-- Only the slot of the first frame matters. -/
theorem batchCell_congr {b b' : Nat} (h : b % cap = b' % cap) (frame : Nat → Nat → α) :
    batchCell cap stride b frame = batchCell cap stride b' frame := by
  funext j
  unfold batchCell cell
  rw [Nat.add_mod, h, ← Nat.add_mod]

/-- Frames a writer has begun after `j` stores. -/
def framesBegun (stride j : Nat) : Nat := (j + (stride - 1)) / stride

variable (cap stride base) in
/-- The memory holds the log, the finished frames of the batch after it, and the cells stored so
far of the frame in progress. -/
def Stored (log : List (Nat → α)) (frame : Nat → Nat → α) (j : Nat) (mem : Nat → α) : Prop :=
  Resident cap stride base (log ++ (List.range (j / stride)).map frame)
      (log.length + framesBegun stride j) mem ∧
    ∀ c < j % stride,
      mem (cell cap stride (base + log.length + j / stride) c) = frame (j / stride) c

theorem framesBegun_mono {j j' : Nat} (h : j ≤ j') : framesBegun stride j ≤ framesBegun stride j' :=
  Nat.div_le_div_right (Nat.add_le_add_right h _)

theorem framesBegun_zero : framesBegun stride 0 = 0 := by
  unfold framesBegun
  rcases Nat.eq_zero_or_pos stride with rfl | hs
  · rfl
  · exact Nat.div_eq_of_lt (by omega)

/-- The frame of the next store counts as begun once it is made. -/
theorem framesBegun_succ (hs : 0 < stride) (j : Nat) :
    framesBegun stride (j + 1) = j / stride + 1 := by
  unfold framesBegun
  rw [show j + 1 + (stride - 1) = j + stride by omega, Nat.add_div_right _ hs]

theorem framesBegun_mul (hs : 0 < stride) (n : Nat) : framesBegun stride (n * stride) = n := by
  unfold framesBegun
  rw [Nat.add_comm, Nat.add_mul_div_right _ _ hs, Nat.div_eq_of_lt (by omega), Nat.zero_add]

/-- After the last cell of a frame comes the first of the next. -/
theorem succ_div_mod_last {j : Nat} (h : j % stride + 1 = stride) :
    (j + 1) / stride = j / stride + 1 ∧ (j + 1) % stride = 0 := by
  refine (Nat.div_mod_unique (by omega)).mpr ⟨?_, by omega⟩
  rw [Nat.zero_add, Nat.mul_succ]
  have := Nat.div_add_mod j stride
  omega

theorem succ_div_mod {j : Nat} (h : j % stride + 1 < stride) :
    (j + 1) / stride = j / stride ∧ (j + 1) % stride = j % stride + 1 := by
  refine (Nat.div_mod_unique (by omega)).mpr ⟨?_, h⟩
  have := Nat.div_add_mod j stride
  omega

variable {frame : Nat → Nat → α} {j : Nat}

theorem stored_zero (h : Resident cap stride base log log.length mem) :
    Stored cap stride base log frame 0 mem := by
  refine ⟨?_, fun c hc => absurd hc (by simp)⟩
  rw [framesBegun_zero, Nat.zero_div, List.range_zero, List.map_nil, List.append_nil]
  exact h

/-- **One store of the batch.** -/
theorem Stored.step (hs : 0 < stride) (h : Stored cap stride base log frame j mem) :
    Stored cap stride base log frame (j + 1)
      (Function.update mem (batchCell cap stride (base + log.length) frame j).1
        (batchCell cap stride (base + log.length) frame j).2) := by
  obtain ⟨hres, hcur⟩ := h
  have hc : j % stride < stride := Nat.mod_lt j hs
  have hlen : (log ++ (List.range (j / stride)).map frame).length = log.length + j / stride := by
    rw [List.length_append, List.length_map, List.length_range]
  -- the old frames, and the cells of the current one up to this store
  have hold : Resident cap stride base (log ++ (List.range (j / stride)).map frame)
      (log.length + framesBegun stride (j + 1)) (Function.update mem
        (cell cap stride (base + log.length + j / stride) (j % stride))
        (frame (j / stride) (j % stride))) := by
    have hb := framesBegun_succ hs j
    have := (hres.mono (Nat.add_le_add_left (framesBegun_mono (Nat.le_succ j)) _)).store
      (by rw [hlen, hb]; omega) hc (frame (j / stride) (j % stride))
    rwa [hlen, ← Nat.add_assoc] at this
  have hnew : ∀ c ≤ j % stride, Function.update mem
      (cell cap stride (base + log.length + j / stride) (j % stride))
      (frame (j / stride) (j % stride)) (cell cap stride (base + log.length + j / stride) c) =
        frame (j / stride) c := by
    intro c hle
    rcases Nat.lt_or_eq_of_le hle with hlt | rfl
    · rw [Function.update_of_ne]
      · exact hcur c hlt
      · intro he
        exact absurd (cell_inj (hlt.trans hc) hc he).2 hlt.ne
    · exact Function.update_self ..
  unfold Stored batchCell
  rcases Nat.lt_or_eq_of_le (Nat.succ_le_of_lt hc) with hmore | hlast
  · obtain ⟨hdiv, hmod⟩ := succ_div_mod hmore
    rw [hdiv, hmod]
    exact ⟨hold, fun c hc' => hnew c (Nat.le_of_lt_succ hc')⟩
  · obtain ⟨hdiv, hmod⟩ := succ_div_mod_last hlast
    rw [hdiv, hmod, List.range_succ, List.map_append, ← List.append_assoc]
    refine ⟨hold.snoc fun c hc' => ?_, fun c hc' => absurd hc' (Nat.not_lt_zero c)⟩
    rw [hlen, ← Nat.add_assoc]
    exact hnew c (by omega)

/-- **A whole batch joins the log.** -/
theorem Stored.all (hs : 0 < stride) {n : Nat}
    (h : Stored cap stride base log frame (n * stride) mem) :
    Resident cap stride base (log ++ (List.range n).map frame)
      (log ++ (List.range n).map frame).length mem := by
  have := h.1
  rwa [framesBegun_mul hs, Nat.mul_div_cancel _ hs,
    show log.length + n = (log ++ (List.range n).map frame).length by simp] at this

end RingLog
