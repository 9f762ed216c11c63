import Line6.Lib.Amid
import Line6.Plugin.Io

/-!
# DoIOOperation on a hostile segment

Anybody may write to the segment while a call runs, so nothing it reads there can be trusted, nor
to be the same when it is read again.

* `doIO_safe`: a call stays in the ring, returns, and writes every float of its frames once.
-/

namespace Line6

open Conc Conc.Prog

variable {α : Type}

/-! ## Programs that do not die -/

theorem ends_loadCell {l : Bool} {i : Nat} (hi : i < ringSamples) :
    Ends (fun l' _ => l' = l) l (loadCell (α := α) i) := by
  unfold loadCell
  rw [if_pos hi]
  exact fun _ => rfl

/-- The channels of a frame are in the ring, wherever the frame is. -/
theorem ends_copyCells {l : Bool} {ch : Nat} (hch : ch ≤ 8) (src : UInt64) (dst : Nat)
    {rem c : Nat} (hc : c + rem = ch) :
    Ends (fun l' _ => l' = l) l (copyCells (α := α) ((src &&& ringMask).toNat * ch) dst rem c) := by
  induction rem generalizing c with
  | zero => rfl
  | succ rem ih =>
    refine Ends.bind ((ends_loadCell (slot_lt src hch (by omega))).mono ?_)
    rintro l' v rfl
    refine Ends.bind ((ih (by omega)).mono ?_)
    rintro l' ws rfl
    rfl

/-- **The copy loop stays in the ring**, whatever the head and the start of the window. -/
theorem ends_copyFrames [Pcm α] {l : Bool} {ch : Nat} (hch : ch ≤ 8) (w rf : UInt64)
    {rem i : Nat} : Ends (fun l' _ => l' = l) l (copyFrames (α := α) ch w rf rem i) := by
  induction rem generalizing i with
  | zero => rfl
  | succ rem ih =>
    have hframe : Ends (fun l' _ => l' = l) l (if rf + UInt64.ofNat i < w
        then copyCells (((rf + UInt64.ofNat i) &&& ringMask).toNat * ch) (i * ch) ch 0
        else pure (silenceCells (α := α) (i * ch) ch)) := by
      split_ifs
      · exact ends_copyCells hch _ _ (Nat.zero_add ch)
      · rfl
    refine Ends.bind (hframe.mono ?_)
    rintro l' ws rfl
    refine Ends.bind (ih.mono ?_)
    rintro l' ws' rfl
    rfl

theorem ends_readMargin {l : Bool} : Ends (fun l' _ => l' = l) l (readMargin (α := α)) := by
  intro m
  show Ends _ _ (if (m.shm.latencyFrames != 0) = true then _ else _)
  split_ifs
  · exact fun _ => rfl
  · rfl

theorem ends_cursorSection (n : UInt32) (cycle w : UInt64) :
    Ends (fun l' _ => l' = false) false (cursorSection (α := α) n cycle w) := by
  refine ⟨rfl, fun m => ?_⟩
  show Ends _ true (if (cycle != m.plug.cursor.gLastCycle) = true then _ else _)
  split_ifs
  · refine Ends.bind (ends_readMargin.mono ?_)
    rintro l' margin rfl
    exact fun _ _ => ⟨rfl, rfl⟩
  · exact fun _ => ⟨rfl, rfl⟩

/-- From its load of the write head on a call ends with the floats of its frames written. -/
theorem ends_doIOFromLoad [Pcm α] {ch : UInt32} (hch : ch.toNat ≤ 8) (n : UInt32)
    (cycle : UInt64) :
    Ends (fun l' r => l' = false ∧ ∃ w rf first writes, r = .read ch w rf first writes ∧
      writes.map Prod.fst = List.range (n.toNat * ch.toNat)) false
      (doIOFromLoad (α := α) n cycle ch) := by
  refine Ends.bind fun m => Ends.bind ((ends_cursorSection n cycle m.shm.writeFrames).mono ?_)
  rintro l' r rfl
  have hwrites : Yields (fun ws => ws.map Prod.fst = List.range (n.toNat * ch.toNat))
      (copyFrames (α := α) ch.toNat m.shm.writeFrames r.1 n.toNat 0) := by
    have hframes : Yields _ (copyFrames (α := α) ch.toNat m.shm.writeFrames r.1 n.toNat 0) :=
      yields_copyFrames _ _ _
    rwa [Nat.zero_mul, ← List.range_eq_range'] at hframes
  refine Ends.bind (((ends_copyFrames hch _ _).yields hwrites).mono ?_)
  rintro l' ws ⟨rfl, hws⟩
  exact ⟨rfl, _, _, _, ws, rfl, hws⟩

/-! ## Whole calls -/

/-- A call after `DevChannels`. -/
theorem ends_afterChannels [Pcm α] {ch : UInt32} (hch : ch.toNat ≤ 8) (n : UInt32)
    (cycle : UInt64) :
    Ends (fun l r => l = false ∧
      ((∃ writes, r = .detached ch writes) ∨ ∃ w rf first writes, r = .read ch w rf first writes) ∧
      r.writes.map Prod.fst = List.range (n.toNat * ch.toNat)) false (do
        if !(← rd fun m : World α => m.plug.gShm) then
          return .detached ch (silenceCells 0 (n.toNat * ch.toNat))
        doIOFromLoad n cycle ch) := by
  refine Ends.bind fun m => ?_
  show Ends _ _ (if (!m.plug.gShm) = true then _ else _)
  split_ifs
  · refine ⟨rfl, .inl ⟨_, rfl⟩, ?_⟩
    exact (silenceCells_fst ..).trans List.range_eq_range'.symm
  · refine (ends_doIOFromLoad hch n cycle).mono ?_
    rintro l r ⟨rfl, w, rf, first, writes, rfl, hwrites⟩
    exact ⟨rfl, .inr ⟨w, rf, first, writes, rfl⟩, hwrites⟩

/-- The channel count of a call: whether the plugin is attached is its first read, the word in the
header its second. -/
def channelsAmid (env : Nat → World α → World α) (m : World α) : UInt32 :=
  clampChannels (if (env 0 m).plug.gShm then (env 1 (env 0 m)).shm.channels else maxChannels)

/-- **`DoIOOperation` is safe on any segment.** Whatever the segment and the plugin's globals are
before each action of a `ReadInput` call, it returns, every cell it reads being in the ring, with
the mutex released, and it writes the floats of `inFrames` frames of the one channel count it chose
at its start, each of them once, and nothing else. -/
theorem doIO_safe [Pcm α] (n : UInt32) (cycle : UInt64) (env : Nat → World α → World α)
    (m : World α) : ∃ m' r,
      execAmid (doIOOperation true false n cycle) env false m = .done false m' r ∧
      ((∃ writes, r = .detached (channelsAmid env m) writes) ∨
        ∃ w rf first writes, r = .read (channelsAmid env m) w rf first writes) ∧
      1 ≤ (channelsAmid env m).toNat ∧ (channelsAmid env m).toNat ≤ 8 ∧
      r.writes.map Prod.fst = List.range (n.toNat * (channelsAmid env m).toNat) := by
  have hle : (channelsAmid env m).toNat ≤ 8 := clampChannels_le _
  obtain ⟨env', m₀, hrun⟩ : ∃ env' m₀, execAmid (doIOOperation true false n cycle) env false m =
      execAmid (do
        if !(← rd fun m : World α => m.plug.gShm) then
          return .detached (channelsAmid env m)
            (silenceCells 0 (n.toNat * (channelsAmid env m).toNat))
        doIOFromLoad n cycle (channelsAmid env m)) env' false m₀ := by
    unfold channelsAmid
    cases hattached : (env 0 m).plug.gShm with
    | false =>
      refine ⟨fun i => env (i + 1), env 0 m, ?_⟩
      show execAmid ((if (env 0 m).plug.gShm = true then _ else _) >>= _) _ _ _ = _
      rw [if_neg (by simp [hattached])]
      rfl
    | true =>
      refine ⟨fun i => env (i + 2), env 1 (env 0 m), ?_⟩
      show execAmid ((if (env 0 m).plug.gShm = true then _ else _) >>= _) _ _ _ = _
      rw [if_pos hattached]
      rfl
  obtain ⟨l', m', r, hexec, rfl, hr, hwrites⟩ := (ends_afterChannels hle n cycle).amid env' m₀
  exact ⟨m', r, hrun.trans hexec, hr, one_le_clampChannels _, hle, hwrites⟩

end Line6
