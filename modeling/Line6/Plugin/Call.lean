import Line6.Plugin.Cursor

/-!
# A call among others

What a `DoIOOperation` call does while the other threads keep to its terms, whatever these are.
`S` is what the call knows: the others keep it.

* `safe_cursorSection`: where the window starts, and which cursor says so.
* `safe_copyFrames`: if every cell of the window has a value wherever `S` holds, the copy is the
  frames of those values below the write head, and silence from it on.
-/

namespace Line6

open Conc Conc.Prog

variable {α : Type}

/-- Output frame `i` of a copy from `rf` under the write head `w`, where channel `c` of frame `i`
of the window is `x i c`. -/
def copiedFrame [Pcm α] (ch : Nat) (w rf : UInt64) (x : Nat → Nat → α) (i : Nat) :
    List (Nat × α) :=
  if rf + UInt64.ofNat i < w then (List.range ch).map fun c => (i * ch + c, x i c)
  else silenceCells (i * ch) ch

theorem mem_copiedFrame [Pcm α] {ch : Nat} {w rf : UInt64} {x : Nat → Nat → α} {i : Nat}
    {v : Nat × α} (hv : v ∈ copiedFrame ch w rf x i) :
    v.2 = Pcm.silence ∨ ∃ c < ch, v = (i * ch + c, x i c) := by
  unfold copiedFrame silenceCells at hv
  split_ifs at hv
  · obtain ⟨c, hc, rfl⟩ := List.mem_map.mp hv
    exact .inr ⟨c, List.mem_range.mp hc, rfl⟩
  · obtain ⟨c, -, rfl⟩ := List.mem_map.mp hv
    exact .inl rfl

section

variable {T : Terms (World α)} {acq S : World α → Prop} {h : Bool} {m : World α}
  (hguar : ∀ m, T.guar h m m) (hS : ∀ m m', T.rely h m m' → S m → S m')
include hguar hS

/-- The margin is the one of the latency word, if that stays. -/
theorem safe_readMargin (hm : S m) :
    Safe T acq (fun h' margin m' => h' = h ∧ S m' ∧
      ∀ latency, (∀ m, S m → m.shm.latencyFrames = latency) → margin = marginOf latency) h
      readMargin m := by
  intro m₁ h₁
  have hm₁ := hS _ _ h₁ hm
  refine ⟨hguar m₁, ?_⟩
  show Safe _ _ _ h (if (m₁.shm.latencyFrames != 0) = true then _ else _) m₁
  unfold marginOf
  by_cases hzero : m₁.shm.latencyFrames = 0
  · rw [if_neg (by simpa using hzero)]
    refine fun m₂ h₂ => ⟨rfl, hS _ _ h₂ hm₁, fun latency hlat => ?_⟩
    rw [if_pos ((hlat m₁ hm₁).symm.trans hzero)]
  · rw [if_pos (by simpa using hzero)]
    intro m₂ h₂
    have hm₂ := hS _ _ h₂ hm₁
    refine ⟨hguar m₂, fun m₃ h₃ => ⟨rfl, hS _ _ h₃ hm₂, fun latency hlat => ?_⟩⟩
    rw [if_neg fun hlz => hzero ((hlat m₁ hm₁).trans hlz)]
    exact hlat m₂ hm₂

theorem safe_loadCell {i : Nat} {x : α} (hx : ∀ m, S m → m.shm.ring i = x) (hm : S m) :
    Safe T acq (fun h' v m' => h' = h ∧ S m' ∧ v = x) h (loadCell i) m := by
  unfold loadCell
  split_ifs
  · intro m₁ h₁
    have hm₁ := hS _ _ h₁ hm
    exact ⟨hguar m₁, fun m₂ h₂ => ⟨rfl, hS _ _ h₂ hm₁, hx m₁ hm₁⟩⟩
  · trivial

/-- The copy of the channels of a frame, from `c` on. -/
theorem safe_copyCells {ch slot dst : Nat} {x : Nat → α}
    (hx : ∀ m c, S m → c < ch → m.shm.ring (slot + c) = x c) {rem c : Nat} (hc : c + rem = ch)
    (hm : S m) :
    Safe T acq (fun h' ws m' => h' = h ∧ S m' ∧
      ws = (List.range' c rem).map fun c => (dst + c, x c)) h (copyCells slot dst rem c) m := by
  induction rem generalizing c m with
  | zero => exact fun m' h' => ⟨rfl, hS _ _ h' hm, rfl⟩
  | succ rem ih =>
    have hcell (m : World α) (hm : S m) : m.shm.ring (slot + c) = x c := hx m c hm (by omega)
    refine Safe.bind ((safe_loadCell hguar hS hcell hm).mono ?_)
    rintro h' v m₁ ⟨rfl, hm₁, rfl⟩
    refine Safe.bind ((ih (by omega) hm₁).mono ?_)
    rintro h' ws m₂ ⟨rfl, hm₂, rfl⟩
    exact fun m₃ h₃ => ⟨rfl, hS _ _ h₃ hm₂, rfl⟩

/-- **The copy of a window** whose cells below the write head have known values. -/
theorem safe_copyFrames [Pcm α] {ch n : Nat} {w rf : UInt64} {x : Nat → Nat → α}
    (hx : ∀ i < n, rf + UInt64.ofNat i < w → ∀ m c, S m → c < ch →
      m.shm.ring (((rf + UInt64.ofNat i) &&& ringMask).toNat * ch + c) = x i c)
    {rem i : Nat} (hi : i + rem = n) (hm : S m) :
    Safe T acq (fun h' ws m' => h' = h ∧ S m' ∧
      ws = (List.range' i rem).flatMap (copiedFrame ch w rf x)) h (copyFrames ch w rf rem i) m := by
  induction rem generalizing i m with
  | zero => exact fun m' h' => ⟨rfl, hS _ _ h' hm, rfl⟩
  | succ rem ih =>
    have hframe : Safe T acq (fun h' ws m' => h' = h ∧ S m' ∧ ws = copiedFrame ch w rf x i) h
        (if rf + UInt64.ofNat i < w
          then copyCells (((rf + UInt64.ofNat i) &&& ringMask).toNat * ch) (i * ch) ch 0
          else pure (silenceCells (i * ch) ch)) m := by
      unfold copiedFrame
      by_cases hbelow : rf + UInt64.ofNat i < w
      · rw [if_pos hbelow, if_pos hbelow, List.range_eq_range']
        exact safe_copyCells hguar hS (hx i (by omega) hbelow) (Nat.zero_add ch) hm
      · rw [if_neg hbelow, if_neg hbelow]
        exact fun m' h' => ⟨rfl, hS _ _ h' hm, rfl⟩
    refine Safe.bind (hframe.mono ?_)
    rintro h' ws m₁ ⟨rfl, hm₁, rfl⟩
    refine Safe.bind ((ih (by omega) hm₁).mono ?_)
    rintro h' ws m₂ ⟨rfl, hm₂, rfl⟩
    exact fun m₃ h₃ => ⟨rfl, hS _ _ h₃ hm₂, rfl⟩

end

/-- The cursor a section under the mutex leaves for the cycle: the window starts where it says.
The call that moved it did so by the head `w` and the margin. -/
structure LeavesCursor (S : World α → Prop) (n : UInt32) (cycle w : UInt64) (r : UInt64 × Bool)
    (c : Cursor) : Prop where
  last : c.gLastCycle = cycle
  start : c.gCycleReadFrame = r.1
  first : r.2 = true → ∃ c₀ margin, c = Cursor.move c₀ n margin cycle w ∧
    ∀ latency, (∀ m, S m → m.shm.latencyFrames = latency) → margin = marginOf latency

/-- **The section under the mutex**, if nobody else moves the cursor while it is held and what the
call knows is not about the cursor. -/
theorem safe_cursorSection {T : Terms (World α)} {acq S : World α → Prop} {h : Bool} {m : World α}
    (hstrict : ¬ T.strict) (hguar : ∀ m, T.guar true m m)
    (hS : ∀ h m m', T.rely h m m' → S m → S m')
    (hcursor : ∀ m m', T.rely true m m' → m'.plug.cursor = m.plug.cursor)
    {n : UInt32} {cycle w : UInt64}
    (hmove : ∀ m margin, S m → m.plug.cursor.gLastCycle ≠ cycle →
      let m' := { m with plug := { m.plug with cursor := m.plug.cursor.move n margin cycle w } }
      T.guar true m m' ∧ S m') (hm : S m) :
    Safe T acq (fun h' r m' => h' = false ∧ S m' ∧
      ∃ m₁, T.rely false m₁ m' ∧ LeavesCursor S n cycle w r m₁.plug.cursor) h
      (cursorSection n cycle w) m := by
  have hend {first : Bool} {c : Cursor} (hc : LeavesCursor S n cycle w (c.gCycleReadFrame, first) c)
      {m : World α} (hm : S m) (hmc : m.plug.cursor = c) :
      Safe T acq (fun h' r m' => h' = false ∧ S m' ∧
        ∃ m₁, T.rely false m₁ m' ∧ LeavesCursor S n cycle w r m₁.plug.cursor) true
        (do
          let rf ← rd fun m => m.plug.cursor.gCycleReadFrame
          release
          return (rf, first)) m := by
    intro m₁ h₁
    have hc₁ := (hcursor _ _ h₁).trans hmc
    refine ⟨hguar m₁, rfl, fun m₂ h₂ m₃ h₃ => ?_⟩
    have hc₂ := (hcursor _ _ h₂).trans hc₁
    refine ⟨rfl, hS _ _ _ h₃ (hS _ _ _ h₂ (hS _ _ _ h₁ hm)), m₂, h₃, ?_⟩
    show LeavesCursor S n cycle w (m₁.plug.cursor.gCycleReadFrame, first) _
    rwa [hc₁, hc₂]
  refine ⟨fun hs => absurd hs hstrict, ?_⟩
  rintro rfl m₁ h₁ - m₂ h₂
  have hm₂ := hS _ _ _ h₂ (hS _ _ _ h₁ hm)
  refine ⟨hguar m₂, ?_⟩
  show Safe _ _ _ true (if (cycle != m₂.plug.cursor.gLastCycle) = true then _ else _) m₂
  by_cases hfirst : m₂.plug.cursor.gLastCycle = cycle
  · rw [if_neg (by simp [hfirst])]
    exact hend ⟨hfirst, rfl, fun h => absurd h (by simp [hfirst])⟩ hm₂ rfl
  · rw [if_pos (by simpa using Ne.symm hfirst)]
    have hstays (m m' : World α) (hr : T.rely true m m')
        (hm : S m ∧ m.plug.cursor.gLastCycle ≠ cycle) :
        S m' ∧ m'.plug.cursor.gLastCycle ≠ cycle :=
      ⟨hS _ _ _ hr hm.1, by rw [hcursor _ _ hr]; exact hm.2⟩
    refine Safe.bind ((safe_readMargin hguar hstays ⟨hm₂, hfirst⟩).mono ?_)
    rintro h' margin m₃ ⟨rfl, hm₃, hmargin⟩ m₄ h₄
    obtain ⟨hm₄, hne⟩ := hstays _ _ h₄ hm₃
    obtain ⟨hg, hm₅⟩ := hmove m₄ margin hm₄ hne
    refine ⟨hg, hend ⟨rfl, rfl, fun _ => ⟨_, margin, rfl, fun latency hlat => ?_⟩⟩ hm₅ rfl⟩
    exact hmargin latency fun m hm => hlat m hm.1

end Line6
