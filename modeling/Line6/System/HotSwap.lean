import Line6.Plugin.Call
import Line6.System.Producer

/-!
# Channels across a change of the device

`create` stores the channel count first and resets the write head last, and a `DoIOOperation`
call reads its stride and the write head at different times. `Tag` says of a sample which channel
of a frame of how many channels it was stored for.

* `channel_integrity`: in every run in which no `DoIOOperation` call overlaps a change of the
  channel count (an attach that changes what `DevChannels` returns, or a `create` from its store
  of another count to its reset of the write head), every sample delivered is silence or was
  stored for the channel it is delivered at, for a device of the call's channel count.
* `stereo_call_reads_mono_frame`: a run in which one does.
-/

namespace Line6

open Conc Conc.Prog Conc.Pool RingLog

/-! ## Tagged samples -/

/-- Silence, or the channel and the channel count a sample was stored for. -/
inductive Tag where
  | silence
  | sample (channels ch : Nat)
  deriving Repr, DecidableEq

instance : Pcm Tag where
  silence := .silence
  s24 channels ch _ _ _ := .sample channels ch

/-- The channel count of the header. -/
def World.headerChannels {α : Type} (m : World α) : Nat := (clampChannels m.shm.channels).toNat

/-- Cell `i` holds a sample of the channel it stands for in frames of `ch` channels. -/
def Tagged (ch i : Nat) (m : World Tag) : Prop := m.shm.ring i = .sample ch (i % ch)

/-- The frames of the ring below `n` are frames of `ch` channels. -/
def TaggedBelow (ch n : Nat) (m : World Tag) : Prop :=
  ∀ k < n, ∀ c < ch, Tagged ch (cell 65536 ch k c) m

/-- The published frames are of the header's channel count. -/
def Coherent (m : World Tag) : Prop :=
  TaggedBelow m.headerChannels m.shm.writeFrames.toNat m

theorem coherent_empty {m : World Tag} (h : m.shm.writeFrames = 0) : Coherent m := by
  intro k hk
  rw [h] at hk
  exact absurd hk (Nat.not_lt_zero k)

/-- The store of a tagged sample keeps the cells tagged for that channel count. -/
theorem Tagged.store {ch i j : Nat} {m : World Tag} {ring : Nat → Tag} (h : Tagged ch i m)
    (hring : ring = Function.update m.shm.ring j (.sample ch (j % ch))) :
    ring i = .sample ch (i % ch) := by
  rw [hring]
  by_cases hij : i = j
  · rw [hij, Function.update_self]
  · rw [Function.update_of_ne hij]
    exact h

/-! ## The channel count a call sees -/

theorem devChannels_attached {α : Type} {m : World α} (h : m.plug.gShm = true) :
    m.devChannels.toNat = m.headerChannels := by
  unfold World.devChannels World.headerChannels
  rw [if_pos h]

/-- What the others do to a call: the channel count it sees stays, the plugin stays attached, the
ring stays coherent, and what is tagged stays tagged. -/
def strideTerms : Terms (World Tag) where
  strict := False
  rely _ m m' := m'.devChannels = m.devChannels ∧ (m.plug.gShm = true → m'.plug.gShm = true) ∧
    (Coherent m → Coherent m') ∧
    (m.plug.gShm = true → ∀ i, Tagged m.devChannels.toNat i m → Tagged m.devChannels.toNat i m')
  guar _ _ _ := True
  refl _ _ := ⟨rfl, id, id, fun _ _ => id⟩
  trans h₁ h₂ := ⟨h₂.1.trans h₁.1, h₂.2.1 ∘ h₁.2.1, h₂.2.2.1 ∘ h₁.2.2.1,
    fun h i hi => h₁.1 ▸ h₂.2.2.2 (h₁.2.1 h) i (h₁.1.symm ▸ h₁.2.2.2 h i hi)⟩

/-- The stride a call used. -/
def IOResult.stride {α : Type} : IOResult α → Nat
  | .skipped => 0
  | .detached ch _ => ch.toNat
  | .read ch _ _ _ _ => ch.toNat

/-- **Every sample delivered is silence or was stored for its channel**, for a device of the
call's channel count. -/
def IOResult.Intact (r : IOResult Tag) : Prop :=
  ∀ x ∈ r.writes, x.2 = .silence ∨ x.2 = .sample r.stride (x.1 % r.stride)

variable {h : Bool} {m : World Tag}

theorem safe_devChannels_coherent (hm : Coherent m) :
    Safe strideTerms (fun _ => True)
      (fun h' ch m' => h' = h ∧ Coherent m' ∧ m'.devChannels = ch) h devChannels m := by
  refine safe_devChannels (fun _ => trivial) ?_ ?_ ?_ hm
  · rintro m m' ⟨hcount, -, -, -⟩
    exact hcount
  · rintro m m' ⟨-, hattached, -, -⟩
    exact hattached
  · rintro m m' ⟨-, -, hcoh, -⟩
    exact hcoh

/-- What a call knows once it has loaded a write head. -/
structure Loaded (ch : UInt32) (w : Nat) (m : World Tag) : Prop where
  attached : m.plug.gShm = true
  count : m.devChannels = ch
  tagged : TaggedBelow ch.toNat w m

theorem Loaded.rely {ch : UInt32} {w : Nat} {m' : World Tag} (hm : Loaded ch w m)
    (h' : strideTerms.rely h m m') : Loaded ch w m' := by
  obtain ⟨hg, rfl, ht⟩ := hm
  exact ⟨h'.2.1 hg, h'.1, fun k hk c hc => h'.2.2.2 hg _ (ht k hk c hc)⟩

theorem safe_cursorSection_loaded {ch : UInt32} {w' : Nat} (n : UInt32) (cycle w : UInt64)
    (hm : Loaded ch w' m) :
    Safe strideTerms (fun _ => True) (fun _ _ m' => Loaded ch w' m') h
      (cursorSection n cycle w) m := by
  refine ⟨False.elim, fun hh m₁ h₁ _ m₂ h₂ => ⟨trivial, ?_⟩⟩
  have hm₂ : Loaded ch w' m₂ := (hm.rely h₁).rely h₂
  show Safe _ _ _ true (if (cycle != m₂.plug.cursor.gLastCycle) = true then _ else _) m₂
  by_cases hfirst : (cycle != m₂.plug.cursor.gLastCycle) = true
  · rw [if_pos hfirst]
    refine Safe.bind ((safe_readMargin (fun _ => trivial) (fun _ _ hr hm => hm.rely hr) hm₂).mono ?_)
    rintro h' margin m₃ ⟨rfl, hm₃, -⟩ m₄ h₄
    -- the cursor is not part of what the call relies on
    have hm₄ : Loaded ch w' { m₄ with plug := { m₄.plug with
        cursor := m₄.plug.cursor.move n margin cycle w } } :=
      ⟨(hm₃.rely h₄).attached, (hm₃.rely h₄).count, (hm₃.rely h₄).tagged⟩
    exact ⟨trivial, fun m₅ h₅ => ⟨trivial, rfl, fun m₆ h₆ m₇ h₇ =>
      ((hm₄.rely h₅).rely h₆).rely h₇⟩⟩
  · rw [if_neg hfirst]
    exact fun m₅ h₅ => ⟨trivial, rfl, fun m₆ h₆ m₇ h₇ => ((hm₂.rely h₅).rely h₆).rely h₇⟩

theorem silenceCells_silent {α : Type} [Pcm α] {dst count : Nat} {x : Nat × α}
    (hx : x ∈ silenceCells dst count) : x.2 = Pcm.silence := by
  obtain ⟨j, -, rfl⟩ := List.mem_map.mp hx
  rfl

/-- The copy of a window whose frames below the write head are tagged. -/
theorem safe_copyFrames_loaded {ch : UInt32} {w rf : UInt64} {rem i : Nat}
    (hm : Loaded ch w.toNat m) :
    Safe strideTerms (fun _ => True)
      (fun _ ws _ => ∀ x ∈ ws, x.2 = Tag.silence ∨ x.2 = .sample ch.toNat (x.1 % ch.toNat)) h
      (copyFrames ch.toNat w rf rem i) m := by
  have hcell (k : Nat) (_ : k < i + rem) (hbelow : rf + UInt64.ofNat k < w) (m : World Tag)
      (c : Nat) (hm : Loaded ch w.toNat m) (hc : c < ch.toNat) :
      m.shm.ring (((rf + UInt64.ofNat k) &&& ringMask).toNat * ch.toNat + c) =
        .sample ch.toNat c := by
    have htag := hm.tagged _ (UInt64.lt_iff_toNat_lt.mp hbelow) c hc
    unfold Tagged at htag
    rw [cell_mod hc] at htag
    rw [and_mask ringMask_toNat]
    exact htag
  refine (safe_copyFrames (fun _ => trivial) (fun _ _ hr hm => hm.rely hr) hcell rfl hm).mono ?_
  rintro h' ws m' ⟨-, -, rfl⟩ x hx
  obtain ⟨k, -, hx⟩ := List.mem_flatMap.mp hx
  rcases mem_copiedFrame hx with hsilent | ⟨c, hc, rfl⟩
  · exact .inl hsilent
  · refine .inr ?_
    show Tag.sample ch.toNat c = .sample _ ((k * ch.toNat + c) % ch.toNat)
    rw [Nat.mul_add_mod_of_lt hc]

theorem safe_fromLoad_loaded (n : UInt32) (cycle : UInt64) {ch : UInt32} {w : UInt64}
    (hm : Loaded ch w.toNat m) :
    Safe strideTerms (fun _ => True) (fun _ r _ => r.Intact) h
      (do
        let (rf, first) ← cursorSection n cycle w
        let writes ← copyFrames ch.toNat w rf n.toNat 0
        return IOResult.read ch w rf first writes) m := by
  refine Safe.bind ((safe_cursorSection_loaded n cycle w hm).mono ?_)
  rintro h' ⟨rf, first⟩ m₁ hm₁
  refine Safe.bind ((safe_copyFrames_loaded hm₁).mono ?_)
  exact fun _ ws _ hws _ _ => hws

/-- **A call delivers intact samples**, if the ring is coherent when it starts and nothing changes
the channel count under it. -/
theorem safe_doIOOperation (readInput outNull : Bool) (n : UInt32) (cycle : UInt64)
    (hm : Coherent m) :
    Safe strideTerms (fun _ => True) (fun _ r _ => r.Intact) h
      (doIOOperation readInput outNull n cycle) m := by
  unfold doIOOperation
  cases readInput with
  | false => exact fun m' h' => nofun
  | true =>
    cases outNull with
    | true => exact fun m' h' => nofun
    | false =>
      refine Safe.bind ((safe_devChannels_coherent hm).mono ?_)
      rintro h' ch m₁ ⟨rfl, hm₁, hch⟩ m₂ h₂
      refine ⟨trivial, ?_⟩
      show Safe _ _ _ h' (if (!m₂.plug.gShm) = true then _ else _) m₂
      cases hg : m₂.plug.gShm with
      | false => exact fun m₃ h₃ x hx => Or.inl (silenceCells_silent hx)
      | true =>
        intro m₃ h₃
        have hg₃ : m₃.plug.gShm = true := h₃.2.1 hg
        have hcount : m₃.devChannels = ch := (h₃.1.trans h₂.1).trans hch
        have hload : Loaded ch m₃.shm.writeFrames.toNat m₃ := by
          refine ⟨hg₃, hcount, ?_⟩
          rw [← hcount, devChannels_attached hg₃]
          exact h₃.2.2.1 (h₂.2.2.1 hm₁)
        exact ⟨trivial, safe_fromLoad_loaded n cycle hload⟩

/-! ## The daemon -/

/-- What a daemon knows of the header: the count of its device is there. -/
def Local.Matches (T : Table) (m : World Tag) : Local Tag → Prop
  | .connected d => d ∈ T.rows ∧ m.shm.channels = d.captureChannels.toUInt32
  | _ => True

theorem headerChannels_eq {T : Table} {d : Device} (hd : d ∈ T.rows)
    (hm : m.shm.channels = d.captureChannels.toUInt32) :
    m.headerChannels = d.captureChannels.toNat := by
  have hnat : d.captureChannels.toUInt32.toNat = d.captureChannels.toNat := by simp
  unfold World.headerChannels
  rw [hm, clampChannels_eq, hnat]
  · rw [hnat]
    exact T.channels_pos d hd
  · rw [hnat]
    exact T.channels_le d hd

/-- The daemon inside `create`: it leaves the ring alone, and the write head but for the reset. -/
def swapTerms : Terms (World Tag) where
  strict := False
  rely _ m m' := m'.shm = m.shm
  guar _ m m' := m'.shm.ring = m.shm.ring ∧
    (m'.shm.writeFrames = m.shm.writeFrames ∨ m'.shm.writeFrames = 0)
  refl _ _ := rfl
  trans h₁ h₂ := h₂.trans h₁

theorem swapTerms_refl (h : Bool) (m : World Tag) : swapTerms.guar h m m := ⟨rfl, Or.inl rfl⟩

/-- Where the daemon can be, and what it leaves then. `hot`: inside a `create` that changed the
channel count. -/
inductive Swapping (T : Table) (hot : Prop) (p : System Tag) : Prop
  | idle {b : Local Tag} (hthread : p.thread .daemon = .ret b) (hb : b.Matches T p.shared)
      (hcoh : Coherent p.shared)
  | creating {d : Device} {latency : UInt32} {sys : Sys}
      (hentry : p.entry .daemon = some (.create d latency sys))
      (hnot : ∀ b, p.thread .daemon ≠ .ret b) (hcoh : ¬ hot → Coherent p.shared)
      (hsafe : Safe swapTerms (fun _ => True)
        (fun _ b m => b.Matches T m ∧ Coherent m) (p.holds .daemon) (p.thread .daemon) p.shared)
  | loading {d : Device} {s24 : List UInt8}
      (hthread : p.thread .daemon = pushCells d.captureChannels.toNat
        (wholeFrames d.captureChannels.toNat s24) (frameOf d.captureChannels.toNat s24) >>=
          fun _ => ret (.connected d))
      (hb : (Local.connected d).Matches T p.shared) (hcoh : Coherent p.shared)
  | storing {d : Device} {s24 : List UInt8} {j rem : Nat}
      (hrem : j + rem =
        wholeFrames d.captureChannels.toNat s24 * d.captureChannels.toNat)
      (hthread : p.thread .daemon = storeAll (batchCell 65536 d.captureChannels.toNat
        p.shared.shm.writeFrames.toNat (frameOf d.captureChannels.toNat s24)) rem j >>=
          fun _ => publish d
            (p.shared.shm.writeFrames.toNat + wholeFrames d.captureChannels.toNat s24))
      (hb : (Local.connected d).Matches T p.shared) (hcoh : Coherent p.shared)
      (hstored : ∀ i < j, Tagged d.captureChannels.toNat (batchCell 65536
        d.captureChannels.toNat p.shared.shm.writeFrames.toNat
          (frameOf (α := Tag) d.captureChannels.toNat s24) i).1 p.shared)

/-- Whether, after a step, the daemon is inside a `create` that changed the channel count. -/
def swapping (hot : Prop) (p : System Tag) (_ : Act Tid Entry) (q : System Tag) : Prop :=
  Creating q ∧ (hot ∨ q.shared.headerChannels ≠ p.shared.headerChannels)

variable {T : Table} {hot : Prop} {p q : System Tag} {a : Act Tid Entry}

theorem Swapping.coherent (h : Swapping T hot p) (hot' : ¬ hot) : Coherent p.shared := by
  cases h with
  | idle _ _ hcoh => exact hcoh
  | creating _ _ hcoh _ => exact hcoh hot'
  | loading _ _ hcoh => exact hcoh
  | storing _ _ _ hcoh _ => exact hcoh

/-- `create` at its end: the count of the device in the header and an empty ring, or, if the
segment could not be mapped, everything as before. -/
theorem safe_create_swap {d : Device} (hd : d ∈ T.rows) (hcoh : Coherent m) (latency : UInt32)
    (sys : Sys) {b : Local Tag} {x : Prog (World Tag) (Local Tag)}
    (hx : startDaemon (.create d latency sys) b = some x) :
    Safe swapTerms (fun _ => True) (fun _ b m => b.Matches T m ∧ Coherent m) h x m := by
  have hkeep (m' : World Tag) (h : m'.shm = m.shm) : Coherent m' := by
    unfold Coherent TaggedBelow Tagged World.headerChannels at hcoh ⊢
    rw [h]
    exact hcoh
  obtain ⟨openOk, mmapOk, errno⟩ := sys
  cases hx
  cases openOk with
  | false => exact fun m' h => ⟨trivial, hkeep m' h⟩
  | true =>
    cases mmapOk with
    | false => exact fun m₁ h₁ => ⟨⟨rfl, Or.inl rfl⟩, fun m₂ h₂ => ⟨trivial, hkeep m₂ (h₂.trans h₁)⟩⟩
    | true =>
      iterate 4 refine fun _ _ => ⟨⟨rfl, Or.inl rfl⟩, ?_⟩
      intro m₅ h₅
      refine ⟨⟨rfl, Or.inl rfl⟩, fun m₆ h₆ => ⟨⟨rfl, Or.inl rfl⟩, fun m₇ h₇ =>
        ⟨⟨rfl, Or.inl rfl⟩, fun m₈ h₈ => ⟨⟨rfl, Or.inl rfl⟩, fun m₉ h₉ =>
        ⟨⟨rfl, Or.inl rfl⟩, fun m₁₀ h₁₀ => ⟨⟨rfl, Or.inr rfl⟩, fun m' h => ?_⟩⟩⟩⟩⟩⟩
      have hchan : m'.shm.channels = d.captureChannels.toUInt32 := by
        simp only [swapTerms] at h h₁₀ h₉ h₈ h₇ h₆
        simp only [h, h₁₀, h₉, h₈, h₇, h₆]
      have hw : m'.shm.writeFrames = 0 := by rw [h]
      exact ⟨⟨hd, hchan⟩, coherent_empty hw⟩

/-- The steps of the other threads: they leave the segment alone. -/
theorem Swapping.other (h : Swapping T hot p) (hstep : Step start p a q) (ha : a.by ≠ .daemon)
    (hshm : q.shared.shm = p.shared.shm) : Swapping T (swapping hot p a q) q := by
  obtain ⟨h1, h2, -, h4⟩ := hstep.other ha
  have hcoh' (hc : Coherent p.shared) : Coherent q.shared := by
    unfold Coherent TaggedBelow Tagged World.headerChannels at hc ⊢
    rw [hshm]
    exact hc
  have hmatch {b : Local Tag} (hb : b.Matches T p.shared) : b.Matches T q.shared := by
    cases b with
    | connected d => exact ⟨hb.1, hshm ▸ hb.2⟩
    | _ => trivial
  cases h with
  | idle hthread hb hcoh => exact .idle (h1.trans hthread) (hmatch hb) (hcoh' hcoh)
  | creating hentry hnot hcoh hsafe =>
    refine .creating (h2 ▸ hentry) (h1 ▸ hnot) (fun hq => hcoh' (hcoh fun hhot => hq ?_))
      (h1 ▸ h4 ▸ hsafe.rely hshm)
    exact ⟨⟨⟨_, _, _, h2 ▸ hentry⟩, h1 ▸ hnot⟩, Or.inl hhot⟩
  | loading hthread hb hcoh => exact .loading (h1.trans hthread) (hmatch hb) (hcoh' hcoh)
  | storing hrem hthread hb hcoh hstored =>
    rw [← hshm] at hthread
    refine .storing hrem (h1.trans hthread) (hmatch hb) (hcoh' hcoh) fun i hi => ?_
    unfold Tagged at hstored ⊢
    rw [hshm]
    exact hstored i hi

/-- A daemon inside `create`, or just out of it. -/
theorem swapping_of_safe {hot : Prop} {d : Device} {latency : UInt32} {sys : Sys}
    (hentry : p.entry .daemon = some (.create d latency sys))
    (hcoh : (∀ b, p.thread .daemon ≠ .ret b) → ¬ hot → Coherent p.shared)
    (hsafe : Safe swapTerms (fun _ => True)
      (fun _ b m => b.Matches T m ∧ Coherent m) (p.holds .daemon) (p.thread .daemon) p.shared) :
    Swapping T hot p := by
  by_cases hret : ∃ b, p.thread .daemon = .ret b
  · obtain ⟨b, hb⟩ := hret
    rw [hb] at hsafe
    obtain ⟨hmatch, hcoh'⟩ := hsafe _ rfl
    exact .idle hb hmatch hcoh'
  · exact .creating hentry (not_exists.mp hret) (hcoh (not_exists.mp hret)) hsafe

/-- The daemon is called: it is idle, and begins a `create` or a batch. -/
theorem Swapping.called {e : Entry} (h : Swapping T hot p)
    (hstep : Step start p (.call .daemon e) q)
    (hrow : ∀ d latency sys, e = .create d latency sys → d ∈ T.rows) (hot' : Prop) :
    Swapping T hot' q := by
  cases hstep with
  | @call _ _ b x hret hx =>
    obtain ⟨hb, hcoh⟩ : b.Matches T p.shared ∧ Coherent p.shared := by
      cases h with
      | idle hthread hb hcoh =>
        rw [hret] at hthread
        cases hthread
        exact ⟨hb, hcoh⟩
      | creating _ hnot _ _ => exact absurd hret (hnot b)
      | loading hthread _ _ =>
        rw [hret] at hthread
        cases hthread
      | @storing _ _ _ rem _ hthread _ _ _ =>
        rw [hret] at hthread
        cases rem <;> cases hthread
    change startDaemon e b = some x at hx
    cases e with
    | create d latency sys =>
      refine swapping_of_safe (begin_entry ..) (fun _ _ => hcoh) ?_
      rw [begin_thread]
      exact safe_create_swap (hrow d latency sys rfl) hcoh latency sys hx
    | push s24 =>
      cases b with
      | connected d =>
        have hprog : x = pushFrames d.captureChannels.toNat s24 >>= fun _ => ret (.connected d) :=
          (Option.some.inj hx).symm
        rw [pushFrames_eq (T.channels_pos d hb.1) (T.channels_le d hb.1)] at hprog
        split_ifs at hprog with hzero
        · exact .idle ((begin_thread ..).trans hprog) hb hcoh
        · exact .loading ((begin_thread ..).trans hprog) hb hcoh
      | _ => cases hx
    | _ => cases b <;> cases hx

/-- The value a batch stores is tagged for its cell. -/
theorem batchCell_tag {ch : Nat} (hpos : 0 < ch) (base j : Nat) (s24 : List UInt8) :
    (batchCell 65536 ch base (frameOf ch s24) j).2 =
      Tag.sample ch ((batchCell 65536 ch base (frameOf (α := Tag) ch s24) j).1 % ch) := by
  show Tag.sample ch (j % ch) = .sample ch (cell 65536 ch (base + j / ch) (j % ch) % ch)
  rw [cell_mod (Nat.mod_lt j hpos)]

/-- **What a daemon's action does to the ring**: nothing, or a store of a sample tagged for the
header's channel count. -/
theorem Swapping.ring (h : Swapping T hot p) (hstep : Step start p (.tick .daemon) q) :
    q.shared.shm.ring = p.shared.shm.ring ∨ ∃ j, q.shared.shm.ring =
      Function.update p.shared.shm.ring j
        (.sample p.shared.headerChannels (j % p.shared.headerChannels)) := by
  cases h with
  | idle hthread _ _ => exact absurd hthread hstep.not_tick
  | creating _ _ _ hsafe =>
    exact Or.inl (safe_guar swapTerms_refl hstep hsafe).1
  | loading hthread _ _ =>
    obtain ⟨-, -, -, hshared⟩ := hstep.of_access hthread
    exact Or.inl (by rw [hshared]; rfl)
  | @storing d s24 j rem _ hthread hb _ _ =>
    cases rem with
    | zero =>
      obtain ⟨-, -, -, hshared⟩ := hstep.of_access hthread
      exact Or.inl (by rw [hshared])
    | succ rem =>
      obtain ⟨-, -, -, hshared⟩ := hstep.of_access hthread
      refine Or.inr ⟨(batchCell 65536 d.captureChannels.toNat p.shared.shm.writeFrames.toNat
        (frameOf (α := Tag) d.captureChannels.toNat s24) j).1, ?_⟩
      rw [hshared, headerChannels_eq hb.1 hb.2, ← batchCell_tag (T.channels_pos d hb.1)]

/-- A batch joins the frames below the write head, also when the counter wraps. -/
theorem TaggedBelow.publish {ch w n : Nat} {f : Nat → Nat → Tag}
    (hbelow : TaggedBelow ch w m) (hpos : 0 < ch)
    (hstored : ∀ i < n * ch, Tagged ch (batchCell 65536 ch w f i).1 m) :
    TaggedBelow ch (UInt64.ofNat (w + n)).toNat m := by
  intro k hk c hc
  have hle : (UInt64.ofNat (w + n)).toNat ≤ w + n := by
    rw [UInt64.toNat_ofNat']
    exact Nat.mod_le _ _
  rcases Nat.lt_or_ge k w with hlt | hge
  · exact hbelow k hlt c hc
  · have hi : (k - w) * ch + c < n * ch := by
      calc (k - w) * ch + c < (k - w) * ch + ch := Nat.add_lt_add_left hc _
        _ = (k - w + 1) * ch := (Nat.succ_mul ..).symm
        _ ≤ n * ch := Nat.mul_le_mul_right _ (by omega)
    have hdiv : ((k - w) * ch + c) / ch = k - w ∧ ((k - w) * ch + c) % ch = c :=
      (Nat.div_mod_unique hpos).mpr ⟨by rw [Nat.mul_comm, Nat.add_comm], hc⟩
    have := hstored _ hi
    unfold batchCell at this
    rwa [hdiv.1, hdiv.2, Nat.add_sub_cancel' hge] at this

/-- The daemon takes its next action. -/
theorem Swapping.ticked (h : Swapping T hot p) (hstep : Step start p (.tick .daemon) q) :
    Swapping T (swapping hot p (.tick .daemon) q) q := by
  have hring := h.ring hstep
  cases h with
  | idle hthread _ _ => exact absurd hthread hstep.not_tick
  | @creating d latency sys hentry hnot hcoh hsafe =>
    have hent : q.entry .daemon = p.entry .daemon := by cases hstep <;> rfl
    obtain ⟨hsame, hw⟩ := safe_guar swapTerms_refl hstep hsafe
    refine swapping_of_safe (hent.trans hentry) (fun hnot' hq => ?_)
      (safe_tick hstep (fun _ _ => trivial) hsafe)
    -- still inside, and the channel count was never changed
    have hcold : ¬ (hot ∨ q.shared.headerChannels ≠ p.shared.headerChannels) := fun hor =>
      hq ⟨⟨⟨d, latency, sys, hent.trans hentry⟩, hnot'⟩, hor⟩
    rw [not_or, not_not] at hcold
    rcases hw with hw | hw
    · have := hcoh hcold.1
      unfold Coherent TaggedBelow Tagged at this ⊢
      rwa [hw, hcold.2, hsame]
    · exact coherent_empty hw
  | @loading d s24 hthread hb hcoh =>
    obtain ⟨hthread', -, -, hshared⟩ := hstep.of_access hthread
    have hs : q.shared = p.shared := hshared
    refine .storing (d := d) (Nat.zero_add (wholeFrames _ s24 * _)) ?_ (hs ▸ hb) (hs ▸ hcoh)
      (fun i hi => absurd hi (Nat.not_lt_zero i))
    rw [hthread', hs]
    show (storeAll _ _ 0 >>= fun _ => wrShm _) >>= (fun _ => ret _) = _
    rw [Prog.bind_assoc]
    rfl
  | @storing d s24 j rem hrem hthread hb hcoh hstored =>
    have hpos := T.channels_pos d hb.1
    have hcount := headerChannels_eq hb.1 hb.2
    cases rem with
    | succ rem =>
      obtain ⟨hthread', -, -, hshared⟩ := hstep.of_access hthread
      have hupd : q.shared.shm.ring = Function.update p.shared.shm.ring
          (batchCell 65536 d.captureChannels.toNat p.shared.shm.writeFrames.toNat
            (frameOf (α := Tag) d.captureChannels.toNat s24) j).1
          (.sample d.captureChannels.toNat ((batchCell 65536 d.captureChannels.toNat
            p.shared.shm.writeFrames.toNat
            (frameOf (α := Tag) d.captureChannels.toNat s24) j).1 % d.captureChannels.toNat)) := by
        rw [hshared, ← batchCell_tag hpos]
      have hw : q.shared.shm.writeFrames = p.shared.shm.writeFrames := by rw [hshared]
      have hchan : q.shared.shm.channels = p.shared.shm.channels := by rw [hshared]
      have hcount' : q.shared.headerChannels = d.captureChannels.toNat :=
        headerChannels_eq hb.1 (hchan.trans hb.2)
      have hrem' : j + 1 + rem = _ := (Nat.add_right_comm ..).trans hrem
      refine .storing (d := d) hrem' (by rw [hw]; exact hthread') ⟨hb.1, hchan.trans hb.2⟩ ?_ ?_
      · unfold Coherent at hcoh ⊢
        rw [hw, hcount']
        rw [hcount] at hcoh
        exact fun k hk c hc => (hcoh k hk c hc).store hupd
      · intro i hi
        rw [hw]
        rcases Nat.lt_succ_iff_lt_or_eq.mp hi with hlt | rfl
        · exact (hstored i hlt).store hupd
        · unfold Tagged
          rw [hupd, Function.update_self]
    | zero =>
      obtain ⟨hthread', -, -, hshared⟩ := hstep.of_access hthread
      obtain rfl : j = wholeFrames d.captureChannels.toNat s24 * d.captureChannels.toNat := hrem
      have hchan : q.shared.shm.channels = p.shared.shm.channels := by rw [hshared]
      have hw : q.shared.shm.writeFrames = UInt64.ofNat (p.shared.shm.writeFrames.toNat +
          wholeFrames d.captureChannels.toNat s24) := by rw [hshared]
      have hsame : q.shared.shm.ring = p.shared.shm.ring := by rw [hshared]
      refine .idle hthread' ⟨hb.1, hchan.trans hb.2⟩ ?_
      unfold Coherent at hcoh ⊢
      rw [hcount] at hcoh
      have := hcoh.publish hpos hstored
      unfold TaggedBelow Tagged at this ⊢
      rwa [hw, headerChannels_eq hb.1 (hchan.trans hb.2), hsame]

/-! ## Runs -/

/-- Host thread `i` is inside a `DoIOOperation` call. -/
def InDoIo (p : System Tag) (i : Nat) : Prop :=
  (∃ r o n c, p.entry (.host i) = some (.doIo r o n c)) ∧ ∀ b, p.thread (.host i) ≠ .ret b

/-- The steps allowed: the daemon creates the segment for rows of the table, and nobody is inside
a `DoIOOperation` call while the channel count changes: when what `DevChannels` returns changes,
and from a `create`'s store of another count to its end. -/
def Unlapped (T : Table) (hot : Prop) (p : System Tag) (a : Act Tid Entry) (q : System Tag) :
    Prop :=
  FromTable T p a ∧
    (swapping hot p a q ∨ q.shared.devChannels ≠ p.shared.devChannels → ∀ i, ¬ InDoIo q i)

/-- A host thread inside a call is on the way to intact samples, or has returned them. -/
inductive Delivering (p : System Tag) (i : Nat) : Prop
  | other (h : ∀ r o n c, p.entry (.host i) ≠ some (.doIo r o n c))
  | inside (h : InDoIo p i)
      (hsafe : Safe strideTerms (fun _ => True)
        (fun _ b _ => ∀ r, b = Local.io r → r.Intact) (p.holds (.host i)) (p.thread (.host i))
        p.shared)
  | returned {b : Local Tag} (h : p.thread (.host i) = .ret b)
      (hr : ∀ r, b = Local.io r → r.Intact)

/-- A host thread inside a call, or just out of it. -/
theorem delivering_of_safe {i : Nat} {r o : Bool} {n : UInt32} {c : UInt64}
    (hentry : p.entry (.host i) = some (.doIo r o n c))
    (hsafe : Safe strideTerms (fun _ => True)
      (fun _ b _ => ∀ r, b = Local.io r → r.Intact) (p.holds (.host i)) (p.thread (.host i))
      p.shared) : Delivering p i := by
  by_cases hret : ∃ b, p.thread (.host i) = .ret b
  · obtain ⟨b, hb⟩ := hret
    rw [hb] at hsafe
    exact .returned hb (hsafe _ (strideTerms.refl _ _))
  · exact .inside ⟨⟨r, o, n, c, hentry⟩, not_exists.mp hret⟩ hsafe

/-- A host thread is called. -/
theorem delivering_called {i : Nat} {e : Entry} (hstep : Step start p (.call (.host i) e) q)
    (hcoh : InDoIo q i → Coherent q.shared) : Delivering q i := by
  cases hstep with
  | @call _ _ b x hret hx =>
    by_cases hdo : ∃ r o n c, e = .doIo r o n c
    · obtain ⟨r, o, n, c, rfl⟩ := hdo
      have hx' : doIOOperation r o n c >>= (fun res => ret (.io res)) = x := Option.some.inj hx
      subst hx'
      have hskip (hr : doIOOperation r o n c = ret (IOResult.skipped : IOResult Tag)) :
          Delivering (p.begin (.host i) (.doIo r o n c)
            (doIOOperation r o n c >>= fun res => ret (.io res))) i := by
        refine .returned (b := .io .skipped) ((begin_thread ..).trans (by rw [hr]; rfl)) ?_
        rintro res ⟨⟩
        nofun
      cases r with
      | false => exact hskip rfl
      | true =>
        cases o with
        | true => exact hskip rfl
        | false =>
          refine delivering_of_safe (begin_entry ..) ?_
          rw [begin_thread]
          refine Safe.bind ((safe_doIOOperation true false n c (hcoh ?_)).mono ?_)
          · refine ⟨⟨_, _, _, _, begin_entry ..⟩, fun b' => ?_⟩
            rw [begin_thread]
            nofun
          · rintro h' res m' hres m'' - r ⟨⟩
            exact hres
    · refine .other fun r o n c he => hdo ⟨r, o, n, c, ?_⟩
      rw [begin_entry] at he
      exact Option.some.inj he

/-- **The invariant**: the daemon is in a phase, every call delivers. -/
structure SwapInv (T : Table) (hot : Prop) (p : System Tag) : Prop where
  safe : p.Safe
  daemon : Swapping T hot p
  calls : ∀ i, Delivering p i

/-- The daemon's phase after any step. -/
theorem SwapInv.daemon_step (h : SwapInv T hot p) (hok : Unlapped T hot p a q)
    (hnext : p.next start a = some q) : Swapping T (swapping hot p a q) q := by
  have hstep := step_of_next hnext
  by_cases ha : a.by = .daemon
  · cases a with
    | call t e =>
      obtain rfl : t = .daemon := ha
      exact h.daemon.called hstep (fun d latency sys he => hok.1 _ d latency sys (by rw [he])) _
    | tick t =>
      obtain rfl : t = .daemon := ha
      exact h.daemon.ticked hstep
  · exact h.daemon.other hstep ha (same_segment h.safe hnext ha).1

/-- What a step of another thread does to a call it is allowed to overlap. -/
theorem SwapInv.rely (h : SwapInv T hot p) (hok : Unlapped T hot p a q)
    (hnext : p.next start a = some q) {i : Nat} (hi : InDoIo q i) (ha : a.by ≠ .host i) :
    strideTerms.rely (p.holds (.host i)) p.shared q.shared := by
  have hcold := fun hor => hok.2 hor i hi
  rw [imp_false, not_or, not_not] at hcold
  refine ⟨hcold.2, (system_rely h.safe hnext ha).1,
    fun _ => (h.daemon_step hok hnext).coherent hcold.1, fun hg j hj => ?_⟩
  by_cases hd : a.by = .daemon
  · cases a with
    | call t e =>
      cases step_of_next hnext
      exact hj
    | tick t =>
      obtain rfl : t = .daemon := hd
      rw [devChannels_attached hg] at hj ⊢
      rcases h.daemon.ring (step_of_next hnext) with hring | ⟨k, hring⟩
      · unfold Tagged
        rw [hring]
        exact hj
      · exact hj.store hring
  · unfold Tagged
    rw [(same_segment h.safe hnext hd).1]
    exact hj

theorem SwapInv.step (h : SwapInv T hot p) (hok : Unlapped T hot p a q)
    (hnext : p.next start a = some q) : SwapInv T (swapping hot p a q) q := by
  have hstep := step_of_next hnext
  refine ⟨system_safe_step h.safe hnext, h.daemon_step hok hnext, fun i => ?_⟩
  by_cases ha : a.by = .host i
  · cases a with
    | call t e =>
      obtain rfl : t = .host i := ha
      exact delivering_called hstep fun hi => (h.daemon_step hok hnext).coherent fun hor =>
        hok.2 (Or.inl hor) i hi
    | tick t =>
      obtain rfl : t = .host i := ha
      have hent : q.entry (.host i) = p.entry (.host i) := by cases hstep <;> rfl
      cases h.calls i with
      | other hother => exact .other (hent ▸ hother)
      | returned hret _ => exact absurd hret hstep.not_tick
      | inside hin hsafe =>
        obtain ⟨r, o, n, c, he⟩ := hin.1
        exact delivering_of_safe (hent.trans he) (safe_tick hstep (fun _ _ => trivial) hsafe)
  · obtain ⟨h1, h2, -, h4⟩ := hstep.other ha
    cases h.calls i with
    | other hother => exact .other (h2 ▸ hother)
    | returned hret hr => exact .returned (h1.trans hret) hr
    | inside hin hsafe =>
      have hin' : InDoIo q i := ⟨h2 ▸ hin.1, h1 ▸ hin.2⟩
      exact .inside hin' (h1 ▸ h4 ▸ hsafe.rely (h.rely hok hnext hin' ha))

theorem swapInv_run {m₀ : World Tag} (hm₀ : Coherent m₀) {as : List (Act Tid Entry)}
    (hrun : GhostRun start swapping (Unlapped T) (System.init m₀) False as p hot) :
    SwapInv T hot p := by
  induction hrun with
  | refl =>
    exact ⟨init_safe m₀, .idle (b := .fresh) rfl trivial hm₀, fun i => .other fun _ _ _ _ => nofun⟩
  | tail _ hok hnext ih => exact ih.step hok hnext

/-- **Channel integrity**, for every table and every interleaving in which no `DoIOOperation` call
overlaps a change of the channel count: whatever a call delivers is silence, or was stored for the
channel it is delivered at, for a device of the channel count the call used as stride. -/
theorem channel_integrity (T : Table) {m₀ : World Tag} (hm₀ : Coherent m₀)
    {as : List (Act Tid Entry)} {hot : Prop} {p : System Tag}
    (hrun : GhostRun start swapping (Unlapped T) (System.init m₀) False as p hot) {i : Nat}
    {readInput outNull : Bool} {n : UInt32} {cycle : UInt64}
    (hentry : p.entry (.host i) = some (.doIo readInput outNull n cycle)) {r : IOResult Tag}
    (hend : p.thread (.host i) = .ret (.io r)) : r.Intact := by
  cases (swapInv_run hm₀ hrun).calls i with
  | other h => exact absurd hentry (h _ _ _ _)
  | inside h _ => exact absurd hend (h.2 _)
  | returned h hr =>
    rw [hend] at h
    cases h
    exact hr r rfl

/-- While the daemon rests, every step is allowed. -/
theorem Resting.unlapped (h : Resting p) (ha : a.by ≠ .daemon)
    (hnext : p.next start a = some q) : Unlapped T hot p a q := by
  obtain ⟨⟨-, -, b, hb⟩, -, hcount⟩ := h.step ha hnext
  constructor
  · rintro t d latency sys rfl
    exact absurd (create_by_daemon hnext) ha
  · rintro (⟨hcreating, -⟩ | hdev)
    · exact absurd hb (hcreating.2 b)
    · exact absurd hcount hdev

/-- An attached plugin, and a segment with one frame of a device of one channel. -/
def monoFrame : World Tag where
  linked := true
  shm := { (Shm.zero : Shm Tag) with
    channels := 1, writeFrames := 1, ring := fun _ => .sample 1 0 }
  plug := { gShm := true }

theorem channel_integrity_mono : ∃ (p : System Tag) (r : IOResult Tag),
    p.thread (.host 0) = .ret (.io r) ∧ r.writes = [(0, .sample 1 0)] ∧ r.Intact := by
  obtain ⟨p, hp, r, hend, hentry, hws⟩ : ∃ p : System Tag,
      runActs start (.call (.host 0) (.doIo true false 1 7) ::
        List.replicate 11 (.tick (.host 0))) (System.init monoFrame) = some p ∧
      ∃ r, p.thread (.host 0) = .ret (.io r) ∧
        p.entry (.host 0) = some (.doIo true false 1 7) ∧ r.writes = [(0, .sample 1 0)] :=
    ⟨_, rfl, .read 1 1 0 true [(0, .sample 1 0)], rfl, rfl, rfl⟩
  have hrest : Resting (System.init monoFrame) := ⟨init_safe _, rfl, _, rfl⟩
  obtain ⟨hot, hrun, -⟩ := GhostRun.of_run (P := fun _ p => Resting p)
    (L := fun a => a.by ≠ .daemon) (run_of_runActs hp) hrest (by decide)
    fun _ _ _ _ hp ha hnext => ⟨hp.unlapped ha hnext, (hp.step ha hnext).1⟩
  refine ⟨p, r, hend, hws, channel_integrity ⟨[], nofun, nofun, nofun⟩ (fun k hk c hc => ?_)
    hrun hentry hend⟩
  obtain rfl : k = 0 := Nat.lt_one_iff.mp hk
  obtain rfl : c = 0 := Nat.lt_one_iff.mp hc
  rfl

/-- A plugin that has attached to an empty segment. -/
def emptySegment : World Tag where
  linked := true
  shm := Shm.zero
  plug := { gShm := true }

/-- A frame of the device of one channel, then the `create` for the other up to its store of the
channel count, then a call. -/
def hotSwap : List (Act Tid Entry) :=
  .call .daemon (.create monoDevice 258 .fine) ::
      List.replicate 10 (.tick .daemon) ++
    .call .daemon (.push [0, 0, 64]) :: List.replicate 3 (.tick .daemon) ++
    .call .daemon (.create dualDevice 258 .fine) ::
      List.replicate 5 (.tick .daemon) ++
    .call (.host 0) (.doIo true false 1 7) :: List.replicate 13 (.tick (.host 0))

/-- A call between the store of the new channel count and the reset of the write head: it reads
the frame of the device of one channel as one of two channels. -/
theorem stereo_call_reads_mono_frame : ¬ ∀ (T : Table) (m₀ : World Tag)
    (as : List (Act Tid Entry)) (p : System Tag) (i : Nat) (r : IOResult Tag),
    m₀.shm.writeFrames = 0 → Run start (FromTable T) (System.init m₀) as p →
      p.thread (.host i) = .ret (.io r) → r.Intact := by
  intro h
  obtain ⟨p, hp, hend⟩ : ∃ p : System Tag,
      runActs start hotSwap (System.init emptySegment) = some p ∧
      p.thread (.host 0) = .ret (.io (.read 2 1 0 true [(0, .sample 1 0), (1, .silence)])) :=
    ⟨_, rfl, rfl⟩
  have hrows : ∀ a ∈ hotSwap, FromTable monoDual p a := by
    intro a ha
    simp only [hotSwap, List.cons_append, List.mem_cons, List.mem_append, List.mem_replicate,
      or_assoc] at ha
    rcases ha with rfl | ⟨-, rfl⟩ | rfl | ⟨-, rfl⟩ | rfl | ⟨-, rfl⟩ | rfl | ⟨-, rfl⟩
    · rintro t d latency sys ⟨⟩
      exact .head _
    · nofun
    · nofun
    · nofun
    · rintro t d latency sys ⟨⟩
      exact .tail _ (.head _)
    all_goals nofun
  have hrun : Run start (FromTable monoDual) (System.init emptySegment) hotSwap p :=
    (run_of_runActs hp).restrict (P := fun _ => True) (L := FromTable monoDual p) trivial hrows
      (fun _ _ _ => id) (fun _ _ _ _ _ _ => trivial)
  rcases h monoDual _ _ p 0 _ rfl hrun hend (0, .sample 1 0) (.head _) with hs | hs <;> cases hs

end Line6
