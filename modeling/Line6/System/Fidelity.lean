import Mathlib.Data.List.GetD
import Line6.Plugin.Call
import Line6.System.Producer

/-!
# What a reader hears

The plugin copies frames from the ring while the daemon goes on storing into it, and nothing but
the distance it keeps protects it. `ring_fidelity`: the first `DoIOOperation` call of a cycle
delivers the captured frames of its window, and silence above the write head, under every
interleaving, provided the daemon has not begun more than `min n (65536 - lat)` frames past the
write head the call loaded and the segment was not created anew meanwhile.
-/

namespace Line6

open Conc Conc.Prog Conc.Pool RingLog

variable {α : Type}

/-! ## The reader's terms -/

/-- What the other threads do to a reader: the frames `log` that a writer who has begun `bound`
frames leaves stay in the ring, the latency word stays, and the cursor stays while the reader
holds the mutex. -/
def readerTerms (ch : Nat) (log : List (Nat → α)) (bound : Nat) : Terms (World α) where
  strict := False
  rely h m m' := (Resident 65536 ch 0 log bound m.shm.ring →
      Resident 65536 ch 0 log bound m'.shm.ring) ∧
    m'.shm.latencyFrames = m.shm.latencyFrames ∧ (h = true → m'.plug.cursor = m.plug.cursor)
  guar _ _ _ := True
  refl _ _ := ⟨id, rfl, fun _ => rfl⟩
  trans h₁ h₂ := ⟨h₂.1 ∘ h₁.1, h₂.2.1.trans h₁.2.1, fun h => (h₂.2.2 h).trans (h₁.2.2 h)⟩

/-- What output frame `i` of a window from `rf` should hold: the captured frame below the write
head, silence above. -/
def heard [Pcm α] (ch : Nat) (log : List (Nat → α)) (w rf i : Nat) : List (Nat × α) :=
  if rf + i < w then
    (List.range ch).map fun c => (i * ch + c, log.getD (rf + i) (fun _ => Pcm.silence) c)
  else silenceCells (i * ch) ch

variable {ch : Nat} {log : List (Nat → α)} {bound : Nat} {h : Bool} {m : World α}

/-- A frame copied from the log is what should be heard. -/
theorem copiedFrame_log [Pcm α] {w rf : UInt64} {i : Nat} (hi : rf.toNat + i < 2 ^ 64) :
    copiedFrame ch w rf (fun i => log.getD (rf.toNat + i) fun _ => Pcm.silence) i =
      heard ch log w.toNat rf.toNat i := by
  unfold copiedFrame heard
  simp only [UInt64.lt_iff_toNat_lt, toNat_position hi]

/-- A frame below the write head that stays in the ring. -/
theorem read_position [Pcm α] {w rf : UInt64} {i c : Nat} (hi : rf.toNat + i < 2 ^ 64)
    (hw : w.toNat ≤ log.length) (hbound : bound ≤ rf.toNat + i + 65536)
    (hbelow : rf + UInt64.ofNat i < w) (hc : c < ch)
    (hm : Resident 65536 ch 0 log bound m.shm.ring) :
    m.shm.ring (((rf + UInt64.ofNat i) &&& ringMask).toNat * ch + c) =
      log.getD (rf.toNat + i) (fun _ => Pcm.silence) c := by
  rw [UInt64.lt_iff_toNat_lt, toNat_position hi] at hbelow
  have hk : log[rf.toNat + i]? = some (log.getD (rf.toNat + i) fun _ => Pcm.silence) := by
    rw [List.getD_eq_getElem?_getD, List.getElem?_eq_getElem (by omega)]
    rfl
  have hread := hm.read hk hbound hc
  rw [Nat.zero_add] at hread
  rw [and_mask ringMask_toNat, toNat_position hi]
  exact hread

/-- **The implicit margin**: whatever the cursor was, every frame of the window that is below the
write head is out of reach of a writer `min n (65536 - lat)` frames past it. -/
theorem window_margin (c : Cursor) {n latency : UInt32} {w : UInt64} (hn : n.toNat ≤ 65536)
    (hlat : depthOf n latency ≤ 65536) (hw : w.toNat < 2 ^ 63) :
    w.toNat + min n.toNat (65536 - depthOf n latency) ≤
        (c.windowStart n (marginOf latency) w).toNat + 65536 ∧
      (c.windowStart n (marginOf latency) w).toNat ≤ w.toNat := by
  rcases @windowStart_cases c n (marginOf latency) w hn hw with
    ⟨h1, h2⟩ | ⟨h1, h2⟩ | ⟨h1, h2⟩
  · omega
  · rw [readDepth_eq] at h1 h2
    omega
  · rw [readDepth_eq] at h1
    omega

/-- **A call from its load of the write head on**, while the frames it needs stay. -/
theorem safe_doIOFromLoad [Pcm α] (n : UInt32) (cycle : UInt64) {c : UInt32} {latency : UInt32}
    (hn : n.toNat ≤ 65536) (hlat : m.shm.latencyFrames = latency)
    (hdepth : depthOf n latency ≤ 65536) {w : UInt64} (hw : w.toNat < 2 ^ 63)
    (hlog : w.toNat ≤ log.length)
    (hbound : bound = w.toNat + min n.toNat (65536 - depthOf n latency))
    (hm : Resident 65536 c.toNat 0 log bound m.shm.ring) :
    Safe (readerTerms c.toNat log bound) (fun _ => True)
      (fun _ (r : IOResult α) _ => ∀ ch' w' rf ws, r = .read ch' w' rf true ws →
        w' = w ∧ ws = (List.range n.toNat).flatMap (heard c.toNat log w.toNat rf.toNat)) h
      (do
        let (rf, first) ← cursorSection n cycle w
        let writes ← copyFrames c.toNat w rf n.toNat 0
        return IOResult.read c w rf first writes) m := by
  have hS (h : Bool) (m m' : World α) (hr : (readerTerms c.toNat log bound).rely h m m')
      (hm : m.shm.latencyFrames = latency ∧ Resident 65536 c.toNat 0 log bound m.shm.ring) :
      m'.shm.latencyFrames = latency ∧ Resident 65536 c.toNat 0 log bound m'.shm.ring :=
    ⟨hr.2.1.trans hm.1, hr.1 hm.2⟩
  refine Safe.bind ((safe_cursorSection id (fun _ => trivial) hS (fun _ _ hr => hr.2.2 rfl)
    (fun _ _ hm _ => ⟨trivial, hm⟩) ⟨hlat, hm⟩).mono ?_)
  rintro h' ⟨rf, first⟩ m₁ ⟨rfl, hm₁, m₀, -, hcursor⟩
  cases first with
  | true =>
    obtain ⟨cur, margin, hmoved, hmargin⟩ := hcursor.first rfl
    obtain rfl : margin = marginOf latency := hmargin latency fun m hm => hm.1
    obtain rfl : cur.windowStart n (marginOf latency) w = rf := by
      have hstart := hcursor.start
      rwa [hmoved] at hstart
    obtain ⟨h1, h2⟩ := window_margin cur hn hdepth hw
    refine Safe.bind ((safe_copyFrames (fun _ => trivial) (hS false)
      (fun i hi hbelow m c hm hc => read_position (by omega) hlog (by omega) hbelow hc hm.2)
      (Nat.zero_add _) hm₁).mono ?_)
    rintro h' ws m₂ ⟨rfl, -, rfl⟩ m₃ h₃ ch' w' rf' ws' hr
    cases hr
    refine ⟨rfl, ?_⟩
    rw [← List.range_eq_range']
    exact List.flatMap_congr fun i hi =>
      copiedFrame_log (by have := List.mem_range.mp hi; omega)
  | false =>
    have hplain : Plain (fun _ _ => True) (copyFrames (α := α) c.toNat w rf n.toNat 0) :=
      plain_copyFrames (fun _ => trivial) _ _ _ _ _
    refine Safe.bind ((hplain.safe fun _ _ _ => trivial).mono ?_)
    rintro h' ws m₂ - m₃ h₃ ch' w' rf' ws' hr
    cases hr

/-! ## Runs -/

/-- Nobody is inside `create` unless somebody was, or was called to it. -/
theorem Creating.back {p q : System α} {a : Act Tid Entry} [Pcm α] (hq : Creating q)
    (hnext : p.next start a = some q) :
    Creating p ∨ ∃ d latency sys, a = .call .daemon (.create d latency sys) := by
  obtain ⟨⟨d, latency, sys, hent⟩, hnot⟩ := hq
  have hstep := step_of_next hnext
  by_cases ha : a.by = .daemon
  · cases a with
    | call t e =>
      obtain rfl : t = .daemon := ha
      cases hstep with
      | call hret hk =>
        rw [begin_entry] at hent
        exact Or.inr ⟨d, latency, sys, by rw [Option.some.inj hent]⟩
    | tick t =>
      obtain rfl : t = .daemon := ha
      have hent' : q.entry .daemon = p.entry .daemon := by cases hstep <;> rfl
      exact Or.inl ⟨⟨d, latency, sys, hent' ▸ hent⟩, fun b => hstep.not_tick⟩
  · obtain ⟨h1, h2, -, -⟩ := hstep.other ha
    exact Or.inl ⟨⟨d, latency, sys, h2 ▸ hent⟩, h1 ▸ hnot⟩

theorem NoCreate.not_creating [Pcm α] {p q : System α} {a : Act Tid Entry} (h : NoCreate p a)
    (hnext : p.next start a = some q) : ¬ Creating q := by
  intro hq
  rcases hq.back hnext with hp | ⟨d, latency, sys, ha⟩
  · exact h.1 hp
  · exact h.2 _ d latency sys ha

/-- The labels of runs in which nobody creates the segment and host thread `i` is given no new
call. -/
def Quiet (i : Nat) (p : System α) (a : Act Tid Entry) : Prop :=
  NoCreate p a ∧ ∀ e, a ≠ .call (.host i) e

/-- Without `create` the log only grows. -/
theorem capture_extends [Pcm α] {ch : Nat} {log : List (Nat → α)} {a : Act Tid Entry}
    (ha : ∀ t d latency sys, a ≠ .call t (.create d latency sys)) :
    log <+: capture ch log a := by
  cases a with
  | tick t => exact List.prefix_rfl
  | call t e => cases t with
    | daemon => cases e with
      | create d latency sys => exact absurd rfl (ha _ d latency sys)
      | push s24 => exact List.prefix_append _ _
      | _ => exact List.prefix_rfl
    | _ => exact List.prefix_rfl

/-- The published frames stay in the ring while the writer is not `bound` frames along. -/
theorem Producing.resident [Pcm α] {ch bound : Nat} {log full : List (Nat → α)} {p : System α}
    (h : Producing ch full p) (hnot : ¬ Creating p) (hlen : full.length < 2 ^ 63)
    (hlog : log <+: full) (hpub : log.length ≤ p.shared.shm.writeFrames.toNat)
    (hbound : begun ch p ≤ bound) : Resident 65536 ch 0 log bound p.shared.shm.ring := by
  obtain ⟨old, more, j, rfl, hw, hbegun, hres⟩ := h.cases_begun hnot
  have hold : p.shared.shm.writeFrames.toNat = old.length := by
    rw [List.length_append] at hlen
    rw [hw, UInt64.toNat_ofNat', Nat.mod_eq_of_lt (by omega)]
  rw [hold] at hpub hbegun
  obtain ⟨rest, rfl⟩ := List.prefix_of_prefix_length_le hlog (List.prefix_append old more) hpub
  exact (hres.mono (hbegun ▸ hbound)).of_append

/-- What holds of a run since a reader loaded the write head: the log grew, `log` is still
published, and the reader is safe as long as the writer is not `bound` frames along. -/
structure Reading [Pcm α] (ch : Nat) (log : List (Nat → α)) (bound : Nat) (i : Nat)
    (post : Bool → Local α → World α → Prop) (full : List (Nat → α)) (p : System α) : Prop where
  producing : Producing ch full p
  safe : p.Safe
  not_creating : ¬ Creating p
  grown : log <+: full
  published : log.length ≤ p.shared.shm.writeFrames.toNat
  reader : begun ch p ≤ bound →
    Safe (readerTerms ch log bound) (fun _ => True) post (p.holds (.host i)) (p.thread (.host i))
      p.shared

theorem Reading.step [Pcm α] {ch : Nat} (hpos : 1 ≤ ch) (hch : ch ≤ 8) {log : List (Nat → α)}
    {bound i : Nat} {post : Bool → Local α → World α → Prop} {full : List (Nat → α)}
    {p q : System α} {a : Act Tid Entry} (h : Reading ch log bound i post full p)
    (hok : Quiet i p a) (hnext : p.next start a = some q)
    (hlen : (capture ch full a).length < 2 ^ 63) :
    Reading ch log bound i post (capture ch full a) q := by
  have hone : OneCount ch p a := by
    cases a with
    | tick t => trivial
    | call t e => cases e with
      | create d latency sys => exact absurd rfl (hok.1.2 t d latency sys)
      | _ => trivial
  obtain ⟨hbegun, hpub, hlat⟩ := begun_step hpos h.producing h.safe hok.1 hnext hlen
  have hprod := producing_step hpos hch h.producing h.safe hone hnext
  have hnot := hok.1.not_creating hnext
  have hgrown : log <+: capture ch full a := h.grown.trans (capture_extends hok.1.2)
  refine ⟨hprod, system_safe_step h.safe hnext, hnot, hgrown, h.published.trans hpub, ?_⟩
  intro hb
  refine safe_step (step_of_next hnext) hok.2 (fun _ _ => trivial) (fun ht => ⟨fun _ => ?_, hlat,
    fun hh => ((system_rely h.safe hnext ht).2 hh).cursor⟩) (h.reader (hbegun.trans hb))
  exact hprod.resident hnot hlen hgrown (h.published.trans hpub) hb

/-- The log only grows over a quiet run. -/
theorem capture_grows [Pcm α] (ch : Nat) {i : Nat} {log : List (Nat → α)} {p q : System α}
    {as : List (Act Tid Entry)} (hrun : Run start (Quiet i) p as q) :
    log <+: as.foldl (capture ch) log := by
  induction hrun with
  | refl => exact List.prefix_rfl
  | tail _ hok _ ih =>
    rw [List.foldl_append]
    exact ih.trans (capture_extends hok.1.2)

/-- **A reader stays within its terms** in every quiet run. -/
theorem Reading.run [Pcm α] {ch : Nat} (hpos : 1 ≤ ch) (hch : ch ≤ 8) {log : List (Nat → α)}
    {bound i : Nat} {post : Bool → Local α → World α → Prop} {full : List (Nat → α)}
    {p₁ p : System α} {as : List (Act Tid Entry)} (h : Reading ch log bound i post full p₁)
    (hrun : Run start (Quiet i) p₁ as p) (hlen : (as.foldl (capture ch) full).length < 2 ^ 63) :
    Reading ch log bound i post (as.foldl (capture ch) full) p := by
  induction hrun with
  | refl => exact h
  | @tail as a p q hrun hok hnext ih =>
    rw [List.foldl_append] at hlen ⊢
    have hle : (as.foldl (capture ch) full).length ≤
        (capture ch (as.foldl (capture ch) full) a).length := (capture_extends hok.1.2).length_le
    exact (ih (hle.trans_lt hlen)).step hpos hch hok hnext hlen

/-- Below the write head only the published frames matter. -/
theorem heard_append [Pcm α] {ch : Nat} {old : List (Nat → α)} (more : List (Nat → α)) (rf : Nat) :
    heard ch (old ++ more) old.length rf = heard ch old old.length rf := by
  funext i
  unfold heard
  by_cases hlt : rf + i < old.length
  · rw [if_pos hlt, if_pos hlt, List.getD_append _ _ _ _ hlt]
  · rw [if_neg hlt, if_neg hlt]

/-- **Ring fidelity.** A host thread is about to load the write head, in any state reached from a
fresh segment by daemons of one channel count, whatever the cursor; the run goes on in any order
until the thread has its result, nobody creating the segment meanwhile. If it was the call that
moved the cursor, and the daemon has by then begun at most `min n (65536 - lat)` frames past the
loaded head, output frame `k` is the captured frame `rf + k`, or silence from the head on. -/
theorem ring_fidelity [Pcm α] {c : UInt32} (hpos : 1 ≤ c.toNat) (hch : c.toNat ≤ 8) {m₀ : World α}
    (hm₀ : m₀.shm.writeFrames = 0) {as₀ : List (Act Tid Entry)} {p₀ : System α}
    (hrun₀ : Run start (OneCount c.toNat) (System.init m₀) as₀ p₀) {i : Nat} {n : UInt32}
    {cycle : UInt64}
    (hload : p₀.thread (.host i) = doIOFromLoad n cycle c >>= fun r => ret (.io r))
    {as : List (Act Tid Entry)} {p : System α}
    (hrun : Run start (Quiet i) p₀ (.tick (.host i) :: as) p) {c' : UInt32} {w rf : UInt64}
    {ws : List (Nat × α)} (hend : p.thread (.host i) = .ret (.io (.read c' w rf true ws)))
    (hn : n.toNat ≤ 65536) (hdepth : depthOf n p₀.shared.shm.latencyFrames ≤ 65536)
    (hlen : (captured (α := α) c.toNat (as₀ ++ .tick (.host i) :: as)).length < 2 ^ 63)
    (hbegun : begun c.toNat p ≤ p₀.shared.shm.writeFrames.toNat +
      min n.toNat (65536 - depthOf n p₀.shared.shm.latencyFrames)) :
    w = p₀.shared.shm.writeFrames ∧ w.toNat ≤ (captured (α := α) c.toNat as₀).length ∧
      ws = (List.range n.toNat).flatMap (heard c.toNat (captured c.toNat as₀) w.toNat rf.toNat) := by
  obtain ⟨p₁, hok₁, hnext₁, hrest⟩ := hrun.uncons
  have hprod := producing_run hpos hch hm₀ hrun₀
  have hsafe := system_safe hrun₀
  obtain ⟨old, more, j, hlog, hw, hbegun₀, hres⟩ := hprod.cases_begun hok₁.1.1
  have hlen' : (as.foldl (capture c.toNat) (captured (α := α) c.toNat as₀)).length < 2 ^ 63 := by
    unfold captured at hlen ⊢
    rwa [List.foldl_append] at hlen
  have hshort : (captured (α := α) c.toNat as₀).length < 2 ^ 63 :=
    (capture_grows c.toNat hrest).length_le.trans_lt hlen'
  have hold : old.length ≤ (captured (α := α) c.toNat as₀).length := by
    rw [hlog, List.length_append]
    exact Nat.le_add_right ..
  have hwn : p₀.shared.shm.writeFrames.toNat = old.length := by
    rw [hw, UInt64.toNat_ofNat', Nat.mod_eq_of_lt (by omega)]
  -- the call from its load on, as the invariant of the rest of the run
  obtain ⟨hthread, -, -, hshared⟩ := (step_of_next hnext₁).of_access hload
  have hread : Reading c.toNat old (old.length + min n.toNat (65536 -
      depthOf n p₀.shared.shm.latencyFrames)) i (fun _ b _ => ∀ c' w rf ws,
        b = .io (.read c' w rf true ws) → w = p₀.shared.shm.writeFrames ∧
          ws = (List.range n.toNat).flatMap (heard c.toNat old old.length rf.toNat))
      (captured c.toNat as₀) p₁ := by
    have hbegun₁ := (begun_step hpos hprod hsafe hok₁.1 hnext₁ hshort).1
    have hprod₁ := producing_step hpos hch hprod hsafe (a := .tick (.host i)) trivial hnext₁
    refine ⟨hprod₁, system_safe_step hsafe hnext₁, hok₁.1.not_creating hnext₁,
      hlog ▸ List.prefix_append .., ?_, ?_⟩
    · rw [hshared]
      exact hwn.ge
    · intro hb
      have hres₁ : Resident 65536 c.toNat 0 old (old.length + min n.toNat (65536 -
          depthOf n p₀.shared.shm.latencyFrames)) p₁.shared.shm.ring := by
        rw [hshared]
        exact hprod.resident hok₁.1.1 hshort (hlog ▸ List.prefix_append ..) hwn.ge
          (hbegun₁.trans hb)
      rw [hthread]
      refine Safe.bind ((safe_doIOFromLoad n cycle hn (by rw [hshared]; rfl) hdepth
        (by omega) hwn.le (by rw [hwn]) hres₁).mono ?_)
      rintro h r m hr m' h' c' w rf ws hio
      cases hio
      have := hr c' w rf ws rfl
      rwa [hwn] at this
  have hfinal := hread.run hpos hch hrest hlen'
  have hdone := hfinal.reader (hwn ▸ hbegun)
  rw [hend] at hdone
  obtain ⟨rfl, hws⟩ := hdone _ (Terms.refl ..) c' w rf ws rfl
  refine ⟨rfl, hwn ▸ hold, ?_⟩
  rw [hws, hwn, hlog, heard_append]

/-- The daemon creates the segment and pushes two frames, a host thread calls `DoIOOperation` and
comes to its load of the write head. -/
def monoLoad : List (Act Tid Entry) :=
  .call .daemon (.create monoDevice 258 .fine) :: List.replicate 10 (.tick .daemon) ++
    .call .daemon (.push [0, 0, 64, 0, 0, 32]) :: List.replicate 4 (.tick .daemon) ++
    .call (.host 0) (.doIo true false 1 7) :: List.replicate 3 (.tick (.host 0))

theorem ring_fidelity_mono : ∃ p : System ℚ, ∃ ws,
    p.thread (.host 0) = .ret (.io (.read 1 2 0 true ws)) ∧
      ws = heard 1 (framesOf 1 [0, 0, 64, 0, 0, 32]) 2 0 0 := by
  obtain ⟨p₀, p, h₀, hload, hnot, hbefore, h, ws, hend, hbegun⟩ : ∃ p₀ p : System ℚ,
      runActs start monoLoad (System.init attachedIdle) = some p₀ ∧
      p₀.thread (.host 0) = (doIOFromLoad 1 7 1 >>= fun r => ret (.io r)) ∧
      ¬ Creating p₀ ∧ (p₀.shared.shm.writeFrames = 2 ∧ p₀.shared.shm.latencyFrames = 258) ∧
      runActs start (List.replicate 9 (.tick (.host 0))) p₀ = some p ∧
      ∃ ws, p.thread (.host 0) = .ret (.io (.read 1 2 0 true ws)) ∧ begun (1 : UInt32).toNat p = 2 :=
    ⟨_, _, rfl, rfl, fun h => h.2 _ rfl, ⟨rfl, rfl⟩, rfl, _, rfl, rfl⟩
  have hone : ∀ a ∈ monoLoad, OneCount 1 p₀ a := by
    intro a ha
    simp only [monoLoad, List.cons_append, List.mem_cons, List.mem_append,
      List.mem_replicate, or_assoc] at ha
    rcases ha with rfl | ⟨-, rfl⟩ | rfl | ⟨-, rfl⟩ | rfl | ⟨-, rfl⟩
    · rfl
    all_goals trivial
  have hrun₀ : Run start (OneCount 1) (System.init attachedIdle) monoLoad p₀ :=
    (run_of_runActs h₀).restrict (P := fun _ => True) (L := OneCount 1 p₀) trivial hone
      (fun _ _ _ => id) (fun _ _ _ _ _ _ => trivial)
  have hrun : Run start (Quiet 0) p₀ (List.replicate 9 (.tick (.host 0))) p := by
    refine (run_of_runActs h).restrict (P := fun p => ¬ Creating p)
      (L := fun a => a = .tick (.host 0)) hnot
      (fun a => List.eq_of_mem_replicate) ?_ ?_
    · rintro p a hp rfl
      exact ⟨⟨hp, nofun⟩, nofun⟩
    · rintro p a q hp rfl hnext hq
      rcases hq.back hnext with hp' | ⟨d, latency, sys, ha⟩
      · exact hp hp'
      · cases ha
  obtain ⟨-, -, hws⟩ := ring_fidelity (c := 1) (by decide) (by decide) rfl hrun₀ hload hrun hend
    (by decide) (by rw [hbefore.2]; decide) (by decide) (by rw [hbefore.1, hbefore.2, hbegun]; decide)
  exact ⟨p, ws, hend, hws⟩

end Line6
