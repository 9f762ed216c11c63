import Line6.System.Lock

/-!
# The producer's side of the ring

`captured` is the log: the frames the daemon was given to push since it last created the segment,
read off the labels of a run. `Producing ch log p` ties the daemon's program, the write head and
the ring to the log, phase by phase, for daemons whose devices all have `ch` channels; every step
of the system keeps it (`producing_step`, `producing_run`). `begun` counts the frames the daemon
has begun to write, those of an unpublished batch included.
-/

namespace Line6

open Conc Conc.Prog Conc.Pool RingLog

variable {α : Type}

/-! ## The log -/

/-- Every device the daemon creates the segment for has `ch` channels. -/
def OneCount (ch : Nat) (_ : System α) : Act Tid Entry → Prop
  | .call _ (.create d _ _) => d.captureChannels.toNat = ch
  | _ => True

/-- What a label does to the log: a `create` that maps the segment empties it, a batch joins it. -/
def capture [Pcm α] (ch : Nat) (log : List (Nat → α)) : Act Tid Entry → List (Nat → α)
  | .call .daemon (.create _ _ sys) => if sys.openOk && sys.mmapOk then [] else log
  | .call .daemon (.push s24) => log ++ framesOf ch s24
  | _ => log

/-- The frames captured in a run. -/
def captured [Pcm α] (ch : Nat) (as : List (Act Tid Entry)) : List (Nat → α) :=
  as.foldl (capture ch) []

theorem captured_snoc [Pcm α] (ch : Nat) (as : List (Act Tid Entry)) (a : Act Tid Entry) :
    captured (α := α) ch (as ++ [a]) = capture ch (captured ch as) a :=
  List.foldl_append ..

theorem capture_other [Pcm α] {ch : Nat} {log : List (Nat → α)} {a : Act Tid Entry}
    (ha : a.by ≠ .daemon) : capture ch log a = log := by
  cases a with
  | tick t => rfl
  | call t e => cases t with
    | daemon => exact absurd rfl ha
    | monitor => rfl
    | host i => rfl

/-- Frames begun: the published ones, and those of the batch being stored. The first action of a
push loads the write head, each later one but the last stores a cell. -/
def begun (ch : Nat) (p : System α) : Nat :=
  p.shared.shm.writeFrames.toNat +
    match p.entry .daemon, p.thread .daemon with
    | some (.push _), .ret _ => 0
    | some (.push _), _ => framesBegun ch (p.age .daemon - 1)
    | _, _ => 0

/-! ## The phases of the daemon -/

/-- The segment holds the log and has published it. -/
def Published (ch : Nat) (log : List (Nat → α)) (m : World α) : Prop :=
  m.shm.writeFrames = UInt64.ofNat log.length ∧ Resident 65536 ch 0 log log.length m.shm.ring

/-- A device of `ch` channels, if any. -/
def Local.HasCount (ch : Nat) : Local α → Prop
  | .connected d => d.captureChannels.toNat = ch
  | _ => True

/-- The daemon inside `create`, whatever the plugin does. -/
def createTerms : Terms (World α) where
  strict := False
  rely _ m m' := m'.shm = m.shm
  guar _ _ _ := True
  refl _ _ := rfl
  trans h₁ h₂ := h₂.trans h₁

/-- The end of a push. -/
def publish (d : Device) (n : Nat) : Prog (World α) (Local α) := do
  wrShm fun s => { s with writeFrames := UInt64.ofNat n }
  return .connected d

/-- Where the daemon can be, and what the ring and the write head are then. -/
inductive Producing [Pcm α] (ch : Nat) (log : List (Nat → α)) (p : System α) : Prop
  | idle {b : Local α} (hthread : p.thread .daemon = .ret b) (hb : b.HasCount ch)
      (hpub : Published ch log p.shared)
  | creating {d : Device} {latency : UInt32} {sys : Sys}
      (hentry : p.entry .daemon = some (.create d latency sys))
      (hnot : ∀ b, p.thread .daemon ≠ .ret b)
      (hsafe : Safe createTerms (fun _ => True)
        (fun _ b m => b.HasCount ch ∧ Published ch log m) (p.holds .daemon) (p.thread .daemon)
        p.shared)
  | loading {d : Device} {s24 : List UInt8} {old : List (Nat → α)}
      (hentry : p.entry .daemon = some (.push s24)) (hage : p.age .daemon = 0)
      (hd : d.captureChannels.toNat = ch) (hlog : log = old ++ framesOf ch s24)
      (hthread : p.thread .daemon =
        pushCells ch (wholeFrames ch s24) (frameOf ch s24) >>= fun _ => ret (.connected d))
      (hpub : Published ch old p.shared)
  | storing {d : Device} {s24 : List UInt8} {old : List (Nat → α)} {j rem : Nat}
      (hentry : p.entry .daemon = some (.push s24)) (hage : p.age .daemon = j + 1)
      (hd : d.captureChannels.toNat = ch) (hlog : log = old ++ framesOf ch s24)
      (hrem : j + rem = wholeFrames ch s24 * ch)
      (hthread : p.thread .daemon =
        storeAll (batchCell 65536 ch (0 + old.length) (frameOf ch s24)) rem j >>= fun _ =>
          publish d log.length)
      (hw : p.shared.shm.writeFrames = UInt64.ofNat old.length)
      (hstored : Stored 65536 ch 0 old (frameOf ch s24) j p.shared.shm.ring)

/-! ## Steps -/

/-- `create`: at its end the segment is empty, or, if it could not be mapped, as before. -/
theorem safe_create [Pcm α] {ch : Nat} {log : List (Nat → α)} {m : World α} {d : Device}
    (hd : d.captureChannels.toNat = ch) (hpub : Published ch log m) (latency : UInt32)
    (sys : Sys) {h : Bool} {b : Local α} {x : Prog (World α) (Local α)}
    (hx : startDaemon (.create d latency sys) b = some x) :
    Safe createTerms (fun _ => True)
      (fun _ b m => b.HasCount ch ∧
        Published ch (capture ch log (.call .daemon (.create d latency sys))) m) h x m := by
  have hkeep (m' : World α) (h : m'.shm = m.shm) : Published ch log m' := by
    unfold Published at hpub ⊢
    rw [h]
    exact hpub
  obtain ⟨openOk, mmapOk, errno⟩ := sys
  cases hx
  cases openOk with
  | false => exact fun m' h => ⟨trivial, hkeep m' h⟩
  | true =>
    cases mmapOk with
    | false => exact fun m₁ h₁ => ⟨trivial, fun m₂ h₂ => ⟨trivial, hkeep m₂ (h₂.trans h₁)⟩⟩
    | true =>
      iterate 10 refine fun _ _ => ⟨trivial, ?_⟩
      intro m' h
      have hm' : m'.shm.writeFrames = 0 := by rw [h]
      exact ⟨hd, hm', resident_nil⟩

/-- A daemon inside `create`, or just out of it. -/
theorem producing_of_safe [Pcm α] {ch : Nat} {log : List (Nat → α)} {p : System α} {d : Device}
    {latency : UInt32} {sys : Sys} (hentry : p.entry .daemon = some (.create d latency sys))
    (hsafe : Safe createTerms (fun _ => True)
      (fun _ b m => b.HasCount ch ∧ Published ch log m) (p.holds .daemon) (p.thread .daemon)
      p.shared) : Producing ch log p := by
  by_cases hret : ∃ b, p.thread .daemon = .ret b
  · obtain ⟨b, hb⟩ := hret
    rw [hb] at hsafe
    obtain ⟨hcount, hpub⟩ := hsafe _ rfl
    exact .idle hb hcount hpub
  · exact .creating hentry (not_exists.mp hret) hsafe

/-- The steps of the other threads: they leave the segment alone. -/
theorem Producing.other [Pcm α] {ch : Nat} {log : List (Nat → α)} {p q : System α}
    {a : Act Tid Entry} (h : Producing ch log p) (hstep : Step start p a q)
    (ha : a.by ≠ .daemon) (hshm : q.shared.shm = p.shared.shm) : Producing ch log q := by
  obtain ⟨h1, h2, h3, h4⟩ := hstep.other ha
  have hpub {l : List (Nat → α)} (hp : Published ch l p.shared) : Published ch l q.shared := by
    unfold Published at hp ⊢
    rw [hshm]
    exact hp
  cases h with
  | idle hthread hb hp => exact .idle (h1.trans hthread) hb (hpub hp)
  | creating hentry hnot hsafe =>
    exact .creating (h2 ▸ hentry) (h1 ▸ hnot) (h1 ▸ h4 ▸ hsafe.rely hshm)
  | loading hentry hage hd hlog hthread hp =>
    exact .loading (h2 ▸ hentry) (h3.trans hage) hd hlog (h1.trans hthread) (hpub hp)
  | storing hentry hage hd hlog hrem hthread hw hstored =>
    exact .storing (h2 ▸ hentry) (h3.trans hage) hd hlog hrem (h1.trans hthread) (hshm ▸ hw)
      (hshm ▸ hstored)

/-- The daemon is called: it is idle, and begins a `create` or a batch. -/
theorem Producing.called [Pcm α] {ch : Nat} (hpos : 1 ≤ ch) (hch : ch ≤ 8)
    {log : List (Nat → α)} {p q : System α} {e : Entry} (h : Producing ch log p)
    (hstep : Step start p (.call .daemon e) q) (hok : OneCount ch p (.call .daemon e)) :
    Producing ch (capture ch log (.call .daemon e)) q := by
  cases hstep with
  | @call _ _ b x hret hx =>
    obtain ⟨hcount, hpub⟩ : b.HasCount ch ∧ Published ch log p.shared := by
      cases h with
      | idle hthread hb hp =>
        rw [hret] at hthread
        cases hthread
        exact ⟨hb, hp⟩
      | creating _ hnot _ => exact absurd hret (hnot b)
      | loading _ _ _ _ hthread _ =>
        rw [hret] at hthread
        cases hthread
      | @storing _ _ _ _ rem _ _ _ _ _ hthread _ _ =>
        rw [hret] at hthread
        cases rem <;> cases hthread
    change startDaemon e b = some x at hx
    cases e with
    | create d latency sys =>
      refine producing_of_safe (begin_entry ..) ?_
      rw [begin_thread]
      exact safe_create hok hpub latency sys hx
    | push s24 =>
      cases b with
      | connected d =>
        have hd : d.captureChannels.toNat = ch := hcount
        have hprog : x = pushFrames ch s24 >>= fun _ => ret (.connected d) := by
          rw [← hd]
          exact (Option.some.inj hx).symm
        rw [pushFrames_eq hpos hch] at hprog
        split_ifs at hprog with hzero
        · have hnone : capture ch log (.call .daemon (.push s24)) = log := by
            show log ++ (List.range (wholeFrames ch s24)).map _ = log
            rw [hzero, List.range_zero, List.map_nil, List.append_nil]
          rw [hnone]
          exact .idle ((begin_thread ..).trans hprog) hd hpub
        · exact .loading (begin_entry ..) (begin_age ..) hd rfl ((begin_thread ..).trans hprog) hpub
      | _ => cases hx
    | _ => cases b <;> cases hx

/-- The daemon takes its next action. -/
theorem Producing.ticked [Pcm α] {ch : Nat} (hpos : 1 ≤ ch) {log : List (Nat → α)}
    {p q : System α} (h : Producing ch log p) (hstep : Step start p (.tick .daemon) q) :
    Producing ch log q := by
  cases h with
  | idle hthread _ _ => exact absurd hthread hstep.not_tick
  | creating hentry hnot hsafe =>
    have hent : q.entry .daemon = p.entry .daemon := by cases hstep <;> rfl
    exact producing_of_safe (hent.trans hentry) (safe_tick hstep (fun _ _ => trivial) hsafe)
  | @loading d s24 old hentry hage hd hlog hthread hpub =>
    obtain ⟨hthread', hentry', hage', hshared⟩ := hstep.of_access hthread
    have hcells : batchCell 65536 ch p.shared.shm.writeFrames.toNat (frameOf (α := α) ch s24) =
        batchCell 65536 ch (0 + old.length) (frameOf ch s24) := by
      refine batchCell_congr ?_ _
      rw [hpub.1, Nat.zero_add]
      exact ofNat_slot (b := 16) (by decide) _
    have hnext : UInt64.ofNat (p.shared.shm.writeFrames.toNat + wholeFrames ch s24) =
        UInt64.ofNat log.length := by
      rw [hlog, List.length_append, framesOf_length, UInt64.ofNat_add, UInt64.ofNat_toNat,
        UInt64.ofNat_add, hpub.1]
    refine .storing (hentry'.trans hentry) (by rw [hage', hage]) hd hlog (Nat.zero_add _) ?_
      (hshared ▸ hpub.1) (stored_zero (hshared ▸ hpub.2))
    rw [hthread']
    show (storeAll _ (wholeFrames ch s24 * ch) 0 >>= fun _ => wrShm _) >>= (fun _ => ret _) = _
    rw [Prog.bind_assoc, hcells, hnext]
    rfl
  | @storing d s24 old j rem hentry hage hd hlog hrem hthread hw hstored =>
    cases rem with
    | succ rem =>
      obtain ⟨hthread', hentry', hage', hshared⟩ := hstep.of_access hthread
      exact .storing (hentry'.trans hentry) (by rw [hage', hage]) hd hlog (by omega) hthread'
        (hshared ▸ hw) (hshared ▸ hstored.step hpos)
    | zero =>
      obtain ⟨hthread', -, -, hshared⟩ := hstep.of_access hthread
      obtain rfl : j = wholeFrames ch s24 * ch := hrem
      refine .idle hthread' hd ⟨hshared ▸ rfl, ?_⟩
      rw [hshared, hlog]
      exact hstored.all hpos

/-- **Every step keeps the producer's invariant.** -/
theorem producing_step [Pcm α] {ch : Nat} (hpos : 1 ≤ ch) (hch : ch ≤ 8)
    {log : List (Nat → α)} {p q : System α} {a : Act Tid Entry} (h : Producing ch log p)
    (hsafe : p.Safe) (hok : OneCount ch p a)
    (hnext : p.next start a = some q) : Producing ch (capture ch log a) q := by
  have hstep := step_of_next hnext
  by_cases ha : a.by = .daemon
  · cases a with
    | call t e =>
      obtain rfl : t = .daemon := ha
      exact h.called hpos hch hstep hok
    | tick t =>
      obtain rfl : t = .daemon := ha
      exact h.ticked hpos hstep
  · rw [capture_other ha]
    exact h.other hstep ha (same_segment hsafe hnext ha).1

/-- **Every run from a fresh segment keeps it.** -/
theorem producing_run [Pcm α] {ch : Nat} (hpos : 1 ≤ ch) (hch : ch ≤ 8) {m : World α}
    (hm : m.shm.writeFrames = 0) {as : List (Act Tid Entry)} {p : System α}
    (hrun : Run start (OneCount ch) (System.init m) as p) :
    Producing ch (captured ch as) p := by
  induction hrun with
  | refl => exact .idle (b := .fresh) rfl trivial ⟨hm, resident_nil⟩
  | @tail as a p q hrun hok hnext ih =>
    rw [captured_snoc]
    exact producing_step hpos hch ih (system_safe hrun) hok hnext

/-! ## What a phase says -/

/-- The daemon is inside `create`. -/
def Creating (p : System α) : Prop :=
  (∃ d latency sys, p.entry .daemon = some (.create d latency sys)) ∧
    ∀ b, p.thread .daemon ≠ .ret b

/-- A daemon outside `create`, by how much of a batch it has stored: `old` is published, the
frames of `log` after it are being stored. -/
theorem Producing.cases_begun [Pcm α] {ch : Nat} {log : List (Nat → α)} {p : System α}
    (h : Producing ch log p) (hnot : ¬ Creating p) :
    ∃ old more j, log = old ++ more ∧ p.shared.shm.writeFrames = UInt64.ofNat old.length ∧
      begun ch p = p.shared.shm.writeFrames.toNat + framesBegun ch j ∧
      Resident 65536 ch 0 old (old.length + framesBegun ch j) p.shared.shm.ring := by
  cases h with
  | idle hthread hb hpub =>
    refine ⟨log, [], 0, (List.append_nil _).symm, hpub.1, ?_, ?_⟩
    · unfold begun
      rw [hthread, framesBegun_zero]
      cases hent : p.entry .daemon with
      | none => rfl
      | some e => cases e <;> rfl
    · rw [framesBegun_zero]
      exact hpub.2
  | creating hentry hret _ => exact absurd ⟨⟨_, _, _, hentry⟩, hret⟩ hnot
  | @loading d s24 old hentry hage hd hlog hthread hpub =>
    refine ⟨old, _, 0, hlog, hpub.1, ?_, ?_⟩
    · unfold begun
      rw [hentry, hthread, hage]
      rfl
    · rw [framesBegun_zero]
      exact hpub.2
  | @storing d s24 old j rem hentry hage hd hlog hrem hthread hw hstored =>
    refine ⟨old, _, j, hlog, hw, ?_, hstored.1.of_append⟩
    unfold begun
    rw [hentry, hthread, hage]
    cases rem <;> rfl

theorem begun_of_ret {ch : Nat} {p : System α} {b : Local α} (h : p.thread .daemon = .ret b) :
    begun ch p = p.shared.shm.writeFrames.toNat := by
  unfold begun
  rw [h]
  cases p.entry .daemon with
  | none => rfl
  | some e => cases e <;> rfl

theorem begun_of_push {ch : Nat} {p : System α} {s24 : List UInt8} {j : Nat}
    (hentry : p.entry .daemon = some (.push s24)) (hage : p.age .daemon - 1 = j)
    (hnot : ∀ b, p.thread .daemon ≠ .ret b) :
    begun ch p = p.shared.shm.writeFrames.toNat + framesBegun ch j := by
  unfold begun
  rw [hentry, hage]
  cases h : p.thread .daemon with
  | ret b => exact absurd h (hnot b)
  | _ => rfl

theorem storing_not_ret {g : Nat → Nat × α} {rem j n : Nat} {d : Device} (b : Local α) :
    (storeAll g rem j >>= fun _ => publish d n) ≠ ret b := by
  cases rem <;> nofun

/-- The labels of runs in which nobody creates the segment. -/
def NoCreate (p : System α) (a : Act Tid Entry) : Prop :=
  ¬ Creating p ∧ ∀ t d latency sys, a ≠ .call t (.create d latency sys)

/-- **Outside `create`, neither the frames begun nor the frames published decrease**, and the
latency word stays. -/
theorem begun_step [Pcm α] {ch : Nat} (hpos : 1 ≤ ch) {log : List (Nat → α)} {p q : System α}
    {a : Act Tid Entry} (h : Producing ch log p)
    (hsafe : p.Safe) (hno : NoCreate p a)
    (hnext : p.next start a = some q) (hlen : (capture ch log a).length < 2 ^ 63) :
    begun ch p ≤ begun ch q ∧
      p.shared.shm.writeFrames.toNat ≤ q.shared.shm.writeFrames.toNat ∧
      q.shared.shm.latencyFrames = p.shared.shm.latencyFrames := by
  have hstep := step_of_next hnext
  by_cases ha : a.by = .daemon
  · cases a with
    | call t e =>
      obtain rfl : t = .daemon := ha
      cases hstep with
      | call hret hk =>
        rw [begun_of_ret hret]
        exact ⟨Nat.le_add_right _ _, le_rfl, rfl⟩
    | tick t =>
      obtain rfl : t = .daemon := ha
      cases h with
      | idle hthread _ _ => exact absurd hthread hstep.not_tick
      | creating hentry hret _ => exact absurd ⟨⟨_, _, _, hentry⟩, hret⟩ hno.1
      | @loading d s24 old hentry hage hd hlog hthread hpub =>
        obtain ⟨-, -, -, hshared⟩ := hstep.of_access hthread
        rw [begun_of_push hentry (j := 0) (by rw [hage]) (by rw [hthread]; nofun),
          framesBegun_zero, Nat.add_zero]
        have hw : q.shared.shm.writeFrames = p.shared.shm.writeFrames := by rw [hshared]; rfl
        rw [← hw]
        exact ⟨Nat.le_add_right _ _, le_rfl, by rw [hshared]; rfl⟩
      | @storing d s24 old j rem hentry hage hd hlog hrem hthread hw hstored =>
        have hbegun : begun ch p = p.shared.shm.writeFrames.toNat + framesBegun ch j :=
          begun_of_push hentry (by rw [hage]; rfl) (by rw [hthread]; exact storing_not_ret)
        cases rem with
        | succ rem =>
          obtain ⟨hthread', hentry', hage', hshared⟩ := hstep.of_access hthread
          rw [hbegun, begun_of_push (hentry'.trans hentry)
            (by rw [hage', hage]; rfl : q.age .daemon - 1 = j + 1)
            (by rw [hthread']; exact storing_not_ret), hshared]
          exact ⟨Nat.add_le_add_left (framesBegun_mono (Nat.le_succ j)) _, le_rfl, rfl⟩
        | zero =>
          obtain ⟨hthread', -, -, hshared⟩ := hstep.of_access hthread
          obtain rfl : j = wholeFrames ch s24 * ch := hrem
          have hlog' : log.length = old.length + wholeFrames ch s24 := by
            rw [hlog, List.length_append, framesOf_length]
          have hlen' : log.length < 2 ^ 63 := hlen
          have hw' : q.shared.shm.writeFrames.toNat = log.length := by
            rw [hshared]
            exact (UInt64.toNat_ofNat' ..).trans (Nat.mod_eq_of_lt (by omega))
          have hold : p.shared.shm.writeFrames.toNat = old.length := by
            rw [hw, UInt64.toNat_ofNat', Nat.mod_eq_of_lt (by omega)]
          rw [hbegun, begun_of_ret hthread', framesBegun_mul hpos, hw', hold, hlog']
          exact ⟨le_rfl, Nat.le_add_right _ _, by rw [hshared]⟩
  · obtain ⟨h1, h2, h3, -⟩ := hstep.other ha
    have hshm := (same_segment hsafe hnext ha).1
    have heq : begun ch q = begun ch p := by
      unfold begun
      rw [h1, h2, h3, hshm]
    rw [heq, hshm]
    exact ⟨le_rfl, le_rfl, rfl⟩

end Line6
