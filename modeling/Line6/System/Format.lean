import Line6.System.Lock

/-!
# The stream format and the buffer of a call

The host sizes its buffer by the `mBytesPerFrame` of its last read of the stream's virtual format;
`DoIOOperation` computes the size of a frame anew in every call. `HostView` follows, beside a run,
what the host last read.

* `format_agreement`: in every run in which what `DevChannels` returns does not change between the
  host's read and the end of a call, the call writes exactly `inFrames * mBytesPerFrame` bytes,
  each float of them once and in order.
* `swapped_call_overruns`: a run in which the host has read the format whenever it was told to,
  and a call writes more than its buffer holds: nothing tells the host of a change of the count.
-/

namespace Line6

open Conc Conc.Prog Conc.Pool

variable {α : Type}

/-! ## The host's view -/

/-- The `UInt32` an answer stores at byte offset `o`. -/
def Reply.u32At (r : Reply) (o : Nat) : Option UInt32 :=
  r.writes.findSome? fun
    | (o', .u32 v) => if o' = o then some v else none
    | _ => none

/-- `mBytesPerFrame` of an `AudioStreamBasicDescription`. -/
def Reply.bytesPerFrame (r : Reply) : Option UInt32 := r.u32At 24

/-- A read of the stream's virtual format. -/
def Entry.IsFormatRead : Entry → Prop
  | .getPropertyData k _ obj a _ _ =>
    obj = kObjectIDStreamInput ∧ a.element = k.elementMain ∧ a.selector = k.stream .virtualFormat
  | _ => False

instance : DecidablePred Entry.IsFormatRead := fun e => by
  cases e <;> unfold Entry.IsFormatRead <;> infer_instance

/-- What the host learns from a step: the frame size, when a read of the format returns. -/
def heardFormat (a : Act Tid Entry) (q : System α) : Option UInt32 :=
  match a with
  | .tick (.host i) =>
    match q.entry (.host i), q.thread (.host i) with
    | some e, .ret (.replied (.ok r)) => if e.IsFormatRead then r.bytesPerFrame else none
    | _, _ => none
  | _ => none

/-- What prompts the host to read the format: it starts IO, or the plugin notifies it. -/
def Prompts (p : System α) : Act Tid Entry → Prop
  | .tick .monitor => ∃ k, p.thread .monitor = .callout k
  | .tick (.host i) => (∃ k, p.thread (.host i) = .callout k) ∨
    ∃ known sys now, p.entry (.host i) = some (.startIo known sys now)
  | _ => False

/-- The frame size the host last read; whether what `DevChannels` returns is as it was then;
whether the host has been prompted to read it again. -/
structure HostView where
  bytesPerFrame : Option UInt32
  settled : Prop
  due : Prop

/-- The host before it has read anything. -/
def HostView.blank : HostView := ⟨none, False, True⟩

def HostView.next (g : HostView) (p : System α) (a : Act Tid Entry) (q : System α) :
    HostView where
  bytesPerFrame := (heardFormat a q).or g.bytesPerFrame
  settled := (heardFormat a q).isSome ∨ g.settled ∧ q.shared.devChannels = p.shared.devChannels
  due := heardFormat a q = none ∧ (g.due ∨ Prompts p a)

/-- A call that counts channels: a read of the format, or a read of input. -/
def Entry.Counts (e : Entry) : Prop := e.IsFormatRead ∨ ∃ n c, e = .doIo true false n c

/-- Host thread `i` is inside such a call. -/
def Counting (p : System α) (i : Nat) : Prop :=
  (∃ e, p.entry (.host i) = some e ∧ e.Counts) ∧ ∀ b, p.thread (.host i) ≠ .ret b

/-- The host reads input once it has read the format whenever it was prompted to. -/
def Diligent (g : HostView) (_ : System α) (a : Act Tid Entry) (_ : System α) : Prop :=
  ∀ i n c, a = .call (.host i) (.doIo true false n c) → g.bytesPerFrame.isSome ∧ ¬ g.due

/-- The steps in which the count does not change under the host: not inside a call that counts
channels, and not between its read of the format and a read of input. -/
def Steady (g : HostView) (p : System α) (a : Act Tid Entry) (q : System α) : Prop :=
  (q.shared.devChannels ≠ p.shared.devChannels → ∀ i, ¬ Counting p i ∧ ¬ Counting q i) ∧
    ∀ i n c, a = .call (.host i) (.doIo true false n c) → g.bytesPerFrame.isSome ∧ g.settled

/-! ## What the calls answer -/

/-- The count stays. -/
def countTerms : Terms (World α) where
  strict := False
  rely h m m' := Rely h m m' ∧ m'.devChannels = m.devChannels
  guar _ _ _ := True
  refl h m := ⟨rely_refl h m, rfl⟩
  trans h₁ h₂ := ⟨h₁.1.trans h₂.1, h₂.2.trans h₁.2⟩

/-- What a call that counts `ch` channels returns: the frame size, and the floats of `inFrames`
frames. -/
def Answered (e : Entry) (ch : UInt32) (b : Local α) : Prop :=
  (e.IsFormatRead →
    ∃ r, b = .replied (.ok r) ∧ r.bytesPerFrame = some (ch * kBytesPerSample)) ∧
  ∀ n c, e = .doIo true false n c →
    ∃ r, b = .io r ∧ r.writes.map Prod.fst = List.range (n.toNat * ch.toNat)

variable {m : World α} {ch : UInt32}

theorem safe_devChannels_count {h : Bool} (hm : m.devChannels = ch) :
    Safe countTerms (fun _ => True) (fun h' ch' _ => h' = h ∧ ch' = ch) h devChannels m := by
  refine Safe.mono ?_ (safe_devChannels (S := fun m => m.devChannels = ch)
    (fun _ => trivial) ?_ ?_ ?_ hm)
  · rintro h' ch' m' ⟨rfl, hm', hch'⟩
    exact ⟨rfl, hch'.symm.trans hm'⟩
  · rintro m m' ⟨-, hcount⟩
    exact hcount
  · rintro m m' ⟨⟨hattached, -⟩, -⟩
    exact hattached
  · rintro m m' ⟨-, hcount⟩ hm
    exact hcount.trans hm

/-- A read of the virtual format answers the frame size of the count. -/
theorem safe_formatRead {k : Sdk} {cf : Cf} {obj : UInt32} {a : Address} {q : Qualifier}
    {inSize : UInt32} (he : (Entry.getPropertyData k cf obj a q inSize).IsFormatRead) {h : Bool}
    (hm : m.devChannels = ch) :
    Safe countTerms (fun _ => True)
      (fun _ b _ => ∃ r, b = .ok r ∧ r.bytesPerFrame = some (ch * kBytesPerSample)) h
      (getPropertyData k cf obj a q inSize) m := by
  obtain ⟨rfl, helem, hsel⟩ := he
  unfold getPropertyData
  rw [if_neg (not_not.mpr helem), if_neg (by decide), if_neg (by decide), if_pos rfl, hsel,
    k.streamSel_stream]
  refine Safe.bind ((safe_devChannels_count hm).mono ?_)
  rintro h' _ m₁ ⟨rfl, rfl⟩ m₂ h₂
  exact ⟨_, rfl, rfl⟩

/-- A read of input writes the floats of its frames, by the count. -/
theorem safe_readInput [Pcm α] (n : UInt32) (c : UInt64) (hm : m.devChannels = ch) :
    Safe countTerms (fun _ => True)
      (fun _ r _ => r.writes.map Prod.fst = List.range (n.toNat * ch.toNat)) false
      (doIOOperation (α := α) true false n c) m := by
  refine Safe.bind ((safe_devChannels_count hm).mono ?_)
  rintro h' ch' m₁ ⟨rfl, hch⟩
  obtain rfl : ch = ch' := hch.symm
  refine Safe.yields (?_ : Safe countTerms (fun _ => True) Released false _ m₁) ?_
  · refine Safe.weaken (T := hostTerms False) ?_ ?_ id
      (Clean.bind (clean_rd _) (fun attached => Clean.ite (clean_ret _)
        (clean_doIOFromLoad n c ch)) m₁)
    · rintro h m m' ⟨hrely, -⟩
      exact hrely
    · exact fun _ _ _ _ => trivial
  · refine (yields_any _).bind fun attached _ => ?_
    cases attached with
    | false =>
      show (silenceCells 0 (n.toNat * ch.toNat)).map Prod.fst = _
      rw [silenceCells_fst, List.range_eq_range']
    | true => exact yields_doIOFromLoad n c ch

/-- **Every call that counts channels answers by the count it starts with**, while that stays. -/
theorem safe_counting [Pcm α] {e : Entry} (he : e.Counts) {x : Prog (World α) (Local α)}
    (hx : startHost e = some x) (hm : m.devChannels = ch) :
    Safe countTerms (fun _ => True) (fun _ b _ => Answered e ch b) false x m := by
  rcases he with hread | ⟨n, c, rfl⟩
  · cases e with
    | getPropertyData k cf obj a q inSize =>
      cases hx
      refine Safe.bind ((safe_formatRead hread hm).mono ?_)
      rintro h' b m₁ ⟨r, rfl, hr⟩ m₂ h₂
      exact ⟨fun _ => ⟨r, rfl, hr⟩, nofun⟩
    | _ => exact hread.elim
  · cases hx
    refine Safe.bind ((safe_readInput n c hm).mono ?_)
    rintro h' r m₁ hr m₂ h₂
    refine ⟨fun hread => hread.elim, ?_⟩
    rintro n' c' ⟨⟩
    exact ⟨r, rfl, hr⟩

/-! ## Runs -/

/-- What the host knows, and where its threads are. -/
structure FormatInv (g : HostView) (p : System α) : Prop where
  safe : p.Safe
  /-- While the count is as it was, the frame size last read is that of the count. -/
  view : g.settled → ∀ f, g.bytesPerFrame = some f → f = p.shared.devChannels * kBytesPerSample
  calls : ∀ i e, p.entry (.host i) = some e → e.Counts → (∀ b, p.thread (.host i) ≠ .ret b) →
    Safe countTerms (fun _ => True) (fun _ b _ => Answered e p.shared.devChannels b)
      (p.holds (.host i)) (p.thread (.host i)) p.shared
  /-- Inside a read of input nothing has changed since the host's read of the format. -/
  inside : ∀ i n c, p.entry (.host i) = some (.doIo true false n c) →
    (∀ b, p.thread (.host i) ≠ .ret b) → g.bytesPerFrame.isSome ∧ g.settled

variable {g : HostView} {p q : System α} {a : Act Tid Entry}

theorem heardFormat_eq {f : UInt32} (h : heardFormat a q = some f) :
    ∃ i e r, a = .tick (.host i) ∧ q.entry (.host i) = some e ∧ e.IsFormatRead ∧
      q.thread (.host i) = .ret (.replied (.ok r)) ∧ r.bytesPerFrame = some f := by
  unfold heardFormat at h
  split at h
  · rename_i i
    split at h
    · rename_i e r he hr
      split_ifs at h with hread
      exact ⟨i, e, r, rfl, he, hread, hr, h⟩
    · cases h
  · cases h

theorem HostView.next_isSome (h : g.bytesPerFrame.isSome) :
    (g.next p a q).bytesPerFrame.isSome := by
  show ((heardFormat a q).or g.bytesPerFrame).isSome
  cases heardFormat a q with
  | none => exact h
  | some f => rfl

/-- A step keeps what the host's last read says. -/
theorem FormatInv.next_view [Pcm α] (h : FormatInv g p) (hok : Steady g p a q)
    (hnext : p.next start a = some q) (hsettled : (g.next p a q).settled) {f : UInt32}
    (hf : (g.next p a q).bytesPerFrame = some f) :
    f = q.shared.devChannels * kBytesPerSample := by
  have hstep := step_of_next hnext
  change (heardFormat a q).or g.bytesPerFrame = some f at hf
  change (heardFormat a q).isSome ∨ _ at hsettled
  cases hheard : heardFormat a q with
  | none =>
    rw [hheard] at hf hsettled
    obtain ⟨hg, hsame⟩ := hsettled.resolve_left nofun
    rw [hsame]
    exact h.view hg f hf
  | some f' =>
    rw [hheard] at hf
    obtain ⟨i, e, r, rfl, he, hread, hr, hf'⟩ := heardFormat_eq hheard
    have hent : p.entry (.host i) = some e := by
      rw [← he]
      cases hstep <;> rfl
    have hin : ∀ b, p.thread (.host i) ≠ .ret b := fun b => hstep.not_tick
    have hsame : q.shared.devChannels = p.shared.devChannels :=
      not_not.mp fun hne => (hok.1 hne i).1 ⟨⟨e, hent, Or.inl hread⟩, hin⟩
    have hsafe := safe_tick hstep (fun _ _ => trivial) (h.calls i e hent (Or.inl hread) hin)
    rw [hr] at hsafe
    obtain ⟨r', hr', hsize⟩ := (hsafe _ (countTerms.refl _ _)).1 hread
    cases hr'
    rw [hsame]
    exact Option.some.inj (hf.symm.trans (hf'.symm.trans hsize))

theorem FormatInv.step [Pcm α] (h : FormatInv g p) (hok : Steady g p a q)
    (hnext : p.next start a = some q) : FormatInv (g.next p a q) q := by
  have hstep := step_of_next hnext
  have hsame (i : Nat) (e : Entry) (he : q.entry (.host i) = some e) (hc : e.Counts)
      (hnot : ∀ b, q.thread (.host i) ≠ .ret b) :
      q.shared.devChannels = p.shared.devChannels :=
    not_not.mp fun hne => (hok.1 hne i).2 ⟨⟨e, he, hc⟩, hnot⟩
  refine ⟨system_safe_step h.safe hnext, fun hs f => h.next_view hok hnext hs, ?_, ?_⟩
  · intro i e he hc hnot
    by_cases ha : a.by = .host i
    · cases a with
      | call t e' =>
        obtain rfl : t = .host i := ha
        cases hstep with
        | @call _ _ b x hret hx =>
          rw [begin_entry] at he
          cases he
          rw [begin_thread, show (p.begin (.host i) e x).holds (.host i) = p.holds (.host i)
            from rfl, h.safe.idle_released hret]
          exact safe_counting hc hx rfl
      | tick t =>
        obtain rfl : t = .host i := ha
        have hent : p.entry (.host i) = some e := by
          rw [← he]
          cases hstep <;> rfl
        rw [hsame i e he hc hnot]
        exact safe_tick hstep (fun _ _ => trivial)
          (h.calls i e hent hc fun b => hstep.not_tick)
    · obtain ⟨h1, h2, -, h4⟩ := hstep.other ha
      rw [hsame i e he hc hnot, h1, h4]
      exact (h.calls i e (h2 ▸ he) hc (h1 ▸ hnot)).rely
        ⟨system_rely h.safe hnext ha, hsame i e he hc hnot⟩
  · intro i n c he hnot
    have hcount := hsame i _ he (Or.inr ⟨n, c, rfl⟩) hnot
    suffices hg : g.bytesPerFrame.isSome ∧ g.settled from
      ⟨HostView.next_isSome hg.1, Or.inr ⟨hg.2, hcount⟩⟩
    by_cases ha : a.by = .host i
    · cases a with
      | call t e' =>
        obtain rfl : t = .host i := ha
        cases hstep with
        | call hret hx =>
          rw [begin_entry] at he
          cases he
          exact hok.2 i n c rfl
      | tick t =>
        obtain rfl : t = .host i := ha
        refine h.inside i n c ?_ fun b => hstep.not_tick
        rw [← he]
        cases hstep <;> rfl
    · obtain ⟨h1, h2, -, -⟩ := hstep.other ha
      exact h.inside i n c (h2 ▸ he) (h1 ▸ hnot)

theorem formatInv_run [Pcm α] {m₀ : World α} {as : List (Act Tid Entry)}
    (hrun : GhostRun start HostView.next Steady (System.init m₀) .blank as p g) :
    FormatInv g p := by
  induction hrun with
  | refl =>
    refine ⟨init_safe m₀, nofun, ?_, ?_⟩
    · intro i e he
      cases he
    · intro i n c he
      cases he
  | tail _ hok hnext ih => exact ih.step hok hnext

/-- **Format agreement**: while what `DevChannels` returns stays from the host's read of the format
to the end of its read of input, the call returns having written each float of
`inFrames * mBytesPerFrame` bytes of the buffer once, and nothing else. -/
theorem format_agreement [Pcm α] {m₀ : World α} {as : List (Act Tid Entry)} {g : HostView}
    {p q : System α} (hrun : GhostRun start HostView.next Steady (System.init m₀) .blank as p g)
    {i : Nat} (hnext : p.next start (.tick (.host i)) = some q) {n : UInt32} {cycle : UInt64}
    (hentry : q.entry (.host i) = some (.doIo true false n cycle)) {b : Local α}
    (hend : q.thread (.host i) = .ret b) :
    ∃ r f, b = .io r ∧ g.bytesPerFrame = some f ∧
      r.writes.map Prod.fst = List.range r.writes.length ∧
      4 * r.writes.length = n.toNat * f.toNat := by
  have h := formatInv_run hrun
  have hstep := step_of_next hnext
  have hent : p.entry (.host i) = some (.doIo true false n cycle) := by
    rw [← hentry]
    cases hstep <;> rfl
  have hin : ∀ b, p.thread (.host i) ≠ .ret b := fun b => hstep.not_tick
  obtain ⟨hsome, hsettled⟩ := h.inside i n cycle hent hin
  obtain ⟨f, hf⟩ := Option.isSome_iff_exists.mp hsome
  have hsafe := safe_tick hstep (fun _ _ => trivial)
    (h.calls i _ hent (Or.inr ⟨n, cycle, rfl⟩) hin)
  rw [hend] at hsafe
  obtain ⟨r, hr, hws⟩ := (hsafe _ (countTerms.refl _ _)).2 n cycle rfl
  have hlen : r.writes.length = n.toNat * p.shared.devChannels.toNat := by
    rw [← List.length_map (f := Prod.fst), hws, List.length_range]
  have hch : p.shared.devChannels.toNat ≤ 8 := clampChannels_le _
  have hfn : f.toNat = p.shared.devChannels.toNat * 4 := by
    rw [h.view hsettled f hf, UInt32.toNat_mul]
    exact Nat.mod_eq_of_lt (show p.shared.devChannels.toNat * 4 < _ by omega)
  refine ⟨r, f, hr, hf, by rw [hlen, hws], ?_⟩
  rw [hlen, hfn, Nat.mul_comm 4, Nat.mul_assoc]

/-- While the daemon rests, every step is steady but a read of input too early. -/
theorem Resting.steady [Pcm α] (h : Resting p) (ha : a.by ≠ .daemon)
    (hnext : p.next start a = some q)
    (hread : ∀ i n c, a = .call (.host i) (.doIo true false n c) →
      g.bytesPerFrame.isSome ∧ g.settled) : Steady g p a q := by
  obtain ⟨-, -, hcount⟩ := h.step ha hnext
  exact ⟨fun hne => absurd hcount hne, hread⟩

/-- A read of the virtual format. -/
def readFormat : Entry :=
  .getPropertyData numberedSdk .utf8 kObjectIDStreamInput
    ⟨numberedSdk.stream .virtualFormat, numberedSdk.scopeGlobal, numberedSdk.elementMain⟩
    ⟨0, none⟩ sizeofASBD

/-- A read of input tells the host nothing about the format. -/
theorem HostView.next_of_doIo [Pcm α] {i : Nat} {r o : Bool} {n : UInt32} {c : UInt64}
    {f : UInt32} (hentry : p.entry (.host i) = some (.doIo r o n c))
    (hf : g.bytesPerFrame = some f) (hnext : p.next start (.tick (.host i)) = some q) :
    (g.next p (.tick (.host i)) q).bytesPerFrame = some f ∧
      q.entry (.host i) = some (.doIo r o n c) := by
  have hent : q.entry (.host i) = some (.doIo r o n c) := by
    rw [← hentry]
    cases step_of_next hnext <;> rfl
  have hnone : heardFormat (.tick (.host i)) q = none := by
    cases hheard : heardFormat (.tick (.host i)) q with
    | none => rfl
    | some f' =>
      obtain ⟨j, e, -, hj, he, hread, -⟩ := heardFormat_eq hheard
      cases hj
      rw [hent] at he
      cases he
      exact hread.elim
  refine ⟨?_, hent⟩
  show (heardFormat _ _).or _ = _
  rw [hnone]
  exact hf

theorem format_agreement_idle : ∃ (q : System ℚ) (r : IOResult ℚ),
    q.thread (.host 0) = .ret (.io r) ∧ 4 * r.writes.length = 32 := by
  obtain ⟨p₁, p₂, p₃, p, q, h₁, h₂, hheard, h₃, hentry, h₄, h₅, b, hend⟩ :
      ∃ p₁ p₂ p₃ p q : System ℚ,
        runActs start [.call (.host 0) readFormat, .tick (.host 0)] (System.init attachedIdle) =
          some p₁ ∧
        p₁.next start (.tick (.host 0)) = some p₂ ∧
        heardFormat (.tick (.host 0)) p₂ = some 32 ∧
        p₂.next start (.call (.host 0) (.doIo true false 1 7)) = some p₃ ∧
        p₃.entry (.host 0) = some (.doIo true false 1 7) ∧
        runActs start (List.replicate 9 (.tick (.host 0))) p₃ = some p ∧
        p.next start (.tick (.host 0)) = some q ∧ ∃ b, q.thread (.host 0) = .ret b :=
    ⟨_, _, _, _, _, rfl, rfl, rfl, rfl, rfl, rfl, rfl, _, rfl⟩
  -- the host reads the format
  have hrest₀ : Resting (System.init attachedIdle) := ⟨init_safe _, rfl, _, rfl⟩
  obtain ⟨g₁, hrun₁, hrest₁⟩ : ∃ g, GhostRun start HostView.next Steady
      (System.init attachedIdle) .blank [.call (.host 0) readFormat, .tick (.host 0)] p₁ g ∧
        Resting p₁ :=
    GhostRun.of_run (P := fun _ p => Resting p)
      (L := fun a => a = .call (.host 0) readFormat ∨ a = .tick (.host 0)) (run_of_runActs h₁)
      hrest₀ (by simp) fun g p a q hp ha hnext => by
      have hby : a.by ≠ .daemon := by rcases ha with rfl | rfl <;> decide
      exact ⟨hp.steady hby hnext (by rcases ha with rfl | rfl <;> nofun), (hp.step hby hnext).1⟩
  have hrun₂ := hrun₁.tail (hrest₁.steady (by decide) h₂ nofun) h₂
  have hrest₂ := (hrest₁.step (by decide) h₂).1
  have hbytes : (g₁.next p₁ (.tick (.host 0)) p₂).bytesPerFrame = some 32 := by
    show (heardFormat _ _).or _ = _
    rw [hheard]
    rfl
  have hsettled : (g₁.next p₁ (.tick (.host 0)) p₂).settled := Or.inl (by rw [hheard]; rfl)
  -- then it reads input
  have hsteady := hrest₂.steady (a := .call (.host 0) (.doIo true false 1 7))
    (g := g₁.next p₁ (.tick (.host 0)) p₂) (by decide) h₃ fun _ _ _ _ =>
      ⟨by rw [hbytes]; rfl, hsettled⟩
  have hrest₃ := (hrest₂.step (by decide) h₃).1
  obtain ⟨g₃, hrun₃, hbytes₃⟩ : ∃ g, GhostRun start HostView.next Steady
      (System.init attachedIdle) .blank _ p₃ g ∧ g.bytesPerFrame = some 32 :=
    ⟨_, hrun₂.tail hsteady h₃, hbytes⟩
  obtain ⟨g, hrun, -, hf, hent⟩ : ∃ g, GhostRun start HostView.next Steady p₃ g₃
      (List.replicate 9 (.tick (.host 0))) p g ∧ Resting p ∧ g.bytesPerFrame = some 32 ∧
        p.entry (.host 0) = some (.doIo true false 1 7) :=
    GhostRun.of_run (P := fun (g : HostView) p => Resting p ∧ g.bytesPerFrame = some 32 ∧
      p.entry (.host 0) = some (.doIo true false 1 7)) (L := fun a => a = .tick (.host 0))
      (run_of_runActs h₄) ⟨hrest₃, hbytes₃, hentry⟩ (fun a => List.eq_of_mem_replicate)
      fun g p a q hp ha hnext => by
      subst ha
      exact ⟨hp.1.steady (by decide) hnext nofun, (hp.1.step (by decide) hnext).1,
        HostView.next_of_doIo hp.2.2 hp.2.1 hnext⟩
  obtain ⟨r, f, hr, hf', -, hlen⟩ := format_agreement (hrun₃.append hrun) h₅
    (HostView.next_of_doIo hent hf h₅).2 hend
  rw [hf] at hf'
  cases hf'
  exact ⟨q, r, hr ▸ hend, hlen⟩

/-- The daemon tells the host nothing. -/
theorem HostView.next_of_daemon (h : a.by = .daemon) :
    (g.next p a q).bytesPerFrame = g.bytesPerFrame ∧ ((g.next p a q).due → g.due) := by
  cases a with
  | call t e => exact ⟨rfl, fun hdue => hdue.2.resolve_right id⟩
  | tick t =>
    obtain rfl : t = .daemon := h
    exact ⟨rfl, fun hdue => hdue.2.resolve_right id⟩

/-- The host starts IO on a device of one channel and comes to the end of its read of the
format. -/
def monoFormat : List (Act Tid Entry) :=
  .call .daemon (.create monoDevice 258 .fine) :: List.replicate 10 (.tick .daemon) ++
    .call (.host 0) (.startIo true .fine 7) :: List.replicate 9 (.tick (.host 0)) ++
    [.call (.host 0) readFormat, .tick (.host 0)]

/-- The daemon creates the segment for a device of two channels. -/
def toStereo : List (Act Tid Entry) :=
  .call .daemon (.create dualDevice 258 .fine) :: List.replicate 10 (.tick .daemon)

/-- The device of one channel is swapped for one of two after the host's read of the format, and
the host, told nothing, reads input: its buffer of 4 bytes a frame gets 8. -/
theorem swapped_call_overruns : ¬ ∀ (T : Table) (m₀ : World ℚ) (as : List (Act Tid Entry))
    (g : HostView) (p q : System ℚ) (i : Nat) (n : UInt32) (cycle : UInt64) (r : IOResult ℚ)
    (f : UInt32),
    GhostRun start HostView.next (fun g p a q => FromTable T p a ∧ Diligent g p a q)
        (System.init m₀) .blank as p g →
      p.next start (.tick (.host i)) = some q →
      q.entry (.host i) = some (.doIo true false n cycle) → q.thread (.host i) = .ret (.io r) →
      g.bytesPerFrame = some f → 4 * r.writes.length = n.toNat * f.toNat := by
  intro h
  obtain ⟨p₁, p₂, p₃, p₄, p, q, h₁, h₂, hheard, h₃, h₄, hentry, h₅, h₆, hend⟩ :
      ∃ p₁ p₂ p₃ p₄ p q : System ℚ,
        runActs start monoFormat (System.init attachedIdle) = some p₁ ∧
        p₁.next start (.tick (.host 0)) = some p₂ ∧
        heardFormat (.tick (.host 0)) p₂ = some 4 ∧
        runActs start toStereo p₂ = some p₃ ∧
        p₃.next start (.call (.host 0) (.doIo true false 1 7)) = some p₄ ∧
        p₄.entry (.host 0) = some (.doIo true false 1 7) ∧
        runActs start (List.replicate 10 (.tick (.host 0))) p₄ = some p ∧
        p.next start (.tick (.host 0)) = some q ∧
        q.thread (.host 0) = .ret (.io (.read 2 0 0 true [(0, 0), (1, 0)])) :=
    ⟨_, _, _, _, _, _, rfl, rfl, rfl, rfl, rfl, rfl, rfl, rfl, rfl⟩
  let ok := fun (g : HostView) (p : System ℚ) a q => FromTable monoDual p a ∧ Diligent g p a q
  -- the host starts IO and reads the format
  have hL₁ : ∀ a ∈ monoFormat, FromTable monoDual p₁ a ∧
      ∀ i n c, a ≠ .call (.host i) (.doIo true false n c) := by
    intro a ha
    simp only [monoFormat, List.cons_append, List.mem_cons, List.mem_append, List.mem_replicate,
      List.not_mem_nil, or_false, or_assoc] at ha
    rcases ha with rfl | ⟨-, rfl⟩ | rfl | ⟨-, rfl⟩ | rfl | rfl
    · refine ⟨?_, nofun⟩
      rintro t d latency sys ⟨⟩
      exact .head _
    all_goals exact ⟨nofun, nofun⟩
  obtain ⟨g₁, hrun₁, -⟩ : ∃ g, GhostRun start HostView.next ok (System.init attachedIdle) .blank
      monoFormat p₁ g ∧ True :=
    GhostRun.of_run (P := fun _ _ => True) (run_of_runActs h₁) trivial hL₁
      fun g p a q _ ha hnext => ⟨⟨ha.1, fun i n c h => absurd h (ha.2 i n c)⟩, trivial⟩
  obtain ⟨g₂, hrun₂, hbytes₂, hdue₂⟩ : ∃ g, GhostRun start HostView.next ok
      (System.init attachedIdle) .blank _ p₂ g ∧ g.bytesPerFrame = some 4 ∧ ¬ g.due := by
    have hok : ok g₁ p₁ (.tick (.host 0)) p₂ := ⟨nofun, nofun⟩
    refine ⟨_, hrun₁.tail hok h₂, ?_, fun hdue => ?_⟩
    · show (heardFormat _ _).or _ = _
      rw [hheard]
      rfl
    · exact nomatch hheard.symm.trans hdue.1
  -- the daemon swaps the device
  have hL₂ : ∀ a ∈ toStereo, FromTable monoDual p₁ a ∧ a.by = .daemon := by
    intro a ha
    simp only [toStereo, List.mem_cons, List.mem_replicate] at ha
    rcases ha with rfl | ⟨-, rfl⟩
    · refine ⟨?_, rfl⟩
      rintro t d latency sys ⟨⟩
      exact .tail _ (.head _)
    · exact ⟨nofun, rfl⟩
  obtain ⟨g₃, hrun₃, hbytes₃, hdue₃⟩ : ∃ g, GhostRun start HostView.next ok p₂ g₂ toStereo p₃ g ∧
      g.bytesPerFrame = some 4 ∧ ¬ g.due :=
    GhostRun.of_run (P := fun (g : HostView) _ => g.bytesPerFrame = some 4 ∧ ¬ g.due)
      (run_of_runActs h₃) ⟨hbytes₂, hdue₂⟩ hL₂ fun g p a q hp ha hnext => by
      obtain ⟨hb, hd⟩ := HostView.next_of_daemon (g := g) (p := p) (q := q) ha.2
      refine ⟨⟨ha.1, ?_⟩, hb.trans hp.1, hp.2 ∘ hd⟩
      rintro i n c rfl
      cases ha.2
  -- the host reads input
  have hok₄ : ok g₃ p₃ (.call (.host 0) (.doIo true false 1 7)) p₄ :=
    ⟨nofun, fun _ _ _ _ => ⟨by rw [hbytes₃]; rfl, hdue₃⟩⟩
  obtain ⟨g₄, hrun₄, hbytes₄⟩ : ∃ g, GhostRun start HostView.next ok p₂ g₂ _ p₄ g ∧
      g.bytesPerFrame = some 4 :=
    ⟨_, hrun₃.tail hok₄ h₄, hbytes₃⟩
  obtain ⟨g₅, hrun₅, hbytes₅, hent⟩ : ∃ g, GhostRun start HostView.next ok p₄ g₄
      (List.replicate 10 (.tick (.host 0))) p g ∧ g.bytesPerFrame = some 4 ∧
        p.entry (.host 0) = some (.doIo true false 1 7) :=
    GhostRun.of_run (P := fun (g : HostView) p => g.bytesPerFrame = some 4 ∧
      p.entry (.host 0) = some (.doIo true false 1 7)) (L := fun a => a = .tick (.host 0))
      (run_of_runActs h₅) ⟨hbytes₄, hentry⟩ (fun a => List.eq_of_mem_replicate)
      fun g p a q hp ha hnext => by
      subst ha
      exact ⟨⟨nofun, nofun⟩, HostView.next_of_doIo hp.2 hp.1 hnext⟩
  have := h monoDual _ _ _ _ _ _ _ _ _ _ ((hrun₂.append hrun₄).append hrun₅) h₆
    (HostView.next_of_doIo hent hbytes₅ h₆).2 hend hbytes₅
  revert this
  decide

end Line6
