import Line6.Plugin.Call
import Line6.System.Footprint

/-!
# The clients of one IO cycle

The plugin keeps the window of a cycle in `gCycleReadFrame`, so that several clients that call
`DoIOOperation` in one cycle read the same position. Each call loads a write head of its own, and
decides by it which frames of the window are silent. `CycleView` follows, beside a run, the head
each client loaded and what the finished calls returned.

* `safe_fromHead`: a call, from its load on, reads the window of the cycle as it stands.
* `CycleInv.step`: the cursor moves once, and the finished calls have the frames of one window.
* `clients_hear_same_iff`: the cursor moves exactly once, and two clients get the same buffer
  exactly if the heads they loaded cut the window alike, or what lies between them is silent.
* `clients_hear_different`: a cycle of a stream that has just started, in which they do not.
-/

namespace Line6

open Conc Conc.Prog Conc.Pool

variable {α : Type}

/-! ## The window of a cycle -/

/-- The ring cell of channel `c` of frame `k` of a window. -/
def windowCell (ch : Nat) (rf : UInt64) (k c : Nat) : Nat :=
  ((rf + UInt64.ofNat k) &&& ringMask).toNat * ch + c

/-- The cells of a window of `n` frames are as they were. -/
def SameWindow (n ch : Nat) (rf : UInt64) (m m' : World α) : Prop :=
  ∀ k < n, ∀ c < ch, m'.shm.ring (windowCell ch rf k c) = m.shm.ring (windowCell ch rf k c)

theorem SameWindow.trans {n ch : Nat} {rf : UInt64} {m m' m'' : World α}
    (h : SameWindow n ch rf m m') (h' : SameWindow n ch rf m' m'') : SameWindow n ch rf m m'' :=
  fun k hk c hc => (h' k hk c hc).trans (h k hk c hc)

theorem SameWindow.frameOut [Pcm α] {n ch : Nat} {rf : UInt64} {m m' : World α}
    (h : SameWindow n ch rf m m') (w : UInt64) {k : Nat} (hk : k < n) :
    frameOut m' ch w rf k = frameOut m ch w rf k := by
  unfold Line6.frameOut
  split_ifs
  · refine List.map_congr_left fun c hc => ?_
    exact congrArg _ (h k hk c (List.mem_range.mp hc))
  · rfl

/-- The buffer of a call that loaded the head `w`. -/
def windowOut [Pcm α] (m : World α) (n ch : Nat) (w rf : UInt64) : List (Nat × α) :=
  (List.range n).flatMap (frameOut m ch w rf)

theorem SameWindow.windowOut [Pcm α] {n ch : Nat} {rf : UInt64} {m m' : World α}
    (h : SameWindow n ch rf m m') (w : UInt64) :
    windowOut m' n ch w rf = windowOut m n ch w rf := by
  unfold Line6.windowOut
  rw [← List.flatMap_congr]
  exact fun k hk => (h.frameOut w (List.mem_range.mp hk)).symm

/-- The heads `w` and `w'` cut the window alike, or what lies between them is silent. -/
def SameCut [Pcm α] (m : World α) (n ch : Nat) (rf w w' : UInt64) : Prop :=
  ∀ k < n, (rf + UInt64.ofNat k < w ↔ rf + UInt64.ofNat k < w') ∨
    ∀ c < ch, m.shm.ring (windowCell ch rf k c) = Pcm.silence

theorem frameOut_length [Pcm α] (m : World α) (ch : Nat) (w rf : UInt64) (k : Nat) :
    (frameOut m ch w rf k).length = ch := by
  unfold frameOut silenceCells
  split_ifs <;> simp

theorem frameOut_eq_iff [Pcm α] {m : World α} {ch : Nat} {w w' rf : UInt64} {k : Nat} :
    frameOut m ch w rf k = frameOut m ch w' rf k ↔
      (rf + UInt64.ofNat k < w ↔ rf + UInt64.ofNat k < w') ∨
        ∀ c < ch, m.shm.ring (windowCell ch rf k c) = Pcm.silence := by
  have hsilent : ((List.range ch).map fun c => (k * ch + c, m.shm.ring (windowCell ch rf k c))) =
      silenceCells (k * ch) ch ↔ ∀ c < ch, m.shm.ring (windowCell ch rf k c) = Pcm.silence := by
    simp [silenceCells]
  unfold frameOut
  by_cases hw : rf + UInt64.ofNat k < w <;> by_cases hw' : rf + UInt64.ofNat k < w'
  · simp [hw, hw']
  · rw [if_pos hw, if_neg hw']
    exact hsilent.trans (by simp [hw, hw'])
  · rw [if_neg hw, if_pos hw', eq_comm]
    exact hsilent.trans (by simp [hw, hw'])
  · simp [hw, hw']

/-- Lists put together of pieces of the same lengths are equal if the pieces are. -/
theorem flatMap_range_eq_iff {β : Type} {f g : Nat → List β}
    (hlen : ∀ k, (f k).length = (g k).length) {n : Nat} :
    (List.range n).flatMap f = (List.range n).flatMap g ↔ ∀ k < n, f k = g k := by
  induction n with
  | zero => simp
  | succ n ih =>
    rw [List.range_succ, List.flatMap_append, List.flatMap_append, Nat.forall_lt_succ_right, ← ih]
    constructor
    · intro h
      obtain ⟨hinit, hlast⟩ := List.append_inj' h (by simpa using hlen n)
      exact ⟨hinit, by simpa using hlast⟩
    · rintro ⟨hinit, hlast⟩
      rw [hinit]
      simp [hlast]

/-- **Two clients get the same buffer** exactly if their heads cut the window alike, or what lies
between them is silent. -/
theorem windowOut_eq_iff [Pcm α] {m : World α} {n ch : Nat} {rf w w' : UInt64} :
    windowOut m n ch w rf = windowOut m n ch w' rf ↔ SameCut m n ch rf w w' := by
  unfold windowOut SameCut
  rw [flatMap_range_eq_iff fun k => by rw [frameOut_length, frameOut_length]]
  exact forall₂_congr fun k _ => frameOut_eq_iff

/-! ## A call, while the others keep to the cycle -/

/-- The cursor has moved for the cycle. -/
def World.Moved (cycle : UInt64) (m : World α) : Prop := m.plug.cursor.gLastCycle = cycle

theorem World.Moved.of_cursor {cycle : UInt64} {m m' : World α} (hm : m.Moved cycle)
    (hcursor : m'.plug.cursor = m.plug.cursor) : m'.Moved cycle :=
  (congrArg Cursor.gLastCycle hcursor).trans hm

/-- What the others do to a call of the cycle: they leave the cursor alone once it has moved, and
while the call holds the mutex, and the window as it is. The call moves the cursor if it has not
moved, by the head it loaded. -/
def clientTerms (n : UInt32) (cycle : UInt64) (ch : Nat) (w : UInt64) : Terms (World α) where
  strict := False
  rely h m m' := (h = true → m'.plug.cursor = m.plug.cursor) ∧
    (m.Moved cycle → m'.plug.cursor = m.plug.cursor ∧
      SameWindow n.toNat ch m.plug.cursor.gCycleReadFrame m m')
  guar _ m m' := m'.plug.cursor = m.plug.cursor ∨
    ¬ m.Moved cycle ∧ ∃ margin, m'.plug.cursor = m.plug.cursor.move n margin cycle w
  refl _ _ := ⟨fun _ => rfl, fun _ => ⟨rfl, fun _ _ _ _ => rfl⟩⟩
  trans h₁ h₂ := by
    refine ⟨fun h => (h₂.1 h).trans (h₁.1 h), fun hm => ?_⟩
    obtain ⟨hcursor, hwindow⟩ := h₁.2 hm
    obtain ⟨hcursor', hwindow'⟩ := h₂.2 (hm.of_cursor hcursor)
    exact ⟨hcursor'.trans hcursor, hwindow.trans (hcursor ▸ hwindow')⟩

/-- The window of the cycle stands, with the cells it had in `m₀`. -/
structure Stands (n : UInt32) (cycle : UInt64) (ch : Nat) (rf : UInt64) (m₀ m : World α) : Prop where
  moved : m.Moved cycle
  start : m.plug.cursor.gCycleReadFrame = rf
  cells : SameWindow n.toNat ch rf m₀ m

section

variable {n : UInt32} {cycle : UInt64} {ch : Nat} {w rf : UInt64} {h : Bool} {m₀ m m' : World α}

theorem Stands.rely (hm : Stands n cycle ch rf m₀ m)
    (hrely : (clientTerms n cycle ch w).rely h m m') : Stands n cycle ch rf m₀ m' := by
  obtain ⟨hcursor, hcells⟩ := hrely.2 hm.moved
  rw [hm.start] at hcells
  refine ⟨hm.moved.of_cursor hcursor, ?_, hm.cells.trans hcells⟩
  rw [hcursor]
  exact hm.start

end

/-- How a call of the cycle ends: with the window of the cycle, cut by the head it loaded. -/
def Delivered [Pcm α] (n : UInt32) (cycle : UInt64) (ch : UInt32) (w : UInt64) (r : IOResult α)
    (m : World α) : Prop :=
  m.Moved cycle ∧ ∃ first, r = .read ch w m.plug.cursor.gCycleReadFrame first
    (windowOut m n.toNat ch.toNat w m.plug.cursor.gCycleReadFrame)

theorem Delivered.rely [Pcm α] {n : UInt32} {cycle : UInt64} {ch : UInt32} {w w' : UInt64}
    {r : IOResult α} {h : Bool} {m m' : World α} (hr : Delivered n cycle ch w r m)
    (hrely : (clientTerms n cycle ch.toNat w').rely h m m') : Delivered n cycle ch w r m' := by
  obtain ⟨hmoved, first, rfl⟩ := hr
  obtain ⟨hcursor, hcells⟩ := hrely.2 hmoved
  refine ⟨hmoved.of_cursor hcursor, first, ?_⟩
  rw [hcursor, hcells.windowOut]

/-- **A call of the cycle, from its load on.** -/
theorem safe_fromHead [Pcm α] (n : UInt32) (cycle : UInt64) (ch : UInt32) (w : UInt64)
    (m : World α) :
    Safe (clientTerms n cycle ch.toNat w) (fun _ => True)
      (fun _ r m' => Delivered n cycle ch w r m') false
      (do
        let (rf, first) ← cursorSection n cycle w
        let writes ← copyFrames ch.toNat w rf n.toNat 0
        return IOResult.read ch w rf first writes) m := by
  have hguar (h : Bool) (m : World α) : (clientTerms n cycle ch.toNat w).guar h m m := .inl rfl
  refine Safe.bind ((safe_cursorSection (S := fun _ => True) id (hguar true) (fun _ _ _ _ => id)
    (fun _ _ hr => hr.1 rfl) (fun _ margin _ hnot => ⟨.inr ⟨hnot, margin, rfl⟩, trivial⟩)
    trivial).mono ?_)
  rintro h' ⟨rf, first⟩ m₂ ⟨rfl, -, m₁, hrely, hcursor⟩
  have hm₂ : Stands n cycle ch.toNat rf m₁ m₂ :=
    Stands.rely ⟨hcursor.last, hcursor.start, fun _ _ _ _ => rfl⟩ hrely
  refine Safe.bind ((safe_copyFrames (hguar false) (fun _ _ hr hm => hm.rely hr)
    (fun i hi _ m c hm hc => hm.cells i hi c hc) (Nat.zero_add _) hm₂).mono ?_)
  rintro h' ws m₃ ⟨rfl, hm₃, rfl⟩ m₄ h₄
  have hm₄ := hm₃.rely h₄
  refine ⟨hm₄.moved, first, ?_⟩
  rw [hm₄.start, hm₄.cells.windowOut, ← List.range_eq_range']
  rfl

/-! ## A call up to its load -/

/-- `DoIOOperation` after `DevChannels`. -/
def doIOFromCount [Pcm α] (n : UInt32) (cycle : UInt64) (ch : UInt32) :
    Prog (World α) (IOResult α) := do
  if !(← rd fun m => m.plug.gShm) then
    return .detached ch (silenceCells 0 (n.toNat * ch.toNat))
  doIOFromLoad n cycle ch

/-- What is left of a call of an attached plugin after `k` actions, up to its load of the write
head. -/
def leftToLoad [Pcm α] (n : UInt32) (cycle : UInt64) (ch : UInt32) :
    Nat → Prog (World α) (Local α)
  | 0 => doIOOperation true false n cycle >>= fun r => ret (.io r)
  | 1 => (do doIOFromCount n cycle (clampChannels (← rd fun m => m.shm.channels))) >>=
      fun r => ret (.io r)
  | 2 => doIOFromCount n cycle ch >>= fun r => ret (.io r)
  | _ => doIOFromLoad n cycle ch >>= fun r => ret (.io r)

theorem leftToLoad_step [Pcm α] (n : UInt32) (cycle : UInt64) (ch : UInt32) {k : Nat}
    (hk : k < 3) : ∃ f, leftToLoad (α := α) n cycle ch k = .access id f ∧
      ∀ m, m.plug.gShm = true → m.devChannels = ch → f m = leftToLoad n cycle ch (k + 1) := by
  match k, hk with
  | 0, _ =>
    refine ⟨_, rfl, fun m hm _ => ?_⟩
    dsimp only
    rw [hm]
    rfl
  | 1, _ =>
    refine ⟨_, rfl, fun m hm hch => ?_⟩
    unfold World.devChannels at hch
    rw [if_pos hm] at hch
    show doIOFromCount n cycle (clampChannels m.shm.channels) >>= _ = _
    rw [hch]
    rfl
  | 2, _ =>
    refine ⟨_, rfl, fun m hm _ => ?_⟩
    dsimp only
    rw [hm]
    rfl

/-- No call returns before its load. -/
theorem leftToLoad_ne [Pcm α] (n : UInt32) (cycle : UInt64) (ch : UInt32) (k : Nat)
    (b : Local α) : leftToLoad n cycle ch k ≠ .ret b := by
  match k with
  | 0 => exact nofun
  | 1 => exact nofun
  | 2 => exact nofun
  | _ + 3 => exact nofun

/-! ## The calls of a cycle -/

/-- The head each thread loaded last; the `ReadInput` calls that returned, each with the head it
loaded; how often the cursor moved. -/
structure CycleView (α : Type) where
  head : Tid → UInt64 := fun _ => 0
  finished : List (UInt64 × IOResult α) := []
  moves : Nat := 0

/-- An action of thread `t` in a `ReadInput` call: the fourth one loads the write head. -/
def CycleView.act (g : CycleView α) (p : System α) (t : Tid) (q : System α) : CycleView α :=
  if p.age t = 3 then { g with head := Function.update g.head t p.shared.shm.writeFrames }
  else
    match q.thread t with
    | .ret (.io r) => { g with finished := g.finished ++ [(g.head t, r)] }
    | _ => g

def CycleView.next (g : CycleView α) (p : System α) (a : Act Tid Entry) (q : System α) :
    CycleView α :=
  let g := if q.shared.plug.cursor = p.shared.plug.cursor then g else { g with moves := g.moves + 1 }
  match a with
  | .tick t =>
    match p.entry t with
    | some (.doIo true false _ _) => g.act p t q
    | _ => g
  | .call _ _ => g

/-- A cycle may begin: the plugin is attached, the counter is a new one, and nobody is inside
`StartIO` or `DoIOOperation`. -/
structure CycleBegins (cycle : UInt64) (p : System α) : Prop where
  attached : p.shared.plug.gShm = true
  counter : cycle ≠ p.shared.plug.cursor.gLastCycle
  nobody : ∀ t e, p.entry t = some e → e.MovesCursor → ∃ b, p.thread t = .ret b

/-- The steps of a cycle: IO is not started, the clients call with one counter and one size, the
channel count stays, and nobody stores in the window once it is known. -/
structure OneCycle (n : UInt32) (cycle : UInt64) (_ : CycleView α) (p : System α)
    (a : Act Tid Entry) (q : System α) : Prop where
  started : ∀ t known sys now, a ≠ .call t (.startIo known sys now)
  alike : ∀ t n' cycle', a = .call t (.doIo true false n' cycle') → n' = n ∧ cycle' = cycle
  count : q.shared.devChannels = p.shared.devChannels
  window : p.shared.Moved cycle → SameWindow n.toNat p.shared.devChannels.toNat
    p.shared.plug.cursor.gCycleReadFrame p.shared q.shared

/-- Where thread `t` stands: in no call that moves the cursor, at its end, or in a `ReadInput` call
of the cycle, before its load or after it. -/
inductive ClientAt [Pcm α] (n : UInt32) (cycle : UInt64) (ch : UInt32) (w : UInt64)
    (p : System α) (t : Tid) : Prop
  | outside (he : ∀ e, p.entry t = some e → ¬ e.MovesCursor)
  | returned {b : Local α} (hret : p.thread t = .ret b)
  | starting (he : p.entry t = some (.doIo true false n cycle)) (hage : p.age t ≤ 3)
      (hfree : p.holds t = false) (hprog : p.thread t = leftToLoad n cycle ch (p.age t))
  | reading (he : p.entry t = some (.doIo true false n cycle)) (hage : 3 < p.age t)
      (hsafe : Safe (clientTerms n cycle ch.toNat w) (fun _ => True)
        (fun _ b m => ∃ r, b = Local.io r ∧ Delivered n cycle ch w r m)
        (p.holds t) (p.thread t) p.shared)

/-- What holds in every state of a cycle that began with the cursor `c₀`. -/
structure CycleInv [Pcm α] (n : UInt32) (cycle : UInt64) (ch : UInt32) (c₀ : Cursor)
    (g : CycleView α) (p : System α) : Prop where
  safe : p.Safe
  within : p.Within
  attached : p.shared.plug.gShm = true
  count : p.shared.devChannels = ch
  client : ∀ t, ClientAt n cycle ch (g.head t) p t
  cursor : (g.moves = 0 ∧ p.shared.plug.cursor = c₀) ∨
    g.moves = 1 ∧ ∃ margin w, p.shared.plug.cursor = c₀.move n margin cycle w
  finished : ∀ x ∈ g.finished, Delivered n cycle ch x.1 x.2 p.shared

section

variable [Pcm α] {n : UInt32} {cycle : UInt64} {ch : UInt32} {c₀ : Cursor} {g : CycleView α}
  {p q : System α} {a : Act Tid Entry} {t : Tid}

/-- An action before the load only reads. -/
theorem step_leftToLoad (hprog : p.thread t = leftToLoad n cycle ch (p.age t))
    (hattached : p.shared.plug.gShm = true) (hcount : p.shared.devChannels = ch)
    (hage : p.age t < 3) (hstep : Step start p (.tick t) q) :
    q.thread t = leftToLoad n cycle ch (q.age t) ∧ q.age t = p.age t + 1 ∧
      q.shared = p.shared ∧ q.holds t = p.holds t := by
  obtain ⟨f, hf, hnext⟩ := leftToLoad_step (α := α) n cycle ch hage
  rw [hf] at hprog
  obtain ⟨hthread, -, hage', hshared⟩ := hstep.of_access hprog
  refine ⟨?_, hage', hshared, hstep.holds_of_access hprog⟩
  rw [hthread, hage']
  exact hnext _ hattached hcount

/-- **The cursor moves only from where the last cycle left it.** -/
theorem CycleInv.moves (h : CycleInv n cycle ch c₀ g p) (hnext : p.next start a = some q) :
    q.shared.plug.cursor = p.shared.plug.cursor ∨ ¬ p.shared.Moved cycle ∧
      ∃ margin w, q.shared.plug.cursor = p.shared.plug.cursor.move n margin cycle w := by
  have hstep := step_of_next hnext
  cases a with
  | call t e =>
    cases hstep
    exact .inl rfl
  | tick t =>
    cases h.client t with
    | outside he =>
      obtain ⟨e, hentry, heffect⟩ := h.within.tick hnext
      exact .inl (heffect.cursor.resolve_right (he e hentry))
    | returned hret => exact absurd hret hstep.not_tick
    | starting he hage hfree hprog =>
      rcases hage.lt_or_eq with hlt | hlast
      · obtain ⟨-, -, hshared, -⟩ := step_leftToLoad hprog h.attached h.count hlt hstep
        exact .inl (by rw [hshared])
      · rw [hlast] at hprog
        obtain ⟨-, -, -, hshared⟩ := hstep.of_access hprog
        exact .inl (by rw [hshared]; rfl)
    | reading he hage hsafe =>
      have hrefl (held : Bool) (m : World α) :
          (clientTerms n cycle ch.toNat (g.head t)).guar held m m := Or.inl rfl
      rcases safe_guar hrefl hstep hsafe with hsame | ⟨hnot, margin, hmove⟩
      · exact .inl hsame
      · exact .inr ⟨hnot, margin, _, hmove⟩

/-- **What a step does to a call of the cycle** by somebody else. -/
theorem CycleInv.rely (h : CycleInv n cycle ch c₀ g p) (hok : OneCycle n cycle g p a q)
    (hnext : p.next start a = some q) (held : Bool) (w : UInt64)
    (hheld : held = true → q.shared.plug.cursor = p.shared.plug.cursor) :
    (clientTerms n cycle ch.toNat w).rely held p.shared q.shared := by
  refine ⟨hheld, fun hmoved => ⟨?_, h.count ▸ hok.window hmoved⟩⟩
  rcases h.moves hnext with hsame | ⟨hnot, -⟩
  · exact hsame
  · exact absurd hmoved hnot

omit [Pcm α] in
theorem CycleView.moves_eq : (if q.shared.plug.cursor = p.shared.plug.cursor then g
    else { g with moves := g.moves + 1 }) = { g with moves :=
      if q.shared.plug.cursor = p.shared.plug.cursor then g.moves else g.moves + 1 } := by
  split_ifs <;> rfl

omit [Pcm α] in
theorem CycleView.next_other (ht : a.by ≠ t) : (g.next p a q).head t = g.head t := by
  have hact (u : Tid) (g : CycleView α) (hu : u ≠ t) : (g.act p u q).head t = g.head t := by
    unfold CycleView.act
    split_ifs
    · exact Function.update_of_ne hu.symm ..
    · split <;> rfl
  unfold CycleView.next
  rw [moves_eq]
  cases a with
  | call u e => rfl
  | tick u =>
    dsimp only
    split
    · exact hact u _ ht
    · rfl

omit [Pcm α] in
/-- The fourth action of a call loads the head. -/
theorem CycleView.next_head {n' : UInt32} {cycle' : UInt64}
    (hentry : p.entry t = some (.doIo true false n' cycle')) :
    (g.next p (.tick t) q).head t =
      if p.age t = 3 then p.shared.shm.writeFrames else g.head t := by
  unfold CycleView.next CycleView.act
  rw [moves_eq]
  dsimp only
  rw [hentry]
  dsimp only
  by_cases hage : p.age t = 3
  · rw [if_pos hage, if_pos hage]
    exact Function.update_self ..
  · rw [if_neg hage, if_neg hage]
    split <;> rfl

/-- A call a thread is given in the cycle. -/
theorem CycleInv.client_call (h : CycleInv n cycle ch c₀ g p) {e : Entry}
    (hok : OneCycle n cycle g p (.call t e) q) (hnext : p.next start (.call t e) = some q)
    (w : UInt64) : ClientAt n cycle ch w q t := by
  have hstep := step_of_next hnext
  cases hstep with
  | @call _ _ b k hret hk =>
    by_cases he : e.MovesCursor
    swap
    · refine .outside fun e' he' => ?_
      rw [begin_entry] at he'
      cases he'
      exact he
    cases t with
    | daemon => cases e <;> first | exact he.elim | cases hk
    | monitor => cases e <;> first | exact he.elim | cases hk
    | host i =>
      cases e with
      | startIo known sys now => exact absurd rfl (hok.started _ known sys now)
      | doIo readInput outNull n' cycle' =>
        cases hk
        cases readInput with
        | false => exact .returned (begin_thread ..)
        | true =>
          cases outNull with
          | true => exact .returned (begin_thread ..)
          | false =>
            obtain ⟨rfl, rfl⟩ := hok.alike _ n' cycle' rfl
            refine .starting (begin_entry ..) (by rw [begin_age]; decide) ?_ ?_
            · exact h.safe.idle_released hret
            · rw [begin_thread, begin_age]
              rfl
      | _ => exact he.elim

/-- An action of a thread in the cycle. -/
theorem CycleInv.client_tick (h : CycleInv n cycle ch c₀ g p)
    (hnext : p.next start (.tick t) = some q) :
    ClientAt n cycle ch ((g.next p (.tick t) q).head t) q t := by
  have hstep := step_of_next hnext
  have hentry : q.entry t = p.entry t := by cases hstep <;> rfl
  have hage' : q.age t = p.age t + 1 := by cases hstep <;> exact advance_age ..
  cases h.client t with
  | outside he => exact .outside (hentry ▸ he)
  | returned hret => exact absurd hret hstep.not_tick
  | starting he hage hfree hprog =>
    rcases hage.lt_or_eq with hlt | hlast
    · obtain ⟨hprog', -, -, hfree'⟩ := step_leftToLoad hprog h.attached h.count hlt hstep
      exact .starting (hentry ▸ he) (by omega) (hfree'.trans hfree) hprog'
    · rw [hlast] at hprog
      obtain ⟨hthread, -, -, hshared⟩ := hstep.of_access hprog
      refine .reading (hentry ▸ he) (by omega) ?_
      rw [CycleView.next_head he, if_pos hlast, hthread, hstep.holds_of_access hprog, hfree]
      refine Safe.bind ((safe_fromHead n cycle ch _ _).mono ?_)
      exact fun held r m hr m' hrely => ⟨r, rfl, hr.rely hrely⟩
  | reading he hage hsafe =>
    refine .reading (hentry ▸ he) (by omega) ?_
    rw [CycleView.next_head he, if_neg (by omega)]
    exact safe_tick hstep (fun _ _ => trivial) hsafe

omit [Pcm α] in
theorem CycleView.next_moves : (g.next p a q).moves =
    if q.shared.plug.cursor = p.shared.plug.cursor then g.moves else g.moves + 1 := by
  have hact (t : Tid) (g : CycleView α) : (g.act p t q).moves = g.moves := by
    unfold CycleView.act
    split_ifs
    · rfl
    · split <;> rfl
  unfold CycleView.next
  rw [moves_eq]
  cases a with
  | call u e => rfl
  | tick u =>
    dsimp only
    split
    · exact hact u _
    · rfl

omit [Pcm α] in
/-- The calls that returned: those that had, and the one that does. -/
theorem CycleView.mem_next {x : UInt64 × IOResult α} (hx : x ∈ (g.next p a q).finished) :
    x ∈ g.finished ∨ ∃ t n' cycle' r, a = .tick t ∧ p.age t ≠ 3 ∧
      p.entry t = some (.doIo true false n' cycle') ∧ q.thread t = .ret (.io r) ∧
      x = (g.head t, r) := by
  unfold CycleView.next at hx
  rw [moves_eq] at hx
  cases a with
  | call u e => exact .inl hx
  | tick t =>
    dsimp only at hx
    split at hx
    · rename_i n' cycle' hentry
      unfold CycleView.act at hx
      by_cases hage : p.age t = 3
      · rw [if_pos hage] at hx
        exact .inl hx
      · rw [if_neg hage] at hx
        split at hx
        · rename_i r hret
          rcases List.mem_append.mp hx with hold | hnew
          · exact .inl hold
          · exact .inr ⟨t, n', cycle', r, rfl, hage, hentry, hret, List.mem_singleton.mp hnew⟩
        · exact .inl hx
    · exact .inl hx

/-- A call of the cycle returns its window. -/
theorem CycleInv.delivered (h : CycleInv n cycle ch c₀ g p) {n' : UInt32} {cycle' : UInt64}
    {r : IOResult α} (hentry : p.entry t = some (.doIo true false n' cycle')) (hage : p.age t ≠ 3)
    (hnext : p.next start (.tick t) = some q) (hret : q.thread t = .ret (.io r)) :
    Delivered n cycle ch (g.head t) r q.shared := by
  have hstep := step_of_next hnext
  cases h.client t with
  | outside he => exact (he _ hentry trivial).elim
  | returned hret' => exact absurd hret' hstep.not_tick
  | starting he hle hfree hprog =>
    obtain ⟨hprog', -, -, -⟩ :=
      step_leftToLoad hprog h.attached h.count (hle.lt_of_ne hage) hstep
    rw [hret] at hprog'
    exact (leftToLoad_ne _ _ _ _ _ hprog'.symm).elim
  | reading he hlt hsafe =>
    have hsafe' := safe_tick hstep (fun _ _ => trivial) hsafe
    rw [hret] at hsafe'
    obtain ⟨r', hr, hdelivered⟩ := hsafe' _ (Terms.refl ..)
    cases hr
    exact hdelivered

/-- **Every step of a cycle keeps it.** -/
theorem CycleInv.step (h : CycleInv n cycle ch c₀ g p) (hok : OneCycle n cycle g p a q)
    (hnext : p.next start a = some q) : CycleInv n cycle ch c₀ (g.next p a q) q := by
  have hstep := step_of_next hnext
  refine ⟨system_safe_step h.safe hnext, h.within.step hnext, ?_, hok.count.trans h.count,
    fun t => ?_, ?_, fun x hx => ?_⟩
  · cases a with
    | call t e =>
      cases hstep
      exact h.attached
    | tick t =>
      obtain ⟨e, -, heffect⟩ := h.within.tick hnext
      exact heffect.attached h.attached
  · by_cases ht : a.by = t
    · subst ht
      cases a with
      | call t e => exact h.client_call hok hnext _
      | tick t => exact h.client_tick hnext
    · obtain ⟨hthread, hentry, hage, hholds⟩ := hstep.other ht
      rw [CycleView.next_other ht]
      cases h.client t with
      | outside he => exact .outside (hentry ▸ he)
      | returned hret => exact .returned (hthread.trans hret)
      | starting he hle hfree hprog =>
        exact .starting (hentry.trans he) (hage ▸ hle) (hholds.trans hfree)
          (by rw [hthread, hage, hprog])
      | reading he hlt hsafe =>
        refine .reading (hentry.trans he) (hage ▸ hlt) ?_
        rw [hthread, hholds]
        exact hsafe.rely (h.rely hok hnext _ _ fun hh => ((system_rely h.safe hnext ht).2 hh).cursor)
  · rw [CycleView.next_moves]
    rcases h.moves hnext with hsame | ⟨hnot, margin, w, hmove⟩
    · rw [if_pos hsame, hsame]
      exact h.cursor
    · -- the cursor stood where the cycle found it
      rcases h.cursor with ⟨hmoves, hcur⟩ | ⟨-, margin', w', hcur⟩
      · have hne : q.shared.plug.cursor ≠ p.shared.plug.cursor := by
          intro hsame
          refine hnot ?_
          unfold World.Moved
          rw [← hsame, hmove]
          rfl
        rw [if_neg hne, hmoves]
        exact .inr ⟨rfl, margin, w, hcur ▸ hmove⟩
      · refine absurd ?_ hnot
        unfold World.Moved
        rw [hcur]
        rfl
  · rcases CycleView.mem_next hx with hold | ⟨t, n', cycle', r, rfl, hage, hentry, hret, rfl⟩
    · exact (h.finished x hold).rely (h.rely hok hnext false 0 nofun)
    · exact h.delivered hentry hage hnext hret

theorem cycleInv_start {m₀ : World α} {ok : System α → Act Tid Entry → Prop}
    {as : List (Act Tid Entry)} (hrun : Run start ok (System.init m₀) as p)
    (hbegins : CycleBegins cycle p) :
    CycleInv n cycle p.shared.devChannels p.shared.plug.cursor {} p := by
  refine ⟨system_safe hrun, system_within hrun, hbegins.attached, rfl, fun t => ?_,
    .inl ⟨rfl, rfl⟩, nofun⟩
  by_cases hout : ∀ e, p.entry t = some e → ¬ e.MovesCursor
  · exact .outside hout
  · push Not at hout
    obtain ⟨e, hentry, he⟩ := hout
    obtain ⟨b, hret⟩ := hbegins.nobody t e hentry he
    exact .returned hret

/-- The cursor has moved once a call has returned. -/
theorem CycleInv.moves_of_finished (h : CycleInv n cycle ch c₀ g p) (hc₀ : cycle ≠ c₀.gLastCycle)
    {x : UInt64 × IOResult α} (hx : x ∈ g.finished) : g.moves = 1 := by
  rcases h.cursor with ⟨-, hcur⟩ | ⟨hmoves, -⟩
  · have hmoved : p.shared.plug.cursor.gLastCycle = cycle := (h.finished x hx).1
    rw [hcur] at hmoved
    exact absurd hmoved.symm hc₀
  · exact hmoves

/-- Two calls of the cycle that returned. -/
theorem CycleInv.same_iff (h : CycleInv n cycle ch c₀ g p) {x y : UInt64 × IOResult α}
    (hx : x ∈ g.finished) (hy : y ∈ g.finished) : x.2.writes = y.2.writes ↔
      SameCut p.shared n.toNat ch.toNat p.shared.plug.cursor.gCycleReadFrame x.1 y.1 := by
  obtain ⟨-, _, hx'⟩ := h.finished x hx
  obtain ⟨-, _, hy'⟩ := h.finished y hy
  rw [hx', hy']
  exact windowOut_eq_iff

theorem cycleInv_run {m₀ : World α} {ok : System α → Act Tid Entry → Prop}
    {as₀ as : List (Act Tid Entry)} {p₀ : System α} (hrun₀ : Run start ok (System.init m₀) as₀ p₀)
    (hbegins : CycleBegins cycle p₀)
    (hrun : GhostRun start CycleView.next (OneCycle n cycle) p₀ {} as p g) :
    CycleInv n cycle p₀.shared.devChannels p₀.shared.plug.cursor g p := by
  induction hrun with
  | refl => exact cycleInv_start hrun₀ hbegins
  | tail _ hok hnext ih => exact ih.step hok hnext

end

/-- **The clients of one cycle.** From any reachable state in which a cycle may begin, whatever its
calls do in any order with each other and with the rest of the system: the cursor moves exactly
once, and every call that returns has the frames of the one window that are below the head it
loaded. Two of them have the same buffer exactly if their heads cut that window alike, or what
lies between them is silent. -/
theorem clients_hear_same_iff [Pcm α] {m₀ : World α} {ok : System α → Act Tid Entry → Prop}
    {as₀ : List (Act Tid Entry)} {p₀ : System α} (hrun₀ : Run start ok (System.init m₀) as₀ p₀)
    {n : UInt32} {cycle : UInt64} (hbegins : CycleBegins cycle p₀) {as : List (Act Tid Entry)}
    {p : System α} {g : CycleView α}
    (hrun : GhostRun start CycleView.next (OneCycle n cycle) p₀ {} as p g) :
    ((g.moves = 0 ∧ p.shared.plug.cursor = p₀.shared.plug.cursor ∧ g.finished = []) ∨
      (g.moves = 1 ∧ ∃ margin w,
        p.shared.plug.cursor = p₀.shared.plug.cursor.move n margin cycle w)) ∧
    (∀ x ∈ g.finished, ∃ first, x.2 = .read p₀.shared.devChannels x.1
      p.shared.plug.cursor.gCycleReadFrame first (windowOut p.shared n.toNat
        p₀.shared.devChannels.toNat x.1 p.shared.plug.cursor.gCycleReadFrame)) ∧
    ∀ x ∈ g.finished, ∀ y ∈ g.finished, x.2.writes = y.2.writes ↔
      SameCut p.shared n.toNat p₀.shared.devChannels.toNat
        p.shared.plug.cursor.gCycleReadFrame x.1 y.1 := by
  have h := cycleInv_run hrun₀ hbegins hrun
  refine ⟨?_, fun x hx => (h.finished x hx).2, fun x hx y hy => h.same_iff hx hy⟩
  rcases h.cursor with ⟨hmoves, hcur⟩ | hmoved
  · refine .inl ⟨hmoves, hcur, List.eq_nil_iff_forall_not_mem.mpr fun x hx => ?_⟩
    have hone := h.moves_of_finished hbegins.counter hx
    rw [hmoves] at hone
    cases hone
  · exact .inr hmoved

/-! ## Streams that have just started -/

/-- The frames of a batch are stored and the daemon has at most to publish them. -/
structure BatchStored (p : System α) : Prop where
  safe : p.Safe
  attached : p.shared.plug.gShm = true
  daemon : (∃ b, p.thread .daemon = .ret b) ∨ ∃ w b, p.thread .daemon =
    .access (fun m => { m with shm := { m.shm with writeFrames := w } }) fun _ => .ret b

/-- The threads go on, or are given a `ReadInput` call of the cycle. -/
def CycleAct (n : UInt32) (cycle : UInt64) : Act Tid Entry → Prop
  | .tick _ => True
  | .call (.host _) (.doIo true false n' cycle') => n' = n ∧ cycle' = cycle
  | _ => False

/-- A cycle in which the daemon only publishes: no cell of the ring changes. -/
theorem BatchStored.step [Pcm α] {n : UInt32} {cycle : UInt64} {p q : System α}
    {a : Act Tid Entry} (h : BatchStored p) (ha : CycleAct n cycle a)
    (hnext : p.next start a = some q) (g : CycleView α) :
    (OneCycle n cycle g p a q ∧ q.shared.shm.ring = p.shared.shm.ring) ∧ BatchStored q := by
  have hstep := step_of_next hnext
  obtain ⟨hring, hchannels, hattached, hdaemon⟩ : q.shared.shm.ring = p.shared.shm.ring ∧
      q.shared.shm.channels = p.shared.shm.channels ∧ q.shared.plug.gShm = true ∧
      ((∃ b, q.thread .daemon = .ret b) ∨ ∃ w b, q.thread .daemon =
        .access (fun m => { m with shm := { m.shm with writeFrames := w } }) fun _ => .ret b) := by
    by_cases hby : a.by = .daemon
    · cases a with
      | call t e =>
        obtain rfl : t = .daemon := hby
        exact ha.elim
      | tick t =>
        obtain rfl : t = .daemon := hby
        rcases h.daemon with ⟨b, hret⟩ | ⟨w, b, hprog⟩
        · exact absurd hret hstep.not_tick
        · obtain ⟨hthread, -, -, hshared⟩ := hstep.of_access hprog
          rw [hshared]
          exact ⟨rfl, rfl, h.attached, .inl ⟨b, hthread⟩⟩
    · have hshm := (same_segment h.safe hnext hby).1
      rw [hshm, (hstep.other hby).1]
      exact ⟨rfl, rfl, (system_rely h.safe hnext hby).1 h.attached, h.daemon⟩
  refine ⟨⟨⟨?_, ?_, ?_, fun _ _ _ _ _ => by rw [hring]⟩, hring⟩,
    system_safe_step h.safe hnext, hattached, hdaemon⟩
  · rintro t known sys now rfl
    cases t <;> exact ha
  · rintro t n' cycle' rfl
    cases t with
    | host i => exact ha
    | _ => exact ha.elim
  · unfold World.devChannels
    rw [hattached, h.attached, hchannels]

/-- The daemon creates the segment of a device of one channel and a host thread starts IO. -/
def beginStream : List (Act Tid Entry) :=
  .call .daemon (.create monoDevice 258 .fine) :: List.replicate 10 (.tick .daemon) ++
    .call (.host 0) (.startIo true .fine 0) :: List.replicate 9 (.tick (.host 0))

/-- The daemon stores a frame of half the full scale, and has yet to publish it. -/
def storeFrame : List (Act Tid Entry) :=
  .call .daemon (.push [0, 0, 64]) :: List.replicate 2 (.tick .daemon)

/-- Two clients call; the daemon publishes between their loads; `k` actions of the first client
after its load. -/
def loadTwice (k : Nat) : List (Act Tid Entry) :=
  .call (.host 1) (.doIo true false 1 7) :: List.replicate 4 (.tick (.host 1)) ++
    .tick .daemon :: .call (.host 2) (.doIo true false 1 7) ::
    List.replicate 4 (.tick (.host 2)) ++ List.replicate k (.tick (.host 1)) ++
    List.replicate 5 (.tick (.host 2))

theorem cycleAct_loadTwice {k : Nat} {a : Act Tid Entry} (ha : a ∈ loadTwice k) :
    CycleAct 1 7 a := by
  simp only [loadTwice, List.cons_append, List.mem_cons, List.mem_append, List.mem_replicate,
    or_assoc] at ha
  rcases ha with rfl | ⟨-, rfl⟩ | rfl | rfl | ⟨-, rfl⟩ | ⟨-, rfl⟩ | ⟨-, rfl⟩
  all_goals trivial

theorem cycleBegins_of_idle {cycle : UInt64} {p : System ℚ} {s24 : List UInt8}
    (hattached : p.shared.plug.gShm = true) (hcounter : cycle ≠ p.shared.plug.cursor.gLastCycle)
    (hdaemon : p.entry .daemon = some (.push s24))
    (hidle : ∀ t, t ≠ .daemon → ∃ b, p.thread t = .ret b) : CycleBegins cycle p := by
  refine ⟨hattached, hcounter, fun t e hentry he => ?_⟩
  by_cases ht : t = .daemon
  · rw [ht, hdaemon] at hentry
    cases hentry
    exact he.elim
  · exact hidle t ht

/-- **The clients hear different audio.** In the first cycle of a stream one client loads the head
before the first frame is published and hears silence, the other one loads it after that and hears
the frame. No cell of the ring changes in the cycle. -/
theorem clients_hear_different : ∃ (as₀ as : List (Act Tid Entry)) (p₀ p : System ℚ)
    (g : CycleView ℚ), Run start Free (System.init attachedIdle) as₀ p₀ ∧ CycleBegins 7 p₀ ∧
      GhostRun start CycleView.next (fun g p a q => OneCycle 1 7 g p a q ∧
        q.shared.shm.ring = p.shared.shm.ring) p₀ {} as p g ∧
      ∃ x ∈ g.finished, ∃ y ∈ g.finished, x.2.writes ≠ y.2.writes := by
  obtain ⟨p₀, p, g, h₀, hattached, hcounter, hentry, hdaemon, hidle, h, x, y, hfinished, hx, hy⟩ :
      ∃ p₀ p g, runActs start (beginStream ++ storeFrame) (System.init attachedIdle) = some p₀ ∧
      p₀.shared.plug.gShm = true ∧ p₀.shared.plug.cursor.gLastCycle = 0 - 1 ∧
      p₀.entry .daemon = some (.push [0, 0, 64]) ∧
      (∃ w b, p₀.thread .daemon =
        .access (fun m => { m with shm := { m.shm with writeFrames := w } }) fun _ => .ret b) ∧
      (∀ t, t ≠ .daemon → ∃ b, p₀.thread t = .ret b) ∧
      runGhost start CycleView.next (loadTwice 7) (p₀, {}) = some (p, g) ∧
      ∃ x y, g.finished = [x, y] ∧ x.2.writes = [(0, 0)] ∧
        y.2.writes = [(0, s24ToF32 0 0 64)] := by
    refine ⟨_, _, _, rfl, rfl, rfl, rfl, ⟨_, _, rfl⟩, ?_, rfl, _, _, rfl, rfl, rfl⟩
    rintro (_ | _ | _ | i) ht
    · exact absurd rfl ht
    · exact ⟨_, rfl⟩
    · exact ⟨_, rfl⟩
    · exact ⟨_, rfl⟩
  have hrun₀ := run_of_runActs h₀
  have hbegins : CycleBegins 7 p₀ :=
    cycleBegins_of_idle hattached (by rw [hcounter]; decide) hentry hidle
  have hstored : BatchStored p₀ := ⟨system_safe hrun₀, hattached, .inr hdaemon⟩
  have hrun := GhostRun.of_runGhost_keeps (P := BatchStored) (L := CycleAct 1 7)
    (fun g _ _ _ hp ha hnext => hp.step ha hnext g) h hstored fun a => cycleAct_loadTwice
  refine ⟨_, _, p₀, p, g, hrun₀, hbegins, hrun, x, by simp [hfinished], y, by simp [hfinished], ?_⟩
  rw [hx, hy]
  decide +kernel

/-- A frame later both heads are above the window, and the clients hear the same. -/
theorem clients_hear_same_later : ∃ (p₀ p : System ℚ) (g : CycleView ℚ) (x y : UInt64 × IOResult ℚ),
    CycleBegins 7 p₀ ∧ p.shared.plug.cursor = p₀.shared.plug.cursor.move 1 258 7 1 ∧
      g.finished = [x, y] ∧ x.1 ≠ y.1 ∧ x.2.writes = y.2.writes := by
  obtain ⟨p₀, p, g, h₀, hattached, hcounter, hentry, hdaemon, hidle, h, x, y, hfinished, hx, hy,
      hcur, hstart⟩ : ∃ p₀ p g, runActs start
        (beginStream ++ storeFrame ++ .tick .daemon :: storeFrame) (System.init attachedIdle) =
          some p₀ ∧
      p₀.shared.plug.gShm = true ∧ p₀.shared.plug.cursor.gLastCycle = 0 - 1 ∧
      p₀.entry .daemon = some (.push [0, 0, 64]) ∧
      (∃ w b, p₀.thread .daemon =
        .access (fun m => { m with shm := { m.shm with writeFrames := w } }) fun _ => .ret b) ∧
      (∀ t, t ≠ .daemon → ∃ b, p₀.thread t = .ret b) ∧
      runGhost start CycleView.next (loadTwice 8) (p₀, {}) = some (p, g) ∧
      ∃ x y, g.finished = [x, y] ∧ x.1 = 1 ∧ y.1 = 2 ∧
        p.shared.plug.cursor = p₀.shared.plug.cursor.move 1 258 7 1 ∧
        p.shared.plug.cursor.gCycleReadFrame = 0 := by
    refine ⟨_, _, _, rfl, rfl, rfl, rfl, ⟨_, _, rfl⟩, ?_, rfl, _, _, rfl, rfl, rfl, rfl, rfl⟩
    rintro (_ | _ | _ | i) ht
    · exact absurd rfl ht
    · exact ⟨_, rfl⟩
    · exact ⟨_, rfl⟩
    · exact ⟨_, rfl⟩
  have hrun₀ := run_of_runActs h₀
  have hbegins : CycleBegins 7 p₀ :=
    cycleBegins_of_idle hattached (by rw [hcounter]; decide) hentry hidle
  have hstored : BatchStored p₀ := ⟨system_safe hrun₀, hattached, .inr hdaemon⟩
  have hrun : GhostRun start CycleView.next (OneCycle 1 7) p₀ {} (loadTwice 8) p g :=
    GhostRun.of_runGhost_keeps (P := BatchStored) (L := CycleAct 1 7)
      (fun g _ _ _ hp ha hnext => (hp.step ha hnext g).imp_left And.left) h hstored
      fun a => cycleAct_loadTwice
  have hsame := (clients_hear_same_iff hrun₀ hbegins hrun).2.2 x (by simp [hfinished]) y
    (by simp [hfinished])
  refine ⟨p₀, p, g, x, y, hbegins, hcur, hfinished, by rw [hx, hy]; decide, hsame.mpr ?_⟩
  intro k hk
  obtain rfl : k = 0 := Nat.lt_one_iff.mp hk
  rw [hstart, hx, hy]
  exact .inl (by decide)

end Line6
