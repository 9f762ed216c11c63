import Line6.System.Footprint

/-!
# The host's device list

The monitor exchanges the presence flag and, if the exchange changed it, notifies the host. A host
thread reads the device list by a size query and a data query with a buffer of that size.
`ListView` follows, beside a run, what the reader last read, whether it has read the list again
since the last notification, and the `Tally` of the changes and the notifications.

* `announces_startMonitor`: every iteration of the monitor notifies the host exactly if it changed
  the flag, after it.
* `ListInv.step`: while nothing is owed, what the reader learns since the last notification is
  what the flag says.
* `device_list_never_stale`: whenever no notification is owed or unhandled, the list the host last
  read is the list, and a translation of the device's UID agrees with it; the notifications are
  the changes.
-/

namespace Line6

open Conc Conc.Prog Conc.Pool

variable {α : Type}

/-- The value the monitor announces. -/
def World.present (m : World α) : Bool := m.plug.gDevicePresent

/-- The host interface is there. -/
def World.Hosted (m : World α) : Prop := m.plug.gHost = true

/-! ## The monitor announces, the others are silent -/

theorem Aside.kept {m m' : World α} (h : Aside m m') : Kept World.present World.Hosted m m' :=
  fun hm => ⟨h.host.trans hm, h.present⟩

theorem Entry.Effect.kept {e : Entry} {m m' : World α} (h : e.Effect m m')
    (hhost : ∀ known host tb sys, e = .setUp known host tb sys → host = true)
    (hpoll : ∀ sys, e ≠ .poll sys) : Kept World.present World.Hosted m m' := by
  intro hm
  constructor
  · rcases h.host with hsame | ⟨known, tb, sys, he⟩
    · exact hsame.trans hm
    · exact hhost _ _ _ _ he
  · rcases h.present with hsame | ⟨sys, he⟩
    · exact hsame
    · exact absurd he (hpoll sys)

theorem announces_notifyDeviceList :
    Announces World.present World.Hosted (notifyDeviceList (α := α)) true := by
  intro m hm
  refine ⟨hm, fun _ => ?_, fun h => absurd rfl h⟩
  have hhost : m.plug.gHost = true := hm
  show Announces _ _ (if m.plug.gHost = true then callHost else ret ()) true
  rw [if_pos hhost]
  exact ⟨rfl, rfl⟩

/-- **An iteration of the monitor** notifies the host exactly if it changed the flag. -/
theorem announces_presencePoll (sys : Sys) (l : Monitor) :
    Announces World.present World.Hosted (presencePoll (α := α) sys l) false := by
  have hattach : Silent Aside (attachShm (α := α) sys) := silent_attachShm attaching_aside sys
  have hread := silent_observe attaching_aside.toBookkeeping (α := α) l
  refine (hattach.mono fun _ _ h => h.kept).announces_bind fun _ => ?_
  refine (hread.mono fun _ _ h => h.kept).announces_bind fun r => ?_
  intro m hm
  refine ⟨hm, fun hsame => ?_, fun hchanged => ⟨rfl, ?_⟩⟩
  · have hflag : r.1 = m.plug.gDevicePresent := hsame
    show Announces _ _ (if (m.plug.gDevicePresent != r.1) = true then _ else _) false
    rw [hflag, if_neg (by simp)]
    rfl
  · have hflag : r.1 ≠ m.plug.gDevicePresent := hchanged
    show Announces _ _ (if (m.plug.gDevicePresent != r.1) = true then _ else _) true
    rw [if_pos (by simpa using hflag.symm)]
    exact announces_notifyDeviceList.bind fun _ => rfl

theorem announces_startMonitor {e : Entry} {b : Local α} {x : Prog (World α) (Local α)}
    (h : startMonitor e b = some x) : Announces World.present World.Hosted x false := by
  have hmonitor (sys : Sys) (l : Monitor) :
      Announces World.present World.Hosted (presenceMonitor (α := α) sys l) false := by
    have hload : Silent Aside (rd fun m : World α => m.plug.gMonitorRun) :=
      silent_load attaching_aside.toBookkeeping _
    refine (hload.mono fun _ _ h => h.kept).announces_bind fun run => ?_
    cases run with
    | false => rfl
    | true => exact (announces_presencePoll sys l).bind fun _ => rfl
  unfold startMonitor at h
  split at h <;> cases h
  · exact (hmonitor _ _).bind fun _ => rfl
  · exact (hmonitor _ _).bind fun _ => rfl

/-! ## The reader -/

/-- The address of the device list. -/
def Address.IsDeviceList (k : Sdk) (a : Address) : Prop :=
  a.element = k.elementMain ∧ k.plugInSel a.selector = some .deviceList

instance (k : Sdk) (a : Address) : Decidable (a.IsDeviceList k) :=
  inferInstanceAs (Decidable (_ ∧ _))

/-- A query for the size of the device list. -/
def Entry.IsListSize : Entry → Prop
  | .getPropertyDataSize k obj a => obj = kObjectIDPlugIn ∧ a.IsDeviceList k
  | _ => False

instance : DecidablePred Entry.IsListSize
  | .getPropertyDataSize _ _ _ => inferInstanceAs (Decidable (_ ∧ _))
  | .create .. | .push .. | .poll .. | .queryInterface .. | .addRef .. | .release .. | .setUp ..
  | .getPropertyData .. | .startIo .. | .stopIo .. | .getZeroTimeStamp .. | .doIo .. =>
    isFalse id

/-- The buffer size of a query for the device list. -/
def Entry.listData : Entry → Option UInt32
  | .getPropertyData k _ obj a _ inSize =>
    if obj = kObjectIDPlugIn ∧ a.IsDeviceList k then some inSize else none
  | _ => none

/-- The object ids an answer lists. -/
def Reply.objectIds (r : Reply) : List UInt32 :=
  (r.writes.filterMap fun
    | (_, .u32 v) => some v
    | _ => none).take (r.size / sizeofAudioObjectID).toNat

/-- What the reader learns from a step. -/
inductive ListNews where
  | asked
  | size (n : UInt32)
  | list (ids : List UInt32)
  deriving Repr, DecidableEq

/-- What host thread `i` learns of the device list in a step: it asks for its size, or a query for
it returns. -/
def heardList (i : Nat) (a : Act Tid Entry) (q : System α) : Option ListNews :=
  match a with
  | .call t e => if t = .host i ∧ e.IsListSize then some .asked else none
  | .tick t =>
    if t = .host i then
      match q.entry t, q.thread t with
      | some e, .ret (.sized (.ok n)) => if e.IsListSize then some (.size n) else none
      | some e, .ret (.replied (.ok r)) => e.listData.map fun _ => .list r.objectIds
      | _, _ => none
    else none

/-- The tally of the notifications; the size the reader was last told, and whether it asked for it
after the last notification; the list it last read, and whether it began to read it after the last
notification. -/
structure ListView where
  tally : Tally := {}
  size : Option UInt32 := none
  current : Bool := false
  list : Option (List UInt32) := none
  handled : Bool := false
  deriving Repr, DecidableEq

/-- What the reader learns. -/
def ListView.hear (g : ListView) : ListNews → ListView
  | .asked => { g with size := none, current := true }
  | .size n => { g with size := some n }
  | .list ids => { g with list := some ids, handled := g.current }

def ListView.next (i : Nat) (g : ListView) (p : System α) (a : Act Tid Entry) (q : System α) :
    ListView :=
  let g := { g with tally := count World.present g.tally p a q }
  if p.callsOut a then { g with current := false, handled := false }
  else (heardList i a q).elim g g.hear

/-- The host interface handed to `Initialize` is not NULL, and the reader queries the list with a
buffer of the size it was told. -/
def ReadsList (i : Nat) (g : ListView) (_ : System α) (a : Act Tid Entry) (_ : System α) : Prop :=
  (∀ t known host tb sys, a = .call t (.setUp known host tb sys) → host = true) ∧
    ∀ e n, a = .call (.host i) e → e.listData = some n → g.size = some n

/-! ## What the queries answer -/

/-- The size of the device list. -/
def World.listSize (m : World α) : UInt32 := if m.present then sizeofAudioObjectID else 0

/-- The device list. -/
def World.deviceList (m : World α) : List UInt32 := if m.present then [kObjectIDDevice] else []

/-- The answer to a query for it into `n` bytes. -/
def World.listReply (m : World α) (n : UInt32) : Reply :=
  if m.present ∧ sizeofAudioObjectID ≤ n then replyU32 kObjectIDDevice else replyNothing

/-- A buffer of the size of the list takes the list. -/
theorem listReply_listSize (m : World α) : (m.listReply m.listSize).objectIds = m.deviceList := by
  unfold World.listReply World.listSize World.deviceList
  cases m.present <;> rfl

theorem getPropertyDataSize_list {k : Sdk} {a : Address} (ha : a.IsDeviceList k) :
    getPropertyDataSize (α := α) k kObjectIDPlugIn a =
      access id fun m => ret (.ok m.listSize) := by
  unfold getPropertyDataSize
  rw [if_neg (not_not_intro ha.1), if_pos rfl, ha.2]
  rfl

theorem getPropertyData_list {k : Sdk} (cf : Cf) {a : Address} (ha : a.IsDeviceList k)
    (q : Qualifier) (n : UInt32) : getPropertyData (α := α) k cf kObjectIDPlugIn a q n =
      access id fun m => ret (.ok (m.listReply n)) := by
  unfold getPropertyData
  rw [if_neg (not_not_intro ha.1), if_pos rfl, ha.2]
  rfl

/-- The program of a size query for the list. -/
def sizeQuery : Prog (World α) (Local α) := access id fun m => ret (.sized (.ok m.listSize))

/-- The program of a query for the list into `n` bytes. -/
def listQuery (n : UInt32) : Prog (World α) (Local α) :=
  access id fun m => ret (.replied (.ok (m.listReply n)))

theorem startHost_listSize [Pcm α] {e : Entry} (he : e.IsListSize) :
    startHost (α := α) e = some sizeQuery := by
  cases e with
  | getPropertyDataSize k obj a =>
    obtain ⟨rfl, ha⟩ := he
    unfold startHost
    dsimp only
    rw [getPropertyDataSize_list ha]
    rfl
  | _ => exact he.elim

theorem startHost_listData [Pcm α] {e : Entry} {n : UInt32} (he : e.listData = some n) :
    startHost (α := α) e = some (listQuery n) := by
  cases e with
  | getPropertyData k cf obj a q inSize =>
    unfold Entry.listData at he
    dsimp only at he
    split_ifs at he with ha
    obtain ⟨rfl, ha⟩ := ha
    cases he
    unfold startHost
    dsimp only
    rw [getPropertyData_list cf ha]
    rfl
  | _ => cases he

/-! ## The reader's queries in a run -/

/-- Where host thread `i` stands in a query for the list, having been told `size`. -/
structure ReaderAt (i : Nat) (size : Option UInt32) (p : System α) : Prop where
  sizing : ∀ e, p.entry (.host i) = some e → e.IsListSize →
    p.thread (.host i) = sizeQuery ∨ ∃ b, p.thread (.host i) = .ret b
  loading : ∀ e n, p.entry (.host i) = some e → e.listData = some n →
    (p.thread (.host i) = listQuery n ∧ size = some n) ∨ ∃ b, p.thread (.host i) = .ret b

section

variable [Pcm α] {i : Nat} {g : ListView} {size : Option UInt32} {p q : System α}
  {a : Act Tid Entry}

/-- A step of the reader in a query for the list. -/
theorem ReaderAt.tick (h : ReaderAt i size p) (hstep : Step start p (.tick (.host i)) q) {e : Entry}
    (he : p.entry (.host i) = some e) :
    (e.IsListSize → q.shared = p.shared ∧
      q.thread (.host i) = .ret (.sized (.ok p.shared.listSize))) ∧
    ∀ n, e.listData = some n → size = some n ∧ q.shared = p.shared ∧
      q.thread (.host i) = .ret (.replied (.ok (p.shared.listReply n))) := by
  constructor
  · intro hsize
    rcases h.sizing e he hsize with hprog | ⟨b, hret⟩
    · obtain ⟨hthread, -, -, hshared⟩ := hstep.of_access hprog
      exact ⟨hshared, hthread⟩
    · exact absurd hret hstep.not_tick
  · intro n hdata
    rcases h.loading e n he hdata with ⟨hprog, hsize⟩ | ⟨b, hret⟩
    · obtain ⟨hthread, -, -, hshared⟩ := hstep.of_access hprog
      exact ⟨hsize, hshared, hthread⟩
    · exact absurd hret hstep.not_tick

/-- **What the reader learns** is what the flag says at that step. -/
theorem ReaderAt.heard (h : ReaderAt i size p) (hstep : Step start p a q) {x : ListNews}
    (hx : heardList i a q = some x) : q.shared = p.shared ∧
      (x = .asked ∨ x = .size p.shared.listSize ∨
        ∃ n, size = some n ∧ x = .list (p.shared.listReply n).objectIds) := by
  cases a with
  | call t e =>
    unfold heardList at hx
    dsimp only at hx
    split_ifs at hx
    cases hx
    cases hstep
    exact ⟨rfl, .inl rfl⟩
  | tick t =>
    unfold heardList at hx
    dsimp only at hx
    split_ifs at hx with ht
    subst ht
    have hentry : q.entry (.host i) = p.entry (.host i) := by cases hstep <;> rfl
    rw [hentry] at hx
    cases he : p.entry (.host i) with
    | none =>
      rw [he] at hx
      cases hx
    | some e =>
      obtain ⟨hsizing, hloading⟩ := h.tick hstep he
      rw [he] at hx
      by_cases hsize : e.IsListSize
      · obtain ⟨hshared, hthread⟩ := hsizing hsize
        rw [hthread] at hx
        dsimp only at hx
        rw [if_pos hsize] at hx
        cases hx
        exact ⟨hshared, .inr (.inl rfl)⟩
      cases hdata : e.listData with
      | some n =>
        obtain ⟨htold, hshared, hthread⟩ := hloading n hdata
        rw [hthread] at hx
        dsimp only at hx
        rw [hdata] at hx
        cases hx
        exact ⟨hshared, .inr (.inr ⟨n, htold, rfl⟩)⟩
      | none =>
        -- Another query: nothing is heard of the list.
        split at hx
        · rename_i hsome _
          cases hsome
          rw [if_neg hsize] at hx
          cases hx
        · rename_i hsome _
          cases hsome
          rw [hdata] at hx
          cases hx
        · cases hx

omit [Pcm α] in
theorem heardList_other (ha : a.by ≠ .host i) : heardList i a q = none := by
  cases a with
  | call t e => exact if_neg fun h => ha h.1
  | tick t => exact if_neg ha

omit [Pcm α] in
theorem ListView.next_size (hx : heardList i a q = none) : (g.next i p a q).size = g.size := by
  unfold next
  split_ifs
  · rfl
  · rw [hx]
    rfl

omit [Pcm α] in
theorem ListView.next_tally :
    (g.next i p a q).tally = count World.present g.tally p a q := by
  unfold next
  split_ifs
  · rfl
  · cases heardList i a q with
    | none => rfl
    | some x => cases x <;> rfl

/-- A query for the list keeps its place. -/
theorem ReaderAt.step (h : ReaderAt i g.size p) (hok : ReadsList i g p a q)
    (hstep : Step start p a q) : ReaderAt i (g.next i p a q).size q := by
  by_cases ha : a.by = .host i
  swap
  · obtain ⟨hthread, hentry, -, -⟩ := hstep.other ha
    rw [ListView.next_size (heardList_other ha)]
    exact ⟨fun e he => hthread ▸ h.sizing e (hentry ▸ he),
      fun e n he => hthread ▸ h.loading e n (hentry ▸ he)⟩
  cases a with
  | tick t =>
    obtain rfl : t = .host i := ha
    have hentry : q.entry (.host i) = p.entry (.host i) := by cases hstep <;> rfl
    refine ⟨fun e he hsize => ?_, fun e n he hdata => ?_⟩
    · rw [hentry] at he
      exact .inr ⟨_, ((h.tick hstep he).1 hsize).2⟩
    · rw [hentry] at he
      exact .inr ⟨_, ((h.tick hstep he).2 n hdata).2.2⟩
  | call t e =>
    obtain rfl : t = .host i := ha
    cases hstep with
    | @call _ _ b k hret hk =>
      have hprog : startHost e = some k := hk
      refine ⟨fun e' he hsize => .inl ?_, fun e' n he hdata => .inl ?_⟩
      · rw [begin_entry] at he
        cases he
        rw [startHost_listSize hsize] at hprog
        cases hprog
        exact begin_thread ..
      · rw [begin_entry] at he
        cases he
        have hother : ¬ e.IsListSize := by
          cases e with
          | getPropertyDataSize k obj a => cases hdata
          | _ => exact id
        have hnone : heardList i (.call (.host i) e) (p.begin (.host i) e k) = none :=
          if_neg fun hasked => hother hasked.2
        rw [ListView.next_size hnone]
        rw [startHost_listData hdata] at hprog
        cases hprog
        exact ⟨begin_thread .., hok.2 e n rfl hdata⟩

end

/-! ## The list never goes stale -/

/-- What holds in every state of a run. -/
structure ListInv (i : Nat) (g : ListView) (p : System α) : Prop where
  announced : Announced World.present World.Hosted .monitor g.tally p
  reader : ReaderAt i g.size p
  sized : g.tally.owed = false → g.current = true → ∀ n, g.size = some n → n = p.shared.listSize
  listed : g.tally.owed = false → g.handled = true → g.list = some p.shared.deviceList

/-- What a call runs announces, or is silent. -/
theorem announced_step [Pcm α] {i : Nat} {g : ListView} {p q : System α} {a : Act Tid Entry}
    (h : Announced World.present World.Hosted .monitor g.tally p) (hok : ReadsList i g p a q)
    (hnext : p.next start a = some q) :
    Announced World.present World.Hosted .monitor (g.next i p a q).tally q := by
  rw [ListView.next_tally]
  refine h.step (fun e b k _ hk => announces_startMonitor hk) ?_ hnext
  intro t e b k ht ha hk
  have hhost (known host : Bool) (tb : Timebase) (sys : Sys)
      (he : e = .setUp known host tb sys) : host = true := hok.1 t known host tb sys (he ▸ ha)
  have hpoll (sys : Sys) : e ≠ .poll sys := by
    rintro rfl
    cases t with
    | monitor => exact ht rfl
    | daemon => cases hk
    | host j => cases hk
  have hsilent : Silent e.Effect k := by
    cases t with
    | monitor => exact absurd rfl ht
    | daemon => exact silent_startDaemon hk
    | host j => exact silent_startHost hk
  exact hsilent.mono fun m m' he => he.kept hhost hpoll

/-- **Every step keeps it.** -/
theorem ListInv.step [Pcm α] {i : Nat} {g : ListView} {p q : System α} {a : Act Tid Entry}
    (h : ListInv i g p) (hok : ReadsList i g p a q) (hnext : p.next start a = some q) :
    ListInv i (g.next i p a q) q := by
  have hstep := step_of_next hnext
  have hreader := h.reader.step hok hstep
  have hannounced := announced_step h.announced hok hnext
  by_cases hsame : q.shared.present = p.shared.present
  swap
  · -- The monitor owes a notification now.
    have howed : (g.next i p a q).tally.owed = true := by
      rw [ListView.next_tally, count_changed hsame]
    refine ⟨hannounced, hreader, fun hfree => ?_, fun hfree => ?_⟩
    · rw [howed] at hfree
      cases hfree
    · rw [howed] at hfree
      cases hfree
  have hsize : q.shared.listSize = p.shared.listSize := by
    unfold World.listSize
    rw [hsame]
  have hlist : q.shared.deviceList = p.shared.deviceList := by
    unfold World.deviceList
    rw [hsame]
  cases hout : p.callsOut a with
  | true =>
    -- The host has been notified, and has not read the list since.
    have hnext' : (g.next i p a q).current = false ∧ (g.next i p a q).handled = false := by
      unfold ListView.next
      rw [if_pos hout]
      exact ⟨rfl, rfl⟩
    refine ⟨hannounced, hreader, fun _ hcurrent => ?_, fun _ hhandled => ?_⟩
    · rw [hnext'.1] at hcurrent
      cases hcurrent
    · rw [hnext'.2] at hhandled
      cases hhandled
  | false =>
    have hg : g.next i p a q = (heardList i a q).elim g g.hear := by
      unfold ListView.next
      rw [count_silent hsame hout, hout]
      rfl
    rw [hg] at hannounced hreader ⊢
    cases hx : heardList i a q with
    | none =>
      rw [hx] at hannounced hreader
      refine ⟨hannounced, hreader, fun howed hcurrent n hn => ?_, fun howed hhandled => ?_⟩
      · rw [hsize]
        exact h.sized howed hcurrent n hn
      · rw [hlist]
        exact h.listed howed hhandled
    | some x =>
      rw [hx] at hannounced hreader
      obtain ⟨-, rfl | rfl | ⟨n, htold, rfl⟩⟩ := h.reader.heard hstep hx
      · refine ⟨hannounced, hreader, fun _ _ n hn => ?_, fun howed hhandled => ?_⟩
        · cases hn
        · rw [hlist]
          exact h.listed howed hhandled
      · refine ⟨hannounced, hreader, fun _ _ n hn => ?_, fun howed hhandled => ?_⟩
        · rw [hsize]
          exact (Option.some.inj hn).symm
        · rw [hlist]
          exact h.listed howed hhandled
      · refine ⟨hannounced, hreader, fun howed hcurrent n hn => ?_, fun howed hcurrent => ?_⟩
        · rw [hsize]
          exact h.sized howed hcurrent n hn
        · have hn : n = p.shared.listSize := h.sized howed hcurrent n htold
          rw [hlist, hn, ← listReply_listSize]
          rfl

theorem listInv_run [Pcm α] {m₀ : World α} (hhost : m₀.plug.gHost = true) {i : Nat}
    {as : List (Act Tid Entry)} {p : System α} {g : ListView}
    (hrun : GhostRun start (ListView.next i) (ReadsList i) (System.init m₀) {} as p g) :
    ListInv i g p := by
  induction hrun with
  | refl =>
    refine ⟨⟨hhost, rfl, fun _ _ => silent_ret, rfl⟩, ⟨nofun, nofun⟩, nofun, nofun⟩
  | tail _ hok hnext ih => exact ih.step hok hnext

/-- The device list as a size query and a data query would answer it now. -/
def World.listNow (m : World α) (k : Sdk) (cf : Cf) (a : Address) (q : Qualifier) :
    Option (List UInt32) :=
  match answer (getPropertyDataSize k kObjectIDPlugIn a) m with
  | some (.ok n) =>
    match answer (getPropertyData k cf kObjectIDPlugIn a q n) m with
    | some (.ok r) => some r.objectIds
    | _ => none
  | _ => none

theorem listNow_eq {k : Sdk} (cf : Cf) {a : Address} (ha : a.IsDeviceList k) (q : Qualifier)
    (m : World α) : m.listNow k cf a q = some m.deviceList := by
  unfold World.listNow
  rw [getPropertyDataSize_list ha]
  dsimp only [answer, exec_access, exec_ret, Outcome.done_result, id]
  rw [getPropertyData_list cf ha]
  dsimp only [answer, exec_access, exec_ret, Outcome.done_result, id]
  rw [listReply_listSize]

/-- **The device list never goes stale**: whenever no notification is owed by the monitor or
unhandled by the host, the list the host last read is the list, and translating the device's UID
answers its id exactly if that list contains it. The notifications are the changes, but for the
one the monitor owes in the middle of an iteration. -/
theorem device_list_never_stale [Pcm α] {m₀ : World α} (hhost : m₀.plug.gHost = true) {i : Nat}
    {as : List (Act Tid Entry)} {p : System α} {g : ListView}
    (hrun : GhostRun start (ListView.next i) (ReadsList i) (System.init m₀) {} as p g) :
    (g.tally.changes = g.tally.sent + if g.tally.owed then 1 else 0) ∧
    ((∃ b, p.thread .monitor = .ret b) → g.tally.owed = false) ∧
    (g.tally.owed = false → g.handled = true → ∃ list, g.list = some list ∧
      (∀ k cf a q, a.IsDeviceList k → p.shared.listNow k cf a q = some list) ∧
      ∀ k cf a q n, a.element = k.elementMain →
        k.plugInSel a.selector = some .translateUIDToDevice →
        sizeofCFStringRef ≤ q.size → q.data = some (some kDeviceUID) →
        answer (getPropertyData k cf kObjectIDPlugIn a q n) p.shared = some (.ok (replyU32
          (if kObjectIDDevice ∈ list then kObjectIDDevice else k.objectUnknown)))) := by
  have h := listInv_run hhost hrun
  refine ⟨h.announced.balance, fun ⟨b, hret⟩ => h.announced.idle hret, fun howed hhandled => ?_⟩
  refine ⟨p.shared.deviceList, h.listed howed hhandled, fun k cf a q ha => listNow_eq cf ha q _, ?_⟩
  intro k cf a q n hmain htranslate hsize hdata
  unfold getPropertyData
  rw [if_neg (not_not_intro hmain), if_pos rfl, htranslate]
  unfold World.deviceList World.present
  cases hpresent : p.shared.plug.gDevicePresent with
  | true => simp [plugInData, answer, hsize, hdata, hpresent]
  | false => simp [plugInData, answer, hpresent]

/-- A plugin the host has initialised, the daemon not running. -/
def noSegment : World ℚ where
  linked := false
  shm := Shm.zero
  plug := { gHost := true }

/-- The two queries of a read of the device list. -/
def askListSize : Act Tid Entry := .call (.host 0) (.getPropertyDataSize numberedSdk 1 ⟨5, 1, 0⟩)

def askList (n : UInt32) : Act Tid Entry :=
  .call (.host 0) (.getPropertyData numberedSdk .utf8 1 ⟨5, 1, 0⟩ ⟨0, none⟩ n)

/-- The first iteration of the monitor. -/
def firstPoll : List (Act Tid Entry) :=
  .call .monitor (.poll .fine) :: List.replicate 10 (.tick .monitor)

theorem readsList_of_other {a : Act Tid Entry} {g : ListView} {p q : System ℚ}
    (ha : (∃ t, a = .tick t) ∨ a = askListSize ∨ ∃ sys, a = .call .monitor (.poll sys)) :
    ReadsList 0 g p a q := by
  rcases ha with ⟨t, rfl⟩ | rfl | ⟨sys, rfl⟩
  · exact ⟨nofun, nofun⟩
  · refine ⟨nofun, ?_⟩
    rintro e n ⟨⟩ ⟨⟩
  · exact ⟨nofun, nofun⟩

theorem readsList_list {n : UInt32} {g : ListView} {p q : System ℚ} (hg : g.size = some n) :
    ReadsList 0 g p (askList n) q := by
  refine ⟨nofun, ?_⟩
  rintro e n' ⟨⟩ ⟨⟩
  exact hg

/-- The host reads the list, the monitor finds no device, and the host reads it again. -/
theorem device_list_never_stale_gone : ∃ (as : List (Act Tid Entry)) (p : System ℚ) (g : ListView),
    GhostRun start (ListView.next 0) (ReadsList 0) (System.init noSegment) {} as p g ∧
      g.tally = ⟨1, 1, false⟩ ∧
      ∃ list, g.list = some list ∧ list = [] ∧
        p.shared.listNow numberedSdk .utf8 ⟨5, 1, 0⟩ ⟨0, none⟩ = some list := by
  obtain ⟨p₁, g₁, p₂, p₃, g₃, p₄, p, g, h₁, hsize₁, h₂, h₃, hsize₃, h₄, h₅, htally, hhandled,
      hlist⟩ : ∃ p₁ g₁ p₂ p₃ g₃ p₄ p g,
        runGhost start (ListView.next 0) [askListSize, .tick (.host 0)]
          (System.init noSegment, {}) = some (p₁, g₁) ∧ g₁.size = some 4 ∧
        p₁.next start (askList 4) = some p₂ ∧
        runGhost start (ListView.next 0)
          (.tick (.host 0) :: firstPoll ++ [askListSize, .tick (.host 0)])
          (p₂, g₁.next 0 p₁ (askList 4) p₂) = some (p₃, g₃) ∧ g₃.size = some 0 ∧
        p₃.next start (askList 0) = some p₄ ∧
        runGhost start (ListView.next 0) [.tick (.host 0)]
          (p₄, g₃.next 0 p₃ (askList 0) p₄) = some (p, g) ∧
        g.tally = ⟨1, 1, false⟩ ∧ g.handled = true ∧ g.list = some [] :=
    ⟨_, _, _, _, _, _, _, _, rfl, rfl, rfl, rfl, rfl, rfl, rfl, rfl, rfl, rfl⟩
  have hother {as : List (Act Tid Entry)} {p q : System ℚ} {g g' : ListView}
      (h : runGhost start (ListView.next 0) as (p, g) = some (q, g'))
      (has : ∀ a ∈ as, (∃ t, a = .tick t) ∨ a = askListSize ∨ ∃ sys, a = .call .monitor (.poll sys)) :
      GhostRun start (ListView.next 0) (ReadsList 0) p g as q g' :=
    GhostRun.of_runGhost h fun a ha _ _ _ => readsList_of_other (has a ha)
  have hfirst := (hother h₁ (by simp)).tail (readsList_list hsize₁) h₂
  have hsecond := (hfirst.append (hother h₃ (by simp [firstPoll]))).tail (readsList_list hsize₃) h₄
  have hrun := hsecond.append (hother h₅ (by simp))
  obtain ⟨-, -, hfresh⟩ := device_list_never_stale rfl hrun
  obtain ⟨list, hread, hnow, -⟩ := hfresh (by rw [htally]) hhandled
  rw [hlist] at hread
  cases hread
  exact ⟨_, p, g, hrun, htally, [], hlist, rfl, hnow numberedSdk .utf8 _ _ ⟨rfl, rfl⟩⟩

end Line6
