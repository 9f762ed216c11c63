import Line6.Lib.Struct
import Line6.Plugin.NameCache
import Line6.Plugin.Property

/-!
# The property sweep (`plugin/haltest.c`)

`sweep` asks for every property of every object, in every scope and for three elements, twice, the
way the HAL does, and reports where the answers do not fit together; the installation depends on
it. `rep` is how a value looks in memory.

* `exec_sweepOne`: one property is never reported.
* `sweep_passes_iff`: the sweep finds nothing, in any state of the plugin, unless the name of the
  device cannot be made; then it does not come back.
-/

namespace Line6

open Conc Conc.Prog

variable {α : Type}

/-! ## The sweep -/

/-- What the sweep prints a line for. -/
inductive Problem where
  | sizeUnstable
  | dataError
  | sizeMismatch
  | dataUnstable
  | answersElement
  deriving Repr, DecidableEq

/-- The buffer of a data call, of zeros before the call. -/
def Reply.buffer (rep : Datum → List UInt8) (r : Reply) : Struct.Mem :=
  r.writes.foldl (fun m w => Struct.splice m w.1 (rep w.2)) fun _ => 0

/-- `memcmp(buf1, buf2, n) != 0`. -/
def differ (m m' : Struct.Mem) (n : Nat) : Bool := (List.range n).any fun i => m i != m' i

/-- The checks of two replies to the property of size `size`. -/
def checkReplies (rep : Datum → List UInt8) (element size : UInt32) (r r' : Reply) :
    List Problem :=
  (if r.size ≠ size then [.sizeMismatch] else []) ++
  (if r.size ≠ r'.size ∨ differ (r.buffer rep) (r'.buffer rep) (min r.size.toNat 512) = true then
    [.dataUnstable] else []) ++
  if element ≠ 0 then [.answersElement] else []

/-- The body of the loops of `sweep`. -/
def sweepOne (k : Sdk) (cf : Cf) (rep : Datum → List UInt8) (obj : UInt32) (a : Address) :
    Prog (World α) (List Problem) := do
  if !(← hasProperty k obj a) then return []
  let r1 ← getPropertyDataSize k obj a
  let r2 ← getPropertyDataSize k obj a
  match r1, r2 with
  | .ok size1, .ok size2 =>
    if size1 ≠ size2 then return [.sizeUnstable]
    let cap := if 512 < size1 then 512 else size1
    let d1 ← getPropertyData k cf obj a ⟨0, none⟩ cap
    let d2 ← getPropertyData k cf obj a ⟨0, none⟩ cap
    match d1, d2 with
    | .ok d1, .ok d2 => return checkReplies rep a.element size1 d1 d2
    | _, _ => return [.dataError]
  | _, _ => return [.sizeUnstable]

/-- The loops. -/
def sweepAll (k : Sdk) (cf : Cf) (rep : Datum → List UInt8) :
    List (UInt32 × Address) → Prog (World α) (List Problem)
  | [] => return []
  | (obj, a) :: queries => do
    let found ← sweepOne k cf rep obj a
    let rest ← sweepAll k cf rep queries
    return found ++ rest

/-- `kSelectors`. -/
def kSelectors (k : Sdk) : List UInt32 :=
  [k.device .baseClass, k.device .objectClass, k.device .owner, k.device .name,
    k.device .manufacturer, k.device .ownedObjects, k.plugIn .deviceList, k.plugIn .boxList,
    k.plugIn .clockDeviceList, k.plugIn .translateUIDToDevice, k.plugIn .resourceBundle,
    k.device .controlList, k.device .deviceUID, k.device .modelUID, k.device .transportType,
    k.device .clockDomain, k.device .deviceIsAlive, k.device .deviceIsRunning,
    k.device .canBeDefaultDevice, k.device .canBeDefaultSystemDevice, k.device .latency,
    k.device .safetyOffset, k.device .isHidden, k.device .zeroTimeStampPeriod,
    k.device .nominalSampleRate, k.device .availableNominalSampleRates, k.device .relatedDevices,
    k.device .streams, k.device .streamConfiguration, k.device .preferredChannelsForStereo,
    k.stream .isActive, k.stream .direction, k.stream .terminalType, k.stream .startingChannel,
    k.stream .latency, k.stream .virtualFormat, k.stream .physicalFormat,
    k.stream .availableVirtualFormats, k.stream .availablePhysicalFormats]

/-- The loop heads: objects 1 to 3, `kScopes`, elements 0 to 2, `kSelectors`. -/
def sweepQueries (k : Sdk) : List (UInt32 × Address) :=
  [1, 2, 3].flatMap fun obj => [k.scopeGlobal, k.scopeInput, k.scopeOutput].flatMap fun scope =>
    [0, 1, 2].flatMap fun element => (kSelectors k).map fun selector =>
      (obj, ⟨selector, scope, element⟩)

/-- `sweep`: the problems it reports, `gProblems` of them. -/
def sweep (k : Sdk) (cf : Cf) (rep : Datum → List UInt8) : Prog (World α) (List Problem) :=
  sweepAll k cf rep (sweepQueries k)

/-! ## Queries that only read -/

/-- Alone, the program ends and changes nothing. -/
def Looks {β : Type} (p : Prog (World α) β) : Prop :=
  ∀ m, ∃ b, exec p false m = .done false m b

theorem looks_of_devChannels {β : Type} {f : UInt32 → Prog (World α) β} (h : ∀ c, Looks (f c)) :
    Looks (devChannels >>= f) := by
  intro m
  rw [exec_bind_done (exec_devChannels _ _)]
  exact h _ m

theorem looks_getPropertyDataSize (k : Sdk) (obj : UInt32) (a : Address) :
    Looks (getPropertyDataSize (α := α) k obj a) := by
  intro m
  unfold getPropertyDataSize
  split_ifs
  · exact ⟨_, rfl⟩
  · cases k.plugInSel a.selector with
    | none => exact ⟨_, rfl⟩
    | some s => cases s <;> exact ⟨_, rfl⟩
  · cases k.deviceSel a.selector with
    | none => exact ⟨_, rfl⟩
    | some s => cases s <;> exact ⟨_, rfl⟩
  · cases k.streamSel a.selector with
    | none => exact ⟨_, rfl⟩
    | some s => cases s <;> exact ⟨_, rfl⟩
  · exact ⟨_, rfl⟩

/-- Only the name of the device is more than a look. -/
theorem looks_getPropertyData (k : Sdk) (cf : Cf) {obj : UInt32} {a : Address} (q : Qualifier)
    (inSize : UInt32) (hname : ¬ Asks k obj a .name) :
    Looks (getPropertyData (α := α) k cf obj a q inSize) := by
  unfold getPropertyData
  by_cases hel : a.element = k.elementMain
  swap
  · rw [if_pos hel]
    exact fun m => ⟨_, rfl⟩
  rw [if_neg (not_not_intro hel)]
  split_ifs with h1 h2 h3
  · intro m
    cases k.plugInSel a.selector with
    | none => exact ⟨_, rfl⟩
    | some s => cases s <;> exact ⟨_, rfl⟩
  · cases hs : k.deviceSel a.selector with
    | none => exact fun m => ⟨_, rfl⟩
    | some s =>
      cases s with
      | name => exact absurd ⟨h2, hel, hs⟩ hname
      | streamConfiguration =>
        show Looks (if a.scope = k.scopeOutput then _ else _)
        split_ifs
        · exact fun m => ⟨_, rfl⟩
        · exact looks_of_devChannels fun _ _ => ⟨_, rfl⟩
      | _ => exact fun m => ⟨_, rfl⟩
  · refine looks_of_devChannels fun c m => ?_
    cases k.streamSel a.selector with
    | none => exact ⟨_, rfl⟩
    | some s => cases s <;> exact ⟨_, rfl⟩
  · exact fun m => ⟨_, rfl⟩

/-- No property is longer than the harness's buffers. -/
theorem dataSize_le {k : Sdk} {obj : UInt32} {a : Address} {m : World α} {n : UInt32}
    (h : exec (getPropertyDataSize k obj a) false m = .done false m (.ok n)) : n.toNat ≤ 512 := by
  unfold getPropertyDataSize at h
  split_ifs at h
  · cases h
  · cases hs : k.plugInSel a.selector with
    | none => rw [hs] at h; cases h
    | some s =>
      rw [hs] at h
      cases s <;> cases h <;> first | decide | (split_ifs <;> decide)
  · cases hs : k.deviceSel a.selector with
    | none => rw [hs] at h; cases h
    | some s =>
      rw [hs] at h
      cases s <;> cases h <;>
        first | decide | (split_ifs <;> decide) | (unfold deviceStreamList; split_ifs <;> decide)
  · cases hs : k.streamSel a.selector with
    | none => rw [hs] at h; cases h
    | some s =>
      rw [hs] at h
      cases s <;> cases h <;> decide
  · cases h

/-! ## The name -/

/-- Nothing but the name cache is different. -/
def SameButName (m m' : World α) : Prop :=
  ∃ cached str strings, m' = { m with plug :=
    { m.plug with gCachedName := cached, gCachedNameStr := str, strings := strings } }

theorem SameButName.trans {m m' m'' : World α} (h : SameButName m m') (h' : SameButName m' m'') :
    SameButName m m'' := by
  obtain ⟨_, _, _, rfl⟩ := h
  obtain ⟨cached, str, strings, rfl⟩ := h'
  exact ⟨cached, str, strings, rfl⟩

theorem SameButName.nameBuf {m m' : World α} (h : SameButName m m') : m'.nameBuf = m.nameBuf := by
  obtain ⟨_, _, _, rfl⟩ := h
  rfl

theorem dropCached_same (p : Plugin) :
    ∃ strings, p.dropCached = { p with strings := strings } := by
  unfold Plugin.dropCached
  split
  · exact ⟨_, rfl⟩
  · exact ⟨p.strings, rfl⟩

/-- **A copy of the name** is the cached string from then on. -/
theorem exec_deviceNameCopy_cached {cf : Cf} {m : World α} (h : NameCached m.plug)
    (hok : ¬ NameRejected cf m) : ∃ m' i, exec (deviceNameCopy cf) false m = .done false m' i ∧
      SameButName m m' ∧ NameCached m'.plug ∧ m'.plug.Caches i m.nameBuf := by
  rcases exec_deviceNameCopy_done hok with ⟨hstale, i, hi, hexec⟩ | ⟨-, hexec⟩
  · obtain ⟨j, hj⟩ := nameStale_eq_false_iff.mp hstale
    cases hi.symm.trans hj.object
    exact ⟨_, i, hexec, ⟨_, _, _, rfl⟩, h.retain i, hj.object, hj.key⟩
  · obtain ⟨strings, hdrop⟩ := dropCached_same m.plug
    have hcached : NameCached (m.plug.renamed m.nameBuf) :=
      h.renamed (length_nameBuf _) (zero_notMem_nameBuf _)
    refine ⟨_, _, hexec, ?_, hcached.retain _, rfl, ?_⟩
    · unfold Plugin.renamed
      rw [hdrop]
      exact ⟨_, _, _, rfl⟩
    · have hlen : m.nameBuf.length ≤ 31 := length_nameBuf _
      have hnul : 0 ∉ m.nameBuf := zero_notMem_nameBuf _
      show cString (strncpyName m.plug.gCachedNameStr m.nameBuf).toList = _
      rw [strncpyName_eq h.last, cString_cField hlen hnul]

/-- It can be copied as long as it is cached. -/
theorem not_rejected_of_caches {cf : Cf} {m : World α} {i : Nat}
    (h : m.plug.Caches i m.nameBuf) : ¬ NameRejected cf m := by
  rintro ⟨hstale, -⟩
  rw [nameStale_eq_false_iff.mpr ⟨i, h⟩] at hstale
  cases hstale

/-- Another copy is the same string. -/
theorem exec_deviceNameCopy_again (cf : Cf) {m : World α} {i : Nat}
    (h : m.plug.Caches i m.nameBuf) :
    exec (deviceNameCopy cf) false m = .done false { m with plug := m.plug.cfRetain i } i := by
  have hfresh : m.plug.nameStale m.nameBuf = false := nameStale_eq_false_iff.mpr ⟨i, h⟩
  rcases exec_deviceNameCopy_done (not_rejected_of_caches h) with ⟨-, j, hj, hexec⟩ | ⟨hstale, -⟩
  · cases hj.symm.trans h.object
    exact hexec
  · rw [hfresh] at hstale
    cases hstale

/-- The query for the name is a copy of it. -/
theorem getPropertyData_name {k : Sdk} {obj : UInt32} {a : Address} (h : Asks k obj a .name)
    (cf : Cf) (q : Qualifier) (inSize : UInt32) :
    getPropertyData (α := α) k cf obj a q inSize =
      deviceNameCopy cf >>= fun i => ret (.ok (replyString (.object i))) := by
  obtain ⟨rfl, hel, hs⟩ := h
  unfold getPropertyData
  rw [if_neg (not_not_intro hel), if_neg (by decide), if_pos rfl, hs]
  rfl

theorem getPropertyDataSize_name {k : Sdk} {obj : UInt32} {a : Address} (h : Asks k obj a .name) :
    getPropertyDataSize (α := α) k obj a = ret (.ok sizeofCFStringRef) := by
  obtain ⟨rfl, hel, hs⟩ := h
  unfold getPropertyDataSize
  rw [if_neg (not_not_intro hel), if_neg (by decide), if_pos rfl, hs]
  rfl

/-! ## One property -/

theorem checkReplies_self (rep : Datum → List UInt8) (r : Reply) :
    checkReplies rep 0 r.size r r = [] := by
  have hsame : differ (r.buffer rep) (r.buffer rep) (min r.size.toNat 512) = false := by
    simp [differ]
  simp [checkReplies, hsame]

/-- The sizes and replies are asked for twice. -/
theorem exec_sweepOne_data {k : Sdk} {cf : Cf} {rep : Datum → List UInt8} {obj : UInt32}
    {a : Address} {m m₁ m₂ : World α} {n : UInt32} {r : Reply}
    (hmain : k.elementMain = 0)
    (hsize : exec (getPropertyDataSize k obj a) false m = .done false m (.ok n))
    (hfirst : exec (getPropertyData k cf obj a ⟨0, none⟩ n) false m = .done false m₁ (.ok r))
    (hagain : exec (getPropertyData k cf obj a ⟨0, none⟩ n) false m₁ = .done false m₂ (.ok r))
    (hr : r.size = n) : exec (sweepOne k cf rep obj a) false m = .done false m₂ [] := by
  have hel : a.element = 0 := by
    by_contra hel
    unfold getPropertyDataSize at hsize
    rw [if_pos (hmain ▸ hel)] at hsize
    cases hsize
  have hhas : exec (hasProperty k obj a) false m = .done false m true := exec_bind_done hsize
  have hcap : (if 512 < n then 512 else n) = n := by
    refine if_neg fun hlong => ?_
    have hlong := UInt32.lt_iff_toNat_lt.mp hlong
    exact absurd (dataSize_le hsize) (Nat.not_le.mpr hlong)
  unfold sweepOne
  rw [exec_bind_done hhas]
  simp only [Bool.not_true, Bool.false_eq_true, if_false]
  rw [exec_bind_done hsize, exec_bind_done hsize]
  simp only [ne_eq, not_true_eq_false, if_false, hcap]
  rw [exec_bind_done hfirst, exec_bind_done hagain]
  subst hr
  rw [hel]
  dsimp only
  rw [checkReplies_self]
  rfl

/-- A query the server does not answer is passed over. -/
theorem exec_sweepOne_error {k : Sdk} {cf : Cf} {rep : Datum → List UInt8} {obj : UInt32}
    {a : Address} {m : World α} {e : HalError}
    (hsize : exec (getPropertyDataSize k obj a) false m = .done false m (.error e)) :
    exec (sweepOne k cf rep obj a) false m = .done false m [] := by
  have hhas : exec (hasProperty k obj a) false m = .done false m false := exec_bind_done hsize
  unfold sweepOne
  rw [exec_bind_done hhas]
  rfl

/-- **One property is never reported**, and it only changes the name cache, if it comes back. -/
theorem exec_sweepOne {k : Sdk} {cf : Cf} (rep : Datum → List UInt8) (hmain : k.elementMain = 0)
    (obj : UInt32) (a : Address) {m : World α} (hcached : NameCached m.plug)
    (hok : ¬ (Asks k obj a .name ∧ NameRejected cf m)) :
    ∃ m', exec (sweepOne k cf rep obj a) false m = .done false m' [] ∧ SameButName m m' ∧
      NameCached m'.plug ∧ (NameRejected cf m' → NameRejected cf m) ∧
      (¬ Asks k obj a .name → m' = m) := by
  obtain ⟨s, hsize⟩ := looks_getPropertyDataSize k obj a m
  cases s with
  | error e => exact ⟨m, exec_sweepOne_error hsize, ⟨_, _, _, rfl⟩, hcached, id, fun _ => rfl⟩
  | ok n =>
    by_cases hname : Asks k obj a .name
    · have hnot : ¬ NameRejected cf m := fun h => hok ⟨hname, h⟩
      obtain ⟨m₁, i, hfirst, hsame₁, hcached₁, hcaches₁⟩ :=
        exec_deviceNameCopy_cached hcached hnot
      rw [← hsame₁.nameBuf] at hcaches₁
      have hagain := exec_deviceNameCopy_again cf hcaches₁
      have hdata {m m' : World α} (h : exec (deviceNameCopy cf) false m = .done false m' i) :
          exec (getPropertyData k cf obj a ⟨0, none⟩ n) false m =
            .done false m' (.ok (replyString (.object i))) := by
        rw [getPropertyData_name hname]
        exact exec_bind_done h
      rw [getPropertyDataSize_name hname] at hsize
      cases hsize
      refine ⟨_, exec_sweepOne_data hmain ?_ (hdata hfirst) (hdata hagain) rfl,
        hsame₁.trans ⟨_, _, _, rfl⟩, hcached₁.retain i, fun h => absurd h ?_,
        fun h => absurd hname h⟩
      · rw [getPropertyDataSize_name hname]
        rfl
      · exact not_rejected_of_caches ⟨hcaches₁.object, hcaches₁.key⟩
    · obtain ⟨d, hdata⟩ := looks_getPropertyData k cf ⟨0, none⟩ n hname m
      have hagree := (agree_iff k cf obj a ⟨0, none⟩ m).mpr hok
      unfold Agree answer at hagree
      rw [hsize] at hagree
      obtain ⟨⟨r, hr, hn⟩, -⟩ := hagree
      rw [hdata] at hr
      cases Option.some.inj hr
      exact ⟨m, exec_sweepOne_data hmain hsize hdata hdata hn, ⟨_, _, _, rfl⟩, hcached, id,
        fun _ => rfl⟩

/-- It does not come back from a name that cannot be made. -/
theorem exec_sweepOne_rejected {k : Sdk} {cf : Cf} (rep : Datum → List UInt8) {obj : UInt32}
    {a : Address} {m : World α} (hname : Asks k obj a .name) (hrej : NameRejected cf m) :
    exec (sweepOne k cf rep obj a) false m = .trapped := by
  unfold sweepOne hasProperty
  simp only [getPropertyDataSize_name hname, getPropertyData_name hname]
  have htrap : exec (deviceNameCopy cf) false m = .trapped := (exec_deviceNameCopy cf m).1 hrej
  simp only [ret_bind, pure_eq, Except.toBool, Bool.not_true, Bool.false_eq_true, if_false, ne_eq,
    not_true_eq_false]
  rw [exec_bind, exec_bind, htrap]
  rfl

/-! ## The whole sweep -/

/-- **The loops** come back, with nothing to report, unless they ask for a name that cannot be
made. -/
theorem exec_sweepAll {k : Sdk} {cf : Cf} (rep : Datum → List UInt8) (hmain : k.elementMain = 0)
    {queries : List (UInt32 × Address)} {m : World α} (hcached : NameCached m.plug) :
    ((∃ q ∈ queries, Asks k q.1 q.2 .name) ∧ NameRejected cf m →
      exec (sweepAll k cf rep queries) false m = .trapped) ∧
    (¬ ((∃ q ∈ queries, Asks k q.1 q.2 .name) ∧ NameRejected cf m) →
      ∃ m', exec (sweepAll k cf rep queries) false m = .done false m' [] ∧ SameButName m m') := by
  induction queries generalizing m with
  | nil =>
    refine ⟨?_, fun _ => ⟨m, rfl, _, _, _, rfl⟩⟩
    rintro ⟨⟨_, hmem, -⟩, -⟩
    exact absurd hmem List.not_mem_nil
  | cons q queries ih =>
    obtain ⟨obj, a⟩ := q
    have hcons : sweepAll (α := α) k cf rep ((obj, a) :: queries) =
        sweepOne k cf rep obj a >>= fun found =>
          sweepAll k cf rep queries >>= fun rest => ret (found ++ rest) := rfl
    rw [hcons]
    constructor
    · rintro ⟨⟨q, hmem, hq⟩, hrej⟩
      by_cases hname : Asks k obj a .name
      · rw [exec_bind, exec_sweepOne_rejected rep hname hrej]
        rfl
      · obtain ⟨m₁, hexec, -, -, -, hsame⟩ :=
          exec_sweepOne rep hmain obj a hcached fun h => hname h.1
        obtain rfl := hsame hname
        have hlater : q ∈ queries := by
          rcases List.mem_cons.mp hmem with rfl | hmem
          · exact absurd hq hname
          · exact hmem
        rw [exec_bind_done hexec, exec_bind, (ih hcached).1 ⟨⟨q, hlater, hq⟩, hrej⟩]
        rfl
    · intro hok
      obtain ⟨m₁, hexec, hsame, hcached₁, hrej₁, -⟩ := exec_sweepOne rep hmain obj a hcached
        fun h => hok ⟨⟨_, List.mem_cons_self, h.1⟩, h.2⟩
      obtain ⟨m', hrest, hsame'⟩ := (ih hcached₁).2 fun h => hok
        ⟨h.1.imp fun q hq => ⟨List.mem_cons_of_mem _ hq.1, hq.2⟩, hrej₁ h.2⟩
      rw [exec_bind_done hexec, exec_bind_done hrest]
      exact ⟨m', rfl, hsame.trans hsame'⟩

/-- The sweep asks for the name. -/
theorem sweepQueries_name {k : Sdk} (hmain : k.elementMain = 0) :
    ∃ q ∈ sweepQueries k, Asks k q.1 q.2 .name := by
  refine ⟨(2, ⟨k.device .name, k.scopeGlobal, 0⟩), ?_, rfl, hmain.symm, k.deviceSel_device .name⟩
  unfold sweepQueries
  refine List.mem_flatMap.mpr ⟨2, by simp, List.mem_flatMap.mpr ⟨k.scopeGlobal, by simp,
    List.mem_flatMap.mpr ⟨0, by simp, List.mem_map.mpr ⟨k.device .name, ?_, rfl⟩⟩⟩⟩
  simp [kSelectors]

/-- **The sweep passes** in every state of the plugin and of the segment in which the device's
name can be made, whatever the constants of the SDK, and leaves all but the name cache as it was.
From a name that cannot be made it does not come back. -/
theorem sweep_passes_iff {k : Sdk} {cf : Cf} (rep : Datum → List UInt8) (hmain : k.elementMain = 0)
    {m : World α} (hcached : NameCached m.plug) :
    ((∃ m', exec (sweep k cf rep) false m = .done false m' []) ↔ ¬ NameRejected cf m) ∧
    (∀ m' problems, exec (sweep k cf rep) false m = .done false m' problems →
      problems = [] ∧ SameButName m m') ∧
    (NameRejected cf m → exec (sweep k cf rep) false m = .trapped) := by
  have hloops : (_ → exec (sweep k cf rep) false m = _) ∧
      (_ → ∃ m', exec (sweep k cf rep) false m = _ ∧ _) := exec_sweepAll rep hmain hcached
  obtain ⟨hdies, hpasses⟩ := hloops
  have hname := sweepQueries_name hmain
  refine ⟨⟨?_, fun hok => ?_⟩, fun m' problems hexec => ?_, fun hrej => hdies ⟨hname, hrej⟩⟩
  · rintro ⟨m', hexec⟩ hrej
    rw [hdies ⟨hname, hrej⟩] at hexec
    cases hexec
  · obtain ⟨m', hexec, -⟩ := hpasses fun h => hok h.2
    exact ⟨m', hexec⟩
  · by_cases hrej : NameRejected cf m
    · rw [hdies ⟨hname, hrej⟩] at hexec
      cases hexec
    · obtain ⟨m'', hexec', hsame⟩ := hpasses fun h => hrej h.2
      rw [hexec'] at hexec
      cases hexec
      exact ⟨rfl, hsame⟩

/-- The segment of a device `X3`, and a plugin that has cached the name `HD` before. -/
def renamed : World ℚ where
  linked := true
  shm := { (Shm.zero : Shm ℚ) with name := cField [88, 51] }
  plug := {
    gShm := true
    gCachedName := some 0
    gCachedNameStr := cField [72, 68]
    strings := [⟨[72, 68], 1⟩] }

/-- Numbers in memory are little-endian, the rest is nulls. -/
def littleEndian (d : Datum) : List UInt8 :=
  Struct.leBytes d.size (match d with | .u32 v => v.toNat | _ => 0)

theorem sweep_passes_iff_renamed : ∃ m' : World ℚ, renamed.plug.nameStale renamed.nameBuf = true ∧
    exec (sweep numberedSdk Cf.utf8 littleEndian) false renamed = .done false m' [] ∧
    SameButName renamed m' := by
  have hcached : NameCached renamed.plug := by
    refine ⟨by decide, fun i hi => ?_⟩
    obtain rfl : 0 = i := Option.some.inj hi
    exact ⟨_, rfl, by decide⟩
  have hok : ¬ NameRejected Cf.utf8 renamed := fun h => absurd h.2 (by decide)
  have hsweep : (_ ↔ ¬ NameRejected Cf.utf8 renamed) ∧ _ :=
    sweep_passes_iff (k := numberedSdk) littleEndian rfl hcached
  obtain ⟨m', hexec⟩ := hsweep.1.mpr hok
  obtain ⟨-, hsame⟩ := hsweep.2.1 m' [] hexec
  exact ⟨m', by decide, hexec, hsame⟩

end Line6
