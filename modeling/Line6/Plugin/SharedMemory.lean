import Line6.World

/-!
# The plugin's access to the segment

`AttachShm`, `DevChannels` and `DeviceNameCopy` (`Line6HAL.c`, "Shared memory"). Every read of a
global or of the mapped segment is an action of its own, except that the copies of the name and
of the cursor are one each. CoreFoundation is the parameter `cf`: which byte strings
`CFStringCreateWithCString` accepts as UTF-8 (it returns NULL on the others), and `CFRetain` of
NULL kills the process.
-/

namespace Line6

open Conc Conc.Prog

variable {α : Type}

/-- Change the plugin's globals. -/
def wrPlug (f : Plugin → Plugin) : Prog (World α) Unit := wr fun m => { m with plug := f m.plug }

/-! ## Attaching -/

/-- `AttachShm`. -/
def attachShm (sys : Sys) : Prog (World α) Unit := do
  if ← rd fun m => m.plug.gShm then return () -- fast path; gShm is written once
  acquire
  if ← rd fun m => m.plug.gShm then
    release
  else if !(← rd fun m => m.linked && sys.openOk) then
    release -- daemon not running
  else if !sys.mmapOk then
    release
  else if (← rd fun m => m.shm.magic) != shmMagic then
    release
  else if (← rd fun m => m.shm.version) != shmVersion then
    release
  else
    wrPlug fun p => { p with gShm := true }
    release

/-- The clamp of `DevChannels`. -/
def clampChannels (c : UInt32) : UInt32 := if c = 0 ∨ maxChannels < c then maxChannels else c

/-- `DevChannels`. -/
def devChannels : Prog (World α) UInt32 := do
  if ← rd fun m => m.plug.gShm then
    let c ← rd fun m => m.shm.channels
    return clampChannels c
  else
    return clampChannels maxChannels

/-- What `DevChannels` returns in a state. -/
def World.devChannels (m : World α) : UInt32 :=
  clampChannels (if m.plug.gShm then m.shm.channels else maxChannels)

@[simp] theorem exec_devChannels (l : Bool) (m : World α) :
    exec devChannels l m = .done l m m.devChannels := by
  unfold devChannels World.devChannels
  cases h : m.plug.gShm
  · simp [h]
  · simp [h]

/-- What `DevChannels` returns while the others change neither that nor detach the plugin, and keep
`S`. -/
theorem safe_devChannels {T : Terms (World α)} {acq S : World α → Prop} {h : Bool} {m : World α}
    (hguar : ∀ m, T.guar h m m)
    (hcount : ∀ m m', T.rely h m m' → m'.devChannels = m.devChannels)
    (hattached : ∀ m m', T.rely h m m' → m.plug.gShm = true → m'.plug.gShm = true)
    (hS : ∀ m m', T.rely h m m' → S m → S m') (hm : S m) :
    Safe T acq (fun h' ch m' => h' = h ∧ S m' ∧ m'.devChannels = ch) h Line6.devChannels m := by
  intro m₁ h₁
  refine ⟨hguar m₁, ?_⟩
  have hm₁ := hS _ _ h₁ hm
  show Safe _ _ _ h (if m₁.plug.gShm = true then _ else _) m₁
  by_cases hg : m₁.plug.gShm = true
  · rw [if_pos hg]
    intro m₂ h₂
    refine ⟨hguar m₂, fun m₃ h₃ => ⟨rfl, hS _ _ h₃ (hS _ _ h₂ hm₁), (hcount _ _ h₃).trans ?_⟩⟩
    show clampChannels (if m₂.plug.gShm = true then _ else _) = _
    rw [if_pos (hattached _ _ h₂ hg)]
    rfl
  · rw [if_neg hg]
    intro m₂ h₂
    refine ⟨rfl, hS _ _ h₂ hm₁, (hcount _ _ h₂).trans ?_⟩
    unfold World.devChannels
    rw [if_neg hg]

theorem clampChannels_le (c : UInt32) : (clampChannels c).toNat ≤ 8 := by
  unfold clampChannels
  split_ifs with h
  · decide
  · rw [not_or, UInt32.not_lt, UInt32.le_iff_toNat_le] at h
    exact h.2

theorem one_le_clampChannels (c : UInt32) : 1 ≤ (clampChannels c).toNat := by
  unfold clampChannels
  split_ifs with h
  · decide
  · rw [not_or] at h
    exact Nat.pos_of_ne_zero fun hzero => h.1 (UInt32.toNat_inj.mp hzero)

/-- A count the table allows is left alone. -/
theorem clampChannels_eq {c : UInt32} (h1 : 1 ≤ c.toNat) (h8 : c.toNat ≤ 8) :
    clampChannels c = c := by
  unfold clampChannels
  rw [if_neg]
  rintro (rfl | h)
  · exact absurd h1 (by decide)
  · exact absurd (UInt32.lt_iff_toNat_lt.mp h) (Nat.not_lt.mpr h8)

/-! ## The device name -/

/-- CoreFoundation: the bytes `CFStringCreateWithCString` accepts as UTF-8. -/
structure Cf where
  createUTF8 : List UInt8 → Bool

/-- CoreFoundation as documented: the bytes that are UTF-8. -/
def Cf.utf8 : Cf := ⟨fun b => ByteArray.validateUTF8 ⟨b.toArray⟩⟩

/-- The C string in `buf` once the header's name, or nothing, is copied there. -/
def nameBuf (name : Option (Vector UInt8 nameLen)) : List UInt8 :=
  let buf := match name with
    | some v => cString (v.toList.take (nameLen - 1))
    | none => []
  if buf = [] then "Line 6".toUTF8.data.toList else buf

/-- `strncpy(dst, src, NAME_LEN - 1)`: the bytes of `src`, zeros up to the bound, the last byte
of `dst` left. -/
def strncpyName (dst : Vector UInt8 nameLen) (src : List UInt8) : Vector UInt8 nameLen :=
  Vector.ofFn fun i => if i.val < nameLen - 1 then src.getD i.val 0 else dst.get i

/-- `CFRelease`. -/
def Plugin.cfRelease (p : Plugin) (i : Nat) : Plugin :=
  { p with strings := p.strings.modify i fun o => { o with refs := o.refs - 1 } }

/-- `CFRetain`. -/
def Plugin.cfRetain (p : Plugin) (i : Nat) : Plugin :=
  { p with strings := p.strings.modify i fun o => { o with refs := o.refs + 1 } }

/-- `gCachedName = CFStringCreateWithCString(NULL, buf, kCFStringEncodingUTF8)`. -/
def Plugin.cfCreate (cf : Cf) (p : Plugin) (buf : List UInt8) : Plugin :=
  if cf.createUTF8 buf then
    { p with strings := p.strings ++ [⟨buf, 1⟩], gCachedName := some p.strings.length }
  else { p with gCachedName := none }

/-- The test of `DeviceNameCopy`: nothing cached, or another name. -/
def Plugin.nameStale (p : Plugin) (buf : List UInt8) : Bool :=
  p.gCachedName.isNone || buf != cString p.gCachedNameStr.toList

/-- `DeviceNameCopy`. -/
def deviceNameCopy (cf : Cf) : Prog (World α) Nat := do
  let name ← (do
    if ← rd fun m => m.plug.gShm then
      let v ← rd fun m => m.shm.name
      return some v
    else
      return none)
  let buf := nameBuf name
  acquire
  if ← rd fun m => m.plug.nameStale buf then
    wrPlug fun p => match p.gCachedName with
      | some old => p.cfRelease old
      | none => p
    wrPlug fun p => p.cfCreate cf buf
    wrPlug fun p => { p with gCachedNameStr := strncpyName p.gCachedNameStr buf }
  match ← rd fun m => m.plug.gCachedName with
  | none => trap -- CFRetain(NULL)
  | some result =>
    wrPlug fun p => p.cfRetain result
    release
    return result

/-- The end of `DeviceNameCopy`: the cached string, with a reference for the caller. -/
def retainCached : Prog (World α) Nat := do
  match ← rd fun m => m.plug.gCachedName with
  | none => trap
  | some result =>
    wrPlug fun p => p.cfRetain result
    release
    return result

theorem exec_retainCached {m : World α} {i : Nat} (h : m.plug.gCachedName = some i) :
    exec retainCached true m = .done false { m with plug := m.plug.cfRetain i } i := by
  simp [retainCached, h, wrPlug]

/-- The C string `DeviceNameCopy` builds in a state. -/
def World.nameBuf (m : World α) : List UInt8 :=
  Line6.nameBuf (if m.plug.gShm then some m.shm.name else none)

/-- The cached string has to be rebuilt, from bytes CoreFoundation rejects. -/
def NameRejected (cf : Cf) (m : World α) : Prop :=
  m.plug.nameStale m.nameBuf = true ∧ cf.createUTF8 m.nameBuf = false

/-- **`DeviceNameCopy` dies exactly on a rejected name**, and otherwise returns the cached
string. -/
theorem exec_deviceNameCopy (cf : Cf) (m : World α) :
    (NameRejected cf m → exec (deviceNameCopy cf) false m = .trapped) ∧
      (¬ NameRejected cf m → ∃ m' i, exec (deviceNameCopy cf) false m = .done false m' i) := by
  unfold NameRejected deviceNameCopy World.nameBuf
  cases hs : m.plug.nameStale (nameBuf (if m.plug.gShm then some m.shm.name else none)) with
  | false =>
    cases hc : m.plug.gCachedName with
    | none => simp [Plugin.nameStale, hc] at hs
    | some i =>
      refine ⟨fun h => absurd h.1 Bool.false_ne_true, fun _ => ?_⟩
      cases hg : m.plug.gShm <;> simp_all [wrPlug]
  | true =>
    cases hu : cf.createUTF8 (nameBuf (if m.plug.gShm then some m.shm.name else none)) with
    | false =>
      refine ⟨fun _ => ?_, fun h => absurd ⟨rfl, rfl⟩ h⟩
      cases hg : m.plug.gShm <;> simp_all [wrPlug, Plugin.cfCreate]
    | true =>
      refine ⟨fun h => absurd h.2.symm Bool.false_ne_true, fun _ => ?_⟩
      cases hg : m.plug.gShm <;> simp_all [wrPlug, Plugin.cfCreate]

end Line6
