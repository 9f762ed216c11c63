import Line6.Plugin.Io

/-!
# The property server

`Line6_GetPropertyDataSize`, `Line6_GetPropertyData`, `Line6_HasProperty`,
`Line6_IsPropertySettable` and `Line6_SetPropertyData` (`Line6HAL.c`). A `switch` over
`mSelector` is the look-up of the selector code among the labels of that switch (`PlugInSel`,
`DeviceSel`, `StreamSel`) and a match on the label. The numeric constants of the SDK are an
`Sdk`; it promises that no two labels of one switch have the same code.

A successful `GetPropertyData` is a `Reply`: the size it reports and its stores to the caller's
buffer, each at its byte offset.

* `agree_iff`: the size query and the data query agree, unless the model name has to be rebuilt from
  bytes that are not UTF-8; then the data query kills the process.
* `property_server_consistent_iff`: so do all five, and `HasProperty` knows what they answer.
-/

namespace Line6

open Conc Conc.Prog

variable {α : Type}

/-! ## Labels and constants -/

def kObjectIDPlugIn : UInt32 := 1

def kObjectIDDevice : UInt32 := 2

def kObjectIDStreamInput : UInt32 := 3

def kDeviceUID : String := "Line6_Device_UID"

def kDeviceModelUID : String := "Line6_Model_UID"

def kManufacturerName : String := "Line 6 (community driver)"

def kSampleRate : ℚ := 48000

def kBytesPerSample : UInt32 := 4

/-- The labels of the plug-in's switches. -/
inductive PlugInSel where
  | baseClass | objectClass | owner | manufacturer | ownedObjects | deviceList | boxList
  | clockDeviceList | translateUIDToDevice | resourceBundle
  deriving Repr, DecidableEq

def PlugInSel.all : List PlugInSel :=
  [.baseClass, .objectClass, .owner, .manufacturer, .ownedObjects, .deviceList, .boxList,
    .clockDeviceList, .translateUIDToDevice, .resourceBundle]

/-- The labels of the device's switches. -/
inductive DeviceSel where
  | baseClass | objectClass | owner | name | manufacturer | ownedObjects | streams | controlList
  | deviceUID | modelUID | transportType | clockDomain | deviceIsAlive | deviceIsRunning
  | canBeDefaultDevice | canBeDefaultSystemDevice | latency | safetyOffset | isHidden
  | zeroTimeStampPeriod | nominalSampleRate | availableNominalSampleRates | relatedDevices
  | streamConfiguration | preferredChannelsForStereo
  deriving Repr, DecidableEq

def DeviceSel.all : List DeviceSel :=
  [.baseClass, .objectClass, .owner, .name, .manufacturer, .ownedObjects, .streams, .controlList,
    .deviceUID, .modelUID, .transportType, .clockDomain, .deviceIsAlive, .deviceIsRunning,
    .canBeDefaultDevice, .canBeDefaultSystemDevice, .latency, .safetyOffset, .isHidden,
    .zeroTimeStampPeriod, .nominalSampleRate, .availableNominalSampleRates, .relatedDevices,
    .streamConfiguration, .preferredChannelsForStereo]

/-- The labels of the stream's switches. -/
inductive StreamSel where
  | baseClass | objectClass | owner | ownedObjects | isActive | direction | terminalType
  | startingChannel | latency | virtualFormat | physicalFormat | availableVirtualFormats
  | availablePhysicalFormats
  deriving Repr, DecidableEq

def StreamSel.all : List StreamSel :=
  [.baseClass, .objectClass, .owner, .ownedObjects, .isActive, .direction, .terminalType,
    .startingChannel, .latency, .virtualFormat, .physicalFormat, .availableVirtualFormats,
    .availablePhysicalFormats]

/-- The SDK's constants. -/
structure Sdk where
  plugIn : PlugInSel → UInt32
  device : DeviceSel → UInt32
  stream : StreamSel → UInt32
  plugIn_distinct : Function.Injective plugIn
  device_distinct : Function.Injective device
  stream_distinct : Function.Injective stream
  elementMain : UInt32
  scopeGlobal : UInt32
  scopeInput : UInt32
  scopeOutput : UInt32
  objectClassID : UInt32
  plugInClassID : UInt32
  deviceClassID : UInt32
  streamClassID : UInt32
  objectUnknown : UInt32
  transportTypeUSB : UInt32
  terminalTypeUnknown : UInt32
  formatLinearPCM : UInt32
  formatFlagIsFloat : UInt32
  formatFlagIsPacked : UInt32

namespace Sdk

variable (k : Sdk)

/-- `switch (a->mSelector)` over the plug-in's labels. -/
def plugInSel (selector : UInt32) : Option PlugInSel :=
  PlugInSel.all.find? fun s => k.plugIn s == selector

/-- `switch (a->mSelector)` over the device's labels. -/
def deviceSel (selector : UInt32) : Option DeviceSel :=
  DeviceSel.all.find? fun s => k.device s == selector

/-- `switch (a->mSelector)` over the stream's labels. -/
def streamSel (selector : UInt32) : Option StreamSel :=
  StreamSel.all.find? fun s => k.stream s == selector

/-- A `switch` finds a label by its code. -/
theorem find?_label {σ : Type} {code : σ → UInt32} (hcode : Function.Injective code) {l : List σ}
    {s : σ} (hs : s ∈ l) : (l.find? fun t => code t == code s) = some s := by
  induction l with
  | nil => cases hs
  | cons t l ih =>
    by_cases ht : t = s
    · rw [ht]
      exact List.find?_cons_of_pos (by simp)
    · rw [List.find?_cons_of_neg (by simpa using fun h => ht (hcode h))]
      exact ih ((List.mem_cons.mp hs).resolve_left (Ne.symm ht))

theorem deviceSel_device (s : DeviceSel) : k.deviceSel (k.device s) = some s :=
  find?_label k.device_distinct (by cases s <;> decide)

theorem streamSel_stream (s : StreamSel) : k.streamSel (k.stream s) = some s :=
  find?_label k.stream_distinct (by cases s <;> decide)

end Sdk

/-- `AudioObjectPropertyAddress`. -/
structure Address where
  selector : UInt32
  scope : UInt32
  element : UInt32
  deriving Repr, DecidableEq

/-- The qualifier: its size, and the CFString reference its pointer leads to, if it and the
reference are not NULL. -/
structure Qualifier where
  size : UInt32
  data : Option (Option String)
  deriving Repr, DecidableEq

/-! ## Values and layouts -/

/-- A CFString reference handed out: a constant, or an object of the plugin. -/
inductive CFRef where
  | const (text : String)
  | object (i : Nat)
  deriving Repr, DecidableEq

/-- A value stored in the caller's buffer. -/
inductive Datum where
  | u32 (v : UInt32)
  | f64 (v : ℚ)
  | cfString (r : CFRef)
  | null
  deriving Repr, DecidableEq

/-- `sizeof` of the stored type. -/
def Datum.size : Datum → Nat
  | .u32 _ => 4
  | .f64 _ => 8
  | .cfString _ => 8
  | .null => 8

/-- A successful answer: `*outSize`, and the stores to `outData` at their byte offsets. -/
structure Reply where
  size : UInt32
  writes : List (Nat × Datum)
  deriving Repr, DecidableEq

def sizeofUInt32 : UInt32 := 4

def sizeofFloat64 : UInt32 := 8

def sizeofCFStringRef : UInt32 := 8

def sizeofAudioClassID : UInt32 := 4

def sizeofAudioObjectID : UInt32 := 4

def sizeofAudioValueRange : UInt32 := 16

def sizeofASBD : UInt32 := 40

def sizeofRangedDescription : UInt32 := 56

/-- `offsetof(AudioBufferList, mBuffers)`. -/
def offsetofBuffers : UInt32 := 8

def sizeofAudioBuffer : UInt32 := 16

/-- `*(UInt32*)outData = v`. -/
def replyU32 (v : UInt32) : Reply := ⟨sizeofUInt32, [(0, .u32 v)]⟩

/-- `*(CFStringRef*)outData = r`. -/
def replyString (r : CFRef) : Reply := ⟨sizeofCFStringRef, [(0, .cfString r)]⟩

def replyNothing : Reply := ⟨0, []⟩

/-- `FillASBD`. -/
def fillASBD (k : Sdk) (channels : UInt32) : List (Nat × Datum) :=
  [(0, .f64 kSampleRate), (8, .u32 k.formatLinearPCM),
    (12, .u32 (k.formatFlagIsFloat ||| k.formatFlagIsPacked)),
    (16, .u32 (channels * kBytesPerSample)), (20, .u32 1),
    (24, .u32 (channels * kBytesPerSample)), (28, .u32 channels), (32, .u32 32), (36, .u32 0)]

/-- `DeviceStreamList`: the ids of the streams. -/
def deviceStreamList (k : Sdk) (scope : UInt32) : List UInt32 :=
  if scope = k.scopeGlobal ∨ scope = k.scopeInput then [kObjectIDStreamInput] else []

/-! ## GetPropertyDataSize -/

def plugInDataSize : PlugInSel → Prog (World α) (Except HalError UInt32)
  | .baseClass | .objectClass | .owner => return .ok sizeofAudioClassID
  | .manufacturer => return .ok sizeofCFStringRef
  | .ownedObjects | .deviceList => do -- 0 devices when absent
    let present ← rd fun m => m.plug.gDevicePresent
    return .ok (if present then sizeofAudioObjectID else 0)
  | .boxList | .clockDeviceList => return .ok 0
  | .translateUIDToDevice => return .ok sizeofAudioObjectID
  | .resourceBundle => return .ok sizeofCFStringRef

def deviceDataSize (k : Sdk) (scope : UInt32) : DeviceSel → Prog (World α) (Except HalError UInt32)
  | .baseClass | .objectClass | .owner => return .ok sizeofAudioClassID
  | .name | .manufacturer => return .ok sizeofCFStringRef
  | .ownedObjects | .streams =>
    return .ok (UInt32.ofNat (deviceStreamList k scope).length * sizeofAudioObjectID)
  | .controlList => return .ok 0
  | .deviceUID | .modelUID => return .ok sizeofCFStringRef
  | .transportType | .clockDomain | .deviceIsAlive | .deviceIsRunning | .canBeDefaultDevice
  | .canBeDefaultSystemDevice | .latency | .safetyOffset | .isHidden | .zeroTimeStampPeriod =>
    return .ok sizeofUInt32
  | .nominalSampleRate => return .ok sizeofFloat64
  | .availableNominalSampleRates => return .ok sizeofAudioValueRange
  | .relatedDevices => return .ok sizeofAudioObjectID
  | .streamConfiguration =>
    return .ok (if scope = k.scopeOutput then offsetofBuffers
      else offsetofBuffers + sizeofAudioBuffer)
  | .preferredChannelsForStereo => return .ok (2 * sizeofUInt32)

def streamDataSize : StreamSel → Prog (World α) (Except HalError UInt32)
  | .baseClass | .objectClass | .owner => return .ok sizeofAudioClassID
  | .ownedObjects => return .ok 0
  | .isActive | .direction | .terminalType | .startingChannel | .latency =>
    return .ok sizeofUInt32
  | .virtualFormat | .physicalFormat => return .ok sizeofASBD
  | .availableVirtualFormats | .availablePhysicalFormats => return .ok sizeofRangedDescription

/-- `Line6_GetPropertyDataSize`. -/
def getPropertyDataSize (k : Sdk) (obj : UInt32) (a : Address) :
    Prog (World α) (Except HalError UInt32) :=
  if a.element ≠ k.elementMain then return .error .unknownProperty
  else if obj = kObjectIDPlugIn then
    match k.plugInSel a.selector with
    | some s => plugInDataSize s
    | none => return .error .unknownProperty
  else if obj = kObjectIDDevice then
    match k.deviceSel a.selector with
    | some s => deviceDataSize k a.scope s
    | none => return .error .unknownProperty
  else if obj = kObjectIDStreamInput then
    match k.streamSel a.selector with
    | some s => streamDataSize s
    | none => return .error .unknownProperty
  else return .error .badObject

/-- `Line6_HasProperty`. -/
def hasProperty (k : Sdk) (obj : UInt32) (a : Address) : Prog (World α) Bool := do
  return (← getPropertyDataSize k obj a).toBool

/-- `Line6_IsPropertySettable`: everything is read-only. -/
def isPropertySettable (k : Sdk) (obj : UInt32) (a : Address) :
    Prog (World α) (Except HalError Bool) := do
  if (← getPropertyDataSize k obj a).toBool then return .ok false
  else return .error .unknownProperty

/-- `Line6_SetPropertyData`. -/
def setPropertyData : Prog (World α) (Except HalError Unit) := return .error .unknownProperty

/-! ## GetPropertyData -/

def plugInData (k : Sdk) (q : Qualifier) (inSize : UInt32) :
    PlugInSel → Prog (World α) (Except HalError Reply)
  | .baseClass => return .ok (replyU32 k.objectClassID)
  | .objectClass => return .ok (replyU32 k.plugInClassID)
  | .owner => return .ok (replyU32 k.objectUnknown)
  | .manufacturer => return .ok (replyString (.const kManufacturerName))
  | .ownedObjects | .deviceList => do -- empty list when the device is absent
    let present ← rd fun m => m.plug.gDevicePresent
    return .ok (if present ∧ sizeofAudioObjectID ≤ inSize then replyU32 kObjectIDDevice
      else replyNothing)
  | .boxList | .clockDeviceList => return .ok replyNothing
  | .translateUIDToDevice => do
    let uid := if sizeofCFStringRef ≤ q.size then q.data.join else none
    let present ← rd fun m => m.plug.gDevicePresent
    let ok := present && uid == some kDeviceUID
    return .ok (replyU32 (if ok then kObjectIDDevice else k.objectUnknown))
  | .resourceBundle => return .ok (replyString (.const ""))

def deviceData (k : Sdk) (cf : Cf) (scope inSize : UInt32) :
    DeviceSel → Prog (World α) (Except HalError Reply)
  | .baseClass => return .ok (replyU32 k.objectClassID)
  | .objectClass => return .ok (replyU32 k.deviceClassID)
  | .owner => return .ok (replyU32 kObjectIDPlugIn)
  | .name => do
    let name ← deviceNameCopy cf
    return .ok (replyString (.object name))
  | .manufacturer => return .ok (replyString (.const kManufacturerName))
  | .ownedObjects | .streams =>
    let list := deviceStreamList k scope
    let n := UInt32.ofNat list.length
    let fit := if n < inSize / sizeofAudioObjectID then n else inSize / sizeofAudioObjectID
    return .ok ⟨fit * sizeofAudioObjectID,
      (list.take fit.toNat).zipIdx.map fun (id, i) => (4 * i, .u32 id)⟩
  | .controlList => return .ok replyNothing
  | .deviceUID => return .ok (replyString (.const kDeviceUID))
  | .modelUID => return .ok (replyString (.const kDeviceModelUID))
  | .transportType => return .ok (replyU32 k.transportTypeUSB)
  | .clockDomain => return .ok (replyU32 0)
  | .deviceIsAlive => return .ok (replyU32 1)
  | .deviceIsRunning => do
    let running ← rd fun m => m.plug.gIORunning
    return .ok (replyU32 (if running > 0 then 1 else 0))
  | .canBeDefaultDevice => return .ok (replyU32 1)
  | .canBeDefaultSystemDevice => return .ok (replyU32 0)
  | .latency => return .ok (replyU32 0)
  | .safetyOffset => return .ok (replyU32 kSafetyOffset)
  | .isHidden => return .ok (replyU32 0)
  | .zeroTimeStampPeriod => return .ok (replyU32 kDeviceRingPeriod.toUInt32)
  | .nominalSampleRate => return .ok ⟨sizeofFloat64, [(0, .f64 kSampleRate)]⟩
  | .availableNominalSampleRates =>
    return .ok ⟨sizeofAudioValueRange, [(0, .f64 kSampleRate), (8, .f64 kSampleRate)]⟩
  | .relatedDevices =>
    return .ok (if sizeofAudioObjectID ≤ inSize then replyU32 kObjectIDDevice else replyNothing)
  | .streamConfiguration =>
    if scope = k.scopeOutput then return .ok ⟨offsetofBuffers, [(0, .u32 0)]⟩
    else do
      let ch ← devChannels
      return .ok ⟨offsetofBuffers + sizeofAudioBuffer,
        [(0, .u32 1), (8, .u32 ch), (12, .u32 0), (16, .null)]⟩
  | .preferredChannelsForStereo => return .ok ⟨2 * sizeofUInt32, [(0, .u32 1), (4, .u32 2)]⟩

def streamData (k : Sdk) (chans : UInt32) : StreamSel → Prog (World α) (Except HalError Reply)
  | .baseClass => return .ok (replyU32 k.objectClassID)
  | .objectClass => return .ok (replyU32 k.streamClassID)
  | .owner => return .ok (replyU32 kObjectIDDevice)
  | .ownedObjects => return .ok replyNothing
  | .isActive => return .ok (replyU32 1)
  | .direction => return .ok (replyU32 1) -- input
  | .terminalType => return .ok (replyU32 k.terminalTypeUnknown)
  | .startingChannel => return .ok (replyU32 1)
  | .latency => return .ok (replyU32 0)
  | .virtualFormat | .physicalFormat => return .ok ⟨sizeofASBD, fillASBD k chans⟩
  | .availableVirtualFormats | .availablePhysicalFormats =>
    return .ok ⟨sizeofRangedDescription,
      fillASBD k chans ++ [(40, .f64 kSampleRate), (48, .f64 kSampleRate)]⟩

/-- `Line6_GetPropertyData`. -/
def getPropertyData (k : Sdk) (cf : Cf) (obj : UInt32) (a : Address) (q : Qualifier)
    (inSize : UInt32) : Prog (World α) (Except HalError Reply) :=
  if a.element ≠ k.elementMain then return .error .unknownProperty
  else if obj = kObjectIDPlugIn then
    match k.plugInSel a.selector with
    | some s => plugInData k q inSize s
    | none => return .error .unknownProperty
  else if obj = kObjectIDDevice then
    match k.deviceSel a.selector with
    | some s => deviceData k cf a.scope inSize s
    | none => return .error .unknownProperty
  else if obj = kObjectIDStreamInput then do
    let chans ← devChannels
    match k.streamSel a.selector with
    | some s => streamData k chans s
    | none => return .error .unknownProperty
  else return .error .badObject

/-! ## The two switches agree -/

/-- The plugin with its presence flag at `present`. -/
def World.withPresent (m : World α) (present : Bool) : World α :=
  { m with plug := { m.plug with gDevicePresent := present } }

/-- What a query answers, nobody interfering; nothing when the process dies of it. -/
def answer {β : Type} (p : Prog (World α) β) (m : World α) : Option β := (exec p false m).result

theorem answer_devChannels {β : Type} (f : UInt32 → Prog (World α) β) (m : World α) :
    answer (devChannels >>= f) m = answer (f m.devChannels) m := by
  unfold answer
  rw [exec_bind_done (exec_devChannels _ _)]

/-- A size query and a data query agree: what the first answers is the size the second reports
when given a buffer of that size, and a bound on it whatever the presence flag has become; an
error of the first is the error of the second. -/
def Agree (size : Prog (World α) (Except HalError UInt32))
    (data : UInt32 → Prog (World α) (Except HalError Reply)) (m : World α) : Prop :=
  match answer size m with
  | some (.ok n) =>
    (∃ r, answer (data n) m = some (.ok r) ∧ r.size = n) ∧
      ∀ present, ∃ r, answer (data n) (m.withPresent present) = some (.ok r) ∧ r.size ≤ n
  | some (.error e) => ∀ n, answer (data n) m = some (.error e)
  | none => False

theorem agree_error (e : HalError) (m : World α) :
    Agree (return .error e) (fun _ => return .error e) m := fun _ => rfl

/-- A property whose size no state changes. -/
theorem agree_fixed {size : Prog (World α) (Except HalError UInt32)}
    {data : UInt32 → Prog (World α) (Except HalError Reply)} {m : World α} {n : UInt32}
    (hsize : answer size m = some (.ok n))
    (hdata : ∀ present, ∃ r, answer (data n) (m.withPresent present) = some (.ok r) ∧ r.size = n) :
    Agree size data m := by
  unfold Agree
  rw [hsize]
  refine ⟨hdata m.plug.gDevicePresent, fun present => ?_⟩
  obtain ⟨r, hr, hn⟩ := hdata present
  exact ⟨r, hr, hn ▸ UInt32.le_refl _⟩

/-- The presence flag may flip between the queries: the list answered then is not longer. -/
theorem listReply_le (present now : Bool) :
    (if present = true ∧ sizeofAudioObjectID ≤ (if now = true then sizeofAudioObjectID else 0)
      then replyU32 kObjectIDDevice else replyNothing).size ≤
        if now = true then sizeofAudioObjectID else 0 := by
  cases present <;> cases now <;> decide

theorem plugIn_agree (k : Sdk) (q : Qualifier) (m : World α) (s : PlugInSel) :
    Agree (plugInDataSize s) (fun n => plugInData k q n s) m := by
  have hlist : Agree (plugInDataSize .deviceList) (fun n => plugInData k q n .deviceList) m := by
    show (∃ r, _ ∧ _) ∧ ∀ present, _
    refine ⟨⟨_, rfl, ?_⟩, fun present => ⟨_, rfl, listReply_le present _⟩⟩
    beta_reduce
    cases m.plug.gDevicePresent <;> rfl
  cases s with
  | ownedObjects => exact hlist
  | deviceList => exact hlist
  | _ => exact agree_fixed rfl fun _ => ⟨_, rfl, rfl⟩

/-- The device's properties other than its name. -/
theorem device_agree (k : Sdk) (cf : Cf) (scope : UInt32) (m : World α) {s : DeviceSel}
    (hs : s ≠ .name) :
    Agree (deviceDataSize k scope s) (fun n => deviceData k cf scope n s) m := by
  have hstreams : Agree (deviceDataSize k scope .streams)
      (fun n => deviceData k cf scope n .streams) m := by
    refine agree_fixed rfl fun _ => ⟨_, rfl, ?_⟩
    unfold deviceStreamList
    split_ifs <;> rfl
  cases s with
  | name => exact absurd rfl hs
  | ownedObjects => exact hstreams
  | streams => exact hstreams
  | streamConfiguration =>
    by_cases hsc : scope = k.scopeOutput
    · simp only [deviceDataSize, deviceData, if_pos hsc]
      exact agree_fixed rfl fun _ => ⟨_, rfl, rfl⟩
    · simp only [deviceDataSize, deviceData, if_neg hsc]
      exact agree_fixed rfl fun _ => ⟨_, (answer_devChannels _ _).trans rfl, rfl⟩
  | _ => exact agree_fixed rfl fun _ => ⟨_, rfl, rfl⟩

theorem stream_agree (k : Sdk) (m : World α) (s : StreamSel) :
    Agree (streamDataSize s) (fun _ => do streamData k (← devChannels) s) m := by
  cases s <;> exact agree_fixed rfl fun _ => ⟨_, (answer_devChannels _ _).trans rfl, rfl⟩

/-- **The name query** agrees with its size unless the name is rejected; then it kills the
process. -/
theorem name_agree_iff (k : Sdk) (cf : Cf) (scope : UInt32) (m : World α) :
    Agree (deviceDataSize k scope .name) (fun n => deviceData k cf scope n .name) m ↔
      ¬ NameRejected cf m := by
  constructor
  · rintro ⟨⟨r, hr, -⟩, -⟩ hrej
    have htrap : answer (deviceData k cf scope sizeofCFStringRef .name) m = none := by
      unfold answer deviceData
      rw [exec_bind, (exec_deviceNameCopy cf m).1 hrej]
      rfl
    rw [htrap] at hr
    cases hr
  · intro hok
    refine agree_fixed rfl fun present => ?_
    obtain ⟨m', i, he⟩ := (exec_deviceNameCopy cf (m.withPresent present)).2 hok
    refine ⟨replyString (.object i), ?_, rfl⟩
    unfold answer deviceData
    rw [exec_bind_done he]
    rfl

/-! ## The whole server -/

/-- The label a device query asks for. -/
def Asks (k : Sdk) (obj : UInt32) (a : Address) (s : DeviceSel) : Prop :=
  obj = kObjectIDDevice ∧ a.element = k.elementMain ∧ k.deviceSel a.selector = some s

/-- **Size and data agree on every query** but one: the name of the device, when it has to be
rebuilt from bytes CoreFoundation rejects. -/
theorem agree_iff (k : Sdk) (cf : Cf) (obj : UInt32) (a : Address) (q : Qualifier)
    (m : World α) :
    Agree (getPropertyDataSize k obj a) (fun n => getPropertyData k cf obj a q n) m ↔
      ¬ (Asks k obj a .name ∧ NameRejected cf m) := by
  unfold getPropertyDataSize getPropertyData
  by_cases hel : a.element = k.elementMain
  swap
  · simp only [if_pos hel]
    exact iff_of_true (agree_error _ m) fun h => hel h.1.2.1
  simp only [if_neg (not_not_intro hel)]
  by_cases h1 : obj = kObjectIDPlugIn
  · simp only [if_pos h1]
    refine iff_of_true ?_ fun h => absurd (h1.symm.trans h.1.1) (by decide)
    cases k.plugInSel a.selector with
    | none => exact agree_error _ m
    | some s => exact plugIn_agree k q m s
  simp only [if_neg h1]
  by_cases h2 : obj = kObjectIDDevice
  · simp only [if_pos h2]
    cases hs : k.deviceSel a.selector with
    | none =>
      refine iff_of_true (agree_error _ m) fun h => ?_
      rw [h.1.2.2] at hs
      cases hs
    | some s =>
      by_cases hname : s = .name
      · subst hname
        rw [name_agree_iff]
        exact not_congr ⟨fun h => ⟨⟨h2, hel, hs⟩, h⟩, And.right⟩
      · refine iff_of_true (device_agree k cf a.scope m hname) fun h => hname ?_
        rw [h.1.2.2] at hs
        exact (Option.some.inj hs).symm
  simp only [if_neg h2]
  refine iff_of_true ?_ fun h => h2 h.1.1
  by_cases h3 : obj = kObjectIDStreamInput
  · simp only [if_pos h3]
    cases k.streamSel a.selector with
    | none => exact fun _ => answer_devChannels _ m
    | some s => exact stream_agree k m s
  · simp only [if_neg h3]
    exact agree_error _ m

theorem answer_map {β γ : Type} (p : Prog (World α) β) (f : β → γ) (m : World α) :
    answer (p >>= fun b => ret (f b)) m = (answer p m).map f := by
  unfold answer
  rw [exec_bind]
  cases exec p false m <;> rfl

/-- A query is consistent: the size and data queries agree on it, `HasProperty` and
`IsPropertySettable` say whether they succeed, and they do not for another element than Main. -/
structure Consistent (k : Sdk) (cf : Cf) (obj : UInt32) (a : Address) (q : Qualifier)
    (m : World α) : Prop where
  agree : Agree (getPropertyDataSize k obj a) (fun n => getPropertyData k cf obj a q n) m
  has : answer (hasProperty k obj a) m = (answer (getPropertyDataSize k obj a) m).map Except.toBool
  settable : answer (isPropertySettable k obj a) m =
    (answer (getPropertyDataSize k obj a) m).map fun r =>
      if r.toBool then .ok false else .error .unknownProperty
  only_main : a.element ≠ k.elementMain →
    answer (getPropertyDataSize k obj a) m = some (.error .unknownProperty) ∧
      (∀ n, answer (getPropertyData k cf obj a q n) m = some (.error .unknownProperty)) ∧
      answer (hasProperty k obj a) m = some false ∧
      answer (isPropertySettable k obj a) m = some (.error .unknownProperty)

theorem hasProperty_eq (k : Sdk) (obj : UInt32) (a : Address) (m : World α) :
    answer (hasProperty k obj a) m =
      (answer (getPropertyDataSize k obj a) m).map Except.toBool :=
  answer_map _ _ m

theorem isPropertySettable_eq (k : Sdk) (obj : UInt32) (a : Address) (m : World α) :
    answer (isPropertySettable k obj a) m =
      (answer (getPropertyDataSize k obj a) m).map fun r =>
        if r.toBool then .ok false else .error .unknownProperty := by
  rw [← answer_map]
  unfold isPropertySettable
  refine congrArg (fun f => answer (getPropertyDataSize k obj a >>= f) m) (funext fun r => ?_)
  cases r <;> rfl

/-- **The property server is consistent** on a query exactly if the query is not the one for a
device name that CoreFoundation rejects. -/
theorem property_server_consistent_iff (k : Sdk) (cf : Cf) (obj : UInt32) (a : Address)
    (q : Qualifier) (m : World α) :
    Consistent k cf obj a q m ↔ ¬ (Asks k obj a .name ∧ NameRejected cf m) := by
  rw [← agree_iff k cf obj a q m]
  refine ⟨Consistent.agree, fun h => ⟨h, hasProperty_eq k obj a m,
    isPropertySettable_eq k obj a m, fun hel => ?_⟩⟩
  have hsize : answer (getPropertyDataSize k obj a) m = some (.error .unknownProperty) := by
    unfold getPropertyDataSize
    rw [if_pos hel]
    rfl
  refine ⟨hsize, fun n => ?_, ?_, ?_⟩
  · unfold getPropertyData
    rw [if_pos hel]
    rfl
  · rw [hasProperty_eq, hsize]
    rfl
  · rw [isPropertySettable_eq, hsize]
    rfl

/-- An SDK whose selector codes are the positions of the labels. -/
def numberedSdk : Sdk where
  plugIn s := UInt32.ofNat (PlugInSel.all.idxOf s)
  device s := UInt32.ofNat (DeviceSel.all.idxOf s)
  stream s := UInt32.ofNat (StreamSel.all.idxOf s)
  plugIn_distinct :=
    Function.LeftInverse.injective (g := fun u => PlugInSel.all.getD u.toNat .baseClass)
      fun s => by cases s <;> rfl
  device_distinct :=
    Function.LeftInverse.injective (g := fun u => DeviceSel.all.getD u.toNat .baseClass)
      fun s => by cases s <;> rfl
  stream_distinct :=
    Function.LeftInverse.injective (g := fun u => StreamSel.all.getD u.toNat .baseClass)
      fun s => by cases s <;> rfl
  elementMain := 0
  scopeGlobal := 1
  scopeInput := 2
  scopeOutput := 3
  objectClassID := 1
  plugInClassID := 2
  deviceClassID := 3
  streamClassID := 4
  objectUnknown := 0
  transportTypeUSB := 1
  terminalTypeUnknown := 0
  formatLinearPCM := 1
  formatFlagIsFloat := 1
  formatFlagIsPacked := 8

/-- The plugin attached to a header whose 31 bytes of name end inside a character. -/
def cutName : World ℚ where
  linked := true
  shm := { (Shm.zero : Shm ℚ) with
    magic := shmMagic
    version := shmVersion
    channels := 8
    name := Vector.ofFn fun i =>
      ("POD X3 Live 25th Anniversary (édition)".toUTF8.data.toList.take 31).getD i.val 0 }
  plug := { gShm := true }

theorem property_server_inconsistent :
    ¬ Consistent numberedSdk Cf.utf8 kObjectIDDevice ⟨3, 1, 0⟩ ⟨0, none⟩ cutName := by
  intro h
  exact (agree_iff _ _ _ _ _ _).mp h.agree ⟨⟨rfl, rfl, by decide⟩, by decide, by decide⟩

end Line6
