import Line6.Daemon.Float
import Line6.Lib.Refine
import Line6.Lib.Struct
import Line6.System.Footprint

/-!
# The segment as bytes

`line6_shm_t` (`shared/line6_shm.h`) and its mirror `Shm` (`daemon/src/shm.rs`) are the types of
the fields, in order; the compilers lay them out by the rule of `Struct.offsets`. An `Image` has
the segment as what it is, bytes of memory, and `Image.world` is the record the rest of the
development speaks of. The daemon's programs are given again, storing bytes at the offsets of the
mirror; the plugin's read through the offsets of the header and never store there.

* `layout_eq`: the two structures have one layout, of the asserted size, `write_frames` on its
  boundary.
* `image_refines`: the system over bytes has the runs of the system over the record.
-/

namespace Line6

open Conc Conc.Prog Conc.Pool Struct

/-! ## The layout -/

/-- The fields of the segment. -/
inductive Field where
  | magic
  | version
  | sampleRate
  | channels
  | ringFrames
  | latencyFrames
  | name
  | writeFrames
  | ring
  deriving Repr, DecidableEq

/-- `uint32_t`, `float`. -/
def word32 : Ty := .word 4 (Nat.succ_pos _)

/-- `_Atomic uint64_t`. -/
def word64 : Ty := .word 8 (Nat.succ_pos _)

/-- `char`. -/
def byte : Ty := .word 1 (Nat.succ_pos _)

/-- `line6_shm_t`: `LINE6_NAME_LEN` is 32, `LINE6_RING_SAMPLES` is `LINE6_RING_FRAMES` times
`LINE6_MAX_CHANNELS`. -/
def line6ShmT : List (Field × Ty) :=
  [(.magic, word32), (.version, word32), (.sampleRate, word32), (.channels, word32),
   (.ringFrames, word32), (.latencyFrames, word32), (.name, byte.array 32),
   (.writeFrames, word64), (.ring, word32.array (65536 * 8))]

/-- The mirror `Shm`, `repr(C)`: `NAME_LEN` is 32, `RING_SAMPLES` is `RING_FRAMES` times
`MAX_CHANNELS`. -/
def shmMirror : List (Field × Ty) :=
  [(.magic, word32), (.version, word32), (.sampleRate, word32), (.channels, word32),
   (.ringFrames, word32), (.latencyFrames, word32), (.name, byte.array nameLen),
   (.writeFrames, word64), (.ring, word32.array ringSamples)]

/-- The place of a field in a structure. -/
def place (fields : List (Field × Ty)) (f : Field) : Nat := fields.findIdx fun p => p.1 == f

/-- The offset of a field in a structure. -/
def offsetIn (fields : List (Field × Ty)) (f : Field) : Nat :=
  (offsets 0 (fields.map Prod.snd)).getD (place fields f) 0

/-- Where the plugin has a field. -/
def Field.offset (f : Field) : Nat := offsetIn line6ShmT f

/-- Where the daemon has a field. -/
def Field.mirror (f : Field) : Nat := offsetIn shmMirror f

/-- How many bytes a field has. -/
def Field.size (f : Field) : Nat := ((line6ShmT.lookup f).map Ty.size).getD 0

/-- `LINE6_SHM_SIZE`. -/
def shmSize : Nat := sizeof (line6ShmT.map Prod.snd)

/-- **The two structures have one layout**, of the size the daemon asserts. `write_frames` is on an
8-byte boundary, and the ring ends the segment. -/
theorem layout_eq : (∀ f : Field, f.mirror = f.offset) ∧ shmSize = 2097216 ∧
    sizeof (shmMirror.map Prod.snd) = shmSize ∧
    8 ∣ Field.offset .writeFrames ∧ Field.offset .ring + Field.size .ring = shmSize := by
  refine ⟨fun f => ?_, rfl, rfl, by decide, rfl⟩
  cases f <;> rfl

/-- The field is in the header, with its offset and its size. -/
theorem Field.placed (f : Field) : ∃ t, (line6ShmT.map Prod.snd)[place line6ShmT f]? = some t ∧
    (offsets 0 (line6ShmT.map Prod.snd))[place line6ShmT f]? = some f.offset ∧
    t.size = f.size := by
  cases f <;> exact ⟨_, rfl, rfl, rfl⟩

theorem place_inj {f g : Field} (h : place line6ShmT f = place line6ShmT g) : f = g := by
  cases f <;> cases g <;> first | rfl | exact absurd h (by decide)

/-- Fields lie in the segment. -/
theorem Field.end_le (f : Field) : f.offset + f.size ≤ shmSize := by
  obtain ⟨t, hty, hoff, hsize⟩ := f.placed
  rw [← hsize]
  exact end_le_sizeof hoff hty

/-- A store to one field leaves the others. -/
theorem slice_store {f g : Field} {m : Mem} {bs : List UInt8} {p p' n : Nat} (hne : f ≠ g)
    (hp : p + bs.length ≤ f.size) (hp' : p' + n ≤ g.size) :
    slice (splice m (f.offset + p) bs) (g.offset + p') n = slice m (g.offset + p') n := by
  obtain ⟨t, hty, hoff, hsize⟩ := f.placed
  obtain ⟨t', hty', hoff', hsize'⟩ := g.placed
  exact slice_splice_field hoff hty hoff' hty' (fun h => hne (place_inj h))
    (by rwa [hsize]) (by rwa [hsize'])

/-! ## Reading the bytes -/

/-- The segment's bytes, and the plugin's globals. -/
structure Image where
  linked : Bool
  mem : Mem
  plug : Plugin

/-- A field of 32 bits. -/
def load32 (m : Mem) (f : Field) (p : Nat) : UInt32 :=
  UInt32.ofNat (leNat (slice m (f.offset + p) 4))

/-- A field of 64 bits. -/
def load64 (m : Mem) (f : Field) : UInt64 := UInt64.ofNat (leNat (slice m (f.offset + 0) 8))

/-- The name. -/
def loadName (m : Mem) : Vector UInt8 nameLen :=
  Vector.ofFn fun i => (slice m (Field.offset .name + 0) nameLen).getD i 0

/-- A cell of the ring. What lies behind it is not the segment's. -/
def loadRing (m : Mem) (i : Nat) : ℚ :=
  if i < ringSamples then cellValue (load32 m .ring (4 * i)) else 0

/-- The record in the bytes. -/
def segment (m : Mem) : Shm ℚ where
  magic := load32 m .magic 0
  version := load32 m .version 0
  sampleRate := load32 m .sampleRate 0
  channels := load32 m .channels 0
  ringFrames := load32 m .ringFrames 0
  latencyFrames := load32 m .latencyFrames 0
  name := loadName m
  writeFrames := load64 m .writeFrames
  ring := loadRing m

/-- An image as the record. -/
def Image.world (m : Image) : World ℚ := ⟨m.linked, segment m.mem, m.plug⟩

/-! ## Storing bytes -/

/-- Store to a field, from its byte `p` on. -/
def Image.store (f : Field) (p : Nat) (bs : List UInt8) : Prog Image Unit :=
  wr fun m => { m with mem := splice m.mem (f.mirror + p) bs }

/-- Store 32 bits. -/
def store32 (f : Field) (p : Nat) (v : UInt32) : Prog Image Unit :=
  Image.store f p (leBytes 4 v.toNat)

/-- Store `write_frames`. -/
def store64 (v : UInt64) : Prog Image Unit := Image.store .writeFrames 0 (leBytes 8 v.toNat)

theorem load32_store_self {f : Field} {p : Nat} (m : Mem) (v : UInt32) :
    load32 (splice m (f.offset + p) (leBytes 4 v.toNat)) f p = v := by
  have hread := slice_splice_self m (f.offset + p) (leBytes 4 v.toNat)
  rw [leBytes_length] at hread
  unfold load32
  rw [hread, leNat_leBytes]
  apply UInt32.toNat_inj.mp
  rw [UInt32.toNat_ofNat']
  have := v.toNat_lt
  omega

theorem load64_store_self (m : Mem) (v : UInt64) :
    load64 (splice m (Field.offset .writeFrames + 0) (leBytes 8 v.toNat)) .writeFrames = v := by
  have hread := slice_splice_self m (Field.offset .writeFrames + 0) (leBytes 8 v.toNat)
  rw [leBytes_length] at hread
  unfold load64
  rw [hread, leNat_leBytes]
  apply UInt64.toNat_inj.mp
  rw [UInt64.toNat_ofNat']
  have := v.toNat_lt
  omega

section

variable {f g : Field} {m : Mem} {bs : List UInt8} {p p' : Nat}

theorem load32_store (hne : f ≠ g) (hp : p + bs.length ≤ f.size) (hp' : p' + 4 ≤ g.size) :
    load32 (splice m (f.offset + p) bs) g p' = load32 m g p' := by
  unfold load32
  rw [slice_store hne hp hp']

theorem load64_store (hne : f ≠ .writeFrames) (hp : p + bs.length ≤ f.size) :
    load64 (splice m (f.offset + p) bs) .writeFrames = load64 m .writeFrames := by
  unfold load64
  rw [slice_store hne hp (by decide)]

theorem loadName_store (hne : f ≠ .name) (hp : p + bs.length ≤ f.size) :
    loadName (splice m (f.offset + p) bs) = loadName m := by
  unfold loadName
  rw [slice_store hne hp (by decide)]

/-- A cell lies in the ring. -/
theorem cell_end {i : Nat} (hi : i < ringSamples) : 4 * i + 4 ≤ Field.size .ring := by
  show 4 * i + 4 ≤ 65536 * 8 * 4
  unfold ringSamples at hi
  omega

theorem loadRing_store (hne : f ≠ .ring) (hp : p + bs.length ≤ f.size) :
    loadRing (splice m (f.offset + p) bs) = loadRing m := by
  funext i
  refine ite_congr rfl (fun hi => ?_) fun _ => rfl
  rw [load32_store hne hp (cell_end hi)]

end

attribute [ext] Shm

/-- The record with a field of 32 bits set. -/
def Shm.setWord {α : Type} (s : Shm α) (f : Field) (v : UInt32) : Shm α :=
  { s with
    magic := if f = .magic then v else s.magic
    version := if f = .version then v else s.version
    sampleRate := if f = .sampleRate then v else s.sampleRate
    channels := if f = .channels then v else s.channels
    ringFrames := if f = .ringFrames then v else s.ringFrames
    latencyFrames := if f = .latencyFrames then v else s.latencyFrames }

/-- A store to a field of 32 bits. -/
theorem segment_word {f : Field} (hf : f.size = 4) (m : Mem) (v : UInt32) :
    segment (splice m (f.offset + 0) (leBytes 4 v.toNat)) = (segment m).setWord f v := by
  have hlen : 0 + (leBytes 4 v.toNat).length ≤ f.size := by
    rw [leBytes_length, hf]
  have hword (g : Field) (hg : 0 + 4 ≤ g.size) :
      load32 (splice m (f.offset + 0) (leBytes 4 v.toNat)) g 0 =
        if f = g then v else load32 m g 0 := by
    by_cases hfg : f = g
    · rw [if_pos hfg, ← hfg]
      exact load32_store_self m v
    · rw [if_neg hfg]
      exact load32_store hfg hlen hg
  have hwide {g : Field} (hg : g.size ≠ 4) : f ≠ g := fun hfg => hg (hfg ▸ hf)
  exact Shm.ext (hword .magic (by decide)) (hword .version (by decide))
    (hword .sampleRate (by decide)) (hword .channels (by decide)) (hword .ringFrames (by decide))
    (hword .latencyFrames (by decide)) (loadName_store (hwide (by decide)) hlen)
    (load64_store (hwide (by decide)) hlen) (loadRing_store (hwide (by decide)) hlen)

/-- A store to another field. -/
theorem segment_wide {f : Field} {p : Nat} {bs : List UInt8} (hf : f.size ≠ 4)
    (hp : p + bs.length ≤ f.size) (m : Mem) :
    segment (splice m (f.offset + p) bs) = { segment m with
      name := loadName (splice m (f.offset + p) bs)
      writeFrames := load64 (splice m (f.offset + p) bs) .writeFrames
      ring := loadRing (splice m (f.offset + p) bs) } := by
  have hword (g : Field) (hg : g.size = 4) :
      load32 (splice m (f.offset + p) bs) g 0 = load32 m g 0 :=
    load32_store (fun hfg => hf (hfg ▸ hg)) hp (Nat.le_of_eq hg.symm)
  exact Shm.ext (hword .magic rfl) (hword .version rfl) (hword .sampleRate rfl)
    (hword .channels rfl) (hword .ringFrames rfl) (hword .latencyFrames rfl) rfl rfl rfl

/-- A store to `write_frames`. -/
theorem segment_head (m : Mem) (v : UInt64) :
    segment (splice m (Field.offset .writeFrames + 0) (leBytes 8 v.toNat)) =
      { segment m with writeFrames := v } := by
  have hlen : 0 + (leBytes 8 v.toNat).length ≤ Field.size .writeFrames := by
    rw [leBytes_length]
    decide
  rw [segment_wide (by decide) hlen, loadName_store (by decide) hlen,
    loadRing_store (by decide) hlen, load64_store_self]
  rfl

theorem loadName_get (m : Mem) (i : Fin nameLen) :
    (loadName m).get i = m (Field.offset .name + i) := by
  show (Vector.ofFn _)[i.val] = _
  rw [Vector.getElem_ofFn, slice_getD i.isLt, Nat.add_zero]

/-- A store of some bytes of the name. -/
theorem segment_name {bs : List UInt8} (hlen : bs.length ≤ nameLen) (m : Mem) :
    segment (splice m (Field.offset .name + 0) bs) = { segment m with
      name := Vector.ofFn fun i =>
        if i.val < bs.length then bs.getD i.val 0 else (loadName m).get i } := by
  have hlen' : 0 + bs.length ≤ Field.size .name := by
    rw [Nat.zero_add]
    exact hlen
  have hname : loadName (splice m (Field.offset .name + 0) bs) = Vector.ofFn fun i =>
      if i.val < bs.length then bs.getD i.val 0 else (loadName m).get i := by
    refine congrArg Vector.ofFn (funext fun i => ?_)
    rw [slice_getD i.isLt, loadName_get]
    unfold splice
    refine ite_congr (propext (by omega)) (fun _ => ?_) fun _ => rfl
    rw [Nat.add_zero, Nat.add_sub_cancel_left]
  rw [segment_wide (by decide) hlen', load64_store (by decide) hlen',
    loadRing_store (by decide) hlen', hname]
  rfl

/-- The other cells after a store to one. -/
theorem load32_cell {i j : Nat} (h : j ≠ i) (m : Mem) (v : UInt32) :
    load32 (splice m (Field.offset .ring + 4 * i) (leBytes 4 v.toNat)) .ring (4 * j) =
      load32 m .ring (4 * j) := by
  unfold load32
  rw [slice_splice_of_disjoint (by rw [leBytes_length]; omega)]

/-- A store to a cell. -/
theorem segment_cell {i : Nat} (hi : i < ringSamples) (m : Mem) (v : UInt32) :
    segment (splice m (Field.offset .ring + 4 * i) (leBytes 4 v.toNat)) = { segment m with
      ring := Function.update (loadRing m) i (cellValue v) } := by
  have hlen : 4 * i + (leBytes 4 v.toNat).length ≤ Field.size .ring := by
    rw [leBytes_length]
    exact cell_end hi
  have hring : loadRing (splice m (Field.offset .ring + 4 * i) (leBytes 4 v.toNat)) =
      Function.update (loadRing m) i (cellValue v) := by
    funext j
    by_cases hj : j = i
    · rw [hj, Function.update_self]
      unfold loadRing
      rw [if_pos hi, load32_store_self]
    · rw [Function.update_of_ne hj]
      refine ite_congr rfl (fun _ => ?_) fun _ => rfl
      rw [load32_cell hj]
  rw [segment_wide (by decide) hlen, load64_store (by decide) hlen,
    loadName_store (by decide) hlen, hring]
  rfl

/-! ## The daemon's programs -/

instance : Pcm UInt32 where
  silence := 0
  s24 _ _ := s24ToBits

namespace Image

/-- `write_name`. -/
def writeName (name : String) : Prog Image Unit := do
  store .name 0 (List.replicate nameLen 0)
  let bytes := name.toUTF8.data.toList
  let n := min bytes.length (nameLen - 1)
  store .name 0 (bytes.take n)

/-- `create`. -/
def create (device : Device) (latencyFrames : UInt32) (sys : Sys) :
    Prog Image (Except String Unit) := do
  if !sys.openOk then
    return .error s!"shm_open({shmName}) failed (errno {sys.errno})"
  wr fun m => { m with linked := true }
  if !sys.mmapOk then
    return .error s!"mmap failed (errno {sys.errno})"
  store32 .magic 0 shmMagic
  store32 .version 0 shmVersion
  store32 .sampleRate 0 sampleRate
  store32 .channels 0 device.captureChannels.toUInt32
  store32 .ringFrames 0 ringFrames
  store32 .latencyFrames 0 latencyFrames
  writeName device.name
  store64 0
  return .ok ()

/-- `*ring.add(i) = v`. -/
def storeCell (i : Nat) : Option UInt32 → Prog Image Unit
  | some v => if i < ringSamples then store32 .ring (4 * i) v else trap
  | none => trap

/-- `for ch in ..channels`. -/
def storeChannels (val : Nat → Option UInt32) (slot : Nat) : Nat → Nat → Prog Image Unit
  | 0, _ => ret ()
  | rem + 1, ch => do
    storeCell (slot + ch) (val ch)
    storeChannels val slot rem (ch + 1)

/-- `for f in ..frames`. -/
def storeFrames (channels : Nat) (val : Nat → Nat → Option UInt32) :
    Nat → Nat → UInt64 → Prog Image UInt64
  | 0, _, w => ret w
  | rem + 1, f, w => do
    storeChannels (val f) ((w &&& ringMask).toNat * channels) channels 0
    storeFrames channels val rem (f + 1) (w + 1)

/-- The body of `push_frames`. -/
def pushBatch (channels frames : Nat) (val : Nat → Nat → Option UInt32) : Prog Image Unit := do
  let w ← rd fun m => load64 m.mem .writeFrames
  let w ← storeFrames channels val frames 0 w
  store64 w

/-- `push_frames`. -/
def pushFrames (channels : Nat) (s24 : List UInt8) : Prog Image Unit :=
  let frameBytes := channels * 3
  if frameBytes = 0 then trap
  else
    let frames := s24.length / frameBytes
    if frames = 0 then ret ()
    else pushBatch channels frames fun f ch => s24At channels ch s24 (f * frameBytes + ch * 3)

/-- The header a daemon leaves for a device of two channels: magic, version, 48000, 2, 65536,
480. -/
example : (match exec (create dualDevice 480 .fine) false ⟨false, fun _ => 0, {}⟩ with
    | .done _ m _ => slice m.mem 0 24
    | _ => []) = [0x36, 0x4E, 0x49, 0x4C, 1, 0, 0, 0, 0x80, 0xBB, 0, 0, 2, 0, 0, 0, 0, 0, 1, 0,
      0xE0, 1, 0, 0] := by decide +kernel

/-! ## They match -/

theorem matches_store {f : Field} {p : Nat} {bs : List UInt8} {u : Shm ℚ → Shm ℚ}
    (hu : ∀ m, segment (splice m (f.offset + p) bs) = u (segment m)) :
    Matches Image.world (store f p bs) (wrShm u) := by
  refine matches_wr fun m => ?_
  show (⟨_, segment (splice m.mem (f.mirror + p) bs), _⟩ : World ℚ) = _
  rw [layout_eq.1, hu]
  rfl

theorem matches_store32 (f : Field) (hf : f.size = 4) (v : UInt32) :
    Matches Image.world (store32 f 0 v) (wrShm fun s => s.setWord f v) :=
  matches_store fun m => segment_word hf m v

theorem matches_store64 (v : UInt64) :
    Matches Image.world (store64 v) (wrShm fun s => { s with writeFrames := v }) :=
  matches_store fun m => segment_head m v

theorem matches_writeName (name : String) :
    Matches Image.world (writeName name) (Line6.writeName name) := by
  unfold writeName Line6.writeName
  refine (matches_store fun m => ?_).bind fun _ => matches_store fun m => ?_
  · rw [segment_name (Nat.le_of_eq List.length_replicate)]
    refine congrArg (fun v => { segment m with name := v }) (Vector.ext fun i hi => ?_)
    rw [Vector.getElem_ofFn, Vector.getElem_replicate, List.length_replicate, if_pos hi,
      List.getD_replicate _ hi]
  · have hlen : (name.toUTF8.data.toList.take
        (min name.toUTF8.data.toList.length (nameLen - 1))).length =
          min name.toUTF8.data.toList.length (nameLen - 1) := by
      rw [List.length_take]
      omega
    rw [segment_name (by rw [hlen]; exact (Nat.min_le_right _ _).trans (by decide)), hlen]
    refine congrArg (fun v => { segment m with name := Vector.ofFn v }) (funext fun i => ?_)
    refine ite_congr rfl (fun hi => ?_) fun _ => rfl
    rw [List.getD_eq_getElem?_getD, List.getElem?_take_of_lt hi, ← List.getD_eq_getElem?_getD]

theorem matches_create (d : Device) (latencyFrames : UInt32) (sys : Sys) :
    Matches Image.world (create d latencyFrames sys) (Line6.create d latencyFrames sys) := by
  have hlink : Matches Image.world (wr fun m : Image => { m with linked := true })
      (wr fun m : World ℚ => { m with linked := true }) := matches_wr fun _ => rfl
  unfold create Line6.create
  split_ifs
  · exact .ret _
  · exact hlink.bind fun _ => .ret _
  · refine hlink.bind fun _ => ?_
    refine (matches_store32 .magic rfl _).bind fun _ => ?_
    refine (matches_store32 .version rfl _).bind fun _ => ?_
    refine (matches_store32 .sampleRate rfl _).bind fun _ => ?_
    refine (matches_store32 .channels rfl _).bind fun _ => ?_
    refine (matches_store32 .ringFrames rfl _).bind fun _ => ?_
    refine (matches_store32 .latencyFrames rfl _).bind fun _ => ?_
    exact (matches_writeName _).bind fun _ => (matches_store64 _).bind fun _ => .ret _

theorem matches_storeCell (i : Nat) (v : Option UInt32) :
    Matches Image.world (storeCell i v) (Line6.storeCell i (v.map cellValue)) := by
  cases v with
  | none => exact .trap
  | some v =>
    unfold storeCell
    show Matches _ _ (if i < ringSamples then _ else trap)
    split_ifs with hi
    · exact matches_store fun m => segment_cell hi m v
    · exact .trap

theorem matches_storeChannels (val : Nat → Option UInt32) (slot : Nat) :
    ∀ rem ch, Matches Image.world (storeChannels val slot rem ch)
      (Line6.storeChannels (fun c => (val c).map cellValue) slot rem ch)
  | 0, _ => .ret _
  | rem + 1, ch => (matches_storeCell _ _).bind fun _ =>
      matches_storeChannels val slot rem (ch + 1)

theorem matches_storeFrames (channels : Nat) (val : Nat → Nat → Option UInt32) :
    ∀ rem f w, Matches Image.world (storeFrames channels val rem f w)
      (Line6.storeFrames channels (fun f c => (val f c).map cellValue) rem f w)
  | 0, _, _ => .ret _
  | rem + 1, f, w => (matches_storeChannels _ _ _ _).bind fun _ =>
      matches_storeFrames channels val rem (f + 1) (w + 1)

/-- The bits of a sample, and the sample. -/
theorem s24At_bits (channels ch : Nat) (s24 : List UInt8) (o : Nat) :
    (s24At channels ch s24 o).map cellValue = s24At (α := ℚ) channels ch s24 o := by
  unfold s24At
  cases s24[o]? with
  | none => rfl
  | some b0 =>
    cases s24[o + 1]? with
    | none => rfl
    | some b1 =>
      cases s24[o + 2]? with
      | none => rfl
      | some b2 => exact congrArg some (cellValue_s24ToBits b0 b1 b2)

theorem matches_pushFrames (channels : Nat) (s24 : List UInt8) :
    Matches Image.world (pushFrames channels s24) (Line6.pushFrames channels s24) := by
  unfold pushFrames Line6.pushFrames
  dsimp only
  split_ifs
  · exact .trap
  · exact .ret _
  · have hload : Matches Image.world (rd fun m : Image => load64 m.mem .writeFrames)
        (rd fun m : World ℚ => m.shm.writeFrames) := matches_rd fun _ => rfl
    refine hload.bind fun w => ?_
    refine Matches.bind ?_ fun w => matches_store64 w
    have hbits := matches_storeFrames channels
      (fun f ch => s24At channels ch s24 (f * (channels * 3) + ch * 3))
      (s24.length / (channels * 3)) 0 w
    simp only [s24At_bits] at hbits
    exact hbits

end Image

/-! ## The system over bytes -/

namespace Image

/-- The globals of `s`, the bytes as they are. -/
def withPlug (m : Image) (s : World ℚ) : Image := { m with plug := s.plug }

/-- The daemon. -/
def startDaemon : Entry → Local ℚ → Option (Prog Image (Local ℚ))
  | .create d latencyFrames sys, _ => some do
    match ← create d latencyFrames sys with
    | .ok () => return .connected d
    | .error _ => return .fresh
  | .push s24, .connected d => some do
    pushFrames d.captureChannels.toNat s24
    return .connected d
  | _, _ => none

/-- The program of a call. The plugin loads through the layout of the header. -/
def start : Tid → Entry → Local ℚ → Option (Prog Image (Local ℚ))
  | .daemon, e, b => startDaemon e b
  | .monitor, e, b => (startMonitor e b).map (pull Image.world withPlug)
  | .host _, e, _ => (startHost e).map (pull Image.world withPlug)

/-- The system over bytes before anything ran. -/
def system (m : Image) : Pool Tid Image Entry (Local ℚ) := Pool.init m fun _ => .fresh

theorem world_withPlug (m : Image) (s : World ℚ) (h : SameSegment m.world s) :
    (m.withPlug s).world = s := by
  obtain ⟨hshm, hlinked⟩ := h
  cases s
  cases hshm
  cases hlinked
  rfl

/-- A program of the plugin. -/
theorem matches_plugin {o : Option (Prog (World ℚ) (Local ℚ))}
    (ho : ∀ x, o = some x → Keeps SameSegment x) :
    Option.Rel (Matches Image.world) (o.map (pull Image.world withPlug)) o := by
  cases o with
  | none => exact .none
  | some x => exact .some (matches_pull world_withPlug (ho x rfl))

theorem matches_start (t : Tid) (e : Entry) (b : Local ℚ) :
    Option.Rel (Matches Image.world) (start t e b) (Line6.start t e b) := by
  cases t with
  | daemon =>
    show Option.Rel _ (startDaemon e b) (Line6.startDaemon e b)
    cases e with
    | create d latencyFrames sys =>
      refine .some ((matches_create d latencyFrames sys).bind fun r => ?_)
      cases r <;> exact .ret _
    | push s24 =>
      cases b with
      | connected d => exact .some ((matches_pushFrames _ s24).bind fun _ => .ret _)
      | _ => exact .none
    | _ => exact .none
  | monitor => exact matches_plugin fun _ hx => keeps_segment_monitor hx
  | host i => exact matches_plugin fun _ hx => keeps_segment_host hx

/-! ## What stays in the bytes -/

/-- Every cell of the ring holds a number. -/
def Finite (m : Image) : Prop :=
  ∀ i < ringSamples, (binary32.decode (load32 m.mem .ring (4 * i)).toNat).isSome

/-- Nothing outside the segment changes, and no cell becomes anything but a number. -/
structure Within (m m' : Image) : Prop where
  outside : ∀ a, shmSize ≤ a → m'.mem a = m.mem a
  finite : m.Finite → m'.Finite

theorem within_refl (m : Image) : Within m m := ⟨fun _ _ => rfl, id⟩

theorem within_trans (a b c : Image) (h : Within a b) (h' : Within b c) : Within a c :=
  ⟨fun x hx => (h'.outside x hx).trans (h.outside x hx), h'.finite ∘ h.finite⟩

theorem store_outside {f : Field} {p a : Nat} {bs : List UInt8} (hp : p + bs.length ≤ f.size)
    (ha : shmSize ≤ a) (m : Mem) : splice m (f.mirror + p) bs a = m a := by
  have hend := f.end_le
  rw [layout_eq.1]
  exact splice_of_out (.inr (by omega))

theorem keeps_store {f : Field} {p : Nat} {bs : List UInt8} (hf : f ≠ .ring)
    (hp : p + bs.length ≤ f.size) : Keeps Within (store f p bs) := by
  refine (plain_wr fun m => ⟨fun a ha => store_outside hp ha m.mem, fun hm i hi => ?_⟩).keeps
  show (binary32.decode (load32 (splice m.mem (f.mirror + p) bs) .ring (4 * i)).toNat).isSome
  rw [layout_eq.1, load32_store hf hp (cell_end hi)]
  exact hm i hi

theorem keeps_store32 {f : Field} (hf : f.size = 4) (v : UInt32) :
    Keeps Within (store32 f 0 v) := by
  refine keeps_store (fun h => ?_) ?_
  · rw [h] at hf
    cases hf
  · rw [leBytes_length, hf]

theorem keeps_store64 (v : UInt64) : Keeps Within (store64 v) := by
  refine keeps_store (by decide) ?_
  rw [leBytes_length]
  decide

theorem keeps_storeCell (i : Nat) {v : Option UInt32}
    (hv : ∀ b, v = some b → (binary32.decode b.toNat).isSome) : Keeps Within (storeCell i v) := by
  cases v with
  | none => trivial
  | some b =>
    show Keeps Within (if i < ringSamples then store32 .ring (4 * i) b else trap)
    split_ifs with hi
    · have hlen : 4 * i + (leBytes 4 b.toNat).length ≤ Field.size .ring := by
        rw [leBytes_length]
        exact cell_end hi
      refine (plain_wr fun m => ⟨fun a ha => store_outside hlen ha m.mem, fun hm j hj => ?_⟩).keeps
      show (binary32.decode (load32 (splice m.mem (Field.mirror .ring + 4 * i) _) .ring
        (4 * j)).toNat).isSome
      rw [layout_eq.1]
      by_cases hji : j = i
      · rw [hji, load32_store_self]
        exact hv b rfl
      · rw [load32_cell hji]
        exact hm j hj
    · trivial

theorem keeps_storeChannels {val : Nat → Option UInt32} (slot : Nat)
    (hval : ∀ c b, val c = some b → (binary32.decode b.toNat).isSome) :
    ∀ rem ch, Keeps Within (storeChannels val slot rem ch)
  | 0, _ => trivial
  | rem + 1, ch => (keeps_storeCell _ (hval ch)).bind fun _ =>
      keeps_storeChannels slot hval rem (ch + 1)

theorem keeps_storeFrames {channels : Nat} {val : Nat → Nat → Option UInt32}
    (hval : ∀ f c b, val f c = some b → (binary32.decode b.toNat).isSome) :
    ∀ rem f w, Keeps Within (storeFrames channels val rem f w)
  | 0, _, _ => trivial
  | rem + 1, f, w => (keeps_storeChannels _ (hval f) _ _).bind fun _ =>
      keeps_storeFrames hval rem (f + 1) (w + 1)

/-- What `push_frames` stores are numbers. -/
theorem s24At_number {channels ch : Nat} {s24 : List UInt8} {o : Nat} {b : UInt32}
    (h : s24At channels ch s24 o = some b) : (binary32.decode b.toNat).isSome := by
  unfold s24At at h
  obtain ⟨b0, -, h⟩ := Option.bind_eq_some_iff.mp h
  obtain ⟨b1, -, h⟩ := Option.bind_eq_some_iff.mp h
  obtain ⟨b2, -, h⟩ := Option.bind_eq_some_iff.mp h
  cases h
  exact Option.isSome_iff_exists.mpr ⟨_, decode_s24ToBits b0 b1 b2⟩

theorem keeps_pushFrames (channels : Nat) (s24 : List UInt8) :
    Keeps Within (pushFrames channels s24) := by
  unfold pushFrames
  dsimp only
  split_ifs
  · trivial
  · trivial
  · have hload : Keeps Within (rd fun m : Image => load64 m.mem .writeFrames) :=
      (plain_rd within_refl _).keeps
    exact hload.bind fun w => (keeps_storeFrames (fun _ _ _ => s24At_number) _ _ _).bind fun _ =>
      keeps_store64 _

theorem keeps_create (d : Device) (latencyFrames : UInt32) (sys : Sys) :
    Keeps Within (create d latencyFrames sys) := by
  have hlink : Keeps Within (wr fun m : Image => { m with linked := true }) :=
    (plain_wr fun _ => ⟨fun _ _ => rfl, id⟩).keeps
  have hname : Keeps Within (writeName d.name) := by
    refine (keeps_store (by decide) ?_).bind fun _ => keeps_store (by decide) ?_
    · rw [List.length_replicate]
      decide
    · have hlen := List.length_take_le (min d.name.toUTF8.data.toList.length (nameLen - 1))
        d.name.toUTF8.data.toList
      have hmin := Nat.min_le_right d.name.toUTF8.data.toList.length (nameLen - 1)
      rw [Nat.zero_add]
      exact (hlen.trans hmin).trans (by decide)
  unfold create
  split_ifs
  · trivial
  · exact hlink.bind fun _ => trivial
  · refine hlink.bind fun _ => ?_
    iterate 6 refine (keeps_store32 rfl _).bind fun _ => ?_
    exact hname.bind fun _ => (keeps_store64 _).bind fun _ => trivial

theorem keeps_start (t : Tid) (e : Entry) (b : Local ℚ) (k : Prog Image (Local ℚ))
    (h : start t e b = some k) : Keeps Within k := by
  have hplugin {o : Option (Prog (World ℚ) (Local ℚ))}
      (ho : o.map (pull Image.world withPlug) = some k) : Keeps Within k := by
    obtain ⟨x, -, rfl⟩ := Option.map_eq_some_iff.mp ho
    exact keeps_pull (fun m s => ⟨fun _ _ => rfl, id⟩) x
  cases t with
  | daemon =>
    have hdaemon : startDaemon e b = some k := h
    unfold startDaemon at hdaemon
    split at hdaemon
    · cases hdaemon
      refine (keeps_create _ _ _).bind fun r => ?_
      cases r <;> trivial
    · cases hdaemon
      exact (keeps_pushFrames _ _).bind fun _ => trivial
    · cases hdaemon
  | monitor => exact hplugin h
  | host i => exact hplugin h

end Image

/-! ## Refinement -/

/-- The two systems look alike: the bytes are those of the record, the mutex has one owner, and a
thread is idle in both, with one result. -/
structure Alike (q : Pool Tid Image Entry (Local ℚ)) (p : System ℚ) : Prop where
  shared : p.shared = q.shared.world
  owner : p.owner = q.owner
  entry : p.entry = q.entry
  results : ∀ t b, q.thread t = .ret b ↔ p.thread t = .ret b

theorem alike_of_mirrors {q : Pool Tid Image Entry (Local ℚ)} {p : System ℚ}
    (h : Mirrors Image.world q p) : Alike q p := ⟨h.shared, h.owner, h.entry, h.ret_iff⟩

/-- **The record is what the bytes mean.** Every run over bytes is one over the record, and every
run over the record one over bytes. No step stores outside the segment, and cells that hold
numbers keep holding numbers. -/
theorem image_refines (m : Image) (as : List (Act Tid Entry)) :
    (∀ q, Run Image.start Free m.system as q →
      (∃ p, Run start Free (System.init m.world) as p ∧ Alike q p) ∧
      (∀ a, shmSize ≤ a → q.shared.mem a = m.mem a) ∧ (m.Finite → q.shared.Finite)) ∧
    ∀ p, Run start Free (System.init m.world) as p →
      ∃ q, Run Image.start Free m.system as q ∧ Alike q p := by
  have hinit : Mirrors Image.world m.system (System.init m.world) := mirrors_init m _
  refine ⟨fun q hrun => ?_, fun p hrun => ?_⟩
  · obtain ⟨p, hrun', hmirrors⟩ := hinit.run Image.matches_start hrun
    have hidle (t : Tid) : Keeps Image.Within (m.system.thread t) := trivial
    have hwithin := (keeps_run Image.within_refl Image.within_trans Image.keeps_start hidle
      hrun).1
    exact ⟨⟨p, hrun', alike_of_mirrors hmirrors⟩, hwithin.outside, hwithin.finite⟩
  · obtain ⟨q, hrun', hmirrors⟩ := hinit.run_back Image.matches_start hrun
    exact ⟨q, hrun', alike_of_mirrors hmirrors⟩

end Line6
