import Mathlib.Data.List.TakeWhile
import Mathlib.Data.List.GetD
import Line6.Lib.Utf8
import Line6.Shm
import Line6.Plugin.SharedMemory

/-!
# The device name, from Rust to CoreAudio

`write_name` stores the bytes of a Rust string in the header, at most 31 of them, and
`DeviceNameCopy` reads them back as a C string and makes a CFString of it, which it caches.

* `name_round_trip_iff`: whatever name the segment held before, `DeviceNameCopy` returns the name,
  or a prefix of it, exactly if the cut after 31 bytes does not fall inside a character.
-/

namespace Line6

open Conc Conc.Prog

variable {α : Type}

/-! ## C strings in a field -/

/-- A field of `NAME_LEN` bytes that holds the first 31 of `src` and zeros. -/
def cField (src : List UInt8) : Vector UInt8 nameLen :=
  Vector.ofFn fun i => if i.val < nameLen - 1 then src.getD i.val 0 else 0

theorem toList_cField (src : List UInt8) :
    (cField src).toList = src.take 31 ++ List.replicate (32 - (src.take 31).length) 0 := by
  unfold cField
  rw [Vector.toList_ofFn]
  refine List.ext_getElem ?_ fun i h₁ h₂ => ?_
  · simp only [List.length_ofFn, List.length_append, List.length_take, List.length_replicate,
      nameLen]
    omega
  · rw [List.getElem_ofFn, List.getElem_append]
    simp only [List.length_take, List.getElem_take, List.getElem_replicate,
      List.getD_eq_getElem?_getD]
    by_cases hin : i < min 31 src.length
    · have hbound : i < nameLen - 1 := by
        change i < 31
        omega
      rw [if_pos hbound, dif_pos hin, List.getElem?_eq_getElem (by omega), Option.getD_some]
    · rw [dif_neg hin]
      split_ifs with hlow
      · rw [List.getElem?_eq_none, Option.getD_none]
        change i < 31 at hlow
        omega
      · rfl

/-- The zeros that pad a C string are not read. -/
theorem cString_append_replicate (l : List UInt8) (n : Nat) :
    cString (l ++ List.replicate n 0) = cString l := by
  unfold cString
  rw [List.takeWhile_append]
  split_ifs with hall
  · have hself := (List.takeWhile_prefix (fun b : UInt8 => b != 0)).eq_of_length hall
    rw [List.takeWhile_replicate, hself]
    simp
  · rfl

/-- A C string followed by zeros is read back. -/
theorem cString_append_zeros {l : List UInt8} (h : 0 ∉ l) (n : Nat) :
    cString (l ++ List.replicate n 0) = l := by
  rw [cString_append_replicate]
  refine List.takeWhile_eq_self_iff.mpr fun b hb => ?_
  simpa using fun hzero : b = 0 => h (hzero ▸ hb)

theorem zero_notMem_cString (l : List UInt8) : 0 ∉ cString l := by
  intro h
  have := List.mem_takeWhile_imp h
  simp at this

/-- `write_name` fills the field. -/
theorem exec_writeName (name : String) (m : World α) : exec (writeName name) false m =
    .done false { m with shm := { m.shm with name := cField (Utf8.bytes name) } } () := by
  have hfield : (Vector.ofFn fun i : Fin nameLen =>
      if i.val < min (Utf8.bytes name).length (nameLen - 1) then (Utf8.bytes name).getD i.val 0
      else (Vector.replicate nameLen (0 : UInt8)).get i) = cField (Utf8.bytes name) := by
    unfold cField
    congr 1
    funext i
    rw [show (Vector.replicate nameLen (0 : UInt8)).get i = 0 by simp [Vector.get]]
    by_cases hlen : i.val < (Utf8.bytes name).length
    · simp only [lt_min_iff, hlen, true_and]
    · rw [if_neg (by simp [hlen]), List.getD_eq_default _ _ (Nat.le_of_not_lt hlen), ite_self]
  rw [← hfield]
  rfl

/-! ## What `DeviceNameCopy` reads -/

theorem zero_notMem_nameBuf (name : Option (Vector UInt8 nameLen)) : 0 ∉ nameBuf name := by
  unfold nameBuf
  dsimp only
  split_ifs
  · decide
  · cases name with
    | none => simp
    | some v => exact zero_notMem_cString _

theorem length_nameBuf (name : Option (Vector UInt8 nameLen)) : (nameBuf name).length ≤ 31 := by
  unfold nameBuf
  dsimp only
  split_ifs
  · decide
  · cases name with
    | none => simp
    | some v =>
      refine (List.takeWhile_prefix _).length_le.trans ?_
      rw [List.length_take]
      exact Nat.min_le_left _ _

/-- The name of the header is read back, cut to 31 bytes. -/
theorem nameBuf_cField {src : List UInt8} (hne : src ≠ []) (hnul : 0 ∉ src) :
    nameBuf (some (cField src)) = src.take 31 := by
  have htake : 0 ∉ src.take 31 := fun h => hnul (List.mem_of_mem_take h)
  have hread : cString ((cField src).toList.take (nameLen - 1)) = src.take 31 := by
    rw [toList_cField, List.take_append, List.take_replicate]
    rw [List.take_of_length_le (by rw [List.length_take]; exact Nat.min_le_left _ _)]
    exact cString_append_zeros htake _
  have hsome : src.take 31 ≠ [] := by simpa using hne
  unfold nameBuf
  simp only [hread, if_neg hsome]

/-! ## The cached string -/

/-- The cache is in order: the last byte of its C string is zero, and the string object has the
bytes of the C string. -/
structure NameCached (p : Plugin) : Prop where
  last : p.gCachedNameStr.get ⟨31, by decide⟩ = 0
  text : ∀ i, p.gCachedName = some i →
    ∃ o, p.strings[i]? = some o ∧ o.text = cString p.gCachedNameStr.toList

theorem strncpyName_eq {dst : Vector UInt8 nameLen} (h : dst.get ⟨31, by decide⟩ = 0)
    (src : List UInt8) : strncpyName dst src = cField src := by
  unfold strncpyName cField
  congr 1
  funext i
  split_ifs with hi
  · rfl
  · obtain rfl : i = ⟨31, by decide⟩ := by
      apply Fin.ext
      have hlt := i.isLt
      change ¬ i.val < 31 at hi
      change i.val < 32 at hlt
      show i.val = 31
      omega
    exact h

theorem get_cField_last (src : List UInt8) : (cField src).get ⟨31, by decide⟩ = 0 := by
  unfold cField
  exact (Vector.getElem_ofFn (by decide)).trans (if_neg (by decide))

theorem cString_cField {src : List UInt8} (hlen : src.length ≤ 31) (hnul : 0 ∉ src) :
    cString (cField src).toList = src := by
  rw [toList_cField, List.take_of_length_le hlen, cString_append_zeros hnul]

/-- `if (gCachedName) CFRelease(gCachedName)`. -/
def Plugin.dropCached (p : Plugin) : Plugin :=
  match p.gCachedName with
  | some old => p.cfRelease old
  | none => p

/-- The globals once the string for `buf` is made. -/
def Plugin.renamed (p : Plugin) (buf : List UInt8) : Plugin :=
  { p.dropCached with
    strings := p.dropCached.strings ++ [⟨buf, 1⟩]
    gCachedName := some p.dropCached.strings.length
    gCachedNameStr := strncpyName p.gCachedNameStr buf }

theorem dropCached_gCachedNameStr (p : Plugin) :
    p.dropCached.gCachedNameStr = p.gCachedNameStr := by
  unfold Plugin.dropCached
  cases p.gCachedName <;> rfl

/-- **`DeviceNameCopy`** returns the cached string while the name is the same, and otherwise makes
a new one. -/
theorem exec_deviceNameCopy_done {cf : Cf} {m : World α} (hok : ¬ NameRejected cf m) :
    (m.plug.nameStale m.nameBuf = false ∧ ∃ i, m.plug.gCachedName = some i ∧
      exec (deviceNameCopy cf) false m =
        .done false { m with plug := m.plug.cfRetain i } i) ∨
    (m.plug.nameStale m.nameBuf = true ∧
      exec (deviceNameCopy cf) false m = .done false
        { m with plug :=
          (m.plug.renamed m.nameBuf).cfRetain m.plug.dropCached.strings.length }
        m.plug.dropCached.strings.length) := by
  -- the header's name, or nothing, is all the first reads leave
  have hread : exec (deviceNameCopy cf) false m = exec (do
      acquire
      if ← rd fun m' => m'.plug.nameStale m.nameBuf then
        wrPlug Plugin.dropCached
        wrPlug fun p => p.cfCreate cf m.nameBuf
        wrPlug fun p => { p with gCachedNameStr := strncpyName p.gCachedNameStr m.nameBuf }
      retainCached) false m := by
    unfold deviceNameCopy World.nameBuf
    cases hg : m.plug.gShm
    · simp [hg]
      rfl
    · simp [hg]
      rfl
  rw [hread]
  cases hstale : m.plug.nameStale m.nameBuf with
  | false =>
    left
    cases hcached : m.plug.gCachedName with
    | none => simp [Plugin.nameStale, hcached] at hstale
    | some i =>
      refine ⟨rfl, i, rfl, ?_⟩
      simp [hstale, exec_retainCached hcached]
  | true =>
    right
    have hcreate : cf.createUTF8 m.nameBuf = true := by
      by_contra hrejected
      exact hok ⟨hstale, Bool.eq_false_of_not_eq_true hrejected⟩
    refine ⟨rfl, ?_⟩
    simp [hstale, wrPlug, Plugin.cfCreate, hcreate, dropCached_gCachedNameStr, Plugin.renamed,
      exec_retainCached]

/-- The texts of the strings there are do not change. -/
def Plugin.KeepsTexts (p p' : Plugin) : Prop :=
  ∀ (i : Nat) (o : CFString), p.strings[i]? = some o →
    ∃ o' : CFString, p'.strings[i]? = some o' ∧ o'.text = o.text

theorem Plugin.KeepsTexts.text {p p' : Plugin} (h : p.KeepsTexts p') {i : Nat} {text : List UInt8}
    (ho : ∃ o, p.strings[i]? = some o ∧ o.text = text) :
    ∃ o, p'.strings[i]? = some o ∧ o.text = text := by
  obtain ⟨o, ho, rfl⟩ := ho
  exact h i o ho

/-- Neither a retain nor a release touches a text. -/
theorem keepsTexts_modify (p : Plugin) (j : Nat) (f : Nat → Nat) :
    p.KeepsTexts { p with strings := p.strings.modify j fun o => { o with refs := f o.refs } } := by
  intro i o ho
  dsimp only
  rw [List.getElem?_modify, ho]
  split_ifs
  · exact ⟨_, rfl, rfl⟩
  · exact ⟨_, rfl, rfl⟩

theorem keepsTexts_cfRetain (p : Plugin) (j : Nat) : p.KeepsTexts (p.cfRetain j) :=
  keepsTexts_modify p j fun n => n + 1

theorem keepsTexts_cfRelease (p : Plugin) (j : Nat) : p.KeepsTexts (p.cfRelease j) :=
  keepsTexts_modify p j fun n => n - 1

/-- The cache stays in order as long as nobody writes to it. -/
theorem NameCached.keep {p p' : Plugin} (h : NameCached p)
    (hcached : p'.gCachedName = p.gCachedName) (hstr : p'.gCachedNameStr = p.gCachedNameStr)
    (htexts : p.KeepsTexts p') : NameCached p' := by
  refine ⟨hstr ▸ h.last, fun i hi => ?_⟩
  rw [hcached] at hi
  rw [hstr]
  exact htexts.text (h.text i hi)

theorem NameCached.retain {p : Plugin} (h : NameCached p) (j : Nat) : NameCached (p.cfRetain j) :=
  h.keep rfl rfl (keepsTexts_cfRetain p j)

theorem NameCached.renamed {p : Plugin} (h : NameCached p) {buf : List UInt8}
    (hlen : buf.length ≤ 31) (hnul : 0 ∉ buf) : NameCached (p.renamed buf) := by
  have hstr : (p.renamed buf).gCachedNameStr = cField buf := strncpyName_eq h.last buf
  constructor
  · rw [hstr]
    exact get_cField_last buf
  · intro i hi
    obtain rfl : p.dropCached.strings.length = i := Option.some.inj hi
    refine ⟨⟨buf, 1⟩, ?_, ?_⟩
    · exact List.getElem?_concat_length
    · rw [hstr, cString_cField hlen hnul]

/-- **`DeviceNameCopy` on a cache in order** returns a string of the bytes it read, and leaves the
cache in order. -/
theorem exec_deviceNameCopy_text {cf : Cf} {m : World α} (h : NameCached m.plug)
    (hok : ¬ NameRejected cf m) : ∃ m' i o, exec (deviceNameCopy cf) false m = .done false m' i ∧
      m'.plug.strings[i]? = some o ∧ o.text = m.nameBuf ∧ NameCached m'.plug := by
  rcases exec_deviceNameCopy_done hok with ⟨hstale, i, hi, hexec⟩ | ⟨-, hexec⟩
  · obtain ⟨o, ho, htext⟩ := (keepsTexts_cfRetain m.plug i).text (h.text i hi)
    have hsame : m.nameBuf = cString m.plug.gCachedNameStr.toList := by
      simpa [Plugin.nameStale, hi] using hstale
    exact ⟨_, i, o, hexec, ho, htext.trans hsame.symm, h.retain i⟩
  · have hcached : NameCached (m.plug.renamed m.nameBuf) :=
      h.renamed (length_nameBuf _) (zero_notMem_nameBuf _)
    have hlast : (m.plug.renamed m.nameBuf).strings[m.plug.dropCached.strings.length]? =
        some ⟨m.nameBuf, 1⟩ := List.getElem?_concat_length
    obtain ⟨o, ho, htext⟩ := keepsTexts_cfRetain _ m.plug.dropCached.strings.length _ _ hlast
    exact ⟨_, _, o, hexec, ho, htext, hcached.retain _⟩

/-! ## Runs of names -/

/-- What happens between the reads of the name: anything, the header's name included, but the
cache stays as it is, reference counts apart. -/
structure KeepsCache (p p' : Plugin) : Prop where
  cached : p'.gCachedName = p.gCachedName
  str : p'.gCachedNameStr = p.gCachedNameStr
  texts : ∀ (i : Nat) (o : CFString), p.strings[i]? = some o →
    ∃ o' : CFString, p'.strings[i]? = some o' ∧ o'.text = o.text

/-- The states a plugin reaches whose host reads the name again and again, whatever names the
segment holds. -/
inductive Named (cf : Cf) : World α → Prop
  | load {m : World α} (hcached : m.plug.gCachedName = none)
      (hstr : m.plug.gCachedNameStr = Vector.replicate nameLen 0) : Named cf m
  | between {m m' : World α} (h : Named cf m) (hkeeps : KeepsCache m.plug m'.plug) : Named cf m'
  | copied {m m' : World α} {i : Nat} (h : Named cf m)
      (hcall : exec (deviceNameCopy cf) false m = .done false m' i) : Named cf m'

theorem Named.nameCached {cf : Cf} {m : World α} (h : Named cf m) : NameCached m.plug := by
  induction h with
  | load hcached hstr =>
    refine ⟨?_, fun i hi => ?_⟩
    · rw [hstr]
      simp [Vector.get, nameLen]
    · rw [hcached] at hi
      cases hi
  | between _ hkeeps ih => exact ih.keep hkeeps.cached hkeeps.str hkeeps.texts
  | @copied m m' i _ hcall ih =>
    have hok : ¬ NameRejected cf m := by
      intro hrejected
      rw [(exec_deviceNameCopy cf m).1 hrejected] at hcall
      cases hcall
    obtain ⟨m'', j, o, hexec, -, -, hcached⟩ := exec_deviceNameCopy_text ih hok
    rw [hexec] at hcall
    cases hcall
    exact hcached

/-- The bytes that arrive for a name: the whole name if it has at most 31 bytes, and in any case
the bytes of a prefix of it. -/
structure Arrives (name : String) (text : List UInt8) : Prop where
  whole : name.utf8ByteSize ≤ 31 → text = Utf8.bytes name
  part : ∃ s, Utf8.bytes s = text ∧ s.toList <+: name.toList

/-- **The device name from Rust to CoreAudio.** After `write_name`, whatever name the segment held
before, `DeviceNameCopy` returns a string, of the name or a prefix of it, exactly if the name has
at most 31 bytes or a character that begins at byte 31. -/
theorem name_round_trip_iff {m : World α} (h : Named Cf.utf8 m) (hattached : m.plug.gShm = true)
    {name : String} (hne : name ≠ "") (hnul : Char.ofNat 0 ∉ name.toList) :
    (∃ m₁ m₂ i o, exec (writeName name) false m = .done false m₁ () ∧
        exec (deviceNameCopy Cf.utf8) false m₁ = .done false m₂ i ∧
        m₂.plug.strings[i]? = some o ∧ Arrives name o.text) ↔
      name.utf8ByteSize ≤ 31 ∨ (⟨31⟩ : String.Pos.Raw).IsValid name := by
  have hbytes : Utf8.bytes name ≠ [] := fun hnil => hne (Utf8.bytes_eq_nil_iff.mp hnil)
  obtain ⟨m₁, hwrite, hplug, hbuf⟩ : ∃ m₁ : World α, exec (writeName name) false m =
      .done false m₁ () ∧ m₁.plug = m.plug ∧ m₁.nameBuf = (Utf8.bytes name).take 31 := by
    refine ⟨_, exec_writeName name m, rfl, ?_⟩
    unfold World.nameBuf
    dsimp only
    rw [if_pos hattached, nameBuf_cField hbytes (Utf8.zero_notMem_bytes hnul)]
  have hcached : NameCached m₁.plug := hplug ▸ h.nameCached
  rw [← Utf8.take_bytes_iff]
  constructor
  · rintro ⟨m₁', m₂, i, o, hwrite', hexec, ho, harrives⟩
    obtain rfl : m₁ = m₁' := by
      rw [hwrite] at hwrite'
      injection hwrite'
    have hok : ¬ NameRejected Cf.utf8 m₁ := by
      intro hrejected
      rw [(exec_deviceNameCopy _ m₁).1 hrejected] at hexec
      cases hexec
    obtain ⟨m₂', j, o', hexec', ho', htext, -⟩ := exec_deviceNameCopy_text hcached hok
    rw [hexec'] at hexec
    cases hexec
    obtain rfl : o' = o := Option.some.inj (ho'.symm.trans ho)
    obtain ⟨s, hs, hprefix⟩ := harrives.part
    exact ⟨s, hs.trans (htext.trans hbuf), hprefix⟩
  · rintro ⟨s, hs, hprefix⟩
    have hok : ¬ NameRejected Cf.utf8 m₁ := by
      rintro ⟨-, hrejected⟩
      rw [hbuf, ← hs] at hrejected
      exact Bool.false_ne_true (hrejected.symm.trans (Utf8.validateUTF8_bytes s))
    obtain ⟨m₂, i, o, hexec, ho, htext, -⟩ := exec_deviceNameCopy_text hcached hok
    refine ⟨m₁, m₂, i, o, hwrite, hexec, ho, fun hshort => ?_, s, ?_, hprefix⟩
    · rw [htext, hbuf, List.take_of_length_le (by rwa [Utf8.length_bytes])]
    · rw [hs, htext, hbuf]

/-- An attached plugin on a segment without a name. -/
def unnamed : World ℚ where
  linked := true
  shm := Shm.zero
  plug := { gShm := true }

theorem name_round_trip_podX3Live : ∃ m₁ m₂ i o,
    exec (writeName "POD X3 Live") false unnamed = .done false m₁ () ∧
      exec (deviceNameCopy Cf.utf8) false m₁ = .done false m₂ i ∧
      m₂.plug.strings[i]? = some o ∧ Arrives "POD X3 Live" o.text :=
  (name_round_trip_iff (.load rfl rfl) rfl (by decide) (by decide)).mpr (.inl (by decide))

/-- **A name cut inside a character kills the process.** -/
theorem cut_name_crashes : ¬ ∀ (m : World ℚ) (name : String), Named Cf.utf8 m →
    m.plug.gShm = true → name ≠ "" → Char.ofNat 0 ∉ name.toList →
    ∃ m₁ m₂ i o, exec (writeName name) false m = .done false m₁ () ∧
      exec (deviceNameCopy Cf.utf8) false m₁ = .done false m₂ i ∧
      m₂.plug.strings[i]? = some o ∧ Arrives name o.text := by
  intro h
  obtain ⟨m₁, m₂, i, o, hwrite, hexec, -⟩ := h unnamed "POD X3 Live 25th Anniversary (édition)"
    (.load rfl rfl) rfl (by decide) (by decide)
  rw [exec_writeName] at hwrite
  cases hwrite
  rw [(exec_deviceNameCopy _ _).1 ⟨by decide, by decide⟩] at hexec
  cases hexec

end Line6
