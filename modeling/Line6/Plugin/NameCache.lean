import Mathlib.Data.List.Chain
import Mathlib.Data.Multiset.MapFold
import Line6.Lib.RefCount
import Line6.Plugin.Name
import Line6.Plugin.Presence

/-!
# The name cache and its references

`DeviceNameCopy` hands the cached string out with a reference for the caller, and replaces it when
the name has changed. A `NameRun` is any sequence of calls by any clients, of new names in the
header, of attempts to attach the segment and of releases; it records the calls, each with the
name shown at that moment, and the references the clients own.

* `World.shownName` says what name a call has to return; `nameBuf_eq_shownName`: it is the one
  `DeviceNameCopy` builds.
* `Plugin.Balanced`: every string's count is the cache's reference, if it is the cached one, and
  those of the clients. `balanced_dropCached`, `balanced_renamed`, `balanced_retain`,
  `balanced_release`: the parts of `DeviceNameCopy` and `CFRelease` keep it.
* `NameInv.copy` and its siblings: every step keeps the invariant.
* `name_cache_spec`: calls return the name shown, the same name gives the same string, and a
  string lives exactly while it is cached or owned.
-/

namespace Line6

open Conc Conc.Prog RefCount

variable {α : Type}

/-! ## The name that is shown -/

def Ascii (l : List UInt8) : Prop := ∀ b ∈ l, b.toNat < 128

/-- ASCII is UTF-8 to CoreFoundation. -/
def Cf.AcceptsAscii (cf : Cf) : Prop := ∀ l, Ascii l → 0 ∉ l → cf.createUTF8 l = true

theorem utf8_acceptsAscii : Cf.utf8.AcceptsAscii := fun _ h _ => Utf8.validateUTF8_ascii h

/-- The name in the header. -/
def World.headerName (m : World α) : List UInt8 := cString m.shm.name.toList

/-- The name a call has to return: that of the header, or "Line 6" when it is empty or the segment
is not attached. -/
def World.shownName (m : World α) : List UInt8 :=
  if m.plug.gShm = true ∧ m.headerName ≠ [] then m.headerName else Utf8.bytes "Line 6"

theorem headerName_cField {m : World α} {src : List UInt8} (h : m.shm.name = cField src) :
    m.headerName = cString (src.take 31) := by
  unfold World.headerName
  rw [h, toList_cField, cString_append_replicate]

/-- **`DeviceNameCopy` builds the name that is shown.** -/
theorem nameBuf_eq_shownName {m : World α} {src : List UInt8} (h : m.shm.name = cField src) :
    m.nameBuf = m.shownName := by
  have hread : cString ((cField src).toList.take (nameLen - 1)) = m.headerName := by
    rw [headerName_cField h, toList_cField, List.take_append, List.take_replicate,
      cString_append_replicate, List.take_take]
    rfl
  unfold World.nameBuf World.shownName nameBuf
  cases hg : m.plug.gShm with
  | false => rfl
  | true =>
    simp only [if_true, true_and, h, hread]
    by_cases hempty : m.headerName = []
    · simp only [hempty, if_true, ne_eq, not_true_eq_false, if_false]
      rfl
    · simp only [hempty, if_false, ne_eq, not_false_eq_true, if_true]

theorem ascii_shownName {m : World α} {src : List UInt8} (h : m.shm.name = cField src)
    (hascii : Ascii src) : Ascii m.shownName := by
  unfold World.shownName
  split_ifs
  · rw [headerName_cField h]
    exact fun b hb => hascii b (List.mem_of_mem_take ((List.takeWhile_prefix _).subset hb))
  · refine Utf8.lt_of_mem_bytes ?_
    simp

/-! ## References -/

/-- The count of a string object, zero when there is none. -/
def Plugin.refs (p : Plugin) (i : Nat) : Nat := (p.strings[i]?.map CFString.refs).getD 0

section

variable {p : Plugin} {i : Nat}

theorem refs_of_getElem? {o : CFString} (h : p.strings[i]? = some o) : p.refs i = o.refs := by
  unfold Plugin.refs
  rw [h]
  rfl

theorem lt_of_refs_pos (h : 0 < p.refs i) : i < p.strings.length := by
  by_contra hout
  unfold Plugin.refs at h
  rw [List.getElem?_eq_none (Nat.le_of_not_lt hout)] at h
  exact absurd h (Nat.lt_irrefl 0)

theorem refs_modify (h : i < p.strings.length) (f : Nat → Nat) :
    ({ p with strings := p.strings.modify i fun o => { o with refs := f o.refs } } : Plugin).refs =
      Function.update p.refs i (f (p.refs i)) := by
  funext j
  unfold Plugin.refs
  dsimp only
  rw [List.getElem?_modify]
  by_cases hj : j = i
  · subst hj
    rw [Function.update_self, List.getElem?_eq_getElem h]
    simp
  · rw [Function.update_of_ne hj]
    simp [Ne.symm hj]

theorem refs_cfRetain (h : i < p.strings.length) :
    (p.cfRetain i).refs = Function.update p.refs i (p.refs i + 1) := refs_modify h fun n => n + 1

theorem refs_cfRelease (h : i < p.strings.length) :
    (p.cfRelease i).refs = Function.update p.refs i (p.refs i - 1) := refs_modify h fun n => n - 1

/-- A new string has one reference. -/
theorem refs_append (p : Plugin) (buf : List UInt8) :
    ({ p with strings := p.strings ++ [⟨buf, 1⟩] } : Plugin).refs =
      Function.update p.refs p.strings.length (p.refs p.strings.length + 1) := by
  funext j
  unfold Plugin.refs
  dsimp only
  rcases Nat.lt_trichotomy j p.strings.length with hlt | rfl | hgt
  · rw [Function.update_of_ne hlt.ne, List.getElem?_append_left hlt]
  · rw [Function.update_self, List.getElem?_concat_length, List.getElem?_eq_none (Nat.le_refl _)]
    rfl
  · rw [Function.update_of_ne hgt.ne', List.getElem?_eq_none (Nat.le_of_lt hgt),
      List.getElem?_eq_none (by rw [List.length_append]; exact hgt)]

theorem Plugin.KeepsTexts.trans {p p' p'' : Plugin} (h : p.KeepsTexts p')
    (h' : p'.KeepsTexts p'') : p.KeepsTexts p'' := by
  intro i o ho
  obtain ⟨o', ho', htext⟩ := h i o ho
  obtain ⟨o'', ho'', htext'⟩ := h' i o' ho'
  exact ⟨o'', ho'', htext'.trans htext⟩

theorem keepsTexts_dropCached (p : Plugin) : p.KeepsTexts p.dropCached := by
  unfold Plugin.dropCached
  cases p.gCachedName with
  | none => exact fun i o ho => ⟨o, ho, rfl⟩
  | some old => exact keepsTexts_cfRelease p old

theorem keepsTexts_renamed (p : Plugin) (buf : List UInt8) : p.KeepsTexts (p.renamed buf) := by
  refine (keepsTexts_dropCached p).trans fun i o ho => ⟨o, ?_, rfl⟩
  unfold Plugin.renamed
  dsimp only
  rw [List.getElem?_append_left (List.getElem?_eq_some_iff.mp ho).1, ho]

theorem length_dropCached (p : Plugin) : p.dropCached.strings.length = p.strings.length := by
  unfold Plugin.dropCached
  cases p.gCachedName with
  | none => rfl
  | some old => exact List.length_modify ..

/-! ## Balance -/

variable {κ : Type} {owned : Multiset (κ × Nat)}

/-- The references there are: that of the cache, and those of the clients. -/
def Plugin.held (p : Plugin) (owned : Multiset (κ × Nat)) : Multiset Nat :=
  (p.gCachedName.toList : Multiset Nat) + owned.map Prod.snd

/-- Every string's count is the number of references to it. -/
def Plugin.Balanced (p : Plugin) (owned : Multiset (κ × Nat)) : Prop :=
  RefCount.Balanced p.refs (p.held owned)

theorem held_of_cached (h : p.gCachedName = some i) (owned : Multiset (κ × Nat)) :
    p.held owned = i ::ₘ owned.map Prod.snd := by
  unfold Plugin.held
  rw [h, Option.toList_some, Multiset.coe_singleton, Multiset.singleton_add]

theorem held_of_none (h : p.gCachedName = none) (owned : Multiset (κ × Nat)) :
    p.held owned = owned.map Prod.snd := by
  unfold Plugin.held
  rw [h, Option.toList_none, Multiset.coe_nil, Multiset.zero_add]

/-- What is referred to exists. -/
theorem Plugin.Balanced.lt (h : p.Balanced owned) (hheld : i ∈ p.held owned) :
    i < p.strings.length := lt_of_refs_pos ((RefCount.Balanced.pos_iff h).mpr hheld)

theorem Plugin.Balanced.cached_lt (h : p.Balanced owned) (hcached : p.gCachedName = some i) :
    i < p.strings.length := by
  refine h.lt ?_
  rw [held_of_cached hcached]
  exact Multiset.mem_cons_self _ _

/-- The cache gives its reference up. -/
theorem balanced_dropCached (h : p.Balanced owned) :
    RefCount.Balanced p.dropCached.refs (owned.map Prod.snd) := by
  unfold Plugin.dropCached
  cases hcached : p.gCachedName with
  | none =>
    have hrefs : RefCount.Balanced p.refs (p.held owned) := h
    rwa [held_of_none hcached] at hrefs
  | some old =>
    have hrelease := RefCount.Balanced.release h old
    rw [held_of_cached hcached, Multiset.erase_cons_head] at hrelease
    dsimp only
    rwa [refs_cfRelease (h.cached_lt hcached)]

/-- The new string belongs to the cache. -/
theorem balanced_renamed (h : p.Balanced owned) (buf : List UInt8) :
    (p.renamed buf).Balanced owned := by
  have hretain := (balanced_dropCached h).retain p.dropCached.strings.length
  rw [← refs_append p.dropCached buf] at hretain
  unfold Plugin.Balanced
  rwa [held_of_cached rfl]

/-- A client gets a reference. -/
theorem balanced_retain (h : p.Balanced owned) (hcached : p.gCachedName = some i) (c : κ) :
    (p.cfRetain i).Balanced ((c, i) ::ₘ owned) := by
  have hretain := RefCount.Balanced.retain h i
  rw [← refs_cfRetain (h.cached_lt hcached), held_of_cached hcached] at hretain
  have hstill : (p.cfRetain i).gCachedName = some i := hcached
  unfold Plugin.Balanced
  rwa [held_of_cached hstill, Multiset.map_cons]

/-- A client gives up a reference it owns. -/
theorem balanced_release [DecidableEq κ] {c : κ} (h : p.Balanced owned) (hown : (c, i) ∈ owned) :
    (p.cfRelease i).Balanced (owned.erase (c, i)) := by
  have hmem : i ∈ owned.map Prod.snd := Multiset.mem_map_of_mem Prod.snd hown
  have hlt : i < p.strings.length := h.lt (Multiset.mem_add.mpr (.inr hmem))
  have hrelease := RefCount.Balanced.release h i
  rw [← refs_cfRelease hlt, Plugin.held, Multiset.erase_add_right_pos _ hmem] at hrelease
  unfold Plugin.Balanced Plugin.held
  rwa [Multiset.map_erase_of_mem _ _ hown]

end

/-! ## What the cache holds -/

/-- The cached string is `i`, made for `name`. -/
structure Plugin.Caches (p : Plugin) (i : Nat) (name : List UInt8) : Prop where
  object : p.gCachedName = some i
  key : cString p.gCachedNameStr.toList = name

/-- The cache and the strings are as they were. -/
structure Plugin.SameCache (p p' : Plugin) : Prop where
  cached : p'.gCachedName = p.gCachedName
  str : p'.gCachedNameStr = p.gCachedNameStr
  strings : p'.strings = p.strings

theorem nameStale_eq_false_iff {p : Plugin} {name : List UInt8} :
    p.nameStale name = false ↔ ∃ i, p.Caches i name := by
  unfold Plugin.nameStale
  rw [Bool.or_eq_false_iff, bne_eq_false_iff_eq, Option.isNone_eq_false_iff,
    Option.isSome_iff_exists]
  constructor
  · rintro ⟨⟨i, hi⟩, rfl⟩
    exact ⟨i, hi, rfl⟩
  · rintro ⟨i, hi, rfl⟩
    exact ⟨⟨i, hi⟩, rfl⟩

/-! ## Runs of calls, names and releases -/

/-- A call of `DeviceNameCopy`: the client, the name shown at the call, and the string returned. -/
structure NameCall (κ : Type) where
  client : κ
  name : List UInt8
  object : Nat

/-- The runs of clients of type `κ`: the calls so far, the references the clients own, and the
state. -/
inductive NameRun {κ : Type} [DecidableEq κ] (cf : Cf) :
    List (NameCall κ) → Multiset (κ × Nat) → World α → Prop
  /-- The plugin is loaded; the header holds some ASCII name, or none. -/
  | load {m : World α} {src : List UInt8} (hname : m.shm.name = cField src) (hascii : Ascii src)
      (hcached : m.plug.gCachedName = none)
      (hstr : m.plug.gCachedNameStr = Vector.replicate nameLen 0)
      (hstrings : m.plug.strings = []) : NameRun cf [] 0 m
  | copy {calls : List (NameCall κ)} {owned : Multiset (κ × Nat)} {m m' : World α} {i : Nat}
      (c : κ) (h : NameRun cf calls owned m)
      (hcall : exec (deviceNameCopy cf) false m = .done false m' i) :
      NameRun cf (calls ++ [⟨c, m.shownName, i⟩]) ((c, i) ::ₘ owned) m'
  | rename {calls : List (NameCall κ)} {owned : Multiset (κ × Nat)} {m m' : World α}
      (name : String) (hascii : ∀ ch ∈ name.toList, ch.toNat < 128) (h : NameRun cf calls owned m)
      (hwrite : exec (writeName name) false m = .done false m' ()) : NameRun cf calls owned m'
  | attach {calls : List (NameCall κ)} {owned : Multiset (κ × Nat)} {m m' : World α} (sys : Sys)
      (h : NameRun cf calls owned m)
      (hattach : exec (attachShm sys) false m = .done false m' ()) : NameRun cf calls owned m'
  /-- `CFRelease` of a reference the client owns. -/
  | release {calls : List (NameCall κ)} {owned : Multiset (κ × Nat)} {m : World α} {c : κ}
      {i : Nat} (h : NameRun cf calls owned m) (hown : (c, i) ∈ owned) :
      NameRun cf calls (owned.erase (c, i)) { m with plug := m.plug.cfRelease i }
  | elsewhere {calls : List (NameCall κ)} {owned : Multiset (κ × Nat)} {m m' : World α}
      (h : NameRun cf calls owned m) (hname : m'.shm.name = m.shm.name)
      (hsame : m.plug.SameCache m'.plug) : NameRun cf calls owned m'

/-- Two calls with one name return one string. -/
def SameString {κ : Type} (call call' : NameCall κ) : Prop :=
  call.name = call'.name → call.object = call'.object

/-- What holds between any two steps. -/
structure NameInv {κ : Type} (calls : List (NameCall κ)) (owned : Multiset (κ × Nat))
    (m : World α) : Prop where
  header : ∃ src, m.shm.name = cField src ∧ Ascii src
  cached : NameCached m.plug
  balanced : m.plug.Balanced owned
  texts : ∀ call ∈ calls, ∃ o, m.plug.strings[call.object]? = some o ∧ o.text = call.name
  /-- The cache holds the string of the last call, and its name. -/
  last : ∀ call ∈ calls.getLast?, m.plug.Caches call.object call.name
  chain : calls.IsChain SameString

section

variable {κ : Type} {calls : List (NameCall κ)} {owned : Multiset (κ × Nat)} {m m' : World α}

theorem NameInv.not_rejected {cf : Cf} (hcf : cf.AcceptsAscii) (h : NameInv calls owned m) :
    ¬ NameRejected cf m := by
  obtain ⟨src, hname, hascii⟩ := h.header
  rintro ⟨-, hrejected⟩
  have haccepted := hcf m.nameBuf
    (nameBuf_eq_shownName hname ▸ ascii_shownName hname hascii) (zero_notMem_nameBuf _)
  rw [hrejected] at haccepted
  cases haccepted

theorem NameInv.nameBuf (h : NameInv calls owned m) : m.nameBuf = m.shownName := by
  obtain ⟨src, hname, -⟩ := h.header
  exact nameBuf_eq_shownName hname

/-- **What a call does.** It returns the cached string if that was made for the name shown, and
else a new one, which is cached from then on. -/
theorem NameInv.call {cf : Cf} (hcf : cf.AcceptsAscii) (h : NameInv calls owned m) :
    ∃ m' i, exec (deviceNameCopy cf) false m = .done false m' i ∧ m'.shm = m.shm ∧
      m.plug.KeepsTexts m'.plug ∧ NameCached m'.plug ∧
      (∀ c, m'.plug.Balanced ((c, i) ::ₘ owned)) ∧ m'.plug.Caches i m.shownName ∧
      (m.plug.Caches i m.shownName ∨
        (m.plug.strings[i]? = none ∧ ∀ j, ¬ m.plug.Caches j m.shownName)) := by
  have hdone := exec_deviceNameCopy_done (h.not_rejected hcf)
  rw [h.nameBuf] at hdone
  rcases hdone with ⟨hfresh, i, hi, hexec⟩ | ⟨hstale, hexec⟩
  · obtain ⟨j, hcaches⟩ := nameStale_eq_false_iff.mp hfresh
    obtain rfl : j = i := Option.some.inj (hcaches.object.symm.trans hi)
    exact ⟨_, j, hexec, rfl, keepsTexts_cfRetain _ _, h.cached.retain j,
      balanced_retain h.balanced hi, ⟨hi, hcaches.key⟩, .inl hcaches⟩
  · have hnot (j : Nat) (hcaches : m.plug.Caches j m.shownName) : False := by
      rw [nameStale_eq_false_iff.mpr ⟨j, hcaches⟩] at hstale
      cases hstale
    have hlen : m.shownName.length ≤ 31 := h.nameBuf ▸ length_nameBuf _
    have hnul : 0 ∉ m.shownName := h.nameBuf ▸ zero_notMem_nameBuf _
    have hcached := h.cached.renamed hlen hnul
    have hkey : cString (m.plug.renamed m.shownName).gCachedNameStr.toList = m.shownName := by
      unfold Plugin.renamed
      rw [strncpyName_eq h.cached.last, cString_cField hlen hnul]
    have hnew : m.plug.strings[m.plug.dropCached.strings.length]? = none := by
      rw [length_dropCached]
      exact List.getElem?_eq_none (Nat.le_refl _)
    refine ⟨_, _, hexec, rfl, (keepsTexts_renamed _ _).trans (keepsTexts_cfRetain _ _),
      hcached.retain _, balanced_retain (balanced_renamed h.balanced _) rfl, ⟨rfl, hkey⟩,
      .inr ⟨hnew, hnot⟩⟩

theorem NameInv.copy {cf : Cf} (hcf : cf.AcceptsAscii) (h : NameInv calls owned m) (c : κ)
    {i : Nat} (hcall : exec (deviceNameCopy cf) false m = .done false m' i) :
    NameInv (calls ++ [⟨c, m.shownName, i⟩]) ((c, i) ::ₘ owned) m' := by
  obtain ⟨m₁, i₁, hexec, hshm, hkeeps, hcached, hbalanced, hcaches, hcase⟩ := h.call hcf
  rw [hexec] at hcall
  cases hcall
  refine ⟨hshm ▸ h.header, hcached, hbalanced c, ?_, ?_, ?_⟩
  · intro call hmem
    rcases List.mem_append.mp hmem with hmem | hmem
    · exact hkeeps.text (h.texts call hmem)
    · obtain rfl := List.mem_singleton.mp hmem
      obtain ⟨o, ho, htext⟩ := hcached.text i hcaches.object
      exact ⟨o, ho, htext.trans hcaches.key⟩
  · intro call hlast
    rw [List.getLast?_concat] at hlast
    cases hlast
    exact hcaches
  · refine List.isChain_append.mpr ⟨h.chain, List.isChain_singleton _, ?_⟩
    rintro last hlast call ⟨⟩ hname
    have hkept := h.last last hlast
    rw [hname] at hkept
    -- the cache was for this name, so nothing new was made
    rcases hcase with hsame | ⟨-, hnot⟩
    · exact Option.some.inj (hkept.object.symm.trans hsame.object)
    · exact absurd hkept (hnot _)

/-- As long as the cache is left alone, the header may hold another name. -/
theorem NameInv.keep (h : NameInv calls owned m)
    (hheader : ∃ src, m'.shm.name = cField src ∧ Ascii src) (hsame : m.plug.SameCache m'.plug) :
    NameInv calls owned m' := by
  have hrefs : m'.plug.refs = m.plug.refs := by
    unfold Plugin.refs
    rw [hsame.strings]
  have hkeeps : m.plug.KeepsTexts m'.plug := fun i o ho => ⟨o, hsame.strings ▸ ho, rfl⟩
  refine ⟨hheader, h.cached.keep hsame.cached hsame.str hkeeps, ?_,
    fun call hmem => hkeeps.text (h.texts call hmem), fun call hlast => ?_, h.chain⟩
  · unfold Plugin.Balanced Plugin.held
    rw [hrefs, hsame.cached]
    exact h.balanced
  · have hcaches := h.last call hlast
    exact ⟨hsame.cached.trans hcaches.object, hsame.str ▸ hcaches.key⟩

theorem NameInv.release [DecidableEq κ] {c : κ} {i : Nat} (h : NameInv calls owned m)
    (hown : (c, i) ∈ owned) :
    NameInv calls (owned.erase (c, i)) { m with plug := m.plug.cfRelease i } := by
  have hkeeps := keepsTexts_cfRelease m.plug i
  refine ⟨h.header, h.cached.keep rfl rfl hkeeps, balanced_release h.balanced hown,
    fun call hmem => hkeeps.text (h.texts call hmem), fun call hlast => ?_, h.chain⟩
  have hcaches := h.last call hlast
  exact ⟨hcaches.object, hcaches.key⟩

theorem nameRun_inv [DecidableEq κ] {cf : Cf} (hcf : cf.AcceptsAscii)
    (h : NameRun cf calls owned m) : NameInv calls owned m := by
  induction h with
  | @load m src hname hascii hcached hstr hstrings =>
    have hfirst : Named cf m := .load hcached hstr
    refine ⟨⟨src, hname, hascii⟩, hfirst.nameCached, ?_, nofun, nofun, .nil⟩
    unfold Plugin.Balanced Plugin.refs
    rw [held_of_none hcached, hstrings]
    exact balanced_zero
  | copy c _ hcall ih => exact ih.copy hcf c hcall
  | rename name hascii _ hwrite ih =>
    rw [exec_writeName] at hwrite
    cases hwrite
    exact ih.keep ⟨_, rfl, Utf8.lt_of_mem_bytes hascii⟩ ⟨rfl, rfl, rfl⟩
  | @attach calls owned m m' sys _ hattach ih =>
    rcases exec_attachShm sys m with hexec | hexec
    · rw [hexec] at hattach
      cases hattach
      exact ih
    · rw [hexec] at hattach
      cases hattach
      exact ih.keep ih.header ⟨rfl, rfl, rfl⟩
  | release _ hown ih => exact ih.release hown
  | elsewhere _ hname hsame ih => exact ih.keep (hname ▸ ih.header) hsame

theorem mem_held_iff {p : Plugin} {i : Nat} :
    i ∈ p.held owned ↔ p.gCachedName = some i ∨ ∃ c, (c, i) ∈ owned := by
  unfold Plugin.held
  rw [Multiset.mem_add, Multiset.mem_coe, Option.mem_toList, Multiset.mem_map]
  simp

/-- **The name cache** under any sequence of calls, new names, attachments and releases. -/
theorem name_cache_spec [DecidableEq κ] {cf : Cf} (hcf : cf.AcceptsAscii)
    (h : NameRun cf calls owned m) :
    -- Every call returned a string of the name shown at the call,
    (∀ call ∈ calls, ∃ o, m.plug.strings[call.object]? = some o ∧ o.text = call.name) ∧
    -- as will the next one, which returns a string that is alive or new.
    (∃ m' i, exec (deviceNameCopy cf) false m = .done false m' i ∧
      (∃ o, m'.plug.strings[i]? = some o ∧ o.text = m.shownName) ∧
      ∀ o, m.plug.strings[i]? = some o → 0 < o.refs) ∧
    -- Consecutive calls with one name returned one string.
    calls.IsChain SameString ∧
    -- The counts are the references there are,
    (∀ i o, m.plug.strings[i]? = some o → o.refs =
      (if m.plug.gCachedName = some i then 1 else 0) + (owned.map Prod.snd).count i) ∧
    -- what a client owns is alive,
    (∀ c i, (c, i) ∈ owned → ∃ o, m.plug.strings[i]? = some o ∧ 0 < o.refs) ∧
    -- and a string that has been replaced is destroyed exactly when no client owns it.
    ∀ i o, m.plug.strings[i]? = some o → m.plug.gCachedName ≠ some i →
      (o.refs = 0 ↔ ∀ c, (c, i) ∉ owned) := by
  have hinv := nameRun_inv hcf h
  have hbalanced : RefCount.Balanced m.plug.refs (m.plug.held owned) := hinv.balanced
  refine ⟨hinv.texts, ?_, hinv.chain, fun i o ho => ?_, fun c i hown => ?_,
    fun i o ho hreplaced => ?_⟩
  · obtain ⟨m', i, hexec, -, -, hcached, -, hcaches, hcase⟩ := hinv.call hcf
    obtain ⟨o, ho, htext⟩ := hcached.text i hcaches.object
    refine ⟨m', i, hexec, ⟨o, ho, htext.trans hcaches.key⟩, fun o' ho' => ?_⟩
    rcases hcase with hsame | ⟨hnew, -⟩
    · rw [← refs_of_getElem? ho', hbalanced.pos_iff, mem_held_iff]
      exact .inl hsame.object
    · rw [hnew] at ho'
      cases ho'
  · rw [← refs_of_getElem? ho, hbalanced i, Plugin.held, Multiset.count_add]
    cases hcached : m.plug.gCachedName with
    | none => simp
    | some j => simp [Multiset.count_singleton, eq_comm]
  · have hheld : i ∈ m.plug.held owned := mem_held_iff.mpr (.inr ⟨c, hown⟩)
    have hlt := hinv.balanced.lt hheld
    refine ⟨_, List.getElem?_eq_getElem hlt, ?_⟩
    rw [← refs_of_getElem? (List.getElem?_eq_getElem hlt)]
    exact hbalanced.pos_iff.mpr hheld
  · rw [← refs_of_getElem? ho, hbalanced.eq_zero_iff, mem_held_iff]
    simp [hreplaced]

/-- A segment of the right format, named by nobody yet, and a plugin that has not found it. -/
def undiscovered : World ℚ where
  linked := true
  shm := { (Shm.zero : Shm ℚ) with magic := shmMagic, version := shmVersion }
  plug := {}

/-- One client gets "Line 6", the other the name of the device twice, and the first gives its string
back. -/
theorem name_cache_spec_podX3 : ∃ (calls : List (NameCall Bool)) (owned : Multiset (Bool × Nat))
    (m : World ℚ), NameRun Cf.utf8 calls owned m ∧
      calls.map NameCall.name = ["Line 6", "POD X3", "POD X3"].map Utf8.bytes ∧
      calls.map NameCall.object = [0, 1, 1] ∧
      (∃ o, m.plug.strings[0]? = some o ∧ o.refs = 0) ∧
      ∃ o, m.plug.strings[1]? = some o ∧ o.refs = 3 := by
  have hempty : undiscovered.shm.name = cField [] := by decide
  have hload : NameRun Cf.utf8 ([] : List (NameCall Bool)) 0 undiscovered :=
    .load hempty nofun rfl rfl rfl
  have hnamed := ((hload.copy false rfl).attach .fine rfl).rename "POD X3" (by simp) rfl
  have htwice := (hnamed.copy true rfl).copy true rfl
  have hlast := htwice.release (c := false) (i := 0)
    (Multiset.mem_cons_of_mem (Multiset.mem_cons_of_mem (Multiset.mem_cons_self _ _)))
  have hcounts := (name_cache_spec utf8_acceptsAscii hlast).2.2.2.1
  exact ⟨_, _, _, hlast, rfl, rfl, ⟨_, rfl, hcounts 0 _ rfl⟩, ⟨_, rfl, hcounts 1 _ rfl⟩⟩

end

end Line6
