import Line6.Plugin.Property

/-!
# The caller's buffer

`GetPropertyData` is told the size of the caller's buffer. The lists of object ids are cut to it;
no other property looks at it.

* `respects_buffer_iff`: a query stays in the buffer, and fails where a property of fixed size does
  not fit, exactly if every property of fixed size fits.
-/

namespace Line6

open Conc Conc.Prog

variable {α : Type}

/-- The reply stays in a buffer of `inSize` bytes. -/
structure Reply.Within (r : Reply) (inSize : UInt32) : Prop where
  size : r.size ≤ inSize
  writes : ∀ w ∈ r.writes, w.1 + w.2.size ≤ inSize.toNat

theorem Reply.within_of_all {r : Reply} {n : UInt32} (hsize : r.size ≤ n)
    (h : (r.writes.all fun w => w.1 + w.2.size ≤ n.toNat) = true) : r.Within n :=
  ⟨hsize, fun w hw => of_decide_eq_true (List.all_eq_true.mp h w hw)⟩

theorem Reply.Within.mono {r : Reply} {n n' : UInt32} (h : r.Within n) (hn : n ≤ n') :
    r.Within n' :=
  ⟨UInt32.le_trans h.size hn, fun w hw =>
    (h.writes w hw).trans (UInt32.le_iff_toNat_le.mp hn)⟩

/-- The queries for a list of object ids: the objects and devices of the plug-in, the objects,
streams and related devices of the device. -/
def ListsObjects (k : Sdk) (obj : UInt32) (a : Address) : Prop :=
  (obj = kObjectIDPlugIn ∧
    (k.plugInSel a.selector = some .ownedObjects ∨ k.plugInSel a.selector = some .deviceList)) ∨
  (obj = kObjectIDDevice ∧
    (k.deviceSel a.selector = some .ownedObjects ∨ k.deviceSel a.selector = some .streams ∨
      k.deviceSel a.selector = some .relatedDevices))

/-- The query is for a property of the fixed size `n`. -/
def FixedSize (k : Sdk) (obj : UInt32) (a : Address) (m : World α) (n : UInt32) : Prop :=
  answer (getPropertyDataSize k obj a) m = some (.ok n) ∧ ¬ ListsObjects k obj a

/-- A data query respects the buffer: what it answers stays in it, and a property of fixed size
that does not fit is an error. -/
structure RespectsBuffer (k : Sdk) (cf : Cf) (obj : UInt32) (a : Address) (q : Qualifier)
    (inSize : UInt32) (m : World α) : Prop where
  within : ∀ r, answer (getPropertyData k cf obj a q inSize) m = some (.ok r) → r.Within inSize
  short : ∀ n, FixedSize k obj a m n → inSize < n →
    ∃ e, answer (getPropertyData k cf obj a q inSize) m = some (.error e)

/-! ## Properties of fixed size -/

/-- Whatever the buffer, the data query answers the whole property, of the size the size query
gives, or kills the process. -/
def Whole (size : Prog (World α) (Except HalError UInt32))
    (data : UInt32 → Prog (World α) (Except HalError Reply)) (m : World α) : Prop :=
  ∃ n, answer size m = some (.ok n) ∧ ∀ inSize, answer (data inSize) m = none ∨
    ∃ r, answer (data inSize) m = some (.ok r) ∧ r.size = n ∧ r.Within n

theorem whole_of_reply {size : Prog (World α) (Except HalError UInt32)}
    {data : UInt32 → Prog (World α) (Except HalError Reply)} {m : World α} {r : Reply}
    (hsize : answer size m = some (.ok r.size))
    (hdata : ∀ inSize, answer (data inSize) m = some (.ok r))
    (hwrites : (r.writes.all fun w => w.1 + w.2.size ≤ r.size.toNat) = true) :
    Whole size data m :=
  ⟨r.size, hsize, fun inSize => .inr ⟨r, hdata inSize, rfl,
    Reply.within_of_all (UInt32.le_refl _) hwrites⟩⟩

theorem plugIn_whole (k : Sdk) (q : Qualifier) (m : World α) {s : PlugInSel}
    (howned : s ≠ .ownedObjects) (hlist : s ≠ .deviceList) :
    Whole (plugInDataSize s) (fun n => plugInData k q n s) m := by
  cases s with
  | ownedObjects => exact absurd rfl howned
  | deviceList => exact absurd rfl hlist
  | _ => exact whole_of_reply rfl (fun _ => rfl) rfl

theorem name_whole (k : Sdk) (cf : Cf) (scope : UInt32) (m : World α) :
    Whole (deviceDataSize k scope .name) (fun n => deviceData k cf scope n .name) m := by
  refine ⟨sizeofCFStringRef, rfl, fun inSize => ?_⟩
  by_cases hrej : NameRejected cf m
  · left
    unfold answer deviceData
    rw [exec_bind, (exec_deviceNameCopy cf m).1 hrej]
    rfl
  · right
    obtain ⟨m', i, he⟩ := (exec_deviceNameCopy cf m).2 hrej
    refine ⟨replyString (.object i), ?_, rfl, Reply.within_of_all (UInt32.le_refl _) rfl⟩
    unfold answer deviceData
    rw [exec_bind_done he]
    rfl

theorem device_whole (k : Sdk) (cf : Cf) (scope : UInt32) (m : World α) {s : DeviceSel}
    (howned : s ≠ .ownedObjects) (hstreams : s ≠ .streams) (hrelated : s ≠ .relatedDevices) :
    Whole (deviceDataSize k scope s) (fun n => deviceData k cf scope n s) m := by
  cases s with
  | ownedObjects => exact absurd rfl howned
  | streams => exact absurd rfl hstreams
  | relatedDevices => exact absurd rfl hrelated
  | name => exact name_whole k cf scope m
  | streamConfiguration =>
    by_cases hsc : scope = k.scopeOutput
    · simp only [deviceDataSize, deviceData, if_pos hsc]
      exact whole_of_reply (r := ⟨offsetofBuffers, _⟩) rfl (fun _ => rfl) rfl
    · simp only [deviceDataSize, deviceData, if_neg hsc]
      exact whole_of_reply (r := ⟨offsetofBuffers + sizeofAudioBuffer, _⟩) rfl
        (fun _ => (answer_devChannels _ _).trans rfl) rfl
  | _ => exact whole_of_reply rfl (fun _ => rfl) rfl

theorem stream_whole (k : Sdk) (m : World α) (s : StreamSel) :
    Whole (streamDataSize s) (fun _ => do streamData k (← devChannels) s) m := by
  cases s <;> exact whole_of_reply rfl (fun _ => (answer_devChannels _ _).trans rfl) rfl

/-! ## Lists of objects -/

/-- The data query answers as much of the list as the buffer holds. -/
def Clipped (data : UInt32 → Prog (World α) (Except HalError Reply)) (m : World α) : Prop :=
  ∀ inSize, ∃ r, answer (data inSize) m = some (.ok r) ∧ r.Within inSize

theorem replyNothing_within (inSize : UInt32) : replyNothing.Within inSize :=
  ⟨UInt32.le_iff_toNat_le.mpr (Nat.zero_le _), nofun⟩

theorem replyU32_within (v : UInt32) {inSize : UInt32} (h : sizeofUInt32 ≤ inSize) :
    (replyU32 v).Within inSize :=
  (Reply.within_of_all (UInt32.le_refl _) rfl : (replyU32 v).Within sizeofUInt32).mono h

theorem plugIn_clipped (k : Sdk) (q : Qualifier) (m : World α) :
    Clipped (fun n => plugInData k q n .deviceList) m := by
  intro inSize
  refine ⟨_, rfl, ?_⟩
  beta_reduce
  split_ifs with h
  · exact replyU32_within _ h.2
  · exact replyNothing_within inSize

theorem related_clipped (k : Sdk) (cf : Cf) (scope : UInt32) (m : World α) :
    Clipped (fun n => deviceData k cf scope n .relatedDevices) m := by
  intro inSize
  refine ⟨_, rfl, ?_⟩
  split_ifs with h
  · exact replyU32_within _ h
  · exact replyNothing_within inSize

/-- The list reply of `fit` ids stays in every buffer that holds `fit` ids. -/
theorem idsReply_within (ids : List UInt32) {fit inSize : UInt32}
    (hfit : fit.toNat ≤ inSize.toNat / 4) :
    Reply.Within ⟨fit * sizeofAudioObjectID,
      (ids.take fit.toNat).zipIdx.map fun (id, i) => (4 * i, .u32 id)⟩ inSize := by
  have hsize : (fit * sizeofAudioObjectID).toNat = fit.toNat * 4 := by
    have := inSize.toNat_lt
    rw [UInt32.toNat_mul]
    exact Nat.mod_eq_of_lt (show fit.toNat * 4 < _ by omega)
  constructor
  · rw [UInt32.le_iff_toNat_le, hsize]
    omega
  · intro w hw
    obtain ⟨⟨id, i⟩, hmem, rfl⟩ := List.mem_map.mp hw
    have hi : i < (ids.take fit.toNat).length := List.snd_lt_of_mem_zipIdx hmem
    rw [List.length_take] at hi
    show 4 * i + 4 ≤ _
    omega

theorem streams_clipped (k : Sdk) (cf : Cf) (scope : UInt32) (m : World α) :
    Clipped (fun n => deviceData k cf scope n .streams) m := by
  intro inSize
  refine ⟨_, rfl, idsReply_within _ ?_⟩
  have hdiv : (inSize / sizeofAudioObjectID).toNat = inSize.toNat / 4 := UInt32.toNat_div _ _
  split_ifs with h
  · exact hdiv ▸ (UInt32.lt_iff_toNat_lt.mp h).le
  · exact hdiv.le

/-! ## The whole server -/

/-- Every query is for nothing, for a list of objects cut to the buffer, or for a property of fixed
size that is answered whole. -/
theorem query_cases (k : Sdk) (cf : Cf) (obj : UInt32) (a : Address) (q : Qualifier)
    (m : World α) :
    (∃ e, answer (getPropertyDataSize k obj a) m = some (.error e) ∧
        ∀ n, answer (getPropertyData k cf obj a q n) m = some (.error e)) ∨
      (ListsObjects k obj a ∧ Clipped (fun n => getPropertyData k cf obj a q n) m) ∨
      (¬ ListsObjects k obj a ∧
        Whole (getPropertyDataSize k obj a) (fun n => getPropertyData k cf obj a q n) m) := by
  unfold getPropertyDataSize getPropertyData
  by_cases hel : a.element = k.elementMain
  swap
  · simp only [if_pos hel]
    exact .inl ⟨_, rfl, fun _ => rfl⟩
  simp only [if_neg (not_not_intro hel)]
  by_cases h1 : obj = kObjectIDPlugIn
  · simp only [if_pos h1]
    cases hs : k.plugInSel a.selector with
    | none => exact .inl ⟨_, rfl, fun _ => rfl⟩
    | some s =>
      right
      by_cases howned : s = .ownedObjects
      · subst howned
        exact .inl ⟨.inl ⟨h1, .inl hs⟩, plugIn_clipped k q m⟩
      by_cases hlist : s = .deviceList
      · subst hlist
        exact .inl ⟨.inl ⟨h1, .inr hs⟩, plugIn_clipped k q m⟩
      refine .inr ⟨?_, plugIn_whole k q m howned hlist⟩
      rintro (⟨-, h | h⟩ | ⟨h, -⟩)
      · exact howned (Option.some.inj (hs.symm.trans h))
      · exact hlist (Option.some.inj (hs.symm.trans h))
      · exact absurd (h1.symm.trans h) (by decide)
  simp only [if_neg h1]
  by_cases h2 : obj = kObjectIDDevice
  · simp only [if_pos h2]
    cases hs : k.deviceSel a.selector with
    | none => exact .inl ⟨_, rfl, fun _ => rfl⟩
    | some s =>
      right
      by_cases howned : s = .ownedObjects
      · subst howned
        exact .inl ⟨.inr ⟨h2, .inl hs⟩, streams_clipped k cf a.scope m⟩
      by_cases hstreams : s = .streams
      · subst hstreams
        exact .inl ⟨.inr ⟨h2, .inr (.inl hs)⟩, streams_clipped k cf a.scope m⟩
      by_cases hrelated : s = .relatedDevices
      · subst hrelated
        exact .inl ⟨.inr ⟨h2, .inr (.inr hs)⟩, related_clipped k cf a.scope m⟩
      refine .inr ⟨?_, device_whole k cf a.scope m howned hstreams hrelated⟩
      rintro (⟨h, -⟩ | ⟨-, h | h | h⟩)
      · exact h1 h
      · exact howned (Option.some.inj (hs.symm.trans h))
      · exact hstreams (Option.some.inj (hs.symm.trans h))
      · exact hrelated (Option.some.inj (hs.symm.trans h))
  simp only [if_neg h2]
  by_cases h3 : obj = kObjectIDStreamInput
  · simp only [if_pos h3]
    cases k.streamSel a.selector with
    | none => exact .inl ⟨_, rfl, fun _ => answer_devChannels _ m⟩
    | some s =>
      refine .inr (.inr ⟨?_, stream_whole k m s⟩)
      rintro (⟨h, -⟩ | ⟨h, -⟩)
      · exact h1 h
      · exact h2 h
  · simp only [if_neg h3]
    exact .inl ⟨_, rfl, fun _ => rfl⟩

/-- **`GetPropertyData` respects the caller's buffer** exactly if the query is not for a property
of fixed size that does not fit. -/
theorem respects_buffer_iff (k : Sdk) (cf : Cf) (obj : UInt32) (a : Address) (q : Qualifier)
    (inSize : UInt32) (m : World α) :
    RespectsBuffer k cf obj a q inSize m ↔ ∀ n, FixedSize k obj a m n → n ≤ inSize := by
  rcases query_cases k cf obj a q m with ⟨e, hsize, hdata⟩ | ⟨hlists, hclipped⟩ |
    ⟨hfixed, n, hsize, hdata⟩
  · constructor
    · rintro - n ⟨hn, -⟩
      rw [hsize] at hn
      cases hn
    · intro _
      refine ⟨fun r hr => ?_, fun _ _ _ => ⟨e, hdata inSize⟩⟩
      rw [hdata inSize] at hr
      cases hr
  · constructor
    · rintro - n ⟨-, hn⟩
      exact absurd hlists hn
    · intro _
      obtain ⟨r, hr, hwithin⟩ := hclipped inSize
      refine ⟨fun r' hr' => ?_, fun _ hn => absurd hlists hn.2⟩
      obtain rfl : r = r' := by simpa using hr.symm.trans hr'
      exact hwithin
  · constructor
    · rintro h n' hn'
      by_contra hshort
      obtain ⟨e, he⟩ := h.short n' hn' (UInt32.not_le.mp hshort)
      rcases hdata inSize with hnone | ⟨r, hr, -⟩
      · rw [hnone] at he
        cases he
      · rw [hr] at he
        cases he
    · intro hfits
      have hn : n ≤ inSize := hfits n ⟨hsize, hfixed⟩
      refine ⟨fun r hr => ?_, fun n' hn' hshort => absurd (hfits n' hn') (UInt32.not_le.mpr hshort)⟩
      rcases hdata inSize with hnone | ⟨r', hr', -, hwithin⟩
      · rw [hnone] at hr
        cases hr
      · obtain rfl : r = r' := by simpa using hr.symm.trans hr'
        exact hwithin.mono hn

/-- **The format of the stream does not fit four bytes** and is written all the same. -/
theorem format_overruns_buffer : ¬ ∀ (k : Sdk) (cf : Cf) (obj : UInt32) (a : Address)
    (q : Qualifier) (inSize : UInt32) (m : World ℚ), RespectsBuffer k cf obj a q inSize m := by
  intro h
  have hwithin := (h numberedSdk Cf.utf8 kObjectIDStreamInput ⟨9, 1, 0⟩ ⟨0, none⟩ 4 cutName).within
    ⟨sizeofASBD, fillASBD numberedSdk 8⟩ rfl
  exact absurd hwithin.size (by decide)

end Line6
