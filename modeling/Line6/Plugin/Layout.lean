import Line6.Plugin.Property

/-!
# The streams of the device, seen three ways

The device lists its streams (`Streams`, `OwnedObjects`) and describes their buffers
(`StreamConfiguration`), each for a scope; every stream has a format. The lists are for the scopes
global and input, the buffers for every scope but output.

* `layout_agrees_iff`: the views agree exactly in the scopes global, input and output.
* `layout_disagrees`: in another scope there is a buffer and no stream.
-/

namespace Line6

open Conc Conc.Prog

variable {α : Type}

/-! ## What a caller reads -/

/-- The `UInt32` the reply stored at an offset. -/
def Reply.word (r : Reply) (offset : Nat) : Option UInt32 :=
  match r.writes.lookup offset with
  | some (.u32 v) => some v
  | _ => none

/-- The object ids of a list. -/
def Reply.ids (r : Reply) : List UInt32 :=
  (List.range (r.size.toNat / 4)).filterMap fun i => r.word (4 * i)

/-- `mNumberChannels` of each of the first `n` buffers of an `AudioBufferList`. -/
def Reply.buffers (r : Reply) (n : UInt32) : List UInt32 :=
  (List.range n.toNat).filterMap fun i => r.word (offsetofBuffers.toNat + 16 * i)

/-- What a caller gets who asks for the size and passes it. -/
def asked (k : Sdk) (cf : Cf) (obj : UInt32) (a : Address) (q : Qualifier) (m : World α) :
    Option Reply :=
  match answer (getPropertyDataSize k obj a) m with
  | some (.ok n) => (answer (getPropertyData k cf obj a q n) m).bind Except.toOption
  | _ => none

/-- The virtual format of stream `id`, asked for in any scope, is one of `ch` channels. -/
def FormatOf (k : Sdk) (cf : Cf) (m : World α) (id ch : UInt32) : Prop :=
  ∀ scope q, ∃ f, asked k cf id ⟨k.stream .virtualFormat, scope, k.elementMain⟩ q m = some f ∧
    f.word 28 = some ch ∧ f.word 24 = some (4 * ch) ∧ 1 ≤ ch.toNat ∧ ch.toNat ≤ 8

/-- The views of the streams agree in a scope: as many buffers as streams listed and as objects
owned, and as many channels in the buffers as in the formats of the streams. -/
def LayoutAgrees (k : Sdk) (cf : Cf) (scope : UInt32) (q : Qualifier) (m : World α) : Prop :=
  ∃ config streams owned n chans,
    asked k cf kObjectIDDevice ⟨k.device .streamConfiguration, scope, k.elementMain⟩ q m =
      some config ∧
    asked k cf kObjectIDDevice ⟨k.device .streams, scope, k.elementMain⟩ q m = some streams ∧
    asked k cf kObjectIDDevice ⟨k.device .ownedObjects, scope, k.elementMain⟩ q m = some owned ∧
    config.word 0 = some n ∧ streams.ids.length = n.toNat ∧ owned.ids.length = n.toNat ∧
    List.Forall₂ (FormatOf k cf m) streams.ids chans ∧
    ((config.buffers n).map UInt32.toNat).sum = (chans.map UInt32.toNat).sum

/-- Output is neither the global scope nor input. -/
structure Sdk.ScopesDistinct (k : Sdk) : Prop where
  global : k.scopeGlobal ≠ k.scopeOutput
  input : k.scopeInput ≠ k.scopeOutput

/-! ## The three views -/

theorem asked_device (k : Sdk) (cf : Cf) {s : DeviceSel} {scope n : UInt32} (q : Qualifier)
    {m : World α} (hsize : answer (deviceDataSize k scope s) m = some (.ok n)) :
    asked k cf kObjectIDDevice ⟨k.device s, scope, k.elementMain⟩ q m =
      (answer (deviceData k cf scope n s) m).bind Except.toOption := by
  have hdevice : ¬ kObjectIDDevice = kObjectIDPlugIn := by decide
  unfold asked getPropertyDataSize getPropertyData
  simp only [ne_eq, not_true_eq_false, if_false, if_neg hdevice, if_true, k.deviceSel_device, hsize]

/-- The lists of the streams and of the objects owned. -/
theorem asked_streams (k : Sdk) (cf : Cf) (scope : UInt32) (q : Qualifier) (m : World α) :
    ∃ r, asked k cf kObjectIDDevice ⟨k.device .streams, scope, k.elementMain⟩ q m = some r ∧
      asked k cf kObjectIDDevice ⟨k.device .ownedObjects, scope, k.elementMain⟩ q m = some r ∧
      r.ids = deviceStreamList k scope := by
  rw [asked_device k cf q rfl, asked_device k cf q rfl]
  refine ⟨_, rfl, rfl, ?_⟩
  unfold deviceStreamList
  split_ifs <;> rfl

theorem asked_config (k : Sdk) (cf : Cf) (scope : UInt32) (q : Qualifier) (m : World α) :
    ∃ r, asked k cf kObjectIDDevice ⟨k.device .streamConfiguration, scope, k.elementMain⟩ q m =
        some r ∧
      r.word 0 = some (if scope = k.scopeOutput then 0 else 1) ∧
      r.buffers (if scope = k.scopeOutput then 0 else 1) =
        if scope = k.scopeOutput then [] else [m.devChannels] := by
  rw [asked_device k cf q rfl]
  by_cases hout : scope = k.scopeOutput
  · simp only [deviceData, if_pos hout]
    exact ⟨_, rfl, rfl, rfl⟩
  · simp only [deviceData, if_neg hout, answer_devChannels]
    exact ⟨_, rfl, rfl, rfl⟩

/-- The format of the stream has the channel count of `DevChannels`. -/
theorem formatOf_stream (k : Sdk) (cf : Cf) (m : World α) :
    FormatOf k cf m kObjectIDStreamInput m.devChannels := by
  intro scope q
  have hplugIn : ¬ kObjectIDStreamInput = kObjectIDPlugIn := by decide
  have hdevice : ¬ kObjectIDStreamInput = kObjectIDDevice := by decide
  have hasked : asked k cf kObjectIDStreamInput
      ⟨k.stream .virtualFormat, scope, k.elementMain⟩ q m =
        some ⟨sizeofASBD, fillASBD k m.devChannels⟩ := by
    unfold asked getPropertyDataSize getPropertyData
    simp only [ne_eq, not_true_eq_false, if_false, if_neg hplugIn, if_neg hdevice, if_true,
      k.streamSel_stream, answer_devChannels]
    rfl
  refine ⟨_, hasked, rfl, ?_, one_le_clampChannels _, clampChannels_le _⟩
  show some (m.devChannels * kBytesPerSample) = _
  rw [UInt32.mul_comm]
  rfl

/-! ## Agreement -/

/-- **The views agree** exactly in the scopes global, input and output. -/
theorem layout_agrees_iff {k : Sdk} (hk : k.ScopesDistinct) (cf : Cf) (scope : UInt32)
    (q : Qualifier) (m : World α) : LayoutAgrees k cf scope q m ↔
      scope = k.scopeGlobal ∨ scope = k.scopeInput ∨ scope = k.scopeOutput := by
  obtain ⟨streams, hstreams, howned, hids⟩ := asked_streams k cf scope q m
  obtain ⟨config, hconfig, hcount, hbuffers⟩ := asked_config k cf scope q m
  constructor
  · rintro ⟨config', streams', owned', n, chans, hc, hs, -, hn, hlen, -⟩
    obtain rfl : config = config' := Option.some.inj (hconfig.symm.trans hc)
    obtain rfl : streams = streams' := Option.some.inj (hstreams.symm.trans hs)
    obtain rfl : _ = n := Option.some.inj (hcount.symm.trans hn)
    rw [hids] at hlen
    by_contra hother
    simp only [not_or] at hother
    unfold deviceStreamList at hlen
    rw [if_neg hother.2.2, if_neg (by simp [hother.1, hother.2.1])] at hlen
    cases hlen
  · intro hscope
    have hagrees {n : UInt32} {chans : List UInt32} (hn : config.word 0 = some n)
        (hlen : streams.ids.length = n.toNat)
        (hformats : List.Forall₂ (FormatOf k cf m) streams.ids chans)
        (hsame : config.buffers n = chans) : LayoutAgrees k cf scope q m :=
      ⟨config, streams, streams, n, chans, hconfig, hstreams, howned, hn, hlen, hlen, hformats,
        by rw [hsame]⟩
    by_cases hout : scope = k.scopeOutput
    · have hnone : deviceStreamList k scope = [] := by
        unfold deviceStreamList
        rw [if_neg]
        rintro (h | h)
        · exact hk.global (h.symm.trans hout)
        · exact hk.input (h.symm.trans hout)
      rw [hnone] at hids
      simp only [if_pos hout] at hcount hbuffers
      refine hagrees hcount ?_ ?_ hbuffers
      · rw [hids]
        rfl
      · rw [hids]
        exact .nil
    · have hone : deviceStreamList k scope = [kObjectIDStreamInput] := by
        unfold deviceStreamList
        rw [if_pos (by tauto)]
      rw [hone] at hids
      simp only [if_neg hout] at hcount hbuffers
      refine hagrees hcount ?_ ?_ hbuffers
      · rw [hids]
        rfl
      · rw [hids]
        exact .cons (formatOf_stream k cf m) .nil

theorem layout_agrees_global :
    LayoutAgrees numberedSdk Cf.utf8 numberedSdk.scopeGlobal ⟨0, none⟩ cutName :=
  (layout_agrees_iff ⟨by decide, by decide⟩ Cf.utf8 _ ⟨0, none⟩ cutName).mpr (.inl rfl)

/-- **Another scope has a buffer and no stream.** -/
theorem layout_disagrees : ¬ ∀ (k : Sdk) (cf : Cf) (scope : UInt32) (q : Qualifier)
    (m : World ℚ), k.ScopesDistinct → LayoutAgrees k cf scope q m := by
  intro h
  obtain ⟨config, streams, -, n, -, hconfig, hstreams, -, hn, hlen, -⟩ :=
    h numberedSdk Cf.utf8 4 ⟨0, none⟩ cutName ⟨by decide, by decide⟩
  obtain rfl : ⟨24, [(0, .u32 1), (8, .u32 8), (12, .u32 0), (16, .null)]⟩ = config :=
    Option.some.inj hconfig
  obtain rfl : replyNothing = streams := Option.some.inj hstreams
  obtain rfl : 1 = n := Option.some.inj hn
  exact absurd hlen (by decide)

end Line6
