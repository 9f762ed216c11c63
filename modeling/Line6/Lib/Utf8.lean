import Mathlib.Data.List.Basic

/-!
# The bytes of a string

`bytes s` is the UTF-8 encoding of `s` as a list. A string without NUL has no byte 0
(`zero_notMem_bytes`), ASCII strings have ASCII bytes and ASCII bytes are UTF-8 (`lt_of_mem_bytes`,
`validateUTF8_ascii`), and the first `n` bytes of a string are the bytes of a string again exactly
if it is not longer or `n` is the position of a character (`take_bytes_iff`).
-/

namespace Utf8

/-- The UTF-8 encoding of `s`. -/
def bytes (s : String) : List UInt8 := s.toUTF8.data.toList

theorem length_bytes (s : String) : (bytes s).length = s.utf8ByteSize := rfl

theorem bytes_append (s t : String) : bytes (s ++ t) = bytes s ++ bytes t := by
  unfold bytes
  simp

theorem bytes_inj {s t : String} (h : bytes s = bytes t) : s = t := by
  have hdata : s.toUTF8.data = t.toUTF8.data := Array.toList_inj.mp h
  exact String.toByteArray_inj.mp (ByteArray.ext hdata)

theorem bytes_eq_nil_iff {s : String} : bytes s = [] ↔ s = "" := by
  constructor
  · exact fun h => bytes_inj (h.trans rfl)
  · rintro rfl
    rfl

theorem bytes_eq_flatMap (s : String) : bytes s = s.toList.flatMap String.utf8EncodeChar := by
  obtain ⟨l, rfl⟩ := s.exists_eq_ofList
  unfold bytes
  simp [List.utf8Encode]

/-- The only character with a byte 0 is NUL. -/
theorem zero_mem_utf8EncodeChar {c : Char} (h : 0 ∈ String.utf8EncodeChar c) : c.toNat = 0 := by
  change c.val.toNat = 0
  unfold String.utf8EncodeChar at h
  dsimp only at h
  -- every byte of a longer encoding has its top bit set
  split_ifs at h <;>
    simp only [List.mem_cons, List.not_mem_nil, or_false, ← UInt8.toNat_inj, UInt8.toNat_ofNat',
      UInt8.toNat_zero] at h <;> omega

theorem zero_notMem_bytes {s : String} (h : Char.ofNat 0 ∉ s.toList) : 0 ∉ bytes s := by
  rw [bytes_eq_flatMap]
  intro hzero
  obtain ⟨c, hc, hbyte⟩ := List.mem_flatMap.mp hzero
  have hnul : c = Char.ofNat 0 := by
    rw [← Char.ofNat_toNat c, zero_mem_utf8EncodeChar hbyte]
  exact h (hnul ▸ hc)

theorem validateUTF8_bytes (s : String) : ByteArray.validateUTF8 ⟨(bytes s).toArray⟩ = true :=
  ByteArray.validateUTF8_eq_true_iff.mpr s.isValidUTF8

/-! ## ASCII -/

/-- A character below 128 is its one byte. -/
theorem utf8EncodeChar_ascii {c : Char} (h : c.toNat < 128) :
    String.utf8EncodeChar c = [c.toNat.toUInt8] := by
  have hsize : c.utf8Size = 1 := by
    rw [Char.utf8Size_eq_one_iff, UInt32.le_iff_toNat_le]
    exact Nat.le_of_lt_succ h
  exact String.utf8EncodeChar_eq_singleton hsize

/-- The bytes of an ASCII string are ASCII. -/
theorem lt_of_mem_bytes {s : String} (h : ∀ c ∈ s.toList, c.toNat < 128) :
    ∀ b ∈ bytes s, b.toNat < 128 := by
  rw [bytes_eq_flatMap]
  intro b hb
  obtain ⟨c, hc, hbyte⟩ := List.mem_flatMap.mp hb
  rw [utf8EncodeChar_ascii (h c hc), List.mem_singleton] at hbyte
  have hlt := h c hc
  rw [hbyte, Nat.toUInt8_eq, UInt8.toNat_ofNat', Nat.mod_eq_of_lt (by omega)]
  exact hlt

/-- ASCII bytes are UTF-8. -/
theorem validateUTF8_ascii {l : List UInt8} (h : ∀ b ∈ l, b.toNat < 128) :
    ByteArray.validateUTF8 ⟨l.toArray⟩ = true := by
  have hbytes : l = bytes (String.ofList (l.map Char.ofUInt8)) := by
    rw [bytes_eq_flatMap, String.toList_ofList]
    induction l with
    | nil => rfl
    | cons b l ih =>
      have hb : b.toNat < 128 := h b List.mem_cons_self
      have hchar : (Char.ofUInt8 b).toNat = b.toNat := rfl
      rw [List.map_cons, List.flatMap_cons, ← ih fun b hb => h b (List.mem_cons_of_mem _ hb),
        utf8EncodeChar_ascii (hchar.symm ▸ hb), hchar, Nat.toUInt8_eq, UInt8.ofNat_toNat]
      rfl
  rw [hbytes]
  exact validateUTF8_bytes _

/-! ## Cutting -/

/-- **Cutting a string after `n` bytes** leaves the bytes of a string exactly if nothing is cut or
`n` is the position of a character. -/
theorem take_bytes_iff (s : String) (n : Nat) :
    (∃ p, bytes p = (bytes s).take n ∧ p.toList <+: s.toList) ↔
      s.utf8ByteSize ≤ n ∨ (⟨n⟩ : String.Pos.Raw).IsValid s := by
  constructor
  · rintro ⟨p, hp, t, ht⟩
    rcases Nat.lt_or_ge n s.utf8ByteSize with hlt | hge
    · right
      rw [String.Pos.Raw.isValid_iff_exists_append]
      refine ⟨p, String.ofList t, ?_, ?_⟩
      · rw [← String.toList_inj, String.toList_append, String.toList_ofList, ht]
      · have hlen := congrArg List.length hp
        rw [List.length_take, length_bytes, length_bytes] at hlen
        apply String.Pos.Raw.ext
        show n = p.utf8ByteSize
        omega
    · exact .inl hge
  · rintro (hge | hvalid)
    · refine ⟨s, ?_, List.prefix_refl _⟩
      rw [List.take_of_length_le (by rwa [length_bytes])]
    · obtain ⟨p, t, rfl, hn⟩ := String.Pos.Raw.isValid_iff_exists_append.mp hvalid
      have hlen : n = (bytes p).length := congrArg String.Pos.Raw.byteIdx hn
      refine ⟨p, ?_, ?_⟩
      · rw [bytes_append, hlen, List.take_left]
      · rw [String.toList_append]
        exact List.prefix_append _ _

end Utf8
