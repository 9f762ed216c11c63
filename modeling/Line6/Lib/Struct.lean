import Mathlib.Algebra.Order.Ring.Nat
import Mathlib.Data.List.GetD
import Mathlib.Tactic.Linarith
import Mathlib.Tactic.Ring

/-!
# Structures in memory

The layout of a C structure (`offsets`, `sizeof`), and reading and writing its fields in a memory
of bytes. Every field starts at the next offset its alignment allows.

* `aligned`, `end_le_offset`, `end_le_sizeof`: fields are aligned, follow one another, and lie in
  the structure.
* `slice_splice_self`, `slice_splice_field`: a store to a field is read back from it, and leaves
  the other fields.
* `leNat_leBytes`: little-endian numbers.
-/

namespace Struct

/-! ## Layout -/

/-- An object type: its size is a multiple of its alignment. -/
structure Ty where
  size : Nat
  align : Nat
  pos : 0 < align
  dvd : align ∣ size

/-- A number of `n` bytes. -/
def Ty.word (n : Nat) (h : 0 < n) : Ty := ⟨n, n, h, dvd_rfl⟩

/-- `t[n]`. -/
def Ty.array (t : Ty) (n : Nat) : Ty := ⟨n * t.size, t.align, t.pos, t.dvd.mul_left n⟩

/-- The next multiple of `a` from `o` on. -/
def alignUp (a o : Nat) : Nat := (o + (a - 1)) / a * a

/-- Where the fields start, the first one not before `o`. -/
def offsets : Nat → List Ty → List Nat
  | _, [] => []
  | o, t :: ts => alignUp t.align o :: offsets (alignUp t.align o + t.size) ts

/-- Where the last field ends. -/
def extent : Nat → List Ty → Nat
  | o, [] => o
  | o, t :: ts => extent (alignUp t.align o + t.size) ts

/-- `sizeof`. -/
def sizeof (ts : List Ty) : Nat := alignUp (ts.foldr (fun t a => max t.align a) 1) (extent 0 ts)

theorem dvd_alignUp (a o : Nat) : a ∣ alignUp a o := Dvd.intro_left _ rfl

theorem le_alignUp {a : Nat} (ha : 0 < a) (o : Nat) : o ≤ alignUp a o := by
  have h := Nat.div_add_mod' (o + (a - 1)) a
  have hmod := Nat.mod_lt (o + (a - 1)) ha
  unfold alignUp
  omega

theorem le_extent (o : Nat) (ts : List Ty) : o ≤ extent o ts := by
  induction ts generalizing o with
  | nil => exact Nat.le_refl o
  | cons t ts ih => exact (le_alignUp t.pos o).trans ((Nat.le_add_right _ _).trans (ih _))

variable {o i j oi oj : Nat} {ts : List Ty} {ti tj : Ty}

/-- Every field is aligned, and not before the start. -/
theorem aligned (hoff : (offsets o ts)[i]? = some oi) (hty : ts[i]? = some ti) :
    ti.align ∣ oi ∧ o ≤ oi := by
  induction ts generalizing o i with
  | nil => cases hty
  | cons t ts ih =>
    cases i with
    | zero =>
      cases hoff
      cases hty
      exact ⟨dvd_alignUp _ _, le_alignUp ti.pos o⟩
    | succ i =>
      obtain ⟨hdvd, hle⟩ := ih hoff hty
      exact ⟨hdvd, (le_alignUp t.pos o).trans ((Nat.le_add_right _ _).trans hle)⟩

/-- **Fields follow one another.** -/
theorem end_le_offset (hoff : (offsets o ts)[i]? = some oi) (hty : ts[i]? = some ti)
    (hoffj : (offsets o ts)[j]? = some oj) (htyj : ts[j]? = some tj) (hlt : i < j) :
    oi + ti.size ≤ oj := by
  induction ts generalizing o i j with
  | nil => cases hty
  | cons t ts ih =>
    obtain ⟨j, rfl⟩ : ∃ k, j = k + 1 := ⟨j - 1, by omega⟩
    cases i with
    | zero =>
      cases hoff
      cases hty
      have hrest : (offsets (alignUp ti.align o + ti.size) ts)[j]? = some oj := hoffj
      exact (aligned hrest htyj).2
    | succ i => exact ih hoff hty hoffj htyj (Nat.lt_of_succ_lt_succ hlt)

/-- **Fields lie in the structure.** -/
theorem end_le_extent (hoff : (offsets o ts)[i]? = some oi) (hty : ts[i]? = some ti) :
    oi + ti.size ≤ extent o ts := by
  induction ts generalizing o i with
  | nil => cases hty
  | cons t ts ih =>
    cases i with
    | zero =>
      cases hoff
      cases hty
      exact le_extent _ ts
    | succ i => exact ih hoff hty

theorem end_le_sizeof (hoff : (offsets 0 ts)[i]? = some oi) (hty : ts[i]? = some ti) :
    oi + ti.size ≤ sizeof ts := by
  have hpos : 0 < ts.foldr (fun t a => max t.align a) 1 := by
    induction ts with
    | nil => exact Nat.one_pos
    | cons t ts _ => exact lt_max_of_lt_left t.pos
  exact (end_le_extent hoff hty).trans (le_alignUp hpos _)

/-! ## Bytes -/

/-- A memory. -/
abbrev Mem := Nat → UInt8

/-- The `n` bytes at `o`. -/
def slice (m : Mem) (o n : Nat) : List UInt8 := (List.range n).map fun i => m (o + i)

/-- Store `bs` at `o`. -/
def splice (m : Mem) (o : Nat) (bs : List UInt8) : Mem := fun a =>
  if o ≤ a ∧ a < o + bs.length then bs.getD (a - o) 0 else m a

theorem slice_length (m : Mem) (o n : Nat) : (slice m o n).length = n := by
  unfold slice
  rw [List.length_map, List.length_range]

theorem slice_getElem {m : Mem} {o n i : Nat} (hi : i < (slice m o n).length) :
    (slice m o n)[i] = m (o + i) := by
  simp [slice]

theorem slice_getD {m : Mem} {o n i : Nat} (hi : i < n) (b : UInt8) :
    (slice m o n).getD i b = m (o + i) := by
  have hi' : i < (slice m o n).length := by rwa [slice_length]
  rw [List.getD_eq_getElem _ _ hi', slice_getElem hi']

/-- A store leaves the bytes outside. -/
theorem splice_of_out {m : Mem} {o a : Nat} {bs : List UInt8} (h : a < o ∨ o + bs.length ≤ a) :
    splice m o bs a = m a := by
  unfold splice
  exact if_neg (by omega)

/-- **A store is read back.** -/
theorem slice_splice_self (m : Mem) (o : Nat) (bs : List UInt8) :
    slice (splice m o bs) o bs.length = bs := by
  refine List.ext_getElem (slice_length _ _ _) fun i hi hi' => ?_
  rw [slice_getElem]
  unfold splice
  rw [if_pos (by omega), Nat.add_sub_cancel_left, List.getD_eq_getElem _ _ hi']

/-- **Bytes elsewhere stay.** -/
theorem slice_splice_of_disjoint {m : Mem} {o o' n : Nat} {bs : List UInt8}
    (h : o' + n ≤ o ∨ o + bs.length ≤ o') : slice (splice m o bs) o' n = slice m o' n := by
  unfold slice
  refine List.map_congr_left fun i hi => ?_
  have hi := List.mem_range.mp hi
  exact splice_of_out (by omega)

/-- **A store to one field leaves the others**, and every part of them. -/
theorem slice_splice_field {m : Mem} {bs : List UInt8} {p p' n : Nat}
    (hoff : (offsets o ts)[i]? = some oi) (hty : ts[i]? = some ti)
    (hoffj : (offsets o ts)[j]? = some oj) (htyj : ts[j]? = some tj) (hne : i ≠ j)
    (hp : p + bs.length ≤ ti.size) (hp' : p' + n ≤ tj.size) :
    slice (splice m (oi + p) bs) (oj + p') n = slice m (oj + p') n := by
  refine slice_splice_of_disjoint ?_
  rcases Nat.lt_or_gt_of_ne hne with hlt | hlt
  · have h := end_le_offset hoff hty hoffj htyj hlt
    omega
  · have h := end_le_offset hoffj htyj hoff hty hlt
    omega

/-! ## Little-endian numbers -/

/-- The `n` low bytes of `v`, the lowest first. -/
def leBytes : Nat → Nat → List UInt8
  | 0, _ => []
  | n + 1, v => UInt8.ofNat v :: leBytes n (v / 256)

/-- The number of some bytes. -/
def leNat : List UInt8 → Nat
  | [] => 0
  | b :: bs => b.toNat + 256 * leNat bs

theorem leBytes_length (n v : Nat) : (leBytes n v).length = n := by
  induction n generalizing v with
  | zero => rfl
  | succ n ih => exact congrArg Nat.succ (ih _)

theorem leNat_leBytes (n v : Nat) : leNat (leBytes n v) = v % 256 ^ n := by
  induction n generalizing v with
  | zero => exact (Nat.mod_one v).symm
  | succ n ih =>
    have hsplit : v % (256 * 256 ^ n) = v % 256 + 256 * (v / 256 % 256 ^ n) := Nat.mod_mul
    show (UInt8.ofNat v).toNat + 256 * leNat (leBytes n (v / 256)) = _
    rw [ih, UInt8.toNat_ofNat', pow_succ' 256 n, hsplit]

end Struct
