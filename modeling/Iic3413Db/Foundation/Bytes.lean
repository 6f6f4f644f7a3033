/-
  Foundation/Bytes.lean --- fixed-size byte blocks, their slices, and
  little-endian integers of a given width.

  The module is about bytes only.  A `Block n` is what a pointer to `n` bytes
  denotes; `splice` is `memcpy` into it and `slice` is `memcpy` out of it.
  `Holds b off data` says that the bytes `data` lie at `off`; the three rules a
  client needs are `holds_append` (a region splits), `holds_splice_self` (what
  was just written is there) and `Holds.splice_of_disjoint` (what lies elsewhere
  is untouched).
-/
import Mathlib.Algebra.BigOperators.Fin
import Mathlib.Order.Interval.Finset.Nat
import Mathlib.Tactic

set_option autoImplicit false

namespace Iic3413Db.Foundation

/-! ## Little-endian integers -/

/-- The `k` low bytes of `v`, least significant first. -/
def leBytes : Nat → Nat → List UInt8
  | 0, _ => []
  | k + 1, v => UInt8.ofNat v :: leBytes k (v / 256)

/-- The natural number a little-endian byte list denotes. -/
def leValue : List UInt8 → Nat
  | [] => 0
  | b :: bs => b.toNat + 256 * leValue bs

@[simp] theorem leBytes_length (k v : Nat) : (leBytes k v).length = k := by
  induction k generalizing v with
  | zero => rfl
  | succ k ih => simp [leBytes, ih]

theorem leValue_leBytes (k v : Nat) : leValue (leBytes k v) = v % 256 ^ k := by
  induction k generalizing v with
  | zero => simp [leBytes, leValue, Nat.mod_one]
  | succ k ih =>
      have hmod : v % 256 ^ (k + 1) = v % 256 + 256 * (v / 256 % 256 ^ k) := by
        rw [Nat.pow_succ, Nat.mul_comm, Nat.mod_mul]
      simp [leBytes, leValue, ih, hmod]

/-- Two's complement bytes of a signed integer, least significant first. -/
def intBytes (k : Nat) (i : Int) : List UInt8 :=
  leBytes k (i % 256 ^ k).toNat

/-- The signed integer little-endian two's complement bytes denote. -/
def intValue (bs : List UInt8) : Int :=
  Int.bmod (leValue bs) (256 ^ bs.length)

@[simp] theorem intBytes_length (k : Nat) (i : Int) : (intBytes k i).length = k := by
  simp [intBytes]

/-- Storing a signed integer and loading it back wraps it to the width. -/
theorem intValue_intBytes (k : Nat) (i : Int) :
    intValue (intBytes k i) = Int.bmod i (256 ^ k) := by
  have hpos : (0 : Int) < 256 ^ k := by positivity
  have hnonneg : 0 ≤ i % 256 ^ k := Int.emod_nonneg _ (ne_of_gt hpos)
  have hlt : i % 256 ^ k < 256 ^ k := Int.emod_lt_of_pos _ hpos
  have hval : leValue (intBytes k i) = (i % 256 ^ k).toNat := by
    rw [intBytes, leValue_leBytes]
    apply Nat.mod_eq_of_lt
    zify
    rw [Int.toNat_of_nonneg hnonneg]
    exact_mod_cast hlt
  rw [intValue, hval, intBytes_length, Int.toNat_of_nonneg hnonneg]
  exact_mod_cast Int.emod_bmod i (256 ^ k)

/-- A value in the signed range survives the round trip. -/
theorem intValue_intBytes_of_range {k : Nat} {i : Int}
    (hlo : -(256 ^ k / 2 : Int) ≤ i) (hhi : i < (256 ^ k + 1) / 2) :
    intValue (intBytes k i) = i := by
  rw [intValue_intBytes]
  apply Int.bmod_eq_of_le
  · simpa using hlo
  · simpa using hhi

/-! ## 32-bit arithmetic -/

/-- The value of an `int32_t` that was assigned `i`. -/
def int32 (i : Int) : Int := Int.bmod i (2 ^ 32)

theorem int32_of_range {i : Int} (hlo : -2 ^ 31 ≤ i) (hhi : i < 2 ^ 31) : int32 i = i := by
  apply Int.bmod_eq_of_le <;> omega

/-! ## Blocks -/

/-- `n` bytes of memory. -/
abbrev Block (n : Nat) : Type := Fin n → UInt8

namespace Block

variable {n : Nat}

/-- The byte at index `i`; indices past the end read as `0`, and no client reads
one. -/
def byteAt (b : Block n) (i : Nat) : UInt8 :=
  if h : i < n then b ⟨i, h⟩ else 0

/-- Copy `data` into the block at `off`. -/
def splice (b : Block n) (off : Nat) (data : List UInt8) : Block n := fun i =>
  if off ≤ i.val ∧ i.val < off + data.length then data.getD (i.val - off) 0 else b i

/-- Copy `len` bytes out of the block from `off`. -/
def slice (b : Block n) (off len : Nat) : List UInt8 :=
  (List.range len).map fun k => b.byteAt (off + k)

theorem ext_byteAt {b c : Block n} (h : ∀ i < n, b.byteAt i = c.byteAt i) : b = c := by
  funext i
  have hi := h i.val i.isLt
  simpa [byteAt, i.isLt] using hi

@[simp] theorem slice_length (b : Block n) (off len : Nat) :
    (b.slice off len).length = len := by
  simp [slice]

@[simp] theorem slice_zero (b : Block n) (off : Nat) : b.slice off 0 = [] := rfl

theorem slice_append (b : Block n) (off k l : Nat) :
    b.slice off (k + l) = b.slice off k ++ b.slice (off + k) l := by
  simp [slice, List.range_add, Nat.add_assoc]

theorem slice_congr {b c : Block n} {off len : Nat}
    (h : ∀ i, off ≤ i → i < off + len → b.byteAt i = c.byteAt i) :
    b.slice off len = c.slice off len := by
  simp only [slice]
  apply List.map_congr_left
  intro k hk
  have hk' : k < len := List.mem_range.mp hk
  exact h _ (by omega) (by omega)

theorem byteAt_splice (b : Block n) (off : Nat) (data : List UInt8) (i : Nat) :
    (b.splice off data).byteAt i =
      if i < n ∧ off ≤ i ∧ i < off + data.length then data.getD (i - off) 0
      else b.byteAt i := by
  unfold byteAt splice
  by_cases hi : i < n <;> simp [hi]

/-- Bytes outside the written range keep their value. -/
theorem byteAt_splice_of_outside {b : Block n} {off i : Nat} {data : List UInt8}
    (h : i < off ∨ off + data.length ≤ i) :
    (b.splice off data).byteAt i = b.byteAt i := by
  rw [byteAt_splice, if_neg]
  omega

theorem slice_splice_of_disjoint {b : Block n} {off off' len : Nat} {data : List UInt8}
    (h : off' + len ≤ off ∨ off + data.length ≤ off') :
    (b.splice off data).slice off' len = b.slice off' len := by
  apply slice_congr
  intro i hlo hhi
  apply byteAt_splice_of_outside
  omega

theorem slice_splice_self {b : Block n} {off : Nat} {data : List UInt8}
    (h : off + data.length ≤ n) :
    (b.splice off data).slice off data.length = data := by
  apply List.ext_getElem
  · simp
  · intro k hk hk'
    have hlt : k < data.length := hk'
    simp only [slice, List.getElem_map, List.getElem_range, byteAt_splice]
    rw [if_pos ⟨by omega, by omega, by omega⟩]
    simp [hlt]

theorem splice_nil (b : Block n) (off : Nat) : b.splice off [] = b := by
  apply ext_byteAt
  intro i _
  exact byteAt_splice_of_outside (by simp only [List.length_nil]; omega)

/-- Two adjacent copies are one. -/
theorem splice_append (b : Block n) (off : Nat) (d e : List UInt8) :
    (b.splice off d).splice (off + d.length) e = b.splice off (d ++ e) := by
  apply ext_byteAt
  intro i hi
  simp only [byteAt_splice, List.length_append]
  rcases Nat.lt_or_ge i (off + d.length) with hlt | hge
  · rw [if_neg (by omega)]
    split
    · rw [if_pos (by omega), List.getD_eq_getElem?_getD, List.getD_eq_getElem?_getD,
        List.getElem?_append_left (by omega)]
    · rw [if_neg (by omega)]
  · split
    · rw [if_pos (by omega), List.getD_eq_getElem?_getD, List.getD_eq_getElem?_getD,
        List.getElem?_append_right (by omega), Nat.sub_sub]
    · rw [if_neg (by omega), if_neg (by omega)]

/-- Copying a whole block over another gives the block. -/
theorem splice_slice_all (b c : Block n) : b.splice 0 (c.slice 0 n) = c := by
  apply ext_byteAt
  intro i hi
  rw [byteAt_splice, if_pos ⟨hi, by omega, by simpa using hi⟩]
  simp [slice, hi]

/-! ## Regions -/

/-- The bytes `data` lie in the block from `off` on. -/
def Holds (b : Block n) (off : Nat) (data : List UInt8) : Prop :=
  b.slice off data.length = data

theorem holds_append {b : Block n} {off : Nat} {d e : List UInt8} :
    b.Holds off (d ++ e) ↔ b.Holds off d ∧ b.Holds (off + d.length) e := by
  unfold Holds
  rw [List.length_append, slice_append]
  constructor
  · intro h
    exact List.append_inj h (by simp)
  · rintro ⟨hd, he⟩
    rw [hd, he]

theorem holds_splice_self {b : Block n} {off : Nat} {data : List UInt8}
    (h : off + data.length ≤ n) : (b.splice off data).Holds off data :=
  slice_splice_self h

/-- Writing elsewhere keeps a region. -/
theorem Holds.splice_of_disjoint {b : Block n} {off off' : Nat} {d e : List UInt8}
    (h : b.Holds off d) (hdis : off + d.length ≤ off' ∨ off' + e.length ≤ off) :
    (b.splice off' e).Holds off d := by
  unfold Holds at h ⊢
  rw [slice_splice_of_disjoint hdis]
  exact h

/-- A region only depends on the bytes it covers. -/
theorem Holds.congr {m : Nat} {b : Block n} {c : Block m} {off off' : Nat} {d : List UInt8}
    (h : b.Holds off d)
    (heq : ∀ k < d.length, c.byteAt (off' + k) = b.byteAt (off + k)) :
    c.Holds off' d := by
  unfold Holds at h ⊢
  rw [← h]
  simp only [slice, List.length_map, List.length_range]
  apply List.map_congr_left
  intro k hk
  exact heq k (List.mem_range.mp hk)

end Block

/-! ## Packing -/

/-- Ranges inside `[lo, hi)` that share no point have no more points together
than `[lo, hi)`.  Empty ranges may lie anywhere. -/
theorem sum_length_le {ι : Type} [Fintype ι] [DecidableEq ι] (lo hi : Nat) (start len : ι → Nat)
    (hin : ∀ i, 0 < len i → lo ≤ start i ∧ start i + len i ≤ hi)
    (hdis : ∀ i j, i ≠ j → 0 < len i → 0 < len j →
      start i + len i ≤ start j ∨ start j + len j ≤ start i) :
    ∑ i, len i ≤ hi - lo := by
  have hdisjoint : ((Finset.univ : Finset ι) : Set ι).PairwiseDisjoint
      fun i => Finset.Ico (start i) (start i + len i) := by
    intro i _ j _ hne
    refine Finset.disjoint_left.mpr ?_
    intro x hx hx'
    rw [Finset.mem_Ico] at hx hx'
    have h := hdis i j hne (by omega) (by omega)
    omega
  have hsub : Finset.univ.biUnion (fun i => Finset.Ico (start i) (start i + len i)) ⊆
      Finset.Ico lo hi := by
    intro x hx
    obtain ⟨i, _, hx'⟩ := Finset.mem_biUnion.mp hx
    rw [Finset.mem_Ico] at hx' ⊢
    have h := hin i (by omega)
    omega
  calc ∑ i, len i = ∑ i, (Finset.Ico (start i) (start i + len i)).card := by simp
    _ = (Finset.univ.biUnion fun i => Finset.Ico (start i) (start i + len i)).card :=
        (Finset.card_biUnion hdisjoint).symm
    _ ≤ (Finset.Ico lo hi).card := Finset.card_le_card hsub
    _ = hi - lo := by simp

end Iic3413Db.Foundation
