/-
  Storage/HeapFile/SlottedPage.lean --- a heap page as a list of slots.

  `SlottedPage` is the abstract page: a list of slots, each dead or holding a
  tuple at an offset, and the number of free bytes between the directory and the
  lowest tuple.  The layout invariant is part of the type.  `Represents` relates
  it to the 4096 bytes; the reading functions of the page are computed from it
  here, the writing functions in the modules that follow.
-/
import Iic3413Db.Storage.HeapFile.HeapFilePage

set_option autoImplicit false

namespace Iic3413Db.Storage

open Iic3413Db.Foundation Iic3413Db.RelationalModel

/-! ## Bytes of a tuple -/

/-- The ids are 64 bits wide and the RIDs twice 32. -/
structure RecordHeader.Fits (h : RecordHeader) : Prop where
  tMin : h.tMin < 2 ^ 64
  tMax : h.tMax < 2 ^ 64
  next : h.next.Fits
  first : h.first.Fits

/-- The eight bytes of a RID. -/
def ridBytes (rid : RID) : List UInt8 := intBytes 4 rid.pageNum ++ intBytes 4 rid.dirSlot

/-- The 32 bytes of a tuple header. -/
def headerBytes (h : RecordHeader) : List UInt8 :=
  intBytes 8 h.tMin ++ (intBytes 8 h.tMax ++ (ridBytes h.next ++ ridBytes h.first))

/-- The bytes a value is stored in. -/
def valueBytes : Value → List UInt8
  | .string s => leBytes 1 s.length ++ s
  | .int i => intBytes 8 i
  | .rid _ => []

/-- The bytes after the tuple header. -/
def payloadBytes (values : List Value) : List UInt8 := values.flatMap valueBytes

@[simp] theorem ridBytes_length (rid : RID) : (ridBytes rid).length = 8 := by
  simp [ridBytes]

@[simp] theorem headerBytes_length (h : RecordHeader) : (headerBytes h).length = 32 := by
  simp [headerBytes]

@[simp] theorem payloadBytes_length (values : List Value) :
    (payloadBytes values).length = (values.map HeapFilePage.valueSize).sum := by
  induction values with
  | nil => rfl
  | cons value values ih =>
      have hvalue : (valueBytes value).length = HeapFilePage.valueSize value := by
        cases value <;> simp [valueBytes, HeapFilePage.valueSize, Nat.add_comm]
      simp only [payloadBytes] at ih
      simp [payloadBytes, hvalue, ih]

/-- The RIDs of a record take no bytes. -/
theorem payloadBytes_stored (record : Record) :
    payloadBytes record.stored = payloadBytes record.values := by
  obtain ⟨values⟩ := record
  unfold Record.stored payloadBytes
  induction values with
  | nil => rfl
  | cons value values ih =>
      cases value <;> simpa [Value.isRid, valueBytes] using ih

/-- A tuple on a page. -/
structure Tuple where
  offset : Nat
  header : RecordHeader
  values : List Value

namespace Tuple

def bytes (t : Tuple) : List UInt8 := headerBytes t.header ++ payloadBytes t.values

/-- Header and payload. -/
def size (t : Tuple) : Nat := 32 + (t.values.map HeapFilePage.valueSize).sum

@[simp] theorem bytes_length (t : Tuple) : t.bytes.length = t.size := by
  simp [bytes, size]

/-- The tuple can be read back under the schema. -/
structure Fits (schema : Schema) (t : Tuple) : Prop where
  header : t.header.Fits
  values : Matches schema.columns t.values

end Tuple

/-! ## The abstract page -/

/-- A heap page.  The live tuples lie between the free space and the end of the
page, and no two of them share a byte. -/
structure SlottedPage (schema : Schema) where
  slots : List (Option Tuple)
  freeSpace : Nat
  floor_le : 8 + 4 * slots.length + freeSpace ≤ 4096
  inside : ∀ (i : Nat) (t : Tuple), slots[i]? = some (some t) →
    8 + 4 * slots.length + freeSpace ≤ t.offset ∧ t.offset + t.size ≤ 4096
  disjoint : ∀ (i j : Nat) (t u : Tuple), slots[i]? = some (some t) → slots[j]? = some (some u) →
    i ≠ j → t.offset + t.size ≤ u.offset ∨ u.offset + u.size ≤ t.offset
  fits : ∀ (i : Nat) (t : Tuple), slots[i]? = some (some t) → t.Fits schema

/-- What a slot means to a reader: dead, or a header and values. -/
abbrev Contents : Type := List (Option (RecordHeader × List Value))

namespace SlottedPage

variable {schema : Schema}

/-- Where the directory and the free space end. -/
def floor (sp : SlottedPage schema) : Nat := 8 + 4 * sp.slots.length + sp.freeSpace

def contents (sp : SlottedPage schema) : Contents :=
  sp.slots.map (Option.map fun t => (t.header, t.values))

@[simp] theorem contents_length (sp : SlottedPage schema) :
    sp.contents.length = sp.slots.length := by
  simp [contents]

theorem contents_live {sp : SlottedPage schema} {i : Nat} {h : RecordHeader} {vs : List Value}
    (hi : sp.contents[i]? = some (some (h, vs))) :
    ∃ t, sp.slots[i]? = some (some t) ∧ t.header = h ∧ t.values = vs := by
  simp only [contents, List.getElem?_map, Option.map_eq_some_iff] at hi
  obtain ⟨slot, hslot, t, rfl, heq⟩ := hi
  cases heq
  exact ⟨t, hslot, rfl, rfl⟩

theorem contents_dead {sp : SlottedPage schema} {i : Nat}
    (hi : sp.contents[i]? = some none) : sp.slots[i]? = some none := by
  simp only [contents, List.getElem?_map, Option.map_eq_some_iff] at hi
  obtain ⟨slot, hslot, hnone⟩ := hi
  rw [hslot, Option.map_eq_none_iff.mp hnone]

/-- Kill a slot, or change its tuple in place. -/
def replace (sp : SlottedPage schema) (i : Nat) (slot : Option Tuple)
    (hslot : ∀ t', slot = some t' → t'.Fits schema ∧
      ∃ t, sp.slots[i]? = some (some t) ∧ t'.offset = t.offset ∧ t'.size = t.size) :
    SlottedPage schema :=
  -- every live slot was live before, in the same place
  have hback : ∀ (j : Nat) (u : Tuple), (sp.slots.set i slot)[j]? = some (some u) →
      u.Fits schema ∧
        ∃ t, sp.slots[j]? = some (some t) ∧ u.offset = t.offset ∧ u.size = t.size := by
    intro j u hu
    rw [List.getElem?_set] at hu
    split at hu
    · rename_i hij
      subst hij
      split at hu
      · exact hslot u (Option.some.inj hu)
      · cases hu
    · exact ⟨sp.fits j u hu, u, hu, rfl, rfl⟩
  { slots := sp.slots.set i slot
    freeSpace := sp.freeSpace
    floor_le := by rw [List.length_set]; exact sp.floor_le
    inside := by
      intro j u hu
      obtain ⟨_, t, ht, hoff, hsize⟩ := hback j u hu
      rw [List.length_set, hoff, hsize]
      exact sp.inside j t ht
    disjoint := by
      intro j k u v hu hv hne
      obtain ⟨_, t, ht, hoff, hsize⟩ := hback j u hu
      obtain ⟨_, t', ht', hoff', hsize'⟩ := hback k v hv
      rw [hoff, hsize, hoff', hsize']
      exact sp.disjoint j k t t' ht ht' hne
    fits := fun j u hu => (hback j u hu).1 }

/-- Add a tuple right below the lowest one.  `slots` is the directory with the
tuple in slot `k`. -/
def insert (sp : SlottedPage schema) (slots : List (Option Tuple)) (freeSpace k : Nat) (t : Tuple)
    (hfits : t.Fits schema) (hoff : t.offset = 8 + 4 * slots.length + freeSpace)
    (hsize : t.offset + t.size = sp.floor)
    (hslots : ∀ (i : Nat) (u : Tuple), slots[i]? = some (some u) →
      i = k ∧ u = t ∨ i ≠ k ∧ sp.slots[i]? = some (some u)) :
    SlottedPage schema where
  slots := slots
  freeSpace := freeSpace
  floor_le := by
    have hle := sp.floor_le
    unfold floor at hsize
    omega
  inside := by
    intro i u hu
    have hle := sp.floor_le
    unfold floor at hsize
    rcases hslots i u hu with ⟨_, rfl⟩ | ⟨_, hold⟩
    · omega
    · have hin := sp.inside i u hold
      omega
  disjoint := by
    intro i j u v hu hv hne
    unfold floor at hsize
    rcases hslots i u hu with ⟨rfl, rfl⟩ | ⟨_, hold⟩ <;>
      rcases hslots j v hv with ⟨rfl, rfl⟩ | ⟨_, hold'⟩
    · exact absurd rfl hne
    · have hin := sp.inside j v hold'
      omega
    · have hin := sp.inside i u hold
      omega
    · exact sp.disjoint i j u v hold hold' hne
  fits := by
    intro i u hu
    rcases hslots i u hu with ⟨_, rfl⟩ | ⟨_, hold⟩
    · exact hfits
    · exact sp.fits i u hold

end SlottedPage

/-! ## Representation -/

/-- The bytes of slot `i`. -/
def SlotLaid (b : PageBytes) (i : Nat) : Option Tuple → Prop
  | some t => b.Holds (8 + 4 * i) (intBytes 4 t.offset) ∧ b.Holds t.offset t.bytes
  | none => ∃ d : Int, (-2 ^ 31 ≤ d ∧ d < 0) ∧ b.Holds (8 + 4 * i) (intBytes 4 d)

/-- Writing clear of a slot's directory entry and of its tuple keeps it. -/
theorem SlotLaid.splice {b : PageBytes} {i off : Nat} {slot : Option Tuple} {d : List UInt8}
    (h : SlotLaid b i slot)
    (hdir : 8 + 4 * i + 4 ≤ off ∨ off + d.length ≤ 8 + 4 * i)
    (htuple : ∀ t, slot = some t → t.offset + t.size ≤ off ∨ off + d.length ≤ t.offset) :
    SlotLaid (b.splice off d) i slot := by
  cases slot with
  | none =>
      obtain ⟨e, he, hholds⟩ := h
      exact ⟨e, he, hholds.splice_of_disjoint (by simpa using hdir)⟩
  | some t =>
      obtain ⟨hentry, hbytes⟩ := h
      exact ⟨hentry.splice_of_disjoint (by simpa using hdir),
        hbytes.splice_of_disjoint (by simpa using htuple t rfl)⟩

/-- The page's bytes lay out the abstract page. -/
structure Represents {schema : Schema} (sp : SlottedPage schema) (p : Page) : Prop where
  count : p.bytes.Holds 0 (intBytes 4 sp.slots.length)
  free : p.bytes.Holds 4 (intBytes 4 sp.freeSpace)
  slot : ∀ (i : Nat) (slot : Option Tuple), sp.slots[i]? = some slot → SlotLaid p.bytes i slot

/-! ## Integers on a page -/

theorem readInt32_of_holds {p : Page} {a : Nat} {o v : Int} (ho : o = a)
    (h : p.bytes.Holds a (intBytes 4 v)) (hin : a + 4 ≤ 4096)
    (hv : -2 ^ 31 ≤ v ∧ v < 2 ^ 31) : p.readInt32 o = .ok v := by
  have hb : Page.InBounds o 4 := ⟨by omega, by simp only [Page.size]; omega⟩
  have hslice : p.bytes.slice o.toNat 4 = intBytes 4 v := by
    rw [ho]
    simpa [Block.Holds] using h
  rw [Page.readInt32, Page.read_eq_ok hb, hslice]
  exact congrArg Except.ok (intValue_intBytes_of_range (by omega) (by omega))

/-- A transaction id stored as an `int64_t` comes back as itself. -/
theorem readInt64_of_holds {p : Page} {a : Nat} {o : Int} {v : TxID} (ho : o = a)
    (h : p.bytes.Holds a (intBytes 8 v)) (hin : a + 8 ≤ 4096) (hv : v < 2 ^ 64) :
    ∃ i, p.readInt64 o = .ok i ∧ uint64 i = v := by
  have hb : Page.InBounds o 8 := ⟨by omega, by simp only [Page.size]; omega⟩
  have hslice : p.bytes.slice o.toNat 8 = intBytes 8 v := by
    rw [ho]
    simpa [Block.Holds] using h
  refine ⟨_, by rw [Page.readInt64, Page.read_eq_ok hb, hslice]; rfl, ?_⟩
  have hpow : (2 : Int) ^ 64 = ((256 ^ 8 : Nat) : Int) := by norm_num
  rw [intValue_intBytes, uint64, hpow]
  have hmod : (Int.bmod (v : Int) ((256 : Nat) ^ 8 : Nat)) % ((256 ^ 8 : Nat) : Int) = v := by
    rw [Int.bmod_emod]
    exact Int.emod_eq_of_lt (by omega) (by norm_num; omega)
  simpa using congrArg Int.toNat hmod

theorem readInt64_of_range {p : Page} {a : Nat} {o v : Int} (ho : o = a)
    (h : p.bytes.Holds a (intBytes 8 v)) (hin : a + 8 ≤ 4096)
    (hv : -2 ^ 63 ≤ v ∧ v < 2 ^ 63) : p.readInt64 o = .ok v := by
  have hb : Page.InBounds o 8 := ⟨by omega, by simp only [Page.size]; omega⟩
  have hslice : p.bytes.slice o.toNat 8 = intBytes 8 v := by
    rw [ho]
    simpa [Block.Holds] using h
  rw [Page.readInt64, Page.read_eq_ok hb, hslice]
  exact congrArg Except.ok (intValue_intBytes_of_range (by omega) (by omega))

theorem readUint8_of_holds {p : Page} {a n : Nat} {o : Int} (ho : o = a)
    (h : p.bytes.Holds a (leBytes 1 n)) (hin : a + 1 ≤ 4096) (hn : n < 256) :
    p.readUint8 o = .ok n := by
  have hb : Page.InBounds o 1 := ⟨by omega, by simp only [Page.size]; omega⟩
  have hslice : p.bytes.slice o.toNat 1 = leBytes 1 n := by
    rw [ho]
    simpa [Block.Holds] using h
  rw [Page.readUint8, Page.read_eq_ok hb, hslice]
  refine congrArg Except.ok ?_
  rw [leValue_leBytes]
  omega

theorem read_of_holds {p : Page} {a : Nat} {o : Int} {s : List UInt8} (ho : o = a)
    (h : p.bytes.Holds a s) (hin : a + s.length ≤ 4096) : p.read o s.length = .ok s := by
  have hb : Page.InBounds o s.length := ⟨by omega, by simp only [Page.size]; omega⟩
  rw [Page.read_eq_ok hb, ho]
  exact congrArg Except.ok h

end Iic3413Db.Storage
