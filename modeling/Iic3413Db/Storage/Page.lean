/-
  Storage/Page.lean --- `storage/file_id.h`, `storage/page_id.h`, `storage/page.h`
  and `storage/page.cc`.

  A `Page` is a buffer frame: the identity of the page it holds, its 4096 bytes,
  and the bookkeeping of the replacement policy.  Reads and writes carry the
  `assert(offset + size <= Page::SIZE)` of the source.  Offsets are `int`
  expressions there, so a negative one is a possible argument; it lies outside
  the page just as well and ends in the same fault.
-/
import Iic3413Db.Exceptions
import Iic3413Db.Foundation.Bytes

set_option autoImplicit false

namespace Iic3413Db.Storage

open Iic3413Db.Foundation

/-- `class FileId`: a file descriptor. -/
structure FileId where
  fd : Int
  deriving DecidableEq, Repr

/-- `FileId::UNASSIGNED`, `INT32_MAX`. -/
def FileId.unassigned : FileId := ⟨2147483647⟩

/-- `struct PageId`. -/
structure PageId where
  fileId : FileId
  pageNumber : Int
  deriving DecidableEq, Repr

/-- `Page::SIZE`. -/
def Page.size : Nat := 4096

/-- The memory behind a page. -/
abbrev PageBytes : Type := Block 4096

/-- `class Page`. -/
structure Page where
  pageId : PageId
  bytes : PageBytes
  /-- count of objects using this page, an `int32_t` -/
  pins : Int
  /-- used by the replacement policy -/
  secondChance : Bool
  /-- true if data in memory is different from disk -/
  dirty : Bool

namespace Page

/-- The access `[offset, offset + size)` stays inside the page. -/
def InBounds (offset : Int) (size : Nat) : Prop :=
  0 ≤ offset ∧ offset + size ≤ Page.size

instance (offset : Int) (size : Nat) : Decidable (InBounds offset size) :=
  inferInstanceAs (Decidable (_ ∧ _))

/-- The fault of an access outside the page. -/
def outOfBounds : Fault := .assertFailed "offset + size <= Page::SIZE"

/-- `Page::read`. -/
def read (p : Page) (offset : Int) (size : Nat) : Outcome (List UInt8) :=
  if InBounds offset size then .ok (p.bytes.slice offset.toNat size)
  else .error outOfBounds

/-- `Page::read_uint8`. -/
def readUint8 (p : Page) (offset : Int) : Outcome Nat :=
  (p.read offset 1).map leValue

/-- `Page::read_int32`. -/
def readInt32 (p : Page) (offset : Int) : Outcome Int :=
  (p.read offset 4).map intValue

/-- `Page::read_int64`. -/
def readInt64 (p : Page) (offset : Int) : Outcome Int :=
  (p.read offset 8).map intValue

/-- `Page::write`. -/
def write (p : Page) (offset : Int) (data : List UInt8) : Outcome Page :=
  if InBounds offset data.length then
    .ok { p with bytes := p.bytes.splice offset.toNat data, dirty := true }
  else .error outOfBounds

/-- `Page::write_int8`, whose argument is a `uint8_t`. -/
def writeInt8 (p : Page) (offset : Int) (i : Nat) : Outcome Page :=
  p.write offset (leBytes 1 i)

/-- `Page::write_int32`. -/
def writeInt32 (p : Page) (offset : Int) (i : Int) : Outcome Page :=
  p.write offset (intBytes 4 i)

/-- `Page::write_int64`. -/
def writeInt64 (p : Page) (offset : Int) (i : Int) : Outcome Page :=
  p.write offset (intBytes 8 i)

/-- `Page::pin`. -/
def pin (p : Page) : Page :=
  { p with pins := int32 (p.pins + 1), secondChance := true }

/-- `Page::unpin`. -/
def unpin (p : Page) : Outcome Page :=
  if 0 < p.pins then .ok { p with pins := p.pins - 1 }
  else .error (.assertFailed "Cannot unpin if pin count is 0")

/-- `Page::reassign`. -/
def reassign (p : Page) (pageId : PageId) : Outcome Page :=
  if p.dirty then .error (.assertFailed "Cannot reassign page if it is dirty")
  else if p.pins ≠ 0 then .error (.assertFailed "Cannot reassign page if it is pinned")
  else if p.secondChance then
    .error (.assertFailed "Should not reassign page if second_chance is true")
  else .ok { p with pageId := pageId, pins := 1, secondChance := true }

/-! ## What an access needs and what it does -/

theorem read_eq_ok {p : Page} {offset : Int} {size : Nat} (h : InBounds offset size) :
    p.read offset size = .ok (p.bytes.slice offset.toNat size) := if_pos h

theorem write_eq_ok {p : Page} {offset : Int} {data : List UInt8}
    (h : InBounds offset data.length) :
    p.write offset data =
      .ok { p with bytes := p.bytes.splice offset.toNat data, dirty := true } := if_pos h

/-- A write that returns stayed in bounds, and changed the bytes and the dirty
flag only. -/
theorem write_ok_iff {p q : Page} {offset : Int} {data : List UInt8} :
    p.write offset data = .ok q ↔ InBounds offset data.length ∧
      q = { p with bytes := p.bytes.splice offset.toNat data, dirty := true } := by
  unfold write
  split
  · rename_i h
    simp [h, eq_comm]
  · rename_i h
    simp [h]

theorem unpin_ok_iff {p q : Page} :
    p.unpin = .ok q ↔ 0 < p.pins ∧ q = { p with pins := p.pins - 1 } := by
  unfold unpin
  split
  · rename_i h
    simp [h, eq_comm]
  · rename_i h
    simp [h]

/-- `reassign` passes its three assertions exactly on a clean, unpinned page
whose second chance is spent. -/
theorem reassign_ok_iff {p q : Page} {pageId : PageId} :
    p.reassign pageId = .ok q ↔
      (p.dirty = false ∧ p.pins = 0 ∧ p.secondChance = false) ∧
      q = { p with pageId := pageId, pins := 1, secondChance := true } := by
  unfold reassign
  cases p.dirty <;> cases p.secondChance <;> by_cases hp : p.pins = 0 <;>
    simp [hp, eq_comm]

end Page

end Iic3413Db.Storage
