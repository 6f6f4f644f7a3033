/-
  Storage/HeapFile/HeapFilePage.lean --- `storage/heap_file/record_header.h` and
  `storage/heap_file/heap_file_page.cc`.

  A page is read and written at byte offsets, with the assertions of
  `storage/page.cc`; every function here threads the `Page` and stops at the first
  fault.  Directory offsets are `int32_t`s read from the page, so a damaged page
  can send any of these functions out of bounds.

  The two places where `int` arithmetic can leave its range on a page that is not
  damaged are in `try_insert_record`: the size of the record is summed in an
  `int32_t`, and compared after adding the header.
-/
import Iic3413Db.RelationalModel.Record
import Iic3413Db.Storage.Page

set_option autoImplicit false

namespace Iic3413Db.Storage

open Iic3413Db.Foundation Iic3413Db.RelationalModel

/-- `using TxID = uint64_t`. -/
abbrev TxID : Type := Nat

/-- The `uint64_t` with the bits of an `int64_t`. -/
def uint64 (i : Int) : TxID := (i % 2 ^ 64).toNat

/-- `class RecordHeader`, when it is valid.  `RecordHeader()`, whose `invalid` is
set, is the `none` of `Option RecordHeader`. -/
structure RecordHeader where
  tMin : TxID
  tMax : TxID
  next : RID
  first : RID
  deriving DecidableEq, Repr

namespace HeapFilePage

/-! ## Layout -/

def headerSize : Int := 8

/-- Bytes per directory entry. -/
def dirSize : Int := 4

/-- Bytes per tuple header. -/
def tupleHeaderSize : Int := 32

def tMinOffset : Int := 0
def tMaxOffset : Int := 8
def nextRidPageOffset : Int := 16
def nextRidDirOffset : Int := 20
def firstRidPageOffset : Int := 24
def firstRidDirOffset : Int := 28

/-! ## Fields -/

/-- `get_dir_count`. -/
def getDirCount (page : Page) : Outcome Int := page.readInt32 0

/-- `get_free_space`. -/
def getFreeSpace (page : Page) : Outcome Int := page.readInt32 4

/-- `get_dir`. -/
def getDir (page : Page) (idx : Int) : Outcome Int := page.readInt32 (headerSize + dirSize * idx)

/-- `set_dir_count`. -/
def setDirCount (page : Page) (newDirCount : Int) : Outcome Page := page.writeInt32 0 newDirCount

/-- `set_free_space`. -/
def setFreeSpace (page : Page) (newFreeSpace : Int) : Outcome Page :=
  page.writeInt32 4 newFreeSpace

/-- `set_dir`. -/
def setDir (page : Page) (idx newDirValue : Int) : Outcome Page :=
  page.writeInt32 (headerSize + dirSize * idx) newDirValue

/-- `set_tmax`. -/
def setTMax (page : Page) (dirPos newTMax : Int) : Outcome Page := do
  let recordOffset ← getDir page dirPos
  page.writeInt64 (recordOffset + tMaxOffset) newTMax

/-- `set_next_RID`. -/
def setNextRID (page : Page) (dirPos : Int) (newRid : RID) : Outcome Page := do
  let recordOffset ← getDir page dirPos
  let page ← page.writeInt32 (recordOffset + nextRidPageOffset) newRid.pageNum
  page.writeInt32 (recordOffset + nextRidDirOffset) newRid.dirSlot

/-- `set_first_RID`. -/
def setFirstRID (page : Page) (dirPos : Int) (firstRid : RID) : Outcome Page := do
  let recordOffset ← getDir page dirPos
  let page ← page.writeInt32 (recordOffset + firstRidPageOffset) firstRid.pageNum
  page.writeInt32 (recordOffset + firstRidDirOffset) firstRid.dirSlot

/-- The constructor's work on the page `get_page` returned: a page of zeros is
made a valid empty one. -/
def construct (page : Page) : Outcome Page := do
  let dirCount ← getDirCount page
  if dirCount = 0 then
    let freeSpace ← getFreeSpace page
    if freeSpace = 0 then setFreeSpace page (Page.size - 2 * 4) else .ok page
  else .ok page

/-! ## Reading -/

/-- `get_record_header`. -/
def getRecordHeader (page : Page) (dirPos : Int) : Outcome (Option RecordHeader) := do
  let offset ← getDir page dirPos
  if offset ≤ 0 then .ok none
  else
    let tMin ← page.readInt64 (offset + tMinOffset)
    let tMax ← page.readInt64 (offset + tMaxOffset)
    let nextPage ← page.readInt32 (offset + nextRidPageOffset)
    let nextDir ← page.readInt32 (offset + nextRidDirOffset)
    let firstPage ← page.readInt32 (offset + firstRidPageOffset)
    let firstDir ← page.readInt32 (offset + firstRidDirOffset)
    .ok (some ⟨uint64 tMin, uint64 tMax, ⟨nextPage, nextDir⟩, ⟨firstPage, firstDir⟩⟩)

/-- The loop of `get_record` over the columns that are left. -/
def readValues (page : Page) : List ColumnInfo → Int → Outcome (List Value)
  | [], _ => .ok []
  | col :: cols, offset =>
      match col.datatype with
      | .int => do
          let i ← page.readInt64 offset
          let values ← readValues page cols (offset + 8)
          .ok (.int i :: values)
      | .str => do
          let len ← page.readUint8 offset
          let s ← page.read (offset + 1) len
          let values ← readValues page cols (offset + 1 + len)
          .ok (.string s :: values)
      | .rid | .invalid => readValues page cols offset

/-- `get_record`, and `_get_record`, which differs in the lock only. -/
def getRecord (schema : Schema) (page : Page) (dirPos : Int) : Outcome Record := do
  let offset ← getDir page dirPos
  if offset ≤ 0 then .ok Record.empty
  else
    let values ← readValues page schema.columns (offset + tupleHeaderSize)
    .ok ⟨values⟩

/-! ## Deleting and updating headers -/

/-- `delete_record_physically`. -/
def deleteRecordPhysically (page : Page) (dirPos : Int) : Outcome Page := setDir page dirPos (-2)

/-- `delete_record_logically`. -/
def deleteRecordLogically (page : Page) (dirPos : Int) (txId : TxID) : Outcome Page := do
  let page ← setTMax page dirPos txId
  setNextRID page dirPos RID.deleted

/-- `update_record_header`. -/
def updateRecordHeader (page : Page) (dirPos : Int) (newRid : RID) (txId : TxID) :
    Outcome Page := do
  let page ← setTMax page dirPos txId
  setNextRID page dirPos newRid

/-- `reset_update`. -/
def resetUpdate (page : Page) (dirPos : Int) : Outcome Page := do
  let page ← setTMax page dirPos 0
  setNextRID page dirPos ⟨page.pageId.pageNumber, dirPos⟩

/-- `reset_first`. -/
def resetFirst (page : Page) (dirPos : Int) : Outcome Page :=
  setFirstRID page dirPos ⟨page.pageId.pageNumber, dirPos⟩

/-! ## Inserting -/

/-- What a value adds to `needed_record_size`. -/
def valueSize : Value → Nat
  | .string s => 1 + s.length
  | .int _ => 8
  | .rid _ => 0

/-- `needed_record_size`, an `int32_t` throughout the loop. -/
def neededRecordSize (values : List Value) : Int :=
  values.foldl (fun size value => int32 (size + valueSize value)) 0

/-- The search for a directory entry to reuse, from `dirPos` on. -/
def findDirPos (page : Page) (dirCount : Int) : Nat → Int → Outcome Int
  | 0, dirPos => .ok dirPos
  | fuel + 1, dirPos =>
      if dirPos < dirCount then do
        let dir ← getDir page dirPos
        if 0 < dir then findDirPos page dirCount fuel (dirPos + 1) else .ok dirPos
      else .ok dirPos

/-- The loop that writes the record's data. -/
def writeValues : List Value → Int → Page → Outcome Page
  | [], _, page => .ok page
  | .string s :: values, offset, page => do
      let len := s.length % 256
      let page ← page.writeInt8 offset len
      let page ← page.write (offset + 1) (s.take len)
      writeValues values (offset + 1 + len) page
  | .int i :: values, offset, page => do
      let page ← page.writeInt64 offset i
      writeValues values (offset + 8) page
  | .rid _ :: values, offset, page => writeValues values offset page

/-- The end of `try_insert_record`: the directory entry, the tuple header and the
data of a record that goes to `dirPos`. -/
def writeTuple (page : Page) (record : Record) (dirPos offset : Int) (txId : TxID)
    (firstRid : Option RID) : Outcome Page := do
  let page ← setDir page dirPos offset
  let self : RID := ⟨page.pageId.pageNumber, dirPos⟩
  let first := firstRid.getD self
  let page ← page.writeInt64 (offset + tMinOffset) txId
  let page ← page.writeInt64 (offset + tMaxOffset) 0
  let page ← page.writeInt32 (offset + nextRidPageOffset) self.pageNum
  let page ← page.writeInt32 (offset + nextRidDirOffset) self.dirSlot
  let page ← page.writeInt32 (offset + firstRidPageOffset) first.pageNum
  let page ← page.writeInt32 (offset + firstRidDirOffset) first.dirSlot
  writeValues record.values (offset + tupleHeaderSize) page

/-- `try_insert_record`.  `none` is the result `false`; `some rid` is `true` with
`*out_rid = rid`. -/
def tryInsertRecord (page : Page) (record : Record) (txId : TxID) (firstRid : Option RID) :
    Outcome (Option RID × Page) := do
  let needed := neededRecordSize record.values
  let dirCount ← getDirCount page
  let dirPos ← findDirPos page dirCount dirCount.toNat 0
  let freeSpace ← getFreeSpace page
  if dirPos < dirCount then
    -- found dir to reuse
    let size := int32 (needed + tupleHeaderSize)
    if freeSpace < size then .ok (none, page)
    else
      let freeSpace := int32 (freeSpace - size)
      let page ← setFreeSpace page freeSpace
      let page ← writeTuple page record dirPos
        (int32 (headerSize + dirSize * dirCount + freeSpace)) txId firstRid
      .ok (some ⟨page.pageId.pageNumber, dirPos⟩, page)
  else
    let size := int32 (needed + tupleHeaderSize + dirSize)
    if freeSpace < size then .ok (none, page)
    else
      let dirCount := dirCount + 1
      let page ← setDirCount page dirCount
      let freeSpace := int32 (freeSpace - size)
      let page ← setFreeSpace page freeSpace
      let page ← writeTuple page record dirPos
        (int32 (headerSize + dirSize * dirCount + freeSpace)) txId firstRid
      .ok (some ⟨page.pageId.pageNumber, dirPos⟩, page)

/-! ## Vacuum -/

/-- The variables of the loop of `vacuum`. -/
structure VacuumState where
  dirCount : Int
  lastUsefulDirCount : Int
  freeSpace : Int
  pageBuf : PageBytes

/-- A store through `dirs`, which points into `page_buf`. -/
def bufWriteInt32 (buf : PageBytes) (offset value : Int) : Outcome PageBytes :=
  if Page.InBounds offset 4 then .ok (buf.splice offset.toNat (intBytes 4 value))
  else .error (.undefinedBehaviour "write outside page_buf")

/-- `page.read(get_dir(i), record_size, page_buf + offset)`. -/
def bufCopy (page : Page) (buf : PageBytes) (src : Int) (size : Nat) (dst : Int) :
    Outcome PageBytes := do
  let data ← page.read src size
  if Page.InBounds dst size then .ok (buf.splice dst.toNat data)
  else .error (.undefinedBehaviour "write outside page_buf")

/-- One pass of the loop of `vacuum`. -/
def vacuumSlot (schema : Schema) (page : Page) (i : Int) (s : VacuumState) :
    Outcome VacuumState := do
  let freeSpace := s.freeSpace - dirSize
  let dir ← getDir page i
  if dir < 0 then
    let buf ← bufWriteInt32 s.pageBuf (headerSize + dirSize * i) (-1)
    .ok { s with dirCount := s.dirCount + 1, freeSpace := freeSpace, pageBuf := buf }
  else
    let record ← getRecord schema page i
    let recordSize := 32 + (record.values.map valueSize).sum
    let dirCount := s.dirCount + 1
    let freeSpace := freeSpace - recordSize
    let offset := headerSize + dirSize * dirCount + freeSpace
    let buf ← bufWriteInt32 s.pageBuf (headerSize + dirSize * (dirCount - 1)) offset
    let buf ← bufCopy page buf dir recordSize offset
    .ok ⟨dirCount, s.dirCount, freeSpace, buf⟩

/-- The loop of `vacuum` over the slots from `i` on. -/
def vacuumLoop (schema : Schema) (page : Page) : Nat → Int → VacuumState → Outcome VacuumState
  | 0, _, s => .ok s
  | slots + 1, i, s => do
      let s ← vacuumSlot schema page i s
      vacuumLoop schema page slots (i + 1) s

/-- `vacuum`.  `pageBuf` is the memory `new char[Page::SIZE]` returns. -/
def vacuum (schema : Schema) (page : Page) (pageBuf : PageBytes) : Outcome Page := do
  let count ← getDirCount page
  let s ← vacuumLoop schema page count.toNat 0 ⟨0, 0, Page.size - headerSize, pageBuf⟩
  let lastUsefulDirCount := s.lastUsefulDirCount + 1
  let freeSpace := s.freeSpace + (s.dirCount - lastUsefulDirCount) * dirSize
  let page ← page.write 0 (s.pageBuf.slice 0 Page.size)
  let page ← page.writeInt32 0 lastUsefulDirCount
  page.writeInt32 4 freeSpace

end HeapFilePage

end Iic3413Db.Storage
