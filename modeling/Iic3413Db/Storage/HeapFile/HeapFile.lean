/-
  Storage/HeapFile/HeapFile.lean --- `storage/heap_file/heap_file.cc`, the parts
  READ_COMMITTED transactions run, over the bytes of the pages.

  `insert_record` retries until a page accepts the record; one pass of that loop
  is one function, since other transactions run between two passes.  `read` walks
  the versions of a tuple; one iteration is two accesses to shared state, the
  header under the page lock and the states under the transaction manager's, and
  `ReadState` names the points between them.
-/
import Iic3413Db.System.TransactionManager

set_option autoImplicit false

namespace Iic3413Db.Storage

open Iic3413Db.Foundation Iic3413Db.RelationalModel Iic3413Db.System

/-- `class HeapFile`, its file and the buffer pool's view of it: the pages the
file has, and `last_insert_page`. -/
structure HeapFile where
  schema : Schema
  pages : Nat → Page
  pageCount : Nat
  lastInsertPage : Nat

namespace HeapFile

/-- A heap file whose file has just been created. -/
def create (schema : Schema) (fileId : FileId) : HeapFile :=
  ⟨schema, fun n => ⟨⟨fileId, n⟩, fun _ => 0, 0, false, false⟩, 0, 0⟩

/-- `HeapFilePage(heap_file, page_number)`: the page `get_page` returns, after the
constructor.  A file whose next page ends past 2^31 cannot grow. -/
def openPage (hf : HeapFile) (pageNumber : Int) : Outcome Page :=
  if pageNumber < 0 then .error (.undefinedBehaviour "page number below zero")
  else if hf.pageCount ≤ pageNumber ∧ 2 ^ 31 ≤ 4096 * (pageNumber + 1) then
    .error (.runtimeError "Could not write into file")
  else HeapFilePage.construct (hf.pages pageNumber.toNat)

/-- The file once page `n` shows `page`; opening a page extends the file. -/
def setPage (hf : HeapFile) (n : Nat) (page : Page) : HeapFile :=
  { hf with pages := Function.update hf.pages n page, pageCount := max hf.pageCount (n + 1) }

/-! ## Access by RID -/

/-- `get_record_header`. -/
def getRecordHeader (hf : HeapFile) (rid : RID) : Outcome (Option RecordHeader) :=
  if rid = .gone then .ok none
  else do
    let page ← hf.openPage rid.pageNum
    HeapFilePage.getRecordHeader page rid.dirSlot

/-- `get_record`. -/
def getRecord (hf : HeapFile) (rid : RID) : Outcome Record := do
  let page ← hf.openPage rid.pageNum
  HeapFilePage.getRecord hf.schema page rid.dirSlot

/-- `HeapFilePage(*this, rid.page_num).update_record_header(rid.dir_slot, ..)`. -/
def updateRecordHeader (hf : HeapFile) (rid newRid : RID) (txId : TxID) : Outcome HeapFile := do
  let page ← hf.openPage rid.pageNum
  let page ← HeapFilePage.updateRecordHeader page rid.dirSlot newRid txId
  .ok (hf.setPage rid.pageNum.toNat page)

/-- One pass of the loop of `insert_record`.  A page without room sends the next
pass to the next page. -/
def insertPass (hf : HeapFile) (record : Record) (txId : TxID) (firstRid : Option RID) :
    Outcome (Option RID × HeapFile) := do
  let page ← hf.openPage hf.lastInsertPage
  let (res, page) ← HeapFilePage.tryInsertRecord page record txId firstRid
  let hf := hf.setPage hf.lastInsertPage page
  match res with
  | some rid => .ok (some rid, hf)
  | none => .ok (none, { hf with lastInsertPage := hf.lastInsertPage + 1 })

/-! ## Walking the versions -/

/-- `is_visible`.  Snapshot isolation is still to be written in the source. -/
def isVisible (tm : TransactionManager) (header : RecordHeader) (txId : TxID) : Outcome Bool := do
  let (stateMin, stateMax) := tm.getStates header.tMin header.tMax
  match ← tm.getIsolationLevel txId with
  | .readCommitted =>
      match stateMin with
      | .active =>
          -- its own record, if it is the last version
          .ok (decide (header.tMin = txId ∧ header.tMax = 0))
      | .committed =>
          if header.tMax = 0 then .ok true
          else
            match stateMax with
            | .active => .ok (decide (header.tMax ≠ txId))
            | .committed => .ok false
  | .snapshotIsolation => .ok false

/-- Where a `read` is: about to read a header, about to judge one, or back with
`valid` and a RID. -/
inductive ReadState where
  | fetch (rid : RID)
  | judge (rid : RID) (header : RecordHeader)
  | done (valid : Bool) (rid : RID)
  deriving DecidableEq, Repr

/-- The next atomic step of a `read`. -/
def readStep (hf : HeapFile) (tm : TransactionManager) (txId : TxID) :
    ReadState → Outcome ReadState
  | .fetch rid => do
      match ← hf.getRecordHeader rid with
      | none => .ok (.done false .gone)
      | some header => .ok (.judge rid header)
  | .judge rid header => do
      if ← isVisible tm header txId then .ok (.done true rid)
      else if header.next = .deleted then .ok (.done false .deleted)
      else if header.tMax = 0 then .ok (.done false header.next)
      else .ok (.fetch header.next)
  | .done valid rid => .ok (.done valid rid)

/-- The steps of a `read` with nothing in between; `none` is a walk that needs
more than `fuel` of them. -/
def readLoop (hf : HeapFile) (tm : TransactionManager) (txId : TxID) :
    Nat → ReadState → Outcome (Option (Bool × RID))
  | _, .done valid rid => .ok (some (valid, rid))
  | 0, _ => .ok none
  | fuel + 1, s => do
      let s ← hf.readStep tm txId s
      readLoop hf tm txId fuel s

/-- `read`. -/
def read (hf : HeapFile) (tm : TransactionManager) (fuel : Nat) (rid : RID) (txId : TxID) :
    Outcome (Option (Bool × RID)) :=
  hf.readLoop tm txId fuel (.fetch rid)

/-- `get_last_version`. -/
def getLastVersion (hf : HeapFile) : Nat → RID → Outcome (Option RID)
  | 0, _ => .ok none
  | fuel + 1, rid => do
      let page ← hf.openPage rid.pageNum
      match ← HeapFilePage.getRecordHeader page rid.dirSlot with
      | none => .ok (some .gone)
      | some header =>
          if header.tMax = 0 then .ok (some rid)
          else if header.next = .deleted then .ok (some rid)
          else getLastVersion hf fuel header.next

end HeapFile

/-! ## `heap_file_iter.cc` -/

/-- `class HeapFileIter`; `current_page` is null once `exhausted`. -/
structure HeapFileIter where
  totalPages : Nat
  currentPageNumber : Nat
  currentPageRecordPos : Int
  exhausted : Bool
  deriving DecidableEq, Repr

namespace HeapFileIter

/-- The constructor, which opens page 0 before it counts the pages. -/
def create (hf : HeapFile) : Outcome (HeapFileIter × HeapFile) := do
  let page ← hf.openPage 0
  let hf := hf.setPage 0 page
  .ok (⟨hf.pageCount, 0, -1, false⟩, hf)

/-- What one iteration of the loop of `next` comes to: the record to return, the
invalid one at the end, or another iteration. -/
inductive Turn where
  | row (record : Record)
  | finished
  | again
  deriving DecidableEq, Repr

/-- The part of an iteration that looks at the slot `rid`. -/
def visit (hf : HeapFile) (tm : TransactionManager) (txId : TxID) (fuel : Nat) (rid : RID) :
    Outcome (Option Turn) := do
  match ← hf.getRecordHeader rid with
  | none => .ok (some .again)
  | some header =>
      if rid = header.first then
        match ← hf.read tm fuel rid txId with
        | none => .ok none
        | some (false, _) => .ok (some .again)
        | some (true, newRid) => do
            let record ← hf.getRecord newRid
            if record.invalid then .ok (some .again)
            else .ok (some (.row (record.pushRid header.first)))
      else .ok (some .again)

/-- One iteration of the loop of `next`. -/
def turn (hf : HeapFile) (tm : TransactionManager) (txId : TxID) (fuel : Nat)
    (it : HeapFileIter) : Outcome (Option (Turn × HeapFileIter)) :=
  if it.exhausted then .ok (some (.finished, it))
  else do
    let page ← hf.openPage it.currentPageNumber
    let dirCount ← HeapFilePage.getDirCount page
    let pos := it.currentPageRecordPos + 1
    if dirCount ≤ pos then
      if it.currentPageNumber + 1 < it.totalPages then
        .ok (some (.again, { it with currentPageNumber := it.currentPageNumber + 1,
                                     currentPageRecordPos := -1 }))
      else .ok (some (.finished, { it with exhausted := true }))
    else
      let it := { it with currentPageRecordPos := pos }
      match ← visit hf tm txId fuel ⟨it.currentPageNumber, pos⟩ with
      | none => .ok none
      | some t => .ok (some (t, it))

/-- `next`, with `fuel` for its iterations and `readFuel` for each `read`. -/
def next (hf : HeapFile) (tm : TransactionManager) (txId : TxID) (readFuel : Nat) :
    Nat → HeapFileIter → Outcome (Option (Record × HeapFileIter))
  | 0, _ => .ok none
  | fuel + 1, it => do
      match ← turn hf tm txId readFuel it with
      | none => .ok none
      | some (.row record, it) => .ok (some (record, it))
      | some (.finished, it) => .ok (some (Record.empty, it))
      | some (.again, it) => next hf tm txId readFuel fuel it

/-- Call `next` until it returns the invalid record. -/
def collect (hf : HeapFile) (tm : TransactionManager) (txId : TxID) (readFuel : Nat) :
    Nat → HeapFileIter → Outcome (Option (List Record))
  | 0, _ => .ok none
  | fuel + 1, it => do
      match ← next hf tm txId readFuel readFuel it with
      | none => .ok none
      | some (record, it) =>
          if record.invalid then .ok (some [])
          else do
            let records ← collect hf tm txId readFuel fuel it
            .ok (records.map (record :: ·))

/-- `get_record_iter`, and `next` until the end. -/
def scan (hf : HeapFile) (tm : TransactionManager) (txId : TxID) (fuel : Nat) :
    Outcome (Option (List Record)) := do
  let (it, hf) ← create hf
  collect hf tm txId fuel fuel it

end HeapFileIter

end Iic3413Db.Storage
