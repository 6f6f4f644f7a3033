/-
  Mvcc/UpdateIter.lean --- `query/executor/update_iter.h` over the heap file, by one session.

  The child is the scan of the table under the WHERE clause, whose `Selection` is not there when
  every row satisfies it.  No other session runs, so a lock another transaction holds is not
  given up and its time passes.  `visited` is history: the rows the scan has delivered.
-/
import Iic3413Db.Foundation.Procedures
import Iic3413Db.Mvcc.Database
import Iic3413Db.Storage.HeapFile.InsertLoop

set_option autoImplicit false

namespace Iic3413Db.Mvcc

open Iic3413Db.Foundation Iic3413Db.RelationalModel Iic3413Db.Storage Iic3413Db.System
  Iic3413Db.Query

/-- The shared state and the statement's scan. -/
structure Cursor where
  heapFile : HeapFile
  transactions : TransactionManager
  lockTable : LockTable
  iter : HeapFileIter
  visited : List Record

abbrev Call (α : Type) : Type := Procedure Cursor Fault α

open Procedure (ofExcept ofLoop outOfFuel)

/-! ## Calls to the table -/

/-- `try_acquire_lock`. -/
def acquire (txId : TxID) (first : RID) : Call Unit := fun c =>
  match LockManager.tryAcquireLock c.lockTable c.transactions txId first with
  | .error e => (some (.error e), c)
  | .ok none =>
      (some (.error (.transactionAbortException
        s!"Transaction {txId} aborted due to lock timeout")), c)
  | .ok (some (locks, tm)) => (some (.ok ()), { c with lockTable := locks, transactions := tm })

/-- `HeapFile::insert_record` for a new version. -/
def insertVersion (fuel : Nat) (record : Record) (txId : TxID) (firstRid : RID) : Call RID :=
  fun c =>
    let (res, hf) := HeapFile.insertRecord record txId (some firstRid) fuel c.heapFile
    (res, { c with heapFile := hf })

/-- `update_record_header` on the page of `rid`. -/
def linkVersion (rid newRid : RID) (txId : TxID) : Call Unit := fun c =>
  match c.heapFile.updateRecordHeader rid newRid txId with
  | .error e => (some (.error e), c)
  | .ok hf => (some (.ok ()), { c with heapFile := hf })

/-- `HeapFile::update`.  Snapshot isolation is still to be written in the source. -/
def update (fuel : Nat) (rid : RID) (record : Record) (txId : TxID) : Call RID := do
  let level ← ofExcept fun c => c.transactions.getIsolationLevel txId
  match ← ofExcept fun c => c.heapFile.getRecordHeader rid with
  | none => pure .gone
  | some header =>
      acquire txId header.first
      match level with
      | .snapshotIsolation => pure .deleted
      | .readCommitted =>
          let last ← ofLoop fun c => c.heapFile.getLastVersion fuel header.first
          match ← ofExcept fun c => c.heapFile.getRecordHeader last with
          | none => pure .gone
          | some lastHeader =>
              if lastHeader.next = .deleted then pure .deleted
              else
                let newRid ← insertVersion fuel record txId header.first
                linkVersion last newRid txId
                pure newRid

/-! ## The iterators -/

section Iterators

variable (t : TableSchema) (stmt : UpdateStatement) (txId : TxID)

/-- `Relation::next`. -/
def relationNext (fuel : Nat) : Call Record := fun c =>
  match HeapFileIter.next c.heapFile c.transactions txId fuel fuel c.iter with
  | .error e => (some (.error e), c)
  | .ok none => (none, c)
  | .ok (some (record, iter)) =>
      (some (.ok record), { c with
        iter := iter
        visited := if record.invalid then c.visited else c.visited ++ [record] })

/-- `child->next()`: `Selection::next` over the scan. -/
def childNext : Nat → Call Record
  | 0 => outOfFuel
  | fuel + 1 => do
      let current ← relationNext txId fuel
      if current.invalid then pure Record.empty
      else if ← ofExcept fun _ => stmt.childMatches current then pure current
      else childNext fuel

/-- `UpdateIter::next` from the lock of the row on; `again` is `goto begin_next`. -/
def updateLocked (fuel : Nat) (again : Call Record) (firstRid : RID) : Call Record := do
  let header ← ofExcept fun c => c.heapFile.getRecordHeader firstRid
  let (valid, newRid) ← ofLoop fun c => c.heapFile.read c.transactions fuel firstRid txId
  if valid = false then again
  else
    let stored ← ofExcept fun c => c.heapFile.getRecord newRid
    if ← ofExcept fun _ => stmt.childMatches stored then
      match header with
      | none => ofExcept fun _ => .error (.undefinedBehaviour "record_header.first")
      | some header =>
          let updated ← ofExcept fun _ => stmt.updatedRecord t stored.values header.first
          let _ ← update fuel firstRid updated txId
          -- the RID is removed from the output
          pure ⟨updated.values.dropLast⟩
    else again

/-- `UpdateIter::next` once the child has returned. -/
def updateRow (fuel : Nat) (again : Call Record) (current : Record) : Call Record :=
  if current.invalid then pure Record.empty
  else
    match current.values.getLast? with
    | some (.rid firstRid) => do
        acquire txId firstRid
        updateLocked t stmt txId fuel again firstRid
    | _ => ofExcept fun _ => .error (.assertFailed "first_rid_value.is_rid()")

/-- `UpdateIter::next`. -/
def updateNext : Nat → Call Record
  | 0 => outOfFuel
  | fuel + 1 => do
      let current ← childNext stmt txId fuel
      updateRow t stmt txId fuel (updateNext fuel) current

/-- The loop of `execute_query`, which calls `next` until the invalid record. -/
def drain : Nat → Call (List Record)
  | 0 => outOfFuel
  | fuel + 1 => do
      let record ← updateNext t stmt txId fuel
      if record.invalid then pure []
      else
        let records ← drain fuel
        pure (record :: records)

end Iterators

end Iic3413Db.Mvcc
