/-
  Mvcc/Database.lean --- one table under any number of transactions.

  Each transaction has a session, which is inside at most one call; `Session`
  names the points of `HeapFile::insert_record`, `UpdateIter::next`,
  `HeapFile::update` and `commit_transaction` between which other sessions run.
  A step is one access to shared state: the heap file's pages, the transaction
  manager, the lock table.

  Three places allow more than the program does.  A statement may be scanning for
  longer than it is here, so the row it goes on with may be any tuple; a query
  that throws leaves its session in the transaction; and a statement may be any
  WHERE clause with any SET list.
-/
import Iic3413Db.Foundation.Machine
import Iic3413Db.Mvcc.Versions
import Iic3413Db.Query.Executor.UpdateIter

set_option autoImplicit false

namespace Iic3413Db.Mvcc

open Iic3413Db.Foundation Iic3413Db.RelationalModel Iic3413Db.Storage Iic3413Db.System
  Iic3413Db.Query

/-- Where a session is. -/
inductive Session where
  | idle
  /-- in the loop of `insert_record` -/
  | inserting (record : Record)
  /-- before `add_to_write_set` -/
  | inserted (rid : RID)
  /-- `child->next()` returned a row with this first RID -/
  | scanned (stmt : UpdateStatement) (first : RID)
  /-- `try_acquire_lock` returned -/
  | locked (stmt : UpdateStatement) (first : RID)
  /-- `record_header.first` and the record of the version `read` returned -/
  | reread (stmt : UpdateStatement) (first self : RID) (record : Record)
  /-- at the start of `HeapFile::update` -/
  | updating (stmt : UpdateStatement) (first : RID) (record : Record)
  /-- `update` has `record_header.first`, and its lock -/
  | relocked (stmt : UpdateStatement) (first self : RID) (record : Record)
  /-- in the loop of `insert_record` for a new version behind `last` -/
  | appending (stmt : UpdateStatement) (first self last : RID) (record : Record)
  /-- before `page.update_record_header` -/
  | linking (stmt : UpdateStatement) (first self last new : RID) (record : Record)
  /-- `commit_transaction` has set the state -/
  | committed
  /-- `commit_transaction` has released the locks -/
  | released

/-- A row `UpdateIter::next` returned as updated. -/
structure Report where
  txId : TxID
  first : RID
  stmt : UpdateStatement

/-- The shared state and the sessions. -/
structure Database where
  heapFile : HeapFile
  transactions : TransactionManager
  lockTable : LockTable
  sessions : TxID → Session
  reports : List Report

namespace Database

/-- An empty table before the first transaction. -/
def create (t : TableSchema) (fileId : FileId) : Database :=
  ⟨HeapFile.create t.schema fileId, .initial, fun _ => none, fun _ => .idle, []⟩

def setSession (db : Database) (txId : TxID) (s : Session) : Database :=
  { db with sessions := Function.update db.sessions txId s }

/-- The row is returned as updated. -/
def report (db : Database) (txId : TxID) (first : RID) (stmt : UpdateStatement) : Database :=
  ({ db with reports := db.reports ++ [⟨txId, first, stmt⟩] } : Database).setSession txId .idle

/-- The slots of the table. -/
def slot (db : Database) : Slots := db.heapFile.slot

/-- The state a transaction id has for readers. -/
def state (db : Database) : TxID → TransactionState := db.transactions.getState

end Database

/-- What a step does. -/
inductive Action where
  | start (level : IsolationLevel)
  | openIterator
  | beginInsert (record : Record)
  | tryInsert
  | addToWriteSet
  | scan (stmt : UpdateStatement) (first : RID)
  | acquire
  | reread
  | check
  | relock
  | findLast
  | tryAppend
  | link
  | setCommitted
  | release
  | erase

/-- Transaction `txId` does one step. -/
inductive Step (t : TableSchema) : Database → TxID × Action → Database → Prop
  /-- `start_transaction`; the counter is a `uint64_t` that has not wrapped. -/
  | start {db : Database} (level : IsolationLevel)
      (hroom : db.transactions.transactionCount + 1 < 2 ^ 64) :
      Step t db (db.transactions.transactionCount, .start level)
        { db with transactions := (db.transactions.startTransaction level).2 }
  | openIterator {db : Database} {txId : TxID} {it : HeapFileIter} {hf : HeapFile}
      (hs : db.sessions txId = .idle) (hactive : db.state txId = .active)
      (h : HeapFileIter.create db.heapFile = .ok (it, hf)) :
      Step t db (txId, .openIterator) { db with heapFile := hf }
  | beginInsert {db : Database} {txId : TxID} {record : Record}
      (hs : db.sessions txId = .idle) (hactive : db.state txId = .active)
      (hrecord : Matches t.schema.columns record.values) :
      Step t db (txId, .beginInsert record) (db.setSession txId (.inserting record))
  /-- The page had no room. -/
  | insertRefused {db : Database} {txId : TxID} {record : Record} {hf : HeapFile}
      (hs : db.sessions txId = .inserting record)
      (h : db.heapFile.insertPass record txId none = .ok (none, hf)) :
      Step t db (txId, .tryInsert) { db with heapFile := hf }
  | insert {db : Database} {txId : TxID} {record : Record} {rid : RID} {hf : HeapFile}
      (hs : db.sessions txId = .inserting record)
      (h : db.heapFile.insertPass record txId none = .ok (some rid, hf)) :
      Step t db (txId, .tryInsert) ({ db with heapFile := hf }.setSession txId (.inserted rid))
  | addToWriteSet {db : Database} {txId : TxID} {rid : RID} {tm : TransactionManager}
      (hs : db.sessions txId = .inserted rid)
      (h : db.transactions.addToWriteSet rid txId = .ok tm) :
      Step t db (txId, .addToWriteSet) ({ db with transactions := tm }.setSession txId .idle)
  /-- An UPDATE of a READ_COMMITTED transaction gets its next row. -/
  | scan {db : Database} {txId : TxID} {stmt : UpdateStatement} {first : RID}
      {header : RecordHeader} {vs : List Value} (hs : db.sessions txId = .idle)
      (hruns : db.transactions.Runs txId .readCommitted)
      (hslot : db.slot first = some (header, vs)) (hfirst : header.first = first) :
      Step t db (txId, .scan stmt first) (db.setSession txId (.scanned stmt first))
  | acquire {db : Database} {txId : TxID} {stmt : UpdateStatement} {first : RID}
      {locks : LockTable} {tm : TransactionManager} (hs : db.sessions txId = .scanned stmt first)
      (h : LockManager.tryAcquireLock db.lockTable db.transactions txId first =
        .ok (some (locks, tm))) :
      Step t db (txId, .acquire)
        ({ db with lockTable := locks, transactions := tm }.setSession txId (.locked stmt first))
  /-- The tuple is not visible; on to the next row. -/
  | rereadInvalid {db : Database} {txId : TxID} {stmt : UpdateStatement} {first rid : RID}
      {fuel : Nat} (hs : db.sessions txId = .locked stmt first)
      (h : db.heapFile.read db.transactions fuel first txId = .ok (some (false, rid))) :
      Step t db (txId, .reread) (db.setSession txId .idle)
  | reread {db : Database} {txId : TxID} {stmt : UpdateStatement} {first rid : RID}
      {header : RecordHeader} {record : Record} {fuel : Nat}
      (hs : db.sessions txId = .locked stmt first)
      (hheader : db.heapFile.getRecordHeader first = .ok (some header))
      (h : db.heapFile.read db.transactions fuel first txId = .ok (some (true, rid)))
      (hrecord : db.heapFile.getRecord rid = .ok record) :
      Step t db (txId, .reread) (db.setSession txId (.reread stmt first header.first record))
  /-- The row does not match, or the statement throws. -/
  | checkFailed {db : Database} {txId : TxID} {stmt : UpdateStatement} {first self : RID}
      {record : Record} (hs : db.sessions txId = .reread stmt first self record) :
      Step t db (txId, .check) (db.setSession txId .idle)
  | check {db : Database} {txId : TxID} {stmt : UpdateStatement} {first self : RID}
      {record out : Record} (hs : db.sessions txId = .reread stmt first self record)
      (hmatches : stmt.childMatches record = .ok true)
      (h : stmt.updatedRecord t record.values self = .ok out) :
      Step t db (txId, .check) (db.setSession txId (.updating stmt first out))
  /-- `update` finds no tuple and returns; the row is reported all the same. -/
  | updateMissing {db : Database} {txId : TxID} {stmt : UpdateStatement} {first : RID}
      {record : Record} (hs : db.sessions txId = .updating stmt first record)
      (h : db.heapFile.getRecordHeader first = .ok none) :
      Step t db (txId, .relock) (db.report txId first stmt)
  | relock {db : Database} {txId : TxID} {stmt : UpdateStatement} {first : RID}
      {record : Record} {header : RecordHeader} {locks : LockTable} {tm : TransactionManager}
      (hs : db.sessions txId = .updating stmt first record)
      (hlevel : db.transactions.getIsolationLevel txId = .ok .readCommitted)
      (hheader : db.heapFile.getRecordHeader first = .ok (some header))
      (h : LockManager.tryAcquireLock db.lockTable db.transactions txId header.first =
        .ok (some (locks, tm))) :
      Step t db (txId, .relock)
        ({ db with lockTable := locks, transactions := tm }.setSession txId
          (.relocked stmt first header.first record))
  /-- `update` finds the tuple deleted and returns; the row is reported all the
  same. -/
  | updateDeleted {db : Database} {txId : TxID} {stmt : UpdateStatement} {first self last : RID}
      {record : Record} {header : Option RecordHeader} {fuel : Nat}
      (hs : db.sessions txId = .relocked stmt first self record)
      (hlast : db.heapFile.getLastVersion fuel self = .ok (some last))
      (hheader : db.heapFile.getRecordHeader last = .ok header)
      (hdeleted : header.elim True fun header => header.next = .deleted) :
      Step t db (txId, .findLast) (db.report txId first stmt)
  | findLast {db : Database} {txId : TxID} {stmt : UpdateStatement} {first self last : RID}
      {record : Record} {header : RecordHeader} {fuel : Nat}
      (hs : db.sessions txId = .relocked stmt first self record)
      (hlast : db.heapFile.getLastVersion fuel self = .ok (some last))
      (hheader : db.heapFile.getRecordHeader last = .ok (some header))
      (hlive : header.next ≠ .deleted) :
      Step t db (txId, .findLast) (db.setSession txId (.appending stmt first self last record))
  | appendRefused {db : Database} {txId : TxID} {stmt : UpdateStatement} {first self last : RID}
      {record : Record} {hf : HeapFile}
      (hs : db.sessions txId = .appending stmt first self last record)
      (h : db.heapFile.insertPass record txId (some self) = .ok (none, hf)) :
      Step t db (txId, .tryAppend) { db with heapFile := hf }
  | append {db : Database} {txId : TxID} {stmt : UpdateStatement} {first self last new : RID}
      {record : Record} {hf : HeapFile}
      (hs : db.sessions txId = .appending stmt first self last record)
      (h : db.heapFile.insertPass record txId (some self) = .ok (some new, hf)) :
      Step t db (txId, .tryAppend)
        ({ db with heapFile := hf }.setSession txId (.linking stmt first self last new record))
  | link {db : Database} {txId : TxID} {stmt : UpdateStatement} {first self last new : RID}
      {record : Record} {hf : HeapFile}
      (hs : db.sessions txId = .linking stmt first self last new record)
      (h : db.heapFile.updateRecordHeader last new txId = .ok hf) :
      Step t db (txId, .link) ({ db with heapFile := hf }.report txId first stmt)
  | setCommitted {db : Database} {txId : TxID} {tm : TransactionManager}
      (hs : db.sessions txId = .idle) (h : db.transactions.setCommitted txId = .ok tm) :
      Step t db (txId, .setCommitted) ({ db with transactions := tm }.setSession txId .committed)
  | release {db : Database} {txId : TxID} {tx : Transaction}
      (hs : db.sessions txId = .committed)
      (h : db.transactions.activeTransactions txId = some tx) :
      Step t db (txId, .release)
        ({ db with lockTable := LockManager.releaseAllLocks db.lockTable txId tx }.setSession txId
          .released)
  | erase {db : Database} {txId : TxID} (hs : db.sessions txId = .released) :
      Step t db (txId, .erase)
        ({ db with transactions := db.transactions.erase txId }.setSession txId .idle)

/-- The table under its transactions, from the empty file on. -/
def database (t : TableSchema) : Machine Database (TxID × Action) where
  init db := ∃ fileId, db = Database.create t fileId
  step := Step t

end Iic3413Db.Mvcc
