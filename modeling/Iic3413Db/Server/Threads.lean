/-
  Server/Threads.lean --- any number of transactions, each inside at most one call.

  `Thread` names the points of `create_table`, `try_acquire_lock`,
  `commit_transaction` and `abort_transaction` between which other threads run.
  A step is what a thread does to the shared objects under one mutex.  `created`
  and `applied` are history: the tables a transaction has created, and the
  cardinality deltas it has applied.
-/
import Iic3413Db.Foundation.Machine
import Iic3413Db.Server.Globals

set_option autoImplicit false

namespace Iic3413Db.Server

open Iic3413Db.Foundation Iic3413Db.RelationalModel Iic3413Db.Storage
open Iic3413Db.System (Catalog TableId TableInfo TableColumn IsolationLevel TransactionState)

/-- What the call that ended a transaction came to. -/
inductive Ending where
  /-- `commit_transaction` returned -/
  | committed
  /-- `commit_transaction` threw, because a table name is taken -/
  | refused
  /-- `abort_transaction` returned -/
  | aborted
  /-- `try_acquire_lock` threw, after its time -/
  | timedOut
  deriving DecidableEq, Repr

/-- Where a transaction is. -/
inductive Thread where
  | absent
  /-- between two calls -/
  | idle
  /-- in `create_table`, after the name was checked -/
  | creating (name : List UInt8) (columns : List TableColumn)
  /-- in `create_table`, with a table id -/
  | numbered (name : List UInt8) (columns : List TableColumn) (tableId : TableId)
  /-- in the loop of `try_acquire_lock` -/
  | waiting (key : TupleKey)
  /-- `commit_in_progress_tables` returned; the deltas still to apply -/
  | applying (deltas : List (TableId × Int))
  /-- `commit_transaction` has set the state -/
  | flipped
  /-- at the start of `_abort_transaction` -/
  | undoing (ending : Ending)
  /-- `abort_in_progress_tables` returned -/
  | dropped (ending : Ending)
  /-- `_abort_transaction` has set the state -/
  | unlocking (ending : Ending)
  /-- the locks are released -/
  | released (ending : Ending)
  /-- the entry is erased -/
  | ended (ending : Ending)
  deriving DecidableEq, Repr

/-- How a transaction that is being ended will end. -/
def Thread.ending : Thread → Option Ending
  | .applying _ | .flipped => some .committed
  | .undoing ending | .dropped ending | .unlocking ending | .released ending | .ended ending =>
      some ending
  | _ => none

/-- The shared objects, the threads and the history. -/
structure State where
  globals : Globals
  threads : TxID → Thread
  created : TxID → List TableInfo
  applied : TxID → List (TableId × Int)

namespace State

def setThread (s : State) (txId : TxID) (t : Thread) : State :=
  { s with threads := Function.update s.threads txId t }

/-- The objects change, and a thread goes on. -/
def advance (s : State) (txId : TxID) (g : Globals) (t : Thread) : State :=
  { s with globals := g }.setThread txId t

@[simp] theorem setThread_self (s : State) (txId : TxID) (t : Thread) :
    (s.setThread txId t).threads txId = t := Function.update_self ..

@[simp] theorem advance_self (s : State) (txId : TxID) (g : Globals) (t : Thread) :
    (s.advance txId g t).threads txId = t := Function.update_self ..

end State

/-- What a step does. -/
inductive Action where
  | start (level : IsolationLevel)
  | checkName (tableName : List UInt8) (columns : List TableColumn)
  | takeId
  | addTable
  | createThrows
  | insertRecord (key : TupleKey)
  | lock (key : TupleKey)
  | pass
  | timeout
  | bumpDelta (tableId : TableId) (action : Int)
  | commit
  | applyDelta
  | setCommitted
  | releaseLocks
  | abort
  | dropTables
  | erase

/-- Transaction `txId` does one step. -/
inductive Step : State → TxID × Action → State → Prop
  | start {s : State} (level : IsolationLevel) :
      Step s (s.globals.catalog.transactionCount, .start level)
        (s.advance s.globals.catalog.transactionCount (s.globals.startTransaction level).2 .idle)
  | checkName {s : State} {txId : TxID} {tableName name : List UInt8}
      {columns : List TableColumn} (hs : s.threads txId = .idle)
      (h : s.globals.catalog.checkName tableName txId = .ok name) :
      Step s (txId, .checkName tableName columns) (s.setThread txId (.creating name columns))
  | takeId {s : State} {txId : TxID} {name : List UInt8} {columns : List TableColumn}
      (hs : s.threads txId = .creating name columns) :
      Step s (txId, .takeId)
        (s.advance txId { s.globals with catalog := s.globals.catalog.nextTableId.2 }
          (.numbered name columns s.globals.catalog.nextTableId.1))
  | addTable {s : State} {txId : TxID} {name : List UInt8} {columns final : List TableColumn}
      {tableId : TableId} (hs : s.threads txId = .numbered name columns tableId)
      (h : Catalog.finalColumns columns tableId = .ok final) :
      Step s (txId, .addTable)
        { s.advance txId
            { s.globals with
              catalog := s.globals.catalog.addTable txId ⟨name, final, tableId, 0⟩ } .idle with
          created := Function.update s.created txId (s.created txId ++ [⟨name, final, tableId, 0⟩]) }
  /-- The file of the table cannot be opened. -/
  | createThrows {s : State} {txId : TxID} {name : List UInt8} {columns : List TableColumn}
      {tableId : TableId} (hs : s.threads txId = .numbered name columns tableId) :
      Step s (txId, .createThrows) (s.setThread txId .idle)
  /-- `HeapFile::insert_record` adds the new RID, which no lock covers. -/
  | insertRecord {s : State} {txId : TxID} {key : TupleKey} {g : Globals}
      (hs : s.threads txId = .idle)
      (htable : (s.globals.catalog.getTableInfoById key.tableId txId).isSome)
      (h : s.globals.addToWriteSet key txId = .ok g) :
      Step s (txId, .insertRecord key) (s.advance txId g .idle)
  | lock {s : State} {txId : TxID} {key : TupleKey} (hs : s.threads txId = .idle)
      (htable : (s.globals.catalog.getTableInfoById key.tableId txId).isSome) :
      Step s (txId, .lock key) (s.setThread txId (.waiting key))
  /-- Acquired, or already held. -/
  | acquire {s : State} {txId : TxID} {key : TupleKey} {g : Globals}
      (hs : s.threads txId = .waiting key)
      (h : s.globals.tryAcquireLock txId key = (g, .ok true)) :
      Step s (txId, .pass) (s.advance txId g .idle)
  | retry {s : State} {txId : TxID} {key : TupleKey} {g : Globals}
      (hs : s.threads txId = .waiting key)
      (h : s.globals.tryAcquireLock txId key = (g, .ok false)) :
      Step s (txId, .pass) (s.advance txId g (.waiting key))
  | acquireThrows {s : State} {txId : TxID} {key : TupleKey} {g : Globals} {e : Fault}
      (hs : s.threads txId = .waiting key)
      (h : s.globals.tryAcquireLock txId key = (g, .error e)) :
      Step s (txId, .pass) (s.advance txId g .idle)
  | timeout {s : State} {txId : TxID} {key : TupleKey} {tx : Transaction}
      (hs : s.threads txId = .waiting key) (h : s.globals.abortBegin txId = .ok tx) :
      Step s (txId, .timeout) (s.setThread txId (.undoing .timedOut))
  | bumpDelta {s : State} {txId : TxID} (tableId : TableId) (action : Int)
      (hs : s.threads txId = .idle) :
      Step s (txId, .bumpDelta tableId action)
        (s.advance txId (s.globals.updateCardinalityDelta txId tableId action) .idle)
  | commit {s : State} {txId : TxID} {tx : Transaction} {c : Catalog}
      (hs : s.threads txId = .idle) (hbegin : s.globals.commitBegin txId = .ok tx)
      (h : s.globals.catalog.commitInProgressTables txId = .ok c) :
      Step s (txId, .commit)
        (s.advance txId { s.globals with catalog := c } (.applying tx.cardinalityDeltas.entries))
  | commitRefused {s : State} {txId : TxID} {tx : Transaction} {msg : String}
      (hs : s.threads txId = .idle) (hbegin : s.globals.commitBegin txId = .ok tx)
      (h : s.globals.catalog.commitInProgressTables txId =
        .error (.transactionAbortException msg)) :
      Step s (txId, .commit) (s.setThread txId (.undoing .refused))
  | applyDelta {s : State} {txId : TxID} {tableId : TableId} {delta : Int}
      {deltas : List (TableId × Int)} (hs : s.threads txId = .applying ((tableId, delta) :: deltas)) :
      Step s (txId, .applyDelta)
        { s.advance txId
            { s.globals with
              catalog := if delta ≠ 0 then s.globals.catalog.updateCardinality tableId delta
                else s.globals.catalog } (.applying deltas) with
          applied := Function.update s.applied txId (s.applied txId ++ [(tableId, delta)]) }
  | setCommitted {s : State} {txId : TxID} {tx : Transaction}
      (hs : s.threads txId = .applying []) (htx : s.globals.activeTransactions txId = some tx) :
      Step s (txId, .setCommitted)
        (s.advance txId (s.globals.setState txId tx .committed) .flipped)
  | releaseLocks {s : State} {txId : TxID} {tx : Transaction} (hs : s.threads txId = .flipped)
      (htx : s.globals.activeTransactions txId = some tx) :
      Step s (txId, .releaseLocks)
        (s.advance txId (s.globals.releaseAllLocks tx) (.released .committed))
  | abort {s : State} {txId : TxID} {tx : Transaction} (hs : s.threads txId = .idle)
      (h : s.globals.abortBegin txId = .ok tx) :
      Step s (txId, .abort) (s.setThread txId (.undoing .aborted))
  | dropTables {s : State} {txId : TxID} {tx : Transaction} {ending : Ending}
      (hs : s.threads txId = .undoing ending)
      (htx : s.globals.activeTransactions txId = some tx)
      (h : s.globals.undoAll tx tx.firstRids = .ok ()) :
      Step s (txId, .dropTables)
        (s.advance txId
          { s.globals with catalog := s.globals.catalog.abortInProgressTables txId }
          (.dropped ending))
  | setAborted {s : State} {txId : TxID} {tx : Transaction} {ending : Ending}
      (hs : s.threads txId = .dropped ending)
      (htx : s.globals.activeTransactions txId = some tx) :
      Step s (txId, .setCommitted)
        (s.advance txId (s.globals.setState txId tx .committed) (.unlocking ending))
  | unlock {s : State} {txId : TxID} {tx : Transaction} {ending : Ending}
      (hs : s.threads txId = .unlocking ending)
      (htx : s.globals.activeTransactions txId = some tx) :
      Step s (txId, .releaseLocks)
        (s.advance txId (s.globals.releaseAllLocks tx) (.released ending))
  | erase {s : State} {txId : TxID} {ending : Ending} (hs : s.threads txId = .released ending) :
      Step s (txId, .erase) (s.advance txId (s.globals.erase txId) (.ended ending))

/-- What the catalog has before the first transaction: committed tables with names
of their own and ids the counter has passed. -/
structure Opened (s : State) : Prop where
  names : (s.globals.catalog.tables.entries.map TableInfo.name).Nodup
  ids : ∀ info ∈ s.globals.catalog.tables.entries,
    info.tableId < s.globals.catalog.tableIdCounter
  inProcess : ∀ x, s.globals.catalog.inProcessTables x = []
  transactions : ∀ x, s.globals.activeTransactions x = none
  locks : ∀ key, s.globals.lockTable key = none
  threads : ∀ x, s.threads x = .absent
  created : ∀ x, s.created x = []
  applied : ∀ x, s.applied x = []

/-- The transactions of a server. -/
def transactions : Machine State (TxID × Action) where
  init := Opened
  step := Step

end Iic3413Db.Server
