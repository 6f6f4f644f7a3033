/-
  Server/Session.lean --- `server/session.cc`: any number of sessions over the
  transactions of the server.

  A session is between two requests, inside the call of one, or gone.  While it is
  inside a call, the steps it does are those of its transaction.  An error of the
  socket is `end of file` or any other; the handlers of the header, the query and
  the response treat the two alike.

  `handle_abort` may look up an id that belongs to another session.  When that
  session is between two calls its transaction is aborted under it; when it is
  inside one, two threads are in one `Transaction`, and `racing` is where the
  model stops following them.
-/
import Iic3413Db.Server.Endings

set_option autoImplicit false

namespace Iic3413Db.Server

open Iic3413Db.Foundation Iic3413Db.RelationalModel Iic3413Db.Storage
open Iic3413Db.System (Catalog TableId TableInfo TableColumn IsolationLevel TransactionState)

/-! ## Commands -/

/-- The characters of a command word. -/
def bytes (word : String) : List UInt8 := word.toList.map fun c => UInt8.ofNat c.toNat

/-- `my_compare`: `s` begins with `target`, in any case of the letters. -/
def myCompare (s target : List UInt8) : Bool :=
  if s.length < target.length then false
  else (s.zip target).all fun p => decide (Catalog.toLower p.1 = Catalog.toLower p.2)

/-- What `run_query` does with a query. -/
inductive Command where
  | begin (level : IsolationLevel)
  | answer (text : String)
  | commit
  | abort
  /-- `catalog.vacuum` -/
  | vacuum (txId : TxID)
  | execute (commitAtEnd : Bool)
  deriving DecidableEq, Repr

/-- The branches of `run_query`. -/
def runQuery (state : Int) (txId : TxID) (query : List UInt8) : Command :=
  if state = 0 then
    if myCompare query (bytes "BEGIN TRANSACTION") then
      if myCompare query (bytes "BEGIN TRANSACTION SNAPSHOT ISOLATION") then
        .begin .snapshotIsolation
      else .begin .readCommitted
    else if myCompare query (bytes "COMMIT") then
      .answer "There is no active transaction to commit"
    else if myCompare query (bytes "ABORT") then
      .answer "There is no active transaction to abort"
    else if myCompare query (bytes "VACUUM") then .vacuum 0
    else .execute true
  else if state = 1 then
    if myCompare query (bytes "BEGIN TRANSACTION") then
      .answer s!"Already in a transaction with ID: {txId}"
    else if myCompare query (bytes "COMMIT") then .commit
    else if myCompare query (bytes "ABORT") then .abort
    else if myCompare query (bytes "VACUUM") then .vacuum txId
    else .execute false
  else .answer s!"Unknown command : {Catalog.text query}"

/-! ## One session -/

/-- Where a session is. -/
inductive Phase where
  | absent
  /-- `read_header` or `read_query` -/
  | reading
  /-- `execute_query` -/
  | executing (commitAtEnd : Bool)
  /-- `commit_transaction` or `abort_transaction`, called for a command -/
  | ending
  /-- `process_query` has the response -/
  | responding
  /-- `abort_transaction`, called by `handle_abort` -/
  | disconnecting
  /-- over, by way of `handle_abort` -/
  | ended
  /-- over, without `handle_abort` -/
  | failed
  | racing
  deriving DecidableEq, Repr

/-- The two members of `class Session`, and the transactions it has started. -/
structure Session where
  state : Int
  txId : TxID
  phase : Phase
  started : List TxID

/-- Between two requests: only here can the socket fail. -/
def Session.Between (c : Session) : Prop := c.phase = .reading ∨ c.phase = .responding

/-- No handler is left that would go on. -/
def Session.Over (c : Session) : Prop := c.phase = .ended ∨ c.phase = .failed

/-- The steps of a transaction a call may do. -/
def Phase.allows : Phase → Action → Bool
  | .executing _, .start _ => false
  | .executing commitAtEnd, .commit => commitAtEnd
  | .executing _, _ => true
  | .ending, .applyDelta | .ending, .setCommitted | .ending, .releaseLocks
  | .ending, .dropTables | .ending, .erase => true
  | .disconnecting, .setCommitted | .disconnecting, .releaseLocks
  | .disconnecting, .dropTables | .disconnecting, .erase => true
  | _, _ => false

/-- `handle_system_abort`. -/
def handleSystemAbort (state : Int) : Int := if state = 1 then 0 else state

/-- What happens to a session. -/
inductive Event where
  | connect
  | request (query : List UInt8)
  | call (a : Action)
  | done
  | response
  | endOfFile
  | otherError

/-- A session, with the transactions of the server, goes through one event. -/
inductive SessionStep : State → Session → Event → State → Session → Prop
  /-- The constructor sets `state` and leaves `tx_id` as it finds it. -/
  | connect {s : State} {c : Session} (txId : TxID) (hc : c.phase = .absent) :
      SessionStep s c .connect s { c with state := 0, txId := txId, phase := .reading }
  | begin {s s' : State} {c : Session} {query : List UInt8} {level : IsolationLevel}
      (hc : c.phase = .reading) (hq : runQuery c.state c.txId query = .begin level)
      (hstart : Step s (s.globals.catalog.transactionCount, .start level) s') :
      SessionStep s c (.request query) s'
        ⟨1, s.globals.catalog.transactionCount, .responding,
          c.started ++ [s.globals.catalog.transactionCount]⟩
  | answer {s : State} {c : Session} {query : List UInt8} {text : String}
      (hc : c.phase = .reading) (hq : runQuery c.state c.txId query = .answer text) :
      SessionStep s c (.request query) s { c with phase := .responding }
  | vacuum {s : State} {c : Session} {query : List UInt8} {txId : TxID}
      (hc : c.phase = .reading) (hq : runQuery c.state c.txId query = .vacuum txId) :
      SessionStep s c (.request query) s { c with phase := .responding }
  | autocommit {s s' : State} {c : Session} {query : List UInt8}
      (hc : c.phase = .reading) (hq : runQuery c.state c.txId query = .execute true)
      (hstart : Step s (s.globals.catalog.transactionCount, .start .readCommitted) s') :
      SessionStep s c (.request query) s'
        ⟨c.state, s.globals.catalog.transactionCount, .executing true,
          c.started ++ [s.globals.catalog.transactionCount]⟩
  | execute {s : State} {c : Session} {query : List UInt8}
      (hc : c.phase = .reading) (hq : runQuery c.state c.txId query = .execute false) :
      SessionStep s c (.request query) s { c with phase := .executing false }
  | commit {s s' : State} {c : Session} {query : List UInt8}
      (hc : c.phase = .reading) (hq : runQuery c.state c.txId query = .commit)
      (hcommit : Step s (c.txId, .commit) s') :
      SessionStep s c (.request query) s' { c with phase := .ending }
  /-- An error of `commit_transaction` is answered as an internal error. -/
  | commitThrows {s : State} {c : Session} {query : List UInt8} {e : Fault}
      (hc : c.phase = .reading) (hq : runQuery c.state c.txId query = .commit)
      (hthrows : s.globals.commitBegin c.txId = .error e) :
      SessionStep s c (.request query) s { c with phase := .responding }
  | abort {s s' : State} {c : Session} {query : List UInt8}
      (hc : c.phase = .reading) (hq : runQuery c.state c.txId query = .abort)
      (habort : Step s (c.txId, .abort) s') :
      SessionStep s c (.request query) s' { c with phase := .ending }
  | abortThrows {s : State} {c : Session} {query : List UInt8} {e : Fault}
      (hc : c.phase = .reading) (hq : runQuery c.state c.txId query = .abort)
      (hthrows : s.globals.abortBegin c.txId = .error e) :
      SessionStep s c (.request query) s { c with phase := .responding }
  /-- The transaction does a step of the call.  A statement that fails in
  autocommit calls `abort_transaction`. -/
  | call {s s' : State} {c : Session} {a : Action} (ha : c.phase.allows a = true)
      (hstep : Step s (c.txId, a) s') : SessionStep s c (.call a) s' c
  /-- A statement returns, or throws and leaves the transaction. -/
  | statementReturns {s : State} {c : Session} (hc : c.phase = .executing false)
      (hidle : s.threads c.txId = .idle) :
      SessionStep s c .done s { c with phase := .responding }
  /-- The transaction was ended: by the autocommit, whose `state` is 0, or by an
  abort inside the statement. -/
  | statementEnded {s : State} {c : Session} {commitAtEnd : Bool} {ending : Ending}
      (hc : c.phase = .executing commitAtEnd) (hended : s.threads c.txId = .ended ending) :
      SessionStep s c .done s
        { c with state := handleSystemAbort c.state, phase := .responding }
  /-- `COMMIT` and `ABORT` set `state`; a refused commit is a system abort. -/
  | commandEnded {s : State} {c : Session} {ending : Ending} (hc : c.phase = .ending)
      (hended : s.threads c.txId = .ended ending) :
      SessionStep s c .done s
        { c with
          state := if ending = .refused then handleSystemAbort c.state else 0
          phase := .responding }
  | response {s : State} {c : Session} (hc : c.phase = .responding) :
      SessionStep s c .response s { c with phase := .reading }
  /-- `handle_abort`, when there is no such transaction. -/
  | endOfFile {s : State} {c : Session} {e : Fault} (hc : c.Between)
      (hthrows : s.globals.abortBegin c.txId = .error e) :
      SessionStep s c .endOfFile s
        { c with state := handleSystemAbort c.state, phase := .ended }
  /-- `handle_abort`, when there is one. -/
  | endOfFileAborts {s s' : State} {c : Session} (hc : c.Between)
      (habort : Step s (c.txId, .abort) s') :
      SessionStep s c .endOfFile s' { c with phase := .disconnecting }
  | endOfFileRaces {s : State} {c : Session} {tx : Transaction} (hc : c.Between)
      (hbegin : s.globals.abortBegin c.txId = .ok tx) (hbusy : s.threads c.txId ≠ .idle) :
      SessionStep s c .endOfFile s { c with phase := .racing }
  | disconnected {s : State} {c : Session} {ending : Ending} (hc : c.phase = .disconnecting)
      (hended : s.threads c.txId = .ended ending) :
      SessionStep s c .done s
        { c with state := handleSystemAbort c.state, phase := .ended }
  /-- The handlers return. -/
  | otherError {s : State} {c : Session} (hc : c.Between) :
      SessionStep s c .otherError s { c with phase := .failed }

/-! ## The server -/

/-- The transactions and the sessions, each under a number of its own. -/
structure Sessions where
  base : State
  sessions : Nat → Session

/-- Any number of sessions. -/
def server : Machine Sessions (Nat × Event) where
  init v := Opened v.base ∧ ∀ i, (v.sessions i).phase = .absent ∧ (v.sessions i).started = []
  step v l v' := ∃ c', SessionStep v.base (v.sessions l.1) l.2 v'.base c' ∧
    v'.sessions = Function.update v.sessions l.1 c'

end Iic3413Db.Server
