/-
  Server/Wire.lean --- `bin/client.cc` and the reads and writes of
  `server/session.cc`: sessions whose queries and answers come as bytes.

  `boost::asio::write`, `read` and `async_read` move some bytes at a time, never
  more than they were asked for.  A connection has a link for each direction, and
  every session goes on with the steps of `Server/Session.lean`: the wire says
  when a request is there, when an answer has left and when the file has ended.
-/
import Iic3413Db.Foundation.Framing
import Iic3413Db.Server.Session

set_option autoImplicit false

namespace Iic3413Db.Server

open Iic3413Db.Foundation

/-! ## One connection -/

/-- `sizeof(uint32_t)`. -/
def headerSize : Nat := 4

/-- Where `main` of the client is: between two queries, or in one of the two calls. -/
inductive ClientPhase where
  | absent
  | ready
  /-- `send_query` -/
  | sending
  /-- `receive_response` -/
  | receiving
  deriving DecidableEq, Repr

/-- What a session does with its socket. -/
inductive SocketPhase where
  /-- `read_header` and `read_query` -/
  | reading
  /-- `run_query` -/
  | processing
  /-- the `write` of `process_query` -/
  | writing
  deriving DecidableEq, Repr

/-- A connection, with what has gone over it. -/
structure Connection where
  client : ClientPhase
  /-- the client has closed its socket -/
  closed : Bool
  socket : SocketPhase
  toServer : Link
  toClient : Link
  /-- the queries the client has sent -/
  sent : List (List UInt8)
  /-- the queries `run_query` was called for -/
  processed : List (List UInt8)
  /-- the responses of `process_query` -/
  responses : List (List UInt8)
  /-- the responses the client has received -/
  received : List (List UInt8)

def Connection.fresh : Connection :=
  ⟨.absent, false, .reading, .fresh, .fresh, [], [], [], []⟩

/-- What happens to a connection. -/
inductive WireEvent where
  | connect
  | send (query : List UInt8)
  | clientWrites (n : Nat)
  | sent
  | clientReads (n : Nat)
  | receive (response : List UInt8)
  | close
  | sessionReads (n : Nat)
  | respond (response : List UInt8)
  | sessionWrites (n : Nat)
  | session (e : Event)

/-- A connection goes through one event, while its session is where it is. -/
inductive ConnectionStep (c : Session) : Connection → WireEvent → Connection → Prop
  | connect {w : Connection} (hw : w.client = .absent) :
      ConnectionStep c w .connect { w with client := .ready }
  | send {w : Connection} {query : List UInt8} (hw : w.client = .ready)
      (hopen : w.closed = false) :
      ConnectionStep c w (.send query)
        { w with
          client := .sending
          toServer := w.toServer.send headerSize query
          sent := w.sent ++ [query] }
  | clientWrites {w : Connection} {n : Nat} (hw : w.client = .sending)
      (hopen : w.closed = false) (hn : w.toServer.Writable n) :
      ConnectionStep c w (.clientWrites n) { w with toServer := w.toServer.write n }
  | sent {w : Connection} (hw : w.client = .sending) (hopen : w.closed = false)
      (hsent : w.toServer.unsent = []) :
      ConnectionStep c w .sent { w with client := .receiving }
  | clientReads {w : Connection} {n : Nat} (hw : w.client = .receiving)
      (hopen : w.closed = false) (hn : w.toClient.Readable headerSize n) :
      ConnectionStep c w (.clientReads n) { w with toClient := w.toClient.read headerSize n }
  | receive {w : Connection} {response : List UInt8} (hw : w.client = .receiving)
      (hopen : w.closed = false) (hdone : w.toClient.reader.done = some response) :
      ConnectionStep c w (.receive response)
        { w with
          client := .ready
          toClient := w.toClient.next
          received := w.received ++ [response] }
  /-- `exit`, the end of the input, an exception of a call, or a signal. -/
  | close {w : Connection} : ConnectionStep c w .close { w with closed := true }
  | sessionReads {w : Connection} {n : Nat} (hc : c.phase = .reading)
      (hw : w.socket = .reading) (hn : w.toServer.Readable headerSize n) :
      ConnectionStep c w (.sessionReads n) { w with toServer := w.toServer.read headerSize n }
  | respond {w : Connection} {response : List UInt8} (hc : c.phase = .responding)
      (hw : w.socket = .processing) :
      ConnectionStep c w (.respond response)
        { w with
          socket := .writing
          toClient := w.toClient.send headerSize response
          responses := w.responses ++ [response] }
  | sessionWrites {w : Connection} {n : Nat} (hc : c.phase = .responding)
      (hw : w.socket = .writing) (hn : w.toClient.Writable n) :
      ConnectionStep c w (.sessionWrites n) { w with toClient := w.toClient.write n }
  /-- `async_accept` -/
  | accept {w : Connection} (hw : w.client ≠ .absent) :
      ConnectionStep c w (.session .connect) w
  | request {w : Connection} {query : List UInt8} (hw : w.socket = .reading)
      (hdone : w.toServer.reader.done = some query) :
      ConnectionStep c w (.session (.request query))
        { w with
          socket := .processing
          toServer := w.toServer.next
          processed := w.processed ++ [query] }
  | call {w : Connection} {a : Action} : ConnectionStep c w (.session (.call a)) w
  | done {w : Connection} : ConnectionStep c w (.session .done) w
  | response {w : Connection} (hw : w.socket = .writing) (hsent : w.toClient.unsent = []) :
      ConnectionStep c w (.session .response) { w with socket := .reading }
  /-- There is no byte left to read, and there will be none. -/
  | endOfFile {w : Connection} (hw : w.socket = .reading) (hclosed : w.closed = true)
      (hread : w.toServer.inFlight = []) (hdone : w.toServer.reader.done = none) :
      ConnectionStep c w (.session .endOfFile) w
  | endOfFileOnWrite {w : Connection} (hw : w.socket = .writing) :
      ConnectionStep c w (.session .endOfFile) w
  | otherError {w : Connection} (hw : w.socket ≠ .processing) :
      ConnectionStep c w (.session .otherError) w

/-! ## All connections -/

/-- The server, and a connection for each session. -/
structure Wires where
  server : Sessions
  connections : Nat → Connection

/-- Only the events of a session are steps of the server. -/
def ServerMoves (i : Nat) : WireEvent → Sessions → Sessions → Prop
  | .session e, v, v' => server.step v (i, e) v'
  | _, v, v' => v' = v

/-- Any number of clients and sessions. -/
def wires : Machine Wires (Nat × WireEvent) where
  init v := server.init v.server ∧ ∀ i, v.connections i = .fresh
  step v l v' := ServerMoves l.1 l.2 v.server v'.server ∧
    ∃ w', ConnectionStep (v.server.sessions l.1) (v.connections l.1) l.2 w' ∧
      v'.connections = Function.update v.connections l.1 w'

/-- What is on the wire is the server of `Server/Session.lean`. -/
theorem server_reachable {v : Wires} (h : wires.Reachable v) : server.Reachable v.server := by
  induction h with
  | init hv => exact .init hv.1
  | @step v v' l _ hstep ih =>
      obtain ⟨i, e⟩ := l
      obtain ⟨hmoves, _⟩ := hstep
      cases e with
      | session e => exact .step ih hmoves
      | connect | send | clientWrites | sent | clientReads | receive | close | sessionReads
      | respond | sessionWrites =>
          have hsame : v'.server = v.server := hmoves
          rw [hsame]
          exact ih

/-! ## What a connection is doing -/

/-- Nothing is asked. -/
structure Idle (w : Connection) : Prop where
  client : w.client = .absent ∨ w.client = .ready
  socket : w.socket = .reading ∨ w.socket = .writing
  toServer : w.toServer = .fresh
  toClient : w.toClient = .fresh
  processed : w.processed = w.sent
  received : w.received = w.responses
  answered : w.responses.length = w.processed.length

/-- A query is on its way. -/
structure Asking (query : List UInt8) (w : Connection) : Prop where
  client : w.client = .sending ∨ w.client = .receiving ∧ w.toServer.unsent = []
  socket : w.socket = .reading ∨ w.socket = .writing
  toServer : w.toServer.Carries headerSize query
  toClient : w.toClient = .fresh
  processed : w.processed ++ [query] = w.sent
  received : w.received = w.responses
  answered : w.responses.length = w.processed.length

/-- The server has the query. -/
structure Working (w : Connection) : Prop where
  client : w.client = .sending ∨ w.client = .receiving
  socket : w.socket = .processing
  toServer : w.toServer = .fresh
  toClient : w.toClient = .fresh
  processed : w.processed = w.sent
  received : w.received = w.responses
  answered : w.responses.length + 1 = w.processed.length

/-- A response is on its way. -/
structure Answering (response : List UInt8) (w : Connection) : Prop where
  client : w.client = .sending ∨ w.client = .receiving
  socket : w.socket = .writing ∨ w.socket = .reading ∧ w.toClient.unsent = []
  toServer : w.toServer = .fresh
  toClient : w.toClient.Carries headerSize response
  processed : w.processed = w.sent
  received : w.received ++ [response] = w.responses
  answered : w.responses.length = w.processed.length

/-- Every message fits its header. -/
def Short (w : Connection) : Prop :=
  (∀ query ∈ w.sent, query.length < 256 ^ headerSize) ∧
    ∀ response ∈ w.responses, response.length < 256 ^ headerSize

/-- The four turns of a connection. -/
inductive Turn (w : Connection) : Prop
  | idle (h : Idle w)
  | asking (query : List UInt8) (h : Asking query w)
  | working (h : Working w)
  | answering (response : List UInt8) (h : Answering response w)

/-- The socket is used as the session says. -/
def InPhase : Phase → SocketPhase → Prop
  | .absent, p | .reading, p => p = .reading
  | .executing _, p | .ending, p => p = .processing
  | .responding, p => p ≠ .reading
  | .disconnecting, _ | .ended, _ | .failed, _ | .racing, _ => True

end Iic3413Db.Server
