/-
  Server/WireRuns.lean --- queries and answers keep their order, and bytes that can
  move do not move forever.
-/
import Iic3413Db.Server.SessionEnds
import Iic3413Db.Server.Wire

set_option autoImplicit false

namespace Iic3413Db.Server

open Iic3413Db.Foundation

/-! ## What a step does to the history -/

section Steps

variable {c c' : Session} {s s' : State} {w w' : Connection} {e : WireEvent}

theorem ConnectionStep.history (h : ConnectionStep c w e w') :
    w.sent <+: w'.sent ∧ w.responses <+: w'.responses := by
  cases h with
  | send => exact ⟨List.prefix_append _ _, List.prefix_refl _⟩
  | respond => exact ⟨List.prefix_refl _, List.prefix_append _ _⟩
  | _ => exact ⟨List.prefix_refl _, List.prefix_refl _⟩

theorem Short.before (h : ConnectionStep c w e w') (hshort : Short w') : Short w := by
  obtain ⟨hsent, hresponses⟩ := h.history
  exact ⟨fun q hq => hshort.1 q (hsent.subset hq), fun r hr => hshort.2 r (hresponses.subset hr)⟩

/-! ## The turns -/

theorem Idle.reader (h : Idle w) : w.toServer.reader.done = none := by
  rw [h.toServer]
  rfl

theorem Answering.reader {response : List UInt8} (h : Answering response w) :
    w.toServer.reader.done = none := by
  rw [h.toServer]
  rfl

/-- A query that is asked fits, and so does a response. -/
theorem Asking.short {query : List UInt8} (h : Asking query w) (hshort : Short w) :
    query.length < 256 ^ headerSize :=
  hshort.1 query (by rw [← h.processed]; exact List.mem_append_right _ List.mem_cons_self)

theorem Answering.short {response : List UInt8} (h : Answering response w) (hshort : Short w) :
    response.length < 256 ^ headerSize :=
  hshort.2 response (by rw [← h.received]; exact List.mem_append_right _ List.mem_cons_self)

/-- Every event leads from one turn to the same or the next one. -/
theorem Turn.step (hstep : ConnectionStep c w e w') (hshort : Short w) (h : Turn w) :
    Turn w' := by
  cases hstep with
  | connect hw =>
      cases h with
      | idle h => exact .idle { h with client := .inr rfl }
      | asking q h => rcases h.client with hc | ⟨hc, _⟩ <;> rw [hw] at hc <;> cases hc
      | working h => rcases h.client with hc | hc <;> rw [hw] at hc <;> cases hc
      | answering r h => rcases h.client with hc | hc <;> rw [hw] at hc <;> cases hc
  | @send query hw hopen =>
      cases h with
      | idle h =>
          have hlink : (w.toServer.send headerSize query).Carries headerSize query := by
            rw [h.toServer]
            exact Link.send_carries (by decide)
          exact .asking query ⟨.inl rfl, h.socket, hlink, h.toClient, by rw [h.processed],
            h.received, h.answered⟩
      | asking q h => rcases h.client with hc | ⟨hc, _⟩ <;> rw [hw] at hc <;> cases hc
      | working h => rcases h.client with hc | hc <;> rw [hw] at hc <;> cases hc
      | answering r h => rcases h.client with hc | hc <;> rw [hw] at hc <;> cases hc
  | clientWrites hw hopen hn =>
      cases h with
      | idle h => exact absurd (h.toServer ▸ hn) Link.fresh_not_writable
      | asking q h =>
          exact .asking q { h with client := .inl hw, toServer := h.toServer.write }
      | working h => exact absurd (h.toServer ▸ hn) Link.fresh_not_writable
      | answering r h => exact absurd (h.toServer ▸ hn) Link.fresh_not_writable
  | sent hw hopen hsent =>
      cases h with
      | idle h => rcases h.client with hc | hc <;> rw [hw] at hc <;> cases hc
      | asking q h => exact .asking q { h with client := .inr ⟨rfl, hsent⟩ }
      | working h => exact .working { h with client := .inr rfl }
      | answering r h => exact .answering r { h with client := .inr rfl }
  | clientReads hw hopen hn =>
      cases h with
      | idle h => exact absurd (h.toClient ▸ hn) Link.fresh_not_readable
      | asking q h => exact absurd (h.toClient ▸ hn) Link.fresh_not_readable
      | working h => exact absurd (h.toClient ▸ hn) Link.fresh_not_readable
      | answering r h => exact .answering r { h with toClient := h.toClient.read hn }
  | @receive response hw hopen hdone =>
      cases h with
      | idle h =>
          rw [h.toClient] at hdone
          cases hdone
      | asking q h =>
          rw [h.toClient] at hdone
          cases hdone
      | working h =>
          rw [h.toClient] at hdone
          cases hdone
      | answering r h =>
          obtain ⟨rfl, hnext⟩ := h.toClient.done (h.short hshort) hdone
          exact .idle ⟨.inr rfl, h.socket.symm.imp And.left id, h.toServer, hnext, h.processed,
            h.received, h.answered⟩
  | close =>
      cases h with
      | idle h => exact .idle { h with }
      | asking q h => exact .asking q { h with }
      | working h => exact .working { h with }
      | answering r h => exact .answering r { h with }
  | sessionReads hc hw hn =>
      cases h with
      | idle h => exact absurd (h.toServer ▸ hn) Link.fresh_not_readable
      | asking q h =>
          exact .asking q { h with toServer := h.toServer.read hn }
      | working h => exact absurd (h.toServer ▸ hn) Link.fresh_not_readable
      | answering r h => exact absurd (h.toServer ▸ hn) Link.fresh_not_readable
  | @respond response hc hw =>
      cases h with
      | idle h => rcases h.socket with hs | hs <;> rw [hw] at hs <;> cases hs
      | asking q h => rcases h.socket with hs | hs <;> rw [hw] at hs <;> cases hs
      | working h =>
          have hlink : (w.toClient.send headerSize response).Carries headerSize response := by
            rw [h.toClient]
            exact Link.send_carries (by decide)
          exact .answering response ⟨h.client, .inl rfl, h.toServer, hlink, h.processed,
            by rw [h.received], by rw [← h.answered, List.length_append, List.length_singleton]⟩
      | answering r h => rcases h.socket with hs | ⟨hs, _⟩ <;> rw [hw] at hs <;> cases hs
  | sessionWrites hc hw hn =>
      cases h with
      | idle h => exact absurd (h.toClient ▸ hn) Link.fresh_not_writable
      | asking q h => exact absurd (h.toClient ▸ hn) Link.fresh_not_writable
      | working h => exact absurd (h.toClient ▸ hn) Link.fresh_not_writable
      | answering r h =>
          exact .answering r { h with socket := .inl hw, toClient := h.toClient.write }
  | @request query hw hdone =>
      cases h with
      | idle h =>
          rw [h.reader] at hdone
          cases hdone
      | asking q h =>
          obtain ⟨rfl, hnext⟩ := h.toServer.done (h.short hshort) hdone
          exact .working ⟨h.client.imp id And.left, rfl, hnext, h.toClient, h.processed,
            h.received, by rw [h.answered, List.length_append, List.length_singleton]⟩
      | working h =>
          have hs := h.socket
          rw [hw] at hs
          cases hs
      | answering r h =>
          rw [h.reader] at hdone
          cases hdone
  | response hw hsent =>
      cases h with
      | idle h => exact .idle { h with socket := .inl rfl }
      | asking q h => exact .asking q { h with socket := .inl rfl }
      | working h =>
          have hs := h.socket
          rw [hw] at hs
          cases hs
      | answering r h => exact .answering r { h with socket := .inr ⟨rfl, hsent⟩ }
  | accept | call | done | endOfFile | endOfFileOnWrite | otherError => exact h

/-! ## The socket and the session -/

/-- An event of the session and what it does to the socket go together. -/
theorem InPhase.event {e : Event} (hsession : SessionStep s c e s' c')
    (hstep : ConnectionStep c w (.session e) w') (h : InPhase c.phase w.socket) :
    InPhase c'.phase w'.socket := by
  cases hsession with
  | connect txId hc =>
      cases hstep
      rw [hc] at h
      exact h
  | begin | answer | vacuum | commitThrows | abortThrows =>
      cases hstep
      exact fun heq => by cases heq
  | autocommit | execute | commit | abort =>
      cases hstep
      rfl
  | call =>
      cases hstep
      exact h
  | statementReturns hc =>
      cases hstep
      rw [hc] at h
      exact fun heq => by rw [h] at heq; cases heq
  | statementEnded hc =>
      cases hstep
      rw [hc] at h
      exact fun heq => by rw [h] at heq; cases heq
  | commandEnded hc =>
      cases hstep
      rw [hc] at h
      exact fun heq => by rw [h] at heq; cases heq
  | response =>
      cases hstep
      rfl
  | endOfFile | endOfFileAborts | endOfFileRaces | disconnected | otherError => trivial

/-- The other events leave the session. -/
theorem InPhase.wire (hstep : ConnectionStep c w e w') (he : ∀ e', e ≠ .session e')
    (h : InPhase c.phase w.socket) : InPhase c.phase w'.socket := by
  cases hstep with
  | respond hc hw =>
      rw [hc]
      exact fun heq => by cases heq
  | accept | request | call | done | response | endOfFile | endOfFileOnWrite | otherError =>
      exact absurd rfl (he _)
  | _ => exact h

end Steps

/-! ## Runs -/

/-- What holds of every connection. -/
structure ConnectionOk (v : Wires) (i : Nat) : Prop where
  phase : InPhase (v.server.sessions i).phase (v.connections i).socket
  turn : Short (v.connections i) → Turn (v.connections i)

theorem fresh_turn : Turn .fresh :=
  .idle ⟨.inl rfl, .inl rfl, rfl, rfl, rfl, rfl, rfl⟩

theorem connectionOk_step {v v' : Wires} {l : Nat × WireEvent} (hstep : wires.step v l v')
    (h : ∀ i, ConnectionOk v i) (i : Nat) : ConnectionOk v' i := by
  obtain ⟨j, e⟩ := l
  obtain ⟨hmoves, w', hconnection, hconnections⟩ := hstep
  have hother : i ≠ j → v'.connections i = v.connections i := fun hne => by
    rw [hconnections, Function.update_of_ne hne]
  have hself : v'.connections j = w' := by rw [hconnections, Function.update_self]
  have hturn : Short (v'.connections i) → Turn (v'.connections i) := by
    by_cases hne : i = j
    · subst hne
      rw [hself]
      exact fun hshort => ((h i).turn (hshort.before hconnection)).step hconnection
        (hshort.before hconnection)
    · rw [hother hne]
      exact (h i).turn
  refine ⟨?_, hturn⟩
  by_cases hsession : ∃ e', e = .session e'
  · obtain ⟨e', rfl⟩ := hsession
    obtain ⟨c', hsession, hsessions⟩ := hmoves
    rw [hsessions]
    by_cases hne : i = j
    · subst hne
      rw [hself, Function.update_self]
      exact (h i).phase.event hsession hconnection
    · rw [hother hne, Function.update_of_ne hne]
      exact (h i).phase
  · have hnot : ∀ e', e ≠ .session e' := fun e' heq => hsession ⟨e', heq⟩
    have hserver : v'.server = v.server := by
      cases e with
      | session e' => exact absurd rfl (hnot e')
      | _ => exact hmoves
    rw [hserver]
    by_cases hne : i = j
    · subst hne
      rw [hself]
      exact (h i).phase.wire hconnection hnot
    · rw [hother hne]
      exact (h i).phase

theorem connectionOk {v : Wires} (h : wires.Reachable v) (i : Nat) : ConnectionOk v i := by
  have hinit : ∀ v, wires.init v → ∀ i, ConnectionOk v i := by
    rintro v ⟨⟨_, habsent⟩, hfresh⟩ i
    refine ⟨?_, fun _ => ?_⟩
    · rw [(habsent i).1, hfresh i]
      rfl
    · rw [hfresh i]
      exact fresh_turn
  exact h.invariant hinit (fun v l v' hv hstep => connectionOk_step hstep hv) i

/-- A step of a connection that leaves the server. -/
theorem wires_step {v : Wires} {i : Nat} {e : WireEvent} {w' : Connection}
    (h : ConnectionStep (v.server.sessions i) (v.connections i) e w')
    (he : ∀ e', e ≠ .session e') :
    wires.step v (i, e) ⟨v.server, Function.update v.connections i w'⟩ := by
  refine ⟨?_, w', h, rfl⟩
  cases e with
  | session e' => exact absurd rfl (he e')
  | _ => rfl

/-- A step of a connection and its session. -/
theorem wires_session {v : Wires} {i : Nat} {e : Event} {base : State} {c' : Session}
    {w' : Connection} (hsession : SessionStep v.server.base (v.server.sessions i) e base c')
    (h : ConnectionStep (v.server.sessions i) (v.connections i) (.session e) w') :
    wires.step v (i, .session e) ⟨⟨base, Function.update v.server.sessions i c'⟩,
      Function.update v.connections i w'⟩ :=
  ⟨⟨c', hsession, rfl⟩, w', h, rfl⟩

/-- A new database, and nobody connected. -/
def newWires : Wires := ⟨newServer, fun _ => .fresh⟩

/-- A client that sends `COMMIT` to a session. -/
def commitSent : Wires :=
  ⟨⟨newServer.base, Function.update newServer.sessions 0 ⟨0, 0, .reading, []⟩⟩,
    Function.update newWires.connections 0
      ⟨.sending, false, .reading, Link.fresh.send headerSize (bytes "COMMIT"), .fresh,
        [bytes "COMMIT"], [], [], []⟩⟩

theorem commitSent_reachable : wires.Reachable commitSent := by
  have hinit : wires.Reachable newWires := .init ⟨newServer_init, fun _ => rfl⟩
  have hconnect := hinit.step (wires_step (i := 0) (.connect rfl) (by simp))
  have haccept := hconnect.step (wires_session (i := 0) (.connect 0 rfl) (.accept (by simp)))
  have hsend := haccept.step (wires_step (i := 0) (e := .send (bytes "COMMIT")) (.send rfl rfl)
    (by simp))
  simpa [commitSent, newWires, newServer, Connection.fresh] using hsend

/-! ## Order -/

/-- Queries and responses alternate, and none is lost, made up, doubled or reordered. -/
structure InOrder (w : Connection) : Prop where
  processed : w.processed <+: w.sent
  received : w.received <+: w.responses
  answered : w.responses.length ≤ w.processed.length
  outstanding : w.sent.length ≤ w.received.length + 1
  /-- when the client may ask again, nothing of the last exchange is left -/
  settled : w.client = .ready → w.processed = w.sent ∧ w.received = w.responses ∧
    w.responses.length = w.sent.length ∧ w.toServer = .fresh ∧ w.toClient = .fresh

theorem Turn.inOrder {w : Connection} (h : Turn w) : InOrder w := by
  cases h with
  | idle h =>
      have hlength : w.responses.length = w.sent.length := by rw [h.answered, h.processed]
      refine ⟨by rw [h.processed], by rw [h.received], le_of_eq h.answered, ?_,
        fun _ => ⟨h.processed, h.received, hlength, h.toServer, h.toClient⟩⟩
      rw [h.received, hlength]
      exact Nat.le_succ _
  | asking q h =>
      refine ⟨⟨[q], h.processed⟩, by rw [h.received], le_of_eq h.answered, ?_, fun hready => ?_⟩
      · rw [h.received, h.answered, ← h.processed, List.length_append, List.length_singleton]
      · rcases h.client with hc | ⟨hc, _⟩ <;> rw [hready] at hc <;> cases hc
  | working h =>
      refine ⟨by rw [h.processed], by rw [h.received], ?_, ?_, fun hready => ?_⟩
      · rw [← h.answered]
        exact Nat.le_succ _
      · rw [h.received, h.answered, h.processed]
      · rcases h.client with hc | hc <;> rw [hready] at hc <;> cases hc
  | answering r h =>
      refine ⟨by rw [h.processed], ⟨[r], h.received⟩, le_of_eq h.answered, ?_, fun hready => ?_⟩
      · rw [← h.processed, ← h.answered, ← h.received, List.length_append, List.length_singleton]
      · rcases h.client with hc | hc <;> rw [hready] at hc <;> cases hc

/-- In every run of the clients and the server, however the bytes are cut. -/
theorem queries_in_order {v : Wires} (h : wires.Reachable v) (i : Nat)
    (hshort : Short (v.connections i)) : InOrder (v.connections i) :=
  ((connectionOk h i).turn hshort).inOrder

theorem commitSent_short : Short (commitSent.connections 0) := by
  have hself : commitSent.connections 0 = ⟨.sending, false, .reading,
      Link.fresh.send headerSize (bytes "COMMIT"), .fresh, [bytes "COMMIT"], [], [], []⟩ := by
    simp [commitSent]
  rw [hself]
  exact ⟨by decide, by simp⟩

theorem queries_in_order_commit : InOrder (commitSent.connections 0) :=
  queries_in_order commitSent_reachable 0 commitSent_short

/-! ## Progress -/

/-- The events that move what is sent. -/
def Transfer : WireEvent → Prop
  | .clientWrites _ | .sent | .clientReads _ | .receive _ | .sessionReads _ | .sessionWrites _
  | .session .response => True
  | _ => False

end Iic3413Db.Server
