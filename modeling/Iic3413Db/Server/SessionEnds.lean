/-
  Server/SessionEnds.lean --- sessions and their transactions: after a response,
  after an end, and at `handle_abort`.

  `tx_id` has no initial value.  A session that has not started a transaction may
  find another session's id there; in the runs in which no such session ends by
  end of file, everything else follows from what a session knows.
-/
import Iic3413Db.Server.SessionInvariant

set_option autoImplicit false

namespace Iic3413Db.Server

open Iic3413Db.Foundation Iic3413Db.RelationalModel Iic3413Db.Storage
open Iic3413Db.System (Catalog TableId TableInfo TableColumn IsolationLevel TransactionState)

/-! ## A run to start from -/

theorem server_step {v : Sessions} (i : Nat) (e : Event) {base : State} {c : Session}
    (h : SessionStep v.base (v.sessions i) e base c) :
    server.step v (i, e) ⟨base, Function.update v.sessions i c⟩ := ⟨c, h, rfl⟩

theorem calm_reaches {v : Sessions} (hv : calmServer.Reachable v) (i : Nat) (e : Event)
    {base : State} {c : Session} (h : SessionStep v.base (v.sessions i) e base c)
    (he : e ≠ .endOfFile) :
    calmServer.Reachable ⟨base, Function.update v.sessions i c⟩ :=
  .step hv ⟨fun heq => absurd heq he, server_step i e h⟩

/-- A new database, and no session yet. -/
def newServer : Sessions := ⟨opened [] .nil 0, fun _ => ⟨0, 0, .absent, []⟩⟩

theorem newServer_init : server.init newServer :=
  ⟨⟨.nil, by simp [newServer, opened], fun _ => rfl, fun _ => rfl, fun _ => rfl, fun _ => rfl,
    fun _ => rfl, fun _ => rfl⟩, fun _ => ⟨rfl, rfl⟩⟩

/-- A run of two sessions: the first has begun a transaction, and `tx_id` of the
second, which has been told that it has nothing to commit, has the same value. -/
theorem same_id : ∃ v, calmServer.Reachable v ∧ (v.sessions 0).phase = .reading ∧
    (v.sessions 0).started = [1] ∧ (v.sessions 0).state = 1 ∧ (v.sessions 0).txId = 1 ∧
    v.base.threads 1 = .idle ∧ (v.sessions 1).phase = .reading ∧
    (v.sessions 1).started = [] ∧ (v.sessions 1).state = 0 ∧ (v.sessions 1).txId = 1 := by
  have h₁ := calm_reaches (.init newServer_init) 0 .connect (.connect 5 rfl) (by simp)
  have h₂ := calm_reaches h₁ 0 (.request (bytes "begin transaction"))
    (.begin rfl rfl (.start .readCommitted)) (by simp)
  have h₃ := calm_reaches h₂ 0 .response (.response rfl) (by simp)
  have h₄ := calm_reaches h₃ 1 .connect (.connect 1 rfl) (by simp)
  have h₅ := calm_reaches h₄ 1 (.request (bytes "commit")) (.answer rfl rfl) (by simp)
  have h₆ := calm_reaches h₅ 1 .response (.response rfl) (by simp)
  exact ⟨_, h₆, rfl, rfl, rfl, rfl, rfl, rfl, rfl, rfl, rfl⟩

/-! ## After a response -/

/-- The state of a session and its transactions agree. -/
structure Agrees (v : Sessions) (i : Nat) : Prop where
  state : (v.sessions i).state = 1 ↔
    ∃ tx, v.base.globals.activeTransactions (v.sessions i).txId = some tx
  started : (v.sessions i).state = 0 →
    ∀ x ∈ (v.sessions i).started, v.base.globals.activeTransactions x = none

/-- `tx_id` is the id of a transaction the session has started, or no transaction
has the id. -/
def Settled (v : Sessions) (i : Nat) : Prop :=
  (v.sessions i).started ≠ [] ∨
    v.base.globals.activeTransactions (v.sessions i).txId = none

theorem agrees_iff {v : Sessions} (h : calmServer.Reachable v) {i : Nat}
    (hi : (v.sessions i).Between) : Agrees v i ↔ Settled v i := by
  have hok := reachable_serverOk h
  rcases (hok.sessions i).between hi with hfree | hopen
  · have hnone : ∀ x ∈ (v.sessions i).started, v.base.globals.activeTransactions x = none :=
      fun x hx => (hok.base.gone_none (hfree.gone x hx)).1
    constructor
    · intro hagrees
      refine .inr (Option.eq_none_iff_forall_ne_some.mpr fun tx htx => ?_)
      have hone := hagrees.state.mpr ⟨tx, htx⟩
      rw [hfree.state] at hone
      cases hone
    · intro hsettled
      have hgone : v.base.globals.activeTransactions (v.sessions i).txId = none := by
        rcases hsettled with hstarted | hgone
        · exact hnone _ (hfree.last.resolve_left hstarted)
        · exact hgone
      refine ⟨⟨fun hone => ?_, fun ⟨tx, htx⟩ => ?_⟩, fun _ => hnone⟩
      · rw [hfree.state] at hone
        cases hone
      · rw [hgone] at htx
        cases htx
  · have hagrees : Agrees v i := by
      refine ⟨⟨fun _ => hok.base.idle_some hopen.idle, fun _ => hopen.state⟩, fun hzero => ?_⟩
      rw [hopen.state] at hzero
      cases hzero
    exact ⟨fun _ => .inl (List.ne_nil_of_mem hopen.own), fun _ => hagrees⟩

/-- A session with an open transaction. -/
theorem agrees_iff_open : ∃ v, calmServer.Reachable v ∧ (v.sessions 0).started = [1] ∧
    (Agrees v 0 ↔ Settled v 0) := by
  obtain ⟨v, hv, hreading, hstarted, _⟩ := same_id
  exact ⟨v, hv, hstarted, agrees_iff hv (.inl hreading)⟩

/-- The id of a session that has started no transaction may be another's. -/
theorem agrees_fails :
    ¬ ∀ v i, server.Reachable v → (v.sessions i).Between → Agrees v i := by
  intro hall
  obtain ⟨v, hv, _, _, _, _, hidle, hreading, _, hstate, htx⟩ := same_id
  have hagrees := hall v 1 hv.of_restrict (.inl hreading)
  have hone : (v.sessions 1).state = 1 := by
    rw [hagrees.state, htx]
    exact (reachable_serverOk hv).base.idle_some hidle
  rw [hstate] at hone
  cases hone

/-! ## After an end -/

/-- No transaction of the session is active, and no lock is held for one. -/
def NoOrphan (v : Sessions) (i : Nat) : Prop :=
  ∀ x ∈ (v.sessions i).started, v.base.globals.activeTransactions x = none ∧
    ∀ key, v.base.globals.lockTable key ≠ some x

/-- A session that is over has left no transaction exactly when it went by way of
`handle_abort` or had none open. -/
theorem noOrphan_iff {v : Sessions} (h : calmServer.Reachable v) {i : Nat}
    (hi : (v.sessions i).Over) :
    NoOrphan v i ↔ (v.sessions i).phase = .ended ∨ (v.sessions i).state = 0 := by
  have hok := reachable_serverOk h
  have hfree : Free v.base (v.sessions i) → NoOrphan v i :=
    fun hfree x hx => hok.base.gone_none (hfree.gone x hx)
  rcases hi with hended | hfailed
  · have hsession := hok.sessions i
    unfold SessionOk at hsession
    rw [hended] at hsession
    exact ⟨fun _ => .inl hended, fun _ => hfree hsession⟩
  · rcases (hok.sessions i).failed hfailed with hsession | hopen
    · exact ⟨fun _ => .inr hsession.state, fun _ => hfree hsession⟩
    · constructor
      · intro hnone
        obtain ⟨tx, htx⟩ := hok.base.idle_some hopen.idle
        rw [(hnone _ hopen.own).1] at htx
        cases htx
      · rintro (hended | hzero)
        · rw [hfailed] at hended
          cases hended
        · rw [hopen.state] at hzero
          cases hzero

/-- A session that fails with a transaction open. -/
theorem fails_open : ∃ v, calmServer.Reachable v ∧ (v.sessions 0).phase = .failed ∧
    (v.sessions 0).state = 1 := by
  obtain ⟨v, hv, hreading, _, hstate, _⟩ := same_id
  have hfails := calm_reaches hv 0 .otherError (.otherError (.inl hreading)) (by simp)
  exact ⟨_, hfails, by simp, by simp [hstate]⟩

theorem noOrphan_iff_failed : ∃ v, calmServer.Reachable v ∧ (v.sessions 0).phase = .failed ∧
    (NoOrphan v 0 ↔ (v.sessions 0).phase = .ended ∨ (v.sessions 0).state = 0) := by
  obtain ⟨v, hv, hfailed, _⟩ := fails_open
  exact ⟨v, hv, hfailed, noOrphan_iff hv (.inr hfailed)⟩

/-- The connection of a session with an open transaction is reset. -/
theorem noOrphan_fails :
    ¬ ∀ v i, server.Reachable v → (v.sessions i).Over → NoOrphan v i := by
  intro hall
  obtain ⟨v, hv, hfailed, hstate⟩ := fails_open
  have hok := reachable_serverOk hv
  have hopen := Open.of_state ((hok.sessions 0).failed hfailed) hstate
  obtain ⟨tx, htx⟩ := hok.base.idle_some hopen.idle
  have hnone := (hall v 0 hv.of_restrict (.inr hfailed) _ hopen.own).1
  rw [hnone] at htx
  cases htx

/-! ## At `handle_abort` -/

/-- What `handle_abort` passes to `abort_transaction`. -/
def OwnOrNone (v : Sessions) (i : Nat) : Prop :=
  (v.sessions i).txId ∈ (v.sessions i).started ∨
    v.base.globals.activeTransactions (v.sessions i).txId = none

/-- The transactions and the locks of every other session are left. -/
def Spares (v v' : Sessions) (i : Nat) : Prop :=
  ∀ j, j ≠ i → ∀ x ∈ (v.sessions j).started,
    v'.base.globals.activeTransactions x = v.base.globals.activeTransactions x ∧
    ∀ key, v'.base.globals.lockTable key = some x ↔ v.base.globals.lockTable key = some x

theorem SessionStep.between {s s' : State} {c c' : Session}
    (h : SessionStep s c .endOfFile s' c') : c.Between := by
  cases h with
  | endOfFile hc hthrows => exact hc
  | endOfFileAborts hc habort => exact hc
  | endOfFileRaces hc hbegin hbusy => exact hc

/-- In calm runs, ends of file pass a session's own transaction or none, exactly
when they are calm; and no event of a session reaches the others. -/
theorem disconnect_spares {v : Sessions} (h : calmServer.Reachable v) :
    (∀ i v', server.step v (i, .endOfFile) v' → (OwnOrNone v i ↔ Settled v i)) ∧
    ∀ i e v', calmServer.step v (i, e) v' → Spares v v' i := by
  have hok := reachable_serverOk h
  refine ⟨fun i v' hstep => ?_, fun i e v' hstep j hj x hx => ?_⟩
  · obtain ⟨c', hstep, _⟩ := hstep
    have hlast : (v.sessions i).started ≠ [] → (v.sessions i).txId ∈ (v.sessions i).started :=
      fun hne => ((hok.sessions i).between hstep.between).elim
        (fun hfree => hfree.last.resolve_left hne) fun hopen => hopen.own
    exact ⟨fun h => h.imp List.ne_nil_of_mem id, fun h => h.imp hlast id⟩
  · obtain ⟨hcalm, c', hstep, _⟩ := hstep
    obtain ⟨htouches, _⟩ := (hok.sessions i).step hok.base hstep hcalm
    exact ((htouches.frame hok.base).2 x (hok.known j x hx) (hok.apart j i hj x hx)).2

/-- A session with an open transaction may end at once. -/
theorem disconnect_spares_open : ∃ v, calmServer.Reachable v ∧
    (∃ v', server.step v (0, .endOfFile) v' ∧ (v'.sessions 0).phase = .disconnecting) ∧
    (∀ i v', server.step v (i, .endOfFile) v' → (OwnOrNone v i ↔ Settled v i)) ∧
    ∀ i e v', calmServer.step v (i, e) v' → Spares v v' i := by
  obtain ⟨v, hv, hreading, _, _, htx, hidle, _⟩ := same_id
  obtain ⟨tx, hfound⟩ := (reachable_serverOk hv).base.idle_some hidle
  have habort : Step v.base ((v.sessions 0).txId, .abort) _ :=
    .abort_found (by rw [htx, hidle]) (by rw [htx, hfound])
  exact ⟨v, hv, ⟨_, server_step 0 .endOfFile (.endOfFileAborts (.inl hreading) habort), by simp⟩,
    disconnect_spares hv⟩

/-- A session that has started no transaction aborts the one of another. -/
theorem disconnect_aborts_other :
    ¬ ∀ v i v', server.Reachable v → server.step v (i, .endOfFile) v' → OwnOrNone v i := by
  intro hall
  obtain ⟨v, hv, _, _, _, _, hidle, hreading, hstarted, _, htx⟩ := same_id
  obtain ⟨tx, hfound⟩ := (reachable_serverOk hv).base.idle_some hidle
  have habort : Step v.base ((v.sessions 1).txId, .abort) _ :=
    .abort_found (by rw [htx, hidle]) (by rw [htx, hfound])
  have hown := hall v 1 _ hv.of_restrict
    (server_step 1 .endOfFile (.endOfFileAborts (.inl hreading) habort))
  rw [OwnOrNone, hstarted, htx, hfound] at hown
  simp at hown

end Iic3413Db.Server
