/-
  Server/Rollback.lean --- from the first transaction to the end of
  `~TransactionManager`: an undo finds the tables of its write set.

  A write set stores table ids.  `uses` is the history behind it: for each
  transaction the keys it wrote or asked a lock for, each with the table whose heap
  file it used.  `main` joins the threads before it destroys `System`, so the
  destructor begins when no transaction is inside a call.  It does with each of
  the transactions that are left what `_abort_transaction` does, in another order;
  the state it comes to is one that four steps of that transaction come to.
-/
import Iic3413Db.Server.Endings

set_option autoImplicit false

namespace Iic3413Db.Server

open Iic3413Db.Foundation Iic3413Db.RelationalModel Iic3413Db.Storage
open Iic3413Db.System (Catalog TableId TableInfo TableColumn IsolationLevel TransactionState)

/-! ## The destructor -/

/-- `to_string(table_id) + "_" + table_name + ".tbl"`. -/
def fileName (info : TableInfo) : List UInt8 :=
  (toString info.tableId).toList.map (fun c => UInt8.ofNat c.toNat) ++ [95] ++ info.name ++
    [46, 116, 98, 108]

/-- One pass of the loop of `~TransactionManager`. -/
def Globals.destroyOne (g : Globals) (txId : TxID) (tx : Transaction) : Outcome Globals :=
  if tx.state = .committed then .ok g
  else do
    g.undoAll tx tx.firstRids
    let g := g.releaseAllLocks tx
    let g := { g with catalog := g.catalog.abortInProgressTables txId }
    .ok (g.setState txId tx .committed)

/-- How far `main` is. -/
inductive ProcessPhase where
  /-- the threads run -/
  | serving
  /-- in the loop of `~TransactionManager`, these transactions still to come -/
  | closing (left : List TxID)
  /-- `active_transactions` is cleared -/
  | closed
  deriving DecidableEq, Repr

/-- The server, the history of its write sets, and `main`. -/
structure Process where
  server : State
  uses : TxID → List (TupleKey × TableInfo)
  phase : ProcessPhase

/-- No call is running. -/
def Thread.Resting : Thread → Prop
  | .absent | .idle | .ended _ => True
  | _ => False

/-- What a step of the process does. -/
inductive ProcessEvent where
  | call (txId : TxID) (action : Action)
  | destroy
  | destroyOne
  | clear

/-- The key a step asks for. -/
def Action.key : Action → Option TupleKey
  | .insertRecord key | .lock key => some key
  | _ => none

/-- A transaction does one step, or the destructor does. -/
inductive ProcessStep : Process → ProcessEvent → Process → Prop
  | call {p : Process} {txId : TxID} {action : Action} {server : State}
      (hphase : p.phase = .serving) (hkey : action.key = none)
      (hstep : Step p.server (txId, action) server) :
      ProcessStep p (.call txId action) { p with server := server }
  /-- The table was looked up by the transaction, and has its id from the heap
  file. -/
  | use {p : Process} {txId : TxID} {action : Action} {server : State} {key : TupleKey}
      {info : TableInfo} (hphase : p.phase = .serving) (hkey : action.key = some key)
      (hstep : Step p.server (txId, action) server)
      (hinfo : info ∈ p.server.globals.catalog.tables.entries ∨
        info ∈ p.server.globals.catalog.inProcessTables txId)
      (hid : info.tableId = key.tableId) :
      ProcessStep p (.call txId action)
        { p with
          server := server
          uses := Function.update p.uses txId (p.uses txId ++ [(key, info)]) }
  /-- In the order of an `unordered_map`, which is any order. -/
  | destroy {p : Process} {left : List TxID} (hphase : p.phase = .serving)
      (hjoined : ∀ x, (p.server.threads x).Resting) (hnodup : left.Nodup)
      (hleft : ∀ x, x ∈ left ↔ (p.server.globals.activeTransactions x).isSome) :
      ProcessStep p .destroy { p with phase := .closing left }
  | destroyOne {p : Process} {txId : TxID} {left : List TxID} {tx : Transaction} {g : Globals}
      (hphase : p.phase = .closing (txId :: left))
      (htx : p.server.globals.activeTransactions txId = some tx)
      (h : p.server.globals.destroyOne txId tx = .ok g) :
      ProcessStep p .destroyOne
        { p with server := { p.server with globals := g }, phase := .closing left }
  | clear {p : Process} (hphase : p.phase = .closing []) :
      ProcessStep p .clear
        { p with
          server := { p.server with
            globals := { p.server.globals with activeTransactions := fun _ => none } }
          phase := .closed }

/-- The life of the server process. -/
def process : Machine Process ProcessEvent where
  init p := Opened p.server ∧ (∀ x, p.uses x = []) ∧ p.phase = .serving
  step := ProcessStep

/-- `Transaction::abort` runs for `x`, or is about to. -/
def Process.Aborting (p : Process) (x : TxID) : Prop :=
  p.phase = .serving ∧ (∃ ending, p.server.threads x = .undoing ending) ∨
  ∃ left tx, p.phase = .closing (x :: left) ∧
    p.server.globals.activeTransactions x = some tx ∧ tx.state ≠ .committed

/-! ## What a transaction remembers -/

/-- The tables and the write set of the transaction are as it left them. -/
def Thread.Holding (t : Thread) : Prop := t.ending = none ∨ ∃ ending, t = .undoing ending

/-- A table is still there for the transaction. -/
def Sees (c : Catalog) (x : TxID) (info : TableInfo) : Prop :=
  ∃ j, (j ∈ c.tables.entries ∨ j ∈ c.inProcessTables x) ∧ SameTable j info

/-- The history of a transaction's write set is true. -/
structure Remembered (s : State) (uses : List (TupleKey × TableInfo)) (x : TxID) : Prop where
  tables : ∀ key info, (key, info) ∈ uses →
    info.tableId = key.tableId ∧ Sees s.globals.catalog x info
  writes : ∀ tx, s.globals.activeTransactions x = some tx → ∀ key ∈ tx.firstRids,
    ∃ info, (key, info) ∈ uses
  waiting : ∀ key, s.threads x = .waiting key → ∃ info, (key, info) ∈ uses

/-- A step of another transaction. -/
theorem Remembered.frame {s s' : State} {txId x : TxID} {uses : List (TupleKey × TableInfo)}
    (hf : Frame txId s s') (hx : x ≠ txId) (h : Remembered s uses x) : Remembered s' uses x where
  tables key info hused := by
    obtain ⟨hid, j, hj, hsame⟩ := h.tables key info hused
    refine ⟨hid, ?_⟩
    rcases hj with hj | hj
    · obtain ⟨k, hk, hsame'⟩ := hf.kept j hj
      exact ⟨k, .inl hk, hsame'.trans hsame⟩
    · exact ⟨j, .inr (by rw [hf.inProcess x hx]; exact hj), hsame⟩
  writes tx htx := h.writes tx (by rw [← hf.entries x hx]; exact htx)
  waiting key ht := h.waiting key (by rw [← hf.threads x hx]; exact ht)

/-- What a step of `x` leaves of its own tables and its write set, unless it begins
to take them away. -/
structure OwnStep (s s' : State) (x : TxID) (a : Action) : Prop where
  holding : (s.threads x).Holding
  inProcess : ∀ i ∈ s.globals.catalog.inProcessTables x,
    i ∈ s'.globals.catalog.inProcessTables x
  writes : ∀ tx', s'.globals.activeTransactions x = some tx' → ∀ key ∈ tx'.firstRids,
    (∃ tx, s.globals.activeTransactions x = some tx ∧ key ∈ tx.firstRids) ∨
      a.key = some key ∨ s.threads x = .waiting key
  waiting : ∀ key, s'.threads x = .waiting key → s.threads x = .waiting key ∨ a.key = some key

section Own

variable {s s' : State} {x : TxID} {a : Action}

/-- The catalog and the entry are as they were. -/
theorem OwnStep.of_globals {g : Globals} {t : Thread} (hholding : (s.threads x).Holding)
    (hprocess : g.catalog.inProcessTables = s.globals.catalog.inProcessTables)
    (hentry : g.activeTransactions x = s.globals.activeTransactions x)
    (hwaiting : ∀ key, t = .waiting key → s.threads x = .waiting key ∨ a.key = some key) :
    OwnStep s (s.advance x g t) x a where
  holding := hholding
  inProcess i hi := by
    show i ∈ g.catalog.inProcessTables x
    rw [hprocess]
    exact hi
  writes tx' htx' key hkey := .inl ⟨tx', hentry.symm.trans htx', hkey⟩
  waiting key ht := hwaiting key (by rw [← ht, State.advance_self])

theorem OwnStep.setThread {t : Thread} (hholding : (s.threads x).Holding)
    (hwaiting : ∀ key, t = .waiting key → s.threads x = .waiting key ∨ a.key = some key) :
    OwnStep s (s.setThread x t) x a :=
  .of_globals hholding rfl rfl hwaiting

/-- The write set grows by one key. -/
theorem OwnStep.grow {g : Globals} {key : TupleKey} (hholding : (s.threads x).Holding)
    (hwider : s.globals.Wider x g)
    (hkeys : ∃ tx tx', s.globals.activeTransactions x = some tx ∧
      g.activeTransactions x = some tx' ∧ ∀ k, k ∈ tx'.firstRids ↔ k = key ∨ k ∈ tx.firstRids)
    (hkey : a.key = some key ∨ s.threads x = .waiting key) :
    OwnStep s (s.advance x g .idle) x a where
  holding := hholding
  inProcess i hi := by
    show i ∈ g.catalog.inProcessTables x
    rw [hwider.catalog]
    exact hi
  writes tx₁ htx₁ k hk := by
    obtain ⟨tx, tx', htx, htx', hiff⟩ := hkeys
    obtain rfl : tx₁ = tx' := Option.some.inj (htx₁.symm.trans htx')
    rcases (hiff k).mp hk with rfl | hk
    · exact .inr hkey
    · exact .inl ⟨tx, htx, hk⟩
  waiting k ht := by
    rw [State.advance_self] at ht
    cases ht

/-- A step that ends in the middle of an end is not asked about. -/
theorem not_holding {t : Thread} {e : Ending} (ht : t.ending = some e)
    (hne : ∀ ending, t ≠ .undoing ending) : ¬ t.Holding := by
  rintro (hnone | ⟨ending, heq⟩)
  · rw [ht] at hnone
    cases hnone
  · exact hne ending heq

theorem Invariant.ownStep (h : Invariant s) (hstep : Step s (x, a) s')
    (hholding : (s'.threads x).Holding) : OwnStep s s' x a := by
  have hof {t : Thread} (ht : s.threads x = t) (hnone : t.ending = none) :
      (s.threads x).Holding := .inl (by rw [ht]; exact hnone)
  cases hstep with
  | start level =>
      refine ⟨hof h.absent rfl, fun i hi => hi, fun tx' htx' key hkey => ?_, fun key ht => ?_⟩
      · have hself : (s.globals.startTransaction level).2.activeTransactions
            s.globals.catalog.transactionCount = some ⟨_, level, [], .active, .empty⟩ :=
          Function.update_self ..
        have htx' : (s.globals.startTransaction level).2.activeTransactions
          s.globals.catalog.transactionCount = some tx' := htx'
        rw [hself] at htx'
        cases htx'
        cases hkey
      · rw [State.advance_self] at ht
        cases ht
  | checkName hs hname => exact .setThread (hof hs rfl) (by simp)
  | takeId hs => exact .of_globals (hof hs rfl) rfl rfl (by simp)
  | @addTable _ name columns final tableId hs hfinal =>
      refine ⟨hof hs rfl, fun i hi => ?_, fun tx' htx' key hkey => .inl ⟨tx', htx', hkey⟩,
        fun key ht => ?_⟩
      · show i ∈ Function.update s.globals.catalog.inProcessTables x
          (s.globals.catalog.inProcessTables x ++ [⟨name, final, tableId, 0⟩]) x
        rw [Function.update_self]
        exact List.mem_append_left _ hi
      · have ht : Function.update s.threads x .idle x = .waiting key := ht
        rw [Function.update_self] at ht
        cases ht
  | createThrows hs => exact .setThread (hof hs rfl) (by simp)
  | insertRecord hs htable hadd =>
      obtain ⟨hwider, _, hkeys⟩ := Globals.addToWriteSet_ok hadd
      exact .grow (hof hs rfl) hwider hkeys (.inl rfl)
  | lock hs htable => exact .setThread (hof hs rfl) fun key ht => .inr (by cases ht; rfl)
  | acquire hs hacquire =>
      rcases Globals.tryAcquireLock_true hacquire with ⟨rfl, _⟩ | ⟨hwider, _, _, hkeys⟩
      · exact .of_globals (hof hs rfl) rfl rfl (by simp)
      · exact .grow (hof hs rfl) hwider hkeys (.inr hs)
  | retry hs hretry =>
      obtain rfl := Globals.tryAcquireLock_false hretry
      exact .of_globals (hof hs rfl) rfl rfl fun key ht => .inl (hs.trans ht)
  | acquireThrows hs hthrows => exact absurd hthrows (h.acquire_returns hs)
  | timeout hs hbegin => exact .setThread (hof hs rfl) (by simp)
  | bumpDelta tableId action hs =>
      have hcatalog := (updateCardinalityDelta_frame s.globals x tableId action).1
      refine ⟨hof hs rfl, fun i hi => ?_, fun tx' htx' key hkey => ?_, fun key ht => ?_⟩
      · show i ∈ (s.globals.updateCardinalityDelta x tableId action).catalog.inProcessTables x
        rw [hcatalog]
        exact hi
      · have htx' : (s.globals.updateCardinalityDelta x tableId action).activeTransactions x =
            some tx' := htx'
        unfold Globals.updateCardinalityDelta at htx'
        cases htx : s.globals.activeTransactions x with
        | none => simp [htx] at htx'
        | some tx =>
            simp only [htx, Function.update_self, Option.some.injEq] at htx'
            subst htx'
            exact .inl ⟨tx, rfl, hkey⟩
      · rw [State.advance_self] at ht
        cases ht
  | commit hs hbegin hcommit =>
      rw [State.advance_self] at hholding
      exact absurd hholding (not_holding rfl (by simp))
  | commitRefused hs hbegin hrefused => exact .setThread (hof hs rfl) (by simp)
  | @applyDelta _ tableId delta deltas hs =>
      have hself : Function.update s.threads x (.applying deltas) x = .applying deltas :=
        Function.update_self ..
      have hholding : (Function.update s.threads x (.applying deltas) x).Holding := hholding
      rw [hself] at hholding
      exact absurd hholding (not_holding rfl (by simp))
  | setCommitted hs htx =>
      rw [State.advance_self] at hholding
      exact absurd hholding (not_holding rfl (by simp))
  | releaseLocks hs htx =>
      rw [State.advance_self] at hholding
      exact absurd hholding (not_holding rfl (by simp))
  | abort hs hbegin => exact .setThread (hof hs rfl) (by simp)
  | dropTables hs htx hundo =>
      rw [State.advance_self] at hholding
      exact absurd hholding (not_holding rfl (by simp))
  | setAborted hs htx =>
      rw [State.advance_self] at hholding
      exact absurd hholding (not_holding rfl (by simp))
  | unlock hs htx =>
      rw [State.advance_self] at hholding
      exact absurd hholding (not_holding rfl (by simp))
  | erase hs =>
      rw [State.advance_self] at hholding
      exact absurd hholding (not_holding rfl (by simp))

/-- A step of the transaction itself, with what it adds to its history. -/
theorem Remembered.own {uses uses' : List (TupleKey × TableInfo)} (hf : Frame x s s')
    (hown : OwnStep s s' x a) (h : Remembered s uses x) (hsub : ∀ u ∈ uses, u ∈ uses')
    (hnew : ∀ key info, (key, info) ∈ uses' → (key, info) ∈ uses ∨
      info.tableId = key.tableId ∧ (info ∈ s.globals.catalog.tables.entries ∨
        info ∈ s.globals.catalog.inProcessTables x))
    (hkey : ∀ key, a.key = some key → ∃ info, (key, info) ∈ uses') :
    Remembered s' uses' x where
  tables key info hused := by
    have hbefore : info.tableId = key.tableId ∧ Sees s.globals.catalog x info := by
      rcases hnew key info hused with hold | ⟨hid, hin⟩
      · exact h.tables key info hold
      · exact ⟨hid, info, hin, .refl info⟩
    obtain ⟨hid, j, hj, hsame⟩ := hbefore
    refine ⟨hid, ?_⟩
    rcases hj with hj | hj
    · obtain ⟨k, hk, hsame'⟩ := hf.kept j hj
      exact ⟨k, .inl hk, hsame'.trans hsame⟩
    · exact ⟨j, .inr (hown.inProcess j hj), hsame⟩
  writes tx' htx' key hmem := by
    rcases hown.writes tx' htx' key hmem with ⟨tx, htx, hold⟩ | hasked | hwaiting
    · obtain ⟨info, hused⟩ := h.writes tx htx key hold
      exact ⟨info, hsub _ hused⟩
    · exact hkey key hasked
    · obtain ⟨info, hused⟩ := h.waiting key hwaiting
      exact ⟨info, hsub _ hused⟩
  waiting key ht := by
    rcases hown.waiting key ht with hwaiting | hasked
    · obtain ⟨info, hused⟩ := h.waiting key hwaiting
      exact ⟨info, hsub _ hused⟩
    · exact hkey key hasked

end Own

/-- Every transaction that may still be undone has a true history. -/
def Remembers (s : State) (uses : TxID → List (TupleKey × TableInfo)) : Prop :=
  ∀ x, (s.threads x).Holding → Remembered s (uses x) x

/-- A step that asks for no key. -/
theorem Remembers.call {s s' : State} {uses : TxID → List (TupleKey × TableInfo)} {txId : TxID}
    {a : Action} (h : Invariant s) (hstep : Step s (txId, a) s') (hkey : a.key = none)
    (hr : Remembers s uses) : Remembers s' uses := by
  have hf : Frame txId s s' := h.step_frame hstep
  intro x hholding
  by_cases hx : x = txId
  · subst hx
    have hown := h.ownStep hstep hholding
    refine (hr x hown.holding).own hf hown (fun _ hu => hu) (fun _ _ hu => .inl hu) ?_
    intro key hasked
    rw [hkey] at hasked
    cases hasked
  · rw [hf.threads x hx] at hholding
    exact (hr x hholding).frame hf hx

/-- A step that asks for a key of a table the transaction may use. -/
theorem Remembers.use {s s' : State} {uses : TxID → List (TupleKey × TableInfo)} {txId : TxID}
    {a : Action} {key : TupleKey} {info : TableInfo} (h : Invariant s)
    (hstep : Step s (txId, a) s') (hkey : a.key = some key)
    (hinfo : info ∈ s.globals.catalog.tables.entries ∨
      info ∈ s.globals.catalog.inProcessTables txId)
    (hid : info.tableId = key.tableId) (hr : Remembers s uses) :
    Remembers s' (Function.update uses txId (uses txId ++ [(key, info)])) := by
  have hf : Frame txId s s' := h.step_frame hstep
  intro x hholding
  by_cases hx : x = txId
  · subst hx
    have hown := h.ownStep hstep hholding
    rw [Function.update_self]
    refine (hr x hown.holding).own hf hown (fun _ hu => List.mem_append_left _ hu) ?_ ?_
    · intro key' info' hused
      rcases List.mem_append.mp hused with hold | hnew
      · exact .inl hold
      · cases List.mem_singleton.mp hnew
        exact .inr ⟨hid, hinfo⟩
    · intro key' hasked
      cases hkey.symm.trans hasked
      exact ⟨info, List.mem_append_right _ (List.mem_singleton.mpr rfl)⟩
  · rw [hf.threads x hx] at hholding
    rw [Function.update_of_ne hx]
    exact (hr x hholding).frame hf hx

/-! ## The undo -/

/-- Ids tell tables apart: the look-up by id returns the table with the id. -/
theorem Invariant.getTableInfoById_eq {s : State} {x : TxID} (h : Invariant s)
    (hopen : Uncommitted (s.tables x) x) {j : TableInfo}
    (hj : j ∈ s.globals.catalog.tables.entries ∨ j ∈ s.globals.catalog.inProcessTables x) :
    s.globals.catalog.getTableInfoById j.tableId x = some j := by
  obtain ⟨k, hk⟩ := Option.isSome_iff_exists.mp
    (Catalog.getTableInfoById_isSome ⟨j, hj, rfl⟩)
  obtain ⟨hid, hkin⟩ := Catalog.getTableInfoById_some hk
  have hin : s.globals.catalog.inProcessTables x = s.created x := hopen.inProcess
  rw [hin] at hj hkin
  have hsame : k = j := by
    rcases hj with hj | hj
    · rcases hkin with hkin | hkin
      · exact List.inj_on_of_nodup_map s.globals.catalog.tables.nodup_keys hkin hj hid
      · exact absurd hid.symm (hopen.apart k hkin j hj)
    · rcases hkin with hkin | hkin
      · exact absurd hid (hopen.apart j hj k hkin)
      · exact List.inj_on_of_nodup_map (h.createdNodup x) hkin hj hid
  rw [hk, hsame]

/-- The undo finds the table each key was recorded for. -/
def FindsTables (g : Globals) (uses : List (TupleKey × TableInfo)) (tx : Transaction) : Prop :=
  g.undoAll tx tx.firstRids = .ok () ∧
  ∀ key ∈ tx.firstRids, ∃ info, g.catalog.getTableInfoById key.tableId tx.id = some info ∧
    (∃ used, (key, used) ∈ uses) ∧
    ∀ used, (key, used) ∈ uses → SameTable info used ∧ fileName info = fileName used

theorem Invariant.findsTables {s : State} {x : TxID} {uses : List (TupleKey × TableInfo)}
    {tx : Transaction} (h : Invariant s) (hopen : Uncommitted (s.tables x) x)
    (hrunning : Running s.globals x) (hr : Remembered s uses x)
    (htx : s.globals.activeTransactions x = some tx) : FindsTables s.globals uses tx := by
  obtain ⟨tx', hentry, _, hvisible⟩ := hrunning
  obtain rfl := hentry.eq htx
  rw [FindsTables, hentry.id]
  refine ⟨Globals.undoAll_ok fun key hkey => by rw [hentry.id]; exact hvisible key hkey,
    fun key hkey => ?_⟩
  obtain ⟨info, hinfo⟩ := Option.isSome_iff_exists.mp (hvisible key hkey)
  refine ⟨info, hinfo, hr.writes tx hentry.found key hkey, fun used hused => ?_⟩
  obtain ⟨hid, j, hj, hsame⟩ := hr.tables key used hused
  have hfound := h.getTableInfoById_eq hopen hj
  rw [hsame.tableId.trans hid, hinfo] at hfound
  cases hfound
  refine ⟨hsame, ?_⟩
  rw [fileName, fileName, hsame.tableId, hsame.name]

/-! ## The whole life -/

/-- While the destructor runs, the objects are as some state of the transactions
has them, those that are left between two calls. -/
structure Closing (p : Process) (left : List TxID) (t : State) : Prop where
  invariant : Invariant t
  remembers : Remembers t p.uses
  globals : t.globals = p.server.globals
  nodup : left.Nodup
  idle : ∀ x ∈ left, t.threads x = .idle

def ProcessInvariant (p : Process) : Prop :=
  match p.phase with
  | .serving => Invariant p.server ∧ Remembers p.server p.uses
  | .closing left => ∃ t, Closing p left t
  | .closed => True

theorem ProcessInvariant.serving {p : Process} (h : ProcessInvariant p)
    (hphase : p.phase = .serving) : Invariant p.server ∧ Remembers p.server p.uses := by
  unfold ProcessInvariant at h
  rwa [hphase] at h

theorem ProcessInvariant.closing {p : Process} {left : List TxID} (h : ProcessInvariant p)
    (hphase : p.phase = .closing left) : ∃ t, Closing p left t := by
  unfold ProcessInvariant at h
  rwa [hphase] at h

/-- The destructor begins. -/
theorem closing_of_resting {p : Process} {left : List TxID} (h : Invariant p.server)
    (hr : Remembers p.server p.uses) (hjoined : ∀ x, (p.server.threads x).Resting)
    (hnodup : left.Nodup)
    (hleft : ∀ x, x ∈ left ↔ (p.server.globals.activeTransactions x).isSome) :
    Closing { p with phase := .closing left } left p.server := by
  refine ⟨h, hr, rfl, hnodup, fun x hx => ?_⟩
  have hrest := hjoined x
  have hlock := h.locks x
  have hsome := (hleft x).mp hx
  -- a transaction that is absent or has ended has no entry
  cases ht : p.server.threads x with
  | idle => rfl
  | absent =>
      rw [ht] at hlock
      rw [hlock.1] at hsome
      cases hsome
  | ended ending =>
      rw [ht] at hlock
      rw [hlock.1] at hsome
      cases hsome
  | _ =>
      rw [ht] at hrest
      exact hrest.elim

/-- What the destructor does with a transaction, four steps of it do. -/
theorem Closing.destroyOne {p : Process} {txId : TxID} {left : List TxID} {t : State}
    {tx : Transaction} {g : Globals} (h : Closing p (txId :: left) t)
    (htx : p.server.globals.activeTransactions txId = some tx)
    (hdestroy : p.server.globals.destroyOne txId tx = .ok g) :
    ∃ t', Closing
      { p with server := { p.server with globals := g }, phase := .closing left } left t' := by
  obtain ⟨hnotin, hnodup⟩ := List.nodup_cons.mp h.nodup
  have hidle : t.threads txId = .idle := h.idle txId List.mem_cons_self
  have hlock := h.invariant.locks txId
  rw [hidle] at hlock
  obtain ⟨tx', hentry, hactive, _⟩ := hlock
  rw [← h.globals] at htx hdestroy
  obtain rfl := hentry.eq htx
  -- the transaction is active, so its pass is not skipped
  rw [Globals.destroyOne, if_neg (by rw [hactive]; simp)] at hdestroy
  obtain ⟨_, hundo, hdestroy⟩ := Outcome.of_bind_ok hdestroy
  cases hdestroy
  have hbegin : t.globals.abortBegin txId = .ok tx := by
    rw [Globals.abortBegin, htx]
  let t₁ : State := t.setThread txId (.undoing .aborted)
  let t₂ : State := t₁.advance txId
    { t.globals with catalog := t.globals.catalog.abortInProgressTables txId } (.dropped .aborted)
  let t₃ : State := t₂.advance txId (t₂.globals.setState txId tx .committed) (.unlocking .aborted)
  have h₁ : Step t (txId, .abort) t₁ := .abort hidle hbegin
  have h₂ : Step t₁ (txId, .dropTables) t₂ := .dropTables (State.setThread_self ..) htx hundo
  have h₃ : Step t₂ (txId, .setCommitted) t₃ := .setAborted (State.advance_self ..) htx
  have h₄ : Step t₃ (txId, .releaseLocks) _ :=
    .unlock (State.advance_self ..) (Function.update_self ..)
  have hi₁ := h.invariant.step h₁
  have hi₂ := hi₁.step h₂
  have hi₃ := hi₂.step h₃
  have hi₄ := hi₃.step h₄
  refine ⟨_, hi₄, ?_, rfl, hnodup, fun x hx => ?_⟩
  · exact (((h.remembers.call h.invariant h₁ rfl).call hi₁ h₂ rfl).call hi₂ h₃ rfl).call hi₃ h₄ rfl
  · have hne : x ≠ txId := fun heq => hnotin (heq ▸ hx)
    rw [(hi₃.step_frame h₄).threads x hne, (hi₂.step_frame h₃).threads x hne,
      (hi₁.step_frame h₂).threads x hne, (h.invariant.step_frame h₁).threads x hne]
    exact h.idle x (List.mem_cons_of_mem _ hx)

theorem ProcessInvariant.init {p : Process} (h : process.init p) : ProcessInvariant p := by
  obtain ⟨hopened, huses, hphase⟩ := h
  unfold ProcessInvariant
  rw [hphase]
  refine ⟨.opened hopened, fun x _ => ⟨fun key info hused => ?_, fun tx htx => ?_, fun key ht => ?_⟩⟩
  · simp [huses x] at hused
  · rw [hopened.transactions x] at htx
    cases htx
  · rw [hopened.threads x] at ht
    cases ht

theorem ProcessInvariant.step {p p' : Process} {e : ProcessEvent} (h : ProcessInvariant p)
    (hstep : ProcessStep p e p') : ProcessInvariant p' := by
  cases hstep with
  | call hphase hkey hstep =>
      obtain ⟨hinv, hr⟩ := h.serving hphase
      unfold ProcessInvariant
      rw [hphase]
      exact ⟨hinv.step hstep, hr.call hinv hstep hkey⟩
  | use hphase hkey hstep hinfo hid =>
      obtain ⟨hinv, hr⟩ := h.serving hphase
      unfold ProcessInvariant
      rw [hphase]
      exact ⟨hinv.step hstep, hr.use hinv hstep hkey hinfo hid⟩
  | destroy hphase hjoined hnodup hleft =>
      obtain ⟨hinv, hr⟩ := h.serving hphase
      exact ⟨_, closing_of_resting hinv hr hjoined hnodup hleft⟩
  | destroyOne hphase htx hdestroy =>
      obtain ⟨t, ht⟩ := h.closing hphase
      exact ht.destroyOne htx hdestroy
  | clear hphase => exact True.intro

theorem process_invariant {p : Process} (h : process.Reachable p) : ProcessInvariant p :=
  h.invariant (fun _ => .init) fun _ _ _ => .step

/-- Wherever `Transaction::abort` runs, each key of the write set finds the table
it was recorded for. -/
theorem rollback_finds_tables {p : Process} (h : process.Reachable p) {x : TxID}
    {tx : Transaction} (haborting : p.Aborting x)
    (htx : p.server.globals.activeTransactions x = some tx) :
    p.server.globals.undoAll tx tx.firstRids = .ok () ∧
    ∀ key ∈ tx.firstRids, ∃ info,
      p.server.globals.catalog.getTableInfoById key.tableId tx.id = some info ∧
      (∃ used, (key, used) ∈ p.uses x) ∧
      ∀ used, (key, used) ∈ p.uses x → SameTable info used ∧ fileName info = fileName used := by
  have hinv := process_invariant h
  have hfinds : FindsTables p.server.globals (p.uses x) tx := by
    rcases haborting with ⟨hphase, ending, hundoing⟩ | ⟨left, tx', hphase, _, _⟩
    · obtain ⟨hs, hr⟩ := hinv.serving hphase
      have hcatalog := hs.catalog x
      have hlock := hs.locks x
      have hremembered := hr x (by rw [hundoing]; exact .inr ⟨ending, rfl⟩)
      rw [hundoing] at hcatalog hlock
      exact hs.findsTables hcatalog.1 hlock hremembered htx
    · obtain ⟨t, ht⟩ := hinv.closing hphase
      have hidle := ht.idle x List.mem_cons_self
      have hcatalog := ht.invariant.catalog x
      have hlock := ht.invariant.locks x
      have hremembered := ht.remembers x (by rw [hidle]; exact .inl rfl)
      rw [hidle] at hcatalog hlock
      rw [← ht.globals] at htx ⊢
      exact ht.invariant.findsTables hcatalog hlock hremembered htx
  exact hfinds

/-- The server stops while a transaction holds a tuple of the table it created. -/
theorem rollback_finds_tables_at_exit : ∃ p tx, process.Reachable p ∧ p.Aborting 1 ∧
    p.server.globals.activeTransactions 1 = some tx ∧ tx.firstRids = [⟨0, 0, 0⟩] ∧
    p.server.globals.undoAll tx tx.firstRids = .ok () := by
  have hinit : process.init ⟨opened [] .nil 0, fun _ => [], .serving⟩ :=
    ⟨⟨.nil, by simp [opened], fun _ => rfl, fun _ => rfl, fun _ => rfl, fun _ => rfl,
      fun _ => rfl, fun _ => rfl⟩, fun _ => rfl, rfl⟩
  have hrun : ∃ p tx, process.Reachable p ∧ p.phase = .closing [1] ∧
      p.server.globals.activeTransactions 1 = some tx ∧ tx.state = .active ∧
      tx.firstRids = [⟨0, 0, 0⟩] := by
    refine ⟨_, _, .step (.step (.step (.step (.step (.step (.init hinit)
      (show ProcessStep _ (.call 1 (.start .readCommitted)) _ from
        .call rfl rfl (.start .readCommitted)))
      (show ProcessStep _ (.call 1 (.checkName [97] [⟨[98], .int, 0⟩])) _ from
        .call rfl rfl (.checkName rfl rfl)))
      (show ProcessStep _ (.call 1 .takeId) _ from .call rfl rfl (.takeId rfl)))
      (show ProcessStep _ (.call 1 .addTable) _ from .call rfl rfl (.addTable rfl rfl)))
      (show ProcessStep _ (.call 1 (.insertRecord ⟨0, 0, 0⟩)) _ from
        .use rfl rfl (.insertRecord rfl rfl rfl) (.inr List.mem_cons_self) rfl))
      (show ProcessStep _ .destroy _ from .destroy rfl ?_ (List.nodup_singleton 1) ?_),
      rfl, rfl, rfl, rfl⟩
    · intro x
      by_cases hx : x = 1
      · subst hx
        exact True.intro
      · simp [State.advance, State.setThread, opened, hx, Thread.Resting]
    · intro x
      by_cases hx : x = 1
      · subst hx
        exact ⟨fun _ => rfl, fun _ => List.mem_cons_self⟩
      · simp [State.advance, State.setThread, opened, Globals.startTransaction, hx]
  obtain ⟨p, tx, hreach, hphase, htx, hactive, hkeys⟩ := hrun
  have haborting : p.Aborting 1 := .inr ⟨[], tx, hphase, htx, by rw [hactive]; simp⟩
  exact ⟨p, tx, hreach, haborting, htx, hkeys, (rollback_finds_tables hreach haborting htx).1⟩

end Iic3413Db.Server
