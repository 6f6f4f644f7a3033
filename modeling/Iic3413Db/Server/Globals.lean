/-
  Server/Globals.lean --- the catalog, the transaction manager and the lock manager
  together, for all tables and for transactions that may abort.

  `System/TransactionManager.lean` has the same functions as one table sees them.
  Here `commit_transaction` and `abort_transaction` are cut at the points between
  which other threads run; each piece is a function of the three objects.

  `HeapFile::undo` is still to be written in the source: it reads one header and
  returns, so of `Transaction::abort` only the look-ups in the catalog remain.
-/
import Iic3413Db.System.Catalog
import Iic3413Db.System.TransactionManager

set_option autoImplicit false

namespace Iic3413Db.Server

open Iic3413Db.Foundation Iic3413Db.RelationalModel Iic3413Db.Storage
open Iic3413Db.System (Catalog TableId TableInfo TableColumn IsolationLevel TransactionState)

/-- `struct TupleKey`. -/
structure TupleKey where
  tableId : TableId
  firstRid : RID
  deriving DecidableEq, Repr

/-- `class Transaction`, without the snapshot.  `firstRids` is a `std::set`. -/
structure Transaction where
  id : TxID
  isolationLevel : IsolationLevel
  firstRids : List TupleKey
  state : TransactionState
  cardinalityDeltas : KeyedMap (Prod.fst : TableId × Int → TableId)

/-- `catalog`, `active_transactions` and `lock_table`. -/
structure Globals where
  catalog : Catalog
  activeTransactions : TxID → Option Transaction
  lockTable : TupleKey → Option TxID

namespace Globals

/-- `start_transaction`. -/
def startTransaction (g : Globals) (level : IsolationLevel) : TxID × Globals :=
  let txId := g.catalog.transactionCount
  (txId, { g with
    catalog := { g.catalog with transactionCount := txId + 1 }
    activeTransactions :=
      Function.update g.activeTransactions txId (some ⟨txId, level, [], .active, .empty⟩) })

/-- `add_to_write_set`. -/
def addToWriteSet (g : Globals) (key : TupleKey) (txId : TxID) : Outcome Globals :=
  match g.activeTransactions txId with
  | none => .error (.runtimeError s!"[ADD_ACTIVE_TX] Transaction {txId} not found")
  | some tx => .ok { g with
      activeTransactions := Function.update g.activeTransactions txId
        (some { tx with firstRids := tx.firstRids.insert key }) }

/-- `cardinality_deltas[table_id] += action`. -/
def bumpDelta (deltas : KeyedMap (Prod.fst : TableId × Int → TableId)) (tableId : TableId)
    (action : Int) : KeyedMap (Prod.fst : TableId × Int → TableId) :=
  (deltas.insert (tableId, 0)).map
    (fun e => (e.1, if e.1 = tableId then e.2 + action else e.2)) fun _ => rfl

/-- `update_cardinality_delta`. -/
def updateCardinalityDelta (g : Globals) (txId : TxID) (tableId : TableId) (action : Int) :
    Globals :=
  match g.activeTransactions txId with
  | none => g
  | some tx => { g with
      activeTransactions := Function.update g.activeTransactions txId
        (some { tx with cardinalityDeltas := bumpDelta tx.cardinalityDeltas tableId action }) }

/-- One pass of the loop of `try_acquire_lock`; `false` is the pass that sleeps.
The entry of `lock_table` is made before the write set is looked for. -/
def tryAcquireLock (g : Globals) (txId : TxID) (key : TupleKey) : Globals × Outcome Bool :=
  match g.lockTable key with
  | none =>
      let g := { g with lockTable := Function.update g.lockTable key (some txId) }
      match g.addToWriteSet key txId with
      | .ok g => (g, .ok true)
      | .error e => (g, .error e)
  | some holder => (g, .ok (decide (holder = txId)))

/-- `release_all_locks`. -/
def releaseAllLocks (g : Globals) (tx : Transaction) : Globals :=
  { g with lockTable := fun key =>
      if key ∈ tx.firstRids ∧ g.lockTable key = some tx.id then none else g.lockTable key }

/-- `transaction->state = state`. -/
def setState (g : Globals) (txId : TxID) (tx : Transaction) (state : TransactionState) : Globals :=
  { g with activeTransactions :=
      Function.update g.activeTransactions txId (some { tx with state := state }) }

/-- `active_transactions.erase(tx_id)`. -/
def erase (g : Globals) (txId : TxID) : Globals :=
  { g with activeTransactions := Function.update g.activeTransactions txId none }

/-- The look-up and the test at the start of `commit_transaction`. -/
def commitBegin (g : Globals) (txId : TxID) : Outcome Transaction :=
  match g.activeTransactions txId with
  | none => .error (.runtimeError s!"[COMMIT] Transaction {txId} not found")
  | some tx =>
      if tx.state = .active then .ok tx else .error (.runtimeError "Transaction not active")

/-- The look-up at the start of `abort_transaction`. -/
def abortBegin (g : Globals) (txId : TxID) : Outcome Transaction :=
  match g.activeTransactions txId with
  | none => .error (.runtimeError s!"[ABORT] Transaction {txId} not found")
  | some tx => .ok tx

/-- `Transaction::abort`. -/
def undoAll (g : Globals) (tx : Transaction) : List TupleKey → Outcome Unit
  | [] => .ok ()
  | key :: keys =>
      match g.catalog.getTableInfoById key.tableId tx.id with
      | none => .error (.undefinedBehaviour "get_table_info(key.table_id, id)->heap_file")
      | some _ => undoAll g tx keys

/-! ## What the functions do -/

variable {g g' : Globals} {txId : TxID} {key : TupleKey} {tx : Transaction}

theorem abortBegin_ok (h : g.abortBegin txId = .ok tx) : g.activeTransactions txId = some tx := by
  unfold abortBegin at h
  split at h
  · cases h
  · rename_i htx
    cases h
    exact htx

/-- `g'` is `g` but for the write set of a transaction, which has grown. -/
structure Wider (txId : TxID) (g g' : Globals) : Prop where
  catalog : g'.catalog = g.catalog
  others : ∀ x, x ≠ txId → g'.activeTransactions x = g.activeTransactions x
  own : ∃ tx tx', g.activeTransactions txId = some tx ∧ g'.activeTransactions txId = some tx' ∧
    tx'.id = tx.id ∧ tx'.state = tx.state ∧ ∀ key ∈ tx.firstRids, key ∈ tx'.firstRids

/-- The write set has the key, and every key it had. -/
theorem addToWriteSet_ok (h : g.addToWriteSet key txId = .ok g') :
    g.Wider txId g' ∧ g'.lockTable = g.lockTable ∧
      ∃ tx tx', g.activeTransactions txId = some tx ∧ g'.activeTransactions txId = some tx' ∧
        ∀ k, k ∈ tx'.firstRids ↔ k = key ∨ k ∈ tx.firstRids := by
  unfold addToWriteSet at h
  cases htx : g.activeTransactions txId with
  | none => simp [htx] at h
  | some tx =>
      simp only [htx, Except.ok.injEq] at h
      subst h
      have hself : Function.update g.activeTransactions txId
          (some { tx with firstRids := tx.firstRids.insert key }) txId =
          some { tx with firstRids := tx.firstRids.insert key } := Function.update_self ..
      refine ⟨⟨rfl, fun x hx => Function.update_of_ne hx .., tx, _, htx, hself, rfl, rfl,
        fun k hk => List.mem_insert_of_mem hk⟩, rfl, tx, _, rfl, hself, fun k => ?_⟩
      exact List.mem_insert_iff

/-- What a pass that acquires leaves: the caller holds the lock and has the key in
its write set, and no other lock has changed. -/
theorem tryAcquireLock_true (h : g.tryAcquireLock txId key = (g', .ok true)) :
    g' = g ∧ g.lockTable key = some txId ∨
    g.Wider txId g' ∧ g.lockTable key = none ∧
      g'.lockTable = Function.update g.lockTable key (some txId) ∧
      ∃ tx tx', g.activeTransactions txId = some tx ∧ g'.activeTransactions txId = some tx' ∧
        ∀ k, k ∈ tx'.firstRids ↔ k = key ∨ k ∈ tx.firstRids := by
  unfold tryAcquireLock at h
  cases hl : g.lockTable key with
  | none =>
      simp only [hl] at h
      split at h
      · rename_i g₁ hadd
        obtain ⟨rfl, _⟩ := Prod.mk.inj h
        obtain ⟨hwider, hlocks, hkeys⟩ := addToWriteSet_ok hadd
        exact .inr ⟨⟨hwider.catalog, hwider.others, hwider.own⟩, rfl, hlocks, hkeys⟩
      · cases (Prod.mk.inj h).2
  | some holder =>
      simp only [hl, Prod.mk.injEq, Except.ok.injEq, decide_eq_true_eq] at h
      obtain ⟨rfl, rfl⟩ := h
      exact .inl ⟨rfl, rfl⟩

/-- A pass that sleeps changes nothing. -/
theorem tryAcquireLock_false (h : g.tryAcquireLock txId key = (g', .ok false)) : g' = g := by
  unfold tryAcquireLock at h
  split at h
  · dsimp only at h
    split at h
    · cases (Prod.mk.inj h).2
    · cases (Prod.mk.inj h).2
  · exact ((Prod.mk.inj h).1).symm

/-- A pass throws when the transaction is gone. -/
theorem tryAcquireLock_error {e : Fault} (h : g.tryAcquireLock txId key = (g', .error e)) :
    g.activeTransactions txId = none := by
  unfold tryAcquireLock at h
  split at h
  · dsimp only at h
    split at h
    · cases (Prod.mk.inj h).2
    · rename_i hadd
      unfold addToWriteSet at hadd
      split at hadd
      · rename_i hnone
        exact hnone
      · cases hadd
  · cases (Prod.mk.inj h).2

theorem tryAcquireLock_catalog {r : Outcome Bool} (h : g.tryAcquireLock txId key = (g', r)) :
    g'.catalog = g.catalog := by
  cases r with
  | error e =>
      unfold tryAcquireLock at h
      split at h
      · dsimp only at h
        split at h
        · cases (Prod.mk.inj h).2
        · rw [← (Prod.mk.inj h).1]
      · cases (Prod.mk.inj h).2
  | ok acquired =>
      cases acquired with
      | false => rw [tryAcquireLock_false h]
      | true =>
          rcases tryAcquireLock_true h with ⟨rfl, _⟩ | ⟨hwider, _⟩
          · rfl
          · exact hwider.catalog

/-- A release takes away locks of the transaction alone. -/
theorem releaseAllLocks_other {x : TxID} (hx : x ≠ tx.id) :
    (g.releaseAllLocks tx).lockTable key = some x ↔ g.lockTable key = some x := by
  simp only [releaseAllLocks]
  split
  · rename_i hmine
    rw [hmine.2]
    simp [Ne.symm hx]
  · rfl

/-- It takes away all of them that are in the write set. -/
theorem releaseAllLocks_own (h : ∀ key, g.lockTable key = some tx.id → key ∈ tx.firstRids)
    (key : TupleKey) : (g.releaseAllLocks tx).lockTable key ≠ some tx.id := by
  simp only [releaseAllLocks]
  split
  · simp
  · rename_i hnot
    exact fun hheld => hnot ⟨h key hheld, hheld⟩

/-- `Transaction::abort` returns if the transaction can see its tables. -/
theorem undoAll_ok {keys : List TupleKey}
    (h : ∀ key ∈ keys, (g.catalog.getTableInfoById key.tableId tx.id).isSome) :
    g.undoAll tx keys = .ok () := by
  induction keys with
  | nil => rfl
  | cons key keys ih =>
      obtain ⟨info, hinfo⟩ := Option.isSome_iff_exists.mp (h key List.mem_cons_self)
      simp only [undoAll, hinfo]
      exact ih fun k hk => h k (List.mem_cons_of_mem _ hk)

end Globals

end Iic3413Db.Server
