/-
  System/TransactionManager.lean --- `relational_model/transaction.h`,
  `system/transaction_manager.cc` and `system/lock_manager.cc`, for transactions
  that do not abort and for one table.

  A transaction that is not in `active_transactions` counts as committed.
  `commit_transaction` takes no lock around its body, so its three effects are
  three functions here: the state flip, the release of the locks, the erasure.
-/
import Iic3413Db.Storage.HeapFile.HeapFilePage

set_option autoImplicit false

namespace Iic3413Db.System

open Iic3413Db.RelationalModel Iic3413Db.Storage

/-- `enum class IsolationLevel`. -/
inductive IsolationLevel where
  | readCommitted
  | snapshotIsolation
  deriving DecidableEq, Repr

/-- `enum class TransactionState`. -/
inductive TransactionState where
  | active
  | committed
  deriving DecidableEq, Repr

/-- `class Transaction`, without the snapshot and the cardinality deltas, which no
read of a tuple looks at.  `firstRids` is a `std::set`. -/
structure Transaction where
  isolationLevel : IsolationLevel
  firstRids : List RID
  state : TransactionState
  deriving DecidableEq, Repr

/-- `class TransactionManager`, with the catalog's `transaction_count`. -/
structure TransactionManager where
  transactionCount : TxID
  activeTransactions : TxID → Option Transaction

namespace TransactionManager

/-- No transaction yet; ids start at 1. -/
def initial : TransactionManager := ⟨1, fun _ => none⟩

/-- `start_transaction`. -/
def startTransaction (tm : TransactionManager) (level : IsolationLevel) :
    TxID × TransactionManager :=
  (tm.transactionCount, ⟨tm.transactionCount + 1,
    Function.update tm.activeTransactions tm.transactionCount (some ⟨level, [], .active⟩)⟩)

/-- One of the two lookups of `get_states`. -/
def getState (tm : TransactionManager) (txId : TxID) : TransactionState :=
  match tm.activeTransactions txId with
  | none => .committed
  | some t => t.state

/-- `get_states`. -/
def getStates (tm : TransactionManager) (txIdA txIdB : TxID) :
    TransactionState × TransactionState :=
  (tm.getState txIdA, tm.getState txIdB)

/-- `get_isolation_level`. -/
def getIsolationLevel (tm : TransactionManager) (txId : TxID) : Outcome IsolationLevel :=
  match tm.activeTransactions txId with
  | none => .error (.runtimeError "Transaction ID not found")
  | some t => .ok t.isolationLevel

/-- `add_to_write_set`. -/
def addToWriteSet (tm : TransactionManager) (rid : RID) (txId : TxID) :
    Outcome TransactionManager :=
  match tm.activeTransactions txId with
  | none => .error (.runtimeError s!"[ADD_ACTIVE_TX] Transaction {txId} not found")
  | some t => .ok { tm with
      activeTransactions := Function.update tm.activeTransactions txId
        (some { t with firstRids := t.firstRids.insert rid }) }

/-- The first part of `commit_transaction`, up to `state = COMMITTED`. -/
def setCommitted (tm : TransactionManager) (txId : TxID) : Outcome TransactionManager :=
  match tm.activeTransactions txId with
  | none => .error (.runtimeError s!"[COMMIT] Transaction {txId} not found")
  | some t =>
      if t.state = .active then
        .ok { tm with
          activeTransactions := Function.update tm.activeTransactions txId
            (some { t with state := .committed }) }
      else .error (.runtimeError "Transaction not active")

/-- `active_transactions.erase(tx_id)`. -/
def erase (tm : TransactionManager) (txId : TxID) : TransactionManager :=
  { tm with activeTransactions := Function.update tm.activeTransactions txId none }

end TransactionManager

/-- `lock_table`: the holder of the lock on a first RID. -/
abbrev LockTable : Type := RID → Option TxID

namespace LockManager

/-- One pass of the loop of `try_acquire_lock`; `none` is the pass that sleeps. -/
def tryAcquireLock (lockTable : LockTable) (tm : TransactionManager) (txId : TxID)
    (firstRid : RID) : Outcome (Option (LockTable × TransactionManager)) :=
  match lockTable firstRid with
  | none => do
      let tm ← tm.addToWriteSet firstRid txId
      .ok (some (Function.update lockTable firstRid (some txId), tm))
  | some holder => .ok (if holder = txId then some (lockTable, tm) else none)

/-- `release_all_locks`. -/
def releaseAllLocks (lockTable : LockTable) (txId : TxID) (tx : Transaction) : LockTable :=
  fun rid => if rid ∈ tx.firstRids ∧ lockTable rid = some txId then none else lockTable rid

end LockManager

/-! ## What each function does to the states -/

namespace TransactionManager

variable {tm tm' : TransactionManager} {txId x : TxID}

theorem getState_eq_active_iff :
    tm.getState x = .active ↔ ∃ t, tm.activeTransactions x = some t ∧ t.state = .active := by
  unfold getState
  cases tm.activeTransactions x <;> simp

/-- The transaction runs, at this isolation level. -/
def Runs (tm : TransactionManager) (txId : TxID) (level : IsolationLevel) : Prop :=
  ∃ t, tm.activeTransactions txId = some t ∧ t.state = .active ∧ t.isolationLevel = level

theorem Runs.active {level : IsolationLevel} (h : tm.Runs txId level) :
    tm.getState txId = .active := by
  obtain ⟨t, ht, hstate, _⟩ := h
  exact getState_eq_active_iff.mpr ⟨t, ht, hstate⟩

theorem Runs.isolationLevel {level : IsolationLevel} (h : tm.Runs txId level) :
    tm.getIsolationLevel txId = .ok level := by
  obtain ⟨t, ht, _, rfl⟩ := h
  simp only [getIsolationLevel, ht]

theorem getState_congr (h : tm'.activeTransactions x = tm.activeTransactions x) :
    tm'.getState x = tm.getState x := by
  unfold getState
  rw [h]

theorem Runs.congr {level : IsolationLevel} (hruns : tm.Runs x level)
    (h : tm'.activeTransactions x = tm.activeTransactions x) : tm'.Runs x level := by
  unfold Runs
  rw [h]
  exact hruns

theorem runs_start (tm : TransactionManager) (level : IsolationLevel) :
    (tm.startTransaction level).2.Runs tm.transactionCount level :=
  ⟨_, Function.update_self .., rfl, rfl⟩

/-- A transaction that runs may grow its write set. -/
theorem Runs.addToWriteSet {level : IsolationLevel} (h : tm.Runs txId level) (rid : RID) :
    ∃ tm', tm.addToWriteSet rid txId = .ok tm' := by
  obtain ⟨t, ht, _, _⟩ := h
  simp only [TransactionManager.addToWriteSet, ht]
  exact ⟨_, rfl⟩

/-- A transaction that runs may commit. -/
theorem Runs.setCommitted {level : IsolationLevel} (h : tm.Runs txId level) :
    ∃ tm', tm.setCommitted txId = .ok tm' := by
  obtain ⟨t, ht, hstate, _⟩ := h
  simp only [TransactionManager.setCommitted, ht, if_pos hstate]
  exact ⟨_, rfl⟩

/-- `tm'` is `tm` but for the write set of `txId`. -/
structure Same (tm : TransactionManager) (txId : TxID) (tm' : TransactionManager) : Prop where
  count : tm'.transactionCount = tm.transactionCount
  others : ∀ x, x ≠ txId → tm'.activeTransactions x = tm.activeTransactions x
  known : tm'.activeTransactions txId ≠ none → tm.activeTransactions txId ≠ none
  state : ∀ x, tm'.getState x = tm.getState x
  runs : ∀ x level, tm.Runs x level → tm'.Runs x level

theorem Same.refl (tm : TransactionManager) (txId : TxID) : tm.Same txId tm :=
  ⟨rfl, fun _ _ => rfl, id, fun _ => rfl, fun _ _ h => h⟩

/-- Growing a write set changes no state. -/
theorem addToWriteSet_ok {rid : RID} (h : tm.addToWriteSet rid txId = .ok tm') :
    tm.Same txId tm' := by
  unfold addToWriteSet at h
  cases ht : tm.activeTransactions txId with
  | none => simp [ht] at h
  | some t =>
      simp only [ht, Except.ok.injEq] at h
      subst h
      refine ⟨rfl, fun x hx => Function.update_of_ne hx .., fun _ => by simp [ht], ?_, ?_⟩
      · intro x
        by_cases hx : x = txId
        · subst hx
          simp [getState, ht]
        · exact getState_congr (Function.update_of_ne hx ..)
      · intro x level hruns
        by_cases hx : x = txId
        · subst hx
          obtain ⟨u, hu, hstate, hlevel⟩ := hruns
          rw [ht] at hu
          cases hu
          exact ⟨_, Function.update_self .., hstate, hlevel⟩
        · exact hruns.congr (Function.update_of_ne hx ..)

theorem getState_start (level : IsolationLevel) (x : TxID) :
    (tm.startTransaction level).2.getState x =
      if x = tm.transactionCount then .active else tm.getState x := by
  unfold startTransaction getState
  by_cases hx : x = tm.transactionCount
  · subst hx
    simp
  · simp [hx]

/-- The flip makes one active transaction committed. -/
theorem setCommitted_ok (h : tm.setCommitted txId = .ok tm') :
    tm.getState txId = .active ∧ tm'.transactionCount = tm.transactionCount ∧
      (∀ y, tm'.getState y = if y = txId then .committed else tm.getState y) ∧
      (∃ t, tm'.activeTransactions txId = some t ∧ t.state = .committed) ∧
      ∀ y, y ≠ txId → tm'.activeTransactions y = tm.activeTransactions y := by
  unfold setCommitted at h
  cases ht : tm.activeTransactions txId with
  | none => simp [ht] at h
  | some t =>
      simp only [ht] at h
      split at h
      · rename_i hactive
        cases h
        refine ⟨getState_eq_active_iff.mpr ⟨t, ht, hactive⟩, rfl, ?_,
          ⟨_, Function.update_self .., rfl⟩, fun y hy => Function.update_of_ne hy ..⟩
        intro y
        by_cases hy : y = txId
        · subst hy
          simp [getState]
        · simp [getState, hy]
      · cases h

/-- Erasing a committed transaction changes no answer. -/
theorem getState_erase (h : tm.getState txId = .committed) (x : TxID) :
    (tm.erase txId).getState x = tm.getState x := by
  by_cases hx : x = txId
  · subst hx
    rw [h]
    simp [erase, getState]
  · simp [erase, getState, Function.update_of_ne hx]

end TransactionManager

namespace LockManager

variable {locks locks' : LockTable} {tm tm' : TransactionManager} {txId : TxID} {first : RID}

/-- A pass that acquires leaves the caller the holder, takes the lock from
nobody and touches no other. -/
theorem tryAcquireLock_some
    (h : tryAcquireLock locks tm txId first = .ok (some (locks', tm'))) :
    tm.Same txId tm' ∧ (locks first = none ∨ locks first = some txId) ∧
      locks' = Function.update locks first (some txId) := by
  unfold tryAcquireLock at h
  cases hl : locks first with
  | none =>
      simp only [hl] at h
      cases hadd : tm.addToWriteSet first txId with
      | error e => simp [hadd] at h
      | ok tm₁ =>
          simp only [hadd, Outcome.ok_bind, Except.ok.injEq, Option.some.injEq,
            Prod.mk.injEq] at h
          obtain ⟨rfl, rfl⟩ := h
          exact ⟨TransactionManager.addToWriteSet_ok hadd, .inl rfl, rfl⟩
  | some holder =>
      simp only [hl, Except.ok.injEq] at h
      split at h
      · rename_i hholder
        subst hholder
        simp only [Option.some.injEq, Prod.mk.injEq] at h
        obtain ⟨rfl, rfl⟩ := h
        exact ⟨.refl _ _, .inr rfl, by rw [← hl, Function.update_eq_self]⟩
      · cases h

/-- A free lock is acquired. -/
theorem tryAcquireLock_free {level : IsolationLevel} (hfree : locks first = none)
    (hruns : tm.Runs txId level) : ∃ tm', tryAcquireLock locks tm txId first =
      .ok (some (Function.update locks first (some txId), tm')) := by
  obtain ⟨tm', htm'⟩ := hruns.addToWriteSet first
  refine ⟨tm', ?_⟩
  simp only [tryAcquireLock, hfree, htm', Outcome.ok_bind]

/-- The holder acquires its lock again. -/
theorem tryAcquireLock_held (hheld : locks first = some txId) :
    tryAcquireLock locks tm txId first = .ok (some (locks, tm)) := by
  simp only [tryAcquireLock, hheld, if_true]

/-- A lock that changes hands in a release was the releaser's. -/
theorem releaseAllLocks_of_ne {tx : Transaction} {holder : TxID} {rid : RID}
    (h : locks rid = some holder) (hne : holder ≠ txId) :
    releaseAllLocks locks txId tx rid = some holder := by
  unfold releaseAllLocks
  rw [if_neg, h]
  rintro ⟨_, hmine⟩
  rw [h] at hmine
  exact hne (Option.some.inj hmine)

end LockManager

end Iic3413Db.System
