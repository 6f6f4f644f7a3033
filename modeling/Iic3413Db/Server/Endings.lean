/-
  Server/Endings.lean --- how transactions end: the tables they leave in the
  catalog, and the locks they leave.
-/
import Iic3413Db.Server.Steps

set_option autoImplicit false

namespace Iic3413Db.Server

open Iic3413Db.Foundation Iic3413Db.RelationalModel Iic3413Db.Storage
open Iic3413Db.System (Catalog TableId TableInfo TableColumn IsolationLevel TransactionState)

/-! ## A call that has begun to end its transaction returns -/

/-- By steps of its own, transaction `x` ends in `e`. -/
def Returns (s : State) (x : TxID) (e : Ending) : Prop :=
  ∃ ls s', transactions.Run s ls s' ∧ (∀ l ∈ ls, l.1 = x) ∧ s'.threads x = .ended e

section Returns

variable {s s' : State} {x : TxID} {e : Ending}

theorem Returns.step {a : Action} (hstep : Step s (x, a) s') (h : Returns s' x e) :
    Returns s x e := by
  obtain ⟨ls, t, hrun, hown, ht⟩ := h
  refine ⟨[(x, a)] ++ ls, t, (Machine.Run.single hstep).append hrun, fun l hl => ?_, ht⟩
  rcases List.mem_append.mp hl with hl | hl
  · rw [List.mem_singleton.mp hl]
  · exact hown l hl

theorem returns_released (hs : s.threads x = .released e) : Returns s x e :=
  Returns.step (.erase hs) ⟨[], _, .nil, by simp, by simp⟩

theorem Invariant.returns_unlocking (h : Invariant s) (hs : s.threads x = .unlocking e) :
    Returns s x e := by
  have hlock := h.locks x
  rw [hs] at hlock
  obtain ⟨tx, hentry⟩ := hlock
  exact Returns.step (.unlock hs hentry.found) (returns_released (by simp))

theorem Invariant.returns_dropped (h : Invariant s) (hs : s.threads x = .dropped e) :
    Returns s x e := by
  have hlock := h.locks x
  rw [hs] at hlock
  obtain ⟨tx, hentry⟩ := hlock
  have hstep : Step s (x, .setCommitted) _ := .setAborted hs hentry.found
  exact Returns.step hstep ((h.step hstep).returns_unlocking (by simp))

/-- The undo finds every table: the transaction created it or it is committed. -/
theorem Invariant.returns_undoing (h : Invariant s) (hs : s.threads x = .undoing e) :
    Returns s x e := by
  have hlock := h.locks x
  rw [hs] at hlock
  obtain ⟨tx, hentry, _, hvisible⟩ := hlock
  have hundo : s.globals.undoAll tx tx.firstRids = .ok () :=
    Globals.undoAll_ok fun key hkey => by
      rw [hentry.id]
      exact hvisible key hkey
  have hstep : Step s (x, .dropTables) _ := .dropTables hs hentry.found hundo
  exact Returns.step hstep ((h.step hstep).returns_dropped (by simp))

theorem Invariant.returns_flipped (h : Invariant s) (hs : s.threads x = .flipped) :
    Returns s x .committed := by
  have hlock := h.locks x
  rw [hs] at hlock
  obtain ⟨tx, hentry⟩ := hlock
  exact Returns.step (.releaseLocks hs hentry.found) (returns_released (by simp))

theorem Invariant.returns_applying {deltas : List (TableId × Int)} (h : Invariant s)
    (hs : s.threads x = .applying deltas) : Returns s x .committed := by
  induction deltas generalizing s with
  | nil =>
      have hlock := h.locks x
      rw [hs] at hlock
      obtain ⟨tx, hentry⟩ := hlock
      have hstep : Step s (x, .setCommitted) _ := .setCommitted hs hentry.found
      exact Returns.step hstep ((h.step hstep).returns_flipped (by simp))
  | cons delta deltas ih =>
      have hstep : Step s (x, .applyDelta) _ := .applyDelta hs
      exact Returns.step hstep (ih (h.step hstep) (by simp))

/-- No part of a commit or an abort throws or waits. -/
theorem Invariant.returns (h : Invariant s) (he : (s.threads x).ending = some e) :
    Returns s x e := by
  cases ht : s.threads x with
  | absent => simp [ht, Thread.ending] at he
  | idle => simp [ht, Thread.ending] at he
  | creating name columns => simp [ht, Thread.ending] at he
  | numbered name columns tableId => simp [ht, Thread.ending] at he
  | waiting key => simp [ht, Thread.ending] at he
  | applying deltas =>
      rw [ht] at he
      obtain rfl := Option.some.inj he
      exact h.returns_applying ht
  | flipped =>
      rw [ht] at he
      obtain rfl := Option.some.inj he
      exact h.returns_flipped ht
  | undoing ending =>
      rw [ht] at he
      obtain rfl := Option.some.inj he
      exact h.returns_undoing ht
  | dropped ending =>
      rw [ht] at he
      obtain rfl := Option.some.inj he
      exact h.returns_dropped ht
  | unlocking ending =>
      rw [ht] at he
      obtain rfl := Option.some.inj he
      exact h.returns_unlocking ht
  | released ending =>
      rw [ht] at he
      obtain rfl := Option.some.inj he
      exact returns_released ht
  | ended ending =>
      rw [ht] at he
      obtain rfl := Option.some.inj he
      exact ⟨[], s, .nil, by simp, ht⟩

/-- How a transaction ends is settled when its end begins. -/
theorem Invariant.ending_kept {l : TxID × Action} (h : Invariant s) (hstep : Step s l s')
    (he : (s.threads x).ending = some e) : (s'.threads x).ending = some e := by
  by_cases hx : x = l.1
  · subst hx
    cases hstep with
    | start level =>
        rw [h.absent] at he
        cases he
    | checkName hs hname => simp [hs, Thread.ending] at he
    | takeId hs => simp [hs, Thread.ending] at he
    | addTable hs hfinal => simp [hs, Thread.ending] at he
    | createThrows hs => simp [hs, Thread.ending] at he
    | insertRecord hs htable hadd => simp [hs, Thread.ending] at he
    | lock hs htable => simp [hs, Thread.ending] at he
    | acquire hs hacquire => simp [hs, Thread.ending] at he
    | retry hs hretry => simp [hs, Thread.ending] at he
    | acquireThrows hs hthrows => simp [hs, Thread.ending] at he
    | timeout hs hbegin => simp [hs, Thread.ending] at he
    | bumpDelta tableId action hs => simp [hs, Thread.ending] at he
    | commit hs hbegin hcommit => simp [hs, Thread.ending] at he
    | commitRefused hs hbegin hrefused => simp [hs, Thread.ending] at he
    | @applyDelta txId tableId delta deltas hs =>
        rw [hs] at he
        have ht : Function.update s.threads txId (.applying deltas) txId = .applying deltas :=
          Function.update_self ..
        show (Function.update s.threads txId (.applying deltas) txId).ending = some e
        rw [ht]
        exact he
    | setCommitted hs htx => simpa [hs, Thread.ending] using he
    | releaseLocks hs htx => simpa [hs, Thread.ending] using he
    | abort hs hbegin => simp [hs, Thread.ending] at he
    | dropTables hs htx hundo => simpa [hs, Thread.ending] using he
    | setAborted hs htx => simpa [hs, Thread.ending] using he
    | unlock hs htx => simpa [hs, Thread.ending] using he
    | erase hs => simpa [hs, Thread.ending] using he
  · rw [(h.step_frame hstep).threads x hx]
    exact he

end Returns

/-! ## The tables -/

/-- The catalog in one state. -/
structure CatalogIs (s : State) : Prop where
  names : (s.globals.catalog.tables.entries.map TableInfo.name).Nodup
  ids : (s.globals.catalog.tables.entries.map TableInfo.tableId).Nodup
  own : ∀ x, ((s.globals.catalog.inProcessTables x).map TableInfo.name).Nodup
  byName : ∀ x tableName info, s.globals.catalog.getTableInfo tableName x = .ok (some info) →
    info ∈ s.globals.catalog.tables.entries ∨ info ∈ s.created x
  byId : ∀ x tableId info, s.globals.catalog.getTableInfoById tableId x = some info →
    info ∈ s.globals.catalog.tables.entries ∨ info ∈ s.created x
  published : ∀ x, (s.threads x).ending = some .committed → Published (s.tables x) x
  withdrawn : ∀ x e, (s.threads x).ending = some e → e ≠ .committed → Unpublished (s.tables x)
  gone : ∀ x e, s.threads x = .ended e →
    s.globals.activeTransactions x = none ∧ s.globals.catalog.inProcessTables x = []

/-- What a step of transaction `x` does to the catalog. -/
structure CatalogDoes (s : State) (x : TxID) (a : Action) (s' : State) : Prop where
  /-- all tables or none -/
  commit : a = .commit →
    ¬ s.globals.catalog.Clashes x ∧ (s'.threads x).ending = some .committed ∧
      (∀ i, i ∈ s'.globals.catalog.tables.entries ↔
        i ∈ s.globals.catalog.tables.entries ∨ i ∈ s.created x) ∨
    s.globals.catalog.Clashes x ∧ (s'.threads x).ending = some .refused ∧ s'.globals = s.globals
  /-- the steps of an abort -/
  withdraw : ∀ e, (s'.threads x).ending = some e → e ≠ .committed →
    s'.globals.catalog.tables = s.globals.catalog.tables
  others : ∀ y, y ≠ x → s'.globals.catalog.inProcessTables y = s.globals.catalog.inProcessTables y

/-- The calls that end a transaction return, and as they began. -/
structure CallsReturn (s : State) : Prop where
  returns : ∀ x e, (s.threads x).ending = some e → Returns s x e
  kept : ∀ x e l s', (s.threads x).ending = some e → Step s l s' → (s'.threads x).ending = some e

section Tables

variable {s s' : State} {x : TxID}

theorem Invariant.callsReturn (h : Invariant s) : CallsReturn s :=
  ⟨fun _ _ => h.returns, fun _ _ _ _ he hstep => h.ending_kept hstep he⟩

theorem CatalogOk.published {v : Tables} {t : Thread} (h : CatalogOk v x t)
    (he : t.ending = some .committed) : Published v x := by
  cases t with
  | applying deltas => exact h
  | flipped => exact h
  | undoing ending => exact absurd (Option.some.inj he) h.2
  | dropped ending => exact absurd (Option.some.inj he) h.2
  | unlocking ending => exact absurd (Option.some.inj he) h.2
  | released ending => exact h.elim (fun h => h.2) fun h => absurd (Option.some.inj he) h.1
  | ended ending => exact h.elim (fun h => h.2) fun h => absurd (Option.some.inj he) h.1
  | _ => cases he

theorem CatalogOk.withdrawn {v : Tables} {t : Thread} {e : Ending} (h : CatalogOk v x t)
    (he : t.ending = some e) (hne : e ≠ .committed) : Unpublished v := by
  cases t with
  | applying deltas => exact absurd (Option.some.inj he).symm hne
  | flipped => exact absurd (Option.some.inj he).symm hne
  | undoing ending => exact h.1.toUnpublished
  | dropped ending => exact h.1.toUnpublished
  | unlocking ending => exact h.1.toUnpublished
  | released ending =>
      rw [← Option.some.inj he] at hne
      exact h.elim (fun h => absurd h.1 hne) fun h => h.2.toUnpublished
  | ended ending =>
      rw [← Option.some.inj he] at hne
      exact h.elim (fun h => absurd h.1 hne) fun h => h.2.toUnpublished
  | _ => cases he

theorem Invariant.catalogIs (h : Invariant s) : CatalogIs s where
  names := h.names
  ids := s.globals.catalog.tables.nodup_keys
  own x := by
    have hsub := (h.catalog x).inProcess_sublist
    exact (h.createdNames x).sublist (hsub.map _)
  byName x tableName info hinfo :=
    (Catalog.getTableInfo_some hinfo).2.imp id ((h.catalog x).inProcess_subset info)
  byId x tableId info hinfo :=
    (Catalog.getTableInfoById_some hinfo).2.imp id ((h.catalog x).inProcess_subset info)
  published x he := (h.catalog x).published he
  withdrawn x e he hne := (h.catalog x).withdrawn he hne
  gone x e hx := by
    have hcatalog := h.catalog x
    have hlock := h.locks x
    rw [hx] at hcatalog hlock
    exact ⟨hlock.1, hcatalog.elim (fun h => h.2.inProcess) fun h => h.2.inProcess⟩

theorem Invariant.commit_does (h : Invariant s) (hstep : Step s (x, .commit) s') :
    ¬ s.globals.catalog.Clashes x ∧ (s'.threads x).ending = some .committed ∧
      (∀ i, i ∈ s'.globals.catalog.tables.entries ↔
        i ∈ s.globals.catalog.tables.entries ∨ i ∈ s.created x) ∨
    s.globals.catalog.Clashes x ∧ (s'.threads x).ending = some .refused ∧
      s'.globals = s.globals := by
  cases hstep with
  | commit hs hbegin hcommit =>
      have hopen := h.catalog x
      rw [hs] at hopen
      obtain ⟨hfree, hmem, _⟩ := h.committed hopen hcommit
      exact .inl ⟨hfree, by simp [Thread.ending], hmem⟩
  | commitRefused hs hbegin hrefused =>
      rcases s.globals.catalog.commitInProgressTables_cases x with ⟨hclash, _⟩ | ⟨_, hok⟩
      · exact .inr ⟨hclash, by simp [Thread.ending], rfl⟩
      · rw [hok] at hrefused
        cases hrefused

theorem Invariant.catalogDoes {a : Action} (h : Invariant s) (hstep : Step s (x, a) s') :
    CatalogDoes s x a s' where
  commit := by
    rintro rfl
    exact h.commit_does hstep
  withdraw e he hne := by
    refine hstep.tables ?_ ?_
    · rintro c rfl hok
      rcases h.commit_does hstep with ⟨_, hcommitted, _⟩ | ⟨hclash, _⟩
      · rw [hcommitted] at he
        exact hne (Option.some.inj he).symm
      · rcases s.globals.catalog.commitInProgressTables_cases x with ⟨_, msg, herr⟩ | ⟨hfree, _⟩
        · rw [herr] at hok
          cases hok
        · exact hfree hclash
    · rintro rfl
      have hcommitted : (s'.threads x).ending = some .committed := by
        refine h.ending_kept hstep ?_
        cases hstep with
        | applyDelta hs => rw [hs, Thread.ending]
      rw [hcommitted] at he
      exact hne (Option.some.inj he).symm
  others y hy := (h.step_frame hstep).inProcess y hy

end Tables

/-- Transactions that create tables are atomic and isolated. -/
theorem catalog_transactions {s : State} (h : transactions.Reachable s) :
    CatalogIs s ∧ CallsReturn s ∧ ∀ x a s', Step s (x, a) s' → CatalogDoes s x a s' := by
  have hinv := reachable_invariant h
  exact ⟨hinv.catalogIs, hinv.callsReturn, fun _ _ _ => hinv.catalogDoes⟩

/-- A catalog with tables and no transaction. -/
def opened (tables : List TableInfo) (h : tables.Pairwise fun i j => i.tableId < j.tableId)
    (counter : TableId) : State :=
  ⟨⟨⟨counter, 1, fun _ => [], ⟨tables, h⟩⟩, fun _ => none, fun _ => none⟩, fun _ => .absent,
    fun _ => [], fun _ => []⟩

/-- Two transactions create a table `a`; the second to commit is refused. -/
theorem catalog_transactions_two : ∃ s, transactions.Reachable s ∧
    s.globals.catalog.Clashes 2 ∧ (s.threads 2).ending = some .refused ∧ CatalogIs s ∧
    CallsReturn s ∧ ∀ x a s', Step s (x, a) s' → CatalogDoes s x a s' := by
  have hinit : transactions.init (opened [] .nil 0) :=
    ⟨.nil, by simp [opened], fun _ => rfl, fun _ => rfl, fun _ => rfl, fun _ => rfl, fun _ => rfl,
      fun _ => rfl⟩
  have h : ∃ s, transactions.Reachable s ∧ s.globals.catalog.Clashes 2 ∧
      (s.threads 2).ending = some .refused := by
    refine ⟨_, .step (.step (.step (.step (.step (.step (.step (.step (.step (.step (.init hinit)
      (.start .readCommitted)) (.start .readCommitted))
      (show Step _ (1, .checkName [97] [⟨[98], .int, 0⟩]) _ from .checkName rfl rfl))
      (show Step _ (1, .takeId) _ from .takeId rfl))
      (show Step _ (1, .addTable) _ from .addTable rfl rfl))
      (show Step _ (2, .checkName [65] [⟨[98], .int, 0⟩]) _ from .checkName rfl rfl))
      (show Step _ (2, .takeId) _ from .takeId rfl))
      (show Step _ (2, .addTable) _ from .addTable rfl rfl))
      (show Step _ (1, .commit) _ from .commit rfl rfl rfl))
      (show Step _ (2, .commit) _ from .commitRefused rfl rfl rfl), ?_, ?_⟩
    · exact ⟨_, List.mem_cons_self, _, List.mem_cons_self, rfl⟩
    · rfl
  obtain ⟨s, hs, hclash, hrefused⟩ := h
  exact ⟨s, hs, hclash, hrefused, catalog_transactions hs⟩

/-! ## The locks -/

/-- No lock outlives its transaction. -/
theorem locks_released {s : State} (h : transactions.Reachable s) :
    (∀ key x, s.globals.lockTable key = some x →
      ∃ tx, s.globals.activeTransactions x = some tx ∧ key ∈ tx.firstRids) ∧
    (∀ x e, s.threads x = .ended e → ∀ key, s.globals.lockTable key ≠ some x) ∧
    (∀ x a s', Step s (x, a) s' → ∀ y, y ≠ x → ∀ key,
      s'.globals.lockTable key = some y ↔ s.globals.lockTable key = some y) ∧
    CallsReturn s := by
  have hinv := reachable_invariant h
  refine ⟨fun key x hheld => (hinv.locks x).holder hheld, fun x e hx key => ?_,
    fun x a s' hstep => (hinv.step_frame hstep).locks, hinv.callsReturn⟩
  have hlock := hinv.locks x
  rw [hx] at hlock
  exact hlock.2 key

/-- A tuple in the write sets of two transactions: one has inserted it, the other
holds its lock. -/
theorem locks_released_shared : ∃ s key, transactions.Reachable s ∧
    s.globals.lockTable key = some 2 ∧
    (∃ tx, s.globals.activeTransactions 1 = some tx ∧ key ∈ tx.firstRids) ∧
    ∃ tx, s.globals.activeTransactions 2 = some tx ∧ key ∈ tx.firstRids := by
  have hinit : transactions.init (opened [⟨[97], [⟨[98], .int, 0⟩], 0, 0⟩] (by simp) 1) :=
    ⟨by simp [opened], by simp [opened], fun _ => rfl, fun _ => rfl, fun _ => rfl, fun _ => rfl,
      fun _ => rfl, fun _ => rfl⟩
  have h : ∃ s, transactions.Reachable s ∧ s.globals.lockTable ⟨0, 0, 0⟩ = some 2 ∧
      ∃ tx, s.globals.activeTransactions 1 = some tx ∧ (⟨0, 0, 0⟩ : TupleKey) ∈ tx.firstRids := by
    refine ⟨_, .step (.step (.step (.step (.step (.init hinit)
      (.start .readCommitted)) (.start .readCommitted))
      (show Step _ (1, .insertRecord ⟨0, 0, 0⟩) _ from .insertRecord rfl rfl rfl))
      (show Step _ (2, .lock ⟨0, 0, 0⟩) _ from .lock rfl rfl))
      (show Step _ (2, .pass) _ from .acquire rfl rfl), ?_, ?_⟩
    · rfl
    · exact ⟨_, rfl, List.mem_cons_self⟩
  obtain ⟨s, hs, hheld, hinserted⟩ := h
  exact ⟨s, ⟨0, 0, 0⟩, hs, hheld, hinserted, (locks_released hs).1 _ 2 hheld⟩

end Iic3413Db.Server
