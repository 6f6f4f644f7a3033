/-
  Server/Steps.lean --- every step of a transaction keeps the invariant.

  Most steps leave the catalog: `Invariant.advance` asks only what the transaction
  itself knows afterwards.  A commit, a delta and a dropped table change the
  catalog as `Frame` allows; a table id that is taken and a table that is added
  are the two steps that have to look at every other transaction.
-/
import Iic3413Db.Server.Invariant

set_option autoImplicit false

namespace Iic3413Db.Server

open Iic3413Db.Foundation Iic3413Db.RelationalModel Iic3413Db.Storage
open Iic3413Db.System (Catalog TableId TableInfo TableColumn IsolationLevel TransactionState)

variable {s : State} {txId : TxID}

/-! ## The write set -/

section WriteSet

variable {g g' : Globals}

/-- A write set that has grown by a key of a table the transaction sees, and
nothing but that key locked. -/
theorem Running.grow {key : TupleKey} (h : Running g txId) (hwider : g.Wider txId g')
    (hkeys : ∃ tx tx', g.activeTransactions txId = some tx ∧
      g'.activeTransactions txId = some tx' ∧
      ∀ k, k ∈ tx'.firstRids ↔ k = key ∨ k ∈ tx.firstRids)
    (hlocks : ∀ k, g'.lockTable k = some txId → k = key ∨ g.lockTable k = some txId)
    (hvisible : (g.catalog.getTableInfoById key.tableId txId).isSome) : Running g' txId := by
  obtain ⟨tx, hentry, hactive, hsees⟩ := h
  obtain ⟨tx₁, tx', htx₁, htx', hkeys⟩ := hkeys
  obtain rfl : tx₁ = tx := Option.some.inj (htx₁.symm.trans hentry.found)
  obtain ⟨tx₂, tx₃, htx₂, htx₃, hid, hstate, _⟩ := hwider.own
  obtain rfl : tx₂ = tx₁ := Option.some.inj (htx₂.symm.trans hentry.found)
  obtain rfl : tx₃ = tx' := Option.some.inj (htx₃.symm.trans htx')
  refine ⟨tx₃, ⟨htx', hid.trans hentry.id, fun k hk => ?_⟩, hstate.trans hactive, fun k hk => ?_⟩
  · rw [hkeys]
    exact (hlocks k hk).imp id (hentry.covers k)
  · rw [hwider.catalog]
    rcases (hkeys k).mp hk with rfl | hk
    · exact hvisible
    · exact hsees k hk

/-- The entry changes in its deltas or its state. -/
theorem Entry.update {tx tx' : Transaction} (h : Entry g txId tx) (hid : tx'.id = tx.id)
    (hkeys : tx'.firstRids = tx.firstRids) :
    Entry { g with activeTransactions := Function.update g.activeTransactions txId (some tx') }
      txId tx' :=
  ⟨Function.update_self .., hid.trans h.id, fun key hheld => by
    rw [hkeys]
    exact h.covers key hheld⟩

theorem Running.updateCardinalityDelta (h : Running g txId) (tableId : TableId) (action : Int) :
    Running (g.updateCardinalityDelta txId tableId action) txId := by
  obtain ⟨tx, hentry, hactive, hsees⟩ := h
  unfold Globals.updateCardinalityDelta
  rw [hentry.found]
  exact ⟨_, hentry.update rfl rfl, hactive, hsees⟩

theorem updateCardinalityDelta_frame (g : Globals) (txId : TxID) (tableId : TableId)
    (action : Int) :
    (g.updateCardinalityDelta txId tableId action).catalog = g.catalog ∧
    (g.updateCardinalityDelta txId tableId action).lockTable = g.lockTable ∧
    ∀ x, x ≠ txId → (g.updateCardinalityDelta txId tableId action).activeTransactions x =
      g.activeTransactions x := by
  unfold Globals.updateCardinalityDelta
  split
  · exact ⟨rfl, rfl, fun x _ => rfl⟩
  · exact ⟨rfl, rfl, fun _ hx => Function.update_of_ne hx ..⟩

/-- The transaction found is the one the entry is about. -/
theorem Entry.eq {tx tx' : Transaction} (h : Entry g txId tx)
    (htx' : g.activeTransactions txId = some tx') : tx' = tx :=
  Option.some.inj (htx'.symm.trans h.found)

theorem Entry.releaseAllLocks {tx : Transaction} (h : Entry g txId tx) :
    Entry (g.releaseAllLocks tx) txId tx ∧ Unlocked (g.releaseAllLocks tx) txId := by
  have hunlocked : Unlocked (g.releaseAllLocks tx) txId := fun key hheld =>
    Globals.releaseAllLocks_own (fun k hk => h.covers k (by rw [← h.id]; exact hk)) key
      (by rw [h.id]; exact hheld)
  exact ⟨⟨h.found, h.id, fun key hheld => absurd hheld (hunlocked key)⟩, hunlocked⟩

end WriteSet

/-! ## What the others see -/

section Frames

/-- A step that leaves the committed tables, the locks and the entries of the
others. -/
theorem Frame.of_tables {s' : State} (hthreads : ∀ x, x ≠ txId → s'.threads x = s.threads x)
    (hcreated : ∀ x, x ≠ txId → s'.created x = s.created x)
    (happlied : s'.applied = s.applied)
    (htables : s'.globals.catalog.tables = s.globals.catalog.tables)
    (hprocess : ∀ x, x ≠ txId →
      s'.globals.catalog.inProcessTables x = s.globals.catalog.inProcessTables x)
    (hentries : ∀ x, x ≠ txId →
      s'.globals.activeTransactions x = s.globals.activeTransactions x)
    (hlocks : s'.globals.lockTable = s.globals.lockTable)
    (hcounter : s.globals.catalog.tableIdCounter ≤ s'.globals.catalog.tableIdCounter) :
    Frame txId s s' where
  threads := hthreads
  created := hcreated
  applied x _ := congrFun happlied x
  inProcess := hprocess
  entries := hentries
  locks x _ key := by rw [hlocks]
  kept i hi := ⟨i, by rw [htables]; exact hi, .refl i⟩
  added j hj := .inl ⟨j, by rw [← htables]; exact hj, .refl j⟩
  counter := hcounter

theorem Frame.start (level : IsolationLevel) :
    Frame s.globals.catalog.transactionCount s (s.advance s.globals.catalog.transactionCount
      (s.globals.startTransaction level).2 .idle) :=
  .of_tables (fun _ hx => Function.update_of_ne hx ..) (fun _ _ => rfl) rfl rfl (fun _ _ => rfl)
    (fun _ hx => Function.update_of_ne hx ..) rfl (le_refl _)

theorem Frame.takeId {t : Thread} :
    Frame txId s (s.advance txId { s.globals with catalog := s.globals.catalog.nextTableId.2 } t) :=
  .of_tables (fun _ hx => Function.update_of_ne hx ..) (fun _ _ => rfl) rfl rfl (fun _ _ => rfl)
    (fun _ _ => rfl) rfl (Nat.le_succ _)

theorem Frame.addTable {info : TableInfo} {created : List TableInfo} :
    Frame txId s { s.advance txId
        { s.globals with catalog := s.globals.catalog.addTable txId info } .idle with
      created := Function.update s.created txId created } :=
  .of_tables (fun _ hx => Function.update_of_ne hx ..) (fun _ hx => Function.update_of_ne hx ..)
    rfl rfl (fun _ hx => Function.update_of_ne hx ..) (fun _ _ => rfl) rfl (le_refl _)

theorem Frame.dropTables {t : Thread} :
    Frame txId s (s.advance txId
      { s.globals with catalog := s.globals.catalog.abortInProgressTables txId } t) :=
  .of_tables (fun _ hx => Function.update_of_ne hx ..) (fun _ _ => rfl) rfl rfl
    (fun _ hx => Function.update_of_ne hx ..) (fun _ _ => rfl) rfl (le_refl _)

theorem Frame.insertRecord {key : TupleKey} {g : Globals} {t : Thread}
    (hadd : s.globals.addToWriteSet key txId = .ok g) : Frame txId s (s.advance txId g t) := by
  obtain ⟨hwider, hlocks, _⟩ := Globals.addToWriteSet_ok hadd
  exact .of_globals hwider.catalog hwider.others fun x _ k => by rw [hlocks]

theorem Frame.acquire {key : TupleKey} {g : Globals} {t : Thread}
    (hacquire : s.globals.tryAcquireLock txId key = (g, .ok true)) :
    Frame txId s (s.advance txId g t) := by
  rcases Globals.tryAcquireLock_true hacquire with ⟨rfl, _⟩ | ⟨hwider, hfree, hlocks, _⟩
  · exact .setThread
  · refine .of_globals hwider.catalog hwider.others fun x hx k => ?_
    rw [hlocks, Function.update_apply]
    split
    · rename_i heq
      rw [heq, hfree]
      simp [Ne.symm hx]
    · rfl

theorem Frame.bumpDelta (tableId : TableId) (action : Int) {t : Thread} :
    Frame txId s (s.advance txId (s.globals.updateCardinalityDelta txId tableId action) t) := by
  obtain ⟨hcatalog, hlocks, hentries⟩ :=
    updateCardinalityDelta_frame s.globals txId tableId action
  exact .of_globals hcatalog hentries fun x _ key => by rw [hlocks]

theorem Frame.setState {tx : Transaction} (state : TransactionState) {t : Thread} :
    Frame txId s (s.advance txId (s.globals.setState txId tx state) t) :=
  .of_globals rfl (fun _ hx => Function.update_of_ne hx ..) fun _ _ _ => .rfl

theorem Frame.releaseLocks {tx : Transaction} {t : Thread} (hid : tx.id = txId) :
    Frame txId s (s.advance txId (s.globals.releaseAllLocks tx) t) :=
  .of_globals rfl (fun _ _ => rfl) fun x hx _ =>
    Globals.releaseAllLocks_other (by rw [hid]; exact hx)

theorem Frame.erase {t : Thread} : Frame txId s (s.advance txId (s.globals.erase txId) t) :=
  .of_globals rfl (fun _ hx => Function.update_of_ne hx ..) fun _ _ _ => .rfl

/-- What a commit of the catalog leaves: the committed tables are those that were
and those of the transaction. -/
theorem Invariant.committed (h : Invariant s) {c : Catalog}
    (hopen : Uncommitted (s.tables txId) txId)
    (hcommit : s.globals.catalog.commitInProgressTables txId = .ok c) :
    ¬ s.globals.catalog.Clashes txId ∧
    (∀ i, i ∈ c.tables.entries ↔
      i ∈ s.globals.catalog.tables.entries ∨ i ∈ s.created txId) ∧
    c.inProcessTables = Function.update s.globals.catalog.inProcessTables txId [] ∧
    c.tableIdCounter = s.globals.catalog.tableIdCounter ∧
    c.transactionCount = s.globals.catalog.transactionCount := by
  have hin : s.globals.catalog.inProcessTables txId = s.created txId := hopen.inProcess
  have hapart : ∀ i ∈ s.created txId, ∀ c ∈ s.globals.catalog.tables.entries,
      c.tableId ≠ i.tableId := hopen.apart
  rcases s.globals.catalog.commitInProgressTables_cases txId with ⟨_, msg, herr⟩ | ⟨hfree, hok⟩
  · rw [herr] at hcommit
    cases hcommit
  · rw [hok, hin] at hcommit
    cases hcommit
    exact ⟨hfree, fun i => Catalog.mem_foldl_insert (h.createdNodup txId) hapart, rfl, rfl, rfl⟩

theorem Frame.commit (h : Invariant s) {c : Catalog} {t : Thread}
    (hopen : Uncommitted (s.tables txId) txId)
    (hcommit : s.globals.catalog.commitInProgressTables txId = .ok c) :
    Frame txId s (s.advance txId { s.globals with catalog := c } t) := by
  obtain ⟨_, hmem, hprocess, hcounter, _⟩ := h.committed hopen hcommit
  have hin : s.globals.catalog.inProcessTables txId = s.created txId := hopen.inProcess
  refine ⟨fun _ hx => Function.update_of_ne hx .., fun _ _ => rfl, fun _ _ => rfl,
    fun x hx => ?_, fun _ _ => rfl, fun _ _ _ => .rfl,
    fun i hi => ⟨i, (hmem i).mpr (.inl hi), .refl i⟩, fun j hj => ?_, hcounter.ge⟩
  · show c.inProcessTables x = _
    rw [hprocess, Function.update_of_ne hx]
  · rcases (hmem j).mp hj with hj | hj
    · exact .inl ⟨j, hj, .refl j⟩
    · exact .inr ⟨j, by rw [hin]; exact hj, .refl j⟩

theorem addCardinality_same (tableId : TableId) (delta : Int) (info : TableInfo) :
    SameTable (Catalog.addCardinality tableId delta info) info := by
  unfold Catalog.addCardinality
  split
  · exact ⟨rfl, rfl, rfl⟩
  · exact .refl info

/-- Other cardinalities, perhaps, and nothing else. -/
structure Recounted (c c' : Catalog) : Prop where
  inProcess : c'.inProcessTables = c.inProcessTables
  counter : c'.tableIdCounter = c.tableIdCounter
  count : c'.transactionCount = c.transactionCount
  kept : ∀ i ∈ c.tables.entries, ∃ j ∈ c'.tables.entries, SameTable j i
  added : ∀ j ∈ c'.tables.entries, ∃ i ∈ c.tables.entries, SameTable j i
  names : c'.tables.entries.map TableInfo.name = c.tables.entries.map TableInfo.name

/-- `update_cardinality`, for a delta that is not zero. -/
theorem recounted (c : Catalog) (tableId : TableId) (delta : Int) :
    Recounted c (if delta ≠ 0 then c.updateCardinality tableId delta else c) := by
  split
  · refine ⟨rfl, rfl, rfl,
      fun i hi => ⟨_, List.mem_map_of_mem hi, addCardinality_same tableId delta i⟩,
      fun j hj => ?_, ?_⟩
    · obtain ⟨i, hi, rfl⟩ := List.mem_map.mp hj
      exact ⟨i, hi, addCardinality_same tableId delta i⟩
    · show (c.tables.entries.map _).map TableInfo.name = _
      rw [List.map_map]
      exact List.map_congr_left fun i _ => Catalog.addCardinality_name tableId delta i
  · exact ⟨rfl, rfl, rfl, fun i hi => ⟨i, hi, .refl i⟩, fun i hi => ⟨i, hi, .refl i⟩, rfl⟩

theorem Frame.applyDelta {c : Catalog} {t : Thread} {applied : List (TableId × Int)}
    (hc : Recounted s.globals.catalog c) :
    Frame txId s { s.advance txId { s.globals with catalog := c } t with
      applied := Function.update s.applied txId applied } :=
  ⟨fun _ hx => Function.update_of_ne hx .., fun _ _ => rfl,
    fun _ hx => Function.update_of_ne hx .., fun x _ => congrFun hc.inProcess x, fun _ _ => rfl,
    fun _ _ _ => .rfl, hc.kept, fun j hj => .inl (hc.added j hj), hc.counter.ge⟩

end Frames

/-! ## Steps that leave the catalog -/

/-- A thread goes on and nothing else changes. -/
theorem Invariant.setThread (h : Invariant s) {t : Thread} (hthere : s.threads txId ≠ .absent)
    (hnumbered : ∀ name columns tableId, t ≠ .numbered name columns tableId)
    (hcatalog : CatalogOk (s.tables txId) txId t) (hlock : LockOk s.globals txId t) :
    Invariant (s.setThread txId t) :=
  h.advance .setThread hthere rfl hnumbered hcatalog hlock

theorem Invariant.checkName (h : Invariant s) {tableName name : List UInt8}
    {columns : List TableColumn} (hs : s.threads txId = .idle)
    (hname : s.globals.catalog.checkName tableName txId = .ok name) :
    Invariant (s.setThread txId (.creating name columns)) := by
  have hopen := h.catalog txId
  have hrunning := h.locks txId
  rw [hs] at hopen hrunning
  have hfresh := (Catalog.checkName_ok hname).2.2
  refine h.setThread (by simp [hs]) (by simp) ⟨hopen, fun i hi => ?_⟩ hrunning
  have hin := Uncommitted.inProcess hopen
  exact hfresh i (hin ▸ hi)

theorem Invariant.insertRecord (h : Invariant s) {key : TupleKey} {g : Globals}
    (hs : s.threads txId = .idle)
    (htable : (s.globals.catalog.getTableInfoById key.tableId txId).isSome)
    (hadd : s.globals.addToWriteSet key txId = .ok g) : Invariant (s.advance txId g .idle) := by
  have hopen := h.catalog txId
  have hrunning := h.locks txId
  rw [hs] at hopen hrunning
  obtain ⟨hwider, hlocks, hkeys⟩ := Globals.addToWriteSet_ok hadd
  refine h.advance (.insertRecord hadd) (by simp [hs]) hwider.catalog (by simp) hopen
    (Running.grow hrunning hwider hkeys (fun k hk => ?_) htable)
  rw [hlocks] at hk
  exact .inr hk

theorem Invariant.acquire (h : Invariant s) {key : TupleKey} {g : Globals}
    (hs : s.threads txId = .waiting key)
    (hacquire : s.globals.tryAcquireLock txId key = (g, .ok true)) :
    Invariant (s.advance txId g .idle) := by
  have hopen := h.catalog txId
  have hlock := h.locks txId
  rw [hs] at hopen hlock
  obtain ⟨hrunning, htable⟩ := hlock
  rcases Globals.tryAcquireLock_true hacquire with ⟨rfl, _⟩ | ⟨hwider, _, hlocks, hkeys⟩
  · exact h.advance .setThread (by simp [hs]) rfl (by simp) hopen hrunning
  · refine h.advance (.acquire hacquire) (by simp [hs]) hwider.catalog (by simp) hopen
      (Running.grow hrunning hwider hkeys (fun k hk => ?_) htable)
    rw [hlocks, Function.update_apply] at hk
    split at hk
    · rename_i heq
      exact .inl heq
    · exact .inr hk

theorem Invariant.retry (h : Invariant s) {key : TupleKey} {g : Globals}
    (hs : s.threads txId = .waiting key)
    (hretry : s.globals.tryAcquireLock txId key = (g, .ok false)) :
    Invariant (s.advance txId g (.waiting key)) := by
  have hopen := h.catalog txId
  have hlock := h.locks txId
  rw [hs] at hopen hlock
  obtain rfl := Globals.tryAcquireLock_false hretry
  exact h.setThread (by simp [hs]) (by simp) hopen hlock

/-- A transaction that waits is active, so no pass throws. -/
theorem Invariant.acquire_returns (h : Invariant s) {key : TupleKey} {g : Globals} {e : Fault}
    (hs : s.threads txId = .waiting key) :
    s.globals.tryAcquireLock txId key ≠ (g, .error e) := by
  intro hthrows
  have hlock := h.locks txId
  rw [hs] at hlock
  obtain ⟨tx, hentry, _⟩ := hlock.1
  have hnone := Globals.tryAcquireLock_error hthrows
  rw [hentry.found] at hnone
  cases hnone

/-- The three ways into `_abort_transaction`. -/
theorem Invariant.undo (h : Invariant s) {ending : Ending} (hending : ending ≠ .committed)
    (hthere : s.threads txId ≠ .absent) (hopen : Uncommitted (s.tables txId) txId)
    (hrunning : Running s.globals txId) : Invariant (s.setThread txId (.undoing ending)) :=
  h.setThread hthere (by simp) ⟨hopen, hending⟩ hrunning

theorem Invariant.bumpDelta (h : Invariant s) (tableId : TableId) (action : Int)
    (hs : s.threads txId = .idle) :
    Invariant (s.advance txId (s.globals.updateCardinalityDelta txId tableId action) .idle) := by
  have hopen := h.catalog txId
  have hrunning := h.locks txId
  rw [hs] at hopen hrunning
  exact h.advance (.bumpDelta tableId action) (by simp [hs])
    (updateCardinalityDelta_frame s.globals txId tableId action).1 (by simp) hopen
    (Running.updateCardinalityDelta hrunning tableId action)

/-- `_abort_transaction` and `commit_transaction` set the state. -/
theorem Invariant.setState (h : Invariant s) {tx : Transaction} {t : Thread}
    (state : TransactionState) (hthere : s.threads txId ≠ .absent)
    (htx : s.globals.activeTransactions txId = some tx)
    (hentry : ∃ tx, Entry s.globals txId tx)
    (hnumbered : ∀ name columns tableId, t ≠ .numbered name columns tableId)
    (hcatalog : CatalogOk (s.tables txId) txId t)
    (hlock : ∀ g, (∃ tx, Entry g txId tx) → LockOk g txId t) :
    Invariant (s.advance txId (s.globals.setState txId tx state) t) := by
  obtain ⟨tx', hentry⟩ := hentry
  obtain rfl := hentry.eq htx
  have hentry : Entry (s.globals.setState txId tx state) txId { tx with state := state } :=
    hentry.update rfl rfl
  exact h.advance (.setState state) hthere rfl hnumbered hcatalog (hlock _ ⟨_, hentry⟩)

theorem Invariant.releaseLocks (h : Invariant s) {tx : Transaction} {ending : Ending}
    (hthere : s.threads txId ≠ .absent) (htx : s.globals.activeTransactions txId = some tx)
    (hentry : ∃ tx, Entry s.globals txId tx)
    (hcatalog : CatalogOk (s.tables txId) txId (.released ending)) :
    Invariant (s.advance txId (s.globals.releaseAllLocks tx) (.released ending)) := by
  obtain ⟨tx', hentry⟩ := hentry
  obtain rfl := hentry.eq htx
  obtain ⟨hentry', hunlocked⟩ := hentry.releaseAllLocks
  exact h.advance (.releaseLocks hentry.id) hthere rfl (by simp) hcatalog
    ⟨⟨tx, hentry'⟩, hunlocked⟩

theorem Invariant.erase (h : Invariant s) {ending : Ending}
    (hs : s.threads txId = .released ending) :
    Invariant (s.advance txId (s.globals.erase txId) (.ended ending)) := by
  have hcatalog := h.catalog txId
  have hlock := h.locks txId
  rw [hs] at hcatalog hlock
  exact h.advance .erase (by simp [hs]) rfl (by simp) hcatalog ⟨Function.update_self .., hlock.2⟩

/-! ## Steps that change the catalog -/

/-- A new transaction is nobody's. -/
theorem Invariant.absent (h : Invariant s) :
    s.threads s.globals.catalog.transactionCount = .absent := by
  by_contra hthere
  exact lt_irrefl _ (h.known _ hthere)

theorem Invariant.start (h : Invariant s) (level : IsolationLevel) :
    Invariant (s.advance s.globals.catalog.transactionCount
      (s.globals.startTransaction level).2 .idle) := by
  have hcatalog := h.catalog s.globals.catalog.transactionCount
  have hlock := h.locks s.globals.catalog.transactionCount
  rw [h.absent] at hcatalog hlock
  have hself := s.advance_self s.globals.catalog.transactionCount
    (s.globals.startTransaction level).2 .idle
  refine h.keep (.start level) h.names rfl (Nat.le_succ _) (Nat.lt_succ_self _) rfl ?_ ?_ ?_
  · rw [hself]
    simp
  · rw [hself]
    exact ⟨⟨hcatalog.1.apart, hcatalog.1.applied⟩, hcatalog.1.inProcess⟩
  · rw [hself]
    refine ⟨_, ⟨Function.update_self .., rfl, fun key hheld => ?_⟩, rfl, fun key hkey => ?_⟩
    · exact absurd hheld (hlock.2 key)
    · simp at hkey

theorem Invariant.takeId (h : Invariant s) {name : List UInt8} {columns : List TableColumn}
    (hs : s.threads txId = .creating name columns) :
    Invariant (s.advance txId { s.globals with catalog := s.globals.catalog.nextTableId.2 }
      (.numbered name columns s.globals.catalog.nextTableId.1)) := by
  have hcatalog := h.catalog txId
  have hlock := h.locks txId
  rw [hs] at hcatalog hlock
  obtain ⟨s', hs'⟩ : ∃ s', s.advance txId
      { s.globals with catalog := s.globals.catalog.nextTableId.2 }
      (.numbered name columns s.globals.catalog.nextTableId.1) = s' := ⟨_, rfl⟩
  have hself : s'.threads txId = .numbered name columns s.globals.catalog.tableIdCounter := by
    rw [← hs']
    exact Function.update_self ..
  have hframe : Frame txId s s' := by
    rw [← hs']
    exact .takeId
  have hcreated : s'.created = s.created := by rw [← hs']; rfl
  have hcounter : s'.globals.catalog.tableIdCounter = s.globals.catalog.tableIdCounter + 1 := by
    rw [← hs']; rfl
  have htables : s'.globals.catalog.tables = s.globals.catalog.tables := by rw [← hs']; rfl
  have hcount : s'.globals.catalog.transactionCount = s.globals.catalog.transactionCount := by
    rw [← hs']; rfl
  rw [hs']
  refine ⟨?_, fun c hc => ?_, fun x hx => ?_, fun x i hi => ?_, ?_, ?_, ?_, ?_, fun x => ?_,
    fun x => ?_⟩
  · rw [htables]
    exact h.names
  · rw [htables] at hc
    rw [hcounter]
    exact Nat.lt_succ_of_lt (h.ids c hc)
  · rw [hcount]
    by_cases hxt : x = txId
    · rw [hxt]
      exact h.known txId (by simp [hs])
    · rw [hframe.threads x hxt] at hx
      exact h.known x hx
  · rw [hcreated] at hi
    rw [hcounter]
    exact Nat.lt_succ_of_lt (h.createdIds x i hi)
  · rw [hcreated]
    exact h.createdNames
  · rw [hcreated]
    exact h.createdNodup
  · rw [hcreated]
    exact h.distinct
  · rw [hcreated]
    -- the id is the counter, which every id so far is below
    have hbelow : ∀ y name' columns' tableId', y ≠ txId →
        s'.threads y = .numbered name' columns' tableId' →
        tableId' < s.globals.catalog.tableIdCounter := by
      intro y name' columns' tableId' hyt hy
      rw [hframe.threads y hyt] at hy
      have hy' := h.catalog y
      rw [hy] at hy'
      exact hy'.2.2.1
    intro x name' columns' tableId' hx
    by_cases hxt : x = txId
    · rw [hxt, hself] at hx
      cases hx
      refine ⟨fun y i hi => ne_of_lt (h.createdIds y i hi), fun y name' columns' hy => ?_⟩
      by_contra hyt
      exact lt_irrefl _ (hbelow y name' columns' _ (fun heq => hyt (heq.trans hxt.symm)) hy)
    · have hlt := hbelow x name' columns' tableId' hxt hx
      rw [hframe.threads x hxt] at hx
      obtain ⟨hids, hothers⟩ := h.numbered x name' columns' tableId' hx
      refine ⟨hids, fun y name'' columns'' hy => ?_⟩
      by_cases hyt : y = txId
      · rw [hyt, hself] at hy
        cases hy
        exact absurd hlt (lt_irrefl _)
      · rw [hframe.threads y hyt] at hy
        exact hothers y name'' columns'' hy
  · by_cases hxt : x = txId
    · rw [hxt, hself]
      refine ⟨?_, ?_, ?_, ?_⟩
      · rw [← hs']
        exact ⟨⟨hcatalog.1.apart, hcatalog.1.applied⟩, hcatalog.1.inProcess⟩
      · rw [← hs']
        exact hcatalog.2
      · rw [← hs']
        exact Nat.lt_succ_self _
      · rw [← hs']
        exact fun c hc => ne_of_lt (h.ids c hc)
    · exact (h.frame hframe hxt).1
  · by_cases hxt : x = txId
    · rw [hxt, hself, ← hs']
      obtain ⟨tx, hentry, hactive, hvisible⟩ := hlock
      exact ⟨tx, ⟨hentry.found, hentry.id, hentry.covers⟩, hactive, hvisible⟩
    · exact (h.frame hframe hxt).2

theorem Invariant.addTable (h : Invariant s) {name : List UInt8} {columns : List TableColumn}
    {info : TableInfo} (hs : s.threads txId = .numbered name columns info.tableId)
    (hname : info.name = name) :
    Invariant { s.advance txId
        { s.globals with catalog := s.globals.catalog.addTable txId info } .idle with
      created := Function.update s.created txId (s.created txId ++ [info]) } := by
  have hcatalog := h.catalog txId
  have hlock := h.locks txId
  rw [hs] at hcatalog hlock
  obtain ⟨hopen, hnames, hbelow, hapart⟩ := hcatalog
  obtain ⟨hids, honly⟩ := h.numbered txId name columns info.tableId hs
  obtain ⟨s', hs'⟩ : ∃ s' : State, { s.advance txId
      { s.globals with catalog := s.globals.catalog.addTable txId info } .idle with
      created := Function.update s.created txId (s.created txId ++ [info]) } = s' := ⟨_, rfl⟩
  have hself : s'.threads txId = .idle := by
    rw [← hs']
    exact Function.update_self ..
  have hframe : Frame txId s s' := by
    rw [← hs']
    exact .addTable
  have hown : s'.created txId = s.created txId ++ [info] := by
    rw [← hs']
    exact Function.update_self ..
  have hcreated : ∀ x, ∀ i ∈ s'.created x, i ∈ s.created x ∨ x = txId ∧ i = info := by
    intro x i hi
    by_cases hxt : x = txId
    · rw [hxt, hown, List.mem_append, List.mem_singleton] at hi
      exact hi.imp (fun hi => hxt ▸ hi) fun hi => ⟨hxt, hi⟩
    · rw [hframe.created x hxt] at hi
      exact .inl hi
  have htables : s'.globals.catalog.tables = s.globals.catalog.tables := by rw [← hs']; rfl
  have hcounter : s'.globals.catalog.tableIdCounter = s.globals.catalog.tableIdCounter := by
    rw [← hs']; rfl
  have hcount : s'.globals.catalog.transactionCount = s.globals.catalog.transactionCount := by
    rw [← hs']; rfl
  rw [hs']
  refine ⟨?_, ?_, fun x hx => ?_, fun x i hi => ?_, fun x => ?_, fun x => ?_,
    fun x y hxy i hi j hj => ?_, fun x name' columns' tableId hx => ?_, fun x => ?_, fun x => ?_⟩
  · rw [htables]
    exact h.names
  · rw [htables, hcounter]
    exact h.ids
  · rw [hcount]
    by_cases hxt : x = txId
    · rw [hxt]
      exact h.known txId (by simp [hs])
    · rw [hframe.threads x hxt] at hx
      exact h.known x hx
  · rw [hcounter]
    rcases hcreated x i hi with hi | ⟨_, rfl⟩
    · exact h.createdIds x i hi
    · exact hbelow
  · by_cases hxt : x = txId
    · rw [hxt, hown, List.map_append]
      refine (h.createdNames txId).append (List.nodup_singleton _) ?_
      rw [List.map_singleton, List.disjoint_singleton]
      intro hin
      obtain ⟨i, hi, heq⟩ := List.mem_map.mp hin
      exact hnames i hi (heq.trans hname)
    · rw [hframe.created x hxt]
      exact h.createdNames x
  · by_cases hxt : x = txId
    · rw [hxt, hown, List.map_append]
      refine (h.createdNodup txId).append (List.nodup_singleton _) ?_
      rw [List.map_singleton, List.disjoint_singleton]
      intro hin
      obtain ⟨i, hi, heq⟩ := List.mem_map.mp hin
      exact hids txId i hi heq
    · rw [hframe.created x hxt]
      exact h.createdNodup x
  · rcases hcreated x i hi with hi | ⟨hx, rfl⟩
    · rcases hcreated y j hj with hj | ⟨hy, rfl⟩
      · exact h.distinct x y hxy i hi j hj
      · exact (hids x i hi).symm
    · rcases hcreated y j hj with hj | ⟨hy, rfl⟩
      · exact hids y j hj
      · exact absurd (hx.trans hy.symm) hxy
  · have hxt : x ≠ txId := by
      rintro rfl
      rw [hself] at hx
      cases hx
    rw [hframe.threads x hxt] at hx
    obtain ⟨hids', honly'⟩ := h.numbered x name' columns' tableId hx
    refine ⟨fun y i hi => ?_, fun y name'' columns'' hy => ?_⟩
    · rcases hcreated y i hi with hi | ⟨_, rfl⟩
      · exact hids' y i hi
      · intro heq
        rw [← heq] at hx
        exact hxt (honly x name' columns' hx)
    · have hyt : y ≠ txId := by
        rintro rfl
        rw [hself] at hy
        cases hy
      rw [hframe.threads y hyt] at hy
      exact honly' y name'' columns'' hy
  · by_cases hxt : x = txId
    · have hprocess : s'.globals.catalog.inProcessTables txId =
          s.globals.catalog.inProcessTables txId ++ [info] := by
        rw [← hs']
        exact Function.update_self ..
      rw [hxt, hself]
      refine ⟨⟨fun i hi c hc => ?_, ?_⟩, ?_⟩
      · have hc : c ∈ s.globals.catalog.tables.entries := by rw [← htables]; exact hc
        rcases hcreated txId i hi with hi | ⟨_, rfl⟩
        · exact hopen.apart i hi c hc
        · exact hapart c hc
      · rw [← hs']
        exact hopen.applied
      · have hin : s.globals.catalog.inProcessTables txId = s.created txId := hopen.inProcess
        exact hprocess.trans (by rw [hin]; exact hown.symm)
    · exact (h.frame hframe hxt).1
  · by_cases hxt : x = txId
    · rw [hxt, hself, ← hs']
      obtain ⟨tx, hentry, hactive, hvisible⟩ := hlock
      refine ⟨tx, ⟨hentry.found, hentry.id, hentry.covers⟩, hactive, fun key hkey => ?_⟩
      obtain ⟨i, hi⟩ := Option.isSome_iff_exists.mp (hvisible key hkey)
      obtain ⟨hid, hin⟩ := Catalog.getTableInfoById_some hi
      refine Catalog.getTableInfoById_isSome ⟨i, hin.imp id fun hin => ?_, hid⟩
      show i ∈ Function.update s.globals.catalog.inProcessTables txId _ txId
      rw [Function.update_self]
      exact List.mem_append_left _ hin
    · exact (h.frame hframe hxt).2

/-- A commit of the catalog publishes the tables of the transaction. -/
theorem Invariant.commit (h : Invariant s) {c : Catalog} {deltas : List (TableId × Int)}
    (hs : s.threads txId = .idle)
    (hcommit : s.globals.catalog.commitInProgressTables txId = .ok c) :
    Invariant (s.advance txId { s.globals with catalog := c } (.applying deltas)) := by
  have hopen : Uncommitted (s.tables txId) txId := by
    have hcatalog := h.catalog txId
    rwa [hs] at hcatalog
  have hrunning : Running s.globals txId := by
    have hlock := h.locks txId
    rwa [hs] at hlock
  have hin : s.globals.catalog.inProcessTables txId = s.created txId := hopen.inProcess
  obtain ⟨hfree, hmem, hprocess, hcounter, hcount⟩ := h.committed hopen hcommit
  have hself := s.advance_self txId { s.globals with catalog := c } (.applying deltas)
  have hnames : (c.tables.entries.map TableInfo.name).Nodup := by
    have hclash : ∀ i ∈ s.created txId, ∀ c ∈ s.globals.catalog.tables.entries, i.name ≠ c.name :=
      fun i hi c hc heq => hfree ⟨i, by rw [hin]; exact hi, c, hc, heq⟩
    refine List.Nodup.map_on (fun i hi j hj heq => ?_) (c.tables.nodup_keys.of_map _)
    rcases (hmem i).mp hi with hi | hi
    · rcases (hmem j).mp hj with hj | hj
      · exact List.inj_on_of_nodup_map h.names hi hj heq
      · exact absurd heq.symm (hclash j hj i hi)
    · rcases (hmem j).mp hj with hj | hj
      · exact absurd heq (hclash i hi j hj)
      · exact List.inj_on_of_nodup_map (h.createdNames txId) hi hj heq
  refine h.keep (.commit h hopen hcommit) hnames hcounter hcount.ge ?_ rfl ?_ ?_ ?_
  · show txId < c.transactionCount
    rw [hcount]
    exact h.known txId (by simp [hs])
  · rw [hself]
    simp
  · rw [hself]
    refine ⟨?_, fun i hi => ⟨i, (hmem i).mpr (.inr hi), .refl i⟩⟩
    show c.inProcessTables txId = []
    rw [hprocess, Function.update_self]
  · rw [hself]
    obtain ⟨tx, hentry, _⟩ := hrunning
    exact ⟨tx, ⟨hentry.found, hentry.id, hentry.covers⟩⟩

/-- A step of a commit that changes cardinalities only. -/
theorem Invariant.applyDelta (h : Invariant s) {c : Catalog} {deltas deltas' : List (TableId × Int)}
    {applied : List (TableId × Int)} (hs : s.threads txId = .applying deltas)
    (hc : Recounted s.globals.catalog c) :
    Invariant { s.advance txId { s.globals with catalog := c } (.applying deltas') with
      applied := Function.update s.applied txId applied } := by
  have hpublished : Published (s.tables txId) txId := by
    have hcatalog := h.catalog txId
    rwa [hs] at hcatalog
  have hentry : ∃ tx, Entry s.globals txId tx := by
    have hlock := h.locks txId
    rwa [hs] at hlock
  obtain ⟨s', hs'⟩ : ∃ s' : State,
      { s.advance txId { s.globals with catalog := c } (.applying deltas') with
        applied := Function.update s.applied txId applied } = s' := ⟨_, rfl⟩
  have hself : s'.threads txId = .applying deltas' := by
    rw [← hs']
    exact Function.update_self ..
  have hcatalog' : s'.globals.catalog = c := by rw [← hs']; rfl
  have hcreated : s'.created = s.created := by rw [← hs']; rfl
  have hframe : Frame txId s s' := by
    rw [← hs']
    exact .applyDelta hc
  rw [hs']
  refine h.keep hframe ?_ ?_ ?_ ?_ (congrFun hcreated txId) ?_ ?_ ?_
  · rw [hcatalog', hc.names]
    exact h.names
  · rw [hcatalog', hc.counter]
  · rw [hcatalog', hc.count]
  · rw [hcatalog', hc.count]
    exact h.known txId (by simp [hs])
  · rw [hself]
    simp
  · rw [hself]
    refine ⟨?_, fun i hi => ?_⟩
    · show s'.globals.catalog.inProcessTables txId = []
      rw [hcatalog', hc.inProcess]
      exact hpublished.inProcess
    · have hi : i ∈ s.created txId := by rw [← hcreated]; exact hi
      obtain ⟨j, hj, hsame⟩ := hpublished.tables i hi
      obtain ⟨k, hk, hsame'⟩ := hc.kept j hj
      exact ⟨k, by rw [← hcatalog'] at hk; exact hk, hsame'.trans hsame⟩
  · rw [hself, ← hs']
    obtain ⟨tx, hentry⟩ := hentry
    exact ⟨tx, ⟨hentry.found, hentry.id, hentry.covers⟩⟩

/-- `abort_in_progress_tables`. -/
theorem Invariant.dropTables (h : Invariant s) {ending : Ending}
    (hs : s.threads txId = .undoing ending) :
    Invariant (s.advance txId
      { s.globals with catalog := s.globals.catalog.abortInProgressTables txId }
      (.dropped ending)) := by
  have hcatalog := h.catalog txId
  have hlock := h.locks txId
  rw [hs] at hcatalog hlock
  obtain ⟨hopen, hending⟩ := hcatalog
  obtain ⟨tx, hentry, _⟩ := hlock
  have hself := s.advance_self txId
    { s.globals with catalog := s.globals.catalog.abortInProgressTables txId } (.dropped ending)
  refine h.keep .dropTables h.names rfl (le_refl _) (h.known txId (by simp [hs])) rfl ?_ ?_ ?_
  · rw [hself]
    simp
  · rw [hself]
    exact ⟨⟨⟨hopen.apart, hopen.applied⟩, Function.update_self ..⟩, hending⟩
  · rw [hself]
    exact ⟨tx, ⟨hentry.found, hentry.id, hentry.covers⟩⟩

/-! ## Every step -/

/-- What a step leaves of the other transactions. -/
theorem Invariant.step_frame {s s' : State} {l : TxID × Action} (h : Invariant s)
    (hstep : Step s l s') : Frame l.1 s s' := by
  cases hstep with
  | start level => exact .start level
  | checkName hs hname => exact .setThread
  | takeId hs => exact .takeId
  | addTable hs hfinal => exact .addTable
  | createThrows hs => exact .setThread
  | insertRecord hs htable hadd => exact .insertRecord hadd
  | lock hs htable => exact .setThread
  | acquire hs hacquire => exact .acquire hacquire
  | retry hs hretry =>
      obtain rfl := Globals.tryAcquireLock_false hretry
      exact .setThread
  | acquireThrows hs hthrows => exact absurd hthrows (h.acquire_returns hs)
  | timeout hs hbegin => exact .setThread
  | bumpDelta tableId action hs => exact .bumpDelta tableId action
  | @commit txId tx c hs hbegin hcommit =>
      have hopen := h.catalog txId
      rw [hs] at hopen
      exact .commit h hopen hcommit
  | commitRefused hs hbegin hrefused => exact .setThread
  | @applyDelta txId tableId delta deltas hs =>
      exact .applyDelta (recounted s.globals.catalog tableId delta)
  | setCommitted hs htx => exact .setState .committed
  | @releaseLocks txId tx hs htx =>
      have hentry := h.locks txId
      rw [hs] at hentry
      obtain ⟨tx', hentry⟩ := hentry
      obtain rfl := hentry.eq htx
      exact .releaseLocks hentry.id
  | abort hs hbegin => exact .setThread
  | dropTables hs htx hundo => exact .dropTables
  | setAborted hs htx => exact .setState .committed
  | @unlock txId tx ending hs htx =>
      have hentry := h.locks txId
      rw [hs] at hentry
      obtain ⟨tx', hentry⟩ := hentry
      obtain rfl := hentry.eq htx
      exact .releaseLocks hentry.id
  | erase hs => exact .erase

/-- A transaction that is there stays there. -/
theorem Step.there {s s' : State} {txId : TxID} {a : Action} (hstep : Step s (txId, a) s')
    (hthere : s.threads txId ≠ .absent) : s'.threads txId ≠ .absent := by
  cases hstep with
  | start level => simp
  | checkName hs hname => simp
  | takeId hs => simp
  | @addTable _ name columns final tableId hs hfinal =>
      show Function.update s.threads txId .idle txId ≠ .absent
      simp
  | createThrows hs => simp
  | insertRecord hs htable hadd => simp
  | lock hs htable => simp
  | acquire hs hacquire => simp
  | retry hs hretry => simp
  | acquireThrows hs hthrows => simp
  | timeout hs hbegin => simp
  | bumpDelta tableId action hs => simp
  | commit hs hbegin hcommit => simp
  | commitRefused hs hbegin hrefused => simp
  | @applyDelta _ tableId delta deltas hs =>
      show Function.update s.threads txId (.applying deltas) txId ≠ .absent
      simp
  | setCommitted hs htx => simp
  | releaseLocks hs htx => simp
  | abort hs hbegin => simp
  | dropTables hs htx hundo => simp
  | setAborted hs htx => simp
  | unlock hs htx => simp
  | erase hs => simp

/-- The committed tables are changed by commits alone. -/
theorem Step.tables {s s' : State} {txId : TxID} {a : Action} (hstep : Step s (txId, a) s')
    (hcommit : ∀ c, a = .commit → s.globals.catalog.commitInProgressTables txId ≠ .ok c)
    (hdelta : a ≠ .applyDelta) :
    s'.globals.catalog.tables = s.globals.catalog.tables := by
  cases hstep with
  | start level => rfl
  | checkName hs hname => rfl
  | takeId hs => rfl
  | addTable hs hfinal => rfl
  | createThrows hs => rfl
  | insertRecord hs htable hadd =>
      exact congrArg Catalog.tables (Globals.addToWriteSet_ok hadd).1.catalog
  | lock hs htable => rfl
  | acquire hs hacquire =>
      rcases Globals.tryAcquireLock_true hacquire with ⟨rfl, _⟩ | ⟨hwider, _⟩
      · rfl
      · exact congrArg Catalog.tables hwider.catalog
  | retry hs hretry =>
      obtain rfl := Globals.tryAcquireLock_false hretry
      rfl
  | acquireThrows hs hthrows =>
      exact congrArg Catalog.tables (Globals.tryAcquireLock_catalog hthrows)
  | timeout hs hbegin => rfl
  | bumpDelta tableId action hs =>
      exact congrArg Catalog.tables (updateCardinalityDelta_frame s.globals txId tableId action).1
  | commit hs hbegin hok => exact absurd hok (hcommit _ rfl)
  | commitRefused hs hbegin hrefused => rfl
  | applyDelta hs => exact absurd rfl hdelta
  | setCommitted hs htx => rfl
  | releaseLocks hs htx => rfl
  | abort hs hbegin => rfl
  | dropTables hs htx hundo => rfl
  | setAborted hs htx => rfl
  | unlock hs htx => rfl
  | erase hs => rfl

theorem Invariant.step {s s' : State} {l : TxID × Action} (h : Invariant s) (hstep : Step s l s') :
    Invariant s' := by
  cases hstep with
  | start level => exact h.start level
  | checkName hs hname => exact h.checkName hs hname
  | takeId hs => exact h.takeId hs
  | addTable hs hfinal => exact h.addTable hs rfl
  | @createThrows txId name columns tableId hs =>
      have hopen := h.catalog txId
      have hrunning := h.locks txId
      rw [hs] at hopen hrunning
      exact h.setThread (by simp [hs]) (by simp) hopen.1 hrunning
  | insertRecord hs htable hadd => exact h.insertRecord hs htable hadd
  | @lock txId key hs htable =>
      have hopen := h.catalog txId
      have hrunning := h.locks txId
      rw [hs] at hopen hrunning
      exact h.setThread (by simp [hs]) (by simp) hopen ⟨hrunning, htable⟩
  | acquire hs hacquire => exact h.acquire hs hacquire
  | retry hs hretry => exact h.retry hs hretry
  | acquireThrows hs hthrows => exact absurd hthrows (h.acquire_returns hs)
  | @timeout txId key tx hs hbegin =>
      have hopen := h.catalog txId
      have hlock := h.locks txId
      rw [hs] at hopen hlock
      exact h.undo (by simp) (by simp [hs]) hopen hlock.1
  | bumpDelta tableId action hs => exact h.bumpDelta tableId action hs
  | commit hs hbegin hcommit => exact h.commit hs hcommit
  | @commitRefused txId tx msg hs hbegin hrefused =>
      have hopen := h.catalog txId
      have hlock := h.locks txId
      rw [hs] at hopen hlock
      exact h.undo (by simp) (by simp [hs]) hopen hlock
  | @applyDelta txId tableId delta deltas hs =>
      exact h.applyDelta hs (recounted s.globals.catalog tableId delta)
  | @setCommitted txId tx hs htx =>
      have hcatalog := h.catalog txId
      have hentry := h.locks txId
      rw [hs] at hcatalog hentry
      exact h.setState .committed (by simp [hs]) htx hentry (by simp) hcatalog fun _ hg => hg
  | @releaseLocks txId tx hs htx =>
      have hcatalog := h.catalog txId
      have hentry := h.locks txId
      rw [hs] at hcatalog hentry
      exact h.releaseLocks (by simp [hs]) htx hentry (.inl ⟨rfl, hcatalog⟩)
  | @abort txId tx hs hbegin =>
      have hopen := h.catalog txId
      have hlock := h.locks txId
      rw [hs] at hopen hlock
      exact h.undo (by simp) (by simp [hs]) hopen hlock
  | dropTables hs htx hundo => exact h.dropTables hs
  | @setAborted txId tx ending hs htx =>
      have hcatalog := h.catalog txId
      have hentry := h.locks txId
      rw [hs] at hcatalog hentry
      exact h.setState .committed (by simp [hs]) htx hentry (by simp) hcatalog fun _ hg => hg
  | @unlock txId tx ending hs htx =>
      have hcatalog := h.catalog txId
      have hentry := h.locks txId
      rw [hs] at hcatalog hentry
      exact h.releaseLocks (by simp [hs]) htx hentry (.inr ⟨hcatalog.2, hcatalog.1⟩)
  | erase hs => exact h.erase hs

theorem reachable_invariant {s : State} (h : transactions.Reachable s) : Invariant s :=
  h.invariant (fun _ => .opened) fun _ _ _ => .step

end Iic3413Db.Server
