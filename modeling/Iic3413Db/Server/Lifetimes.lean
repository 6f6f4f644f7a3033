/-
  Server/Lifetimes.lean --- the catalog over any number of lives of the server process.

  A life ends with `~TransactionManager` and `~Catalog`, and the next one reads the file that
  `~Catalog` wrote.  A process that is killed runs neither: the next one reads what the last
  orderly end has left.  `Before` is what a later catalog keeps of an earlier one.
-/
import Iic3413Db.Server.Rollback
import Iic3413Db.System.CatalogFile

set_option autoImplicit false

namespace Iic3413Db.Server

open Iic3413Db.Foundation Iic3413Db.RelationalModel Iic3413Db.Storage
open Iic3413Db.System (Catalog TableId TableInfo TableColumn IsolationLevel TransactionState)
open Iic3413Db.System.Catalog (MadeByCreate)

/-! ## The lives of a database -/

/-- The file of the catalog, and the process that has it open. -/
structure Installation where
  file : List UInt8
  process : Process

def Process.catalog (p : Process) : Catalog := p.server.globals.catalog

/-- `main`, once the constructor of `Catalog` has returned. -/
def Process.start (c : Catalog) : Process :=
  ⟨⟨⟨c, fun _ => none, fun _ => none⟩, fun _ => .absent, fun _ => [], fun _ => []⟩,
    fun _ => [], .serving⟩

inductive LifeEvent where
  | step (e : ProcessEvent)
  /-- the process ends in order, and another one starts -/
  | restart
  /-- the process is killed, and another one starts -/
  | kill

inductive LifeStep : Installation → LifeEvent → Installation → Prop
  | step {file : List UInt8} {p p' : Process} {e : ProcessEvent} (h : ProcessStep p e p') :
      LifeStep ⟨file, p⟩ (.step e) ⟨file, p'⟩
  /-- No number of the catalog has outgrown its type. -/
  | restart {file : List UInt8} {p : Process} {c : Catalog} (hphase : p.phase = .closed)
      (hfits : p.catalog.Fits) (hload : Catalog.load (p.catalog.close ⟨[], file⟩) = .ok c) :
      LifeStep ⟨file, p⟩ .restart ⟨p.catalog.close ⟨[], file⟩, .start c⟩
  | kill {file : List UInt8} {p : Process} {c : Catalog} (hload : Catalog.load file = .ok c) :
      LifeStep ⟨file, p⟩ .kill ⟨file, .start c⟩

/-- A database from its first start, with a new catalog file. -/
def lifetimes : Machine Installation LifeEvent where
  init i := i = ⟨[], .start .new⟩
  step := LifeStep

/-! ## What is kept -/

/-- A catalog that a file can hold: each table with a name and an id of its own. -/
structure Restorable (c : Catalog) : Prop where
  names : (c.tables.entries.map TableInfo.name).Nodup
  ids : ∀ info ∈ c.tables.entries, info.tableId < c.tableIdCounter
  made : ∀ info ∈ c.tables.entries, MadeByCreate info

/-- Every table is still there, and no counter has gone back. -/
structure Before (c d : Catalog) : Prop where
  tables : ∀ i ∈ c.tables.entries, ∃ j ∈ d.tables.entries, SameTable j i
  tableIds : c.tableIdCounter ≤ d.tableIdCounter
  transactions : c.transactionCount ≤ d.transactionCount

theorem Before.refl (c : Catalog) : Before c c :=
  ⟨fun i hi => ⟨i, hi, .refl i⟩, le_refl _, le_refl _⟩

theorem Before.trans {c d e : Catalog} (h : Before c d) (h' : Before d e) : Before c e where
  tables i hi := by
    obtain ⟨j, hj, hsame⟩ := h.tables i hi
    obtain ⟨k, hk, hsame'⟩ := h'.tables j hj
    exact ⟨k, hk, hsame'.trans hsame⟩
  tableIds := h.tableIds.trans h'.tableIds
  transactions := h.transactions.trans h'.transactions

theorem Before.of_eq {c d : Catalog} (htables : d.tables = c.tables)
    (hids : d.tableIdCounter = c.tableIdCounter)
    (hcount : d.transactionCount = c.transactionCount) : Before c d :=
  ⟨fun i hi => ⟨i, by rw [htables]; exact hi, .refl i⟩, hids.ge, hcount.ge⟩

/-! ## The tables of `create_table` -/

theorem madeByCreate_same {i j : TableInfo} (h : MadeByCreate i) (hsame : SameTable j i) :
    MadeByCreate j := by
  obtain ⟨c, c', tableName, columns, txId, hcreate⟩ := h
  refine ⟨c, c', tableName, columns, txId, ?_⟩
  rw [hcreate, hsame.name, hsame.columns, hsame.tableId]

/-- The three parts of `create_table`, with other calls in between, make what one call alone
makes. -/
theorem madeByCreate_parts {name : List UInt8} {columns final : List TableColumn}
    {tableId : TableId} (hname : ∀ ch ∈ name, Catalog.nameChar ch = true)
    (hfinal : Catalog.finalColumns columns tableId = .ok final) :
    MadeByCreate ⟨name, final, tableId, 0⟩ := by
  let c : Catalog := ⟨tableId, 0, fun _ => [], .empty⟩
  have hcheck : c.checkName name 0 = .ok name := by
    simp only [Catalog.checkName, Catalog.getTableInfo, System.Catalog.normalize_normal hname,
      Outcome.ok_bind]
    rfl
  refine ⟨c, c.nextTableId.2.addTable 0 ⟨name, final, tableId, 0⟩, name, columns, 0, ?_⟩
  have hfinal : Catalog.finalColumns columns c.nextTableId.1 = .ok final := hfinal
  simp only [Catalog.createTable, hcheck, Outcome.ok_bind, hfinal]
  rfl

/-- The name of the table a thread is creating. -/
def Thread.tableName : Thread → Option (List UInt8)
  | .creating name _ | .numbered name _ _ => some name
  | _ => none

section Steps

variable {s s' : State} {x : TxID} {a : Action}

/-- A transaction's uncommitted tables are those it had and the one that a step of
`create_table` adds. -/
theorem Step.inProcess (hstep : Step s (x, a) s') {i : TableInfo}
    (hi : i ∈ s'.globals.catalog.inProcessTables x) :
    i ∈ s.globals.catalog.inProcessTables x ∨
      ∃ name columns final tableId, a = .addTable ∧ s.threads x = .numbered name columns tableId ∧
        Catalog.finalColumns columns tableId = .ok final ∧ i = ⟨name, final, tableId, 0⟩ := by
  have hcatalog {g : Globals} (heq : g.catalog = s.globals.catalog)
      (hi : i ∈ g.catalog.inProcessTables x) : i ∈ s.globals.catalog.inProcessTables x := by
    rwa [heq] at hi
  have hgone {c : Catalog} (heq : c.inProcessTables =
      Function.update s.globals.catalog.inProcessTables x []) (hi : i ∈ c.inProcessTables x) :
      i ∈ s.globals.catalog.inProcessTables x := by
    rw [heq, Function.update_self] at hi
    cases hi
  cases hstep with
  | start level => exact .inl hi
  | checkName hs hname => exact .inl hi
  | takeId hs => exact .inl hi
  | @addTable _ name columns final tableId hs hfinal =>
      have hi : i ∈ Function.update s.globals.catalog.inProcessTables x
          (s.globals.catalog.inProcessTables x ++ [⟨name, final, tableId, 0⟩]) x := hi
      rw [Function.update_self] at hi
      rcases List.mem_append.mp hi with hold | hnew
      · exact .inl hold
      · exact .inr ⟨name, columns, final, tableId, rfl, hs, hfinal, List.mem_singleton.mp hnew⟩
  | createThrows hs => exact .inl hi
  | insertRecord hs htable hadd =>
      exact .inl (hcatalog (Globals.addToWriteSet_ok hadd).1.catalog hi)
  | lock hs htable => exact .inl hi
  | acquire hs hacquire => exact .inl (hcatalog (Globals.tryAcquireLock_catalog hacquire) hi)
  | retry hs hretry => exact .inl (hcatalog (Globals.tryAcquireLock_catalog hretry) hi)
  | acquireThrows hs hthrows => exact .inl (hcatalog (Globals.tryAcquireLock_catalog hthrows) hi)
  | timeout hs hbegin => exact .inl hi
  | bumpDelta tableId action hs =>
      exact .inl (hcatalog (updateCardinalityDelta_frame s.globals x tableId action).1 hi)
  | commit hs hbegin hcommit =>
      rcases s.globals.catalog.commitInProgressTables_cases x with ⟨_, msg, herr⟩ | ⟨_, hok⟩
      · rw [herr] at hcommit
        cases hcommit
      · rw [hok] at hcommit
        cases hcommit
        exact .inl (hgone rfl hi)
  | commitRefused hs hbegin hrefused => exact .inl hi
  | @applyDelta _ tableId delta deltas hs =>
      have hi := hi
      have hrecounted := recounted s.globals.catalog tableId delta
      refine .inl ?_
      rw [← hrecounted.inProcess]
      exact hi
  | setCommitted hs htx => exact .inl hi
  | releaseLocks hs htx => exact .inl hi
  | abort hs hbegin => exact .inl hi
  | dropTables hs htx hundo => exact .inl (hgone rfl hi)
  | setAborted hs htx => exact .inl hi
  | unlock hs htx => exact .inl hi
  | erase hs => exact .inl hi

/-- The name of a table that is being created went through the check of `create_table`. -/
theorem Step.tableName (hstep : Step s (x, a) s') {name : List UInt8}
    (hname : (s'.threads x).tableName = some name) :
    (s.threads x).tableName = some name ∨ ∀ ch ∈ name, Catalog.nameChar ch = true := by
  have hnone {g : Globals} {t : Thread} (ht : t.tableName = none)
      (h : ((s.advance x g t).threads x).tableName = some name) : False := by
    rw [State.advance_self, ht] at h
    cases h
  cases hstep with
  | start level => exact (hnone rfl hname).elim
  | checkName hs hcheck =>
      rw [State.setThread_self] at hname
      cases hname
      exact .inr (Catalog.checkName_ok hcheck).1
  | takeId hs =>
      rw [State.advance_self] at hname
      rw [hs]
      exact .inl hname
  | addTable hs hfinal => exact (hnone (g := s.globals) rfl hname).elim
  | createThrows hs => exact (hnone rfl hname).elim
  | insertRecord hs htable hadd => exact (hnone rfl hname).elim
  | lock hs htable => exact (hnone rfl hname).elim
  | acquire hs hacquire => exact (hnone rfl hname).elim
  | retry hs hretry => exact (hnone rfl hname).elim
  | acquireThrows hs hthrows => exact (hnone rfl hname).elim
  | timeout hs hbegin => exact (hnone rfl hname).elim
  | bumpDelta tableId action hs => exact (hnone rfl hname).elim
  | commit hs hbegin hcommit => exact (hnone rfl hname).elim
  | commitRefused hs hbegin hrefused => exact (hnone rfl hname).elim
  | @applyDelta _ tableId delta deltas hs =>
      exact (hnone (g := s.globals) (t := .applying deltas) rfl hname).elim
  | setCommitted hs htx => exact (hnone rfl hname).elim
  | releaseLocks hs htx => exact (hnone rfl hname).elim
  | abort hs hbegin => exact (hnone rfl hname).elim
  | dropTables hs htx hundo => exact (hnone rfl hname).elim
  | setAborted hs htx => exact (hnone rfl hname).elim
  | unlock hs htx => exact (hnone rfl hname).elim
  | erase hs => exact (hnone rfl hname).elim

/-- Only `start_transaction` counts, and it counts by one. -/
theorem Step.transactionCount (hstep : Step s (x, a) s') :
    (∃ level, a = .start level ∧ x = s.globals.catalog.transactionCount ∧
      s'.globals.catalog.transactionCount = x + 1) ∨
    (∀ level, a ≠ .start level) ∧
      s'.globals.catalog.transactionCount = s.globals.catalog.transactionCount := by
  have hcatalog {g : Globals} (heq : g.catalog = s.globals.catalog) :
      g.catalog.transactionCount = s.globals.catalog.transactionCount := by rw [heq]
  cases hstep with
  | start level => exact .inl ⟨level, rfl, rfl, rfl⟩
  | checkName hs hname => exact .inr ⟨by simp, rfl⟩
  | takeId hs => exact .inr ⟨by simp, rfl⟩
  | addTable hs hfinal => exact .inr ⟨by simp, rfl⟩
  | createThrows hs => exact .inr ⟨by simp, rfl⟩
  | insertRecord hs htable hadd =>
      exact .inr ⟨by simp, hcatalog (Globals.addToWriteSet_ok hadd).1.catalog⟩
  | lock hs htable => exact .inr ⟨by simp, rfl⟩
  | acquire hs hacquire => exact .inr ⟨by simp, hcatalog (Globals.tryAcquireLock_catalog hacquire)⟩
  | retry hs hretry => exact .inr ⟨by simp, hcatalog (Globals.tryAcquireLock_catalog hretry)⟩
  | acquireThrows hs hthrows =>
      exact .inr ⟨by simp, hcatalog (Globals.tryAcquireLock_catalog hthrows)⟩
  | timeout hs hbegin => exact .inr ⟨by simp, rfl⟩
  | bumpDelta tableId action hs =>
      exact .inr ⟨by simp, hcatalog (updateCardinalityDelta_frame s.globals x tableId action).1⟩
  | commit hs hbegin hcommit =>
      refine .inr ⟨by simp, ?_⟩
      rcases s.globals.catalog.commitInProgressTables_cases x with ⟨_, msg, herr⟩ | ⟨_, hok⟩
      · rw [herr] at hcommit
        cases hcommit
      · rw [hok] at hcommit
        cases hcommit
        rfl
  | commitRefused hs hbegin hrefused => exact .inr ⟨by simp, rfl⟩
  | @applyDelta _ tableId delta deltas hs =>
      exact .inr ⟨by simp, (recounted s.globals.catalog tableId delta).count⟩
  | setCommitted hs htx => exact .inr ⟨by simp, rfl⟩
  | releaseLocks hs htx => exact .inr ⟨by simp, rfl⟩
  | abort hs hbegin => exact .inr ⟨by simp, rfl⟩
  | dropTables hs htx hundo => exact .inr ⟨by simp, rfl⟩
  | setAborted hs htx => exact .inr ⟨by simp, rfl⟩
  | unlock hs htx => exact .inr ⟨by simp, rfl⟩
  | erase hs => exact .inr ⟨by simp, rfl⟩

theorem Invariant.before (h : Invariant s) (hstep : Step s (x, a) s') :
    Before s.globals.catalog s'.globals.catalog where
  tables := (h.step_frame hstep).kept
  tableIds := (h.step_frame hstep).counter
  transactions := by
    rcases hstep.transactionCount with ⟨level, _, rfl, hcount⟩ | ⟨_, hcount⟩
    · rw [hcount]
      exact Nat.le_succ _
    · exact hcount.ge

/-- Every table is one that `create_table` makes. -/
structure Made (s : State) : Prop where
  committed : ∀ info ∈ s.globals.catalog.tables.entries, MadeByCreate info
  inProcess : ∀ x, ∀ info ∈ s.globals.catalog.inProcessTables x, MadeByCreate info
  names : ∀ x name, (s.threads x).tableName = some name →
    ∀ ch ∈ name, Catalog.nameChar ch = true

theorem Made.step (h : Made s) (hinv : Invariant s) (hstep : Step s (x, a) s') : Made s' where
  committed info hinfo := by
    rcases (hinv.step_frame hstep).added info hinfo with ⟨i, hi, hsame⟩ | ⟨i, hi, hsame⟩
    · exact madeByCreate_same (h.committed i hi) hsame
    · exact madeByCreate_same (h.inProcess x i hi) hsame
  inProcess y info hinfo := by
    by_cases hy : y = x
    · subst hy
      rcases hstep.inProcess hinfo with hold | ⟨name, columns, final, tableId, _, ht, hfinal, rfl⟩
      · exact h.inProcess y info hold
      · exact madeByCreate_parts (h.names y name (by rw [ht]; rfl)) hfinal
    · rw [(hinv.step_frame hstep).inProcess y hy] at hinfo
      exact h.inProcess y info hinfo
  names y name hname := by
    by_cases hy : y = x
    · subst hy
      rcases hstep.tableName hname with hold | hnew
      · exact h.names y name hold
      · exact hnew
    · rw [(hinv.step_frame hstep).threads y hy] at hname
      exact h.names y name hname

theorem Made.settled (h : Made s) (hinv : Invariant s) : Restorable s.globals.catalog :=
  ⟨hinv.names, hinv.ids, h.committed⟩

end Steps

/-! ## One life -/

/-- What holds of a process whose catalog was read from a file. -/
structure Lively (p : Process) : Prop where
  invariant : ProcessInvariant p
  settled : Restorable p.catalog
  serving : p.phase = .serving → Made p.server
  closing : ∀ left, p.phase = .closing left → ∀ x, x ∉ left → p.catalog.inProcessTables x = []
  closed : p.phase = .closed → ∀ x, p.catalog.inProcessTables x = []

theorem Lively.start {c : Catalog} (hsettled : Restorable c)
    (hprocess : ∀ x, c.inProcessTables x = []) : Lively (.start c) where
  invariant := .init ⟨⟨hsettled.names, hsettled.ids, hprocess, fun _ => rfl, fun _ => rfl,
    fun _ => rfl, fun _ => rfl, fun _ => rfl⟩, fun _ => rfl, rfl⟩
  settled := hsettled
  serving _ := by
    refine ⟨hsettled.made, fun x info hinfo => ?_, fun x name hname => by cases hname⟩
    have hinfo : info ∈ c.inProcessTables x := hinfo
    rw [hprocess x] at hinfo
    cases hinfo
  closing left hphase := by cases hphase
  closed hphase := by cases hphase

section Life

variable {p p' : Process}

/-- A transaction between two calls that has no entry has no uncommitted table. -/
theorem Invariant.resting_inProcess {s : State} {x : TxID} (h : Invariant s)
    (hrest : (s.threads x).Resting) (hnone : s.globals.activeTransactions x = none) :
    s.globals.catalog.inProcessTables x = [] := by
  have hcatalog := h.catalog x
  have hlock := h.locks x
  cases ht : s.threads x with
  | absent =>
      rw [ht] at hcatalog
      exact hcatalog.1.inProcess.trans hcatalog.2
  | idle =>
      rw [ht] at hlock
      obtain ⟨tx, hentry, _⟩ := hlock
      rw [hentry.found] at hnone
      cases hnone
  | ended ending =>
      rw [ht] at hcatalog
      exact hcatalog.elim (fun h => h.2.inProcess) fun h => h.2.inProcess
  | _ =>
      rw [ht] at hrest
      exact hrest.elim

/-- A transaction that the destructor comes to is active. -/
theorem Closing.active {txId : TxID} {left : List TxID} {t : State} {tx : Transaction}
    (h : Closing p (txId :: left) t)
    (htx : p.server.globals.activeTransactions txId = some tx) : tx.state = .active := by
  have hlock := h.invariant.locks txId
  rw [h.idle txId List.mem_cons_self, h.globals] at hlock
  obtain ⟨tx', hentry, hactive, _⟩ := hlock
  obtain rfl := hentry.eq htx
  exact hactive

/-- The destructor takes the uncommitted tables of a transaction away. -/
theorem Closing.destroyOne_catalog {txId : TxID} {left : List TxID} {t : State}
    {tx : Transaction} {g : Globals} (h : Closing p (txId :: left) t)
    (htx : p.server.globals.activeTransactions txId = some tx)
    (hdestroy : p.server.globals.destroyOne txId tx = .ok g) :
    g.catalog = p.catalog.abortInProgressTables txId := by
  rw [Globals.destroyOne, if_neg (by rw [h.active htx]; simp)] at hdestroy
  obtain ⟨_, _, hdestroy⟩ := Outcome.of_bind_ok hdestroy
  cases hdestroy
  rfl

/-- A step of a transaction. -/
theorem Lively.call {server : State} {uses : TxID → List (TupleKey × TableInfo)} {x : TxID}
    {a : Action} (h : Lively p) (hphase : p.phase = .serving)
    (hstep : Step p.server (x, a) server) (hinv' : ProcessInvariant ⟨server, uses, p.phase⟩) :
    Lively ⟨server, uses, p.phase⟩ ∧ Before p.catalog server.globals.catalog := by
  have hinv := (h.invariant.serving hphase).1
  have hmade := (h.serving hphase).step hinv hstep
  refine ⟨⟨hinv', hmade.settled (hinv.step hstep), fun _ => hmade, fun left hclosing => ?_,
    fun hclosed => ?_⟩, hinv.before hstep⟩
  · rw [hphase] at hclosing
    cases hclosing
  · rw [hphase] at hclosed
    cases hclosed

theorem Lively.step {e : ProcessEvent} (h : Lively p) (hstep : ProcessStep p e p') :
    Lively p' ∧ Before p.catalog p'.catalog := by
  have hinv' := h.invariant.step hstep
  cases hstep with
  | call hphase hkey hstep => exact h.call hphase hstep hinv'
  | use hphase hkey hstep hinfo hid => exact h.call hphase hstep hinv'
  | @destroy left hphase hjoined hnodup hleft =>
      refine ⟨⟨hinv', h.settled, fun hserving => ?_, fun left' hclosing x hx => ?_,
        fun hclosed => ?_⟩, .refl _⟩
      · cases hserving
      · cases hclosing
        refine (h.invariant.serving hphase).1.resting_inProcess (hjoined x) ?_
        rw [hleft, Option.not_isSome_iff_eq_none] at hx
        exact hx
      · cases hclosed
  | @destroyOne txId left tx g hphase htx hdestroy =>
      obtain ⟨t, hclosing⟩ := h.invariant.closing hphase
      have hcatalog := hclosing.destroyOne_catalog htx hdestroy
      have hbefore : Before p.catalog g.catalog := by
        rw [hcatalog]
        exact .of_eq rfl rfl rfl
      have hsettled : Restorable g.catalog := by
        rw [hcatalog]
        exact ⟨h.settled.names, h.settled.ids, h.settled.made⟩
      refine ⟨⟨hinv', hsettled, fun hserving => ?_, fun left' hleft x hx => ?_,
        fun hclosed => ?_⟩, hbefore⟩
      · cases hserving
      · cases hleft
        show g.catalog.inProcessTables x = []
        rw [hcatalog]
        by_cases heq : x = txId
        · rw [heq]
          exact Function.update_self ..
        · have hnot : x ∉ txId :: left := by simp [heq, hx]
          exact (Function.update_of_ne heq ..).trans (h.closing _ hphase x hnot)
      · cases hclosed
  | clear hphase =>
      refine ⟨⟨hinv', h.settled, fun hserving => ?_, fun left hleft => ?_, fun _ x => ?_⟩, .refl _⟩
      · cases hserving
      · cases hleft
      · exact h.closing [] hphase x List.not_mem_nil

/-- After an orderly end the next life has the same catalog. -/
theorem Lively.reload (h : Lively p) (hphase : p.phase = .closed) (hfits : p.catalog.Fits)
    (file : List UInt8) : Catalog.load (p.catalog.close ⟨[], file⟩) = .ok p.catalog := by
  have hnone : (fun _ => []) = p.catalog.inProcessTables :=
    funext fun x => (h.closed hphase x).symm
  rw [Catalog.close_eq, Catalog.load_encode h.settled.made hfits, hnone]

end Life

/-! ## All lives -/

/-- The file holds a catalog that the running one has not lost anything of. -/
structure Lasting (i : Installation) (saved : Catalog) : Prop where
  process : Lively i.process
  load : Catalog.load i.file = .ok saved
  settled : Restorable saved
  inProcess : ∀ x, saved.inProcessTables x = []
  before : Before saved i.process.catalog

theorem Lasting.init {i : Installation} (h : lifetimes.init i) : Lasting i .new := by
  have hsettled : Restorable .new := by
    refine ⟨.nil, fun info hinfo => ?_, fun info hinfo => ?_⟩
    · cases hinfo
    · cases hinfo
  rw [show i = _ from h]
  exact ⟨.start hsettled fun _ => rfl, rfl, hsettled, fun _ => rfl, .refl _⟩

/-- What a step of the database keeps; all but a kill keep every table and counter. -/
theorem Lasting.step {i i' : Installation} {saved : Catalog} {e : LifeEvent}
    (h : Lasting i saved) (hstep : LifeStep i e i') :
    ∃ saved', Lasting i' saved' ∧ Before saved saved' ∧
      (e ≠ .kill → Before i.process.catalog i'.process.catalog) := by
  cases hstep with
  | step hstep =>
      obtain ⟨hlively, hbefore⟩ := h.process.step hstep
      exact ⟨saved, ⟨hlively, h.load, h.settled, h.inProcess, h.before.trans hbefore⟩, .refl _,
        fun _ => hbefore⟩
  | @restart file p c hphase hfits hload =>
      have hclose := h.process.reload hphase hfits file
      cases hload.symm.trans hclose
      have hnone := h.process.closed hphase
      exact ⟨p.catalog, ⟨.start h.process.settled hnone, hclose, h.process.settled, hnone, .refl _⟩,
        h.before, fun _ => .refl _⟩
  | kill hload =>
      cases hload.symm.trans h.load
      exact ⟨saved, ⟨.start h.settled h.inProcess, h.load, h.settled, h.inProcess, .refl _⟩,
        .refl _, fun hne => absurd rfl hne⟩

theorem lasting_of_reachable {i : Installation} (h : lifetimes.Reachable i) :
    ∃ saved, Lasting i saved := by
  induction h with
  | init hinit => exact ⟨.new, .init hinit⟩
  | step _ hstep ih =>
      obtain ⟨saved, hlasting⟩ := ih
      obtain ⟨saved', hlasting', _⟩ := hlasting.step hstep
      exact ⟨saved', hlasting'⟩

/-- The id that a step gives to a new transaction. -/
def LifeEvent.started : LifeEvent → Option TxID
  | .step (.call x (.start _)) => some x
  | _ => none

/-- A transaction gets the number that the counter leaves. -/
theorem LifeStep.started {i i' : Installation} {e : LifeEvent} {x : TxID}
    (hstep : LifeStep i e i') (hx : e.started = some x) :
    x = i.process.catalog.transactionCount ∧ i'.process.catalog.transactionCount = x + 1 := by
  have hcall {s s' : State} {y : TxID} {a : Action} (hstart : Step s (y, a) s')
      (hx : (LifeEvent.step (.call y a)).started = some x) :
      x = s.globals.catalog.transactionCount ∧ s'.globals.catalog.transactionCount = x + 1 := by
    rcases hstart.transactionCount with ⟨level, rfl, hcount, hnext⟩ | ⟨hother, _⟩
    · cases hx
      exact ⟨hcount, hnext⟩
    · cases a with
      | start level => exact absurd rfl (hother level)
      | _ => cases hx
  cases hstep with
  | step hstep =>
      cases hstep with
      | call hphase hkey hstart => exact hcall hstart hx
      | use hphase hkey hstart hinfo hid => exact hcall hstart hx
      | destroy hphase hjoined hnodup hleft => cases hx
      | destroyOne hphase htx hdestroy => cases hx
      | clear hphase => cases hx
  | restart hphase hfits hload => cases hx
  | kill hload => cases hx

/-- What a run leaves of the catalog it begins with. -/
structure Survives (i : Installation) (es : List LifeEvent) (i' : Installation) : Prop where
  settled : Restorable i'.process.catalog
  /-- what is in the file is never lost -/
  saved : ∃ c, Catalog.load i.file = .ok c ∧ Before c i'.process.catalog
  /-- and without a kill no committed table is -/
  kept : .kill ∉ es → Before i.process.catalog i'.process.catalog
  /-- without a kill no transaction gets the number of an earlier one -/
  numbers : .kill ∉ es → (es.filterMap LifeEvent.started).Pairwise (· < ·) ∧
    ∀ x ∈ es.filterMap LifeEvent.started, i.process.catalog.transactionCount ≤ x ∧
      x < i'.process.catalog.transactionCount
  /-- an orderly end leaves a file that the next life starts from -/
  restarts : i'.process.phase = .closed → i'.process.catalog.Fits →
    ∃ file, LifeStep i' .restart ⟨file, .start i'.process.catalog⟩

/-- The numbers of the transactions that a run starts. -/
theorem numbers_step {i i' i'' : Installation} {es : List LifeEvent} {e : LifeEvent}
    (hstep : LifeStep i' e i'') (hbefore : Before i.process.catalog i'.process.catalog)
    (hbefore' : Before i'.process.catalog i''.process.catalog)
    (hsorted : (es.filterMap LifeEvent.started).Pairwise (· < ·))
    (hrange : ∀ x ∈ es.filterMap LifeEvent.started,
      i.process.catalog.transactionCount ≤ x ∧ x < i'.process.catalog.transactionCount) :
    ((es ++ [e]).filterMap LifeEvent.started).Pairwise (· < ·) ∧
      ∀ x ∈ (es ++ [e]).filterMap LifeEvent.started,
        i.process.catalog.transactionCount ≤ x ∧ x < i''.process.catalog.transactionCount := by
  have hold : ∀ x ∈ es.filterMap LifeEvent.started,
      i.process.catalog.transactionCount ≤ x ∧ x < i''.process.catalog.transactionCount :=
    fun x hx => ⟨(hrange x hx).1, lt_of_lt_of_le (hrange x hx).2 hbefore'.transactions⟩
  cases hstarted : e.started with
  | none =>
      have hsame : (es ++ [e]).filterMap LifeEvent.started = es.filterMap LifeEvent.started := by
        simp [hstarted]
      rw [hsame]
      exact ⟨hsorted, hold⟩
  | some y =>
      obtain ⟨hy, hnext⟩ := hstep.started hstarted
      have hlonger : (es ++ [e]).filterMap LifeEvent.started =
          es.filterMap LifeEvent.started ++ [y] := by
        simp [hstarted]
      rw [hlonger]
      refine ⟨List.pairwise_append.mpr ⟨hsorted, List.pairwise_singleton .., fun x hx z hz => ?_⟩,
        fun x hx => ?_⟩
      · rw [List.mem_singleton.mp hz, hy]
        exact (hrange x hx).2
      · rcases List.mem_append.mp hx with hx | hx
        · exact hold x hx
        · rw [List.mem_singleton.mp hx, hnext]
          exact ⟨by rw [hy]; exact hbefore.transactions, Nat.lt_succ_self y⟩

/-- The committed tables outlive every orderly end of the process, and those of the last one
every kill; the numbers of the transactions are never given twice in between. -/
theorem tables_survive {i i' : Installation} {es : List LifeEvent} (h : lifetimes.Reachable i)
    (hrun : lifetimes.Run i es i') : Survives i es i' := by
  obtain ⟨saved, hlasting⟩ := lasting_of_reachable h
  have hall : (∃ saved', Lasting i' saved' ∧ Before saved saved') ∧
      (.kill ∉ es → Before i.process.catalog i'.process.catalog ∧
        (es.filterMap LifeEvent.started).Pairwise (· < ·) ∧
        ∀ x ∈ es.filterMap LifeEvent.started, i.process.catalog.transactionCount ≤ x ∧
          x < i'.process.catalog.transactionCount) := by
    induction hrun with
    | nil => exact ⟨⟨saved, hlasting, .refl _⟩, fun _ => ⟨.refl _, .nil, by simp⟩⟩
    | @snoc es i' i'' e _ hstep ih =>
        obtain ⟨⟨saved', hlasting', hbefore⟩, ih⟩ := ih
        obtain ⟨saved'', hlasting'', hbefore', hkept⟩ := hlasting'.step hstep
        refine ⟨⟨saved'', hlasting'', hbefore.trans hbefore'⟩, fun hnokill => ?_⟩
        rw [List.mem_append, List.mem_singleton, not_or] at hnokill
        obtain ⟨hkeptRun, hsorted, hrange⟩ := ih hnokill.1
        have hkept := hkept (Ne.symm hnokill.2)
        exact ⟨hkeptRun.trans hkept, numbers_step hstep hkeptRun hkept hsorted hrange⟩
  obtain ⟨⟨saved', hlasting', hbefore⟩, hnokill⟩ := hall
  refine ⟨hlasting'.process.settled, ⟨saved, hlasting.load, hbefore.trans hlasting'.before⟩,
    fun hne => (hnokill hne).1, fun hne => (hnokill hne).2, fun hphase hfits => ?_⟩
  exact ⟨_, .restart hphase hfits (hlasting'.process.reload hphase hfits i'.file)⟩

/-- The table `a (b INT)` is committed in a first life, which ends in order; a second life is
killed, and the third has the table. -/
theorem tables_survive_kill : ∃ i es, lifetimes.Run ⟨[], .start .new⟩ es i ∧
    .restart ∈ es ∧ .kill ∈ es ∧ ∃ j ∈ i.process.catalog.tables.entries,
      j.name = [97] ∧ j.tableId = 0 := by
  have hcreated : ∃ i es, lifetimes.Run ⟨[], .start .new⟩ es i ∧ i.process.phase = .closed ∧
      i.process.catalog.Fits ∧ ∃ j ∈ i.process.catalog.tables.entries,
        j.name = [97] ∧ j.tableId = 0 := by
    refine ⟨_, _, .snoc (.snoc (.snoc (.snoc (.snoc (.snoc (.snoc (.snoc (.snoc (.snoc .nil
      (show LifeStep _ (.step (.call 1 (.start .readCommitted))) _ from
        .step (.call rfl rfl (.start .readCommitted))))
      (show LifeStep _ (.step (.call 1 (.checkName [97] [⟨[98], .int, 0⟩]))) _ from
        .step (.call rfl rfl (.checkName rfl rfl))))
      (show LifeStep _ (.step (.call 1 .takeId)) _ from .step (.call rfl rfl (.takeId rfl))))
      (show LifeStep _ (.step (.call 1 .addTable)) _ from
        .step (.call rfl rfl (.addTable rfl rfl))))
      (show LifeStep _ (.step (.call 1 .commit)) _ from
        .step (.call rfl rfl (.commit rfl rfl rfl))))
      (show LifeStep _ (.step (.call 1 .setCommitted)) _ from
        .step (.call rfl rfl (.setCommitted rfl rfl))))
      (show LifeStep _ (.step (.call 1 .releaseLocks)) _ from
        .step (.call rfl rfl (.releaseLocks rfl rfl))))
      (show LifeStep _ (.step (.call 1 .erase)) _ from .step (.call rfl rfl (.erase rfl))))
      (show LifeStep _ (.step .destroy) _ from .step (.destroy rfl ?_ .nil ?_)))
      (show LifeStep _ (.step .clear) _ from .step (.clear rfl)), rfl, ?_,
      ⟨_, List.mem_singleton.mpr rfl, rfl, rfl⟩⟩
    · intro x
      by_cases hx : x = 1
      · subst hx
        exact True.intro
      · simp [State.advance, State.setThread, Process.start, hx, Thread.Resting, Catalog.new]
    · intro x
      simp [State.advance, State.setThread, Process.start, Globals.startTransaction,
        Globals.erase, Globals.setState, Globals.releaseAllLocks, Catalog.new]
    · refine ⟨by decide, by decide, by decide, fun info hinfo => ?_⟩
      cases List.mem_singleton.mp hinfo
      exact ⟨by decide, by decide, by decide, by decide, by decide⟩
  obtain ⟨i, es, hrun, hphase, hfits, j, hj, hname, hid⟩ := hcreated
  have hreach : lifetimes.Reachable i := hrun.reachable rfl
  obtain ⟨file, hrestart⟩ := (tables_survive hreach .nil).restarts hphase hfits
  have hload : Catalog.load file = .ok i.process.catalog := by
    cases hrestart with
    | restart hphase hfits hload => exact hload
  have hrun' := hrun.snoc hrestart
  have hrun'' := hrun'.snoc (LifeStep.kill hload)
  obtain ⟨c, hc, hbefore⟩ :=
    (tables_survive (hrun'.reachable rfl) (.single (LifeStep.kill hload))).saved
  cases hc.symm.trans hload
  obtain ⟨k, hk, hsame⟩ := hbefore.tables j hj
  exact ⟨_, _, hrun'', by simp, by simp, k, hk, hsame.name.trans hname, hsame.tableId.trans hid⟩

end Iic3413Db.Server
