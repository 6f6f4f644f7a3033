/-
  Server/TableFileRuns.lean --- every table has a file of its own in every life of the server
  process, and its pages show what was last written to them.

  `Apart` is what the ids of the tables owe to the counter.  A step of the process changes the
  tables in one of three ways: it opens a file for a table whose id nobody has, it deletes the
  files of one transaction, or it leaves the tables as they are, some of them perhaps committed.
-/
import Iic3413Db.Server.TableFiles

set_option autoImplicit false

namespace Iic3413Db.Server

open Iic3413Db.Foundation Iic3413Db.RelationalModel Iic3413Db.Storage
open Iic3413Db.System (Catalog TableId TableInfo TableColumn Volume Archive Pool zeroPage)

/-! ## The tables that are there -/

/-- A table of the catalog, committed or not. -/
def LiveTable (c : Catalog) (info : TableInfo) : Prop :=
  info ∈ c.tables.entries ∨ ∃ x, info ∈ c.inProcessTables x

/-- No two tables of the catalog have one id. -/
structure Apart (c : Catalog) : Prop where
  own : ∀ x, ((c.inProcessTables x).map TableInfo.tableId).Nodup
  committed : ∀ x, ∀ i ∈ c.inProcessTables x, ∀ j ∈ c.tables.entries, j.tableId ≠ i.tableId
  others : ∀ x y, x ≠ y → ∀ i ∈ c.inProcessTables x, ∀ j ∈ c.inProcessTables y,
    j.tableId ≠ i.tableId

theorem Apart.unique {c : Catalog} (h : Apart c) {i j : TableInfo} (hi : LiveTable c i)
    (hj : LiveTable c j) (hid : i.tableId = j.tableId) : i = j := by
  rcases hi with hi | ⟨x, hi⟩
  · rcases hj with hj | ⟨y, hj⟩
    · exact List.inj_on_of_nodup_map c.tables.nodup_keys hi hj hid
    · exact absurd hid (h.committed y j hj i hi)
  · rcases hj with hj | ⟨y, hj⟩
    · exact absurd hid.symm (h.committed x i hi j hj)
    · by_cases hxy : x = y
      · subst hxy
        exact List.inj_on_of_nodup_map (h.own x) hi hj hid
      · exact absurd hid.symm (h.others x y hxy i hi j hj)

/-- What an abort leaves. -/
theorem Apart.live_abort {c : Catalog} (h : Apart c) {x : TxID} {i : TableInfo} :
    LiveTable (c.abortInProgressTables x) i ↔
      LiveTable c i ∧ ∀ j ∈ c.inProcessTables x, i.tableId ≠ j.tableId := by
  constructor
  · rintro (hi | ⟨y, hi⟩)
    · exact ⟨.inl hi, fun j hj => h.committed x j hj i hi⟩
    · have hi : i ∈ Function.update c.inProcessTables x [] y := hi
      by_cases hxy : y = x
      · rw [hxy, Function.update_self] at hi
        cases hi
      · rw [Function.update_of_ne hxy] at hi
        exact ⟨.inr ⟨y, hi⟩, fun j hj => h.others x y (Ne.symm hxy) j hj i hi⟩
  · rintro ⟨hi | ⟨y, hi⟩, hother⟩
    · exact .inl hi
    · have hxy : y ≠ x := fun heq => hother i (heq ▸ hi) rfl
      refine .inr ⟨y, ?_⟩
      show i ∈ Function.update c.inProcessTables x [] y
      rw [Function.update_of_ne hxy]
      exact hi

/-- The uncommitted tables of a transaction have ids that no committed table has. -/
theorem CatalogOk.inProcess_apart {v : Tables} {x : TxID} {t : Thread} (h : CatalogOk v x t) :
    ∀ i ∈ v.catalog.inProcessTables x, ∀ j ∈ v.catalog.tables.entries,
      j.tableId ≠ i.tableId := by
  intro i hi
  have hopen (h : Uncommitted v x) : ∀ j ∈ v.catalog.tables.entries, j.tableId ≠ i.tableId := by
    rw [h.inProcess] at hi
    exact h.apart i hi
  have hnone (h : v.catalog.inProcessTables x = []) :
      ∀ j ∈ v.catalog.tables.entries, j.tableId ≠ i.tableId := by
    rw [h] at hi
    cases hi
  cases t with
  | absent => exact hopen h.1
  | idle => exact hopen h
  | creating name columns => exact hopen h.1
  | numbered name columns tableId => exact hopen h.1
  | waiting key => exact hopen h
  | applying deltas => exact hnone h.inProcess
  | flipped => exact hnone h.inProcess
  | undoing ending => exact hopen h.1
  | dropped ending => exact hnone h.1.inProcess
  | unlocking ending => exact hnone h.1.inProcess
  | released ending => exact h.elim (fun h => hnone h.2.inProcess) fun h => hnone h.2.inProcess
  | ended ending => exact h.elim (fun h => hnone h.2.inProcess) fun h => hnone h.2.inProcess

theorem Invariant.apart {s : State} (h : Invariant s) : Apart s.globals.catalog where
  own x := (h.createdNodup x).sublist ((h.catalog x).inProcess_sublist.map TableInfo.tableId)
  committed x := (h.catalog x).inProcess_apart
  others x _ hxy i hi := h.inProcess_apart hxy i ((h.catalog x).inProcess_subset i hi)

theorem Lively.apart {p : Process} (h : Lively p) : Apart p.catalog := by
  cases hphase : p.phase with
  | serving => exact (h.invariant.serving hphase).1.apart
  | closing left =>
      obtain ⟨t, ht⟩ := h.invariant.closing hphase
      have hapart := ht.invariant.apart
      rw [ht.globals] at hapart
      exact hapart
  | closed =>
      have hnone := h.closed hphase
      refine ⟨fun x => ?_, fun x i hi => ?_, fun x y _ i hi => ?_⟩
      · rw [hnone x]
        exact .nil
      · rw [hnone x] at hi
        cases hi
      · rw [hnone x] at hi
        cases hi

/-! ## Steps that leave the tables -/

/-- The tables are as they were, with other cardinalities, and some of them committed. -/
structure SameTables (c c' : Catalog) : Prop where
  old : ∀ j, LiveTable c' j → ∃ i, LiveTable c i ∧ SameTable j i
  kept : ∀ i, LiveTable c i → ∃ j, LiveTable c' j ∧ SameTable j i

theorem SameTables.refl (c : Catalog) : SameTables c c :=
  ⟨fun j hj => ⟨j, hj, .refl j⟩, fun i hi => ⟨i, hi, .refl i⟩⟩

section Steps

variable {s s' : State} {x : TxID} {a : Action}

/-- An uncommitted table stays or is committed, unless its transaction drops its tables. -/
theorem Invariant.keeps_inProcess (h : Invariant s) (hstep : Step s (x, a) s')
    (hdrop : a ≠ .dropTables) {i : TableInfo} (hi : i ∈ s.globals.catalog.inProcessTables x) :
    LiveTable s'.globals.catalog i := by
  have hcatalog {g : Globals} (heq : g.catalog = s.globals.catalog) : LiveTable g.catalog i :=
    .inr ⟨x, by rw [heq]; exact hi⟩
  cases hstep with
  | start level => exact .inr ⟨_, hi⟩
  | checkName hs hname => exact .inr ⟨x, hi⟩
  | takeId hs => exact .inr ⟨x, hi⟩
  | @addTable _ name columns final tableId hs hfinal =>
      refine .inr ⟨x, ?_⟩
      show i ∈ Function.update s.globals.catalog.inProcessTables x
        (s.globals.catalog.inProcessTables x ++ [⟨name, final, tableId, 0⟩]) x
      rw [Function.update_self]
      exact List.mem_append_left _ hi
  | createThrows hs => exact .inr ⟨x, hi⟩
  | insertRecord hs htable hadd => exact hcatalog (Globals.addToWriteSet_ok hadd).1.catalog
  | lock hs htable => exact .inr ⟨x, hi⟩
  | acquire hs hacquire => exact hcatalog (Globals.tryAcquireLock_catalog hacquire)
  | retry hs hretry => exact hcatalog (Globals.tryAcquireLock_catalog hretry)
  | acquireThrows hs hthrows => exact hcatalog (Globals.tryAcquireLock_catalog hthrows)
  | timeout hs hbegin => exact .inr ⟨x, hi⟩
  | bumpDelta tableId action hs =>
      exact hcatalog (updateCardinalityDelta_frame s.globals x tableId action).1
  | commit hs hbegin hcommit =>
      have hopen := h.catalog x
      rw [hs] at hopen
      obtain ⟨_, hmem, _⟩ := h.committed hopen hcommit
      have hin : s.globals.catalog.inProcessTables x = s.created x := hopen.inProcess
      exact .inl ((hmem i).mpr (.inr (hin ▸ hi)))
  | commitRefused hs hbegin hrefused => exact .inr ⟨x, hi⟩
  | @applyDelta _ tableId delta deltas hs =>
      refine .inr ⟨x, ?_⟩
      have hrecounted := recounted s.globals.catalog tableId delta
      rw [← hrecounted.inProcess] at hi
      exact hi
  | setCommitted hs htx => exact .inr ⟨x, hi⟩
  | releaseLocks hs htx => exact .inr ⟨x, hi⟩
  | abort hs hbegin => exact .inr ⟨x, hi⟩
  | dropTables hs htx hundo => exact absurd rfl hdrop
  | setAborted hs htx => exact .inr ⟨x, hi⟩
  | unlock hs htx => exact .inr ⟨x, hi⟩
  | erase hs => exact .inr ⟨x, hi⟩

theorem Invariant.sameTables (h : Invariant s) (hstep : Step s (x, a) s') (hadd : a ≠ .addTable)
    (hdrop : a ≠ .dropTables) : SameTables s.globals.catalog s'.globals.catalog where
  old j hj := by
    have hf : Frame x s s' := h.step_frame hstep
    rcases hj with hj | ⟨y, hj⟩
    · rcases hf.added j hj with ⟨i, hi, hsame⟩ | ⟨i, hi, hsame⟩
      · exact ⟨i, .inl hi, hsame⟩
      · exact ⟨i, .inr ⟨x, hi⟩, hsame⟩
    · by_cases hy : y = x
      · subst hy
        rcases hstep.inProcess hj with hold | ⟨_, _, _, _, hnew, _⟩
        · exact ⟨j, .inr ⟨y, hold⟩, .refl j⟩
        · exact absurd hnew hadd
      · rw [hf.inProcess y hy] at hj
        exact ⟨j, .inr ⟨y, hj⟩, .refl j⟩
  kept i hi := by
    have hf : Frame x s s' := h.step_frame hstep
    rcases hi with hi | ⟨y, hi⟩
    · obtain ⟨j, hj, hsame⟩ := hf.kept i hi
      exact ⟨j, .inl hj, hsame⟩
    · by_cases hy : y = x
      · subst hy
        exact ⟨i, h.keeps_inProcess hstep hdrop hi, .refl i⟩
      · exact ⟨i, .inr ⟨y, by rw [hf.inProcess y hy]; exact hi⟩, .refl i⟩

end Steps

theorem Lively.sameTables {p p' : Process} {e : ProcessEvent} (h : Lively p) (hkeeps : e.KeepsFiles)
    (hstep : ProcessStep p e p') : SameTables p.catalog p'.catalog := by
  have hcall {txId : TxID} {action : Action} {server : State}
      (hkeeps : (ProcessEvent.call txId action).KeepsFiles) (hphase : p.phase = .serving)
      (hcall : Step p.server (txId, action) server) :
      SameTables p.catalog server.globals.catalog := by
    refine (h.invariant.serving hphase).1.sameTables hcall (fun heq => ?_) fun heq => ?_
    · subst heq
      exact hkeeps
    · subst heq
      exact hkeeps
  cases hstep with
  | call hphase hkey hstep => exact hcall hkeeps hphase hstep
  | use hphase hkey hstep hinfo hid => exact hcall hkeeps hphase hstep
  | destroy hphase hjoined hnodup hleft => exact .refl _
  | destroyOne hphase htx hdestroy => exact hkeeps.elim
  | clear hphase => exact .refl _

/-! ## Steps that open and delete files -/

/-- The id of a table that is being created is no table's. -/
theorem Invariant.numbered_new {s : State} {x : TxID} {name : List UInt8}
    {columns : List TableColumn} {tableId : TableId} (h : Invariant s)
    (hs : s.threads x = .numbered name columns tableId) :
    ∀ j, LiveTable s.globals.catalog j → j.tableId ≠ tableId := by
  have hcatalog := h.catalog x
  rw [hs] at hcatalog
  rintro j (hj | ⟨y, hj⟩)
  · exact hcatalog.2.2.2 j hj
  · exact (h.numbered x name columns tableId hs).1 y j ((h.catalog y).inProcess_subset j hj)

/-- One more uncommitted table. -/
theorem live_addTable {c : Catalog} {x : TxID} {info j : TableInfo} :
    LiveTable (c.addTable x info) j ↔ LiveTable c j ∨ j = info := by
  have hown : j ∈ (c.addTable x info).inProcessTables x ↔ j ∈ c.inProcessTables x ∨ j = info := by
    rw [Catalog.addTable]
    dsimp only
    rw [Function.update_self, List.mem_append, List.mem_singleton]
  have hother {y : TxID} (hy : y ≠ x) :
      (c.addTable x info).inProcessTables y = c.inProcessTables y := Function.update_of_ne hy ..
  constructor
  · rintro (hj | ⟨y, hj⟩)
    · exact .inl (.inl hj)
    · by_cases hy : y = x
      · rw [hy] at hj
        exact (hown.mp hj).imp (fun h => .inr ⟨x, h⟩) id
      · rw [hother hy] at hj
        exact .inl (.inr ⟨y, hj⟩)
  · rintro ((hj | ⟨y, hj⟩) | hj)
    · exact .inl hj
    · by_cases hy : y = x
      · exact .inr ⟨x, hown.mpr (.inl (hy ▸ hj))⟩
      · exact .inr ⟨y, by rw [hother hy]; exact hj⟩
    · exact .inr ⟨x, hown.mpr (.inr hj)⟩

/-- The step of `create_table` adds the table it was numbered for, whose id is new. -/
theorem Lively.addTable {p p' : Process} {txId : TxID} {name : List UInt8}
    {columns : List TableColumn} {tableId : TableId} (h : Lively p)
    (hthread : p.server.threads txId = .numbered name columns tableId)
    (hstep : ProcessStep p (.call txId .addTable) p') :
    (∀ j, LiveTable p.catalog j → j.tableId ≠ tableId) ∧
      ∃ final, ∀ j, LiveTable p'.catalog j ↔
        LiveTable p.catalog j ∨ j = ⟨name, final, tableId, 0⟩ := by
  have hcall {server : State} (hphase : p.phase = .serving)
      (hcall : Step p.server (txId, .addTable) server) :
      (∀ j, LiveTable p.catalog j → j.tableId ≠ tableId) ∧
        ∃ final, ∀ j, LiveTable server.globals.catalog j ↔
          LiveTable p.catalog j ∨ j = ⟨name, final, tableId, 0⟩ := by
    have hinv := (h.invariant.serving hphase).1
    cases hcall with
    | @addTable _ _ _ final _ hs hfinal =>
        cases hs.symm.trans hthread
        exact ⟨hinv.numbered_new hthread, final, fun j => live_addTable⟩
  cases hstep with
  | call hphase hkey hstep => exact hcall hphase hstep
  | use hphase hkey hstep hinfo hid => exact hcall hphase hstep

/-- A transaction that is undone loses its tables, and nobody else does. -/
theorem Lively.dropTables {p p' : Process} {txId : TxID} (h : Lively p)
    (hstep : ProcessStep p (.call txId .dropTables) p') (i : TableInfo) :
    LiveTable p'.catalog i ↔
      LiveTable p.catalog i ∧ ∀ j ∈ p.catalog.inProcessTables txId, i.tableId ≠ j.tableId := by
  have hcall {server : State} (hcall : Step p.server (txId, .dropTables) server) :
      LiveTable server.globals.catalog i ↔
        LiveTable p.catalog i ∧ ∀ j ∈ p.catalog.inProcessTables txId, i.tableId ≠ j.tableId := by
    cases hcall with
    | dropTables hs htx hundo => exact h.apart.live_abort
  cases hstep with
  | call hphase hkey hstep => exact hcall hstep
  | use hphase hkey hstep hinfo hid => exact hcall hstep

/-- The same, of a pass of the destructor; the transaction was not committed. -/
theorem Lively.destroyOne {p p' : Process} {txId : TxID} {left : List TxID} {tx : Transaction}
    (h : Lively p) (hphase : p.phase = .closing (txId :: left))
    (htx : p.server.globals.activeTransactions txId = some tx)
    (hstep : ProcessStep p .destroyOne p') :
    tx.state ≠ .committed ∧ ∀ i, LiveTable p'.catalog i ↔
      LiveTable p.catalog i ∧ ∀ j ∈ p.catalog.inProcessTables txId, i.tableId ≠ j.tableId := by
  cases hstep with
  | destroyOne hphase' htx' hdestroy =>
      cases hphase.symm.trans hphase'
      cases htx.symm.trans htx'
      obtain ⟨t, hclosing⟩ := h.invariant.closing hphase
      refine ⟨by rw [hclosing.active htx]; simp, fun i => ?_⟩
      have hcatalog := hclosing.destroyOne_catalog htx hdestroy
      show LiveTable _ i ↔ _
      rw [Process.catalog, hcatalog]
      exact h.apart.live_abort

/-- After an orderly end there are the committed tables, and the next life begins with them. -/
theorem Lively.restart {i : Installation} {file : List UInt8} {c : Catalog}
    (h : Lively i.process) (hstep : LifeStep i .restart ⟨file, .start c⟩) :
    c = i.process.catalog ∧ ∀ j, LiveTable i.process.catalog j ↔
      j ∈ i.process.catalog.tables.entries := by
  have hboth {i' : Installation} (hstep : LifeStep i .restart i') :
      i'.process.catalog = i.process.catalog ∧ i.process.phase = .closed := by
    cases hstep with
    | @restart file p c hphase hfits hload =>
        have hclose := h.reload hphase hfits file
        cases hload.symm.trans hclose
        exact ⟨rfl, hphase⟩
  obtain ⟨hcatalog, hphase⟩ := hboth hstep
  refine ⟨hcatalog, fun j => ⟨?_, .inl⟩⟩
  rintro (hj | ⟨x, hj⟩)
  · exact hj
  · rw [h.closed hphase x] at hj
    cases hj

/-! ## All lives -/

/-- The file of the catalog can be read, and every table has its file. -/
structure SiteKept (s : Site) : Prop where
  lasting : ∃ saved, Lasting s.installation saved
  stored : ∃ a, Stored (LiveTable s.catalog) (LiveTable s.catalog) s.fileIds s.pages a s.volume

theorem SiteKept.init {s : Site} (h : sites.init s) : SiteKept s := by
  obtain ⟨hinstallation, hfresh, hfolder, hfileIds⟩ := h
  have hnone : ∀ i, ¬ LiveTable s.catalog i := by
    rw [Site.catalog, hinstallation]
    rintro i (hi | ⟨x, hi⟩)
    · cases hi
    · cases hi
  refine ⟨⟨.new, .init hinstallation⟩, .of s.volume, .fresh hfresh,
    fun i j hi => absurd hi (hnone i), fun i hi => hi, fun i hi => absurd hi (hnone i),
    fun e he => ?_, fun tableId fileId hid => ?_, fun i hi => absurd hi (hnone i),
    fun i _ => hfolder i⟩
  · have he : e ∈ s.volume.folder.fileIds := he
    rw [hfresh.closed] at he
    cases he
  · rw [hfileIds] at hid
    cases hid

/-- Other words for the same tables. -/
theorem Stored.replace {live live' opened opened' : TableInfo → Prop}
    {fileIds : TableId → Option FileId} {pages : TableId → Nat → PageBytes} {a : Archive}
    {v : Volume} (h : Stored live opened fileIds pages a v) (hlive : ∀ i, live' i ↔ live i)
    (hopened : ∀ i, opened' i ↔ opened i) : Stored live' opened' fileIds pages a v := by
  have hlive : live' = live := funext fun i => propext (hlive i)
  have hopened : opened' = opened := funext fun i => propext (hopened i)
  rw [hlive, hopened]
  exact h

theorem SiteKept.step {s s' : Site} {e : SiteEvent} (h : SiteKept s) (hstep : SiteStep s e s') :
    SiteKept s' := by
  obtain ⟨⟨saved, hlasting⟩, a, hstored⟩ := h
  have hlife {i : Installation} {e : LifeEvent} (hstep : LifeStep s.installation e i) :
      ∃ saved', Lasting i saved' := by
    obtain ⟨saved', hlasting', _⟩ := hlasting.step hstep
    exact ⟨saved', hlasting'⟩
  have hlively := hlasting.process
  cases hstep with
  | process hkeeps hstep =>
      have hsame := hlively.sameTables hkeeps hstep
      exact ⟨hlife (.step hstep), a, hstored.congr hsame.old hsame.kept hsame.old hsame.kept
        fun i hi => hi⟩
  | @addTable file p p' v v' fileIds pages txId name columns tableId fileId hthread hstep hopen =>
      obtain ⟨hnew, final, hiff⟩ := hlively.addTable hthread hstep
      have hextended : Stored (fun i => LiveTable p.catalog i ∨ i = ⟨name, final, tableId, 0⟩)
          (LiveTable p.catalog) fileIds (Function.update pages tableId fun _ => zeroPage) a v :=
        hstored.extend hnew
      have hopen : OpensFile v ⟨name, final, tableId, 0⟩ fileId v' := hopen
      obtain ⟨a', hstored'⟩ := hextended.opens (.inr rfl) hnew hopen
      exact ⟨hlife (.step hstep), a', hstored'.replace hiff hiff⟩
  | dropTables hstep hdelete =>
      obtain ⟨a', hstored'⟩ := hstored.deleteFiles (fun i hi => .inr ⟨_, hi⟩)
        (hlively.apart.own _) hdelete
      exact ⟨hlife (.step hstep), a', hstored'.replace (hlively.dropTables hstep)
        (hlively.dropTables hstep)⟩
  | destroyOne hphase htx hstep hdelete =>
      obtain ⟨hstate, hiff⟩ := hlively.destroyOne hphase htx hstep
      rw [if_neg hstate] at hdelete
      obtain ⟨a', hstored'⟩ := hstored.deleteFiles (fun i hi => .inr ⟨_, hi⟩)
        (hlively.apart.own _) hdelete
      exact ⟨hlife (.step hstep), a', hstored'.replace hiff hiff⟩
  | request hstep =>
      obtain ⟨a', hstored'⟩ := hstored.request hstep
      exact ⟨⟨saved, hlasting⟩, a', hstored'⟩
  | @restart i file c v v₁ v' fileIds fileIds' pages data hrestart hstop hopen =>
      obtain ⟨a₁, hclosed⟩ := hstored.restart hstop
      obtain ⟨rfl, hiff⟩ := hlively.restart hrestart
      obtain ⟨a', hstored'⟩ := hclosed.openFiles (fun i hi => .inl hi) (fun _ _ _ hj => hj.elim)
        (KeyedMap.nodup_keys _) hopen
      refine ⟨hlife hrestart, a', hstored'.replace (fun _ => .rfl) fun j => ?_⟩
      rw [false_or]
      exact hiff j

theorem siteKept_of_reachable {s : Site} (h : sites.Reachable s) : SiteKept s :=
  h.invariant (fun _ => .init) fun _ _ _ => .step

/-! ## The next life -/

/-- The kernel has a descriptor that is not in use. -/
theorem exists_fileId (fileIds : List FileId) : ∃ fd, fd ∉ fileIds ∧ fd ≠ FileId.unassigned := by
  obtain ⟨n, hn⟩ := Infinite.exists_notMem_finset
    ((FileId.unassigned :: fileIds).map FileId.fd).toFinset
  have hnot : (⟨n⟩ : FileId) ∉ FileId.unassigned :: fileIds := fun hmem =>
    hn (List.mem_toFinset.mpr (List.mem_map_of_mem hmem))
  rw [List.mem_cons, not_or] at hnot
  exact ⟨⟨n⟩, hnot.2, hnot.1⟩

theorem exists_opensFile {a : Archive} {v : Volume} (h : System.Kept a v) (info : TableInfo) :
    ∃ fileId v', OpensFile v info fileId v' := by
  obtain ⟨fd, hfresh, hassigned⟩ := exists_fileId v.folder.descriptors
  have hlegal : v.Legal (.getFileId (fileName info) fd) :=
    ⟨fileName_ne_nil info, hfresh, hassigned⟩
  obtain ⟨v', hexec, hkept⟩ := h.exec hlegal True.intro
  have hmem : ∃ fileId, (fileName info, fileId) ∈
      (a.apply (.getFileId (fileName info) fd)).names := by
    rw [Archive.apply]
    split
    · rename_i hknown
      obtain ⟨e, he, hname⟩ := hknown
      exact ⟨e.2, by rw [← hname]; exact he⟩
    · exact ⟨fd, List.mem_cons_self⟩
  obtain ⟨fileId, hmem⟩ := hmem
  exact ⟨fileId, v', ⟨fd, hlegal, True.intro, hexec⟩,
    hkept.sound.find_eq (hkept.mem_names.mp hmem)⟩

theorem exists_openFiles {a : Archive} {v : Volume} (h : System.Kept a v)
    (infos : List TableInfo) (fileIds : TableId → Option FileId) :
    ∃ v' fileIds', OpenFiles v fileIds infos v' fileIds' := by
  induction infos generalizing a v fileIds with
  | nil => exact ⟨v, fileIds, .nil⟩
  | cons info infos ih =>
      obtain ⟨fileId, v₁, hopen⟩ := exists_opensFile h info
      have hkept := kept_step h hopen.1.choose_spec
      obtain ⟨v', fileIds', hrest⟩ := ih hkept
        (Function.update fileIds info.tableId (some fileId))
      exact ⟨v', fileIds', .cons hopen hrest⟩

/-- What holds of the tables and the folder at every point of every life. -/
structure FilesOfTables (s : Site) : Prop where
  /-- each table has a file, and it is open -/
  opened : ∀ info, LiveTable s.catalog info → ∃ fileId,
    s.fileIds info.tableId = some fileId ∧ s.volume.folder.find (fileName info) = some fileId
  /-- no two tables share one -/
  apart : ∀ i j, LiveTable s.catalog i → LiveTable s.catalog j → i.tableId ≠ j.tableId →
    fileName i ≠ fileName j ∧ s.fileIds i.tableId ≠ s.fileIds j.tableId
  /-- no file is left of a table that is gone -/
  none_left : ∀ info, s.volume.folder.entries (fileName info) ≠ none →
    ∃ j, LiveTable s.catalog j ∧ fileName j = fileName info
  /-- `create_table` opens a file that is not there yet -/
  fresh : s.installation.process.phase = .serving → ∀ x name columns tableId,
    s.installation.process.server.threads x = .numbered name columns tableId →
    s.volume.folder.entries (fileName ⟨name, columns, tableId, 0⟩) = none
  /-- a page in use shows what was last written to that page of its table -/
  shows : ∀ h ∈ s.volume.pool.handles, ∃ info f, LiveTable s.catalog info ∧
    s.fileIds info.tableId = some h.pageId.fileId ∧
    s.volume.pool.manager.frames[h.frame]? = some f ∧ f.pageId = h.pageId ∧
    f.bytes = s.pages info.tableId h.pageId.pageNumber.toNat
  /-- an orderly end is followed by a life with the same tables -/
  restarts : s.installation.process.phase = .closed → s.catalog.Fits →
    s.volume.pool.handles = [] →
    ∃ s', SiteStep s .restart s' ∧ s'.catalog = s.catalog ∧ s'.pages = s.pages

/-- In every life each table has a file of its own, which is new when the table is, shows what
was last written to it in any life, and goes when the table is not committed. -/
theorem files_of_tables {s : Site} (h : sites.Reachable s) : FilesOfTables s := by
  obtain ⟨⟨saved, hlasting⟩, a, hstored⟩ := siteKept_of_reachable h
  have hlively := hlasting.process
  have hids {info : TableInfo} (hinfo : LiveTable s.catalog info) : ∃ fileId,
      s.fileIds info.tableId = some fileId ∧ (fileName info, fileId) ∈ s.volume.folder.fileIds := by
    obtain ⟨fileId, hid, hmem⟩ := hstored.found info hinfo
    exact ⟨fileId, hid, hstored.kept.mem_names.mp hmem⟩
  refine ⟨fun info hinfo => ?_, fun i j hi hj hne => ⟨fun heq => ?_, fun heq => ?_⟩,
    fun info hentry => ?_, fun hphase x name columns tableId hx => ?_, fun handle hhandle => ?_,
    fun hphase hfits hhandles => ?_⟩
  · obtain ⟨fileId, hid, hmem⟩ := hids hinfo
    exact ⟨fileId, hid, hstored.kept.sound.find_eq hmem⟩
  · exact hne (fileName_tableId heq)
  · obtain ⟨fileId, hid, hmem⟩ := hids hi
    obtain ⟨fileId', hid', hmem'⟩ := hids hj
    rw [hid, hid'] at heq
    cases heq
    exact hne (fileName_tableId (hstored.kept.sound.name_unique hmem hmem'))
  · by_contra hnot
    exact hentry (hstored.gone info fun j hj hname => hnot ⟨j, hj, hname⟩)
  · have hnew := (hlively.invariant.serving hphase).1.numbered_new hx
    exact hstored.gone _ fun j hj hname => hnew j hj (fileName_tableId hname)
  · obtain ⟨name, f, hmem, hf, hpage, _, hbytes⟩ :=
      (Volume.shows_of_kept hstored.kept).view handle hhandle
    obtain ⟨info, hinfo, hname, hid⟩ := hstored.named _ hmem
    refine ⟨info, f, hinfo, hid, hf, hpage, ?_⟩
    rw [hbytes, ← hstored.contents info hinfo, hname]
  · have hload := hlively.reload hphase hfits s.installation.file
    have hlegal : s.volume.Legal (.restart [zeroPage]) := ⟨List.cons_ne_nil _ _, hhandles⟩
    obtain ⟨v₁, hexec, hkept⟩ := hstored.kept.exec hlegal True.intro
    obtain ⟨v', fileIds', hopen⟩ := exists_openFiles hkept s.catalog.tables.entries fun _ => none
    exact ⟨_, .restart (.restart hphase hfits hload) ⟨hlegal, True.intro, hexec⟩ hopen, rfl, rfl⟩

/-- The table `a (b INT)`, the first of its database. -/
def tableA : TableInfo := ⟨[97], [⟨[98], .int, 0⟩, ⟨Catalog.ridName, .rid, 0⟩], 0, 0⟩

theorem tableA_columns : Catalog.finalColumns [⟨[98], .int, 0⟩] 0 = .ok tableA.columns := rfl

/-- The byte 7 is written to the page of a table in the life that creates it; the next life,
where the file has another descriptor, has it in a frame. -/
theorem files_of_tables_restart : ∃ s, sites.Reachable s ∧
    ∃ f, s.volume.pool.manager.frames[0]? = some f ∧ f.pageId = ⟨⟨4⟩, 0⟩ ∧ f.bytes 0 = 7 := by
  have hname : ∀ ch ∈ tableA.name, Catalog.nameChar ch = true := by
    intro ch hch
    rw [List.mem_singleton.mp hch]
    rfl
  have hmade : Catalog.MadeByCreate tableA := madeByCreate_parts hname tableA_columns
  have hfits {inProcess : TxID → List TableInfo} {m : KeyedMap TableInfo.tableId}
      (hm : m.entries = [tableA]) : Catalog.Fits ⟨1, 2, inProcess, m⟩ := by
    refine ⟨by norm_num, by norm_num, by rw [hm]; decide, fun info hinfo => ?_⟩
    rw [hm] at hinfo
    cases List.mem_singleton.mp hinfo
    exact ⟨by decide, by decide, by decide, by decide, by decide⟩
  have hinit : sites.init ⟨⟨[], .start .new⟩, Volume.emptyVolume, fun _ => none,
      fun _ _ => zeroPage⟩ := ⟨rfl, Volume.emptyVolume_fresh, fun _ => rfl, rfl⟩
  have hpage : ∀ {fileId : FileId} {name : System.FileName} {v : Volume},
      (name, fileId) ∈ v.folder.fileIds → ∀ pageId,
        System.Request.getPage ⟨fileId, 0⟩ = .getPage pageId → v.folder.Live pageId.fileId := by
    rintro fileId name v hmem _ ⟨⟩
    exact ⟨name, hmem⟩
  have hrun : ∃ s, sites.Reachable s ∧ s.volume.pool.handles = [⟨⟨⟨4⟩, 0⟩, 0⟩] ∧
      s.fileIds = Function.update (fun _ => none) 0 (some ⟨4⟩) ∧ s.pages 0 0 0 = 7 := by
    refine ⟨_, .step (.step (.step (.step (.step (.step (.step (.step (.step (.step (.step
      (.step (.step (.step (.step (.init hinit)
      (show SiteStep _ (.process (.call 1 (.start .readCommitted))) _ from
        .process True.intro (.call rfl rfl (.start .readCommitted))))
      (show SiteStep _ (.process (.call 1 (.checkName [97] [⟨[98], .int, 0⟩]))) _ from
        .process True.intro (.call rfl rfl (.checkName rfl rfl))))
      (show SiteStep _ (.process (.call 1 .takeId)) _ from
        .process True.intro (.call rfl rfl (.takeId rfl))))
      (show SiteStep _ (.process (.call 1 .addTable)) _ from
        .addTable rfl (.call rfl rfl (.addTable rfl rfl)) ⟨⟨⟨3⟩,
          ⟨List.cons_ne_nil _ _, List.not_mem_nil, by decide⟩, trivial, rfl⟩, rfl⟩))
      (show SiteStep _ (.request (.getPage ⟨⟨3⟩, 0⟩)) _ from
        .request ⟨⟨⟨by decide, ⟨by decide, by decide⟩, fun _ =>
          ⟨_, List.mem_singleton.mpr rfl, rfl⟩⟩, hpage (List.mem_singleton.mpr rfl)⟩, ⟨.inl (by decide), by decide⟩, rfl⟩))
      (show SiteStep _ (.request (.write ⟨⟨⟨3⟩, 0⟩, 0⟩ 0 [7])) _ from
        .request ⟨⟨⟨List.mem_singleton.mpr rfl, by decide⟩, fun _ h => by cases h⟩, trivial, rfl⟩))
      (show SiteStep _ (.request (.unpin ⟨⟨⟨3⟩, 0⟩, 0⟩)) _ from
        .request ⟨⟨List.mem_singleton.mpr rfl, fun _ h => by cases h⟩, trivial, rfl⟩))
      (show SiteStep _ (.process (.call 1 .commit)) _ from
        .process True.intro (.call rfl rfl (.commit rfl rfl rfl))))
      (show SiteStep _ (.process (.call 1 .setCommitted)) _ from
        .process True.intro (.call rfl rfl (.setCommitted rfl rfl))))
      (show SiteStep _ (.process (.call 1 .releaseLocks)) _ from
        .process True.intro (.call rfl rfl (.releaseLocks rfl rfl))))
      (show SiteStep _ (.process (.call 1 .erase)) _ from
        .process True.intro (.call rfl rfl (.erase rfl))))
      (show SiteStep _ (.process .destroy) _ from
        .process True.intro (.destroy rfl ?_ .nil ?_)))
      (show SiteStep _ (.process .clear) _ from .process True.intro (.clear rfl)))
      (show SiteStep _ .restart _ from
        .restart (.restart rfl ?_ ((congrArg Catalog.load (Catalog.close_eq ..)).trans
          (Catalog.load_encode ?_ ?_ _)))
          ⟨⟨List.cons_ne_nil zeroPage [], rfl⟩, trivial, rfl⟩
          (.cons ⟨⟨⟨4⟩, ⟨List.cons_ne_nil _ _, List.not_mem_nil, by decide⟩, trivial, rfl⟩, rfl⟩
            .nil)))
      (show SiteStep _ (.request (.getPage ⟨⟨4⟩, 0⟩)) _ from
        .request ⟨⟨⟨by decide, ⟨by decide, by decide⟩, fun _ =>
          ⟨_, List.mem_singleton.mpr rfl, rfl⟩⟩, hpage (List.mem_singleton.mpr rfl)⟩, ⟨.inl (by decide), by decide⟩, rfl⟩), rfl, rfl, rfl⟩
    · intro x
      by_cases hx : x = 1
      · subst hx
        exact True.intro
      · simp [State.advance, State.setThread, Process.start, hx, Thread.Resting, Catalog.new]
    · intro x
      simp [State.advance, State.setThread, Process.start, Globals.startTransaction,
        Globals.erase, Globals.setState, Globals.releaseAllLocks, Catalog.new]
    · exact hfits rfl
    · intro info hinfo
      cases List.mem_singleton.mp hinfo
      exact hmade
    · exact hfits rfl
  obtain ⟨s, hreach, hhandles, hfileIds, hbyte⟩ := hrun
  have hfiles := files_of_tables hreach
  obtain ⟨info, f, _, hid, hf, hpageId, hbytes⟩ :=
    hfiles.shows ⟨⟨⟨4⟩, 0⟩, 0⟩ (by rw [hhandles]; exact List.mem_singleton.mpr rfl)
  have htable : info.tableId = 0 := by
    by_contra hne
    rw [hfileIds, Function.update_of_ne hne] at hid
    cases hid
  refine ⟨s, hreach, f, hf, hpageId, ?_⟩
  rw [hbytes, htable]
  exact hbyte

end Iic3413Db.Server
