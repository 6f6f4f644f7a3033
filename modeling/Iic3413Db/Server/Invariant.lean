/-
  Server/Invariant.lean --- what holds of the catalog, the transactions and the
  locks in every state of the server.

  `CatalogOk` and `LockOk` say what is known of one transaction at each point of
  its calls.  A step changes one transaction; `Frame` is what the others see of
  it, and it keeps both.
-/
import Iic3413Db.Server.Threads

set_option autoImplicit false

namespace Iic3413Db.Server

open Iic3413Db.Foundation Iic3413Db.RelationalModel Iic3413Db.Storage
open Iic3413Db.System (Catalog TableId TableInfo TableColumn IsolationLevel TransactionState)

/-! ## The tables of one transaction -/

/-- The same table, with any cardinality. -/
structure SameTable (i j : TableInfo) : Prop where
  tableId : i.tableId = j.tableId
  name : i.name = j.name
  columns : i.columns = j.columns

theorem SameTable.refl (i : TableInfo) : SameTable i i := ⟨rfl, rfl, rfl⟩

theorem SameTable.trans {i j k : TableInfo} (h : SameTable i j) (h' : SameTable j k) :
    SameTable i k :=
  ⟨h.tableId.trans h'.tableId, h.name.trans h'.name, h.columns.trans h'.columns⟩

/-- The catalog, with what one transaction has created and applied. -/
structure Tables where
  catalog : Catalog
  created : List TableInfo
  applied : List (TableId × Int)

def State.tables (s : State) (x : TxID) : Tables :=
  ⟨s.globals.catalog, s.created x, s.applied x⟩

/-- No table the transaction created is committed, and none of its deltas was
applied. -/
structure Unpublished (v : Tables) : Prop where
  apart : ∀ i ∈ v.created, ∀ c ∈ v.catalog.tables.entries, c.tableId ≠ i.tableId
  applied : v.applied = []

/-- Its tables are uncommitted. -/
structure Uncommitted (v : Tables) (x : TxID) : Prop extends Unpublished v where
  inProcess : v.catalog.inProcessTables x = v.created

/-- Its tables are gone. -/
structure Dropped (v : Tables) (x : TxID) : Prop extends Unpublished v where
  inProcess : v.catalog.inProcessTables x = []

/-- Its tables are committed. -/
structure Published (v : Tables) (x : TxID) : Prop where
  inProcess : v.catalog.inProcessTables x = []
  tables : ∀ i ∈ v.created, ∃ c ∈ v.catalog.tables.entries, SameTable c i

/-- What is known of its tables at each point. -/
def CatalogOk (v : Tables) (x : TxID) : Thread → Prop
  | .absent => Uncommitted v x ∧ v.created = []
  | .idle | .waiting _ => Uncommitted v x
  | .creating name _ => Uncommitted v x ∧ ∀ i ∈ v.created, i.name ≠ name
  | .numbered name _ tableId => Uncommitted v x ∧ (∀ i ∈ v.created, i.name ≠ name) ∧
      tableId < v.catalog.tableIdCounter ∧
      ∀ c ∈ v.catalog.tables.entries, c.tableId ≠ tableId
  | .applying _ | .flipped => Published v x
  | .undoing ending => Uncommitted v x ∧ ending ≠ .committed
  | .dropped ending | .unlocking ending => Dropped v x ∧ ending ≠ .committed
  | .released ending | .ended ending =>
      ending = .committed ∧ Published v x ∨ ending ≠ .committed ∧ Dropped v x

/-- A transaction's uncommitted tables are tables it created. -/
theorem CatalogOk.inProcess_sublist {v : Tables} {x : TxID} {t : Thread} (h : CatalogOk v x t) :
    (v.catalog.inProcessTables x).Sublist v.created := by
  have hopen : Uncommitted v x → (v.catalog.inProcessTables x).Sublist v.created :=
    fun h => by rw [h.inProcess]
  have hnone : v.catalog.inProcessTables x = [] →
      (v.catalog.inProcessTables x).Sublist v.created := fun h => by simp [h]
  cases t with
  | absent => exact hopen h.1
  | idle => exact hopen h
  | creating name columns => exact hopen h.1
  | numbered name columns tableId => exact hopen h.1
  | waiting key => exact hopen h
  | applying deltas => exact hnone h.inProcess
  | flipped => exact hnone h.inProcess
  | undoing ending => exact hopen h.1
  | dropped ending => exact hnone h.1.inProcess
  | unlocking ending => exact hnone h.1.inProcess
  | released ending => exact h.elim (fun h => hnone h.2.inProcess) fun h => hnone h.2.inProcess
  | ended ending => exact h.elim (fun h => hnone h.2.inProcess) fun h => hnone h.2.inProcess

theorem CatalogOk.inProcess_subset {v : Tables} {x : TxID} {t : Thread} (h : CatalogOk v x t) :
    ∀ i ∈ v.catalog.inProcessTables x, i ∈ v.created :=
  fun _ hi => h.inProcess_sublist.subset hi

/-! ## The locks of one transaction -/

/-- The entry of a transaction covers its locks. -/
structure Entry (g : Globals) (x : TxID) (tx : Transaction) : Prop where
  found : g.activeTransactions x = some tx
  id : tx.id = x
  covers : ∀ key, g.lockTable key = some x → key ∈ tx.firstRids

/-- The transaction can undo: it sees the tables of its write set. -/
def Visible (g : Globals) (x : TxID) (tx : Transaction) : Prop :=
  ∀ key ∈ tx.firstRids, (g.catalog.getTableInfoById key.tableId x).isSome

/-- No lock is the transaction's. -/
def Unlocked (g : Globals) (x : TxID) : Prop := ∀ key, g.lockTable key ≠ some x

/-- The transaction is active, and can undo. -/
def Running (g : Globals) (x : TxID) : Prop :=
  ∃ tx, Entry g x tx ∧ tx.state = .active ∧ Visible g x tx

/-- What is known of its entry and its locks at each point. -/
def LockOk (g : Globals) (x : TxID) : Thread → Prop
  | .absent | .ended _ => g.activeTransactions x = none ∧ Unlocked g x
  | .idle | .creating _ _ | .numbered _ _ _ | .undoing _ => Running g x
  | .waiting key => Running g x ∧ (g.catalog.getTableInfoById key.tableId x).isSome
  | .applying _ | .flipped | .dropped _ | .unlocking _ => ∃ tx, Entry g x tx
  | .released _ => (∃ tx, Entry g x tx) ∧ Unlocked g x

/-- A lock's holder has an entry, and the key in its write set. -/
theorem LockOk.holder {g : Globals} {x : TxID} {t : Thread} (h : LockOk g x t) {key : TupleKey}
    (hheld : g.lockTable key = some x) :
    ∃ tx, g.activeTransactions x = some tx ∧ key ∈ tx.firstRids := by
  have hentry : (∃ tx, Entry g x tx) → ∃ tx, g.activeTransactions x = some tx ∧ key ∈ tx.firstRids :=
    fun ⟨tx, htx⟩ => ⟨tx, htx.found, htx.covers key hheld⟩
  have hrunning : Running g x → ∃ tx, g.activeTransactions x = some tx ∧ key ∈ tx.firstRids :=
    fun ⟨tx, htx, _⟩ => hentry ⟨tx, htx⟩
  cases t with
  | absent => exact absurd hheld (h.2 key)
  | idle => exact hrunning h
  | creating name columns => exact hrunning h
  | numbered name columns tableId => exact hrunning h
  | waiting key => exact hrunning h.1
  | applying deltas => exact hentry h
  | flipped => exact hentry h
  | undoing ending => exact hrunning h
  | dropped ending => exact hentry h
  | unlocking ending => exact hentry h
  | released ending => exact hentry h.1
  | ended ending => exact absurd hheld (h.2 key)

/-! ## What the others see of a step -/

/-- A step of `txId` takes `s` to `s'`, as the others see it. -/
structure Frame (txId : TxID) (s s' : State) : Prop where
  threads : ∀ x, x ≠ txId → s'.threads x = s.threads x
  created : ∀ x, x ≠ txId → s'.created x = s.created x
  applied : ∀ x, x ≠ txId → s'.applied x = s.applied x
  inProcess : ∀ x, x ≠ txId →
    s'.globals.catalog.inProcessTables x = s.globals.catalog.inProcessTables x
  entries : ∀ x, x ≠ txId →
    s'.globals.activeTransactions x = s.globals.activeTransactions x
  locks : ∀ x, x ≠ txId → ∀ key,
    s'.globals.lockTable key = some x ↔ s.globals.lockTable key = some x
  kept : ∀ i ∈ s.globals.catalog.tables.entries,
    ∃ j ∈ s'.globals.catalog.tables.entries, SameTable j i
  added : ∀ j ∈ s'.globals.catalog.tables.entries,
    (∃ i ∈ s.globals.catalog.tables.entries, SameTable j i) ∨
      ∃ i ∈ s.globals.catalog.inProcessTables txId, SameTable j i
  counter : s.globals.catalog.tableIdCounter ≤ s'.globals.catalog.tableIdCounter

section Frames

variable {s s' : State} {txId x : TxID}

/-- A step that leaves the catalog and the locks. -/
theorem Frame.of_globals {g : Globals} {t : Thread} (hcatalog : g.catalog = s.globals.catalog)
    (hentries : ∀ x, x ≠ txId → g.activeTransactions x = s.globals.activeTransactions x)
    (hlocks : ∀ x, x ≠ txId → ∀ key, g.lockTable key = some x ↔ s.globals.lockTable key = some x) :
    Frame txId s (s.advance txId g t) where
  threads x hx := Function.update_of_ne hx ..
  created _ _ := rfl
  applied _ _ := rfl
  inProcess x _ := congrArg (fun c => c.inProcessTables x) hcatalog
  entries := hentries
  locks := hlocks
  kept i hi := ⟨i, by rw [← hcatalog] at hi; exact hi, .refl i⟩
  added j hj := .inl ⟨j, by rw [← hcatalog]; exact hj, .refl j⟩
  counter := (congrArg Catalog.tableIdCounter hcatalog).ge

theorem Frame.setThread {t : Thread} : Frame txId s (s.setThread txId t) :=
  .of_globals rfl (fun _ _ => rfl) fun _ _ _ => .rfl

/-- A step by another transaction whose uncommitted tables are not `x`'s. -/
theorem Unpublished.frame (hf : Frame txId s s') (hx : x ≠ txId)
    (hdistinct : ∀ i ∈ s.created x, ∀ j ∈ s.globals.catalog.inProcessTables txId,
      j.tableId ≠ i.tableId) (h : Unpublished (s.tables x)) : Unpublished (s'.tables x) := by
  refine ⟨fun i hi c hc => ?_, (hf.applied x hx).trans h.applied⟩
  have hi : i ∈ s.created x := by rw [← hf.created x hx]; exact hi
  rcases hf.added c hc with ⟨j, hj, hsame⟩ | ⟨j, hj, hsame⟩
  · rw [hsame.tableId]
    exact h.apart i hi j hj
  · rw [hsame.tableId]
    exact hdistinct i hi j hj

theorem Published.frame (hf : Frame txId s s') (hx : x ≠ txId) (h : Published (s.tables x) x) :
    Published (s'.tables x) x := by
  refine ⟨(hf.inProcess x hx).trans h.inProcess, fun i hi => ?_⟩
  have hi : i ∈ s.created x := by rw [← hf.created x hx]; exact hi
  obtain ⟨c, hc, hsame⟩ := h.tables i hi
  obtain ⟨d, hd, hsame'⟩ := hf.kept c hc
  exact ⟨d, hd, hsame'.trans hsame⟩

theorem CatalogOk.frame (hf : Frame txId s s') (hx : x ≠ txId)
    (hdistinct : ∀ i ∈ s.created x, ∀ j ∈ s.globals.catalog.inProcessTables txId,
      j.tableId ≠ i.tableId)
    (hnumbered : ∀ name columns tableId, s.threads x = .numbered name columns tableId →
      ∀ j ∈ s.globals.catalog.inProcessTables txId, j.tableId ≠ tableId)
    (h : CatalogOk (s.tables x) x (s.threads x)) : CatalogOk (s'.tables x) x (s'.threads x) := by
  have hcreated : (s'.tables x).created = (s.tables x).created := hf.created x hx
  have hopen : Uncommitted (s.tables x) x → Uncommitted (s'.tables x) x := fun h =>
    ⟨h.toUnpublished.frame hf hx hdistinct,
      (hf.inProcess x hx).trans (h.inProcess.trans hcreated.symm)⟩
  have hdropped : Dropped (s.tables x) x → Dropped (s'.tables x) x := fun h =>
    ⟨h.toUnpublished.frame hf hx hdistinct, (hf.inProcess x hx).trans h.inProcess⟩
  rw [hf.threads x hx]
  cases ht : s.threads x with
  | absent =>
      rw [ht] at h
      exact ⟨hopen h.1, by rw [hcreated]; exact h.2⟩
  | idle =>
      rw [ht] at h
      exact hopen h
  | creating name columns =>
      rw [ht] at h
      exact ⟨hopen h.1, by rw [hcreated]; exact h.2⟩
  | numbered name columns tableId =>
      rw [ht] at h
      obtain ⟨h, hnames, hlt, hapart⟩ := h
      refine ⟨hopen h, by rw [hcreated]; exact hnames, lt_of_lt_of_le hlt hf.counter, fun c hc => ?_⟩
      rcases hf.added c hc with ⟨j, hj, hsame⟩ | ⟨j, hj, hsame⟩
      · rw [hsame.tableId]
        exact hapart j hj
      · rw [hsame.tableId]
        exact hnumbered name columns tableId ht j hj
  | waiting key =>
      rw [ht] at h
      exact hopen h
  | applying deltas =>
      rw [ht] at h
      exact Published.frame hf hx h
  | flipped =>
      rw [ht] at h
      exact Published.frame hf hx h
  | undoing ending =>
      rw [ht] at h
      exact ⟨hopen h.1, h.2⟩
  | dropped ending =>
      rw [ht] at h
      exact ⟨hdropped h.1, h.2⟩
  | unlocking ending =>
      rw [ht] at h
      exact ⟨hdropped h.1, h.2⟩
  | released ending =>
      rw [ht] at h
      exact h.imp (fun h => ⟨h.1, h.2.frame hf hx⟩) fun h => ⟨h.1, hdropped h.2⟩
  | ended ending =>
      rw [ht] at h
      exact h.imp (fun h => ⟨h.1, h.2.frame hf hx⟩) fun h => ⟨h.1, hdropped h.2⟩

/-- The tables a transaction sees stay. -/
theorem Frame.isSome (hf : Frame txId s s') (hx : x ≠ txId) {tableId : TableId}
    (h : (s.globals.catalog.getTableInfoById tableId x).isSome) :
    (s'.globals.catalog.getTableInfoById tableId x).isSome := by
  obtain ⟨info, hinfo⟩ := Option.isSome_iff_exists.mp h
  obtain ⟨hid, hin⟩ := Catalog.getTableInfoById_some hinfo
  refine Catalog.getTableInfoById_isSome ?_
  rcases hin with hin | hin
  · obtain ⟨j, hj, hsame⟩ := hf.kept info hin
    exact ⟨j, .inl hj, hsame.tableId.trans hid⟩
  · exact ⟨info, .inr (by rw [hf.inProcess x hx]; exact hin), hid⟩

theorem Entry.frame (hf : Frame txId s s') (hx : x ≠ txId) {tx : Transaction}
    (h : Entry s.globals x tx) : Entry s'.globals x tx :=
  ⟨(hf.entries x hx).trans h.found, h.id,
    fun key hheld => h.covers key ((hf.locks x hx key).mp hheld)⟩

theorem Unlocked.frame (hf : Frame txId s s') (hx : x ≠ txId) (h : Unlocked s.globals x) :
    Unlocked s'.globals x :=
  fun key hheld => h key ((hf.locks x hx key).mp hheld)

theorem LockOk.frame (hf : Frame txId s s') (hx : x ≠ txId)
    (h : LockOk s.globals x (s.threads x)) : LockOk s'.globals x (s'.threads x) := by
  have hentry : (∃ tx, Entry s.globals x tx) → ∃ tx, Entry s'.globals x tx :=
    fun ⟨tx, htx⟩ => ⟨tx, htx.frame hf hx⟩
  have hrunning : Running s.globals x → Running s'.globals x :=
    fun ⟨tx, htx, hactive, hvisible⟩ =>
      ⟨tx, htx.frame hf hx, hactive, fun key hkey => hf.isSome hx (hvisible key hkey)⟩
  have hnone : s.globals.activeTransactions x = none ∧ Unlocked s.globals x →
      s'.globals.activeTransactions x = none ∧ Unlocked s'.globals x :=
    fun h => ⟨(hf.entries x hx).trans h.1, h.2.frame hf hx⟩
  rw [hf.threads x hx]
  cases ht : s.threads x with
  | absent => rw [ht] at h; exact hnone h
  | idle => rw [ht] at h; exact hrunning h
  | creating name columns => rw [ht] at h; exact hrunning h
  | numbered name columns tableId => rw [ht] at h; exact hrunning h
  | waiting key => rw [ht] at h; exact ⟨hrunning h.1, hf.isSome hx h.2⟩
  | applying deltas => rw [ht] at h; exact hentry h
  | flipped => rw [ht] at h; exact hentry h
  | undoing ending => rw [ht] at h; exact hrunning h
  | dropped ending => rw [ht] at h; exact hentry h
  | unlocking ending => rw [ht] at h; exact hentry h
  | released ending => rw [ht] at h; exact ⟨hentry h.1, h.2.frame hf hx⟩
  | ended ending => rw [ht] at h; exact hnone h

end Frames

/-! ## The invariant -/

structure Invariant (s : State) : Prop where
  names : (s.globals.catalog.tables.entries.map TableInfo.name).Nodup
  ids : ∀ c ∈ s.globals.catalog.tables.entries, c.tableId < s.globals.catalog.tableIdCounter
  known : ∀ x, s.threads x ≠ .absent → x < s.globals.catalog.transactionCount
  createdIds : ∀ x, ∀ i ∈ s.created x, i.tableId < s.globals.catalog.tableIdCounter
  createdNames : ∀ x, ((s.created x).map TableInfo.name).Nodup
  createdNodup : ∀ x, ((s.created x).map TableInfo.tableId).Nodup
  distinct : ∀ x y, x ≠ y → ∀ i ∈ s.created x, ∀ j ∈ s.created y, j.tableId ≠ i.tableId
  numbered : ∀ x name columns tableId, s.threads x = .numbered name columns tableId →
    (∀ y, ∀ i ∈ s.created y, i.tableId ≠ tableId) ∧
    ∀ y name' columns', s.threads y = .numbered name' columns' tableId → y = x
  catalog : ∀ x, CatalogOk (s.tables x) x (s.threads x)
  locks : ∀ x, LockOk s.globals x (s.threads x)

theorem Invariant.opened {s : State} (h : Opened s) : Invariant s where
  names := h.names
  ids := h.ids
  known x hx := absurd (h.threads x) hx
  createdIds x i hi := by simp [h.created x] at hi
  createdNames x := by simp [h.created x]
  createdNodup x := by simp [h.created x]
  distinct x y _ i hi := by simp [h.created x] at hi
  numbered x name columns tableId hx := by simp [h.threads x] at hx
  catalog x := by
    rw [h.threads x]
    refine ⟨⟨⟨fun i hi => ?_, h.applied x⟩, (h.inProcess x).trans (h.created x).symm⟩, h.created x⟩
    have hi : i ∈ s.created x := hi
    simp [h.created x] at hi
  locks x := by
    rw [h.threads x]
    exact ⟨h.transactions x, fun key => by simp [h.locks key]⟩

section Keep

variable {s s' : State} {txId : TxID}

/-- Whose table an uncommitted table is. -/
theorem Invariant.inProcess_apart (h : Invariant s) {x y : TxID} (hxy : x ≠ y) :
    ∀ i ∈ s.created x, ∀ j ∈ s.globals.catalog.inProcessTables y, j.tableId ≠ i.tableId :=
  fun i hi j hj => h.distinct x y hxy i hi j ((h.catalog y).inProcess_subset j hj)

/-- What the others know is kept. -/
theorem Invariant.frame (h : Invariant s) (hf : Frame txId s s') {x : TxID} (hx : x ≠ txId) :
    CatalogOk (s'.tables x) x (s'.threads x) ∧ LockOk s'.globals x (s'.threads x) := by
  refine ⟨(h.catalog x).frame hf hx (h.inProcess_apart hx) fun name columns tableId ht j hj => ?_,
    (h.locks x).frame hf hx⟩
  exact (h.numbered x name columns tableId ht).1 txId j ((h.catalog txId).inProcess_subset j hj)

/-- A step that creates no table and takes no table id. -/
theorem Invariant.keep (h : Invariant s) (hf : Frame txId s s')
    (hnames : (s'.globals.catalog.tables.entries.map TableInfo.name).Nodup)
    (hcounter : s'.globals.catalog.tableIdCounter = s.globals.catalog.tableIdCounter)
    (hcount : s.globals.catalog.transactionCount ≤ s'.globals.catalog.transactionCount)
    (hknown : txId < s'.globals.catalog.transactionCount)
    (hcreated : s'.created txId = s.created txId)
    (hnumbered : ∀ name columns tableId, s'.threads txId ≠ .numbered name columns tableId)
    (hcatalog : CatalogOk (s'.tables txId) txId (s'.threads txId))
    (hlocks : LockOk s'.globals txId (s'.threads txId)) : Invariant s' := by
  have hcreated : s'.created = s.created := by
    funext x
    by_cases hx : x = txId
    · rw [hx, hcreated]
    · exact hf.created x hx
  refine ⟨hnames, fun c hc => ?_, fun x hx => ?_, ?_, ?_, ?_, ?_, ?_, fun x => ?_, fun x => ?_⟩
  · rw [hcounter]
    rcases hf.added c hc with ⟨i, hi, hsame⟩ | ⟨i, hi, hsame⟩
    · rw [hsame.tableId]
      exact h.ids i hi
    · rw [hsame.tableId]
      exact h.createdIds txId i ((h.catalog txId).inProcess_subset i hi)
  · by_cases hxt : x = txId
    · rw [hxt]
      exact hknown
    · rw [hf.threads x hxt] at hx
      exact lt_of_lt_of_le (h.known x hx) hcount
  · rw [hcreated, hcounter]
    exact h.createdIds
  · rw [hcreated]
    exact h.createdNames
  · rw [hcreated]
    exact h.createdNodup
  · rw [hcreated]
    exact h.distinct
  · rw [hcreated]
    intro x name columns tableId hx
    by_cases hxt : x = txId
    · rw [hxt] at hx
      exact absurd hx (hnumbered name columns tableId)
    · rw [hf.threads x hxt] at hx
      obtain ⟨hids, hothers⟩ := h.numbered x name columns tableId hx
      refine ⟨hids, fun y name' columns' hy => ?_⟩
      by_cases hyt : y = txId
      · rw [hyt] at hy
        exact absurd hy (hnumbered name' columns' tableId)
      · rw [hf.threads y hyt] at hy
        exact hothers y name' columns' hy
  · by_cases hxt : x = txId
    · rw [hxt]
      exact hcatalog
    · exact (h.frame hf hxt).1
  · by_cases hxt : x = txId
    · rw [hxt]
      exact hlocks
    · exact (h.frame hf hxt).2

/-- A step of a transaction that is there, and that leaves the catalog. -/
theorem Invariant.advance (h : Invariant s) {g : Globals} {t : Thread}
    (hf : Frame txId s (s.advance txId g t)) (hthere : s.threads txId ≠ .absent)
    (hg : g.catalog = s.globals.catalog)
    (hnumbered : ∀ name columns tableId, t ≠ .numbered name columns tableId)
    (hcatalog : CatalogOk (s.tables txId) txId t) (hlock : LockOk g txId t) :
    Invariant (s.advance txId g t) := by
  have hself := s.advance_self txId g t
  have hnames := h.names
  have htables : (s.advance txId g t).tables txId = s.tables txId := by
    show (⟨g.catalog, _, _⟩ : Tables) = _
    rw [hg]
    rfl
  rw [← hg] at hnames
  refine h.keep hf hnames (congrArg Catalog.tableIdCounter hg)
    (congrArg Catalog.transactionCount hg).ge ?_ rfl ?_ ?_ ?_
  · show txId < g.catalog.transactionCount
    rw [hg]
    exact h.known txId hthere
  · rw [hself]
    exact hnumbered
  · rw [hself, htables]
    exact hcatalog
  · rw [hself]
    exact hlock

end Keep

end Iic3413Db.Server
