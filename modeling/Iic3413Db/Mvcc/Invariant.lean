/-
  Mvcc/Invariant.lean --- the invariant of the version chains.

  `Chains` gives each first RID the chain of its tuple.  The invariant says that
  the chains are laid out in the slots and cover them, that the uncommitted
  versions of a chain are at its end, by one writer, who holds the tuple's lock
  unless it inserted the tuple, and what each session knows at its point of the
  code.  `Derived` is the history a chain has: each version after the first is
  the result of one reported update of the version before it.

  A step changes one session.  `SessionOk.frame` carries what the others know,
  and `Invariant.keep` carries the rest for the steps that store nothing.
-/
import Iic3413Db.Mvcc.Database

set_option autoImplicit false

namespace Iic3413Db.Mvcc

open Iic3413Db.Foundation Iic3413Db.RelationalModel Iic3413Db.Storage Iic3413Db.System
  Iic3413Db.Query

/-- The version chain of each tuple, by first RID; no tuple, no version. -/
abbrev Chains : Type := RID → List Version

/-! ## What a session knows -/

/-- No uncommitted version is another transaction's. -/
def Mine (state : TxID → TransactionState) (txId : TxID) (vs : List Version) : Prop :=
  ∀ v ∈ vs, state v.writer = .active → v.writer = txId

/-- The session holds the lock of the tuple. -/
structure Holds (db : Database) (g : Chains) (txId : TxID) (first : RID) : Prop where
  runs : db.transactions.Runs txId .readCommitted
  lock : db.lockTable first = some txId
  tuple : g first ≠ []

/-- The session holds the lock, and `v` is the last version, which it may
update. -/
structure AtLast (db : Database) (g : Chains) (txId : TxID) (first : RID) (v : Version) : Prop
    extends Holds db g txId first where
  mine : Mine db.state txId (g first)
  last : (g first).getLast? = some v

/-- `record` is what the statement makes of `v`, which satisfies its WHERE. -/
def Computed (t : TableSchema) (stmt : UpdateStatement) (first : RID) (v : Version)
    (record : Record) : Prop :=
  stmt.childMatches ⟨v.values⟩ = .ok true ∧ stmt.updatedRecord t v.values first = .ok record

/-- What a session knows at each point. -/
def SessionOk (t : TableSchema) (db : Database) (g : Chains) (txId : TxID) : Session → Prop
  | .idle => True
  | .inserting record => db.state txId = .active ∧ Matches t.schema.columns record.values
  | .inserted _ => db.state txId = .active
  | .scanned _ first => db.transactions.Runs txId .readCommitted ∧ g first ≠ []
  | .locked _ first => Holds db g txId first
  | .reread _ first self record =>
      self = first ∧ ∃ v, AtLast db g txId first v ∧ record = ⟨v.values⟩
  | .updating stmt first record => ∃ v, AtLast db g txId first v ∧ Computed t stmt first v record
  | .relocked stmt first self record =>
      self = first ∧ ∃ v, AtLast db g txId first v ∧ Computed t stmt first v record
  | .appending stmt first self last record =>
      self = first ∧ ∃ v, AtLast db g txId first v ∧ Computed t stmt first v record ∧ last = v.rid
  | .linking stmt first self last new record =>
      self = first ∧ ∃ v, AtLast db g txId first v ∧ Computed t stmt first v record ∧
        last = v.rid ∧ db.slot new = some (⟨txId, 0, new, first⟩, record.stored) ∧
        ∀ f, ∀ u ∈ g f, u.rid ≠ new
  | .committed | .released =>
      ∃ tx, db.transactions.activeTransactions txId = some tx ∧ tx.state = .committed

/-! ## The history of a chain -/

/-- The report `r` stands for the update that made `next` out of `prev`. -/
structure Produces (t : TableSchema) (first : RID) (r : Report) (prev next : Version) : Prop where
  writer : r.txId = next.writer
  matched : r.stmt.childMatches ⟨prev.values⟩ = .ok true
  result : r.stmt.updatedRecord t prev.values first =
    .ok ((⟨next.values⟩ : Record).pushRid first)

/-- The reports, in order, are those of the versions after the first. -/
def Derived (t : TableSchema) (first : RID) (reports : List Report) (vs : List Version) : Prop :=
  List.Forall₂ (fun r (p : Version × Version) => Produces t first r p.1 p.2) reports
    (vs.zip vs.tail)

theorem zip_tail_snoc {α : Type} (vs : List α) (v w : α) :
    ((vs ++ [v]) ++ [w]).zip ((vs ++ [v]) ++ [w]).tail =
      (vs ++ [v]).zip (vs ++ [v]).tail ++ [(v, w)] := by
  induction vs with
  | nil => rfl
  | cons u us ih =>
      cases us with
      | nil => rfl
      | cons x xs => exact congrArg (List.cons (u, x)) ih

theorem Derived.snoc {t : TableSchema} {first : RID} {reports : List Report} {vs : List Version}
    {v w : Version} {r : Report} (h : Derived t first reports (vs ++ [v]))
    (hr : Produces t first r v w) : Derived t first (reports ++ [r]) ((vs ++ [v]) ++ [w]) := by
  unfold Derived at *
  rw [zip_tail_snoc]
  exact List.rel_append h (.cons hr .nil)

/-- The reports about one tuple. -/
def Database.reportsOn (db : Database) (first : RID) : List Report :=
  db.reports.filter fun r => decide (r.first = first)

/-! ## The invariant -/

/-- A stored version that is not linked yet. -/
def Pending (db : Database) (rid : RID) : Prop :=
  ∃ txId stmt first self last record,
    db.sessions txId = .linking stmt first self last rid record

structure Invariant (t : TableSchema) (db : Database) (g : Chains) : Prop where
  valid : db.heapFile.Valid
  schema : db.heapFile.schema = t.schema
  count : 0 < db.transactions.transactionCount ∧ db.transactions.transactionCount < 2 ^ 64
  known : ∀ x, db.transactions.activeTransactions x ≠ none →
    0 < x ∧ x < db.transactions.transactionCount
  chains : ∀ first, g first ≠ [] → Versions db.slot first (g first)
  nodup : ∀ first, ((g first).map Version.rid).Nodup
  cover : ∀ (rid : RID) (header : RecordHeader) (vs : List Value),
    db.slot rid = some (header, vs) → (∃ v ∈ g header.first, v.rid = rid) ∨ Pending db rid
  stored : ∀ first, ∀ v ∈ g first, Matches t.schema.columns v.values
  writers : ∀ first, ∀ v ∈ g first, v.writer < db.transactions.transactionCount
  ordered : ∀ first, Ordered db.state (g first)
  locked : ∀ first, ∀ v ∈ (g first).tail, db.state v.writer = .active →
    db.lockTable first = some v.writer
  sessions : ∀ x, SessionOk t db g x (db.sessions x)
  derived : ∀ first, Derived t first (db.reportsOn first) (g first)

section Frame

variable {t : TableSchema} {db db' : Database} {g g' : Chains} {txId x : TxID}

/-! ## Frames -/

/-- A step of `txId` takes `db` to `db'`, as the other sessions see it. -/
structure Frame (txId : TxID) (db : Database) (g : Chains) (db' : Database) (g' : Chains) :
    Prop where
  entries : ∀ x, x ≠ txId →
    db'.transactions.activeTransactions x = db.transactions.activeTransactions x
  quiet : ∀ first, ∀ v ∈ g first, db'.state v.writer = .active → db.state v.writer = .active
  locks : ∀ (first : RID) (x : TxID), x ≠ txId → db.lockTable first = some x →
    db'.lockTable first = some x
  held : ∀ (first : RID) (x : TxID), x ≠ txId → g first ≠ [] → db.lockTable first = some x →
    g' first = g first
  tuples : ∀ first, g first ≠ [] → g' first ≠ []
  pending : ∀ (x : TxID) (new : RID) (e : RecordHeader × List Value), x ≠ txId →
    db.slot new = some e → e.1.tMin = x → (∀ f, ∀ u ∈ g f, u.rid ≠ new) →
    db'.slot new = some e ∧ ∀ f, ∀ u ∈ g' f, u.rid ≠ new

theorem Frame.holds (hf : Frame txId db g db' g') (hx : x ≠ txId) {first : RID}
    (h : Holds db g x first) : Holds db' g' x first :=
  ⟨h.runs.congr (hf.entries x hx), hf.locks first x hx h.lock, hf.tuples first h.tuple⟩

theorem Frame.atLast (hf : Frame txId db g db' g') (hx : x ≠ txId) {first : RID} {v : Version}
    (h : AtLast db g x first v) : AtLast db' g' x first v := by
  have hsame := hf.held first x hx h.tuple h.lock
  refine ⟨hf.holds hx h.toHolds, fun u hu hactive => ?_, by rw [hsame]; exact h.last⟩
  rw [hsame] at hu
  exact h.mine u hu (hf.quiet first u hu hactive)

/-- A step of another transaction leaves what a session knows. -/
theorem SessionOk.frame (hf : Frame txId db g db' g') (hx : x ≠ txId) {s : Session}
    (h : SessionOk t db g x s) : SessionOk t db' g' x s := by
  have hentry := hf.entries x hx
  have hstate : db'.state x = db.state x := TransactionManager.getState_congr hentry
  cases s with
  | idle => trivial
  | inserting record => exact ⟨hstate.trans h.1, h.2⟩
  | inserted rid => exact hstate.trans h
  | scanned stmt first => exact ⟨h.1.congr hentry, hf.tuples first h.2⟩
  | locked stmt first => exact hf.holds hx h
  | reread stmt first self record =>
      obtain ⟨hself, v, hat, hrecord⟩ := h
      exact ⟨hself, v, hf.atLast hx hat, hrecord⟩
  | updating stmt first record =>
      obtain ⟨v, hat, hcomputed⟩ := h
      exact ⟨v, hf.atLast hx hat, hcomputed⟩
  | relocked stmt first self record =>
      obtain ⟨hself, v, hat, hcomputed⟩ := h
      exact ⟨hself, v, hf.atLast hx hat, hcomputed⟩
  | appending stmt first self last record =>
      obtain ⟨hself, v, hat, hcomputed, hlast⟩ := h
      exact ⟨hself, v, hf.atLast hx hat, hcomputed, hlast⟩
  | linking stmt first self last new record =>
      obtain ⟨hself, v, hat, hcomputed, hlast, hslot, hfree⟩ := h
      exact ⟨hself, v, hf.atLast hx hat, hcomputed, hlast, hf.pending x new _ hx hslot rfl hfree⟩
  | committed =>
      obtain ⟨tx, htx, hcommitted⟩ := h
      exact ⟨tx, hentry.trans htx, hcommitted⟩
  | released =>
      obtain ⟨tx, htx, hcommitted⟩ := h
      exact ⟨tx, hentry.trans htx, hcommitted⟩

/-- What a session knows under its lock stays true while no state changes and no
lock is given up. -/
theorem AtLast.grow {first : RID} {v : Version} (h : AtLast db g x first v)
    (hruns : db'.transactions.Runs x .readCommitted) (hlock : db'.lockTable first = some x)
    (hstate : ∀ y, db'.state y = db.state y) : AtLast db' g x first v :=
  ⟨⟨hruns, hlock, h.tuple⟩, fun u hu hactive => h.mine u hu ((hstate _).symm.trans hactive),
    h.last⟩

/-- What a session knows depends on the slots, the transactions and the locks. -/
theorem SessionOk.congr (hslot : db'.slot = db.slot) (htm : db'.transactions = db.transactions)
    (hlocks : db'.lockTable = db.lockTable) {s : Session} (h : SessionOk t db g x s) :
    SessionOk t db' g x s := by
  have hstate : ∀ y, db'.state y = db.state y := fun y => by
    rw [Database.state, Database.state, htm]
  have hat : ∀ {first : RID} {v : Version}, AtLast db g x first v → AtLast db' g x first v :=
    fun hv => hv.grow (by rw [htm]; exact hv.runs) (by rw [hlocks]; exact hv.lock) hstate
  cases s with
  | idle => trivial
  | inserting record => exact ⟨(hstate x).trans h.1, h.2⟩
  | inserted rid => exact (hstate x).trans h
  | scanned stmt first => exact ⟨by rw [htm]; exact h.1, h.2⟩
  | locked stmt first =>
      exact ⟨by rw [htm]; exact h.runs, by rw [hlocks]; exact h.lock, h.tuple⟩
  | reread stmt first self record =>
      obtain ⟨hself, v, hv, hrest⟩ := h
      exact ⟨hself, v, hat hv, hrest⟩
  | updating stmt first record =>
      obtain ⟨v, hv, hrest⟩ := h
      exact ⟨v, hat hv, hrest⟩
  | relocked stmt first self record =>
      obtain ⟨hself, v, hv, hrest⟩ := h
      exact ⟨hself, v, hat hv, hrest⟩
  | appending stmt first self last record =>
      obtain ⟨hself, v, hv, hrest⟩ := h
      exact ⟨hself, v, hat hv, hrest⟩
  | linking stmt first self last new record =>
      obtain ⟨hself, v, hv, hcomputed, hlast, hnew, hfree⟩ := h
      exact ⟨hself, v, hat hv, hcomputed, hlast, by rw [hslot]; exact hnew, hfree⟩
  | committed =>
      obtain ⟨tx, htx, hcommitted⟩ := h
      exact ⟨tx, by rw [htm]; exact htx, hcommitted⟩
  | released =>
      obtain ⟨tx, htx, hcommitted⟩ := h
      exact ⟨tx, by rw [htm]; exact htx, hcommitted⟩

/-! ## Steps that store nothing -/

/-- A step of `txId` that changes no slot and makes no report. -/
structure Keeps (txId : TxID) (db db' : Database) : Prop where
  valid : db'.heapFile.Valid
  schema : db'.heapFile.schema = db.heapFile.schema
  slot : db'.slot = db.slot
  count : db.transactions.transactionCount ≤ db'.transactions.transactionCount
  bound : db'.transactions.transactionCount < 2 ^ 64
  entries : ∀ x, x ≠ txId →
    db'.transactions.activeTransactions x = db.transactions.activeTransactions x
  known : db'.transactions.activeTransactions txId ≠ none →
    0 < txId ∧ txId < db'.transactions.transactionCount
  quiet : txId < db.transactions.transactionCount → db'.state txId = .active →
    db.state txId = .active
  locks : ∀ (first : RID) (x : TxID), x ≠ txId → db.lockTable first = some x →
    db'.lockTable first = some x
  ownLocks : ∀ first : RID, db'.state txId = .active → db.lockTable first = some txId →
    db'.lockTable first = some txId
  sessions : ∀ x, x ≠ txId → db'.sessions x = db.sessions x
  notLinking : ∀ (stmt : UpdateStatement) (first self last new : RID) (record : Record),
    db.sessions txId ≠ .linking stmt first self last new record
  reports : db'.reports = db.reports

theorem Keeps.state (hk : Keeps txId db db') (hx : x < db.transactions.transactionCount)
    (h : db'.state x = .active) : db.state x = .active := by
  by_cases hxt : x = txId
  · subst hxt
    exact hk.quiet hx h
  · exact (TransactionManager.getState_congr (hk.entries x hxt)).symm.trans h

theorem Keeps.frame (hk : Keeps txId db db') (h : Invariant t db g) :
    Frame txId db g db' g where
  entries := hk.entries
  quiet first v hv := hk.state (h.writers first v hv)
  locks := hk.locks
  held _ _ _ _ _ := rfl
  tuples _ hne := hne
  pending _ _ _ _ hslot _ hfree := ⟨by rw [hk.slot]; exact hslot, hfree⟩

theorem Invariant.keep (h : Invariant t db g) (hk : Keeps txId db db')
    (hown : SessionOk t db' g txId (db'.sessions txId)) : Invariant t db' g where
  valid := hk.valid
  schema := hk.schema.trans h.schema
  count := ⟨lt_of_lt_of_le h.count.1 hk.count, hk.bound⟩
  known := by
    intro x hx
    by_cases hxt : x = txId
    · subst hxt
      exact hk.known hx
    · rw [hk.entries x hxt] at hx
      obtain ⟨hpos, hlt⟩ := h.known x hx
      exact ⟨hpos, lt_of_lt_of_le hlt hk.count⟩
  chains first hne := by rw [hk.slot]; exact h.chains first hne
  nodup := h.nodup
  cover := by
    intro rid header vs hslot
    rw [hk.slot] at hslot
    rcases h.cover rid header vs hslot with hin | ⟨x, stmt, first, self, last, record, hx⟩
    · exact .inl hin
    · have hxt : x ≠ txId := by
        rintro rfl
        exact hk.notLinking stmt first self last rid record hx
      exact .inr ⟨x, stmt, first, self, last, record, (hk.sessions x hxt).trans hx⟩
  stored := h.stored
  writers first v hv := lt_of_lt_of_le (h.writers first v hv) hk.count
  ordered first := by
    refine List.Pairwise.imp_of_mem ?_ (h.ordered first)
    intro v w hv _ hvw hactive
    exact hvw (hk.state (h.writers first v hv) hactive)
  locked := by
    intro first v hv hactive
    have hlock := h.locked first v hv
      (hk.state (h.writers first v (List.mem_of_mem_tail hv)) hactive)
    by_cases hxt : v.writer = txId
    · rw [hxt] at hactive hlock ⊢
      exact hk.ownLocks first hactive hlock
    · exact hk.locks first v.writer hxt hlock
  sessions := by
    intro x
    by_cases hxt : x = txId
    · subst hxt
      exact hown
    · rw [hk.sessions x hxt]
      exact (h.sessions x).frame (hk.frame h) hxt
  derived := by
    intro first
    rw [Database.reportsOn, hk.reports]
    exact h.derived first

end Frame

end Iic3413Db.Mvcc
