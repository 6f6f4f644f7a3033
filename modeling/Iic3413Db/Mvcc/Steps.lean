/-
  Mvcc/Steps.lean --- every step keeps the invariant of the version chains.

  The steps that store nothing come first, each an instance of
  `Invariant.keep`.  Three steps store: a new tuple, a version that is not linked
  yet, and the header that links it.
-/
import Iic3413Db.Mvcc.Invariant

set_option autoImplicit false

namespace Iic3413Db.Mvcc

open Iic3413Db.Foundation Iic3413Db.RelationalModel Iic3413Db.Storage Iic3413Db.System
  Iic3413Db.Query

section Steps

variable {t : TableSchema} {db : Database} {g : Chains} {txId : TxID}

/-! ## Reading under a lock -/

/-- A longer walk comes to the same end. -/
theorem readLoop_mono {hf : HeapFile} {tm : TransactionManager} {res : Bool × RID} :
    ∀ {fuel fuel' : Nat} {s : HeapFile.ReadState}, fuel ≤ fuel' →
      hf.readLoop tm txId fuel s = .ok (some res) →
      hf.readLoop tm txId fuel' s = .ok (some res) := by
  intro fuel
  induction fuel with
  | zero =>
      intro fuel' s _ h
      cases s with
      | done valid rid => cases fuel' <;> exact h
      | fetch rid => simp [HeapFile.readLoop] at h
      | judge rid header => simp [HeapFile.readLoop] at h
  | succ fuel ih =>
      intro fuel' s hle h
      obtain ⟨fuel', rfl⟩ := Nat.exists_eq_add_of_le' (show 1 ≤ fuel' by omega)
      cases s with
      | done valid rid => exact h
      | fetch rid =>
          simp only [HeapFile.readLoop] at h ⊢
          cases hstep : hf.readStep tm txId (.fetch rid) with
          | error e => simp [hstep] at h
          | ok s' =>
              simp only [hstep, Outcome.ok_bind] at h ⊢
              exact ih (by omega) h
      | judge rid header =>
          simp only [HeapFile.readLoop] at h ⊢
          cases hstep : hf.readStep tm txId (.judge rid header) with
          | error e => simp [hstep] at h
          | ok s' =>
              simp only [hstep, Outcome.ok_bind] at h ⊢
              exact ih (by omega) h

theorem getLastVersion_mono {hf : HeapFile} {res : RID} :
    ∀ {fuel fuel' : Nat} {rid : RID}, fuel ≤ fuel' →
      hf.getLastVersion fuel rid = .ok (some res) → hf.getLastVersion fuel' rid = .ok (some res) := by
  intro fuel
  induction fuel with
  | zero => intro fuel' rid _ h; simp [HeapFile.getLastVersion] at h
  | succ fuel ih =>
      intro fuel' rid hle h
      obtain ⟨fuel', rfl⟩ := Nat.exists_eq_add_of_le' (show 1 ≤ fuel' by omega)
      simp only [HeapFile.getLastVersion] at h ⊢
      cases hopen : hf.openPage rid.pageNum with
      | error e => simp [hopen] at h
      | ok page =>
          simp only [hopen, Outcome.ok_bind] at h ⊢
          cases hheader : HeapFilePage.getRecordHeader page rid.dirSlot with
          | error e => simp [hheader] at h
          | ok header =>
              simp only [hheader, Outcome.ok_bind] at h ⊢
              cases header with
              | none => exact h
              | some header =>
                  simp only at h ⊢
                  split
                  · rwa [if_pos (by assumption)] at h
                  · split
                    · rwa [if_neg (by assumption), if_pos (by assumption)] at h
                    · rw [if_neg (by assumption), if_neg (by assumption)] at h
                      exact ih (by omega) h

/-- A non-empty chain, from its first version. -/
theorem Versions.exists_cons {slots : Slots} {first : RID} {vs : List Version}
    (h : Versions slots first vs) : ∃ v us, vs = v :: us ∧ v.rid = first := by
  cases vs with
  | nil => exact absurd rfl h.ne_nil
  | cons v us =>
      have hhead := h.head
      simp only [List.head?_cons, Option.map_some, Option.some.injEq] at hhead
      exact ⟨v, us, rfl, hhead⟩

/-- What `read` returns for a tuple, on any file with the same slots. -/
theorem Invariant.read_eq (h : Invariant t db g) {hf : HeapFile} (hv : hf.Valid)
    (hslot : hf.slot = db.slot) {first : RID} (hne : g first ≠ [])
    (hruns : db.transactions.Runs txId .readCommitted) :
    ∃ rid, (∀ fuel, 2 * (g first).length ≤ fuel →
        hf.read db.transactions fuel first txId =
          .ok (some ((expected db.state txId (g first)).isSome, rid))) ∧
      ∀ u, expected db.state txId (g first) = some u → rid = u.rid := by
  have hchain := h.chains first hne
  obtain ⟨v, us, hvs, hrid⟩ := hchain.exists_cons
  have hlinked := hchain.linked
  have hwriters := hchain.writers
  have hseen : seen db.state txId (g first) = expected db.state txId (g first) :=
    seen_eq_expected hruns.active (h.ordered first)
  rw [hvs] at hlinked hwriters hseen ⊢
  rw [← hslot] at hlinked
  obtain ⟨rid, hread, hseenrid⟩ :=
    readLoop_chain hv hruns us v _ hlinked hwriters (le_refl _)
  refine ⟨rid, fun fuel hfuel => ?_, fun u hu => hseenrid u (hseen.trans hu)⟩
  rw [← hrid, HeapFile.read, ← hseen]
  exact readLoop_mono hfuel hread

/-- What `get_last_version` returns for a tuple. -/
theorem Invariant.getLastVersion_eq (h : Invariant t db g) {first : RID} {v : Version}
    (hlast : (g first).getLast? = some v) :
    ∀ fuel, (g first).length ≤ fuel → db.heapFile.getLastVersion fuel first = .ok (some v.rid) := by
  have hne : g first ≠ [] := by
    intro hnil
    rw [hnil] at hlast
    cases hlast
  have hchain := h.chains first hne
  obtain ⟨u, us, hvs, hrid⟩ := hchain.exists_cons
  have hlinked := hchain.linked
  have hwriters := hchain.writers
  rw [hvs] at hlinked hwriters hlast ⊢
  intro fuel hfuel
  rw [← hrid, getLastVersion_chain h.valid us u fuel hlinked hwriters hfuel]
  rw [List.getLast?_eq_some_getLast (by simp), Option.some.injEq] at hlast
  rw [hlast]

/-- A chain whose uncommitted versions are all the reader's shows its last
version. -/
theorem expected_last {state : TxID → TransactionState} {us : List Version} {v : Version}
    (hord : Ordered state (us ++ [v])) (htx : state txId = .active)
    (hmine : Mine state txId (us ++ [v])) : expected state txId (us ++ [v]) = some v := by
  unfold expected
  by_cases hw : v.writer = txId
  · have hown : newest (fun u => decide (u.writer = txId)) (us ++ [v]) = some v := by
      simp [newest, List.filter_append, hw]
    rw [hown]
  · have hcommitted : state v.writer = .committed := by
      rcases state_cases (state v.writer) with hs | hs
      · exact absurd (hmine v (by simp) hs) hw
      · exact hs
    have hown : newest (fun u => decide (u.writer = txId)) (us ++ [v]) = none := by
      refine newest_eq_none.mpr fun u hu => decide_eq_false fun hmy => ?_
      -- a version of the reader would be followed by its own versions only
      rcases List.mem_append.mp hu with hu | hu
      · have hafter := (List.pairwise_append.mp hord).2.2 u hu v (by simp)
        exact hw ((hafter (by rw [hmy]; exact htx)).trans hmy)
      · rw [List.mem_singleton.mp hu] at hmy
        exact hw hmy
    have hcom : newest (fun u => decide (state u.writer = .committed)) (us ++ [v]) = some v := by
      simp [newest, List.filter_append, hcommitted]
    rw [hown, hcom]

/-- Under the lock, a tuple that is seen at all has no version of another active
transaction. -/
theorem Invariant.mine_of_isSome (h : Invariant t db g) {first : RID}
    (hold : Holds db g txId first) (hsome : (expected db.state txId (g first)).isSome) :
    Mine db.state txId (g first) := by
  obtain ⟨v, us, hvs, _⟩ := (h.chains first hold.tuple).exists_cons
  have hord := h.ordered first
  rw [hvs] at hord hsome
  have hhead := (expected_isSome hord).mp hsome
  intro u hu hactive
  rw [hvs] at hu
  rcases List.mem_cons.mp hu with rfl | hu
  · rcases hhead with hmine | hcommitted
    · exact hmine
    · rw [hcommitted] at hactive
      cases hactive
  · have hlock := h.locked first u (by rw [hvs]; exact hu) hactive
    rw [hold.lock] at hlock
    exact (Option.some.inj hlock).symm

/-- The first version of a tuple is stored at its first RID. -/
theorem Invariant.slot_first (h : Invariant t db g) {first : RID} (hne : g first ≠ []) :
    ∃ header vs, db.slot first = some (header, vs) ∧ header.first = first := by
  obtain ⟨u, us, hvs, hrid⟩ := (h.chains first hne).exists_cons
  obtain ⟨next, hslot⟩ := (h.chains first hne).linked.slot (v := u) (by rw [hvs]; simp)
  rw [hrid] at hslot
  exact ⟨_, _, hslot, Version.header_first _⟩

/-- A session that re-reads a row under its lock gets the last version. -/
theorem Invariant.atLast_of_read (h : Invariant t db g) {first rid : RID} {fuel : Nat}
    (hold : Holds db g txId first)
    (hread : db.heapFile.read db.transactions fuel first txId = .ok (some (true, rid))) :
    ∃ v, AtLast db g txId first v ∧ rid = v.rid := by
  obtain ⟨rid', hall, hrid⟩ := h.read_eq h.valid rfl hold.tuple hold.runs
  -- both walks reach their end, and it is the same one
  have hlong := hall (max fuel (2 * (g first).length)) (le_max_right ..)
  have hlong' := readLoop_mono (le_max_left fuel (2 * (g first).length)) hread
  rw [HeapFile.read] at hlong
  rw [hlong] at hlong'
  simp only [Except.ok.injEq, Option.some.injEq, Prod.mk.injEq] at hlong'
  obtain ⟨hsome, rfl⟩ := hlong'
  have hmine := h.mine_of_isSome hold hsome
  obtain ⟨us, v, hvs⟩ : ∃ us v, g first = us ++ [v] :=
    ⟨_, _, (List.dropLast_append_getLast hold.tuple).symm⟩
  have hexpected : expected db.state txId (g first) = some v := by
    rw [hvs]
    exact expected_last (hvs ▸ h.ordered first) hold.runs.active (hvs ▸ hmine)
  exact ⟨v, ⟨hold, hmine, by rw [hvs]; simp⟩, hrid v hexpected⟩

/-- The slot of the last version. -/
theorem Invariant.slot_last (h : Invariant t db g) {first : RID} {v : Version}
    (hlast : (g first).getLast? = some v) :
    db.slot v.rid = some (v.header first none, v.values) := by
  have hne : g first ≠ [] := by
    intro hnil
    rw [hnil] at hlast
    cases hlast
  obtain ⟨us, u, hvs⟩ : ∃ us u, g first = us ++ [u] :=
    ⟨_, _, (List.dropLast_append_getLast hne).symm⟩
  have hu : u = v := by
    rw [hvs] at hlast
    simpa using hlast
  rw [← hu]
  have hlinked := (h.chains first hne).linked
  rw [hvs] at hlinked
  exact hlinked.last

/-! ## Steps that store nothing -/

@[simp] theorem setSession_self (db : Database) (txId : TxID) (s : Session) :
    (db.setSession txId s).sessions txId = s := Function.update_self ..

theorem setSession_of_ne (db : Database) {txId x : TxID} (s : Session) (hx : x ≠ txId) :
    (db.setSession txId s).sessions x = db.sessions x := Function.update_of_ne hx ..

/-- A transaction nobody has started, or that is gone, has nothing going on. -/
theorem Invariant.idle_of_none (h : Invariant t db g) {x : TxID}
    (hnone : db.transactions.activeTransactions x = none) : db.sessions x = .idle := by
  have hstate : db.state x ≠ .active := by
    intro hactive
    obtain ⟨tx, htx, _⟩ := TransactionManager.getState_eq_active_iff.mp hactive
    rw [hnone] at htx
    cases htx
  have hruns : ¬ db.transactions.Runs x .readCommitted := fun hr => hstate hr.active
  have hok := h.sessions x
  cases hs : db.sessions x with
  | idle => rfl
  | inserting record => rw [hs] at hok; exact absurd hok.1 hstate
  | inserted rid => rw [hs] at hok; exact absurd hok hstate
  | scanned stmt first => rw [hs] at hok; exact absurd hok.1 hruns
  | locked stmt first => rw [hs] at hok; exact absurd hok.runs hruns
  | reread stmt first self record =>
      rw [hs] at hok
      obtain ⟨_, v, hat, _⟩ := hok
      exact absurd hat.runs hruns
  | updating stmt first record =>
      rw [hs] at hok
      obtain ⟨v, hat, _⟩ := hok
      exact absurd hat.runs hruns
  | relocked stmt first self record =>
      rw [hs] at hok
      obtain ⟨_, v, hat, _⟩ := hok
      exact absurd hat.runs hruns
  | appending stmt first self last record =>
      rw [hs] at hok
      obtain ⟨_, v, hat, _⟩ := hok
      exact absurd hat.runs hruns
  | linking stmt first self last new record =>
      rw [hs] at hok
      obtain ⟨_, v, hat, _⟩ := hok
      exact absurd hat.runs hruns
  | committed =>
      rw [hs] at hok
      obtain ⟨tx, htx, _⟩ := hok
      rw [hnone] at htx
      cases htx
  | released =>
      rw [hs] at hok
      obtain ⟨tx, htx, _⟩ := hok
      rw [hnone] at htx
      cases htx

/-- A session that is somewhere else is not before a link. -/
theorem notLinking {s : Session} (hs : db.sessions txId = s)
    (hne : ∀ (stmt : UpdateStatement) (first self last new : RID) (record : Record),
      s ≠ .linking stmt first self last new record)
    (stmt : UpdateStatement) (first self last new : RID) (record : Record) :
    db.sessions txId ≠ .linking stmt first self last new record := by
  rw [hs]
  exact hne stmt first self last new record

/-- Steps inside a transaction: no state changes, and no lock is given up. -/
theorem Invariant.keeps_of (h : Invariant t db g) {db' : Database} {s : Session}
    (hs : db.sessions txId = s)
    (hne : ∀ (stmt : UpdateStatement) (first self last new : RID) (record : Record),
      s ≠ .linking stmt first self last new record)
    (hvalid : db'.heapFile.Valid) (hschema : db'.heapFile.schema = db.heapFile.schema)
    (hslot : db'.slot = db.slot) (htm : db.transactions.Same txId db'.transactions)
    (hlocks : ∀ (first : RID) (x : TxID), db.lockTable first = some x →
      db'.lockTable first = some x)
    (hsessions : ∀ x, x ≠ txId → db'.sessions x = db.sessions x)
    (hreports : db'.reports = db.reports) : Keeps txId db db' where
  valid := hvalid
  schema := hschema
  slot := hslot
  count := le_of_eq htm.count.symm
  bound := by rw [htm.count]; exact h.count.2
  entries := htm.others
  known hknown := by rw [htm.count]; exact h.known txId (htm.known hknown)
  quiet _ hactive := (htm.state txId).symm.trans hactive
  locks first x _ := hlocks first x
  ownLocks first _ := hlocks first txId
  sessions := hsessions
  notLinking := notLinking hs hne
  reports := hreports

/-- A step that only moves the session on. -/
theorem Invariant.setSession (h : Invariant t db g) {s s' : Session} (hs : db.sessions txId = s)
    (hne : ∀ (stmt : UpdateStatement) (first self last new : RID) (record : Record),
      s ≠ .linking stmt first self last new record)
    (hown : SessionOk t db g txId s') : Invariant t (db.setSession txId s') g := by
  refine h.keep (h.keeps_of hs hne h.valid rfl rfl (.refl ..) (fun _ _ => id)
    (fun x => setSession_of_ne db s') rfl) ?_
  rw [setSession_self]
  refine SessionOk.congr ?_ ?_ ?_ hown <;> rfl

/-- A step of a transaction that only touches the file, and no slot. -/
theorem Invariant.setHeapFile (h : Invariant t db g) {s : Session} {hf : HeapFile}
    (hs : db.sessions txId = s)
    (hne : ∀ (stmt : UpdateStatement) (first self last new : RID) (record : Record),
      s ≠ .linking stmt first self last new record)
    (hvalid : hf.Valid) (hschema : hf.schema = db.heapFile.schema) (hslot : hf.slot = db.slot) :
    Invariant t { db with heapFile := hf } g := by
  have hslot' : ({ db with heapFile := hf } : Database).slot = db.slot := hslot
  refine h.keep (h.keeps_of hs hne hvalid hschema hslot' (.refl ..) (fun _ _ => id)
    (fun _ _ => rfl) rfl) ?_
  refine SessionOk.congr hslot' ?_ ?_ (h.sessions txId) <;> rfl

/-- A transaction starts. -/
theorem Invariant.start (h : Invariant t db g) (level : IsolationLevel)
    (hroom : db.transactions.transactionCount + 1 < 2 ^ 64) :
    Invariant t { db with transactions := (db.transactions.startTransaction level).2 } g := by
  have hnone : db.transactions.activeTransactions db.transactions.transactionCount = none := by
    by_contra hsome
    exact absurd (h.known _ hsome).2 (lt_irrefl _)
  have hidle := h.idle_of_none hnone
  refine h.keep (?_ : Keeps db.transactions.transactionCount db _) (by rw [hidle]; trivial)
  exact {
    valid := h.valid
    schema := rfl
    slot := rfl
    count := Nat.le_succ _
    bound := hroom
    entries := fun x hx => Function.update_of_ne hx ..
    known := fun _ => ⟨h.count.1, Nat.lt_succ_self _⟩
    quiet := fun hlt => absurd hlt (lt_irrefl _)
    locks := fun _ _ _ => id
    ownLocks := fun _ _ => id
    sessions := fun _ _ => rfl
    notLinking := notLinking hidle (by simp)
    reports := rfl }

/-- A transaction's state becomes COMMITTED. -/
theorem Invariant.setCommitted (h : Invariant t db g) {tm : TransactionManager}
    (hs : db.sessions txId = .idle) (hset : db.transactions.setCommitted txId = .ok tm) :
    Invariant t ({ db with transactions := tm }.setSession txId .committed) g := by
  obtain ⟨hactive, hcount, hstate, hentry, hothers⟩ := TransactionManager.setCommitted_ok hset
  have hnot : tm.getState txId ≠ .active := by
    rw [hstate txId, if_pos rfl]
    simp
  refine h.keep ?_ (by rw [setSession_self]; exact hentry)
  exact {
    valid := h.valid
    schema := rfl
    slot := rfl
    count := le_of_eq hcount.symm
    bound := lt_of_eq_of_lt hcount h.count.2
    entries := hothers
    known := fun _ => by
      obtain ⟨tx, htx, _⟩ := TransactionManager.getState_eq_active_iff.mp hactive
      have hknown := h.known txId (by rw [htx]; simp)
      exact ⟨hknown.1, lt_of_lt_of_eq hknown.2 hcount.symm⟩
    quiet := fun _ hact => absurd hact hnot
    locks := fun _ _ _ => id
    ownLocks := fun _ _ => id
    sessions := fun x => setSession_of_ne _ _
    notLinking := notLinking hs (by simp)
    reports := rfl }

/-- The transaction whose commit is past the state change is not active. -/
theorem state_of_committed {tx : Transaction}
    (htx : db.transactions.activeTransactions txId = some tx) (hcommitted : tx.state = .committed) :
    db.state txId = .committed := by
  simp only [Database.state, TransactionManager.getState, htx, hcommitted]

/-- A committed transaction releases its locks. -/
theorem Invariant.release (h : Invariant t db g) (tx : Transaction)
    (hs : db.sessions txId = .committed) :
    Invariant t ({ db with
      lockTable := LockManager.releaseAllLocks db.lockTable txId tx }.setSession txId .released)
      g := by
  have hok := h.sessions txId
  rw [hs] at hok
  obtain ⟨tx', htx', hcommitted⟩ := hok
  have hstate := state_of_committed htx' hcommitted
  refine h.keep ?_ (by rw [setSession_self]; exact ⟨tx', htx', hcommitted⟩)
  exact {
    valid := h.valid
    schema := rfl
    slot := rfl
    count := le_refl _
    bound := h.count.2
    entries := fun _ _ => rfl
    known := h.known txId
    quiet := fun _ => id
    locks := fun first x hx hlock => LockManager.releaseAllLocks_of_ne hlock hx
    ownLocks := fun first hactive => by
      rw [show db.state txId = .active from hactive] at hstate
      cases hstate
    sessions := fun x => setSession_of_ne _ _
    notLinking := notLinking hs (by simp)
    reports := rfl }

/-- A committed transaction is erased. -/
theorem Invariant.erase (h : Invariant t db g) (hs : db.sessions txId = .released) :
    Invariant t ({ db with transactions := db.transactions.erase txId }.setSession txId .idle)
      g := by
  have hok := h.sessions txId
  rw [hs] at hok
  obtain ⟨tx, htx, hcommitted⟩ := hok
  have hstate := state_of_committed htx hcommitted
  have hsame := TransactionManager.getState_erase hstate
  have hnone : (db.transactions.erase txId).activeTransactions txId = none :=
    Function.update_self ..
  refine h.keep ?_ (by rw [setSession_self]; trivial)
  exact {
    valid := h.valid
    schema := rfl
    slot := rfl
    count := le_refl _
    bound := h.count.2
    entries := fun x hx => Function.update_of_ne hx ..
    known := fun hknown => absurd hnone hknown
    quiet := fun _ hactive => (hsame txId).symm.trans hactive
    locks := fun _ _ _ => id
    ownLocks := fun _ _ => id
    sessions := fun x => setSession_of_ne _ _
    notLinking := notLinking hs (by simp)
    reports := rfl }

/-- A session that has acquired a lock it did not need to wait for. -/
theorem lock_grows {locks : LockTable} {tm : TransactionManager} {first : RID}
    (hacq : LockManager.tryAcquireLock db.lockTable db.transactions txId first =
      .ok (some (locks, tm))) :
    db.transactions.Same txId tm ∧ locks first = some txId ∧
      ∀ (f : RID) (x : TxID), db.lockTable f = some x → locks f = some x := by
  obtain ⟨hsame, hfree, rfl⟩ := LockManager.tryAcquireLock_some hacq
  refine ⟨hsame, Function.update_self .., fun f x hlock => ?_⟩
  by_cases hf : f = first
  · subst hf
    rcases hfree with hnone | hmine
    · rw [hnone] at hlock
      cases hlock
    · rw [Function.update_self, ← hmine, hlock]
  · rw [Function.update_of_ne hf, hlock]

/-- `UpdateIter` acquires the lock of its row. -/
theorem Invariant.acquire (h : Invariant t db g) {stmt : UpdateStatement} {first : RID}
    {locks : LockTable} {tm : TransactionManager} (hs : db.sessions txId = .scanned stmt first)
    (hacq : LockManager.tryAcquireLock db.lockTable db.transactions txId first =
      .ok (some (locks, tm))) :
    Invariant t
      ({ db with lockTable := locks, transactions := tm }.setSession txId (.locked stmt first))
      g := by
  have hok := h.sessions txId
  rw [hs] at hok
  obtain ⟨hsame, hlock, hgrow⟩ := lock_grows hacq
  refine h.keep (h.keeps_of hs (by simp) h.valid rfl rfl hsame hgrow
    (fun x => setSession_of_ne _ _) rfl) ?_
  rw [setSession_self]
  exact ⟨hsame.runs _ _ hok.1, hlock, hok.2⟩

/-- `HeapFile::update` acquires the lock again. -/
theorem Invariant.relock (h : Invariant t db g) {stmt : UpdateStatement} {first : RID}
    {record : Record} {header : RecordHeader} {locks : LockTable} {tm : TransactionManager}
    (hs : db.sessions txId = .updating stmt first record)
    (hheader : db.heapFile.getRecordHeader first = .ok (some header))
    (hacq : LockManager.tryAcquireLock db.lockTable db.transactions txId header.first =
      .ok (some (locks, tm))) :
    Invariant t
      ({ db with lockTable := locks, transactions := tm }.setSession txId
        (.relocked stmt first header.first record)) g := by
  have hok := h.sessions txId
  rw [hs] at hok
  obtain ⟨v, hat, hcomputed⟩ := hok
  -- the header of a tuple's first version names that version
  obtain ⟨header', vs, hslot, hfirst⟩ := h.slot_first hat.tuple
  rw [h.valid.getRecordHeader_eq hslot] at hheader
  obtain ⟨rfl⟩ := hheader
  rw [hfirst] at hacq ⊢
  obtain ⟨hsame, hlock, hgrow⟩ := lock_grows hacq
  refine h.keep (h.keeps_of hs (by simp) h.valid rfl rfl hsame hgrow
    (fun x => setSession_of_ne _ _) rfl) ?_
  rw [setSession_self]
  exact ⟨rfl, v, hat.grow (hsame.runs _ _ hat.runs) hlock hsame.state, hcomputed⟩

/-- `insert_record` adds the new tuple to the write set. -/
theorem Invariant.addToWriteSet (h : Invariant t db g) {rid : RID} {tm : TransactionManager}
    (hs : db.sessions txId = .inserted rid)
    (hadd : db.transactions.addToWriteSet rid txId = .ok tm) :
    Invariant t ({ db with transactions := tm }.setSession txId .idle) g := by
  refine h.keep (h.keeps_of hs (by simp) h.valid rfl rfl
    (TransactionManager.addToWriteSet_ok hadd) (fun _ _ => id)
    (fun x => setSession_of_ne _ _) rfl) ?_
  rw [setSession_self]
  trivial

/-- A re-read under the lock finds the last version. -/
theorem Invariant.reread (h : Invariant t db g) {stmt : UpdateStatement} {first rid : RID}
    {header : RecordHeader} {record : Record} {fuel : Nat}
    (hs : db.sessions txId = .locked stmt first)
    (hheader : db.heapFile.getRecordHeader first = .ok (some header))
    (hread : db.heapFile.read db.transactions fuel first txId = .ok (some (true, rid)))
    (hrecord : db.heapFile.getRecord rid = .ok record) :
    Invariant t (db.setSession txId (.reread stmt first header.first record)) g := by
  have hok := h.sessions txId
  rw [hs] at hok
  obtain ⟨v, hat, rfl⟩ := h.atLast_of_read hok hread
  refine h.setSession hs (by simp) ⟨?_, v, hat, ?_⟩
  · obtain ⟨header', vs, hslot, hfirst⟩ := h.slot_first hat.tuple
    rw [h.valid.getRecordHeader_eq hslot] at hheader
    obtain ⟨rfl⟩ := hheader
    exact hfirst
  · rw [h.valid.getRecord_eq (h.slot_last hat.last)] at hrecord
    exact (Except.ok.inj hrecord).symm

/-- `get_last_version` finds the last version. -/
theorem Invariant.findLast (h : Invariant t db g) {stmt : UpdateStatement}
    {first self last : RID} {record : Record} {fuel : Nat}
    (hs : db.sessions txId = .relocked stmt first self record)
    (hlast : db.heapFile.getLastVersion fuel self = .ok (some last)) :
    ∃ v, self = first ∧ AtLast db g txId first v ∧ Computed t stmt first v record ∧
      last = v.rid := by
  have hok := h.sessions txId
  rw [hs] at hok
  obtain ⟨rfl, v, hat, hcomputed⟩ := hok
  have hlong := h.getLastVersion_eq hat.last _ (le_max_right fuel (g self).length)
  rw [getLastVersion_mono (le_max_left ..) hlast] at hlong
  simp only [Except.ok.injEq, Option.some.injEq] at hlong
  exact ⟨v, rfl, hat, hcomputed, hlong⟩

/-! ## Steps that store -/

/-- No chain has a version where nothing is stored. -/
theorem Invariant.rid_ne (h : Invariant t db g) {rid : RID} (hnone : db.slot rid = none) :
    ∀ f, ∀ u ∈ g f, u.rid ≠ rid := by
  intro f u hu heq
  have hne : g f ≠ [] := List.ne_nil_of_mem hu
  obtain ⟨next, hslot⟩ := (h.chains f hne).linked.slot hu
  rw [heq, hnone] at hslot
  cases hslot

/-- Nor is there a chain from there. -/
theorem Invariant.chain_nil (h : Invariant t db g) {rid : RID} (hnone : db.slot rid = none) :
    g rid = [] := by
  by_contra hne
  obtain ⟨v, us, hvs, hrid⟩ := (h.chains rid hne).exists_cons
  exact h.rid_ne hnone rid v (by rw [hvs]; simp) hrid

/-- The records that reach `insert_record` can be stored. -/
theorem Invariant.insertFits (h : Invariant t db g) {vs : List Value} {record : Record}
    {firstRid : Option RID} (hactive : db.state txId = .active)
    (hvs : Matches t.schema.columns vs) (hstored : record.stored = vs)
    (hfits : ∀ v ∈ record.values, v.Fits) (hfirst : ∀ rid, firstRid = some rid → rid.Fits) :
    InsertFits db.heapFile.schema record txId firstRid := by
  obtain ⟨tx, htx, _⟩ := TransactionManager.getState_eq_active_iff.mp hactive
  have hknown := h.known txId (by rw [htx]; simp)
  exact ⟨hfits, by rw [h.schema, hstored]; exact hvs, lt_trans hknown.2 h.count.2, hfirst⟩

/-- A transaction that is active has an id. -/
theorem Invariant.known_of_active (h : Invariant t db g) (hactive : db.state txId = .active) :
    0 < txId ∧ txId < db.transactions.transactionCount := by
  obtain ⟨tx, htx, _⟩ := TransactionManager.getState_eq_active_iff.mp hactive
  exact h.known txId (by rw [htx]; simp)

/-- When one chain changes, a fact about all chains is one about the new chain
and one about the others. -/
theorem forall_update {rid : RID} {vs : List Version} (P : RID → List Version → Prop)
    (hnew : P rid vs) (hrest : ∀ f, f ≠ rid → P f (g f)) (f : RID) :
    P f (Function.update g rid vs f) := by
  by_cases hf : f = rid
  · subst hf
    rwa [Function.update_self]
  · rw [Function.update_of_ne hf]
    exact hrest f hf

/-- A new tuple. -/
theorem Invariant.insert (h : Invariant t db g) {record : Record} {rid : RID} {hf : HeapFile}
    (hs : db.sessions txId = .inserting record) (hvalid : hf.Valid)
    (hschema : hf.schema = db.heapFile.schema) (hnone : db.slot rid = none)
    (hslot : hf.slot = Function.update db.slot rid
      (some (⟨txId, 0, rid, rid⟩, record.values))) :
    Invariant t ({ db with heapFile := hf }.setSession txId (.inserted rid))
      (Function.update g rid [⟨rid, txId, record.values⟩]) := by
  have hok := h.sessions txId
  rw [hs] at hok
  obtain ⟨hactive, hmatches⟩ := hok
  have hknown := h.known_of_active hactive
  have hfree := h.rid_ne hnone
  have hg := h.chain_nil hnone
  have hold : ∀ (new : RID) (e : RecordHeader × List Value), db.slot new = some e →
      hf.slot new = some e := by
    intro new e hnew
    have hne : new ≠ rid := by
      rintro rfl
      rw [hnone] at hnew
      cases hnew
    rw [hslot, Function.update_of_ne hne, hnew]
  have hcongr : ∀ f, ∀ u ∈ g f, hf.slot u.rid = db.slot u.rid := by
    intro f u hu
    rw [hslot, Function.update_of_ne (hfree f u hu)]
  have hframe : Frame txId db g (({ db with heapFile := hf } : Database).setSession txId
      (.inserted rid)) (Function.update g rid [⟨rid, txId, record.values⟩]) := by
    have hne : ∀ first, g first ≠ [] → first ≠ rid := by
      rintro first hfirst rfl
      exact hfirst hg
    exact {
      entries := fun _ _ => rfl
      quiet := fun _ _ _ => id
      locks := fun _ _ _ => id
      held := fun first x _ hfirst _ => Function.update_of_ne (hne first hfirst) ..
      tuples := fun first hfirst => by rwa [Function.update_of_ne (hne first hfirst)]
      pending := fun x new e _ hnew _ hout => by
        refine ⟨hold new e hnew, fun f u hu => ?_⟩
        by_cases hf : f = rid
        · subst hf
          rw [Function.update_self] at hu
          rw [List.mem_singleton.mp hu]
          rintro rfl
          rw [hnone] at hnew
          cases hnew
        · rw [Function.update_of_ne hf] at hu
          exact hout f u hu }
  exact {
    valid := hvalid
    schema := hschema.trans h.schema
    count := h.count
    known := h.known
    chains := by
      refine forall_update (fun f vs => vs ≠ [] → Versions hf.slot f vs)
        (fun _ => ⟨rfl, ?_, ?_, trivial⟩) fun f _ hne => (h.chains f hne).congr (hcongr f)
      · intro v hv
        rw [List.mem_singleton.mp hv]
        exact Nat.pos_iff_ne_zero.mp hknown.1
      · show hf.slot rid = _
        rw [hslot, Function.update_self]
        rfl
    nodup := forall_update (fun _ vs => (vs.map Version.rid).Nodup) (List.nodup_singleton _)
      fun f _ => h.nodup f
    cover := by
      intro r header vs hr
      change hf.slot r = _ at hr
      by_cases hrid : r = rid
      · subst hrid
        rw [hslot, Function.update_self] at hr
        obtain ⟨rfl, rfl⟩ := Prod.mk.inj (Option.some.inj hr)
        exact .inl ⟨_, by rw [Function.update_self]; exact List.mem_singleton_self _, rfl⟩
      · rw [hslot, Function.update_of_ne hrid] at hr
        rcases h.cover r header vs hr with ⟨v, hv, hvr⟩ | ⟨x, stmt, f, self, last, rec, hx⟩
        · have hne : header.first ≠ rid := by
            rintro hfirst
            rw [hfirst, hg] at hv
            cases hv
          exact .inl ⟨v, by rwa [Function.update_of_ne hne], hvr⟩
        · have hxt : x ≠ txId := by
            rintro rfl
            rw [hs] at hx
            cases hx
          exact .inr ⟨x, stmt, f, self, last, rec, (setSession_of_ne _ _ hxt).trans hx⟩
    stored := by
      refine forall_update (fun _ vs => ∀ v ∈ vs, Matches t.schema.columns v.values)
        (fun v hv => ?_) fun f _ => h.stored f
      rw [List.mem_singleton.mp hv]
      exact hmatches
    writers := by
      refine forall_update (fun _ vs => ∀ v ∈ vs, v.writer < db.transactions.transactionCount)
        (fun v hv => ?_) fun f _ => h.writers f
      rw [List.mem_singleton.mp hv]
      exact hknown.2
    ordered := forall_update (fun _ vs => Ordered db.state vs) (List.pairwise_singleton ..)
      fun f _ => h.ordered f
    locked := forall_update
      (fun f vs => ∀ v ∈ vs.tail, db.state v.writer = .active → db.lockTable f = some v.writer)
      (fun v hv => absurd hv List.not_mem_nil) fun f _ => h.locked f
    sessions := by
      intro x
      by_cases hxt : x = txId
      · subst hxt
        rw [setSession_self]
        exact hactive
      · rw [setSession_of_ne _ _ hxt]
        exact (h.sessions x).frame hframe hxt
    derived := by
      refine forall_update (fun f vs => Derived t f (db.reportsOn f) vs) ?_ fun f _ => h.derived f
      have hempty := h.derived rid
      rw [hg] at hempty
      exact hempty }

/-- What an UPDATE stores are values of the table, with the RID behind them. -/
theorem Invariant.computed (h : Invariant t db g) {stmt : UpdateStatement} {first : RID}
    {v : Version} {record : Record} (hat : AtLast db g txId first v)
    (hcomputed : Computed t stmt first v record) :
    record = (⟨record.stored⟩ : Record).pushRid first ∧
      Matches t.schema.columns record.stored := by
  have hv : v ∈ g first := List.mem_of_getLast? hat.last
  obtain ⟨ws, rfl, hws⟩ := UpdateStatement.updatedRecord_ok (h.stored first v hv) hcomputed.2
  rw [TableSchema.stored_pushRid hws]
  exact ⟨rfl, hws⟩

/-- A new version is stored, and not linked yet. -/
theorem Invariant.append (h : Invariant t db g) {stmt : UpdateStatement}
    {first self last new : RID} {record : Record} {hf : HeapFile}
    (hs : db.sessions txId = .appending stmt first self last record) (hvalid : hf.Valid)
    (hschema : hf.schema = db.heapFile.schema) (hnone : db.slot new = none)
    (hslot : hf.slot = Function.update db.slot new
      (some (⟨txId, 0, new, self⟩, record.stored))) :
    Invariant t
      ({ db with heapFile := hf }.setSession txId (.linking stmt first self last new record))
      g := by
  have hok := h.sessions txId
  rw [hs] at hok
  obtain ⟨rfl, v, hat, hcomputed, hlast⟩ := hok
  have hfree := h.rid_ne hnone
  have hold : ∀ (rid : RID) (e : RecordHeader × List Value), db.slot rid = some e →
      hf.slot rid = some e := by
    intro rid e hrid
    have hne : rid ≠ new := by
      rintro rfl
      rw [hnone] at hrid
      cases hrid
    rw [hslot, Function.update_of_ne hne, hrid]
  have hframe : Frame txId db g (({ db with heapFile := hf } : Database).setSession txId
      (.linking stmt self self last new record)) g := {
    entries := fun _ _ => rfl
    quiet := fun _ _ _ => id
    locks := fun _ _ _ => id
    held := fun _ _ _ _ _ => rfl
    tuples := fun _ => id
    pending := fun _ rid e _ hrid _ hout => ⟨hold rid e hrid, hout⟩ }
  exact {
    valid := hvalid
    schema := hschema.trans h.schema
    count := h.count
    known := h.known
    chains := fun f hne => (h.chains f hne).congr fun u hu => by
      change hf.slot u.rid = _
      rw [hslot, Function.update_of_ne (hfree f u hu)]
    nodup := h.nodup
    cover := by
      intro rid header vs hrid
      change hf.slot rid = _ at hrid
      by_cases hnew : rid = new
      · subst hnew
        exact .inr ⟨txId, stmt, self, self, last, record, setSession_self ..⟩
      · rw [hslot, Function.update_of_ne hnew] at hrid
        rcases h.cover rid header vs hrid with hin | ⟨x, stmt', f, self', last', rec, hx⟩
        · exact .inl hin
        · have hxt : x ≠ txId := by
            rintro rfl
            rw [hs] at hx
            cases hx
          exact .inr ⟨x, stmt', f, self', last', rec, (setSession_of_ne _ _ hxt).trans hx⟩
    stored := h.stored
    writers := h.writers
    ordered := h.ordered
    locked := h.locked
    sessions := by
      intro x
      by_cases hxt : x = txId
      · subst hxt
        rw [setSession_self]
        refine ⟨rfl, v, ⟨⟨hat.runs, hat.lock, hat.tuple⟩, hat.mine, hat.last⟩, hcomputed, hlast,
          ?_, hfree⟩
        change hf.slot new = _
        rw [hslot, Function.update_self]
      · rw [setSession_of_ne _ _ hxt]
        exact (h.sessions x).frame hframe hxt
    derived := h.derived }

/-- A new version is linked behind the last one, and the row is reported. -/
theorem Invariant.link (h : Invariant t db g) {stmt : UpdateStatement}
    {first self last new : RID} {record : Record} {hf : HeapFile}
    (hs : db.sessions txId = .linking stmt first self last new record)
    (hupdate : db.heapFile.updateRecordHeader last new txId = .ok hf) :
    Invariant t ({ db with heapFile := hf }.report txId first stmt)
      (Function.update g first (g first ++ [⟨new, txId, record.stored⟩])) := by
  have hok := h.sessions txId
  rw [hs] at hok
  obtain ⟨rfl, v, hat, hcomputed, rfl, hnew, hfree⟩ := hok
  have hknown := h.known_of_active hat.runs.active
  obtain ⟨us, hvs⟩ : ∃ us, g self = us ++ [v] := by
    obtain ⟨us, u, hu⟩ : ∃ us u, g self = us ++ [u] :=
      ⟨_, _, (List.dropLast_append_getLast hat.tuple).symm⟩
    have hlast := hat.last
    rw [hu] at hlast
    exact ⟨us, by rw [hu]; simpa using hlast⟩
  have hv : v ∈ g self := List.mem_of_getLast? hat.last
  obtain ⟨hrecord, hmatches⟩ := h.computed hat hcomputed
  -- the header of the old last version is the only slot that changes
  obtain ⟨hf', hok', hvalid, hschema, hslot⟩ := h.valid.updateRecordHeader_eq
    (h.slot_last hat.last) (lt_trans hknown.2 h.count.2) (h.valid.rid_fits hnew)
  rw [hupdate] at hok'
  obtain ⟨rfl⟩ := hok'
  obtain ⟨w, hw⟩ : ∃ w : Version, ⟨new, txId, record.stored⟩ = w := ⟨_, rfl⟩
  have hslot_last : hf.slot v.rid = some (v.header self (some w), v.values) := by
    rw [hslot, Function.update_self, ← hw]
    rfl
  have hother : ∀ rid, rid ≠ v.rid → hf.slot rid = db.slot rid := by
    intro rid hne
    rw [hslot, Function.update_of_ne hne]
    rfl
  have hne_new : new ≠ v.rid := fun heq => hfree self v hv heq.symm
  have hslot_new : hf.slot w.rid = some (w.header self none, w.values) := by
    rw [← hw]
    exact (hother new hne_new).trans hnew
  have hnodup := h.nodup self
  rw [hvs, List.map_append, List.nodup_append] at hnodup
  have hbefore : ∀ u ∈ us, u.rid ≠ v.rid := by
    intro u hu
    exact hnodup.2.2 u.rid (List.mem_map_of_mem hu) v.rid (by simp)
  -- versions of other tuples are elsewhere
  have hothers : ∀ f, f ≠ self → ∀ u ∈ g f, u.rid ≠ v.rid := by
    intro f hf u hu heq
    obtain ⟨next, hu_slot⟩ := (h.chains f (List.ne_nil_of_mem hu)).linked.slot hu
    obtain ⟨next', hv_slot⟩ := (h.chains self hat.tuple).linked.slot hv
    rw [heq, hv_slot] at hu_slot
    have hheader := congrArg RecordHeader.first (Prod.mk.inj (Option.some.inj hu_slot)).1
    simp only [Version.header_first] at hheader
    exact hf hheader.symm
  have hchain : Versions hf.slot self (g self ++ [w]) := by
    have hversions := h.chains self hat.tuple
    refine ⟨?_, ?_, ?_⟩
    · have hhead := hversions.head
      rw [List.head?_append_of_ne_nil _ hat.tuple]
      exact hhead
    · intro u hu
      rcases List.mem_append.mp hu with hu | hu
      · exact hversions.writers u hu
      · rw [List.mem_singleton.mp hu, ← hw]
        exact Nat.pos_iff_ne_zero.mp hknown.1
    · have hlinked := hversions.linked
      rw [hvs] at hlinked ⊢
      exact hlinked.snoc (fun u hu => hother u.rid (hbefore u hu)) hslot_last hslot_new
  have hframe : Frame txId db g (({ db with heapFile := hf } : Database).report txId self stmt)
      (Function.update g self (g self ++ [w])) := by
    exact {
      entries := fun _ _ => rfl
      quiet := fun _ _ _ => id
      locks := fun _ _ _ => id
      held := fun f x hx _ hlock => by
        have hne : f ≠ self := by
          rintro rfl
          rw [hat.lock] at hlock
          exact hx (Option.some.inj hlock).symm
        exact Function.update_of_ne hne ..
      tuples := fun f => forall_update (fun f vs => g f ≠ [] → vs ≠ []) (by simp)
        (fun _ _ => id) f
      pending := fun x rid e hx hrid htMin hout => by
        refine ⟨(hother rid fun heq => hout self v hv heq.symm).trans hrid, ?_⟩
        refine forall_update (fun f vs => ∀ u ∈ vs, u.rid ≠ rid) ?_ fun f _ => hout f
        intro u hu
        rcases List.mem_append.mp hu with hu | hu
        · exact hout self u hu
        · -- another session's new version has another writer
          rw [List.mem_singleton.mp hu, ← hw]
          rintro rfl
          rw [hnew] at hrid
          obtain rfl := Option.some.inj hrid
          exact hx htMin.symm }
  rw [hw]
  exact {
    valid := hvalid
    schema := hschema.trans h.schema
    count := h.count
    known := h.known
    chains := forall_update (fun f vs => vs ≠ [] → Versions hf.slot f vs) (fun _ => hchain)
      fun f hne hvs => (h.chains f hvs).congr fun u hu => hother u.rid (hothers f hne u hu)
    nodup := by
      refine forall_update (fun _ vs => (vs.map Version.rid).Nodup) ?_ fun f _ => h.nodup f
      rw [List.map_append, List.nodup_append]
      refine ⟨h.nodup self, List.nodup_singleton _, ?_⟩
      intro a ha b hb
      obtain ⟨u, hu, rfl⟩ := List.mem_map.mp ha
      rw [List.map_singleton, List.mem_singleton] at hb
      rw [hb, ← hw]
      exact hfree self u hu
    cover := by
      intro rid header vs hrid
      change hf.slot rid = _ at hrid
      -- the slot is the old last version, the new version, or as it was
      by_cases hlast : rid = v.rid
      · subst hlast
        rw [hslot_last] at hrid
        obtain ⟨rfl, rfl⟩ := Prod.mk.inj (Option.some.inj hrid)
        rw [Version.header_first, Function.update_self]
        exact .inl ⟨v, List.mem_append_left _ hv, rfl⟩
      · rw [hother rid hlast] at hrid
        rcases h.cover rid header vs hrid with ⟨u, hu, hur⟩ | ⟨x, stmt', f, self', last', rec, hx⟩
        · left
          refine ⟨u, ?_, hur⟩
          by_cases hfirst : header.first = self
          · rw [hfirst] at hu ⊢
            rw [Function.update_self]
            exact List.mem_append_left _ hu
          · rwa [Function.update_of_ne hfirst]
        · by_cases hxt : x = txId
          · subst hxt
            rw [hs] at hx
            cases hx
            rw [hnew] at hrid
            obtain ⟨rfl, rfl⟩ := Prod.mk.inj (Option.some.inj hrid)
            left
            rw [Function.update_self]
            exact ⟨w, by simp, by rw [← hw]⟩
          · exact .inr ⟨x, stmt', f, self', last', rec, (setSession_of_ne _ _ hxt).trans hx⟩
    stored := by
      refine forall_update (fun _ vs => ∀ v ∈ vs, Matches t.schema.columns v.values) ?_
        fun f _ => h.stored f
      intro u hu
      rcases List.mem_append.mp hu with hu | hu
      · exact h.stored self u hu
      · rw [List.mem_singleton.mp hu, ← hw]
        exact hmatches
    writers := by
      refine forall_update (fun _ vs => ∀ v ∈ vs, v.writer < db.transactions.transactionCount) ?_
        fun f _ => h.writers f
      intro u hu
      rcases List.mem_append.mp hu with hu | hu
      · exact h.writers self u hu
      · rw [List.mem_singleton.mp hu, ← hw]
        exact hknown.2
    ordered := by
      refine forall_update (fun _ vs => Ordered db.state vs) ?_ fun f _ => h.ordered f
      refine List.pairwise_append.mpr ⟨h.ordered self, List.pairwise_singleton .., ?_⟩
      intro u hu x hx hactive
      rw [List.mem_singleton.mp hx, ← hw]
      exact (hat.mine u hu hactive).symm
    locked := by
      refine forall_update
        (fun f vs => ∀ v ∈ vs.tail, db.state v.writer = .active → db.lockTable f = some v.writer)
        ?_ fun f _ => h.locked f
      intro u hu hactive
      rw [List.tail_append_of_ne_nil hat.tuple] at hu
      rcases List.mem_append.mp hu with hu | hu
      · exact h.locked self u hu hactive
      · rw [List.mem_singleton.mp hu, ← hw]
        exact hat.lock
    sessions := by
      intro x
      by_cases hxt : x = txId
      · subst hxt
        rw [Database.report, setSession_self]
        trivial
      · rw [Database.report, setSession_of_ne _ _ hxt]
        exact (h.sessions x).frame hframe hxt
    derived := by
      intro f
      by_cases hfs : f = self
      · subst hfs
        rw [Function.update_self, hvs]
        have hreports : (({ db with heapFile := hf } : Database).report txId f stmt).reportsOn f =
            db.reportsOn f ++ [⟨txId, f, stmt⟩] := by
          simp [Database.reportsOn, Database.report, Database.setSession, List.filter_append]
        rw [hreports]
        have hderived := h.derived f
        rw [hvs] at hderived
        refine hderived.snoc ⟨by rw [← hw], hcomputed.1, ?_⟩
        rw [hcomputed.2, ← hw]
        exact congrArg Except.ok hrecord
      · rw [Function.update_of_ne hfs]
        have hreports : (({ db with heapFile := hf } : Database).report txId self stmt).reportsOn f =
            db.reportsOn f := by
          simp [Database.reportsOn, Database.report, Database.setSession, List.filter_append,
            Ne.symm hfs]
        rw [hreports]
        exact h.derived f }

/-! ## Every step, every run -/

/-- The empty table. -/
theorem invariant_create (t : TableSchema) (fileId : FileId) :
    Invariant t (Database.create t fileId) fun _ => [] := by
  obtain ⟨hvalid, hempty⟩ := HeapFile.create_valid t.schema fileId
  exact {
    valid := hvalid
    schema := rfl
    count := ⟨Nat.one_pos, by norm_num [Database.create, TransactionManager.initial]⟩
    known := fun _ hx => absurd rfl hx
    chains := fun _ hne => absurd rfl hne
    nodup := fun _ => List.nodup_nil
    cover := fun rid header vs hslot => by
      rw [show (Database.create t fileId).slot rid = none from hempty rid] at hslot
      cases hslot
    stored := fun _ _ hv => absurd hv List.not_mem_nil
    writers := fun _ _ hv => absurd hv List.not_mem_nil
    ordered := fun _ => List.Pairwise.nil
    locked := fun _ _ hv => absurd hv List.not_mem_nil
    sessions := fun _ => trivial
    derived := fun _ => .nil }

/-- A row an UPDATE goes on with is a tuple. -/
theorem Invariant.tuple_of_first (h : Invariant t db g) {first : RID} {header : RecordHeader}
    {vs : List Value} (hslot : db.slot first = some (header, vs)) (hfirst : header.first = first) :
    g first ≠ [] := by
  rcases h.cover first header vs hslot with ⟨v, hv, _⟩ | ⟨x, stmt, f, self, last, record, hx⟩
  · rw [hfirst] at hv
    exact List.ne_nil_of_mem hv
  · -- a version that is not linked yet is not a first version
    have hok := h.sessions x
    rw [hx] at hok
    obtain ⟨_, v, hat, _, _, hnew, hfree⟩ := hok
    rw [hslot] at hnew
    have hf : f = first := by
      rw [← hfirst, (Prod.mk.inj (Option.some.inj hnew)).1]
    obtain ⟨u, us, hvs, hrid⟩ := (h.chains f hat.tuple).exists_cons
    exact absurd (hrid.trans hf) (hfree f u (by rw [hvs]; simp))

/-- A record that is about to be inserted can be. -/
theorem Invariant.inserting_fits (h : Invariant t db g) {record : Record}
    (hs : db.sessions txId = .inserting record) :
    record.stored = record.values ∧ InsertFits db.heapFile.schema record txId none := by
  have hok := h.sessions txId
  rw [hs] at hok
  obtain ⟨hactive, hmatches⟩ := hok
  have hstored : record.stored = record.values := TableSchema.stored_of_matches hmatches
  exact ⟨hstored, h.insertFits hactive hmatches hstored
    (fun v hv => (TableSchema.values_of_matches hmatches v hv).1) (fun _ hnone => by cases hnone)⟩

/-- So can a new version. -/
theorem Invariant.appending_fits (h : Invariant t db g) {stmt : UpdateStatement}
    {first self last : RID} {record : Record}
    (hs : db.sessions txId = .appending stmt first self last record) :
    InsertFits db.heapFile.schema record txId (some self) := by
  have hok := h.sessions txId
  rw [hs] at hok
  obtain ⟨rfl, v, hat, hcomputed, _⟩ := hok
  obtain ⟨hrecord, hmatches⟩ := h.computed hat hcomputed
  obtain ⟨header, vs, hslot, _⟩ := h.slot_first hat.tuple
  have hfits := h.valid.rid_fits hslot
  refine h.insertFits hat.runs.active hmatches rfl (fun v hv => ?_) (fun rid hrid => ?_)
  · rw [hrecord] at hv
    rcases List.mem_append.mp hv with hv | hv
    · exact (TableSchema.values_of_matches hmatches v hv).1
    · rw [List.mem_singleton.mp hv]
      exact hfits
  · obtain rfl := Option.some.inj hrid
    exact hfits

/-- `ws` is `vs` and then versions by `txId`. -/
def Extends (txId : TxID) (vs ws : List Version) : Prop :=
  ∃ us, ws = vs ++ us ∧ ∀ u ∈ us, u.writer = txId

theorem Extends.refl (txId : TxID) (vs : List Version) : Extends txId vs vs :=
  ⟨[], (List.append_nil vs).symm, fun _ hu => absurd hu List.not_mem_nil⟩

theorem Extends.snoc {v : Version} (vs : List Version) : Extends v.writer vs (vs ++ [v]) :=
  ⟨[v], rfl, fun u hu => by rw [List.mem_singleton.mp hu]⟩

/-- Every step keeps the invariant; a chain only gets new versions at its end, by
the transaction that does the step. -/
theorem Invariant.step (h : Invariant t db g) {db' : Database} {l : TxID × Action}
    (hstep : Step t db l db') : ∃ g', Invariant t db' g' ∧ ∀ f, Extends l.1 (g f) (g' f) := by
  have hkeep : ∀ {db' : Database} {x : TxID}, Invariant t db' g →
      ∃ g', Invariant t db' g' ∧ ∀ f, Extends x (g f) (g' f) :=
    fun h' => ⟨g, h', fun f => .refl ..⟩
  cases hstep with
  | start level hroom => exact hkeep (h.start level hroom)
  | openIterator hs _ hcreate =>
      obtain ⟨hvalid, hschema, hslot, _⟩ := HeapFileIter.create_ok h.valid hcreate
      exact hkeep (h.setHeapFile hs (by simp) hvalid hschema hslot)
  | beginInsert hs hactive hrecord => exact hkeep (h.setSession hs (by simp) ⟨hactive, hrecord⟩)
  | insertRefused hs hinsert =>
      obtain ⟨_, hfits⟩ := h.inserting_fits hs
      obtain ⟨hvalid, hschema, ⟨_, hslot⟩ | ⟨rid, hres, _⟩⟩ := h.valid.insertPass_ok hfits hinsert
      · exact hkeep (h.setHeapFile hs (by simp) hvalid hschema hslot)
      · cases hres
  | insert hs hinsert =>
      obtain ⟨hstored, hfits⟩ := h.inserting_fits hs
      obtain ⟨hvalid, hschema, ⟨hres, _⟩ | ⟨rid, hres, hnone, hslot⟩⟩ :=
        h.valid.insertPass_ok hfits hinsert
      · cases hres
      · obtain rfl := Option.some.inj hres
        rw [hstored] at hslot
        refine ⟨_, h.insert hs hvalid hschema hnone hslot, ?_⟩
        refine forall_update (fun f vs => Extends _ (g f) vs) ?_ fun f _ => .refl ..
        rw [h.chain_nil hnone]
        exact Extends.snoc []
  | addToWriteSet hs hadd => exact hkeep (h.addToWriteSet hs hadd)
  | scan hs hruns hslot hfirst =>
      exact hkeep (h.setSession hs (by simp) ⟨hruns, h.tuple_of_first hslot hfirst⟩)
  | acquire hs hacq => exact hkeep (h.acquire hs hacq)
  | rereadInvalid hs _ => exact hkeep (h.setSession hs (by simp) trivial)
  | reread hs hheader hread hrecord => exact hkeep (h.reread hs hheader hread hrecord)
  | checkFailed hs => exact hkeep (h.setSession hs (by simp) trivial)
  | @check txId stmt first self record out hs hmatches hupdated =>
      have hok := h.sessions txId
      rw [hs] at hok
      obtain ⟨rfl, v, hat, rfl⟩ := hok
      exact hkeep (h.setSession hs (by simp) ⟨v, hat, hmatches, hupdated⟩)
  | @updateMissing txId stmt first record hs hheader =>
      have hok := h.sessions txId
      rw [hs] at hok
      obtain ⟨v, hat, _⟩ := hok
      obtain ⟨header, vs, hslot, _⟩ := h.slot_first hat.tuple
      rw [h.valid.getRecordHeader_eq hslot] at hheader
      cases hheader
  | relock hs _ hheader hacq => exact hkeep (h.relock hs hheader hacq)
  | updateDeleted hs hlast hheader hdeleted =>
      obtain ⟨v, _, hat, _, rfl⟩ := h.findLast hs hlast
      have hslot := h.slot_last hat.last
      rw [h.valid.getRecordHeader_eq hslot] at hheader
      obtain ⟨rfl⟩ := hheader
      exact absurd hdeleted (ne_deleted hslot)
  | findLast hs hlast _ _ =>
      obtain ⟨v, hself, hat, hcomputed, hrid⟩ := h.findLast hs hlast
      exact hkeep (h.setSession hs (by simp) ⟨hself, v, hat, hcomputed, hrid⟩)
  | appendRefused hs hinsert =>
      obtain ⟨hvalid, hschema, ⟨_, hslot⟩ | ⟨rid, hres, _⟩⟩ :=
        h.valid.insertPass_ok (h.appending_fits hs) hinsert
      · exact hkeep (h.setHeapFile hs (by simp) hvalid hschema hslot)
      · cases hres
  | append hs hinsert =>
      obtain ⟨hvalid, hschema, ⟨hres, _⟩ | ⟨rid, hres, hnone, hslot⟩⟩ :=
        h.valid.insertPass_ok (h.appending_fits hs) hinsert
      · cases hres
      · obtain rfl := Option.some.inj hres
        exact hkeep (h.append hs hvalid hschema hnone hslot)
  | link hs hupdate =>
      exact ⟨_, h.link hs hupdate, forall_update (fun f vs => Extends _ (g f) vs)
        (Extends.snoc _) fun f _ => .refl ..⟩
  | setCommitted hs hset => exact hkeep (h.setCommitted hs hset)
  | @release txId tx hs _ => exact hkeep (h.release tx hs)
  | erase hs => exact hkeep (h.erase hs)

/-- A step changes the entry of its own transaction only. -/
theorem Step.entries {db' : Database} {l : TxID × Action} (hstep : Step t db l db') {x : TxID}
    (hx : x ≠ l.1) :
    db'.transactions.activeTransactions x = db.transactions.activeTransactions x := by
  cases hstep with
  | start level _ => exact Function.update_of_ne hx ..
  | addToWriteSet _ hadd => exact (TransactionManager.addToWriteSet_ok hadd).others x hx
  | acquire _ hacq => exact (lock_grows hacq).1.others x hx
  | relock _ _ _ hacq => exact (lock_grows hacq).1.others x hx
  | setCommitted _ hset =>
      obtain ⟨_, _, _, _, hothers⟩ := TransactionManager.setCommitted_ok hset
      exact hothers x hx
  | erase _ => exact Function.update_of_ne hx ..
  | _ => rfl

/-- What is committed stays committed. -/
theorem Step.committed {db' : Database} {l : TxID × Action} (hstep : Step t db l db') {x : TxID}
    (hx : x < db.transactions.transactionCount) (hcommitted : db.state x = .committed) :
    db'.state x = .committed := by
  cases hstep with
  | start level _ =>
      show (db.transactions.startTransaction level).2.getState x = _
      rw [TransactionManager.getState_start, if_neg (ne_of_lt hx)]
      exact hcommitted
  | addToWriteSet _ hadd =>
      exact ((TransactionManager.addToWriteSet_ok hadd).state x).trans hcommitted
  | acquire _ hacq => exact ((lock_grows hacq).1.state x).trans hcommitted
  | relock _ _ _ hacq => exact ((lock_grows hacq).1.state x).trans hcommitted
  | @setCommitted txId tm _ hset =>
      obtain ⟨_, _, hstate, _⟩ := TransactionManager.setCommitted_ok hset
      show tm.getState x = _
      rw [hstate x]
      split
      · rfl
      · exact hcommitted
  | @erase txId _ =>
      by_cases hxt : x = txId
      · subst hxt
        simp [Database.state, Database.setSession, TransactionManager.getState,
          TransactionManager.erase]
      · exact (TransactionManager.getState_congr (Function.update_of_ne hxt ..)).trans hcommitted
  | _ => exact hcommitted

/-- Every reachable state has chains. -/
theorem reachable_invariant (hreach : (database t).Reachable db) : ∃ g, Invariant t db g := by
  have hinit : ∀ s, (database t).init s → ∃ g, Invariant t s g := by
    rintro s ⟨fileId, rfl⟩
    exact ⟨_, invariant_create t fileId⟩
  have hstep : ∀ s l s', (∃ g, Invariant t s g) → (database t).step s l s' →
      ∃ g, Invariant t s' g := by
    rintro s l s' ⟨g, h⟩ hl
    obtain ⟨g', h', _⟩ := h.step hl
    exact ⟨g', h'⟩
  exact hreach.invariant hinit hstep

end Steps

end Iic3413Db.Mvcc
