/-
  Mvcc/TableViews.lean --- the rows a READ_COMMITTED transaction sees of the table, and what its
  own updates do to them.

  Other transactions may have uncommitted versions and locks, as long as they are between two
  calls and stay there.  `Writers` is what the headers and the lock table then say of them.
-/
import Iic3413Db.Mvcc.UpdateIter
import Iic3413Db.Storage.HeapFile.ChainReads
import Iic3413Db.Storage.HeapFile.ScanGrowth

set_option autoImplicit false

namespace Iic3413Db.Mvcc

open Iic3413Db.Foundation Iic3413Db.RelationalModel Iic3413Db.Storage Iic3413Db.System
  Iic3413Db.Query
open Iic3413Db.Storage.HeapFile (Stores Grows)

/-- The transaction began or ended the version. -/
def WrittenBy (header : RecordHeader) (x : TxID) : Prop := header.tMin = x ∨ header.tMax = x

/-- The uncommitted versions of a tuple are one transaction's.  Those of another than `txId` are
at the end of the chain, and unless it inserted the tuple it holds the lock.  All writers have
begun. -/
structure Writers (tm : TransactionManager) (locks : LockTable) (begun : TxID → Prop) (txId : TxID)
    (slots : SlotMap) : Prop where
  bounds : 0 < txId ∧ txId < 2 ^ 64
  known : ∀ rid header values x, slots rid = some (header, values) → WrittenBy header x →
    x = 0 ∨ x = txId ∨ begun x
  zero : tm.getState 0 ≠ .active
  one : ∀ rid header values rid' header' values' x x', slots rid = some (header, values) →
    slots rid' = some (header', values') → header.first = header'.first →
    WrittenBy header x → WrittenBy header' x' → tm.getState x = .active →
    tm.getState x' = .active → x = x'
  ordered : ∀ rid header values, slots rid = some (header, values) → header.tMin ≠ txId →
    tm.getState header.tMin = .active → header.tMax ≠ 0 → header.tMax = header.tMin
  locked : ∀ rid header values x, slots rid = some (header, values) → x ≠ txId →
    tm.getState x = .active → header.tMax = x ∨ header.tMin = x ∧ rid ≠ header.first →
    locks header.first = some x

/-- The transaction runs on the table, whose chains are `chains`. -/
structure View (t : TableSchema) (begun : TxID → Prop) (txId : TxID) (c : Cursor)
    (chains : RID → List RID) : Prop where
  valid : c.heapFile.Valid
  schema : c.heapFile.schema = t.schema
  runs : c.transactions.Runs txId .readCommitted
  chained : Chained c.heapFile.slot chains
  writers : Writers c.transactions c.lockTable begun txId c.heapFile.slot

/-- The row the transaction sees of each tuple. -/
abbrev viewRows (txId : TxID) (c : Cursor) (chains : RID → List RID) : RID → Option Record :=
  chainRow c.heapFile.slot (shows c.transactions txId) chains

/-- The tuple's uncommitted versions, if there are any, are the transaction's. -/
def Settled (tm : TransactionManager) (txId : TxID) (slots : SlotMap) (first : RID) : Prop :=
  ∀ rid header values x, slots rid = some (header, values) → header.first = first →
    WrittenBy header x → tm.getState x = .active → x = txId

section Views

variable {t : TableSchema} {begun : TxID → Prop} {txId : TxID} {c : Cursor}
  {chains : RID → List RID} {first : RID} {row : Record}

/-- Of a settled tuple the version without an end is shown. -/
theorem Settled.shows_eq {tm : TransactionManager} {slots : SlotMap} {rid : RID}
    {header : RecordHeader} {values : List Value} (h : Settled tm txId slots first)
    (hslot : slots rid = some (header, values)) (hfirst : header.first = first) :
    shows tm txId header = decide (header.tMax = 0) := by
  unfold shows
  cases hmin : tm.getState header.tMin with
  | active =>
      have hown := h rid header values _ hslot hfirst (.inl rfl) hmin
      simp [hown]
  | committed =>
      cases hmax : tm.getState header.tMax with
      | active =>
          have hown := h rid header values _ hslot hfirst (.inr rfl) hmax
          simp [hown]
      | committed => simp

namespace View

variable (h : View t begun txId c chains)

include h

theorem row_stored (hrow : (viewRows txId c chains first).isSome) :
    (c.heapFile.slot first).isSome := by
  obtain ⟨row, hrow⟩ := Option.isSome_iff_exists.mp hrow
  obtain ⟨header, values, hslot, _⟩ := h.chained.row_stored hrow
  rw [hslot]
  rfl

theorem values_ne_nil {rid : RID} {header : RecordHeader} {values : List Value}
    (hslot : c.heapFile.slot rid = some (header, values)) : values ≠ [] := by
  have hmatches := h.valid.matches_stored hslot
  rw [h.schema] at hmatches
  exact TableSchema.ne_nil_of_matches hmatches

/-- A tuple the transaction sees and can lock is settled. -/
theorem settled (hlock : ∀ x, c.lockTable first = some x → x = txId)
    (hrow : viewRows txId c chains first = some row) :
    Settled c.transactions txId c.heapFile.slot first := by
  intro rid header values x hslot hfirst hwritten hactive
  by_contra hother
  have hfree : ∀ (rid : RID) (header : RecordHeader) (values : List Value),
      c.heapFile.slot rid = some (header, values) → header.first = first →
      ¬ (header.tMax = x ∨ header.tMin = x ∧ rid ≠ header.first) := by
    intro rid header values hslot hfirst hcase
    have hheld := h.writers.locked rid header values x hslot hother hactive hcase
    rw [hfirst] at hheld
    exact hother (hlock x hheld)
  have hnot := hfree rid header values hslot hfirst
  push Not at hnot
  rcases hwritten with hmin | hmax
  · obtain rfl : rid = first := (hnot.2 hmin).trans hfirst
    -- an uncommitted insert by another transaction has no version after it
    have hend : header.tMax = 0 := by
      by_contra hne
      exact hnot.1 ((h.writers.ordered rid header values hslot (hmin ▸ hother) (hmin ▸ hactive)
        hne).trans hmin)
    obtain ⟨shown, header', values', _, hmem, hslot', _, hvis, _⟩ := h.chained.row_some hrow
    have hchain := h.chained.chain rid (List.ne_nil_of_mem hmem)
    obtain ⟨rest, hrest⟩ := List.head?_eq_some_iff.mp hchain.head
    have hone : shown = rid := by
      have hfollows := hchain.follows
      rw [hrest] at hfollows hmem
      obtain ⟨⟨header'', values'', hslot'', _, hpoints⟩, _⟩ := hfollows
      rw [hslot] at hslot''
      cases hslot''
      cases rest with
      | nil => exact List.mem_singleton.mp hmem
      | cons next rest => exact absurd hend hpoints.1
    rw [hone, hslot] at hslot'
    cases hslot'
    unfold shows at hvis
    rw [hmin, hactive] at hvis
    exact hother (of_decide_eq_true hvis).1
  · exact hnot.1 hmax

/-- The version that is the row of such a tuple. -/
theorem row_live (hsettled : Settled c.transactions txId c.heapFile.slot first)
    (hrow : viewRows txId c chains first = some row) :
    ∃ rids last header values, chains first = rids ++ [last] ∧
      firstShown c.heapFile.slot (shows c.transactions txId) (chains first) = some last ∧
      c.heapFile.slot last = some (header, values) ∧ header.first = first ∧ header.tMax = 0 ∧
      header.next = last ∧ row = (⟨values⟩ : Record).pushRid first := by
  refine h.chained.row_live (fun rid hmem header values hslot => ?_) hrow
  obtain ⟨header', values', hslot', hfirst⟩ := h.chained.slot hmem
  rw [hslot] at hslot'
  cases hslot'
  exact hsettled.shows_eq hslot hfirst

/-! ## The lock -/

/-- Taking a lock shows nothing else. -/
theorem acquire {locks : LockTable} {tm : TransactionManager}
    (hacquire : LockManager.tryAcquireLock c.lockTable c.transactions txId first =
      .ok (some (locks, tm))) :
    View t begun txId { c with lockTable := locks, transactions := tm } chains ∧
      viewRows txId { c with lockTable := locks, transactions := tm } chains =
        viewRows txId c chains := by
  obtain ⟨hsame, hfree, rfl⟩ := LockManager.tryAcquireLock_some hacquire
  have hshows : shows tm txId = shows c.transactions txId := by
    funext header
    unfold shows
    rw [hsame.state, hsame.state]
  refine ⟨⟨h.valid, h.schema, hsame.runs _ _ h.runs, h.chained, ?_⟩, ?_⟩
  · have hw := h.writers
    refine ⟨hw.bounds, hw.known, ?_, ?_, ?_, ?_⟩
    · rw [hsame.state]
      exact hw.zero
    · simp only [hsame.state]
      exact hw.one
    · simp only [hsame.state]
      exact hw.ordered
    · simp only [hsame.state]
      intro rid header values x hslot hother hactive hcase
      have hheld := hw.locked rid header values x hslot hother hactive hcase
      by_cases hfirst : header.first = first
      · rw [hfirst] at hheld ⊢
        rcases hfree with hnone | hown
        · rw [hnone] at hheld
          cases hheld
        · rw [Function.update_self, ← hheld, hown]
      · rwa [Function.update_of_ne hfirst]
  · unfold viewRows
    rw [hshows]

/-- The call takes the lock, or its time passes. -/
theorem acquire_cases (first : RID) :
    (∃ locks tm, Mvcc.acquire txId first c =
        (some (.ok ()), { c with lockTable := locks, transactions := tm }) ∧
      View t begun txId { c with lockTable := locks, transactions := tm } chains ∧
      viewRows txId { c with lockTable := locks, transactions := tm } chains =
        viewRows txId c chains ∧
      locks = Function.update c.lockTable first (some txId)) ∨
    ∃ x message, c.lockTable first = some x ∧ x ≠ txId ∧
      Mvcc.acquire txId first c = (some (.error (.transactionAbortException message)), c) := by
  have hgot : ∀ {locks : LockTable} {tm : TransactionManager},
      LockManager.tryAcquireLock c.lockTable c.transactions txId first = .ok (some (locks, tm)) →
      ∃ locks tm, Mvcc.acquire txId first c =
          (some (.ok ()), { c with lockTable := locks, transactions := tm }) ∧
        View t begun txId { c with lockTable := locks, transactions := tm } chains ∧
        viewRows txId { c with lockTable := locks, transactions := tm } chains =
          viewRows txId c chains ∧
        locks = Function.update c.lockTable first (some txId) := by
    intro locks tm hacquire
    obtain ⟨hview, hrows⟩ := h.acquire hacquire
    obtain ⟨_, _, hlocks⟩ := LockManager.tryAcquireLock_some hacquire
    exact ⟨locks, tm, by rw [Mvcc.acquire, hacquire], hview, hrows, hlocks⟩
  cases hlock : c.lockTable first with
  | none =>
      obtain ⟨tm, hacquire⟩ := LockManager.tryAcquireLock_free hlock h.runs
      exact .inl (hgot hacquire)
  | some x =>
      by_cases hown : x = txId
      · subst hown
        exact .inl (hgot (LockManager.tryAcquireLock_held hlock))
      · refine .inr ⟨x, s!"Transaction {txId} aborted due to lock timeout", rfl, hown, ?_⟩
        have hwait : LockManager.tryAcquireLock c.lockTable c.transactions txId first =
            .ok none := by
          simp only [LockManager.tryAcquireLock, hlock, if_neg hown]
        rw [Mvcc.acquire, hwait]

end View

/-! ## A new version -/

section Append

variable {tm : TransactionManager} {locks : LockTable} {slots : SlotMap} {last new : RID}
  {old : RecordHeader × List Value} {values : List Value}

/-- What is stored once a version is appended. -/
theorem appendVersion_cases {rid : RID} {e : RecordHeader × List Value}
    (hslot : appendVersion slots first last new txId old values rid = some e) :
    rid = last ∧ e.1 = { old.1 with tMax := txId, next := new } ∨
      rid = new ∧ e.1 = ⟨txId, 0, new, first⟩ ∨ slots rid = some e := by
  unfold appendVersion at hslot
  by_cases hlast : rid = last
  · rw [hlast, Function.update_self] at hslot
    cases hslot
    exact .inl ⟨hlast, rfl⟩
  · rw [Function.update_of_ne hlast] at hslot
    by_cases hnew : rid = new
    · rw [hnew, Function.update_self] at hslot
      cases hslot
      exact .inr (.inl ⟨hnew, rfl⟩)
    · rw [Function.update_of_ne hnew] at hslot
      exact .inr (.inr hslot)

variable (hold : slots last = some old) (hfirst : old.1.first = first)
  (hsettled : Settled tm txId slots first) (hzero : tm.getState 0 ≠ .active)

include hold hfirst hsettled hzero

variable (new values) in
/-- The tuple stays settled. -/
theorem Settled.append :
    Settled tm txId (appendVersion slots first last new txId old values) first := by
  intro rid header values' x hslot hheader hwritten hactive
  rcases appendVersion_cases hslot with ⟨_, rfl⟩ | ⟨_, rfl⟩ | hslot
  · rcases hwritten with hmin | hmax
    · exact hsettled last old.1 old.2 x hold hfirst (.inl hmin) hactive
    · exact hmax.symm
  · rcases hwritten with hmin | hmax
    · exact hmin.symm
    · rw [← hmax] at hactive
      exact absurd hactive hzero
  · exact hsettled rid header values' x hslot hheader hwritten hactive

theorem Writers.append (h : Writers tm locks begun txId slots) :
    Writers tm locks begun txId (appendVersion slots first last new txId old values) := by
  have hset := Settled.append new values hold hfirst hsettled hzero
  refine ⟨h.bounds, ?_, h.zero, ?_, ?_, ?_⟩
  · intro rid header values' x hslot hwritten
    rcases appendVersion_cases hslot with ⟨_, rfl⟩ | ⟨_, rfl⟩ | hslot
    · rcases hwritten with hmin | hmax
      · exact h.known last old.1 old.2 x hold (.inl hmin)
      · exact .inr (.inl hmax.symm)
    · rcases hwritten with hmin | hmax
      · exact .inr (.inl hmin.symm)
      · exact .inl hmax.symm
    · exact h.known rid header values' x hslot hwritten
  · intro rid header values₁ rid' header' values₂ x x' hslot hslot' heq hwritten hwritten' hx hx'
    by_cases hthis : header.first = first
    · rw [hset rid header values₁ x hslot hthis hwritten hx,
        hset rid' header' values₂ x' hslot' (heq ▸ hthis) hwritten' hx']
    · rcases appendVersion_cases hslot with ⟨_, rfl⟩ | ⟨_, rfl⟩ | hs
      · exact absurd hfirst hthis
      · exact absurd rfl hthis
      · rcases appendVersion_cases hslot' with ⟨_, rfl⟩ | ⟨_, rfl⟩ | hs'
        · exact absurd (heq.trans hfirst) hthis
        · exact absurd heq hthis
        · exact h.one _ _ _ _ _ _ x x' hs hs' heq hwritten hwritten' hx hx'
  · intro rid header values' hslot hother hmin hend
    rcases appendVersion_cases hslot with ⟨_, rfl⟩ | ⟨_, rfl⟩ | hslot
    · exact absurd (hsettled last old.1 old.2 _ hold hfirst (.inl rfl) hmin) hother
    · exact absurd rfl hend
    · exact h.ordered rid header values' hslot hother hmin hend
  · intro rid header values' x hslot hother hx hcase
    rcases appendVersion_cases hslot with ⟨_, rfl⟩ | ⟨_, rfl⟩ | hslot
    · rcases hcase with hmax | ⟨hmin, _⟩
      · exact absurd hmax.symm hother
      · exact absurd (hsettled last old.1 old.2 x hold hfirst (.inl hmin) hx) hother
    · rcases hcase with hmax | ⟨hmin, _⟩
      · rw [← hmax] at hx
        exact absurd hx hzero
      · exact absurd hmin.symm hother
    · exact h.locked rid header values' x hslot hother hx hcase

end Append

/-- The transaction updates a tuple whose lock it holds: its row changes and no other. -/
theorem View.write (h : View t begun txId c chains) (hlock : c.lockTable first = some txId)
    (hrow : viewRows txId c chains first = some row) {new : RID} {values : List Value}
    {hf : HeapFile} (hstores : Stores c.heapFile new (⟨txId, 0, new, first⟩, values) hf) :
    ∃ last hf', firstShown c.heapFile.slot (shows c.transactions txId) (chains first) = some last ∧
      hf.updateRecordHeader last new txId = .ok hf' ∧ Grows c.heapFile hf' ∧
      hf'.pageCount = hf.pageCount ∧ ∃ chains', View t begun txId { c with heapFile := hf' } chains' ∧
        viewRows txId { c with heapFile := hf' } chains' =
          Function.update (viewRows txId c chains) first
            (some ((⟨values⟩ : Record).pushRid first)) := by
  have hsettled := h.settled (fun x hx => Option.some.inj (hx.symm.trans hlock)) hrow
  obtain ⟨rids, last, header, oldValues, hchain, hshown, hslot, hfirst, hlive, _, _⟩ :=
    h.row_live hsettled hrow
  obtain ⟨hpos, hlt⟩ := h.writers.bounds
  have hne : new ≠ last := by
    rintro rfl
    rw [hstores.free] at hslot
    cases hslot
  have hlast : hf.slot last = some (header, oldValues) := by
    rw [hstores.slot, Function.update_of_ne hne.symm]
    exact hslot
  have hnew : hf.slot new = some (⟨txId, 0, new, first⟩, values) := by
    rw [hstores.slot, Function.update_self]
  have hfits := hstores.valid.rid_fits hnew
  obtain ⟨hf', hlink, hvalid, hschema, hslots⟩ :=
    hstores.valid.updateRecordHeader_eq hlast hlt hfits
  have hslots' : hf'.slot =
      appendVersion c.heapFile.slot first last new txId (header, oldValues) values := by
    rw [hslots, hstores.slot]
    rfl
  have hzero := h.writers.zero
  have hset := Settled.append new values hslot hfirst hsettled hzero
  have hchained := h.chained.append values hchain hslot hstores.free
    (Nat.ne_of_gt hpos)
  refine ⟨last, hf', hshown, hlink, hstores.grows.trans
    (hstores.valid.updateRecordHeader_grows hlast hlt hfits hlink),
    hstores.valid.updateRecordHeader_count hlast hlink,
    Function.update chains first (chains first ++ [new]),
    ⟨hvalid, hschema.trans (hstores.schema.trans h.schema), h.runs, ?_, ?_⟩, ?_⟩
  · show Chained hf'.slot _
    rw [hslots']
    exact hchained
  · show Writers c.transactions c.lockTable begun txId hf'.slot
    rw [hslots']
    exact h.writers.append hslot hfirst hsettled hzero
  · funext f
    show chainRow hf'.slot _ _ f = _
    rw [hslots']
    by_cases hf : f = first
    · subst hf
      have hfollows := (hchained.chain f (by simp)).follows
      rw [Function.update_self] at hfollows ⊢
      have hvis : ∀ rid ∈ chains f ++ [new], ∀ header' values',
          appendVersion c.heapFile.slot f last new txId (header, oldValues) values rid =
            some (header', values') →
          shows c.transactions txId header' = decide (header'.tMax = 0) := by
        intro rid hmem header' values' hs
        obtain ⟨header'', values'', hs', hf'⟩ := hfollows.slot hmem
        rw [hs] at hs'
        cases hs'
        exact hset.shows_eq hs hf'
      have hlatest := hfollows.firstShown_last (appendVersion_new hne) rfl hvis
      rw [chainRow, Function.update_self, hlatest, Option.bind_some, appendVersion_new hne]
      rfl
    · rw [Function.update_of_ne hf]
      exact chainRow_congr (Function.update_of_ne hf ..)
        (h.chained.append_other hchain hslot hstores.free hf) fun _ _ _ _ _ => rfl

end Views

end Iic3413Db.Mvcc
