/-
  Mvcc/FailedUpdates.lean --- an UPDATE that throws inside an explicit transaction.

  `execute_query` passes the exception on and leaves the transaction as it is, so what the
  statement has written before the row that threw stays, and the COMMIT that may follow makes
  it everybody's.  The statement runs beside transactions that stand still.
-/
import Iic3413Db.Mvcc.UpdateOnce
import Iic3413Db.Query.Optimizer.ExprOptimizer

set_option autoImplicit false

namespace Iic3413Db.Mvcc

open Iic3413Db.Foundation Iic3413Db.RelationalModel Iic3413Db.Storage Iic3413Db.System
  Iic3413Db.Query
open Procedure (Breaks Ends Leads Preserves)

/-! ## The transaction counter -/

section Counter

variable {t : TableSchema} {stmt : UpdateStatement} {txId : TxID}

/-- `catalog.transaction_count`. -/
def Cursor.transactionCount (c : Cursor) : TxID := c.transactions.transactionCount

theorem acquire_keeps (first : RID) : Preserves Cursor.transactionCount (acquire txId first) := by
  intro c
  unfold acquire
  cases hlock : LockManager.tryAcquireLock c.lockTable c.transactions txId first with
  | error e => rfl
  | ok res =>
      cases res with
      | none => rfl
      | some res => exact (LockManager.tryAcquireLock_some hlock).1.count

theorem update_keeps (fuel : Nat) (rid : RID) (record : Record) :
    Preserves Cursor.transactionCount (update fuel rid record txId) := by
  have hinsert : ∀ first, Preserves Cursor.transactionCount (insertVersion fuel record txId first) :=
    fun _ _ => rfl
  have hlink : ∀ last new, Preserves Cursor.transactionCount (linkVersion last new txId) := by
    intro last new c
    unfold linkVersion
    split <;> rfl
  unfold update
  refine (Preserves.ofExcept _).bind fun level => (Preserves.ofExcept _).bind fun header => ?_
  cases header with
  | none => exact .pure _
  | some header =>
      refine (acquire_keeps _).bind fun _ => ?_
      cases level with
      | snapshotIsolation => exact .pure _
      | readCommitted =>
          refine (Preserves.ofLoop _).bind fun last => (Preserves.ofExcept _).bind fun lastHeader => ?_
          cases lastHeader with
          | none => exact .pure _
          | some lastHeader =>
              dsimp only
              split
              · exact .pure _
              · exact (hinsert _).bind fun new => (hlink last new).bind fun _ => .pure _

theorem childNext_keeps (fuel : Nat) : Preserves Cursor.transactionCount (childNext stmt txId fuel) := by
  have hrelation : ∀ fuel, Preserves Cursor.transactionCount (relationNext txId fuel) := by
    intro fuel c
    unfold relationNext
    split <;> rfl
  induction fuel with
  | zero => exact .outOfFuel
  | succ fuel ih =>
      unfold childNext
      refine (hrelation fuel).bind fun current => ?_
      split
      · exact .pure _
      · refine (Preserves.ofExcept _).bind fun matched => ?_
        split
        · exact .pure _
        · exact ih

theorem updateNext_keeps (fuel : Nat) :
    Preserves Cursor.transactionCount (updateNext t stmt txId fuel) := by
  induction fuel with
  | zero => exact .outOfFuel
  | succ fuel ih =>
      unfold updateNext
      refine (childNext_keeps fuel).bind fun current => ?_
      unfold updateRow
      split
      · exact .pure _
      · split
        · refine (acquire_keeps _).bind fun _ => ?_
          unfold updateLocked
          refine (Preserves.ofExcept _).bind fun header => (Preserves.ofLoop _).bind fun read => ?_
          dsimp only
          split
          · exact ih
          · refine (Preserves.ofExcept _).bind fun stored => (Preserves.ofExcept _).bind fun matched => ?_
            split
            · cases header with
              | none => exact .ofExcept _
              | some header =>
                  exact (Preserves.ofExcept _).bind fun updated =>
                    (update_keeps _ _ _).bind fun _ => .pure _
            · exact ih
        · exact .ofExcept _

theorem drain_keeps (fuel : Nat) : Preserves Cursor.transactionCount (drain t stmt txId fuel) := by
  induction fuel with
  | zero => exact .outOfFuel
  | succ fuel ih =>
      unfold drain
      refine (updateNext_keeps fuel).bind fun record => ?_
      split
      · exact .pure _
      · exact ih.bind fun _ => .pure _


/-- `begin()`: the scan starts over. -/
def beginScan : Call Unit := fun c =>
  match HeapFileIter.create c.heapFile with
  | .error e => (some (.error e), c)
  | .ok (iter, hf) => (some (.ok ()), { c with heapFile := hf, iter := iter })

theorem beginScan_keeps : Preserves Cursor.transactionCount beginScan := by
  intro c
  unfold beginScan
  split <;> rfl

end Counter

/-! ## The COMMIT -/

/-- `commit_transaction`, with nothing in between its parts, for the locks and the states. -/
def commitTransaction (locks : LockTable) (tm : TransactionManager) (txId : TxID) :
    Outcome (LockTable × TransactionManager) :=
  match tm.activeTransactions txId with
  | none => .error (.runtimeError s!"[COMMIT] Transaction {txId} not found")
  | some tx => do
      let tm ← tm.setCommitted txId
      .ok (LockManager.releaseAllLocks locks txId tx, tm.erase txId)

section Commit

variable {t : TableSchema} {begun : TxID → Prop} {txId : TxID} {c : Cursor}
  {chains : RID → List RID}

/-- The commit of a transaction that runs: its state alone changes. -/
theorem View.commits (h : View t begun txId c chains) :
    ∃ locks tm, commitTransaction c.lockTable c.transactions txId = .ok (locks, tm) ∧
      tm.transactionCount = c.transactions.transactionCount ∧
      ∀ x, tm.getState x = if x = txId then .committed else c.transactions.getState x := by
  obtain ⟨tx, htx, _⟩ := h.runs
  obtain ⟨tm, hcommit⟩ := h.runs.setCommitted
  obtain ⟨_, hcount, hstate, _, _⟩ := TransactionManager.setCommitted_ok hcommit
  refine ⟨LockManager.releaseAllLocks c.lockTable txId tx, tm.erase txId, ?_, hcount, fun x => ?_⟩
  · simp only [commitTransaction, htx, hcommit, Outcome.ok_bind]
  · rw [TransactionManager.getState_erase (by rw [hstate, if_pos rfl]), hstate]

/-- A transaction that begins after the commit is shown the versions its writer was shown. -/
theorem View.shows_next (h : View t begun txId c chains) {tm : TransactionManager} {next : TxID}
    (hstate : ∀ x, tm.getState x =
      if x = next then .active else if x = txId then .committed else c.transactions.getState x)
    (hnext : 0 < next ∧ next ≠ txId ∧ ¬ begun next) {rid : RID} {header : RecordHeader}
    {values : List Value} (hslot : c.heapFile.slot rid = some (header, values)) :
    shows tm next header = shows c.transactions txId header := by
  obtain ⟨hpos, hown, hbegun⟩ := hnext
  have hother : ∀ x, WrittenBy header x → x ≠ next := by
    rintro x hwritten rfl
    rcases h.writers.known rid header values x hslot hwritten with hzero | hself | hknown
    · exact Nat.ne_of_gt hpos hzero
    · exact hown hself
    · exact hbegun hknown
  have hmin := hother _ (.inl rfl)
  have hmax := hother _ (.inr rfl)
  have hactive := h.runs.active
  unfold shows
  rw [hstate, hstate, if_neg hmin, if_neg hmax]
  by_cases hmine : header.tMin = txId
  · rw [if_pos hmine, hmine, hactive]
    by_cases hend : header.tMax = 0
    · simp [hend]
    · -- whoever ended its version is no other transaction that runs
      by_cases hended : header.tMax = txId
      · simp [hended]
      · cases hs : c.transactions.getState header.tMax with
        | active =>
            exact absurd (h.writers.one _ _ _ _ _ _ _ _ hslot hslot rfl (.inr rfl) (.inl hmine) hs
              hactive) hended
        | committed => simp [hended]
  · rw [if_neg hmine]
    cases hs : c.transactions.getState header.tMin with
    | active => simp [hmin, hmine]
    | committed =>
        by_cases hended : header.tMax = txId
        · simp [hended]
        · simp [hended, hmax]

end Commit

/-! ## The rows after the statement -/

/-- The rows a full scan of the transaction returns, in any order. -/
def ReadsRows (tm : TransactionManager) (txId : TxID) (hf : HeapFile) (rows : List Record) : Prop :=
  ∃ rows', ScansAs tm txId hf rows' ∧ rows'.Perm rows

/-- The transaction reads these rows, and so does the next one to begin after its COMMIT. -/
def ReadsAfter (c : Cursor) (txId : TxID) (rows : List Record) : Prop :=
  ReadsRows c.transactions txId c.heapFile rows ∧
    ∃ locks tm, commitTransaction c.lockTable c.transactions txId = .ok (locks, tm) ∧
      ReadsRows (tm.startTransaction .readCommitted).2 (tm.startTransaction .readCommitted).1
        c.heapFile rows

/-- `execute_query` of an UPDATE with `commit_at_end` false.  An exception passes through its
handlers, and no handler does anything to the transaction. -/
def executeUpdate (t : TableSchema) (stmt : UpdateStatement) (txId : TxID) (fuel : Nat) :
    Call (List Record) := do
  beginScan
  drain t stmt txId fuel

/-- The statement can be evaluated on the row. -/
def succeeds (t : TableSchema) (stmt : UpdateStatement) (row : Record) : Bool :=
  (rowOutcome t stmt row).isOk

section Failed

variable {t : TableSchema} {begun : TxID → Prop} {stmt : UpdateStatement} {txId : TxID}
  {c c' : Cursor} {chains : RID → List RID} {rows : List Record}

theorem ReadsRows.iff_perm {tm : TransactionManager} {hf : HeapFile} {rows' : List Record}
    (h : ReadsRows tm txId hf rows) : ReadsRows tm txId hf rows' ↔ rows.Perm rows' := by
  obtain ⟨read, hscan, hperm⟩ := h
  refine ⟨fun ⟨read', hscan', hperm'⟩ => ?_, fun h => ⟨read, hscan, hperm.trans h⟩⟩
  rw [hscan.unique hscan'] at hperm
  exact hperm.symm.trans hperm'

/-- What the transaction reads is what the others will. -/
theorem View.readsAfter_iff (h : View t begun txId c chains)
    (hnext : txId < c.transactionCount ∧ ¬ begun c.transactionCount) :
    ReadsAfter c txId rows ↔
      (c.heapFile.rids.filterMap (viewRows txId c chains)).Perm rows := by
  obtain ⟨locks, tm, hcommit, hcount, hstate⟩ := h.commits
  have hruns := TransactionManager.runs_start tm .readCommitted
  have hbegins : 0 < tm.transactionCount ∧ tm.transactionCount ≠ txId ∧
      ¬ begun tm.transactionCount := by
    rw [hcount]
    exact ⟨Nat.zero_lt_of_lt hnext.1, Nat.ne_of_gt hnext.1, hnext.2⟩
  have hown : ReadsRows c.transactions txId c.heapFile _ := h.scans
  have hothers : ReadsRows (tm.startTransaction .readCommitted).2 tm.transactionCount c.heapFile _ :=
    h.scans_as hruns fun rid header values hslot => h.shows_next (fun x => by
      rw [TransactionManager.getState_start, hstate]) hbegins hslot
  refine ⟨fun hafter => hown.iff_perm.mp hafter.1, fun hperm =>
    ⟨hown.iff_perm.mpr hperm, locks, tm, hcommit, hothers.iff_perm.mpr hperm⟩⟩

theorem rowOutcome_some {row updated : Record}
    (h : rowOutcome t stmt row = .ok (some updated)) :
    assign t.schema.columns stmt.assignments row = .ok updated := by
  obtain ⟨matched, _, h⟩ := Outcome.of_bind_ok h
  cases matched with
  | false => cases h
  | true =>
      obtain ⟨matched, _, h⟩ := Outcome.of_bind_ok h
      cases matched with
      | false => cases h
      | true =>
          obtain ⟨record, hassign, h⟩ := Outcome.of_bind_ok h
          cases h
          exact hassign

/-- The statement leaves the RID behind the values. -/
theorem View.setResult_last (h : View t begun txId c chains) {first : RID} {row : Record}
    (hrow : viewRows txId c chains first = some row) :
    (setResult t stmt row).values.getLast? = row.values.getLast? := by
  unfold setResult
  split
  · rename_i updated houtcome
    exact h.assign_last hrow (rowOutcome_some houtcome)
  · rfl

/-- The rows before one, among rows that are all different. -/
theorem map_if_mem {pre suf : List Record} {f : Record → Record} (hnodup : (pre ++ suf).Nodup) :
    ((pre ++ suf).map fun row => if row ∈ pre then f row else row) = pre.map f ++ suf := by
  rw [List.map_append]
  congr 1
  · exact List.map_congr_left fun row hrow => if_pos hrow
  · have hnot : ∀ row ∈ suf, row ∉ pre := fun row hsuf hpre =>
      (List.nodup_append.mp hnodup).2.2 row hpre row hsuf rfl
    exact (List.map_congr_left fun row hrow => if_neg (hnot row hrow)).trans (List.map_id suf)

/-- Rows with RIDs of their own stay the same rows only where each stays the same. -/
theorem perm_map_iff {f : Record → Record} (hnodup : (rows.map fun row => row.values.getLast?).Nodup)
    (hlast : ∀ row ∈ rows, (f row).values.getLast? = row.values.getLast?) :
    (rows.map f).Perm rows ↔ ∀ row ∈ rows, f row = row := by
  refine ⟨fun hperm row hrow => ?_, fun hsame => .of_eq ((List.map_congr_left hsame).trans
    (List.map_id rows))⟩
  exact List.inj_on_of_nodup_map hnodup (hperm.mem_iff.mp (List.mem_map_of_mem hrow)) hrow
    (hlast row hrow)

/-- What `executeUpdate` comes to, on the rows of its scan. -/
inductive Executed (t : TableSchema) (stmt : UpdateStatement) (txId : TxID) (c : Cursor)
    (rows : List Record) : Prop
  | finished {c' : Cursor} : (∀ r ∈ rows, ∃ o, rowOutcome t stmt r = .ok o) →
      Ends (executeUpdate t stmt txId) c (.ok (returned t stmt rows)) c' →
      Executed t stmt txId c rows
  | threw {c' : Cursor} {pre suf : List Record} {row : Record} {e : Fault} :
      rows = pre ++ row :: suf → (∀ r ∈ pre, ∃ o, rowOutcome t stmt r = .ok o) →
      rowOutcome t stmt row = .error e → Ends (executeUpdate t stmt txId) c (.error e) c' →
      (∀ rows', ReadsAfter c' txId rows' ↔
        (pre.map (setResult t stmt) ++ row :: suf).Perm rows') →
      Executed t stmt txId c rows
  | failed {d : Cursor} : d.lockTable = c.lockTable →
      Failure (executeUpdate t stmt txId) c (rows.length + 2) (Obstructed t stmt txId d rows) →
      Executed t stmt txId c rows

/-- A statement that throws leaves the rows before the one it throws at updated. -/
theorem View.executeUpdate_spec (h : View t (fun x => x < c.transactionCount) txId c chains)
    (hbegun : txId < c.transactionCount) (stmt : UpdateStatement) :
    ∃ rows, ScansAs c.transactions txId c.heapFile rows ∧
      (rows.map fun row => row.values.getLast?).Nodup ∧
      (∀ row ∈ rows, (setResult t stmt row).values.getLast? = row.values.getLast?) ∧
      Executed t stmt txId c rows := by
  obtain ⟨it, hf, hcreate⟩ := HeapFileIter.create_eq h.valid
  obtain ⟨rows, hscan, hrows, hat, hsame⟩ := h.start hcreate
  have hlead : Leads (executeUpdate t stmt txId) c (drain t stmt txId)
      { c with heapFile := hf, iter := it } := by
    refine ⟨0, 0, fun fuel _ => ?_⟩
    exact Procedure.bind_ok (by rw [beginScan, hcreate])
  refine ⟨rows, hscan, hat.nodup_last, fun row hrow => ?_, ?_⟩
  · obtain ⟨first, hfirst⟩ := hat.mem_row hrow
    exact hat.setResult_last hfirst
  · cases hat.drain_spec stmt with
    | finished hall hends => exact .finished hall (hlead.ends hends)
    | failed hfail =>
        refine .failed (d := { c with heapFile := hf, iter := it }) rfl
          ((hfail.leads hlead (.of_create hcreate) id).mono (by omega))
    | @threw c' chains' pre suf row e hsplit hpre herror hends hview htreated =>
        have hends := hlead.ends hends
        have hkeeps : ∀ fuel,
            Preserves Cursor.transactionCount (executeUpdate t stmt txId fuel) :=
          fun fuel => beginScan_keeps.bind fun _ => drain_keeps fuel
        have hcount : c'.transactionCount = c.transactionCount := hends.preserves hkeeps
        refine .threw hsplit hpre herror hends fun rows' => ?_
        have hafter := htreated.rows hat.toView hview
        have hnodup := hat.nodup
        rw [hsame, ← hrows, hsplit, map_if_mem (hsplit ▸ hnodup)] at hafter
        rw [hview.readsAfter_iff (by rw [hcount]; exact ⟨hbegun, Nat.lt_irrefl _⟩)]
        exact ⟨hafter.symm.trans, hafter.trans⟩

/-- An UPDATE that throws has no effect exactly if no row before the one it throws at is changed
by it. -/
theorem failed_update_no_effect_iff {message : String}
    (hview : View t (fun x => x < c.transactionCount) txId c chains)
    (hbegun : txId < c.transactionCount)
    (hends : Ends (executeUpdate t stmt txId) c (.error (.queryException message)) c') :
    ∃ rows, ScansAs c.transactions txId c.heapFile rows ∧
      (ReadsAfter c' txId rows ↔
        ∀ row ∈ rows.takeWhile (succeeds t stmt), setResult t stmt row = row) := by
  obtain ⟨rows, hscan, hnodup, hlast, hexecuted⟩ := hview.executeUpdate_spec hbegun stmt
  refine ⟨rows, hscan, ?_⟩
  cases hexecuted with
  | finished _ hends' => cases (hends.unique hends').1
  | failed _ hfail =>
      cases hfail with
      | full hends' => cases (hends.unique hends').1
      | other hbreaks =>
          obtain ⟨e, heq, hother⟩ := hbreaks.of_ends hends
          cases heq
          exact absurd rfl (hother message)
  | @threw c'' pre suf row e hsplit hpre herror hends' hafter =>
      obtain ⟨_, rfl⟩ := hends.unique hends'
      have htake : rows.takeWhile (succeeds t stmt) = pre := by
        rw [hsplit, List.takeWhile_append_of_pos, List.takeWhile_cons_of_neg, List.append_nil]
        · rw [succeeds, herror]
          exact Bool.false_ne_true
        · intro r hr
          obtain ⟨o, ho⟩ := hpre r hr
          rw [succeeds, ho]
          rfl
      rw [htake, hafter, hsplit, List.perm_append_right_iff]
      rw [hsplit] at hnodup hlast
      refine perm_map_iff ?_ fun r hr => hlast r (List.mem_append_left _ hr)
      rw [List.map_append] at hnodup
      exact (List.nodup_append.mp hnodup).1

end Failed

/-! ## A table that has been filled -/

/-- The entries of rows of one integer that transaction 1 has inserted. -/
def entries (is : List Int) : Contents :=
  is.zipIdx.map fun e => some (⟨1, 0, ⟨0, e.2⟩, ⟨0, e.2⟩⟩, [.int e.1])

/-- The entries are all there is in the table. -/
structure Filled (hf : HeapFile) (is : List Int) : Prop where
  valid : hf.Valid
  schema : hf.schema = oneIntColumn.schema
  last : hf.lastInsertPage = 0
  count : hf.pageCount ≤ 1
  contents : ∀ n, hf.contentsOf n = if n = 0 then entries is else []

section Filled

variable {hf : HeapFile} {is : List Int}

theorem filled_create : Filled (HeapFile.create oneIntColumn.schema ⟨3⟩) [] := by
  refine ⟨(HeapFile.create_valid _ _).1, rfl, rfl, Nat.zero_le 1, fun n => ?_⟩
  have hblank : HeapFilePage.Blank ((HeapFile.create oneIntColumn.schema ⟨3⟩).pages n) := rfl
  rw [HeapFile.contentsOf, hblank.contents_eq]
  split <;> rfl

theorem Filled.insert (h : Filled hf is) {room : Nat} (hroom : HasRoom hf room)
    (hlarge : 44 ≤ room) (i : Int) (hi : (Value.int i).Fits) :
    ∃ hf', Filled hf' (is ++ [i]) ∧ HasRoom hf' (room - 44) := by
  have hfits : InsertFits hf.schema ⟨[.int i]⟩ 1 none := by
    rw [h.schema]
    exact ⟨by simpa using hi, oneIntColumn_matches i hi, by norm_num, fun _ h => nomatch h⟩
  obtain ⟨rid, hf', hins, hroom'⟩ :=
    hroom.insertPass hfits (by simpa [HeapFilePage.valueSize] using hlarge)
  obtain ⟨hv', hschema, _⟩ := h.valid.insertPass_ok hfits hins
  obtain ⟨cs, hcs, hrid, hlast, hcount, hcontents⟩ := h.valid.insertPass_place hfits hins
  have hle := h.count
  rw [h.last] at hcs hrid hlast hcount hcontents
  rw [h.contents, if_pos rfl] at hcs
  have hfree : cs.firstFree = is.length := by
    have hlen : is.length = cs.length := by
      rw [← hcs, entries, List.length_map, List.length_zipIdx]
    rw [hlen]
    refine List.findIdx_eq_length_of_false fun e he => ?_
    rw [← hcs] at he
    obtain ⟨_, _, rfl⟩ := List.mem_map.mp he
    rfl
  refine ⟨hf', ⟨hv', hschema.trans h.schema, hlast, by omega, fun n => ?_⟩, ?_⟩
  · rw [hcontents]
    split
    · rename_i hn
      rw [hrid, hfree, Contents.place, if_neg (by rw [← hcs]; simp [entries]), ← hcs, entries,
        entries, List.zipIdx_append, List.map_append]
      simp [Record.stored, Value.isRid]
    · rename_i hn
      rw [h.contents, if_neg hn]
  · simpa [HeapFilePage.valueSize] using hroom'

theorem Filled.slot (h : Filled hf is) {rid : RID} {header : RecordHeader} {values : List Value}
    (hslot : hf.slot rid = some (header, values)) :
    header = ⟨1, 0, rid, rid⟩ := by
  obtain ⟨n, k, rfl, hk⟩ := HeapFile.exists_nat_of_slot hslot
  rw [h.contents] at hk
  split at hk
  · rename_i hn
    subst hn
    rw [entries, List.getElem?_map] at hk
    obtain ⟨e, he, hsome⟩ := Option.map_eq_some_iff.mp hk
    cases hsome
    rw [List.getElem?_zipIdx] at he
    obtain ⟨_, _, rfl⟩ := Option.map_eq_some_iff.mp he
    simp
  · cases hk

/-- Each tuple has one version. -/
def singles (slots : SlotMap) (rid : RID) : List RID := if (slots rid).isSome then [rid] else []

theorem chainRow_singles {slots : SlotMap} {vis : RecordHeader → Bool} {rid : RID}
    {header : RecordHeader} {values : List Value} (hslot : slots rid = some (header, values))
    (hvis : vis header = true) :
    chainRow slots vis (singles slots) rid = some ((⟨values⟩ : Record).pushRid rid) := by
  have hsingle : singles slots rid = [rid] := by
    rw [singles, hslot]
    rfl
  have hfirst : firstShown slots vis [rid] = some rid := by
    rw [firstShown, List.find?_cons, hslot, Option.any_some, hvis]
  rw [chainRow, hsingle, hfirst, Option.bind_some, hslot]
  rfl

theorem Filled.chained (h : Filled hf is) : Chained hf.slot (singles hf.slot) := by
  refine ⟨fun first hne => ?_, fun rid header values hslot => ?_⟩
  · obtain ⟨⟨header, values⟩, hslot⟩ : ∃ e, hf.slot first = some e := by
      refine Option.isSome_iff_exists.mp ?_
      by_contra hnone
      exact hne (if_neg hnone)
    have hheader := h.slot hslot
    rw [singles, hslot, Option.isSome_some, if_pos rfl]
    refine ⟨rfl, List.nodup_singleton _, ⟨header, values, hslot, ?_, .inl ?_⟩, trivial⟩
    · rw [hheader]
    · rw [hheader]
      exact ⟨rfl, rfl⟩
  · rw [h.slot hslot, singles, hslot]
    exact List.mem_singleton_self rid

theorem Filled.view (h : Filled hf is) (it : HeapFileIter) :
    View oneIntColumn (fun x => x < 3) 2 ⟨hf, second, fun _ => none, it, []⟩
      (singles hf.slot) := by
  refine ⟨h.valid, h.schema, second_alone.runs, h.chained,
    { second_alone.writers hf.slot with known := ?_ }⟩
  rintro rid header values x hslot (hx | hx)
  · rw [h.slot hslot] at hx
    exact .inr (.inr (hx ▸ (by norm_num : 1 < 3)))
  · rw [h.slot hslot] at hx
    exact .inl hx.symm

/-- A row of the table, as scans return it. -/
def rowAt (i : Int) (k : Nat) : Record := ⟨[.int i, .rid ⟨0, k⟩]⟩

theorem Filled.rids (h : Filled hf is) {it : HeapFileIter} {hf' : HeapFile}
    (hcreate : HeapFileIter.create hf = .ok (it, hf')) :
    hf'.rids = is.zipIdx.map fun e => (⟨0, e.2⟩ : RID) := by
  obtain ⟨p, hp, hdone⟩ := Outcome.of_bind_ok hcreate
  obtain ⟨hlaid, _⟩ := h.valid.openPage_ok (n := 0) hp
  obtain ⟨_, hfile⟩ := Prod.mk.inj (Except.ok.inj hdone)
  have hcount : hf'.pageCount = 1 := by
    rw [← hfile]
    exact max_eq_right h.count
  have hcontents : hf'.contentsOf 0 = entries is := by
    rw [← hfile, HeapFile.setPage_contentsOf hlaid, if_pos rfl, h.contents, if_pos rfl]
  have hindices : is.zipIdx.map Prod.snd = List.range is.length := by
    rw [List.zipIdx_map_snd, List.range_eq_range']
  rw [HeapFile.rids, hcount, List.range_one, List.flatMap_singleton, HeapFile.ridsOf, hcontents,
    entries, List.length_map, List.length_zipIdx, ← hindices, List.map_map]
  rfl

theorem Filled.scans (h : Filled hf is) :
    ScansAs second 2 hf (is.zipIdx.map fun e => rowAt e.1 e.2) := by
  obtain ⟨it, hf', hcreate, hscan⟩ := h.chained.scan_eq h.valid (isVisible_eq second_alone.runs)
    fun _ _ _ => (h.view ⟨0, 0, -1, false⟩).values_ne_nil
  have hrows : hf'.rids.filterMap (chainRow hf.slot (shows second 2) (singles hf.slot)) =
      is.zipIdx.map fun e => rowAt e.1 e.2 := by
    rw [h.rids hcreate, List.filterMap_map, ← List.filterMap_eq_map]
    refine List.filterMap_congr fun e he => ?_
    have hslot : hf.slot ⟨0, e.2⟩ = some (⟨1, 0, ⟨0, e.2⟩, ⟨0, e.2⟩⟩, [.int e.1]) := by
      have hentry := List.mem_zipIdx_iff_getElem?.mp he
      rw [show (⟨0, e.2⟩ : RID) = ⟨(0 : Nat), e.2⟩ from rfl, HeapFile.slot_nat, h.contents,
        if_pos rfl, entries, List.getElem?_map, List.getElem?_zipIdx, hentry]
      simp
    have hshown : shows second 2 ⟨1, 0, ⟨0, e.2⟩, ⟨0, e.2⟩⟩ = true := by
      simp [shows, TransactionManager.getState, second]
    rw [Function.comp_apply, chainRow_singles hslot hshown]
    rfl
  rwa [hrows] at hscan

end Filled

/-! ## A division by zero -/

theorem intResult_fits {i : Int} {v : Value} (h : intResult i = .ok v) : v.Fits := by
  unfold intResult at h
  split at h
  · rename_i hrange
    cases h
    exact hrange
  · cases h

theorem quotient_fits (record : Record) (v : Value)
    (h : arithmetic .divide (fun _ => .ok (.int 10)) (fun r => QueryIter.valueAt r.values 0)
      record = .ok v) : v.Fits := by
  obtain ⟨a, hten, h⟩ := Outcome.of_bind_ok h
  cases hten
  obtain ⟨b, _, happly⟩ := Outcome.of_bind_ok h
  cases b with
  | int j =>
      simp only [ArithmeticOp.apply] at happly
      split at happly
      · cases happly
      · exact intResult_fits happly
  | string s => cases happly
  | rid r => cases happly

/-- `UPDATE t SET a = 10 / a`. -/
def divideTen : UpdateStatement :=
  ⟨fun _ => .ok true, [⟨0, arithmetic .divide (fun _ => .ok (.int 10))
    (fun r => QueryIter.valueAt r.values 0), quotient_fits⟩]⟩

/-- On the rows 5 and 0 the statement has updated the first when it throws at the second. -/
theorem divideTen_throws : ∃ c chains c',
    View oneIntColumn (fun x => x < c.transactionCount) 2 c chains ∧ 2 < c.transactionCount ∧
      ScansAs c.transactions 2 c.heapFile [rowAt 5 0, rowAt 0 1] ∧
      Ends (executeUpdate oneIntColumn divideTen 2) c
        (.error (.queryException "Division by zero")) c' ∧
      ∀ rows, ReadsAfter c' 2 rows ↔ [rowAt 2 0, rowAt 0 1].Perm rows := by
  obtain ⟨hf₁, h₁, hroom₁⟩ := filled_create.insert (hasRoom_create oneIntColumn.schema ⟨3⟩)
    (by norm_num) 5 (by norm_num [Value.Fits])
  obtain ⟨hf, h, _⟩ := h₁.insert hroom₁ (by norm_num) 0 (by norm_num [Value.Fits])
  have hview := h.view ⟨0, 0, -1, false⟩
  obtain ⟨c, hc⟩ : ∃ c, (⟨hf, second, fun _ => none, ⟨0, 0, -1, false⟩, []⟩ : Cursor) = c :=
    ⟨_, rfl⟩
  have hscan : ScansAs c.transactions 2 c.heapFile [rowAt 5 0, rowAt 0 1] := by
    rw [← hc]
    exact h.scans
  have hcount : c.transactionCount = 3 := by rw [← hc]; rfl
  have hpages : c.heapFile.pageCount ≤ 1 := by
    rw [← hc]
    exact h.count
  have hlocks : c.lockTable = fun _ => none := by rw [← hc]
  rw [hc] at hview
  have hview' : View oneIntColumn (fun x => x < c.transactionCount) 2 c (singles hf.slot) := by
    rw [hcount]
    exact hview
  have hfive : rowOutcome oneIntColumn divideTen (rowAt 5 0) = .ok (some (rowAt 2 0)) := rfl
  have hzero : rowOutcome oneIntColumn divideTen (rowAt 0 1) =
      .error (.queryException "Division by zero") := rfl
  have hbegun : 2 < c.transactionCount := by
    rw [hcount]
    norm_num
  obtain ⟨rows, hscan', _, _, hexecuted⟩ := hview'.executeUpdate_spec hbegun divideTen
  rw [hscan'.unique hscan] at hexecuted
  cases hexecuted with
  | finished hall _ =>
      obtain ⟨o, ho⟩ := hall (rowAt 0 1) (by simp)
      rw [hzero] at ho
      cases ho
  | failed hsame hfail =>
      cases hfail with
      | full _ hfull happends =>
          unfold HeapFile.Full at hfull
          unfold Appends at happends
          simp only [List.length_cons, List.length_nil] at happends
          omega
      | other _ hwhy =>
          rcases hwhy with ⟨first, x, hheld, _⟩ | ⟨row, hrow, updated, houtcome, hbig⟩
          · rw [hsame, hlocks] at hheld
            cases hheld
          · rcases List.mem_cons.mp hrow with rfl | hrow
            · rw [hfive] at houtcome
              cases houtcome
              exact absurd (by unfold HeapFile.FitsFreshPage; decide) hbig
            · rw [List.mem_singleton.mp hrow, hzero] at houtcome
              cases houtcome
  | @threw c' pre suf row e hsplit hpre herror hends hafter =>
      have hpre' : pre = [rowAt 5 0] ∧ row = rowAt 0 1 ∧ suf = [] := by
        rcases pre with _ | ⟨r, _ | ⟨r', pre⟩⟩
        · cases hsplit
          rw [hfive] at herror
          cases herror
        · cases hsplit
          exact ⟨rfl, rfl, rfl⟩
        · simp at hsplit
      obtain ⟨rfl, rfl, rfl⟩ := hpre'
      rw [hzero] at herror
      cases herror
      refine ⟨c, _, c', hview', hbegun, hscan, hends, ?_⟩
      have hresult : setResult oneIntColumn divideTen (rowAt 5 0) = rowAt 2 0 :=
        setResult_some hfive
      rwa [List.map_singleton, hresult] at hafter

theorem failed_update_no_effect_iff_divideTen : ∃ c c' rows,
    Ends (executeUpdate oneIntColumn divideTen 2) c
        (.error (.queryException "Division by zero")) c' ∧
      ScansAs c.transactions 2 c.heapFile rows ∧
      (ReadsAfter c' 2 rows ↔ ∀ row ∈ rows.takeWhile (succeeds oneIntColumn divideTen),
        setResult oneIntColumn divideTen row = row) := by
  obtain ⟨c, chains, c', hview, hbegun, _, hends, _⟩ := divideTen_throws
  obtain ⟨rows, hscan, hiff⟩ := failed_update_no_effect_iff hview hbegun hends
  exact ⟨c, c', rows, hends, hscan, hiff⟩

/-- The row 5 reads 2 after the error and after the COMMIT. -/
theorem failed_update_persists : ∃ c chains c',
    View oneIntColumn (fun x => x < c.transactionCount) 2 c chains ∧
      ScansAs c.transactions 2 c.heapFile [rowAt 5 0, rowAt 0 1] ∧
      Ends (executeUpdate oneIntColumn divideTen 2) c
        (.error (.queryException "Division by zero")) c' ∧
      ReadsAfter c' 2 [rowAt 2 0, rowAt 0 1] ∧ ¬ ReadsAfter c' 2 [rowAt 5 0, rowAt 0 1] := by
  obtain ⟨c, chains, c', hview, _, hscan, hends, hafter⟩ := divideTen_throws
  refine ⟨c, chains, c', hview, hscan, hends, (hafter _).mpr (.refl _), fun hbefore => ?_⟩
  have hmem := ((hafter _).mp hbefore).mem_iff.mp (List.mem_cons_self (a := rowAt 2 0))
  simp [rowAt] at hmem

end Iic3413Db.Mvcc
