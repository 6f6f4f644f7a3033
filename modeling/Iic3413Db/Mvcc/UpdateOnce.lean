/-
  Mvcc/UpdateOnce.lean --- an UPDATE of a transaction that runs alone treats every row it sees
  exactly once.

  Nothing is said of where the page search places the new versions: those a statement writes
  in front of its own scan are no rows of it.
-/
import Iic3413Db.Mvcc.Scan
import Iic3413Db.Mvcc.UpdateDrains
import Iic3413Db.Mvcc.Updates

set_option autoImplicit false

namespace Iic3413Db.Mvcc

open Iic3413Db.Foundation Iic3413Db.RelationalModel Iic3413Db.Storage Iic3413Db.System
  Iic3413Db.Query
open Procedure (Ends)

section Scans

variable {t : TableSchema} {begun : TxID → Prop} {stmt : UpdateStatement} {txId : TxID}
  {c c' : Cursor} {chains chains' : RID → List RID} {done : List Record}

/-- A transaction that is shown the same versions reads the same rows in a full scan. -/
theorem View.scans_as (h : View t begun txId c chains) {tm : TransactionManager} {reader : TxID}
    (hruns : tm.Runs reader .readCommitted)
    (hshows : ∀ rid header values, c.heapFile.slot rid = some (header, values) →
      shows tm reader header = shows c.transactions txId header) :
    ∃ rows, ScansAs tm reader c.heapFile rows ∧
      rows.Perm (c.heapFile.rids.filterMap (viewRows txId c chains)) := by
  obtain ⟨it, hf, hcreate, hscan⟩ := h.chained.scan_eq h.valid (isVisible_eq hruns)
    fun _ _ _ => h.values_ne_nil
  obtain ⟨hv, _, hslot, _⟩ := HeapFileIter.create_ok h.valid hcreate
  have hsame : chainRow c.heapFile.slot (shows tm reader) chains = viewRows txId c chains :=
    funext fun _ => chainRow_congr rfl (fun _ _ => rfl) fun rid _ header values hstored =>
      hshows rid header values hstored
  refine ⟨_, hscan, ?_⟩
  rw [hsame]
  refine perm_filterMap HeapFile.nodup_rids HeapFile.nodup_rids fun rid hsome => ?_
  obtain ⟨e, hstored⟩ := Option.isSome_iff_exists.mp (h.row_stored hsome)
  have hstored' := hstored
  rw [← hslot] at hstored'
  exact iff_of_true (hv.mem_rids hstored') (h.valid.mem_rids hstored)

/-- What the transaction reads in a full scan. -/
theorem View.scans (h : View t begun txId c chains) :
    ∃ rows, ScansAs c.transactions txId c.heapFile rows ∧
      rows.Perm (c.heapFile.rids.filterMap (viewRows txId c chains)) :=
  h.scans_as h.runs fun _ _ _ _ => rfl

/-- A statement's scan begins with all rows to deliver. -/
theorem View.start (h : View t begun txId c chains) {hf : HeapFile} {it : HeapFileIter}
    (hcreate : HeapFileIter.create c.heapFile = .ok (it, hf)) :
    ∃ rows, ScansAs c.transactions txId c.heapFile rows ∧
      rows = hf.rids.filterMap (viewRows txId c chains) ∧
      At t begun txId { c with heapFile := hf, iter := it } chains rows ∧
      viewRows txId { c with heapFile := hf, iter := it } chains = viewRows txId c chains := by
  obtain ⟨it', hf', hcreate', hscan⟩ := h.chained.scan_eq h.valid (isVisible_eq h.runs)
    fun _ _ _ => h.values_ne_nil
  rw [hcreate] at hcreate'
  cases hcreate'
  obtain ⟨hv, hschema, hslot, _⟩ := HeapFileIter.create_ok h.valid hcreate
  obtain ⟨pages, hpages, hat, hrids⟩ := HeapFileIter.create_before h.valid hcreate
  have hchained := h.chained
  have hwriters := h.writers
  rw [← hslot] at hchained hwriters
  have hview : View t begun txId { c with heapFile := hf, iter := it } chains :=
    ⟨hv, hschema.trans h.schema, h.runs, hchained, hwriters⟩
  have hsame : viewRows txId { c with heapFile := hf, iter := it } chains =
      viewRows txId c chains := by
    show chainRow hf.slot _ _ = _
    rw [hslot]
  refine ⟨_, hscan, rfl, ⟨hview, 0, pages, 0, hat, ?_, ?_⟩, hsame⟩
  · show 0 + pages < hf.pageCount
    omega
  · rw [hsame, ← hrids]

/-- Each row that is left has a RID of its own. -/
theorem At.nodup_last {rows : List Record} (h : At t begun txId c chains rows) :
    (rows.map fun row => row.values.getLast?).Nodup := by
  refine List.Nodup.map_on (fun r hr r' hr' heq => ?_) h.nodup
  obtain ⟨f, hf⟩ := h.mem_row hr
  obtain ⟨f', hf'⟩ := h.mem_row hr'
  rw [h.row_last hf, h.row_last hf'] at heq
  cases heq
  exact Option.some.inj (hf.symm.trans hf')

/-- A SET list leaves the RID behind the values. -/
theorem View.assign_last (h : View t begun txId c chains) {first : RID} {row updated : Record}
    {as : List Assignment} (hrow : viewRows txId c chains first = some row)
    (hassign : assign t.schema.columns as row = .ok updated) :
    updated.values.getLast? = row.values.getLast? := by
  obtain ⟨_, _, values, _, _, hslot, _, _, rfl⟩ := h.chained.row_some hrow
  have hmatches := h.valid.matches_stored hslot
  rw [h.schema] at hmatches
  obtain ⟨ws, rfl, _⟩ := assign_ok hmatches hassign
  simp [Record.pushRid]

/-- The rows once those of `done` have been treated. -/
theorem Treated.rows (h : View t begun txId c chains) (h' : View t begun txId c' chains')
    (htreated : Treated t stmt done (viewRows txId c chains) (viewRows txId c' chains')) :
    (c'.heapFile.rids.filterMap (viewRows txId c' chains')).Perm
      ((c.heapFile.rids.filterMap (viewRows txId c chains)).map fun row =>
        if row ∈ done then setResult t stmt row else row) := by
  have hmap : ((c.heapFile.rids.filterMap (viewRows txId c chains)).map fun row =>
      if row ∈ done then setResult t stmt row else row) =
        c.heapFile.rids.filterMap (viewRows txId c' chains') := by
    rw [List.map_filterMap]
    exact List.filterMap_congr fun rid _ => (htreated rid).symm
  rw [hmap]
  refine perm_filterMap HeapFile.nodup_rids HeapFile.nodup_rids fun rid hsome => ?_
  have hbefore : (viewRows txId c chains rid).isSome := by
    rwa [htreated rid, Option.isSome_map] at hsome
  obtain ⟨e, hstored⟩ := Option.isSome_iff_exists.mp (h.row_stored hbefore)
  obtain ⟨e', hstored'⟩ := Option.isSome_iff_exists.mp (h'.row_stored hsome)
  exact iff_of_true (h'.valid.mem_rids hstored') (h.valid.mem_rids hstored)

end Scans

/-! ## A transaction that runs alone -/

/-- No other transaction runs or holds a lock. -/
structure Alone (tm : TransactionManager) (locks : LockTable) (txId : TxID) : Prop where
  bounds : 0 < txId ∧ txId < 2 ^ 64
  runs : tm.Runs txId .readCommitted
  others : ∀ x, x ≠ txId → tm.getState x = .committed
  locks : ∀ first x, locks first = some x → x = txId

/-- The clause accepts the row. -/
def satisfies (stmt : UpdateStatement) (row : Record) : Bool :=
  match stmt.childMatches row with
  | .ok matched => matched
  | .error _ => false

/-- The result of the SET list. -/
def assigned (t : TableSchema) (stmt : UpdateStatement) (row : Record) : Record :=
  match assign t.schema.columns stmt.assignments row with
  | .ok updated => updated
  | .error _ => row

/-- What the statement is to make of a row. -/
def replaced (t : TableSchema) (stmt : UpdateStatement) (row : Record) : Record :=
  if satisfies stmt row then assigned t stmt row else row

/-- The clause reads declared columns, so the RID behind them makes no difference to it; if it
accepts the row, the SET list has a result, which fits on a page. -/
def Evaluates (t : TableSchema) (stmt : UpdateStatement) (row : Record) : Prop :=
  ∃ matched, stmt.childMatches row = .ok matched ∧
    stmt.childMatches ⟨row.values.dropLast⟩ = .ok matched ∧
    (matched = true → ∃ updated, assign t.schema.columns stmt.assignments row = .ok updated ∧
      HeapFile.FitsFreshPage updated)

/-- The statement has treated `rows`, each once. -/
structure UpdatedOnce (t : TableSchema) (stmt : UpdateStatement) (txId : TxID) (c' : Cursor)
    (out rows : List Record) : Prop where
  visited : c'.visited = rows
  returned : out = (rows.filter (satisfies stmt)).map fun row =>
    ⟨(assigned t stmt row).values.dropLast⟩
  after : ∃ rows', ScansAs c'.transactions txId c'.heapFile rows' ∧
    rows'.Perm (rows.map (replaced t stmt)) ∧
    (rows'.map fun row => row.values.getLast?).Perm (rows.map fun row => row.values.getLast?)

section Alone

variable {t : TableSchema} {stmt : UpdateStatement} {tm : TransactionManager} {locks : LockTable}
  {txId : TxID} {row : Record} {rows : List Record}

theorem Alone.own (h : Alone tm locks txId) {x : TxID} (hactive : tm.getState x = .active) :
    x = txId := by
  by_contra hother
  rw [h.others x hother] at hactive
  cases hactive

theorem Alone.writers (h : Alone tm locks txId) (slots : SlotMap) :
    Writers tm locks (fun _ => True) txId slots where
  bounds := h.bounds
  known _ _ _ _ _ _ := .inr (.inr trivial)
  zero hactive := Nat.ne_of_gt h.bounds.1 (h.own hactive).symm
  one _ _ _ _ _ _ _ _ _ _ _ _ _ hx hx' := (h.own hx).trans (h.own hx').symm
  ordered _ _ _ _ hother hactive := absurd (h.own hactive) hother
  locked _ _ _ _ _ hother hactive := absurd (h.own hactive) hother

theorem Evaluates.outcome (h : Evaluates t stmt row) :
    satisfies stmt row = true ∧ rowOutcome t stmt row = .ok (some (assigned t stmt row)) ∧
        HeapFile.FitsFreshPage (assigned t stmt row) ∨
      satisfies stmt row = false ∧ rowOutcome t stmt row = .ok none := by
  obtain ⟨matched, hchild, hstored, hset⟩ := h
  cases matched with
  | false =>
      right
      simp only [satisfies, rowOutcome, hchild, Outcome.ok_bind]
      exact ⟨trivial, rfl⟩
  | true =>
      obtain ⟨updated, hassign, hfits⟩ := hset rfl
      left
      simp only [satisfies, rowOutcome, assigned, hchild, hstored, hassign, Outcome.ok_bind,
        if_true]
      exact ⟨trivial, trivial, hfits⟩

theorem Evaluates.setResult_eq (h : Evaluates t stmt row) :
    setResult t stmt row = replaced t stmt row := by
  unfold replaced
  rcases h.outcome with ⟨hyes, houtcome, _⟩ | ⟨hno, houtcome⟩
  · rw [hyes, setResult_some houtcome]
    rfl
  · rw [hno, setResult_none houtcome]
    rfl

theorem returned_eq (h : ∀ r ∈ rows, Evaluates t stmt r) :
    returned t stmt rows = (rows.filter (satisfies stmt)).map fun row =>
      ⟨(assigned t stmt row).values.dropLast⟩ := by
  induction rows with
  | nil => rfl
  | cons row rows ih =>
      obtain ⟨hrow, hrows⟩ := List.forall_mem_cons.mp h
      rw [returned] at ih ⊢
      rcases hrow.outcome with ⟨hyes, houtcome, _⟩ | ⟨hno, houtcome⟩
      · rw [List.filterMap_cons_some (by rw [houtcome]), List.filter_cons_of_pos hyes,
          List.map_cons, ih hrows]
      · rw [List.filterMap_cons_none (by rw [houtcome]),
          List.filter_cons_of_neg (by rw [hno]; exact Bool.false_ne_true), ih hrows]

/-- The statement leaves the RID behind the values. -/
theorem View.replaced_last {begun : TxID → Prop} {c : Cursor} {chains : RID → List RID}
    {first : RID} (h : View t begun txId c chains)
    (hrow : viewRows txId c chains first = some row) :
    (replaced t stmt row).values.getLast? = row.values.getLast? := by
  unfold replaced assigned
  split
  · split
    · rename_i updated hassign
      exact h.assign_last hrow hassign
    · rfl
  · rfl

variable {hf hf' : HeapFile} {it : HeapFileIter}

/-- Draining an UPDATE of a lone transaction, from any well-formed chains: each row it saw is
there once, replaced where it satisfies the clause, unless the file cannot grow any more. -/
theorem update_visits_once (stmt : UpdateStatement) (hvalid : hf.Valid)
    (hschema : hf.schema = t.schema) (hchains : WellFormed hf.slot) (halone : Alone tm locks txId)
    (hcreate : HeapFileIter.create hf = .ok (it, hf'))
    (hstmt : ∀ rows, ScansAs tm txId hf rows → ∀ row ∈ rows, Evaluates t stmt row) :
    ∃ rows, ScansAs tm txId hf rows ∧ (rows.map fun row => row.values.getLast?).Nodup ∧
      ((∃ c' out, Ends (drain t stmt txId) ⟨hf', tm, locks, it, []⟩ (.ok out) c' ∧
          UpdatedOnce t stmt txId c' out rows) ∨
        ∃ c', Ends (drain t stmt txId) ⟨hf', tm, locks, it, []⟩
            (.error (.runtimeError "Could not write into file")) c' ∧ c'.heapFile.Full) := by
  obtain ⟨chains, hchained⟩ := hchains.exists_chained rfl
  have hview : View t (fun _ => True) txId ⟨hf, tm, locks, it, []⟩ chains :=
    ⟨hvalid, hschema, halone.runs, hchained, halone.writers hf.slot⟩
  obtain ⟨rows, hscan, hrows, hat, hsame⟩ := hview.start hcreate
  have heval := hstmt rows hscan
  obtain ⟨c, hc⟩ : ∃ c, (⟨hf', tm, locks, it, []⟩ : Cursor) = c := ⟨_, rfl⟩
  have hvisited : c.visited = [] := by
    rw [← hc]
  have hfile : c.heapFile = hf' := by
    rw [← hc]
  have hlocks : c.lockTable = locks := by
    rw [← hc]
  change At t (fun _ => True) txId ⟨hf', tm, locks, it, []⟩ chains rows at hat
  change viewRows txId ⟨hf', tm, locks, it, []⟩ chains = _ at hsame
  rw [hc] at hat hsame ⊢
  refine ⟨rows, hscan, hat.nodup_last, ?_⟩
  · cases hat.drain_spec stmt with
    | @finished c' chains' _ hends hview' htreated hseen =>
        refine .inl ⟨c', _, hends, ?_, returned_eq heval, ?_⟩
        · rw [hseen, hvisited, List.nil_append]
        · obtain ⟨rows', hscan', hperm⟩ := hview'.scans
          have hreplaced := hperm.trans (htreated.rows hat.toView hview')
          rw [hfile, hsame, ← hrows] at hreplaced
          have heq : (rows.map fun row => if row ∈ rows then setResult t stmt row else row) =
              rows.map (replaced t stmt) :=
            List.map_congr_left fun r hr => by rw [if_pos hr, (heval r hr).setResult_eq]
          rw [heq] at hreplaced
          refine ⟨rows', hscan', hreplaced, (hreplaced.map _).trans (.of_eq ?_)⟩
          rw [List.map_map]
          refine List.map_congr_left fun r hr => ?_
          obtain ⟨f, hf⟩ := hat.mem_row hr
          exact hat.replaced_last hf
    | @threw _ _ _ _ row _ hsplit _ herror _ _ _ =>
        have hmem : row ∈ rows := by
          rw [hsplit]
          exact List.mem_append_right _ List.mem_cons_self
        rcases (heval row hmem).outcome with ⟨_, houtcome, _⟩ | ⟨_, houtcome⟩
        · rw [houtcome] at herror
          cases herror
        · rw [houtcome] at herror
          cases herror
    | failed hfail =>
        cases hfail with
        | full hends hfull _ => exact .inr ⟨_, hends, hfull⟩
        | other _ hwhy =>
            rcases hwhy with ⟨first, x, hheld, hother⟩ | ⟨row, hmem, updated, houtcome, hbig⟩
            · rw [hlocks] at hheld
              exact absurd (halone.locks first x hheld) hother
            · rcases (heval row hmem).outcome with ⟨_, houtcome', hfits⟩ | ⟨_, houtcome'⟩
              · rw [houtcome] at houtcome'
                cases houtcome'
                exact absurd hfits hbig
              · rw [houtcome] at houtcome'
                cases houtcome'

end Alone

/-! ## A table that has been filled -/

/-- Slots that hold one version of each tuple. -/
theorem wellFormed_of_single {slots : SlotMap}
    (h : ∀ rid header values, slots rid = some (header, values) →
      header.first = rid ∧ header.next = rid ∧ header.tMax = 0) : WellFormed slots := by
  intro rid header values hslot
  obtain ⟨hfirst, hnext, hlive⟩ := h rid header values hslot
  refine ⟨[rid], ⟨by rw [hfirst]; rfl, List.nodup_singleton _, ?_⟩, List.mem_singleton_self _⟩
  exact ⟨⟨header, values, hslot, rfl, .inl ⟨hlive, hnext⟩⟩, trivial⟩

/-- Another row of one integer, which transaction 1 has inserted. -/
theorem HasRoom.insertInt {hf : HeapFile} {room : Nat} (h : HasRoom hf room) (hv : hf.Valid)
    (hschema : hf.schema = oneIntColumn.schema) (hlarge : 44 ≤ room) (i : Int)
    (hi : (Value.int i).Fits) :
    ∃ rid hf', hf'.Valid ∧ hf'.schema = oneIntColumn.schema ∧ hf.slot rid = none ∧
      hf'.slot = Function.update hf.slot rid (some (⟨1, 0, rid, rid⟩, [.int i])) ∧
      HasRoom hf' (room - 44) := by
  have hfits : InsertFits hf.schema ⟨[.int i]⟩ 1 none := by
    rw [hschema]
    exact ⟨by simpa using hi, oneIntColumn_matches i hi, by norm_num, fun _ h => nomatch h⟩
  obtain ⟨rid, hf', hins, hroom⟩ :=
    h.insertPass hfits (by simpa [HeapFilePage.valueSize] using hlarge)
  obtain ⟨hv', hschema', ⟨hnone, _⟩ | ⟨_, hrid, hfree, hslot⟩⟩ := hv.insertPass_ok hfits hins
  · cases hnone
  · cases hrid
    exact ⟨rid, hf', hv', hschema'.trans hschema, hfree, hslot, by
      simpa [HeapFilePage.valueSize] using hroom⟩

/-- Transaction 2, after the one that filled the table. -/
def second : TransactionManager :=
  ⟨3, fun x => if x = 2 then some ⟨.readCommitted, [], .active⟩ else none⟩

theorem second_alone : Alone second (fun _ => none) 2 where
  bounds := by norm_num
  runs := ⟨_, rfl, rfl, rfl⟩
  others x hx := by simp [TransactionManager.getState, second, hx]
  locks _ _ h := nomatch h

/-- A row of the table, whatever transaction reads it. -/
theorem View.scan_row {t : TableSchema} {begun : TxID → Prop} {txId : TxID} {c : Cursor}
    {chains : RID → List RID}
    (h : View t begun txId c chains) {rows : List Record}
    (hscan : ScansAs c.transactions txId c.heapFile rows) {row : Record} (hrow : row ∈ rows) :
    ∃ values first, Matches t.schema.columns values ∧ row = (⟨values⟩ : Record).pushRid first := by
  obtain ⟨rows', hscan', hperm⟩ := h.scans
  rw [hscan.unique hscan'] at hrow
  obtain ⟨first, _, hfirst⟩ := List.mem_filterMap.mp (hperm.mem_iff.mp hrow)
  obtain ⟨_, _, values, _, _, hslot, _, _, rfl⟩ := h.chained.row_some hfirst
  exact ⟨values, first, h.schema ▸ h.valid.matches_stored hslot, rfl⟩

/-- `UPDATE t SET a = 6` on a table with the row 5. -/
theorem update_visits_once_oneRow : ∃ hf hf' it rows,
    hf.slot ≠ (fun _ => none) ∧ HeapFileIter.create hf = .ok (it, hf') ∧
      ScansAs second 2 hf rows ∧
      ((∃ c' out, Ends (drain oneIntColumn setToSix 2) ⟨hf', second, fun _ => none, it, []⟩
            (.ok out) c' ∧ UpdatedOnce oneIntColumn setToSix 2 c' out rows) ∨
        ∃ c', Ends (drain oneIntColumn setToSix 2) ⟨hf', second, fun _ => none, it, []⟩
            (.error (.runtimeError "Could not write into file")) c' ∧ c'.heapFile.Full) := by
  obtain ⟨hv₀, hempty⟩ := HeapFile.create_valid oneIntColumn.schema ⟨3⟩
  obtain ⟨first, hf, hv, hschema, _, hslot, _⟩ :=
    (hasRoom_create oneIntColumn.schema ⟨3⟩).insertInt hv₀ rfl (by norm_num) 5
      (by norm_num [Value.Fits])
  have hsingle : WellFormed hf.slot := by
    refine wellFormed_of_single fun rid header values hrid => ?_
    rw [hslot] at hrid
    by_cases heq : rid = first
    · rw [heq, Function.update_self] at hrid
      cases hrid
      exact ⟨heq.symm, heq.symm, rfl⟩
    · rw [Function.update_of_ne heq, hempty] at hrid
      cases hrid
  obtain ⟨it, hf', hcreate⟩ := HeapFileIter.create_eq hv
  obtain ⟨rows, hscan, _, hdone⟩ := update_visits_once setToSix hv hschema hsingle second_alone
    hcreate fun rows hscan row hrow => by
      obtain ⟨chains, hchained⟩ := hsingle.exists_chained rfl
      have hview : View oneIntColumn (fun _ => True) 2 ⟨hf, second, fun _ => none, it, []⟩ chains :=
        ⟨hv, hschema, second_alone.runs, hchained, second_alone.writers hf.slot⟩
      obtain ⟨values, rid, hmatches, rfl⟩ := hview.scan_row hscan hrow
      obtain ⟨v, rfl⟩ := List.length_eq_one_iff.mp (TableSchema.length_of_matches hmatches)
      refine ⟨true, rfl, rfl, fun _ => ⟨⟨[.int 6, .rid rid]⟩, rfl, ?_⟩⟩
      unfold HeapFile.FitsFreshPage
      simp [valuesSize, HeapFilePage.valueSize]
  refine ⟨hf, hf', it, rows, fun hnone => ?_, hcreate, hscan, hdone⟩
  have hthere := congrFun hnone first
  rw [hslot, Function.update_self] at hthere
  cases hthere

end Iic3413Db.Mvcc
