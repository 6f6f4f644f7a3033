/-
  Mvcc/UpdateDrains.lean --- what draining an `UpdateIter` does, row by row.

  `At` says which rows the statement's scan has not delivered.  A row that is left is one of
  these whatever the statement has written, since new versions start no tuple.  Each call is
  described by the rows it takes off that list: `childNext` stops at a row of the WHERE clause,
  `updateNext` at one it has updated, and `drain` at the end.
-/
import Iic3413Db.Mvcc.TableViews

set_option autoImplicit false

namespace Iic3413Db.Mvcc

open Iic3413Db.Foundation Iic3413Db.RelationalModel Iic3413Db.Storage Iic3413Db.System
  Iic3413Db.Query
open Iic3413Db.Storage.HeapFile (Stores Grows)
open Procedure (Ends Breaks Leads bind_ok bind_error ofExcept ofLoop ofExcept_eq ofLoop_ok)

/-! ## Rows and positions -/

/-- What the statement makes of a row of its scan: nothing, or the record it writes. -/
def rowOutcome (t : TableSchema) (stmt : UpdateStatement) (row : Record) :
    Outcome (Option Record) := do
  if ← stmt.childMatches row then
    if ← stmt.childMatches ⟨row.values.dropLast⟩ then
      let updated ← assign t.schema.columns stmt.assignments row
      .ok (some updated)
    else .ok none
  else .ok none

/-- The row once the statement is done with it. -/
def setResult (t : TableSchema) (stmt : UpdateStatement) (row : Record) : Record :=
  match rowOutcome t stmt row with
  | .ok (some updated) => updated
  | _ => row

/-- The scan has still to deliver `rows`. -/
structure At (t : TableSchema) (begun : TxID → Prop) (txId : TxID) (c : Cursor)
    (chains : RID → List RID) (rows : List Record) : Prop extends View t begun txId c chains where
  left : ∃ n m k, c.iter = HeapFileIter.before n m k ∧ n + m < c.heapFile.pageCount ∧
    (HeapFileIter.rest c.heapFile n m k).filterMap (viewRows txId c chains) = rows

/-- The cursor once the scan has delivered `rows` more. -/
def Cursor.moved (c : Cursor) (iter : HeapFileIter) (rows : List Record) : Cursor :=
  { c with iter := iter, visited := c.visited ++ rows }

section Positions

variable {t : TableSchema} {begun : TxID → Prop} {stmt : UpdateStatement} {txId : TxID}
  {c c' : Cursor} {chains chains' : RID → List RID} {row : Record} {rows : List Record}
  {first : RID}
  {iter iter' : HeapFileIter}

theorem Cursor.moved_moved (rows rows' : List Record) :
    (c.moved iter rows).moved iter' rows' = c.moved iter' (rows ++ rows') := by
  simp only [Cursor.moved, List.append_assoc]

theorem View.moved (h : View t begun txId c chains) (iter : HeapFileIter) (rows : List Record) :
    View t begun txId (c.moved iter rows) chains :=
  ⟨h.valid, h.schema, h.runs, h.chained, h.writers⟩

theorem View.row_last (h : View t begun txId c chains)
    (hrow : viewRows txId c chains first = some row) : row.values.getLast? = some (.rid first) :=
  h.chained.row_last hrow

theorem View.row_valid (h : View t begun txId c chains)
    (hrow : viewRows txId c chains first = some row) : row.invalid = false :=
  h.chained.row_valid hrow

/-- A row that is left is some tuple's. -/
theorem At.mem_row (h : At t begun txId c chains rows) (hmem : row ∈ rows) :
    ∃ first, viewRows txId c chains first = some row := by
  obtain ⟨n, m, k, _, _, rfl⟩ := h.left
  obtain ⟨first, _, hrow⟩ := List.mem_filterMap.mp hmem
  exact ⟨first, hrow⟩

theorem At.nodup (h : At t begun txId c chains rows) : rows.Nodup := by
  obtain ⟨n, m, k, _, _, rfl⟩ := h.left
  refine HeapFileIter.nodup_rest.filterMap fun f f' r hf hf' => ?_
  have hlast := (h.row_last hf).symm.trans (h.row_last hf')
  cases hlast
  rfl

/-- And no other that is left is the same tuple's. -/
theorem At.split (h : At t begun txId c chains rows) {pre suf : List Record}
    (hsplit : rows = pre ++ row :: suf) :
    ∃ first, viewRows txId c chains first = some row ∧
      ∀ r ∈ pre ++ suf, r.values.getLast? ≠ some (.rid first) := by
  have hnodup := h.nodup
  rw [hsplit, List.nodup_middle] at hnodup
  obtain ⟨first, hrow⟩ := h.mem_row (show row ∈ rows by rw [hsplit]; simp)
  refine ⟨first, hrow, fun r hr hlast => ?_⟩
  have hmem : r ∈ rows := by
    rw [hsplit]
    rcases List.mem_append.mp hr with hr | hr
    · exact List.mem_append_left _ hr
    · exact List.mem_append_right _ (List.mem_cons_of_mem _ hr)
  obtain ⟨f, hf⟩ := h.mem_row hmem
  have hsame := (h.row_last hf).symm.trans hlast
  cases hsame
  rw [hrow] at hf
  cases hf
  exact (List.nodup_cons.mp hnodup).1 hr

/-- A change of state that shows the same rows. -/
theorem At.congr (h : At t begun txId c chains rows) (hview : View t begun txId c' chains)
    (hfile : c'.heapFile = c.heapFile) (hiter : c'.iter = c.iter)
    (hrows : viewRows txId c' chains = viewRows txId c chains) :
    At t begun txId c' chains rows := by
  obtain ⟨n, m, k, hat, hlt, hrest⟩ := h.left
  exact ⟨hview, n, m, k, hiter.trans hat, hfile ▸ hlt, by rw [hfile, hrows, hrest]⟩

/-- An update of a tuple the scan has passed. -/
theorem At.write (h : At t begun txId c chains rows) (hview : View t begun txId c' chains')
    (hgrows : Grows c.heapFile c'.heapFile) (hiter : c'.iter = c.iter)
    (hrow : viewRows txId c chains first = some row) {updated : Record}
    (hrows : viewRows txId c' chains' =
      Function.update (viewRows txId c chains) first (some updated))
    (hpassed : ∀ r ∈ rows, r.values.getLast? ≠ some (.rid first)) :
    At t begun txId c' chains' rows := by
  obtain ⟨n, m, k, hat, hlt, hrest⟩ := h.left
  refine ⟨hview, n, m, k, hiter.trans hat, Nat.lt_of_lt_of_le hlt hgrows.count, ?_⟩
  have hstored : ∀ rid, (viewRows txId c' chains' rid).isSome → (c.heapFile.slot rid).isSome := by
    intro rid hsome
    by_cases hrid : rid = first
    · rw [hrid]
      exact h.row_stored (Option.isSome_of_eq_some hrow)
    · rw [hrows, Function.update_of_ne hrid] at hsome
      exact h.row_stored hsome
  rw [HeapFileIter.filterMap_rest_grows hgrows hstored, ← hrest, hrows]
  refine List.filterMap_congr fun rid hrid => Function.update_of_ne ?_ ..
  rintro rfl
  refine hpassed row ?_ (h.row_last hrow)
  rw [← hrest]
  exact List.mem_filterMap.mpr ⟨rid, hrid, hrow⟩

/-! ## The scan -/

/-- With enough fuel for the chains, each slot is visited to the row of its tuple. -/
theorem View.visits (h : View t begun txId c chains) {fuel : Nat}
    (hfuel : 2 * c.heapFile.rids.length ≤ fuel) :
    HeapFileIter.Visits c.heapFile c.transactions txId fuel (viewRows txId c chains) := by
  intro n i hi
  exact h.chained.visit_eq h.valid (isVisible_eq h.runs) (fun _ _ _ => h.values_ne_nil) hfuel hi

theorem At.relationNext_nil (h : At t begun txId c chains []) :
    ∃ it, Ends (relationNext txId) c (.ok Record.empty) (c.moved it []) := by
  obtain ⟨n, m, k, hat, hlt, hrest⟩ := h.left
  rcases HeapFileIter.next_spec c.transactions txId (viewRows txId c chains) h.valid _ n m k
      (le_refl _) hlt with ⟨_, it, hnext⟩ | ⟨_, _, _, _, hcons, _⟩
  · refine ⟨it, max (HeapFileIter.weight c.heapFile n m k) (2 * c.heapFile.rids.length),
      fun fuel hfuel => ?_⟩
    have hcall := hnext fuel fuel (h.visits (by omega)) (by omega)
    simp only [relationNext, hat, hcall, Cursor.moved, List.append_nil]
    rfl
  · rw [hrest] at hcons
    cases hcons

theorem At.relationNext_cons (h : At t begun txId c chains (row :: rows)) :
    ∃ it, At t begun txId (c.moved it [row]) chains rows ∧
      Ends (relationNext txId) c (.ok row) (c.moved it [row]) := by
  obtain ⟨n, m, k, hat, hlt, hrest⟩ := h.left
  obtain ⟨first, hrow⟩ := h.mem_row List.mem_cons_self
  rcases HeapFileIter.next_spec c.transactions txId (viewRows txId c chains) h.valid _ n m k
      (le_refl _) hlt with ⟨hnil, _⟩ | ⟨record, n', m', k', hcons, hnext, hsum, _⟩
  · rw [hrest] at hnil
    cases hnil
  · rw [hrest] at hcons
    cases hcons
    refine ⟨_, ⟨h.toView.moved _ _, n', m', k', rfl, hsum ▸ hlt, rfl⟩,
      max (HeapFileIter.weight c.heapFile n m k) (2 * c.heapFile.rids.length),
      fun fuel hfuel => ?_⟩
    have hcall := hnext fuel fuel (h.visits (by omega)) (by omega)
    simp only [relationNext, hat, hcall, h.row_valid hrow, Bool.false_eq_true, if_false]
    rfl

/-! ## The WHERE clause -/

/-- `childNext` once the scan has returned. -/
theorem childNext_leads (hnext : Ends (relationNext txId) c (.ok row) c') :
    Leads (childNext stmt txId) c (fun fuel =>
      if row.invalid then pure Record.empty
      else do
        if ← ofExcept fun _ => stmt.childMatches row then pure row
        else childNext stmt txId fuel) c' :=
  Leads.trans (y := fun fuel => do
      let current ← relationNext txId fuel
      if current.invalid then pure Record.empty
      else if ← ofExcept fun _ => stmt.childMatches current then pure current
      else childNext stmt txId fuel) (.of_succ fun _ => rfl) hnext.bind

theorem childNext_end (hnext : Ends (relationNext txId) c (.ok Record.empty) c') :
    Ends (childNext stmt txId) c (.ok Record.empty) c' :=
  (childNext_leads hnext).ends (.of_eq fun _ => rfl)

theorem childNext_matched (hnext : Ends (relationNext txId) c (.ok row) c')
    (hvalid : row.invalid = false) (hmatch : stmt.childMatches row = .ok true) :
    Ends (childNext stmt txId) c (.ok row) c' := by
  have htest : ofExcept (fun _ => stmt.childMatches row) c' = (some (.ok true), c') :=
    ofExcept_eq hmatch
  refine (childNext_leads hnext).ends (.of_eq fun fuel => ?_)
  rw [hvalid]
  exact bind_ok htest

theorem childNext_skip (hnext : Ends (relationNext txId) c (.ok row) c')
    (hvalid : row.invalid = false) (hmatch : stmt.childMatches row = .ok false) :
    Leads (childNext stmt txId) c (childNext stmt txId) c' := by
  have htest : ofExcept (fun _ => stmt.childMatches row) c' = (some (.ok false), c') :=
    ofExcept_eq hmatch
  refine (childNext_leads hnext).trans ⟨0, 0, fun fuel _ => ?_⟩
  rw [hvalid]
  exact bind_ok htest

theorem childNext_threw {e : Fault} (hnext : Ends (relationNext txId) c (.ok row) c')
    (hvalid : row.invalid = false) (hmatch : stmt.childMatches row = .error e) :
    Ends (childNext stmt txId) c (.error e) c' := by
  have htest : ofExcept (fun _ => stmt.childMatches row) c' = (some (.error e), c') :=
    ofExcept_eq hmatch
  refine (childNext_leads hnext).ends (.of_eq fun fuel => ?_)
  rw [hvalid]
  exact bind_error htest

/-- `childNext` skips the rows the clause rejects. -/
theorem At.childNext_spec (h : At t begun txId c chains rows) (stmt : UpdateStatement) :
    ((∀ r ∈ rows, stmt.childMatches r = .ok false) ∧
      ∃ it, Ends (childNext stmt txId) c (.ok Record.empty) (c.moved it rows)) ∨
    ∃ pre row suf it, rows = pre ++ row :: suf ∧ (∀ r ∈ pre, stmt.childMatches r = .ok false) ∧
      At t begun txId (c.moved it (pre ++ [row])) chains suf ∧
      (stmt.childMatches row = .ok true ∧
          Ends (childNext stmt txId) c (.ok row) (c.moved it (pre ++ [row])) ∨
        ∃ e, stmt.childMatches row = .error e ∧
          Ends (childNext stmt txId) c (.error e) (c.moved it (pre ++ [row]))) := by
  induction rows generalizing c with
  | nil =>
      obtain ⟨it, hnext⟩ := h.relationNext_nil
      exact .inl ⟨List.forall_mem_nil _, it, childNext_end hnext⟩
  | cons row rows ih =>
      obtain ⟨it, hat, hnext⟩ := h.relationNext_cons
      obtain ⟨first, hrow⟩ := h.mem_row List.mem_cons_self
      have hvalid := h.row_valid hrow
      cases hmatch : stmt.childMatches row with
      | error e =>
          exact .inr ⟨[], row, rows, it, rfl, List.forall_mem_nil _, hat,
            .inr ⟨e, hmatch, childNext_threw hnext hvalid hmatch⟩⟩
      | ok matched =>
          cases matched with
          | true =>
              exact .inr ⟨[], row, rows, it, rfl, List.forall_mem_nil _, hat,
                .inl ⟨hmatch, childNext_matched hnext hvalid hmatch⟩⟩
          | false =>
              have hskip := childNext_skip hnext hvalid hmatch
              rcases ih hat with ⟨hall, it', hends⟩ | ⟨pre, r, suf, it', hsplit, hpre, hat', hends⟩
              · rw [Cursor.moved_moved] at hends
                exact .inl ⟨List.forall_mem_cons.mpr ⟨hmatch, hall⟩, it', hskip.ends hends⟩
              · rw [Cursor.moved_moved] at hat' hends
                refine .inr ⟨row :: pre, r, suf, it', by rw [hsplit, List.cons_append],
                  List.forall_mem_cons.mpr ⟨hmatch, hpre⟩, hat', ?_⟩
                rcases hends with ⟨htrue, hends⟩ | ⟨e, herror, hends⟩
                · exact .inl ⟨htrue, hskip.ends hends⟩
                · exact .inr ⟨e, herror, hskip.ends hends⟩

/-! ## Writing a version -/

/-- From `c` to `c'` the file has got no more than `pages` pages. -/
def Appends (pages : Nat) (c c' : Cursor) : Prop :=
  c'.heapFile.pageCount ≤ c.heapFile.pageCount + pages

/-- The size of the file cuts the call short, after no more than `pages` pages, or another error
does, for the reason `why`. -/
inductive Failure {α : Type} (x : Nat → Call α) (c : Cursor) (pages : Nat) (why : Prop) : Prop
  | full {c' : Cursor} : Ends x c (.error (.runtimeError "Could not write into file")) c' →
      c'.heapFile.Full → Appends pages c c' → Failure x c pages why
  | other : Breaks x c (fun e => ∀ message, e ≠ .queryException message) → why →
      Failure x c pages why

section Failures

variable {α β : Type} {x y : Nat → Call α} {c'' : Cursor} {pages pages' : Nat} {why why' : Prop}

theorem Appends.of_eq (h : c'.heapFile = c.heapFile) : Appends 0 c c' := by
  rw [Appends, h]
  omega

theorem Appends.of_create {hf : HeapFile} {iter : HeapFileIter}
    (h : HeapFileIter.create c.heapFile = .ok (iter, hf)) :
    Appends 1 c { c with heapFile := hf, iter := iter } := by
  obtain ⟨p, _, h⟩ := Outcome.of_bind_ok h
  cases h
  show max c.heapFile.pageCount 1 ≤ c.heapFile.pageCount + 1
  omega

theorem Appends.trans (h : Appends pages c c') (h' : Appends pages' c' c'') :
    Appends (pages + pages') c c'' := by
  unfold Appends at *
  omega

theorem Failure.leads (h : Leads x c y c') (hpages : Appends pages c c')
    (hy : Failure y c' pages' why) (himp : why → why') : Failure x c (pages + pages') why' := by
  cases hy with
  | full hends hfull happends => exact .full (h.ends hends) hfull (hpages.trans happends)
  | other hbreaks hwhy => exact .other (h.breaks hbreaks) (himp hwhy)

theorem Failure.mono (h : Failure x c pages why) (hle : pages ≤ pages') :
    Failure x c pages' why := by
  cases h with
  | full hends hfull happends =>
      refine .full hends hfull ?_
      unfold Appends at *
      omega
  | other hbreaks hwhy => exact .other hbreaks hwhy

theorem Failure.bind (h : Failure x c pages why) (f : Nat → α → Call β) :
    Failure (fun fuel => x fuel >>= f fuel) c pages why := by
  cases h with
  | full hends hfull happends => exact .full hends.bind_error hfull happends
  | other hbreaks hwhy => exact .other hbreaks.bind hwhy

end Failures

/-- `insert_record` for a new version. -/
theorem insertVersion_spec {updated : Record} (hv : c.heapFile.Valid)
    (hfits : InsertFits c.heapFile.schema updated txId (some first)) :
    (∃ new hf, Ends (fun fuel => insertVersion fuel updated txId first) c (.ok new)
        { c with heapFile := hf } ∧ Appends 1 c { c with heapFile := hf } ∧
      Stores c.heapFile new (⟨txId, 0, new, first⟩, updated.stored) hf) ∨
    Failure (fun fuel => insertVersion fuel updated txId first) c 1
      (¬ HeapFile.FitsFreshPage updated) := by
  have hends : ∀ {passes : Nat} {r : Outcome RID} {hf : HeapFile},
      HeapFile.insertRecord updated txId (some first) passes c.heapFile = (some r, hf) →
      Ends (fun fuel => insertVersion fuel updated txId first) c r { c with heapFile := hf } := by
    intro passes r hf hrun
    refine ⟨passes, fun fuel hfuel => ?_⟩
    show insertVersion fuel updated txId first c = _
    rw [insertVersion, HeapFile.insertRecord_mono hfuel hrun]
  by_cases hfresh : HeapFile.FitsFreshPage updated
  · -- a record that fits a fresh page gets no further than there
    obtain ⟨passes, hpasses⟩ : ∃ passes,
        c.heapFile.pageCount - c.heapFile.lastInsertPage + 1 = passes := ⟨_, rfl⟩
    have hcount : (HeapFile.insertRecord updated txId (some first) passes c.heapFile).2.pageCount ≤
        max c.heapFile.pageCount (c.heapFile.lastInsertPage + passes) :=
      HeapFile.insertRecord_count passes
    have hlast := hv.last
    have hpages : ∀ {r : Outcome RID} {hf : HeapFile},
        HeapFile.insertRecord updated txId (some first) passes c.heapFile = (some r, hf) →
        Appends 1 c { c with heapFile := hf } := by
      intro r hf hrun
      rw [hrun] at hcount
      exact hcount.trans (by omega)
    have hsure := (HeapFile.insertEnds_iff hv hfits).mpr (.inl hfresh)
    unfold HeapFile.InsertEnds at hsure
    rw [hpasses] at hsure
    rcases hv.insertRecord_cases hfits passes with
      hnone | ⟨e, hf, hrun, hbounds | ⟨rfl, hfull⟩⟩ | ⟨new, hf, hrun, hstores⟩
    · rcases hsure with ⟨rid, hf', hrun', _⟩ | ⟨e, hf', hrun', _⟩
      · rw [hrun'] at hnone
        cases hnone
      · rw [hrun'] at hnone
        cases hnone
    · rcases hsure with ⟨rid, hf', hrun', _⟩ | ⟨e, hf', hrun', hexc⟩
      · rw [hrun] at hrun'
        cases hrun'
      · rw [hrun] at hrun'
        cases hrun'
        rw [hbounds] at hexc
        cases hexc
    · exact .inr (.full (hends hrun) hfull (hpages hrun))
    · exact .inl ⟨new, hf, hends hrun, hpages hrun, hstores⟩
  · -- no page takes it
    refine .inr (.other ⟨0, fun fuel _ r hr => ?_⟩ hfresh)
    change (insertVersion fuel updated txId first c).1 = some r at hr
    rw [insertVersion] at hr
    rcases hv.insertRecord_cases hfits fuel with
      hnone | ⟨e, hf, hrun, hwhy⟩ | ⟨new, hf, hrun, _⟩
    · exact nomatch hnone.symm.trans hr
    · rw [hrun] at hr
      refine ⟨e, (Option.some.inj hr).symm, fun message => ?_⟩
      rcases hwhy with rfl | ⟨rfl, _⟩
      · exact fun h => nomatch h
      · exact fun h => nomatch h
    · exact absurd (hv.insertRecord_fits hfits hrun) hfresh

/-- `HeapFile::update` for a tuple the transaction sees and has locked. -/
theorem View.update_spec (h : View t begun txId c chains) (hlock : c.lockTable first = some txId)
    (hrow : viewRows txId c chains first = some row) {values : List Value}
    (hvalues : Matches t.schema.columns values) :
    (∃ new hf chains', Ends (fun fuel => update fuel first ((⟨values⟩ : Record).pushRid first) txId)
        c (.ok new) { c with heapFile := hf } ∧
      Grows c.heapFile hf ∧ Appends 1 c { c with heapFile := hf } ∧ View t begun txId { c with heapFile := hf } chains' ∧
      viewRows txId { c with heapFile := hf } chains' =
        Function.update (viewRows txId c chains) first
          (some ((⟨values⟩ : Record).pushRid first))) ∨
    Failure (fun fuel => update fuel first ((⟨values⟩ : Record).pushRid first) txId) c 1
      (¬ HeapFile.FitsFreshPage ((⟨values⟩ : Record).pushRid first)) := by
  obtain ⟨updated, hupdated⟩ : ∃ updated, (⟨values⟩ : Record).pushRid first = updated := ⟨_, rfl⟩
  have hstored : updated.stored = values := by
    rw [← hupdated]
    exact TableSchema.stored_pushRid hvalues first
  obtain ⟨header, old, hslot, hfirst⟩ := h.chained.row_stored hrow
  have hsettled := h.settled (fun x hx => Option.some.inj (hx.symm.trans hlock)) hrow
  obtain ⟨rids, last, lastHeader, lastValues, hchain, hshown, hlast, _, hlive, hnext, _⟩ :=
    h.row_live hsettled hrow
  have hgo : lastHeader.next ≠ .deleted := by
    intro hdel
    rw [← hnext, hdel] at hlast
    simp [HeapFile.slot, RID.deleted] at hlast
  have hfits : InsertFits c.heapFile.schema updated txId (some first) := by
    refine ⟨?_, ?_, h.writers.bounds.2, fun rid hrid =>
      Option.some.inj hrid ▸ h.valid.rid_fits hslot⟩
    · intro v hv
      rw [← hupdated, Record.pushRid, List.mem_append, List.mem_singleton] at hv
      rcases hv with hv | rfl
      · exact (TableSchema.values_of_matches hvalues v hv).1
      · exact h.valid.rid_fits hslot
    · rw [h.schema, hstored]
      exact hvalues
  -- up to the insert
  have hlead : Leads (fun fuel => update fuel first updated txId) c
      (fun fuel => do
        let newRid ← insertVersion fuel updated txId first
        linkVersion last newRid txId
        pure newRid) c := by
    have hne : chains first ≠ [] := by
      rw [hchain]
      simp
    obtain ⟨rest, hrest⟩ := List.head?_eq_some_iff.mp (h.chained.chain first hne).head
    have hfollows := (h.chained.chain first hne).follows
    have hat : (first :: rest).getLast? = some last := by
      rw [← hrest, hchain, List.getLast?_concat]
    have hacquire : Mvcc.acquire txId first c = (some (.ok ()), c) := by
      rw [Mvcc.acquire, LockManager.tryAcquireLock_held hlock]
    refine ⟨0, rest.length + 1, fun fuel hfuel => ?_⟩
    have hwalk := h.valid.getLastVersion_follows rest first fuel (hrest ▸ hfollows) hat hfuel
    have hlevel : ofExcept (fun c : Cursor => c.transactions.getIsolationLevel txId) c =
        (some (.ok .readCommitted), c) := ofExcept_eq h.runs.isolationLevel
    have hheader : ofExcept (fun c : Cursor => c.heapFile.getRecordHeader first) c =
        (some (.ok (some header)), c) := ofExcept_eq (h.valid.getRecordHeader_eq hslot)
    have hend : ofExcept (fun c : Cursor => c.heapFile.getRecordHeader last) c =
        (some (.ok (some lastHeader)), c) := ofExcept_eq (h.valid.getRecordHeader_eq hlast)
    have hfind : ofLoop (fun c : Cursor => c.heapFile.getLastVersion fuel first) c =
        (some (.ok last), c) := ofLoop_ok hwalk
    change update fuel first updated txId c = _
    rw [update, bind_ok hlevel, bind_ok hheader]
    dsimp only
    rw [hfirst, bind_ok hacquire, bind_ok hfind, bind_ok hend]
    dsimp only
    rw [if_neg hgo]
  rw [hupdated]
  rcases insertVersion_spec h.valid hfits with ⟨new, hf, hinsert, happends, hstores⟩ | hfail
  · rw [hstored] at hstores
    obtain ⟨last', hf', hshown', hlink, hgrows, hcount, chains', hview, hrows⟩ :=
      h.write hlock hrow hstores
    obtain rfl : last = last' := Option.some.inj (hshown.symm.trans hshown')
    rw [hupdated] at hrows
    refine .inl ⟨new, hf', chains', hlead.ends (hinsert.bind.ends (.of_eq fun fuel => ?_)),
      hgrows, hcount.trans_le happends, hview, hrows⟩
    have hlinked : linkVersion last new txId { c with heapFile := hf } =
        (some (.ok ()), { c with heapFile := hf' }) := by
      rw [linkVersion, hlink]
    exact bind_ok hlinked
  · exact .inr ((hfail.bind _).leads hlead (.of_eq rfl) id)

/-! ## One row -/

/-- A lock of another transaction, or a record no page takes, is in the statement's way. -/
def Obstructed (t : TableSchema) (stmt : UpdateStatement) (txId : TxID) (c : Cursor)
    (rows : List Record) : Prop :=
  (∃ first x, c.lockTable first = some x ∧ x ≠ txId) ∨
    ∃ row ∈ rows, ∃ updated, rowOutcome t stmt row = .ok (some updated) ∧
      ¬ HeapFile.FitsFreshPage updated

/-- The locks of the other transactions in `c'` are theirs in `c`. -/
def LocksFrom (txId : TxID) (c c' : Cursor) : Prop :=
  ∀ first x, x ≠ txId → c'.lockTable first = some x → c.lockTable first = some x

theorem Obstructed.mono {rows' : List Record} (h : Obstructed t stmt txId c' rows')
    (hlocks : LocksFrom txId c c') (hrows : ∀ r ∈ rows', r ∈ rows) :
    Obstructed t stmt txId c rows := by
  rcases h with ⟨first, x, hheld, hother⟩ | ⟨row, hrow, updated, houtcome, hbig⟩
  · exact .inl ⟨first, x, hlocks first x hother hheld, hother⟩
  · exact .inr ⟨row, hrows row hrow, updated, houtcome, hbig⟩

/-- What `updateNext` does with a row it has locked. -/
inductive Locked (t : TableSchema) (begun : TxID → Prop) (stmt : UpdateStatement) (txId : TxID)
    (c : Cursor) (chains : RID → List RID) (first : RID) (row : Record)
    (again : Nat → Call Record) : Prop
  | skipped : stmt.childMatches ⟨row.values.dropLast⟩ = .ok false →
      Leads (fun fuel => updateLocked t stmt txId fuel (again fuel) first) c again c →
      Locked t begun stmt txId c chains first row again
  | threw {e : Fault} : (stmt.childMatches ⟨row.values.dropLast⟩ = .error e ∨
        stmt.childMatches ⟨row.values.dropLast⟩ = .ok true ∧
          assign t.schema.columns stmt.assignments row = .error e) →
      Ends (fun fuel => updateLocked t stmt txId fuel (again fuel) first) c (.error e) c →
      Locked t begun stmt txId c chains first row again
  | updated {updated : Record} {hf : HeapFile} {chains' : RID → List RID} :
      stmt.childMatches ⟨row.values.dropLast⟩ = .ok true →
      assign t.schema.columns stmt.assignments row = .ok updated →
      updated.values.getLast? = some (.rid first) →
      (⟨updated.values.dropLast⟩ : Record).invalid = false →
      Ends (fun fuel => updateLocked t stmt txId fuel (again fuel) first) c
        (.ok ⟨updated.values.dropLast⟩) { c with heapFile := hf } →
      Grows c.heapFile hf → Appends 1 c { c with heapFile := hf } →
      View t begun txId { c with heapFile := hf } chains' →
      viewRows txId { c with heapFile := hf } chains' =
        Function.update (viewRows txId c chains) first (some updated) →
      Locked t begun stmt txId c chains first row again
  | failed {updated : Record} : stmt.childMatches ⟨row.values.dropLast⟩ = .ok true →
      assign t.schema.columns stmt.assignments row = .ok updated →
      Failure (fun fuel => updateLocked t stmt txId fuel (again fuel) first) c 1
        (¬ HeapFile.FitsFreshPage updated) →
      Locked t begun stmt txId c chains first row again

theorem View.updateLocked_spec (h : View t begun txId c chains)
    (hlock : c.lockTable first = some txId) (hrow : viewRows txId c chains first = some row)
    (stmt : UpdateStatement) (again : Nat → Call Record) :
    Locked t begun stmt txId c chains first row again := by
  obtain ⟨found, header, values, hshown, hmem, hslot, _, _, rfl⟩ := h.chained.row_some hrow
  obtain ⟨firstHeader, old, hstored, hfirst⟩ := h.chained.row_stored hrow
  have hsame : ∀ {r : Outcome Bool}, stmt.childMatches ⟨values⟩ = r →
      stmt.childMatches ⟨((⟨values⟩ : Record).pushRid first).values.dropLast⟩ = r := by
    intro r hr
    rw [Record.pushRid, List.dropLast_concat]
    exact hr
  have hmatches : Matches t.schema.columns values := h.schema ▸ h.valid.matches_stored hslot
  -- up to the second test of the clause
  have hlead : Leads (fun fuel => updateLocked t stmt txId fuel (again fuel) first) c
      (fun fuel => do
        if ← ofExcept fun _ => stmt.childMatches ⟨values⟩ then
          let updated ← ofExcept fun _ => stmt.updatedRecord t values first
          let _ ← update fuel first updated txId
          pure ⟨updated.values.dropLast⟩
        else again fuel) c := by
    refine ⟨0, 2 * c.heapFile.rids.length, fun fuel hfuel => ?_⟩
    obtain ⟨r, hread, hfound⟩ := h.chained.read_eq h.valid (isVisible_eq h.runs)
      (List.ne_nil_of_mem hmem) hfuel
    rw [hshown] at hread
    obtain rfl := hfound found hshown
    have hheader : ofExcept (fun c : Cursor => c.heapFile.getRecordHeader first) c =
        (some (.ok (some firstHeader)), c) := ofExcept_eq (h.valid.getRecordHeader_eq hstored)
    have hreads : ofLoop (fun c : Cursor => c.heapFile.read c.transactions fuel first txId) c =
        (some (.ok (true, r)), c) := ofLoop_ok hread
    have hrecord : ofExcept (fun c : Cursor => c.heapFile.getRecord r) c =
        (some (.ok ⟨values⟩), c) := ofExcept_eq (h.valid.getRecord_eq hslot)
    change updateLocked t stmt txId fuel (again fuel) first c = _
    rw [updateLocked, bind_ok hheader, bind_ok hreads]
    dsimp only
    rw [if_neg Bool.noConfusion, bind_ok hrecord, hfirst]
  cases hmatch : stmt.childMatches ⟨values⟩ with
  | error e =>
      have htest : ofExcept (fun _ => stmt.childMatches ⟨values⟩) c = (some (.error e), c) :=
        ofExcept_eq hmatch
      refine .threw (.inl (hsame hmatch)) (hlead.ends (.of_eq fun fuel => bind_error htest))
  | ok matched =>
      have htest : ofExcept (fun _ => stmt.childMatches ⟨values⟩) c = (some (.ok matched), c) :=
        ofExcept_eq hmatch
      cases matched with
      | false =>
          exact .skipped (hsame hmatch) (hlead.trans ⟨0, 0, fun fuel _ => bind_ok htest⟩)
      | true =>
          have hlead' := hlead.trans ⟨0, 0, fun fuel _ => bind_ok htest⟩
          cases hset : stmt.updatedRecord t values first with
          | error e =>
              have hassign : ofExcept (fun _ => stmt.updatedRecord t values first) c =
                  (some (.error e), c) := ofExcept_eq hset
              exact .threw (.inr ⟨hsame hmatch, hset⟩)
                (hlead'.ends (.of_eq fun fuel => bind_error hassign))
          | ok updated =>
              have hassign : ofExcept (fun _ => stmt.updatedRecord t values first) c =
                  (some (.ok updated), c) := ofExcept_eq hset
              have hlead'' := hlead'.trans ⟨0, 0, fun fuel _ => bind_ok hassign⟩
              obtain ⟨ws, rfl, hws⟩ := stmt.updatedRecord_ok hmatches hset
              rcases h.update_spec hlock hrow hws with
                ⟨new, hf, chains', hends, hgrows, happends, hview, hrows⟩ | hfail
              · have hne := TableSchema.ne_nil_of_matches hws
                exact .updated (hsame hmatch) hset (by simp [Record.pushRid])
                  (by simpa [Record.invalid, Record.pushRid] using hne)
                  (hlead''.ends (hends.bind.ends (.of_eq fun _ => rfl))) hgrows happends hview hrows
              · exact .failed (hsame hmatch) hset ((hfail.bind _).leads hlead'' (.of_eq rfl) id)

/-! ## One call -/

/-- `updateNext` from a state with `rows` left. -/
inductive Nexts (t : TableSchema) (begun : TxID → Prop) (stmt : UpdateStatement) (txId : TxID)
    (c : Cursor) (chains : RID → List RID) (rows : List Record) : Prop
  | finished {c' : Cursor} : (∀ r ∈ rows, rowOutcome t stmt r = .ok none) →
      Ends (updateNext t stmt txId) c (.ok Record.empty) c' → View t begun txId c' chains →
      viewRows txId c' chains = viewRows txId c chains → c'.visited = c.visited ++ rows →
      Nexts t begun stmt txId c chains rows
  | updated {c' : Cursor} {chains' : RID → List RID} {pre suf : List Record} {first : RID}
      {row updated : Record} : rows = pre ++ row :: suf →
      (∀ r ∈ pre, rowOutcome t stmt r = .ok none) →
      rowOutcome t stmt row = .ok (some updated) → updated.values.getLast? = some (.rid first) →
      (⟨updated.values.dropLast⟩ : Record).invalid = false →
      viewRows txId c chains first = some row →
      Ends (updateNext t stmt txId) c (.ok ⟨updated.values.dropLast⟩) c' →
      At t begun txId c' chains' suf → LocksFrom txId c c' → Appends 1 c c' →
      viewRows txId c' chains' = Function.update (viewRows txId c chains) first (some updated) →
      c'.visited = c.visited ++ (pre ++ [row]) → Nexts t begun stmt txId c chains rows
  | threw {c' : Cursor} {pre suf : List Record} {row : Record} {e : Fault} :
      rows = pre ++ row :: suf → (∀ r ∈ pre, rowOutcome t stmt r = .ok none) →
      rowOutcome t stmt row = .error e → Ends (updateNext t stmt txId) c (.error e) c' →
      View t begun txId c' chains → viewRows txId c' chains = viewRows txId c chains →
      Nexts t begun stmt txId c chains rows
  | failed : Failure (updateNext t stmt txId) c 1 (Obstructed t stmt txId c rows) →
      Nexts t begun stmt txId c chains rows

/-- The call has passed rows it has nothing to do with. -/
theorem Nexts.skip {skipped : List Record} (h : Nexts t begun stmt txId c' chains rows)
    (hlead : Leads (updateNext t stmt txId) c (updateNext t stmt txId) c')
    (hskipped : ∀ r ∈ skipped, rowOutcome t stmt r = .ok none)
    (hrows : viewRows txId c' chains = viewRows txId c chains)
    (hpages : Appends 0 c c') (hlocks : LocksFrom txId c c') (hvisited : c'.visited = c.visited ++ skipped) :
    Nexts t begun stmt txId c chains (skipped ++ rows) := by
  cases h with
  | finished hall hends hview hsame hseen =>
      exact .finished (List.forall_mem_append.mpr ⟨hskipped, hall⟩) (hlead.ends hends) hview
        (hsame.trans hrows) (by rw [hseen, hvisited, List.append_assoc])
  | updated hsplit hpre houtcome hlast hvalid hrow hends hat hlocks' happends hupdate hseen =>
      rw [hrows] at hrow hupdate
      refine .updated (by rw [hsplit, ← List.append_assoc])
        (List.forall_mem_append.mpr ⟨hskipped, hpre⟩) houtcome hlast hvalid hrow
        (hlead.ends hends) hat (fun f x hx hheld => hlocks f x hx (hlocks' f x hx hheld))
        (hpages.trans happends) hupdate ?_
      rw [hseen, hvisited, List.append_assoc, List.append_assoc]
  | threw hsplit hpre houtcome hends hview hsame =>
      exact .threw (by rw [hsplit, ← List.append_assoc])
        (List.forall_mem_append.mpr ⟨hskipped, hpre⟩) houtcome (hlead.ends hends) hview
        (hsame.trans hrows)
  | failed hfail =>
      exact .failed (hfail.leads hlead hpages fun hwhy => hwhy.mono hlocks fun r hr =>
        List.mem_append_right _ hr)

/-- `updateNext` once the child has returned. -/
theorem updateNext_leads (hchild : Ends (childNext stmt txId) c (.ok row) c') :
    Leads (updateNext t stmt txId) c
      (fun fuel => updateRow t stmt txId fuel (updateNext t stmt txId fuel) row) c' :=
  Leads.trans (y := fun fuel => do
      let current ← childNext stmt txId fuel
      updateRow t stmt txId fuel (updateNext t stmt txId fuel) current)
    (.of_succ fun _ => rfl) hchild.bind

theorem updateNext_threw {e : Fault} (hchild : Ends (childNext stmt txId) c (.error e) c') :
    Ends (updateNext t stmt txId) c (.error e) c' :=
  Leads.ends (y := fun fuel => do
      let current ← childNext stmt txId fuel
      updateRow t stmt txId fuel (updateNext t stmt txId fuel) current)
    (.of_succ fun _ => rfl) hchild.bind_error

/-- And once it has locked the row. -/
theorem updateRow_leads (hvalid : row.invalid = false)
    (hlast : row.values.getLast? = some (.rid first))
    (hacquire : acquire txId first c = (some (.ok ()), c')) (again : Nat → Call Record) :
    Leads (fun fuel => updateRow t stmt txId fuel (again fuel) row) c
      (fun fuel => updateLocked t stmt txId fuel (again fuel) first) c' := by
  refine ⟨0, 0, fun fuel _ => ?_⟩
  change updateRow t stmt txId fuel (again fuel) row c = _
  rw [updateRow, hvalid, hlast]
  exact bind_ok hacquire

variable (t stmt) in
theorem updateRow_aborted {e : Fault} (hvalid : row.invalid = false)
    (hlast : row.values.getLast? = some (.rid first))
    (hacquire : acquire txId first c = (some (.error e), c')) (again : Nat → Call Record) :
    Ends (fun fuel => updateRow t stmt txId fuel (again fuel) row) c (.error e) c' := by
  refine .of_eq fun fuel => ?_
  rw [updateRow, hvalid, hlast]
  exact bind_error hacquire

theorem At.updateNext_spec (h : At t begun txId c chains rows) (stmt : UpdateStatement) :
    Nexts t begun stmt txId c chains rows := by
  obtain ⟨left, hleft⟩ : ∃ left, rows.length = left := ⟨_, rfl⟩
  induction left using Nat.strong_induction_on generalizing c rows with
  | h left ih =>
      -- a row the child rejects is one the statement has nothing to do with
      have hnone : ∀ r, stmt.childMatches r = .ok false → rowOutcome t stmt r = .ok none := by
        intro r hr
        simp only [rowOutcome, hr, Outcome.ok_bind]
        rfl
      rcases h.childNext_spec stmt with ⟨hall, it, hchild⟩ |
        ⟨pre, row, suf, it, hsplit, hpre, hat, ⟨hmatch, hchild⟩ | ⟨e, herror, hchild⟩⟩
      · exact .finished (fun r hr => hnone r (hall r hr))
          ((updateNext_leads hchild).ends (.of_eq fun _ => rfl)) (h.toView.moved _ _) rfl rfl
      · obtain ⟨first, hrow, hothers⟩ := h.split hsplit
        have hlast := h.row_last hrow
        have hlead := updateNext_leads (t := t) hchild
        obtain ⟨c₁, hc₁⟩ : ∃ c₁, c.moved it (pre ++ [row]) = c₁ := ⟨_, rfl⟩
        have hlocks₁ : c₁.lockTable = c.lockTable := by
          rw [← hc₁]
          rfl
        have hvisited₁ : c₁.visited = c.visited ++ (pre ++ [row]) := by
          rw [← hc₁]
          rfl
        have hrows₁ : viewRows txId c₁ chains = viewRows txId c chains := by
          rw [← hc₁]
          rfl
        rw [hc₁] at hat hlead
        have hvalid := h.row_valid hrow
        have hpre' : ∀ r ∈ pre, rowOutcome t stmt r = .ok none := fun r hr => hnone r (hpre r hr)
        rw [← hrows₁] at hrow
        rcases hat.toView.acquire_cases first with
          ⟨locks, tm, hacquire, hview₂, hrows₂, hlocks₂⟩ | ⟨x, message, hheld, hother, hacquire⟩
        · obtain ⟨c₂, hc₂⟩ : ∃ c₂,
              ({ c₁ with lockTable := locks, transactions := tm } : Cursor) = c₂ := ⟨_, rfl⟩
          have hfrom : LocksFrom txId c c₂ := by
            intro f x hx hheld
            rw [← hc₂] at hheld
            change locks f = some x at hheld
            rw [hlocks₂] at hheld
            by_cases hf : f = first
            · rw [hf, Function.update_self] at hheld
              exact absurd (Option.some.inj hheld).symm hx
            · rwa [Function.update_of_ne hf, hlocks₁] at hheld
          have hlocked : c₂.lockTable first = some txId := by
            rw [← hc₂]
            change locks first = _
            rw [hlocks₂, Function.update_self]
          have hpages₂ : Appends 0 c c₂ := by
            refine .of_eq ?_
            rw [← hc₂, ← hc₁]
            rfl
          have hvisited₂ : c₂.visited = c.visited ++ (pre ++ [row]) := by
            rw [← hc₂]
            exact hvisited₁
          have hat₂ : At t begun txId c₂ chains suf := by
            rw [← hc₂]
            exact hat.congr hview₂ rfl rfl hrows₂
          rw [hc₂] at hacquire hrows₂
          rw [← hrows₂] at hrow
          have hsame : viewRows txId c₂ chains = viewRows txId c chains := hrows₂.trans hrows₁
          have hlead₂ := hlead.trans (updateRow_leads hvalid hlast hacquire _)
          cases hat₂.toView.updateLocked_spec hlocked hrow stmt (updateNext t stmt txId) with
          | skipped hfalse hskip =>
              have houtcome : rowOutcome t stmt row = .ok none := by
                simp only [rowOutcome, hmatch, hfalse, Outcome.ok_bind]
                rfl
              have hshorter : suf.length < left := by
                rw [← hleft, hsplit, List.length_append, List.length_cons]
                omega
              have hrest := ih suf.length hshorter hat₂ rfl
              rw [hsplit, List.append_cons]
              refine hrest.skip (hlead₂.trans hskip) ?_ hsame hpages₂ hfrom hvisited₂
              exact List.forall_mem_append.mpr ⟨hpre', List.forall_mem_singleton.mpr houtcome⟩
          | threw herror hends =>
              refine .threw hsplit hpre' ?_ (hlead₂.ends hends) hat₂.toView hsame
              rcases herror with herror | ⟨htrue, herror⟩
              · simp only [rowOutcome, hmatch, herror, Outcome.ok_bind, if_true]
                rfl
              · simp only [rowOutcome, hmatch, htrue, herror, Outcome.ok_bind, if_true]
                rfl
          | @updated updated hf chains' htrue hassign hend hnew hends hgrows happends hview
              hupdate =>
              have houtcome : rowOutcome t stmt row = .ok (some updated) := by
                simp only [rowOutcome, hmatch, htrue, hassign, Outcome.ok_bind, if_true]
              have hat₃ := hat₂.write hview hgrows rfl hrow hupdate fun r hr =>
                hothers r (List.mem_append_right _ hr)
              rw [hsame] at hrow hupdate
              exact .updated hsplit hpre' houtcome hend hnew hrow (hlead₂.ends hends) hat₃ hfrom
                (hpages₂.trans happends) hupdate hvisited₂
          | @failed updated htrue hassign hfail =>
              have houtcome : rowOutcome t stmt row = .ok (some updated) := by
                simp only [rowOutcome, hmatch, htrue, hassign, Outcome.ok_bind, if_true]
              refine .failed (hfail.leads hlead₂ hpages₂ fun hbig =>
                .inr ⟨row, ?_, updated, houtcome, hbig⟩)
              rw [hsplit]
              exact List.mem_append_right _ List.mem_cons_self
        · have haborted := updateRow_aborted t stmt hvalid hlast hacquire
            (updateNext t stmt txId)
          exact .failed (.other ((hlead.ends haborted).breaks fun _ h => nomatch h)
            (.inl ⟨first, x, hlocks₁ ▸ hheld, hother⟩))
      · exact .threw hsplit (fun r hr => hnone r (hpre r hr)) (by
          simp only [rowOutcome, herror, Outcome.error_bind])
          (updateNext_threw hchild) (h.toView.moved _ _) rfl

/-! ## All calls -/

theorem setResult_none (h : rowOutcome t stmt row = .ok none) : setResult t stmt row = row := by
  rw [setResult, h]

theorem setResult_some {updated : Record} (h : rowOutcome t stmt row = .ok (some updated)) :
    setResult t stmt row = updated := by
  rw [setResult, h]

/-- What the statement returns for its rows: the new records, without their RIDs. -/
def returned (t : TableSchema) (stmt : UpdateStatement) (rows : List Record) : List Record :=
  rows.filterMap fun row =>
    match rowOutcome t stmt row with
    | .ok (some updated) => some ⟨updated.values.dropLast⟩
    | _ => none

/-- The rows `done` have been treated. -/
def Treated (t : TableSchema) (stmt : UpdateStatement) (done : List Record)
    (before after : RID → Option Record) : Prop :=
  ∀ first, after first =
    (before first).map fun row => if row ∈ done then setResult t stmt row else row

/-- `drain` from a state with `rows` left. -/
inductive Drains (t : TableSchema) (begun : TxID → Prop) (stmt : UpdateStatement) (txId : TxID)
    (c : Cursor) (chains : RID → List RID) (rows : List Record) : Prop
  | finished {c' : Cursor} {chains' : RID → List RID} :
      (∀ r ∈ rows, ∃ o, rowOutcome t stmt r = .ok o) →
      Ends (drain t stmt txId) c (.ok (returned t stmt rows)) c' → View t begun txId c' chains' →
      Treated t stmt rows (viewRows txId c chains) (viewRows txId c' chains') →
      c'.visited = c.visited ++ rows → Drains t begun stmt txId c chains rows
  | threw {c' : Cursor} {chains' : RID → List RID} {pre suf : List Record} {row : Record}
      {e : Fault} : rows = pre ++ row :: suf → (∀ r ∈ pre, ∃ o, rowOutcome t stmt r = .ok o) →
      rowOutcome t stmt row = .error e → Ends (drain t stmt txId) c (.error e) c' →
      View t begun txId c' chains' →
      Treated t stmt pre (viewRows txId c chains) (viewRows txId c' chains') →
      Drains t begun stmt txId c chains rows
  | failed : Failure (drain t stmt txId) c (rows.length + 1) (Obstructed t stmt txId c rows) →
      Drains t begun stmt txId c chains rows

/-- Rows the statement has nothing to do with are as good as treated. -/
theorem Treated.same {f g : RID → Option Record}
    (h : ∀ r ∈ rows, rowOutcome t stmt r = .ok none) (hsame : g = f) :
    Treated t stmt rows f g := by
  intro first
  rw [hsame]
  cases hrow : f first with
  | none => rfl
  | some row =>
      rw [Option.map_some]
      split
      · rename_i hmem
        rw [setResult_none (h row hmem)]
      · rfl

/-- One row written, and then those of `done`. -/
theorem Treated.step {pre done : List Record} {updated : Record} {f g : RID → Option Record}
    (hpre : ∀ r ∈ pre, rowOutcome t stmt r = .ok none)
    (houtcome : rowOutcome t stmt row = .ok (some updated)) (hrow : f first = some row)
    (hlast : ∀ first' row', f first' = some row' → row'.values.getLast? = some (.rid first'))
    (hupdated : updated ∉ done) {f' : RID → Option Record}
    (hupdate : f' = Function.update f first (some updated)) (h : Treated t stmt done f' g) :
    Treated t stmt (pre ++ row :: done) f g := by
  intro first'
  have hrest := h first'
  rw [hupdate] at hrest
  by_cases hf : first' = first
  · rw [hf, Function.update_self, Option.map_some, if_neg hupdated] at hrest
    rw [hf, hrest, hrow, Option.map_some, if_pos (by simp), setResult_some houtcome]
  · rw [Function.update_of_ne hf] at hrest
    rw [hrest]
    cases hrow' : f first' with
    | none => rfl
    | some row' =>
        have hne : row' ≠ row := by
          rintro rfl
          have heq := (hlast _ _ hrow').symm.trans (hlast _ _ hrow)
          cases heq
          exact hf rfl
        rw [Option.map_some, Option.map_some]
        by_cases hdone : row' ∈ done
        · rw [if_pos hdone, if_pos (by simp [hdone])]
        · rw [if_neg hdone]
          split
          · rename_i hmem
            have hmem' : row' ∈ pre := by
              rcases List.mem_append.mp hmem with hmem | hmem
              · exact hmem
              · rcases List.mem_cons.mp hmem with heq | hmem
                · exact absurd heq hne
                · exact absurd hmem hdone
            rw [setResult_none (hpre row' hmem')]
          · rfl

theorem returned_none (h : ∀ r ∈ rows, rowOutcome t stmt r = .ok none) :
    returned t stmt rows = [] :=
  List.filterMap_eq_nil_iff.mpr fun r hr => by rw [h r hr]

theorem returned_cons {pre suf : List Record} {updated : Record}
    (hpre : ∀ r ∈ pre, rowOutcome t stmt r = .ok none)
    (houtcome : rowOutcome t stmt row = .ok (some updated)) :
    returned t stmt (pre ++ row :: suf) =
      ⟨updated.values.dropLast⟩ :: returned t stmt suf := by
  rw [returned, List.filterMap_append, ← returned, returned_none hpre, List.nil_append,
    List.filterMap_cons_some (by rw [houtcome])]
  rfl

/-- `drain` once `updateNext` has returned. -/
theorem drain_leads (hnext : Ends (updateNext t stmt txId) c (.ok row) c') :
    Leads (drain t stmt txId) c (fun fuel =>
      if row.invalid then pure []
      else do
        let records ← drain t stmt txId fuel
        pure (row :: records)) c' :=
  Leads.trans (y := fun fuel => do
      let record ← updateNext t stmt txId fuel
      if record.invalid then pure []
      else
        let records ← drain t stmt txId fuel
        pure (record :: records)) (.of_succ fun _ => rfl) hnext.bind

theorem drain_threw {e : Fault} (hnext : Ends (updateNext t stmt txId) c (.error e) c') :
    Ends (drain t stmt txId) c (.error e) c' :=
  Leads.ends (y := fun fuel => do
      let record ← updateNext t stmt txId fuel
      if record.invalid then pure []
      else
        let records ← drain t stmt txId fuel
        pure (record :: records)) (.of_succ fun _ => rfl) hnext.bind_error

theorem drain_failed {why : Prop} (hfail : Failure (updateNext t stmt txId) c 1 why) :
    Failure (drain t stmt txId) c (0 + 1) why :=
  .leads (.of_succ fun _ => rfl) (.of_eq rfl) (hfail.bind fun fuel record =>
    if record.invalid then pure []
    else do
      let records ← drain t stmt txId fuel
      pure (record :: records)) id

theorem At.drain_spec (h : At t begun txId c chains rows) (stmt : UpdateStatement) :
    Drains t begun stmt txId c chains rows := by
  obtain ⟨left, hleft⟩ : ∃ left, rows.length = left := ⟨_, rfl⟩
  induction left using Nat.strong_induction_on generalizing c chains rows with
  | h left ih =>
      cases h.updateNext_spec stmt with
      | finished hall hends hview hsame hseen =>
          refine .finished (fun r hr => ⟨none, hall r hr⟩) ?_ hview (.same hall hsame) hseen
          rw [returned_none hall]
          exact (drain_leads hends).ends (.of_eq fun _ => rfl)
      | threw hsplit hpre houtcome hends hview hsame =>
          exact .threw hsplit (fun r hr => ⟨none, hpre r hr⟩) houtcome (drain_threw hends) hview
            (.same hpre hsame)
      | failed hfail =>
          exact .failed ((drain_failed hfail).mono (by omega))
      | @updated c' chains' pre suf first row updated hsplit hpre houtcome hlast hvalid hrow hends
          hat hlocks hpages hupdate hseen =>
          have hshorter : suf.length < left := by
            rw [← hleft, hsplit, List.length_append, List.length_cons]
            omega
          -- the new record is no row the scan has left
          have hnew : ∀ r ∈ suf, r ≠ updated := by
            obtain ⟨first', hrow', hothers⟩ := h.split hsplit
            have heq := (h.row_last hrow).symm.trans (h.row_last hrow')
            cases heq
            rintro r hr rfl
            exact hothers r (List.mem_append_right _ hr) hlast
          have hpre' : ∀ r ∈ pre, ∃ o, rowOutcome t stmt r = .ok o := fun r hr => ⟨none, hpre r hr⟩
          have hlead : Leads (drain t stmt txId) c (fun fuel => do
              let records ← drain t stmt txId fuel
              pure (⟨updated.values.dropLast⟩ :: records)) c' := by
            refine (drain_leads hends).trans ⟨0, 0, fun fuel _ => ?_⟩
            rw [hvalid]
            rfl
          have hall : ∀ {done : List Record}, (∀ r ∈ done, ∃ o, rowOutcome t stmt r = .ok o) →
              ∀ r ∈ pre ++ row :: done, ∃ o, rowOutcome t stmt r = .ok o := fun hdone =>
            List.forall_mem_append.mpr ⟨hpre', List.forall_mem_cons.mpr ⟨⟨_, houtcome⟩, hdone⟩⟩
          cases ih suf.length hshorter hat rfl with
          | finished hdone hends' hview htreated hseen' =>
              rw [hsplit]
              refine .finished (hall hdone) ?_ hview (.step hpre houtcome hrow
                (fun _ _ => h.row_last) (fun hmem => hnew _ hmem rfl) hupdate htreated) ?_
              · rw [returned_cons hpre houtcome]
                exact hlead.ends (hends'.bind.ends (.of_eq fun _ => rfl))
              · rw [hseen', hseen, List.append_assoc, List.append_assoc]
                rfl
          | threw hsplit' hdone houtcome' hends' hview htreated =>
              refine .threw (by rw [hsplit, hsplit', ← List.cons_append, ← List.append_assoc])
                (hall hdone) houtcome' (hlead.ends hends'.bind_error) hview
                (.step hpre houtcome hrow (fun _ _ => h.row_last)
                  (fun hmem => hnew _ ?_ rfl) hupdate htreated)
              rw [hsplit']
              exact List.mem_append_left _ hmem
          | failed hfail =>
              refine .failed (((hfail.bind _).leads hlead hpages fun hwhy =>
                hwhy.mono hlocks fun r hr => ?_).mono (by omega))
              rw [hsplit]
              exact List.mem_append_right _ (List.mem_cons_of_mem _ hr)

end Positions

end Iic3413Db.Mvcc
