/-
  Mvcc/Scan.lean --- a READ_COMMITTED scan sees exactly the right version of every
  tuple.

  The invariant of the chains, at any reachable state, and the specification of
  the iterator: each slot of the file comes to the row its chain says, and only
  the first slot of a chain has one.
-/
import Iic3413Db.Mvcc.Steps
import Iic3413Db.Storage.HeapFile.HeapFileScan

set_option autoImplicit false

namespace Iic3413Db.Mvcc

open Iic3413Db.Foundation Iic3413Db.RelationalModel Iic3413Db.Storage Iic3413Db.System
  Iic3413Db.Query

/-- The row a scan by `txId` is to return for a tuple: the values of the version
it is to see, followed by the first RID. -/
def rowOf (state : TxID → TransactionState) (txId : TxID) (first : RID) (vs : List Version) :
    Option Record :=
  (expected state txId vs).map fun v => (⟨v.values⟩ : Record).pushRid first

/-- The rows that carry this first RID. -/
def rowsOf (rows : List Record) (first : RID) : List Record :=
  rows.filter fun row => decide (row.values.getLast? = some (.rid first))

/-- The rows are those of the tuples, one for each tuple that is to be seen. -/
structure ScanSees (db : Database) (txId : TxID) (rows : List Record) : Prop where
  tuples : ∀ (first : RID) (vs : List Version), Versions db.slot first vs →
    rowsOf rows first = (rowOf db.state txId first vs).toList
  only : ∀ row ∈ rows, ∃ first vs, Versions db.slot first vs ∧
    row.values.getLast? = some (.rid first)

section Scan

variable {t : TableSchema} {db : Database} {g : Chains} {txId : TxID}

theorem rowOf_last {state : TxID → TransactionState} {first : RID} {vs : List Version}
    {row : Record} (h : rowOf state txId first vs = some row) :
    row.values.getLast? = some (.rid first) := by
  obtain ⟨v, _, rfl⟩ := Option.map_eq_some_iff.mp h
  simp [Record.pushRid]

/-- Among the rows of a list of RIDs, those of one RID. -/
theorem rowsOf_filterMap {rids : List RID} {row : RID → Option Record} {first : RID}
    (hnodup : rids.Nodup) (hlast : ∀ rid r, row rid = some r → r.values.getLast? = some (.rid rid))
    (hmem : first ∈ rids) : rowsOf (rids.filterMap row) first = (row first).toList := by
  -- the rows of other RIDs carry those RIDs
  have hother : ∀ {rids : List RID}, first ∉ rids → rowsOf (rids.filterMap row) first = [] := by
    intro rids hnot
    refine List.filter_eq_nil_iff.mpr fun r hr => ?_
    obtain ⟨rid, hrid, hrow⟩ := List.mem_filterMap.mp hr
    rw [hlast rid r hrow]
    simp only [decide_eq_true_eq, Option.some.injEq, Value.rid.injEq]
    rintro rfl
    exact hnot hrid
  induction rids with
  | nil => cases hmem
  | cons rid rids ih =>
      obtain ⟨hnot, hnodup⟩ := List.nodup_cons.mp hnodup
      by_cases hrid : rid = first
      · subst hrid
        cases hrow : row rid with
        | none =>
            rw [List.filterMap_cons_none hrow]
            exact hother hnot
        | some r =>
            have hrest := hother hnot
            unfold rowsOf at hrest ⊢
            rw [List.filterMap_cons_some hrow, List.filter_cons_of_pos (by simp [hlast rid r hrow]),
              hrest]
            rfl
      · have hmem : first ∈ rids := (List.mem_cons.mp hmem).resolve_left (Ne.symm hrid)
        cases hrow : row rid with
        | none =>
            rw [List.filterMap_cons_none hrow]
            exact ih hnodup hmem
        | some r =>
            have hneg : ¬ r.values.getLast? = some (.rid first) := by
              rw [hlast rid r hrow]
              simpa using hrid
            have hrest := ih hnodup hmem
            unfold rowsOf at hrest ⊢
            rw [List.filterMap_cons_some hrow, List.filter_cons_of_neg (by simpa using hneg)]
            exact hrest

/-- The chain of a tuple is the one the invariant knows. -/
theorem Invariant.chain_eq (h : Invariant t db g) {first : RID} {vs : List Version}
    (hvs : Versions db.slot first vs) : g first = vs := by
  obtain ⟨v, us, rfl, hrid⟩ := hvs.exists_cons
  have hslot := hvs.linked.1
  rw [hrid] at hslot
  have hne := h.tuple_of_first hslot (Version.header_first _)
  exact (h.chains first hne).unique hvs

/-- No chain is longer than the file. -/
theorem Invariant.length_le (h : Invariant t db g) {hf : HeapFile} (hv : hf.Valid)
    (hslot : hf.slot = db.slot) (first : RID) : (g first).length ≤ hf.rids.length := by
  have hsub : (g first).map Version.rid ⊆ hf.rids := by
    intro rid hrid
    obtain ⟨v, hmem, rfl⟩ := List.mem_map.mp hrid
    obtain ⟨next, hstored⟩ := (h.chains first (List.ne_nil_of_mem hmem)).linked.slot hmem
    rw [← hslot] at hstored
    exact hv.mem_rids hstored
  have hle := (List.subperm_of_subset (h.nodup first) hsub).length_le
  rwa [List.length_map] at hle

/-- The iterator's visit to a slot: the tuple's row at the first slot of a chain,
nothing anywhere else. -/
theorem Invariant.visit_eq (h : Invariant t db g) {hf : HeapFile} (hv : hf.Valid)
    (hslot : hf.slot = db.slot) (hruns : db.transactions.Runs txId .readCommitted) {fuel n i : Nat}
    (hfuel : 2 * hf.rids.length ≤ fuel) (hi : i < (hf.contentsOf n).length) :
    HeapFileIter.visit hf db.transactions txId fuel ⟨n, i⟩ =
      .ok (some (HeapFileIter.Turn.ofRow (rowOf db.state txId ⟨n, i⟩ (g ⟨n, i⟩)))) := by
  obtain ⟨rid, hrid⟩ : ∃ rid : RID, rid = ⟨n, i⟩ := ⟨_, rfl⟩
  -- where no chain starts there is no row
  have hnil : g rid = [] → rowOf db.state txId rid (g rid) = none := by
    intro hg
    rw [hg]
    rfl
  obtain ⟨slot, hcontents⟩ : ∃ slot, (hf.contentsOf n)[i]? = some slot :=
    ⟨_, List.getElem?_eq_getElem hi⟩
  cases slot with
  | none =>
      have hnone : db.slot rid = none := by
        rw [← hslot, hrid, HeapFile.slot_nat, hcontents]
        rfl
      rw [← hrid, hnil (h.chain_nil hnone)]
      simp only [HeapFileIter.visit, hrid, hv.getRecordHeader_dead hcontents, Outcome.ok_bind]
      rfl
  | some e =>
      obtain ⟨header, values⟩ := e
      have hstored : hf.slot rid = some (header, values) := by
        rw [hrid, HeapFile.slot_nat, hcontents]
        rfl
      have hheader := hv.getRecordHeader_eq hstored
      rw [hslot] at hstored
      rw [← hrid]
      by_cases hfirst : rid = header.first
      · have hne : g rid ≠ [] := h.tuple_of_first hstored hfirst.symm
        obtain ⟨res, hread, hres⟩ := h.read_eq hv hslot hne hruns
        have hread := hread fuel (by
          have hle := h.length_le hv hslot rid
          omega)
        simp only [HeapFileIter.visit, hheader, Outcome.ok_bind, if_pos hfirst, hread]
        unfold rowOf
        cases hexp : expected db.state txId (g rid) with
        | none => rfl
        | some v =>
            have hv_mem := expected_mem hexp
            obtain ⟨next, hv_slot⟩ := (h.chains rid hne).linked.slot hv_mem
            rw [← hslot] at hv_slot
            have hvalid : (⟨v.values⟩ : Record).invalid = false := by
              have hvals := TableSchema.ne_nil_of_matches (h.stored rid v hv_mem)
              simpa [Record.invalid] using hvals
            rw [hres v hexp]
            simp only [Option.isSome_some, hv.getRecord_eq hv_slot, Outcome.ok_bind, hvalid,
              Bool.false_eq_true, if_false, ← hfirst]
            rfl
      · have hg : g rid = [] := by
          by_contra hne
          obtain ⟨header', values', hslot', hfirst'⟩ := h.slot_first hne
          rw [hstored] at hslot'
          cases hslot'
          exact hfirst hfirst'.symm
        rw [hnil hg]
        simp only [HeapFileIter.visit, hheader, Outcome.ok_bind, if_neg hfirst]
        rfl

/-- A full scan returns the rows of the chains. -/
theorem Invariant.scan_eq (h : Invariant t db g)
    (hruns : db.transactions.Runs txId .readCommitted) :
    ∃ rows, (∃ needed, ∀ fuel, needed ≤ fuel →
        HeapFileIter.scan db.heapFile db.transactions txId fuel = .ok (some rows)) ∧
      ScanSees db txId rows := by
  obtain ⟨it, hf, hcreate⟩ := HeapFileIter.create_eq h.valid
  obtain ⟨hv, _, hslot, _⟩ := HeapFileIter.create_ok h.valid hcreate
  have hslot : hf.slot = db.slot := hslot
  obtain ⟨row, hrow⟩ : ∃ row : RID → Option Record,
      ∀ rid, row rid = rowOf db.state txId rid (g rid) := ⟨_, fun _ => rfl⟩
  have hlast : ∀ rid r, row rid = some r → r.values.getLast? = some (.rid rid) := by
    intro rid r hr
    rw [hrow] at hr
    exact rowOf_last hr
  have hvalid : ∀ rid r, row rid = some r → r.invalid = false := by
    intro rid r hr
    have hne : r.values ≠ [] := by
      intro hnil
      have hl := hlast rid r hr
      rw [hnil] at hl
      cases hl
    simpa [Record.invalid] using hne
  obtain ⟨needed, hscan⟩ := HeapFileIter.scan_spec db.transactions txId h.valid
    hcreate hvalid
  refine ⟨hf.rids.filterMap row, ⟨max needed (2 * hf.rids.length), fun fuel hfuel => ?_⟩, ?_, ?_⟩
  · refine hscan fuel (by omega) fun n i hi => ?_
    rw [hrow]
    exact h.visit_eq hv hslot hruns (by omega) hi
  · intro first vs hvs
    have hmem : first ∈ hf.rids := by
      obtain ⟨v, us, rfl, hrid⟩ := hvs.exists_cons
      have hstored := hvs.linked.1
      rw [hrid, ← hslot] at hstored
      exact hv.mem_rids hstored
    rw [rowsOf_filterMap HeapFile.nodup_rids hlast hmem, hrow, h.chain_eq hvs]
  · intro r hr
    obtain ⟨rid, _, hrid⟩ := List.mem_filterMap.mp hr
    refine ⟨rid, g rid, h.chains rid fun hnil => ?_, hlast rid r hrid⟩
    rw [hrow, hnil] at hrid
    cases hrid

/-- In every state transactions without aborts lead to, a full scan of an active
READ_COMMITTED transaction returns one row for each tuple it inserted or whose
inserter has committed, with the values of its own newest version or else of the
newest committed one, and no other row; every first slot belongs to one chain;
and the walks along the chains terminate. -/
theorem scan_sees (hreach : (database t).Reachable db)
    (hruns : db.transactions.Runs txId .readCommitted) :
    (∃ rows, (∃ needed, ∀ fuel, needed ≤ fuel →
        HeapFileIter.scan db.heapFile db.transactions txId fuel = .ok (some rows)) ∧
      ScanSees db txId rows) ∧
    (∀ (first : RID) (header : RecordHeader) (values : List Value),
      db.slot first = some (header, values) → header.first = first →
      ∃ vs, Versions db.slot first vs) ∧
    ∀ (first : RID) (v : Version) (vs : List Version), Versions db.slot first (v :: vs) →
      ((rowOf db.state txId first (v :: vs)).isSome ↔
        v.writer = txId ∨ db.state v.writer = .committed) ∧
      ∃ needed, ∀ fuel, needed ≤ fuel →
        (∃ res, db.heapFile.read db.transactions fuel first txId = .ok (some res)) ∧
        ∃ last, db.heapFile.getLastVersion fuel first = .ok (some last) := by
  obtain ⟨g, h⟩ := reachable_invariant hreach
  refine ⟨h.scan_eq hruns, fun first header values hslot hfirst => ?_, fun first v vs hvs => ?_⟩
  · exact ⟨g first, h.chains first (h.tuple_of_first hslot hfirst)⟩
  · have hg := h.chain_eq hvs
    have hord := h.ordered first
    have hne : g first ≠ [] := by simp [hg]
    obtain ⟨res, hread, _⟩ := h.read_eq h.valid rfl hne hruns
    obtain ⟨last, hlast⟩ : ∃ last, (g first).getLast? = some last :=
      ⟨_, List.getLast?_eq_some_getLast hne⟩
    have hwalk := h.getLastVersion_eq hlast
    rw [hg] at hord
    refine ⟨?_, 2 * (g first).length, fun fuel hfuel => ⟨⟨_, hread fuel hfuel⟩, _, hwalk fuel ?_⟩⟩
    · rw [rowOf, Option.isSome_map]
      exact expected_isSome hord
    · omega

end Scan

/-! ## A table with one row -/

/-- `CREATE TABLE t (a INT)`. -/
def oneIntColumn : TableSchema :=
  ⟨[⟨"a", .int⟩], by simp, by simp⟩

theorem oneIntColumn_matches (i : Int) (hi : (Value.int i).Fits) :
    Matches oneIntColumn.schema.columns [.int i] :=
  .int rfl hi (.skip (.inl rfl) .nil)

/-- The page inserts go to has `room` bytes left. -/
def HasRoom (hf : HeapFile) (room : Nat) : Prop :=
  ∃ (p : Page) (sp : SlottedPage hf.schema), hf.openPage hf.lastInsertPage = .ok p ∧
    Represents sp p ∧ p.pageId.pageNumber = 0 ∧ room ≤ sp.freeSpace

theorem hasRoom_create (schema : Schema) (fileId : FileId) :
    HasRoom (HeapFile.create schema fileId) 4088 := by
  have hblank : HeapFilePage.Blank ((HeapFile.create schema fileId).pages 0) := rfl
  obtain ⟨p, sp, hp, hid, hr, _, hfree⟩ := hblank.construct_eq schema
  refine ⟨p, sp, ?_, hr, by rw [hid]; rfl, hfree.ge⟩
  unfold HeapFile.openPage
  rw [if_neg (by simp [HeapFile.create]), if_neg (by simp [HeapFile.create])]
  exact hp

/-- A record that has room with a new directory entry is accepted. -/
theorem HasRoom.insertPass {hf : HeapFile} {room : Nat} {record : Record} {txId : TxID}
    {firstRid : Option RID} (h : HasRoom hf room) (hfits : InsertFits hf.schema record txId firstRid)
    (hsize : (record.values.map HeapFilePage.valueSize).sum + 36 ≤ room) :
    ∃ rid hf', hf.insertPass record txId firstRid = .ok (some rid, hf') ∧
      HasRoom hf' (room - ((record.values.map HeapFilePage.valueSize).sum + 36)) := by
  obtain ⟨p, sp, hopen, hr, hnumber, hroom⟩ := h
  have hle := sp.floor_le
  have hfloor : sp.floor = 8 + 4 * sp.slots.length + sp.freeSpace := rfl
  have hneed : insertSize sp.slots.length sp.contents.firstFree record ≤
      (record.values.map HeapFilePage.valueSize).sum + 36 := by
    unfold insertSize
    split <;> omega
  have hspec := tryInsertRecord_spec hr hfits (by rw [hnumber]; norm_num)
    (lt_of_le_of_lt (hneed.trans (hsize.trans hroom)) (by omega))
  rcases hspec with ⟨hfull, _⟩ | ⟨p', sp', hfree, hok, hid, hr', hcontents⟩
  · omega
  · refine ⟨⟨p.pageId.pageNumber, sp.contents.firstFree⟩, hf.setPage hf.lastInsertPage p', ?_, p',
      sp', ?_, hr', by rw [hid, hnumber], by omega⟩
    · simp only [HeapFile.insertPass, hopen, Outcome.ok_bind, hok]
    · -- the page has a slot, so it opens as it is
      have hlaid : HeapFilePage.Laid hf.schema p' sp'.contents := by
        refine ⟨sp', hr', rfl, fun hnil => ?_⟩
        have hlen : sp'.contents.length = 0 := by rw [sp'.contents_length, hnil]; rfl
        rw [hcontents, Contents.place] at hlen
        split at hlen
        · rename_i hlt
          rw [List.length_set] at hlen
          omega
        · simp at hlen
      unfold HeapFile.openPage HeapFile.setPage
      rw [if_neg (by simp), if_neg (by simp)]
      simp only [Int.toNat_natCast, Function.update_self]
      exact hlaid.construct_eq

/-- Transaction 1 inserts a row: a state some run reaches. -/
theorem oneRow_reachable (fileId : FileId) : ∃ db first,
    (database oneIntColumn).Reachable db ∧ db.transactions.Runs 1 .readCommitted ∧
      db.transactions.transactionCount = 2 ∧ db.sessions 1 = .inserted first ∧
      db.lockTable first = none ∧ db.reports = [] ∧ HasRoom db.heapFile 4000 ∧
      Versions db.slot first [⟨first, 1, [.int 5]⟩] := by
  have hmatches := oneIntColumn_matches 5 (by simp [Value.Fits])
  obtain ⟨db₀, hdb₀⟩ : ∃ db₀, Database.create oneIntColumn fileId = db₀ := ⟨_, rfl⟩
  have h₀ : (database oneIntColumn).Reachable db₀ := .init ⟨fileId, hdb₀.symm⟩
  have hcount : db₀.transactions.transactionCount = 1 := by rw [← hdb₀]; rfl
  have h₁ := h₀.step (.start .readCommitted (by rw [hcount]; norm_num))
  obtain ⟨db₁, hdb₁⟩ : ∃ db₁, ({ db₀ with
    transactions := (db₀.transactions.startTransaction .readCommitted).2 } : Database) = db₁ :=
    ⟨_, rfl⟩
  rw [hdb₁] at h₁
  have hruns : db₁.transactions.Runs 1 .readCommitted := by
    rw [← hdb₁, ← hdb₀]
    exact ⟨⟨.readCommitted, [], .active⟩, rfl, rfl, rfl⟩
  have hcount₁ : db₁.transactions.transactionCount = 2 := by
    rw [← hdb₁, ← hdb₀]
    rfl
  have hfile : db₁.heapFile = HeapFile.create oneIntColumn.schema fileId := by
    rw [← hdb₁, ← hdb₀]
    rfl
  have hidle : db₁.sessions 1 = .idle := by
    rw [← hdb₁, ← hdb₀]
    rfl
  have h₂ := h₁.step (Step.beginInsert hidle hruns.active hmatches :
    Step oneIntColumn db₁ (1, .beginInsert ⟨[.int 5]⟩) _)
  have hfits : InsertFits oneIntColumn.schema ⟨[.int 5]⟩ 1 none :=
    ⟨by simp [Value.Fits], hmatches, by norm_num, fun _ h => by cases h⟩
  obtain ⟨rid, hf, hins, p, sp, hopen, hr, hnumber, hroom⟩ :=
    (hasRoom_create oneIntColumn.schema fileId).insertPass hfits (by simp [HeapFilePage.valueSize])
  have hfits : InsertFits db₁.heapFile.schema ⟨[.int 5]⟩ 1 none := by
    rw [hfile]
    exact hfits
  rw [← hfile] at hins
  have hvalid : db₁.heapFile.Valid := by rw [hfile]; exact (HeapFile.create_valid _ _).1
  obtain ⟨_, _, ⟨hres, _⟩ | ⟨first, hres, _, hslot⟩⟩ := hvalid.insertPass_ok hfits hins
  · cases hres
  obtain rfl := Option.some.inj hres
  refine ⟨_, rid, h₂.step (Step.insert (setSession_self ..) hins), hruns, hcount₁,
    setSession_self .., ?_, ?_, ⟨p, sp, hopen, hr, hnumber, ?_⟩, rfl, ?_, ?_, trivial⟩
  · rw [← hdb₁, ← hdb₀]
    rfl
  · rw [← hdb₁, ← hdb₀]
    rfl
  · exact le_trans (by simp [HeapFilePage.valueSize]) hroom
  · intro v hv
    rw [List.mem_singleton.mp hv]
    exact one_ne_zero
  · show hf.slot rid = _
    rw [hslot, Function.update_self]
    rfl

/-- Its own scan shows the row, followed by its RID. -/
theorem scan_sees_oneRow : ∃ db rows first,
    (database oneIntColumn).Reachable db ∧ db.transactions.Runs 1 .readCommitted ∧
      ScanSees db 1 rows ∧ rowsOf rows first = [⟨[.int 5, .rid first]⟩] := by
  obtain ⟨db, first, hreach, hruns, _, _, _, _, _, hvs⟩ := oneRow_reachable ⟨3⟩
  obtain ⟨⟨rows, _, hsees⟩, _⟩ := scan_sees hreach hruns
  refine ⟨db, rows, first, hreach, hruns, hsees, ?_⟩
  rw [hsees.tuples first _ hvs]
  simp [rowOf, expected, newest, Record.pushRid]

end Iic3413Db.Mvcc
