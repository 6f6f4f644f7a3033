/-
  System/Catalog.lean --- `system/catalog.cc`: the tables, those a transaction has
  created and not committed, and the two counters.

  A `std::string` is its bytes here.  `create_table` and `commit_transaction` hold
  `tables_mutex` for parts of their work only; each part is a function, and the
  modules that interleave transactions put the parts together.  The heap file of
  a table is another module's subject: a table is its name, its columns, its id
  and its cardinality.
-/
import Iic3413Db.Foundation.KeyedMap
import Iic3413Db.Storage.HeapFile.HeapFilePage

set_option autoImplicit false

namespace Iic3413Db.System

open Iic3413Db.Foundation Iic3413Db.RelationalModel Iic3413Db.Storage

/-- `using TableId = size_t`. -/
abbrev TableId : Type := Nat

/-- `struct ColumnInfo`, with the table it belongs to. -/
structure TableColumn where
  name : List UInt8
  datatype : DataType
  tableId : TableId
  deriving DecidableEq, Repr

/-- `struct TableInfo`. -/
structure TableInfo where
  name : List UInt8
  columns : List TableColumn
  tableId : TableId
  cardinality : Nat
  deriving DecidableEq, Repr

/-- `class Catalog`; an id without an entry in `in_process_tables` has no table
there. -/
structure Catalog where
  tableIdCounter : TableId
  transactionCount : TxID
  inProcessTables : TxID → List TableInfo
  tables : KeyedMap TableInfo.tableId

namespace Catalog

/-! ## Names -/

/-- The characters of a message. -/
def text (s : List UInt8) : String := String.ofList (s.map fun c => Char.ofNat c.toNat)

/-- `std::tolower`. -/
def toLower (c : UInt8) : UInt8 := if 65 ≤ c ∧ c ≤ 90 then c + 32 else c

/-- `a` to `z` and the underscore. -/
def nameChar (c : UInt8) : Bool := decide (97 ≤ c ∧ c ≤ 122 ∨ c = 95)

/-- `normalize`. -/
def normalize (tableName : List UInt8) : Outcome (List UInt8) :=
  let res := tableName.map toLower
  if res.all nameChar then .ok res
  else .error (.queryException
    s!"wrong table name: `{text tableName}`. Only a-z letters and underscore ('_') are allowed.")

/-! ## Lookup -/

/-- `get_table_info`, by name. -/
def getTableInfo (c : Catalog) (tableName : List UInt8) (txId : TxID) :
    Outcome (Option TableInfo) := do
  let name ← normalize tableName
  .ok ((c.tables.entries.find? fun info => info.name = name).or
    ((c.inProcessTables txId).find? fun info => info.name = name))

/-- `get_table_info`, by id. -/
def getTableInfoById (c : Catalog) (tableId : TableId) (txId : TxID) : Option TableInfo :=
  (c.tables.entries.find? fun info => info.tableId = tableId).or
    ((c.inProcessTables txId).find? fun info => info.tableId = tableId)

/-! ## Creating a table -/

/-- The first part of `create_table`: the name, if no table has it. -/
def checkName (c : Catalog) (tableName : List UInt8) (txId : TxID) : Outcome (List UInt8) := do
  let name ← normalize tableName
  match ← c.getTableInfo name txId with
  | some _ => .error (.queryException s!"Table `{text tableName}` already exists.")
  | none => .ok name

/-- `table_id_counter.fetch_add(1)`. -/
def nextTableId (c : Catalog) : TableId × Catalog :=
  (c.tableIdCounter, { c with tableIdCounter := c.tableIdCounter + 1 })

/-- The name of the implicit column. -/
def ridName : List UInt8 := [82, 73, 68]

/-- `final_schema`: the declared columns and the implicit RID column. -/
def finalColumns (columns : List TableColumn) (tableId : TableId) : Outcome (List TableColumn) :=
  match columns.getLast? with
  | none => .error (.undefinedBehaviour "final_schema.columns[final_schema.columns.size() - 1]")
  | some last =>
      if last.datatype = .rid then .error (.assertFailed "datatype != DataType::RID")
      else
        let columns : List TableColumn := columns ++ [⟨ridName, .rid, tableId⟩]
        .ok (columns.map fun col => { col with tableId := tableId })

/-- `in_process_tables[tx_id].push_back`. -/
def addTable (c : Catalog) (txId : TxID) (info : TableInfo) : Catalog :=
  { c with inProcessTables :=
      Function.update c.inProcessTables txId (c.inProcessTables txId ++ [info]) }

/-- `create_table`, with nothing in between. -/
def createTable (c : Catalog) (tableName : List UInt8) (columns : List TableColumn) (txId : TxID) :
    Outcome (TableInfo × Catalog) := do
  let name ← c.checkName tableName txId
  let (tableId, c) := c.nextTableId
  let final ← finalColumns columns tableId
  let info : TableInfo := ⟨name, final, tableId, 0⟩
  .ok (info, c.addTable txId info)

/-! ## The end of a transaction -/

/-- The first table of the transaction whose name is taken. -/
def nameClash (c : Catalog) (txId : TxID) : Option TableInfo :=
  (c.inProcessTables txId).find? fun info =>
    c.tables.entries.any fun committed => info.name = committed.name

/-- `commit_in_progress_tables`. -/
def commitInProgressTables (c : Catalog) (txId : TxID) : Outcome Catalog :=
  match c.nameClash txId with
  | some info => .error (.transactionAbortException
      s!"Cannot commit transaction {txId} because it creates a table with name `{text info.name}` that already exists.")
  | none => .ok { c with
      tables := (c.inProcessTables txId).foldl KeyedMap.insert c.tables
      inProcessTables := Function.update c.inProcessTables txId [] }

/-- `abort_in_progress_tables`. -/
def abortInProgressTables (c : Catalog) (txId : TxID) : Catalog :=
  { c with inProcessTables := Function.update c.inProcessTables txId [] }

/-- `cardinality += delta`, of one table. -/
def addCardinality (tableId : TableId) (delta : Int) (info : TableInfo) : TableInfo :=
  if info.tableId = tableId then
    { info with cardinality := ((info.cardinality + delta) % 2 ^ 64).toNat }
  else info

theorem addCardinality_tableId (tableId : TableId) (delta : Int) (info : TableInfo) :
    (addCardinality tableId delta info).tableId = info.tableId := by
  unfold addCardinality
  split <;> rfl

theorem addCardinality_name (tableId : TableId) (delta : Int) (info : TableInfo) :
    (addCardinality tableId delta info).name = info.name := by
  unfold addCardinality
  split <;> rfl

/-- `update_cardinality`. -/
def updateCardinality (c : Catalog) (tableId : TableId) (delta : Int) : Catalog :=
  { c with tables := c.tables.map (addCardinality tableId delta) (addCardinality_tableId _ _) }

/-! ## What the functions do -/

variable {c c' : Catalog} {txId : TxID} {name tableName : List UInt8} {info : TableInfo}

theorem toLower_of_nameChar {ch : UInt8} (h : nameChar ch = true) : toLower ch = ch := by
  simp only [nameChar, decide_eq_true_eq] at h
  unfold toLower
  rw [if_neg]
  rcases h with ⟨h, _⟩ | rfl
  · exact fun hupper => absurd (UInt8.le_trans h hupper.2) (by decide)
  · decide

/-- A normalized name is its own normal form. -/
theorem normalize_normal (h : ∀ ch ∈ name, nameChar ch = true) : normalize name = .ok name := by
  have hmap : name.map toLower = name := by
    conv_rhs => rw [← List.map_id name]
    exact List.map_congr_left fun ch hch => toLower_of_nameChar (h ch hch)
  simp only [normalize, hmap]
  rw [if_pos (List.all_eq_true.mpr h)]

theorem normalize_ok (h : normalize tableName = .ok name) : ∀ ch ∈ name, nameChar ch = true := by
  simp only [normalize] at h
  split at h
  · rename_i hall
    cases h
    exact List.all_eq_true.mp hall
  · cases h

/-- A name that passed the check is normal, and neither a committed table nor one
of the transaction has it. -/
theorem checkName_ok (h : c.checkName tableName txId = .ok name) :
    (∀ ch ∈ name, nameChar ch = true) ∧ (∀ info ∈ c.tables.entries, info.name ≠ name) ∧
      ∀ info ∈ c.inProcessTables txId, info.name ≠ name := by
  unfold checkName at h
  cases hnorm : normalize tableName with
  | error e => simp [hnorm] at h
  | ok n =>
      have hchars := normalize_ok hnorm
      simp only [hnorm, Outcome.ok_bind, getTableInfo, normalize_normal hchars] at h
      split at h
      · cases h
      · rename_i hnone
        cases h
        obtain ⟨hcommitted, hown⟩ := Option.or_eq_none_iff.mp hnone
        exact ⟨hchars, by simpa using hcommitted, by simpa using hown⟩

/-- A lookup by name returns a table with that name that is committed or the
transaction's own. -/
theorem getTableInfo_some (h : c.getTableInfo tableName txId = .ok (some info)) :
    normalize tableName = .ok info.name ∧
      (info ∈ c.tables.entries ∨ info ∈ c.inProcessTables txId) := by
  unfold getTableInfo at h
  cases hnorm : normalize tableName with
  | error e => simp [hnorm] at h
  | ok n =>
      simp only [hnorm, Outcome.ok_bind, Except.ok.injEq, Option.or_eq_some_iff] at h
      rcases h with h | ⟨_, h⟩
      · have hname : info.name = n := by simpa using List.find?_some h
        exact ⟨by rw [hname], .inl (List.mem_of_find?_eq_some h)⟩
      · have hname : info.name = n := by simpa using List.find?_some h
        exact ⟨by rw [hname], .inr (List.mem_of_find?_eq_some h)⟩

theorem getTableInfoById_some {tableId : TableId} (h : c.getTableInfoById tableId txId = some info) :
    info.tableId = tableId ∧ (info ∈ c.tables.entries ∨ info ∈ c.inProcessTables txId) := by
  rcases Option.or_eq_some_iff.mp h with h | ⟨_, h⟩
  · exact ⟨by simpa using List.find?_some h, .inl (List.mem_of_find?_eq_some h)⟩
  · exact ⟨by simpa using List.find?_some h, .inr (List.mem_of_find?_eq_some h)⟩

/-- A lookup by id finds every table the transaction may use. -/
theorem getTableInfoById_isSome {tableId : TableId}
    (h : ∃ info, (info ∈ c.tables.entries ∨ info ∈ c.inProcessTables txId) ∧
      info.tableId = tableId) : (c.getTableInfoById tableId txId).isSome := by
  obtain ⟨info, hin, hid⟩ := h
  rw [getTableInfoById, Option.isSome_or, Bool.or_eq_true, List.find?_isSome, List.find?_isSome]
  rcases hin with hin | hin
  · exact .inl ⟨info, hin, by simpa using hid⟩
  · exact .inr ⟨info, hin, by simpa using hid⟩

/-- Some table of the transaction has the name of a committed one. -/
def Clashes (c : Catalog) (txId : TxID) : Prop :=
  ∃ info ∈ c.inProcessTables txId, ∃ committed ∈ c.tables.entries, info.name = committed.name

/-- The two ways a commit of the catalog can end. -/
theorem commitInProgressTables_cases (c : Catalog) (txId : TxID) :
    c.Clashes txId ∧
      (∃ msg, c.commitInProgressTables txId = .error (.transactionAbortException msg)) ∨
    ¬ c.Clashes txId ∧ c.commitInProgressTables txId = .ok { c with
      tables := (c.inProcessTables txId).foldl KeyedMap.insert c.tables
      inProcessTables := Function.update c.inProcessTables txId [] } := by
  unfold commitInProgressTables
  cases hclash : c.nameClash txId with
  | some info =>
      have hin := List.mem_of_find?_eq_some hclash
      have htaken := List.find?_some hclash
      simp only [List.any_eq_true, decide_eq_true_eq] at htaken
      exact .inl ⟨⟨info, hin, htaken⟩, _, rfl⟩
  | none =>
      refine .inr ⟨?_, rfl⟩
      rintro ⟨info, hin, committed, hcommitted, hname⟩
      have hfree := List.find?_eq_none.mp hclash info hin
      exact hfree (List.any_eq_true.mpr ⟨committed, hcommitted, decide_eq_true hname⟩)

/-- The entries after a number of inserts with keys of their own. -/
theorem mem_foldl_insert {infos : List TableInfo} {m : KeyedMap TableInfo.tableId}
    (hnodup : (infos.map TableInfo.tableId).Nodup)
    (hfresh : ∀ info ∈ infos, ∀ x ∈ m.entries, x.tableId ≠ info.tableId) :
    info ∈ (infos.foldl KeyedMap.insert m).entries ↔ info ∈ m.entries ∨ info ∈ infos := by
  induction infos generalizing m with
  | nil => simp
  | cons i is ih =>
      obtain ⟨hi, hnodup⟩ := List.nodup_cons.mp hnodup
      rw [List.foldl_cons, ih hnodup, KeyedMap.mem_insert, List.mem_cons]
      · have hkey := hfresh i List.mem_cons_self
        tauto
      · intro j hj x hx
        rcases KeyedMap.mem_insert.mp hx with hx | ⟨rfl, _⟩
        · exact hfresh j (List.mem_cons_of_mem i hj) x hx
        · exact fun heq => hi (heq ▸ List.mem_map_of_mem hj)

end Catalog

end Iic3413Db.System
