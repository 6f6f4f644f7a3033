/-
  System/CatalogFile.lean --- the constructor and the destructor of `Catalog`: the
  file the tables and the counters are kept in between two runs.

  The destructor overwrites the file in place and never truncates it, so what was
  there before may stay behind the last byte written.  The format is given by
  `Catalog.encode`; the writer writes it and the reader stops at its end.
-/
import Iic3413Db.System.Catalog

set_option autoImplicit false

namespace Iic3413Db.System

open Iic3413Db.Foundation Iic3413Db.RelationalModel Iic3413Db.Storage

/-- An `std::fstream`: the bytes before its position and those after it. -/
structure FileCursor where
  before : List UInt8
  after : List UInt8
  deriving DecidableEq, Repr

namespace FileCursor

/-- The file. -/
def bytes (f : FileCursor) : List UInt8 := f.before ++ f.after

/-- `file.seekg(0, file.beg)`. -/
def rewind (f : FileCursor) : FileCursor := ⟨[], f.bytes⟩

/-- `file.write`. -/
def write (f : FileCursor) (data : List UInt8) : FileCursor :=
  ⟨f.before ++ data, f.after.drop data.length⟩

/-- `file.read`, if the file has so many bytes left. -/
def read (f : FileCursor) (n : Nat) : Option (List UInt8 × FileCursor) :=
  if n ≤ f.after.length then some (f.after.take n, ⟨f.before ++ f.after.take n, f.after.drop n⟩)
  else none

/-- `read_int64`. -/
def readInt64 (f : FileCursor) : Outcome (Int × FileCursor) :=
  match f.read 8 with
  | none => .error (.runtimeError "Error reading int64")
  | some (buf, f) => .ok (intValue buf, f)

/-- `read_string`, which does not look whether the bytes were there. -/
def readString (f : FileCursor) : Outcome (List UInt8 × FileCursor) := do
  let (len, f) ← f.readInt64
  if len < 0 then .error (.runtimeError "std::bad_array_new_length")
  else
    match f.read len.toNat with
    | none => .error (.undefinedBehaviour "string from an uninitialised buffer")
    | some (buf, f) => .ok (buf, f)

/-- `write_int64`. -/
def writeInt64 (f : FileCursor) (n : Int) : FileCursor := f.write (intBytes 8 n)

/-- `write_string`. -/
def writeString (f : FileCursor) (s : List UInt8) : FileCursor :=
  (f.writeInt64 s.length).write s

end FileCursor

/-! ## The two traversals -/

/-- The value of an `int64_t` that is assigned to a `uint64_t`. -/
def uint64 (i : Int) : Nat := (i % 2 ^ 64).toNat

/-- `static_cast<int64_t>(datatype)`. -/
def dataTypeCode : DataType → Int
  | .str => 0
  | .int => 1
  | .rid => 2
  | .invalid => 3

/-- `static_cast<DataType>`, of the numbers that have a name. -/
def dataTypeOf (i : Int) : Outcome DataType :=
  if i = 0 then .ok .str
  else if i = 1 then .ok .int
  else if i = 2 then .ok .rid
  else if i = 3 then .ok .invalid
  else .error (.undefinedBehaviour "a DataType without a name")

namespace Catalog

/-- A catalog whose file is new. -/
def new : Catalog := ⟨0, 1, fun _ => [], .empty⟩

/-- The loop over the columns of a table. -/
def readColumns (tableId : TableId) : Nat → FileCursor → Outcome (List TableColumn × FileCursor)
  | 0, f => .ok ([], f)
  | n + 1, f => do
      let (code, f) ← f.readInt64
      let datatype ← dataTypeOf code
      let (name, f) ← f.readString
      let (columns, f) ← readColumns tableId n f
      .ok (⟨name, datatype, tableId⟩ :: columns, f)

/-- One iteration of the loop over the tables. -/
def readTable (f : FileCursor) : Outcome (TableInfo × FileCursor) := do
  let (tableName, f) ← f.readString
  let (cardinality, f) ← f.readInt64
  let (tableId, f) ← f.readInt64
  let (count, f) ← f.readInt64
  let (columns, f) ← readColumns (uint64 tableId) count.toNat f
  let name ← normalize tableName
  if columns = [] then .error (.assertFailed "!schema.columns.empty()")
  else .ok (⟨name, columns, uint64 tableId, uint64 cardinality⟩, f)

/-- The loop over the tables. -/
def readTables : Nat → KeyedMap TableInfo.tableId → FileCursor →
    Outcome (KeyedMap TableInfo.tableId × FileCursor)
  | 0, tables, f => .ok (tables, f)
  | n + 1, tables, f => do
      let (info, f) ← readTable f
      readTables n (tables.insert info) f

/-- `Catalog::Catalog`, on a file with these bytes. -/
def load (bytes : List UInt8) : Outcome Catalog :=
  if bytes = [] then .ok new
  else do
    let f : FileCursor := ⟨[], bytes⟩
    let (transactionCount, f) ← f.readInt64
    let (tableIdCounter, f) ← f.readInt64
    let (tablesCount, f) ← f.readInt64
    let (tables, _) ← readTables tablesCount.toNat .empty f
    .ok ⟨uint64 tableIdCounter, uint64 transactionCount, fun _ => [], tables⟩

def writeColumns : List TableColumn → FileCursor → FileCursor
  | [], f => f
  | col :: cols, f => writeColumns cols ((f.writeInt64 (dataTypeCode col.datatype)).writeString col.name)

def writeTable (info : TableInfo) (f : FileCursor) : FileCursor :=
  let f := f.writeString info.name
  let f := f.writeInt64 info.cardinality
  let f := f.writeInt64 info.tableId
  let f := f.writeInt64 info.columns.length
  writeColumns info.columns f

def writeTables : List TableInfo → FileCursor → FileCursor
  | [], f => f
  | info :: infos, f => writeTables infos (writeTable info f)

/-- `Catalog::~Catalog`, over whatever the file holds. -/
def close (c : Catalog) (f : FileCursor) : List UInt8 :=
  let f := f.rewind
  let f := f.writeInt64 c.transactionCount
  let f := f.writeInt64 c.tableIdCounter
  let f := f.writeInt64 c.tables.entries.length
  (writeTables c.tables.entries f).bytes

/-! ## The format -/

def encodeString (s : List UInt8) : List UInt8 := intBytes 8 s.length ++ s

def encodeColumn (col : TableColumn) : List UInt8 :=
  intBytes 8 (dataTypeCode col.datatype) ++ encodeString col.name

def encodeTable (info : TableInfo) : List UInt8 :=
  encodeString info.name ++ (intBytes 8 info.cardinality ++ (intBytes 8 info.tableId ++
    (intBytes 8 info.columns.length ++ info.columns.flatMap encodeColumn)))

/-- What the destructor writes. -/
def encode (c : Catalog) : List UInt8 :=
  intBytes 8 c.transactionCount ++ (intBytes 8 c.tableIdCounter ++
    (intBytes 8 c.tables.entries.length ++ c.tables.entries.flatMap encodeTable))

end Catalog

namespace FileCursor

variable {f : FileCursor}

/-- Two writes are one. -/
theorem write_write (f : FileCursor) (a b : List UInt8) : (f.write a).write b = f.write (a ++ b) := by
  simp only [write, List.append_assoc, List.drop_drop, List.length_append]

theorem write_nil (f : FileCursor) : f.write [] = f := by
  simp [write]

end FileCursor

namespace Catalog

theorem writeColumns_eq (cols : List TableColumn) (f : FileCursor) :
    writeColumns cols f = f.write (cols.flatMap encodeColumn) := by
  induction cols generalizing f with
  | nil => exact (f.write_nil).symm
  | cons col cols ih =>
      rw [writeColumns, ih, List.flatMap_cons]
      simp only [FileCursor.writeInt64, FileCursor.writeString, FileCursor.write_write,
        encodeColumn, encodeString, List.append_assoc]

theorem writeTables_eq (infos : List TableInfo) (f : FileCursor) :
    writeTables infos f = f.write (infos.flatMap encodeTable) := by
  induction infos generalizing f with
  | nil => exact (f.write_nil).symm
  | cons info infos ih =>
      rw [writeTables, ih, List.flatMap_cons]
      simp only [writeTable, writeColumns_eq, FileCursor.writeInt64, FileCursor.writeString,
        FileCursor.write_write, encodeTable, encodeString, List.append_assoc]

/-- The file ends up with the encoding, and what was behind it before. -/
theorem close_eq (c : Catalog) (f : FileCursor) :
    c.close f = c.encode ++ f.bytes.drop c.encode.length := by
  simp only [close, writeTables_eq, FileCursor.writeInt64, FileCursor.write_write]
  simp only [FileCursor.rewind, FileCursor.write, FileCursor.bytes, List.nil_append, encode,
    List.append_assoc]

/-! ## Reading back -/

/-- The reader `r` reads the bytes `enc` as `x`, wherever they are. -/
def Reads {α : Type} (r : FileCursor → Outcome (α × FileCursor)) (enc : List UInt8) (x : α) : Prop :=
  ∀ before rest, r ⟨before, enc ++ rest⟩ = .ok (x, ⟨before ++ enc, rest⟩)

theorem read_append (before enc rest : List UInt8) :
    (⟨before, enc ++ rest⟩ : FileCursor).read enc.length = some (enc, ⟨before ++ enc, rest⟩) := by
  simp [FileCursor.read]

theorem reads_int64 {n : Int} (hlo : -2 ^ 63 ≤ n) (hhi : n < 2 ^ 63) :
    Reads FileCursor.readInt64 (intBytes 8 n) n := by
  intro before rest
  have hread := read_append before (intBytes 8 n) rest
  rw [intBytes_length] at hread
  simp only [FileCursor.readInt64, hread]
  rw [intValue_intBytes_of_range (by omega) (by omega)]

/-- A `uint64_t` that is written as an `int64_t` is read back as it was. -/
theorem reads_uint64 {n : Nat} (hn : n < 2 ^ 64) : ∃ i, uint64 i = n ∧
    Reads FileCursor.readInt64 (intBytes 8 (n : Int)) i := by
  refine ⟨Int.bmod n (256 ^ 8), ?_, fun before rest => ?_⟩
  · have hmod : Int.bmod n (256 ^ 8) % 2 ^ 64 = (n : Int) % 2 ^ 64 := by
      have h := Int.bmod_emod (x := (n : Int)) (m := 256 ^ 8)
      norm_num at h ⊢
      exact h
    rw [uint64, hmod, Int.emod_eq_of_lt (by omega) (by omega), Int.toNat_natCast]
  · have hread := read_append before (intBytes 8 (n : Int)) rest
    rw [intBytes_length] at hread
    simp only [FileCursor.readInt64, hread, intValue_intBytes]

theorem reads_string {s : List UInt8} (hs : s.length < 2 ^ 63) :
    Reads FileCursor.readString (encodeString s) s := by
  intro before rest
  have hlen := reads_int64 (n := s.length) (by omega) (by omega) before (s ++ rest)
  simp only [FileCursor.readString, encodeString, List.append_assoc, hlen, Outcome.ok_bind]
  rw [if_neg (by omega)]
  simp only [Int.toNat_natCast, read_append, List.append_assoc]

theorem dataTypeOf_code (d : DataType) : dataTypeOf (dataTypeCode d) = .ok d := by
  cases d <;> rfl

theorem dataTypeCode_range (d : DataType) : -2 ^ 63 ≤ dataTypeCode d ∧ dataTypeCode d < 2 ^ 63 := by
  cases d <;> decide

/-- The numbers fit their types, and no string or vector is longer than
`max_size()`. -/
structure InfoFits (info : TableInfo) : Prop where
  name : info.name.length < 2 ^ 63
  columns : info.columns.length < 2 ^ 63
  columnNames : ∀ col ∈ info.columns, col.name.length < 2 ^ 63
  tableId : info.tableId < 2 ^ 64
  cardinality : info.cardinality < 2 ^ 64

/-- The same, for a catalog. -/
structure Fits (c : Catalog) : Prop where
  tableIdCounter : c.tableIdCounter < 2 ^ 64
  transactionCount : c.transactionCount < 2 ^ 64
  tables : c.tables.entries.length < 2 ^ 63
  infos : ∀ info ∈ c.tables.entries, InfoFits info

theorem reads_columns {tableId : TableId} {cols : List TableColumn}
    (hlen : ∀ col ∈ cols, col.name.length < 2 ^ 63) (hids : ∀ col ∈ cols, col.tableId = tableId) :
    Reads (readColumns tableId cols.length) (cols.flatMap encodeColumn) cols := by
  induction cols with
  | nil => exact fun before rest => by simp [readColumns]
  | cons col cols ih =>
      intro before rest
      have ih := ih (fun c hc => hlen c (List.mem_cons_of_mem _ hc))
        fun c hc => hids c (List.mem_cons_of_mem _ hc)
      obtain ⟨hlo, hhi⟩ := dataTypeCode_range col.datatype
      have hid : col.tableId = tableId := hids col List.mem_cons_self
      simp only [List.length_cons, readColumns, List.flatMap_cons, encodeColumn, List.append_assoc,
        reads_int64 hlo hhi _ _, Outcome.ok_bind, dataTypeOf_code,
        reads_string (hlen col List.mem_cons_self) _ _, ih _ _]
      rw [← hid]

/-- A table `create_table` made, with any cardinality since. -/
def MadeByCreate (info : TableInfo) : Prop :=
  ∃ (c c' : Catalog) (tableName : List UInt8) (columns : List TableColumn) (txId : TxID),
    c.createTable tableName columns txId = .ok ({ info with cardinality := 0 }, c')

/-- What `create_table` makes has a normal name, a column, and its own id in each
column. -/
theorem MadeByCreate.spec {info : TableInfo} (h : MadeByCreate info) :
    normalize info.name = .ok info.name ∧ info.columns ≠ [] ∧
      ∀ col ∈ info.columns, col.tableId = info.tableId := by
  obtain ⟨c, c', tableName, columns, txId, h⟩ := h
  unfold createTable at h
  cases hname : c.checkName tableName txId with
  | error e => simp [hname] at h
  | ok name =>
      simp only [hname, Outcome.ok_bind] at h
      cases hfinal : finalColumns columns c.nextTableId.1 with
      | error e => simp [hfinal] at h
      | ok final =>
          simp only [hfinal, Outcome.ok_bind, Except.ok.injEq, Prod.mk.injEq, TableInfo.mk.injEq]
            at h
          obtain ⟨⟨rfl, rfl, hid, _⟩, _⟩ := h
          refine ⟨normalize_normal (checkName_ok hname).1, ?_⟩
          unfold finalColumns at hfinal
          split at hfinal
          · cases hfinal
          · split at hfinal
            · cases hfinal
            · have hfinal := Except.ok.inj hfinal
              refine ⟨?_, fun col hcol => ?_⟩
              · rw [← hfinal]
                simp
              · rw [← hfinal] at hcol
                obtain ⟨col', _, rfl⟩ := List.mem_map.mp hcol
                exact hid

theorem reads_table {info : TableInfo} (hmade : MadeByCreate info) (hfits : InfoFits info) :
    Reads readTable (encodeTable info) info := by
  intro before rest
  obtain ⟨hname, hne, hids⟩ := hmade.spec
  obtain ⟨card, hcard, hreadCard⟩ := reads_uint64 hfits.cardinality
  obtain ⟨id, hid, hreadId⟩ := reads_uint64 hfits.tableId
  have hcolumns := hfits.columns
  have hcount := reads_int64 (n := info.columns.length) (by omega) (by omega)
  have hcols : Reads (readColumns (uint64 id) info.columns.length) _ info.columns :=
    reads_columns hfits.columnNames (by rwa [hid])
  simp only [readTable, encodeTable, List.append_assoc, reads_string hfits.name _ _,
    Outcome.ok_bind, hreadCard _ _, hreadId _ _, hcount _ _, Int.toNat_natCast, hcols _ _, hname]
  rw [if_neg hne, hid, hcard]

/-- Reading the tables in order puts them behind those that are there. -/
theorem reads_tables {infos : List TableInfo} {m : KeyedMap TableInfo.tableId}
    (hmade : ∀ info ∈ infos, MadeByCreate info) (hfits : ∀ info ∈ infos, InfoFits info)
    (hsorted : (m.entries ++ infos).Pairwise fun x y => x.tableId < y.tableId) :
    ∃ m', m'.entries = m.entries ++ infos ∧
      Reads (readTables infos.length m) (infos.flatMap encodeTable) m' := by
  induction infos generalizing m with
  | nil => exact ⟨m, (List.append_nil _).symm, fun before rest => by simp [readTables]⟩
  | cons info infos ih =>
      obtain ⟨_, _, hcross⟩ := List.pairwise_append.mp hsorted
      have hlast : (m.insert info).entries = m.entries ++ [info] :=
        KeyedMap.insert_entries_last fun x hx => hcross x hx info List.mem_cons_self
      have hsplit : (m.insert info).entries ++ infos = m.entries ++ info :: infos := by
        rw [hlast, List.append_assoc]
        rfl
      obtain ⟨m', hm', hreads⟩ := ih (m := m.insert info)
        (fun i hi => hmade i (List.mem_cons_of_mem _ hi))
        (fun i hi => hfits i (List.mem_cons_of_mem _ hi)) (by rwa [hsplit])
      refine ⟨m', hm'.trans hsplit, fun before rest => ?_⟩
      have htable := reads_table (hmade info List.mem_cons_self) (hfits info List.mem_cons_self)
      simp only [List.length_cons, readTables, List.flatMap_cons, List.append_assoc, htable _ _,
        Outcome.ok_bind, hreads _ _]

/-- The constructor reads a written catalog back, whatever follows it in the file. -/
theorem load_encode {c : Catalog} (hmade : ∀ info ∈ c.tables.entries, MadeByCreate info)
    (hfits : c.Fits) (rest : List UInt8) :
    load (c.encode ++ rest) = .ok { c with inProcessTables := fun _ => [] } := by
  obtain ⟨count, hcount, hreadCount⟩ := reads_uint64 hfits.transactionCount
  obtain ⟨counter, hcounter, hreadCounter⟩ := reads_uint64 hfits.tableIdCounter
  have htables := hfits.tables
  have hlength := reads_int64 (n := c.tables.entries.length) (by omega) (by omega)
  obtain ⟨m, hm, hreadTables⟩ := reads_tables (m := .empty) hmade hfits.infos
    (by simpa using c.tables.sorted)
  have hm : m = c.tables := KeyedMap.ext (by simpa using hm)
  have hne : c.encode ++ rest ≠ [] := by
    intro hnil
    have hlen := congrArg List.length hnil
    rw [encode] at hlen
    simp at hlen
  rw [load, if_neg hne, encode]
  simp only [List.append_assoc, hreadCount _ _, Outcome.ok_bind, hreadCounter _ _, hlength _ _,
    Int.toNat_natCast, hreadTables _ _, hm, hcounter, hcount]

/-- The constructor restores from the file the destructor leaves, whatever the file
held before, the counters and the committed tables. -/
theorem load_close {c : Catalog} (hmade : ∀ info ∈ c.tables.entries, MadeByCreate info)
    (hfits : c.Fits) (f : FileCursor) :
    load (c.close f) = .ok { c with inProcessTables := fun _ => [] } := by
  obtain ⟨count, hcount, hreadCount⟩ := reads_uint64 hfits.transactionCount
  obtain ⟨counter, hcounter, hreadCounter⟩ := reads_uint64 hfits.tableIdCounter
  have htables := hfits.tables
  have hlength := reads_int64 (n := c.tables.entries.length) (by omega) (by omega)
  obtain ⟨m, hm, hreadTables⟩ := reads_tables (m := .empty) hmade hfits.infos
    (by simpa using c.tables.sorted)
  have hm : m = c.tables := KeyedMap.ext (by simpa using hm)
  have hne : c.close f ≠ [] := by
    intro hnil
    have hlen := congrArg List.length hnil
    rw [close_eq, encode] at hlen
    simp at hlen
  rw [load, if_neg hne, close_eq, encode]
  simp only [List.append_assoc, hreadCount _ _, Outcome.ok_bind, hreadCounter _ _, hlength _ _,
    Int.toNat_natCast, hreadTables _ _, hm, hcounter, hcount]

/-- A catalog with the table `t (a INT)`, which has three rows. -/
def oneTable : Catalog :=
  ⟨1, 2, fun _ => [], KeyedMap.empty.insert
    ⟨[116], [⟨[97], .int, 0⟩, ⟨ridName, .rid, 0⟩], 0, 3⟩⟩

/-- It comes back from a file that held three other bytes. -/
theorem load_close_oneTable : load (oneTable.close ⟨[], [1, 2, 3]⟩) = .ok oneTable := by
  have hentries : oneTable.tables.entries =
      [⟨[116], [⟨[97], .int, 0⟩, ⟨ridName, .rid, 0⟩], 0, 3⟩] := rfl
  refine load_close ?_ ⟨?_, ?_, ?_, ?_⟩ ⟨[], [1, 2, 3]⟩
  · rw [hentries]
    intro info hinfo
    rw [List.mem_singleton.mp hinfo]
    exact ⟨new, _, [116], [⟨[97], .int, 0⟩], 1, rfl⟩
  · norm_num [oneTable]
  · norm_num [oneTable]
  · rw [hentries]
    norm_num
  · rw [hentries]
    intro info hinfo
    rw [List.mem_singleton.mp hinfo]
    exact ⟨by norm_num, by norm_num, by norm_num [ridName], by norm_num, by norm_num⟩

end Catalog

end Iic3413Db.System
