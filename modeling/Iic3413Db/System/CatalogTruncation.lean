/-
  System/CatalogTruncation.lean --- the constructor of `Catalog` on a file that
  ends too early.

  `FileCursor.readString` stops where the bytes of a string are missing.  Here the
  stream goes on as it does in C++: a read that comes up short fails the stream and
  leaves the rest of the buffer as it was, `read_int64` looks at the stream
  afterwards and `read_string` does not.  The buffer of a string is not initialised,
  so its bytes are a parameter.
-/
import Iic3413Db.System.CatalogFile

set_option autoImplicit false

namespace Iic3413Db.System

open Iic3413Db.Foundation Iic3413Db.RelationalModel Iic3413Db.Storage

/-- An `std::fstream`: what is left of the file, and `good()`. -/
structure Stream where
  after : List UInt8
  good : Bool
  deriving DecidableEq, Repr

/-- The bytes of a new buffer, by what is left of the file when it is made. -/
abbrev Heap : Type := List UInt8 → Nat → UInt8

namespace Stream

/-- `file.read` into a buffer of `n` bytes. -/
def read (heap : Heap) (s : Stream) (n : Nat) : List UInt8 × Stream :=
  let old := (List.range n).map (heap s.after)
  if s.good then
    if n ≤ s.after.length then (s.after.take n, ⟨s.after.drop n, true⟩)
    else (s.after ++ old.drop s.after.length, ⟨[], false⟩)
  else (old, s)

/-- `read_int64`. -/
def readInt64 (heap : Heap) (s : Stream) : Outcome (Int × Stream) :=
  let (buf, s) := s.read heap 8
  if s.good then .ok (intValue buf, s) else .error (.runtimeError "Error reading int64")

/-- `read_string`. -/
def readString (heap : Heap) (s : Stream) : Outcome (List UInt8 × Stream) := do
  let (len, s) ← s.readInt64 heap
  if len < 0 then .error (.runtimeError "std::bad_array_new_length")
  else .ok (s.read heap len.toNat)

end Stream

namespace Catalog

section Reader

variable (heap : Heap)

/-- The loop over the columns of a table. -/
def streamColumns (tableId : TableId) : Nat → Stream → Outcome (List TableColumn × Stream)
  | 0, s => .ok ([], s)
  | n + 1, s => do
      let (code, s) ← s.readInt64 heap
      let datatype ← dataTypeOf code
      let (name, s) ← s.readString heap
      let (columns, s) ← streamColumns tableId n s
      .ok (⟨name, datatype, tableId⟩ :: columns, s)

/-- One iteration of the loop over the tables. -/
def streamTable (s : Stream) : Outcome (TableInfo × Stream) := do
  let (tableName, s) ← s.readString heap
  let (cardinality, s) ← s.readInt64 heap
  let (tableId, s) ← s.readInt64 heap
  let (count, s) ← s.readInt64 heap
  let (columns, s) ← streamColumns heap (uint64 tableId) count.toNat s
  let name ← normalize tableName
  if columns = [] then .error (.assertFailed "!schema.columns.empty()")
  else .ok (⟨name, columns, uint64 tableId, uint64 cardinality⟩, s)

/-- The loop over the tables. -/
def streamTables : Nat → KeyedMap TableInfo.tableId → Stream →
    Outcome (KeyedMap TableInfo.tableId × Stream)
  | 0, tables, s => .ok (tables, s)
  | n + 1, tables, s => do
      let (info, s) ← streamTable heap s
      streamTables n (tables.insert info) s

/-- `Catalog::Catalog`, on a file with these bytes. -/
def streamLoad (bytes : List UInt8) : Outcome Catalog :=
  if bytes = [] then .ok new
  else do
    let s : Stream := ⟨bytes, true⟩
    let (transactionCount, s) ← s.readInt64 heap
    let (tableIdCounter, s) ← s.readInt64 heap
    let (tablesCount, s) ← s.readInt64 heap
    let (tables, _) ← streamTables heap tablesCount.toNat .empty s
    .ok ⟨uint64 tableIdCounter, uint64 transactionCount, fun _ => [], tables⟩

end Reader

/-! ## Where nothing is missing -/

section Agree

variable (heap : Heap) {f f' : FileCursor}

theorem readInt64_agrees {i : Int} (h : f.readInt64 = .ok (i, f')) :
    (⟨f.after, true⟩ : Stream).readInt64 heap = .ok (i, ⟨f'.after, true⟩) := by
  unfold FileCursor.readInt64 FileCursor.read at h
  split at h
  · cases h
  · rename_i hread
    split at hread
    · rename_i hle
      cases hread
      cases h
      simp only [Stream.readInt64, Stream.read, if_true, if_pos hle]
    · cases hread

theorem readString_agrees {name : List UInt8} (h : f.readString = .ok (name, f')) :
    (⟨f.after, true⟩ : Stream).readString heap = .ok (name, ⟨f'.after, true⟩) := by
  unfold FileCursor.readString at h
  cases hlen : f.readInt64 with
  | error e => simp [hlen] at h
  | ok p =>
      obtain ⟨len, g⟩ := p
      simp only [hlen, Outcome.ok_bind] at h
      simp only [Stream.readString, readInt64_agrees heap hlen, Outcome.ok_bind]
      by_cases hneg : len < 0
      · rw [if_pos hneg] at h
        cases h
      · rw [if_neg hneg] at h ⊢
        unfold FileCursor.read at h
        by_cases hle : len.toNat ≤ g.after.length
        · rw [if_pos hle] at h
          cases h
          simp only [Stream.read, if_true, if_pos hle]
        · rw [if_neg hle] at h
          cases h

theorem readColumns_agrees {tableId : TableId} {n : Nat} {columns : List TableColumn}
    (h : readColumns tableId n f = .ok (columns, f')) :
    streamColumns heap tableId n ⟨f.after, true⟩ = .ok (columns, ⟨f'.after, true⟩) := by
  induction n generalizing f columns with
  | zero =>
      cases h
      rfl
  | succ n ih =>
      unfold readColumns at h
      cases hcode : f.readInt64 with
      | error e => simp [hcode] at h
      | ok p =>
          cases hd : dataTypeOf p.1 with
          | error e => simp [hcode, hd] at h
          | ok d =>
              cases hname : p.2.readString with
              | error e => simp [hcode, hd, hname] at h
              | ok q =>
                  cases hrest : readColumns tableId n q.2 with
                  | error e => simp [hcode, hd, hname, hrest] at h
                  | ok t =>
                      simp only [hcode, hd, hname, hrest, Outcome.ok_bind] at h
                      cases h
                      simp only [streamColumns, readInt64_agrees heap hcode, hd,
                        readString_agrees heap hname, ih hrest, Outcome.ok_bind]

theorem readTable_agrees {info : TableInfo} (h : readTable f = .ok (info, f')) :
    streamTable heap ⟨f.after, true⟩ = .ok (info, ⟨f'.after, true⟩) := by
  unfold readTable at h
  cases hname : f.readString with
  | error e => simp [hname] at h
  | ok p =>
      cases hcard : p.2.readInt64 with
      | error e => simp [hname, hcard] at h
      | ok q =>
          cases hid : q.2.readInt64 with
          | error e => simp [hname, hcard, hid] at h
          | ok t =>
              cases hcount : t.2.readInt64 with
              | error e => simp [hname, hcard, hid, hcount] at h
              | ok u =>
                  cases hcols : readColumns (uint64 t.1) u.1.toNat u.2 with
                  | error e => simp [hname, hcard, hid, hcount, hcols] at h
                  | ok v =>
                      cases hnorm : normalize p.1 with
                      | error e => simp [hname, hcard, hid, hcount, hcols, hnorm] at h
                      | ok name =>
                          simp only [hname, hcard, hid, hcount, hcols, hnorm, Outcome.ok_bind] at h
                          simp only [streamTable, readString_agrees heap hname,
                            readInt64_agrees heap hcard, readInt64_agrees heap hid,
                            readInt64_agrees heap hcount, readColumns_agrees heap hcols, hnorm,
                            Outcome.ok_bind]
                          split at h
                          · cases h
                          · rename_i hne
                            cases h
                            rw [if_neg hne]

theorem readTables_agrees {n : Nat} {m m' : KeyedMap TableInfo.tableId}
    (h : readTables n m f = .ok (m', f')) :
    streamTables heap n m ⟨f.after, true⟩ = .ok (m', ⟨f'.after, true⟩) := by
  induction n generalizing f m with
  | zero =>
      cases h
      rfl
  | succ n ih =>
      unfold readTables at h
      cases htable : readTable f with
      | error e => simp [htable] at h
      | ok p =>
          rw [htable, Outcome.ok_bind] at h
          rw [streamTables, readTable_agrees heap htable, Outcome.ok_bind]
          exact ih h

/-- A file the first reader loads is loaded by the stream, whatever the buffers hold. -/
theorem streamLoad_of_load {bytes : List UInt8} {c : Catalog} (h : load bytes = .ok c) :
    streamLoad heap bytes = .ok c := by
  unfold load at h
  unfold streamLoad
  by_cases hnil : bytes = []
  · rwa [if_pos hnil] at h ⊢
  · rw [if_neg hnil] at h ⊢
    cases hcount : (⟨[], bytes⟩ : FileCursor).readInt64 with
    | error e => simp [hcount] at h
    | ok p =>
        cases hcounter : p.2.readInt64 with
        | error e => simp [hcount, hcounter] at h
        | ok q =>
            cases hlen : q.2.readInt64 with
            | error e => simp [hcount, hcounter, hlen] at h
            | ok t =>
                cases htables : readTables t.1.toNat .empty t.2 with
                | error e => simp [hcount, hcounter, hlen, htables] at h
                | ok u =>
                    simp only [hcount, hcounter, hlen, htables, Outcome.ok_bind] at h
                    simp only [readInt64_agrees heap hcount, readInt64_agrees heap hcounter,
                      readInt64_agrees heap hlen, readTables_agrees heap htables, Outcome.ok_bind, h]

end Agree

/-! ## A reader on a whole encoding and on a part of it -/

section Readers

variable {α β : Type}

/-- The reader reads the bytes `enc` as `x` and leaves the rest. -/
def Accepts (r : Stream → Outcome (α × Stream)) (enc : List UInt8) (x : α) : Prop :=
  ∀ rest, r ⟨enc ++ rest, true⟩ = .ok (x, ⟨rest, true⟩)

/-- The reader throws. -/
def Stops (r : Stream → Outcome (α × Stream)) (s : Stream) : Prop :=
  ∃ msg, r s = .error (.runtimeError msg)

/-- The reader returns, and the stream has failed. -/
def Garbles (r : Stream → Outcome (α × Stream)) (s : Stream) : Prop :=
  ∃ x, r s = .ok (x, ⟨[], false⟩)

/-- On a strict prefix of `enc` the reader throws, unless the last `soft` bytes are
all that is affected. -/
def Cut (r : Stream → Outcome (α × Stream)) (enc : List UInt8) (soft : Nat) : Prop :=
  ∀ part, part <+: enc → part.length < enc.length →
    (part.length + soft < enc.length → Stops r ⟨part, true⟩) ∧
      (enc.length ≤ part.length + soft → Garbles r ⟨part, true⟩)

/-- One reader, and then another. -/
def andThen (r : Stream → Outcome (α × Stream)) (f : α → Stream → Outcome (β × Stream)) (s : Stream) :
    Outcome (β × Stream) := r s >>= fun p => f p.1 p.2

variable {r : Stream → Outcome (α × Stream)} {f : α → Stream → Outcome (β × Stream)}
  {enc enc' part : List UInt8} {soft soft' : Nat} {x : α} {s : Stream}

theorem Stops.andThen (h : Stops r s) : Stops (andThen r f) s := by
  obtain ⟨msg, hmsg⟩ := h
  exact ⟨msg, by rw [Catalog.andThen, hmsg, Outcome.error_bind]⟩

/-- A cut before the second reader stops the first, or fails the stream for a second
one that looks. -/
theorem Cut.andThen (haccepts : Accepts r enc x) (hcut : Cut r enc soft)
    (hfailed : soft = 0 ∨ ∀ y, Stops (f y) ⟨[], false⟩) (hcut' : Cut (f x) enc' soft')
    (hsoft : soft' ≤ enc'.length) : Cut (andThen r f) (enc ++ enc') soft' := by
  intro part hpart hlt
  rw [List.length_append] at hlt ⊢
  obtain ⟨rest, hrest⟩ := hpart
  rcases List.append_eq_append_iff.mp hrest with ⟨q, hq, -⟩ | ⟨q, rfl, hq⟩
  · by_cases hwhole : q = []
    · obtain rfl : enc = part := by rw [hq, hwhole, List.append_nil]
      have hstep : Catalog.andThen r f ⟨enc, true⟩ = f x ⟨[], true⟩ := by
        have h := haccepts []
        rw [List.append_nil] at h
        rw [Catalog.andThen, h, Outcome.ok_bind]
      obtain ⟨hstop, hgarble⟩ := hcut' [] List.nil_prefix (by simpa using by omega)
      simp only [Stops, Garbles, hstep]
      exact ⟨fun h => hstop (by simpa using by omega), fun h => hgarble (by simpa using by omega)⟩
    · have hshort : part.length < enc.length := by
        rw [hq, List.length_append]
        exact Nat.lt_add_of_pos_right (List.length_pos_iff.mpr hwhole)
      refine ⟨fun _ => ?_, fun h => absurd h (by omega)⟩
      obtain ⟨hstop, hgarble⟩ := hcut part ⟨q, hq.symm⟩ hshort
      rcases Nat.lt_or_ge (part.length + soft) enc.length with hlt' | hge
      · exact (hstop hlt').andThen
      · obtain ⟨y, hy⟩ := hgarble hge
        obtain ⟨msg, hmsg⟩ := (hfailed.resolve_left (by omega)) y
        exact ⟨msg, by rw [Catalog.andThen, hy, Outcome.ok_bind, hmsg]⟩
  · have hstep : Catalog.andThen r f ⟨enc ++ q, true⟩ = f x ⟨q, true⟩ := by
      rw [Catalog.andThen, haccepts, Outcome.ok_bind]
    rw [List.length_append] at hlt ⊢
    obtain ⟨hstop, hgarble⟩ := hcut' q ⟨rest, hq.symm⟩ (by omega)
    simp only [Stops, Garbles, hstep]
    exact ⟨fun h => hstop (by omega), fun h => hgarble (by omega)⟩

/-- A last step that reads nothing. -/
theorem Cut.finish {g : α → β} (hcut : Cut r enc soft)
    (hf : ∀ part y s, r ⟨part, true⟩ = .ok (y, s) → f y s = .ok (g y, s)) :
    Cut (Catalog.andThen r f) enc soft := by
  intro part hpart hlt
  obtain ⟨hstop, hgarble⟩ := hcut part hpart hlt
  refine ⟨fun h => (hstop h).andThen, fun h => ?_⟩
  obtain ⟨y, hy⟩ := hgarble h
  exact ⟨g y, by rw [Catalog.andThen, hy, Outcome.ok_bind, hf part y _ hy]⟩

theorem Accepts.andThen {y : β} (h : Accepts r enc x) (h' : Accepts (f x) enc' y) :
    Accepts (andThen r f) (enc ++ enc') y := by
  intro rest
  rw [List.append_assoc, Catalog.andThen, h, Outcome.ok_bind, h']

end Readers

/-! ## Integers and strings -/

section Streams

variable (heap : Heap)

theorem read_whole (enc rest : List UInt8) :
    (⟨enc ++ rest, true⟩ : Stream).read heap enc.length = (enc, ⟨rest, true⟩) := by
  simp [Stream.read]

theorem read_short {part : List UInt8} {n : Nat} (h : part.length < n) :
    (⟨part, true⟩ : Stream).read heap n =
      (part ++ ((List.range n).map (heap part)).drop part.length, ⟨[], false⟩) := by
  simp only [Stream.read, if_true, if_neg (Nat.not_le.mpr h)]

theorem accepts_int64 {n : Int} (hlo : -2 ^ 63 ≤ n) (hhi : n < 2 ^ 63) :
    Accepts (Stream.readInt64 heap) (intBytes 8 n) n := by
  intro rest
  have hread := read_whole heap (intBytes 8 n) rest
  rw [intBytes_length] at hread
  simp only [Stream.readInt64, hread, if_true]
  rw [intValue_intBytes_of_range (by omega) (by omega)]

theorem accepts_uint64 {n : Nat} (hn : n < 2 ^ 64) : ∃ i, uint64 i = n ∧
    Accepts (Stream.readInt64 heap) (intBytes 8 (n : Int)) i := by
  obtain ⟨i, hi, hreads⟩ := reads_uint64 hn
  refine ⟨i, hi, fun rest => ?_⟩
  have hvalue := hreads [] rest
  have hfile := read_append [] (intBytes 8 (n : Int)) rest
  have hread := read_whole heap (intBytes 8 (n : Int)) rest
  rw [intBytes_length] at hread hfile
  simp only [FileCursor.readInt64, hfile, Except.ok.injEq, Prod.mk.injEq] at hvalue
  simp only [Stream.readInt64, hread, if_true, hvalue.1]

/-- A failed stream gives no integer. -/
theorem readInt64_failed (rest : List UInt8) : Stops (Stream.readInt64 heap) ⟨rest, false⟩ :=
  ⟨"Error reading int64", by simp [Stream.readInt64, Stream.read]⟩

theorem cut_int64 (i : Int) : Cut (Stream.readInt64 heap) (intBytes 8 i) 0 := by
  intro part _ hlt
  rw [intBytes_length] at hlt ⊢
  refine ⟨fun _ => ⟨"Error reading int64", ?_⟩, fun h => absurd h (by omega)⟩
  simp [Stream.readInt64, read_short heap hlt]

/-- What `read_string` does after the length. -/
def stringBody (len : Int) (s : Stream) : Outcome (List UInt8 × Stream) :=
  if len < 0 then .error (.runtimeError "std::bad_array_new_length")
  else .ok (s.read heap len.toNat)

theorem readString_eq : Stream.readString heap = andThen (Stream.readInt64 heap) (stringBody heap) := rfl

theorem accepts_body (s : List UInt8) : Accepts (stringBody heap s.length) s s := by
  intro rest
  rw [stringBody, if_neg (by omega), Int.toNat_natCast, read_whole]

/-- The bytes of a string that is cut off come from the buffer. -/
theorem body_short {s part : List UInt8} (h : part.length < s.length) :
    stringBody heap s.length ⟨part, true⟩ =
      .ok (part ++ ((List.range s.length).map (heap part)).drop part.length, ⟨[], false⟩) := by
  rw [stringBody, if_neg (by omega), Int.toNat_natCast, read_short heap h]

theorem accepts_string {s : List UInt8} (hs : s.length < 2 ^ 63) :
    Accepts (Stream.readString heap) (encodeString s) s := by
  rw [readString_eq]
  exact (accepts_int64 heap (by omega) (by omega)).andThen (accepts_body heap s)

theorem readString_failed : Stops (Stream.readString heap) ⟨[], false⟩ := by
  rw [readString_eq]
  exact (readInt64_failed heap []).andThen

theorem cut_body (s : List UInt8) : Cut (stringBody heap s.length) s s.length :=
  fun _ _ hlt => ⟨fun h => absurd h (by omega), fun _ => ⟨_, body_short heap hlt⟩⟩

/-- A string fails softly, when its length has been read. -/
theorem cut_string {s : List UInt8} (hs : s.length < 2 ^ 63) :
    Cut (Stream.readString heap) (encodeString s) s.length := by
  rw [readString_eq]
  exact (cut_int64 heap s.length).andThen (accepts_int64 heap (by omega) (by omega)) (.inl rfl)
    (cut_body heap s) le_rfl

end Streams

/-! ## Tables -/

section Tables

variable (heap : Heap)

/-- The length of the last name that is written. -/
def lastName (columns : List TableColumn) : Nat :=
  (columns.getLast?.map fun col => col.name.length).getD 0

/-- The rest of the turn for one column. -/
def columnRest (tableId : TableId) (n : Nat) (code : Int) (s : Stream) :
    Outcome (List TableColumn × Stream) := do
  let datatype ← dataTypeOf code
  andThen (Stream.readString heap) (fun name => andThen (streamColumns heap tableId n)
    fun columns s => .ok (⟨name, datatype, tableId⟩ :: columns, s)) s

theorem streamColumns_succ (tableId : TableId) (n : Nat) :
    streamColumns heap tableId (n + 1) =
      andThen (Stream.readInt64 heap) (columnRest heap tableId n) := rfl

theorem columnRest_code (tableId : TableId) (n : Nat) (d : DataType) :
    columnRest heap tableId n (dataTypeCode d) =
      andThen (Stream.readString heap) fun name => andThen (streamColumns heap tableId n)
        fun columns s => .ok (⟨name, d, tableId⟩ :: columns, s) := by
  funext s
  rw [columnRest, dataTypeOf_code, Outcome.ok_bind]

theorem streamColumns_length {tableId : TableId} {n : Nat} {s s' : Stream}
    {columns : List TableColumn} (h : streamColumns heap tableId n s = .ok (columns, s')) :
    columns.length = n := by
  induction n generalizing s columns s' with
  | zero =>
      cases h
      rfl
  | succ n ih =>
      rw [streamColumns_succ, andThen] at h
      cases hcode : s.readInt64 heap with
      | error e => simp [hcode] at h
      | ok p =>
          rw [hcode, Outcome.ok_bind, columnRest] at h
          cases hd : dataTypeOf p.1 with
          | error e => simp [hd] at h
          | ok d =>
              rw [hd, Outcome.ok_bind, andThen] at h
              cases hname : p.2.readString heap with
              | error e => simp [hname] at h
              | ok q =>
                  rw [hname, Outcome.ok_bind, andThen] at h
                  cases hrest : streamColumns heap tableId n q.2 with
                  | error e => simp [hrest] at h
                  | ok t =>
                      rw [hrest, Outcome.ok_bind] at h
                      cases h
                      exact congrArg Nat.succ (ih hrest)

theorem accepts_columns {tableId : TableId} {cols : List TableColumn}
    (hlen : ∀ col ∈ cols, col.name.length < 2 ^ 63) (hids : ∀ col ∈ cols, col.tableId = tableId) :
    Accepts (streamColumns heap tableId cols.length) (cols.flatMap encodeColumn) cols := by
  induction cols with
  | nil => exact fun _ => rfl
  | cons col cols ih =>
      have ih := ih (fun c hc => hlen c (List.mem_cons_of_mem _ hc))
        fun c hc => hids c (List.mem_cons_of_mem _ hc)
      obtain ⟨hlo, hhi⟩ := dataTypeCode_range col.datatype
      have hid : col.tableId = tableId := hids col List.mem_cons_self
      rw [List.length_cons, streamColumns_succ, List.flatMap_cons, encodeColumn, List.append_assoc]
      refine (accepts_int64 heap hlo hhi).andThen ?_
      rw [columnRest_code]
      refine (accepts_string heap (hlen col List.mem_cons_self)).andThen fun rest => ?_
      rw [andThen, ih rest, Outcome.ok_bind, ← hid]

theorem streamColumns_failed (tableId : TableId) {n : Nat} (h : n ≠ 0) :
    Stops (streamColumns heap tableId n) ⟨[], false⟩ := by
  obtain ⟨n, rfl⟩ := Nat.exists_eq_succ_of_ne_zero h
  rw [Nat.succ_eq_add_one, streamColumns_succ]
  exact (readInt64_failed heap []).andThen

theorem lastName_le (cols : List TableColumn) :
    lastName cols ≤ (cols.flatMap encodeColumn).length := by
  rcases List.eq_nil_or_concat cols with rfl | ⟨init, col, rfl⟩
  · simp [lastName]
  · simp [lastName, encodeColumn, encodeString]
    omega

/-- A list of columns fails softly in its last name only. -/
theorem cut_columns {tableId : TableId} {cols : List TableColumn} (hne : cols ≠ [])
    (hlen : ∀ col ∈ cols, col.name.length < 2 ^ 63) :
    Cut (streamColumns heap tableId cols.length) (cols.flatMap encodeColumn) (lastName cols) := by
  induction cols with
  | nil => exact absurd rfl hne
  | cons col cols ih =>
      have hcol := hlen col List.mem_cons_self
      obtain ⟨hlo, hhi⟩ := dataTypeCode_range col.datatype
      have hstring := cut_string heap hcol
      rw [List.length_cons, streamColumns_succ, List.flatMap_cons, encodeColumn, List.append_assoc]
      refine (cut_int64 heap _).andThen (accepts_int64 heap hlo hhi) (.inl rfl) ?_ ?_
      · rw [columnRest_code]
        by_cases hlast : cols = []
        · subst hlast
          rw [List.flatMap_nil, List.append_nil]
          exact hstring.finish (g := fun name => [⟨name, col.datatype, tableId⟩]) fun _ _ _ _ => rfl
        · have ih := ih hlast fun c hc => hlen c (List.mem_cons_of_mem _ hc)
          have hname : lastName (col :: cols) = lastName cols := by
            rw [lastName, List.getLast?_cons_of_ne_nil hlast, lastName]
          rw [hname]
          refine hstring.andThen (accepts_string heap hcol) (.inr fun name => ?_) ?_ (lastName_le cols)
          · exact (streamColumns_failed heap tableId (mt List.length_eq_zero_iff.mp hlast)).andThen
          · exact ih.finish fun _ _ _ _ => rfl
      · have hle := lastName_le (col :: cols)
        rw [List.flatMap_cons, encodeColumn] at hle
        by_cases hlast : cols = []
        · subst hlast
          simp [lastName, encodeString]
        · have hname : lastName (col :: cols) = lastName cols := by
            rw [lastName, List.getLast?_cons_of_ne_nil hlast, lastName]
          rw [hname, List.length_append]
          exact le_trans (lastName_le cols) (Nat.le_add_left _ _)

/-- The end of the turn for one table. -/
def tableEnd (tableName : List UInt8) (cardinality tableId : Int) (columns : List TableColumn)
    (s : Stream) : Outcome (TableInfo × Stream) := do
  let name ← normalize tableName
  if columns = [] then .error (.assertFailed "!schema.columns.empty()")
  else .ok (⟨name, columns, uint64 tableId, uint64 cardinality⟩, s)

theorem streamTable_eq :
    streamTable heap = andThen (Stream.readString heap) fun tableName =>
      andThen (Stream.readInt64 heap) fun cardinality =>
      andThen (Stream.readInt64 heap) fun tableId =>
      andThen (Stream.readInt64 heap) fun count =>
      andThen (streamColumns heap (uint64 tableId) count.toNat)
        (tableEnd tableName cardinality tableId) := rfl

theorem streamTables_succ (n : Nat) (tables : KeyedMap TableInfo.tableId) :
    streamTables heap (n + 1) tables =
      andThen (streamTable heap) fun info => streamTables heap n (tables.insert info) := rfl

theorem streamTable_failed : Stops (streamTable heap) ⟨[], false⟩ := by
  rw [streamTable_eq]
  exact (readString_failed heap).andThen

theorem tableEnd_ok {info : TableInfo} {card id : Int} {columns : List TableColumn} (s : Stream)
    (hname : normalize info.name = .ok info.name) (hne : columns ≠ []) :
    tableEnd info.name card id columns s =
      .ok (⟨info.name, columns, uint64 id, uint64 card⟩, s) := by
  rw [tableEnd, hname, Outcome.ok_bind, if_neg hne]

/-- One table, whole or cut. -/
theorem table_reader {info : TableInfo} (hmade : MadeByCreate info) (hfits : InfoFits info) :
    Accepts (streamTable heap) (encodeTable info) info ∧
      Cut (streamTable heap) (encodeTable info) (lastName info.columns) := by
  obtain ⟨hname, hne, hids⟩ := hmade.spec
  obtain ⟨card, hcard, hreadCard⟩ := accepts_uint64 heap hfits.cardinality
  obtain ⟨id, hid, hreadId⟩ := accepts_uint64 heap hfits.tableId
  have hlength := hfits.columns
  have hreadCount := accepts_int64 heap (n := info.columns.length) (by omega) (by omega)
  have hreadName := accepts_string heap hfits.name
  have hcols : Accepts (streamColumns heap info.tableId info.columns.length) _ info.columns :=
    accepts_columns heap hfits.columnNames hids
  have hle := lastName_le info.columns
  rw [streamTable_eq, encodeTable]
  constructor
  · refine hreadName.andThen (hreadCard.andThen (hreadId.andThen (hreadCount.andThen ?_)))
    intro rest
    rw [Int.toNat_natCast, hid, andThen, hcols rest, Outcome.ok_bind, tableEnd_ok _ hname hne, hid,
      hcard]
  · refine (cut_string heap hfits.name).andThen hreadName
      (.inr fun _ => (readInt64_failed heap []).andThen) ?_ ?_
    · refine (cut_int64 heap _).andThen hreadCard (.inl rfl) ?_ ?_
      · refine (cut_int64 heap _).andThen hreadId (.inl rfl) ?_ ?_
        · refine (cut_int64 heap _).andThen hreadCount (.inl rfl) ?_ hle
          rw [Int.toNat_natCast]
          refine (cut_columns heap hne hfits.columnNames).finish
            (g := fun columns => ⟨info.name, columns, uint64 id, uint64 card⟩) fun part y s hy => ?_
          refine tableEnd_ok s hname fun hnil => hne ?_
          have hcount := streamColumns_length heap hy
          rw [hnil] at hcount
          exact List.length_eq_zero_iff.mp hcount.symm
        · rw [List.length_append]
          omega
      · rw [List.length_append, List.length_append]
        omega
    · rw [List.length_append, List.length_append, List.length_append]
      omega

/-- The bytes of the last name of a catalog, as far as nothing is read after it. -/
def lastBytes (infos : List TableInfo) : Nat :=
  (infos.getLast?.map fun info => lastName info.columns).getD 0

theorem lastBytes_le (infos : List TableInfo) :
    lastBytes infos ≤ (infos.flatMap encodeTable).length := by
  rcases List.eq_nil_or_concat infos with rfl | ⟨init, info, rfl⟩
  · simp [lastBytes]
  · have hle := lastName_le info.columns
    simp only [lastBytes, List.concat_eq_append, List.getLast?_append, List.getLast?_singleton,
      Option.some_or, Option.map_some, Option.getD_some, List.flatMap_append, List.length_append,
      List.flatMap_cons, List.flatMap_nil, encodeTable]
    omega

/-- The tables fail softly in the last name only. -/
theorem cut_tables {infos : List TableInfo} (m : KeyedMap TableInfo.tableId) (hne : infos ≠ [])
    (hmade : ∀ info ∈ infos, MadeByCreate info) (hfits : ∀ info ∈ infos, InfoFits info) :
    Cut (streamTables heap infos.length m) (infos.flatMap encodeTable) (lastBytes infos) := by
  induction infos generalizing m with
  | nil => exact absurd rfl hne
  | cons info infos ih =>
      obtain ⟨haccepts, hcut⟩ :=
        table_reader heap (hmade info List.mem_cons_self) (hfits info List.mem_cons_self)
      rw [List.length_cons, streamTables_succ, List.flatMap_cons]
      by_cases hlast : infos = []
      · subst hlast
        rw [List.flatMap_nil, List.append_nil]
        exact hcut.finish (g := m.insert) fun _ _ _ _ => rfl
      · have hbytes : lastBytes (info :: infos) = lastBytes infos := by
          rw [lastBytes, List.getLast?_cons_of_ne_nil hlast, lastBytes]
        rw [hbytes]
        refine hcut.andThen haccepts (.inr fun x => ?_) ?_ (lastBytes_le infos)
        · obtain ⟨n, hn⟩ := Nat.exists_eq_succ_of_ne_zero (mt List.length_eq_zero_iff.mp hlast)
          rw [hn, Nat.succ_eq_add_one, streamTables_succ]
          exact (streamTable_failed heap).andThen
        · exact ih _ hlast (fun i hi => hmade i (List.mem_cons_of_mem _ hi))
            fun i hi => hfits i (List.mem_cons_of_mem _ hi)

end Tables

/-! ## The whole file -/

section File

variable (heap : Heap)

/-- The constructor, with the stream it leaves. -/
def streamCatalog : Stream → Outcome (Catalog × Stream) :=
  andThen (Stream.readInt64 heap) fun transactionCount =>
    andThen (Stream.readInt64 heap) fun tableIdCounter =>
    andThen (Stream.readInt64 heap) fun tablesCount =>
    andThen (streamTables heap tablesCount.toNat .empty) fun tables s =>
      .ok (⟨uint64 tableIdCounter, uint64 transactionCount, fun _ => [], tables⟩, s)

theorem streamLoad_eq {bytes : List UInt8} (h : bytes ≠ []) :
    streamLoad heap bytes = streamCatalog heap ⟨bytes, true⟩ >>= fun p => .ok p.1 := by
  rw [streamLoad, if_neg h]
  simp only [streamCatalog, andThen, bind_assoc]
  rfl

theorem cut_catalog {c : Catalog} (hmade : ∀ info ∈ c.tables.entries, MadeByCreate info)
    (hfits : c.Fits) : Cut (streamCatalog heap) c.encode (lastBytes c.tables.entries) := by
  obtain ⟨count, _, hreadCount⟩ := accepts_uint64 heap hfits.transactionCount
  obtain ⟨counter, _, hreadCounter⟩ := accepts_uint64 heap hfits.tableIdCounter
  have htables := hfits.tables
  have hreadLength := accepts_int64 heap (n := c.tables.entries.length) (by omega) (by omega)
  have hle := lastBytes_le c.tables.entries
  refine (cut_int64 heap _).andThen hreadCount (.inl rfl) ?_ ?_
  · refine (cut_int64 heap _).andThen hreadCounter (.inl rfl) ?_ ?_
    · refine (cut_int64 heap _).andThen hreadLength (.inl rfl) ?_ hle
      rw [Int.toNat_natCast]
      by_cases hnone : c.tables.entries = []
      · rw [hnone]
        exact fun part _ hlt => absurd hlt (Nat.not_lt_zero _)
      · exact (cut_tables heap .empty hnone hmade hfits.infos).finish
          (g := fun tables => ⟨uint64 counter, uint64 count, fun _ => [], tables⟩)
          fun _ _ _ _ => rfl
    · rw [List.length_append]
      omega
  · rw [List.length_append, List.length_append]
    omega

/-- The last column of a table is the implicit one. -/
theorem MadeByCreate.lastName {info : TableInfo} (h : MadeByCreate info) :
    lastName info.columns = ridName.length := by
  obtain ⟨c, c', tableName, columns, txId, h⟩ := h
  unfold createTable at h
  cases hname : c.checkName tableName txId with
  | error e => simp [hname] at h
  | ok name =>
      simp only [hname, Outcome.ok_bind] at h
      cases hfinal : finalColumns columns c.nextTableId.1 with
      | error e => simp [hfinal] at h
      | ok final =>
          simp only [hfinal, Outcome.ok_bind, Except.ok.injEq, Prod.mk.injEq, TableInfo.mk.injEq]
            at h
          obtain ⟨⟨_, rfl, _, _⟩, _⟩ := h
          unfold finalColumns at hfinal
          split at hfinal
          · cases hfinal
          · split at hfinal
            · cases hfinal
            · rw [← Except.ok.inj hfinal]
              simp [Catalog.lastName]

theorem lastBytes_eq {infos : List TableInfo} (hne : infos ≠ [])
    (hmade : ∀ info ∈ infos, MadeByCreate info) : lastBytes infos = ridName.length := by
  rw [lastBytes, List.getLast?_eq_some_getLast hne]
  exact (hmade _ (List.getLast_mem hne)).lastName

/-- A file that ends too early is not loaded, unless it only lacks bytes of the last
column name. -/
theorem streamLoad_truncated_iff {c : Catalog} (hmade : ∀ info ∈ c.tables.entries, MadeByCreate info)
    (hfits : c.Fits) {part : List UInt8} (hpart : part <+: c.encode) (hne : part ≠ [])
    (hstrict : part ≠ c.encode) :
    (streamLoad heap part).Throws ↔
      c.tables.entries = [] ∨ part.length + ridName.length < c.encode.length := by
  have hlt : part.length < c.encode.length :=
    lt_of_le_of_ne hpart.length_le fun heq => hstrict (hpart.eq_of_length heq)
  obtain ⟨hstop, hgarble⟩ := cut_catalog heap hmade hfits part hpart hlt
  have hthrows : part.length + lastBytes c.tables.entries < c.encode.length →
      (streamLoad heap part).Throws := by
    intro h
    obtain ⟨msg, hmsg⟩ := hstop h
    exact ⟨_, by rw [streamLoad_eq heap hne, hmsg, Outcome.error_bind], rfl⟩
  constructor
  · rintro ⟨e, he, _⟩
    by_cases hnone : c.tables.entries = []
    · exact .inl hnone
    · refine .inr (Nat.lt_of_not_le fun hge => ?_)
      rw [← lastBytes_eq hnone hmade] at hge
      obtain ⟨x, hx⟩ := hgarble hge
      rw [streamLoad_eq heap hne, hx, Outcome.ok_bind] at he
      cases he
  · rintro (hnone | hcut)
    · exact hthrows (by rw [hnone]; exact hlt)
    · by_cases hnone : c.tables.entries = []
      · exact hthrows (by rw [hnone]; exact hlt)
      · exact hthrows (by rw [lastBytes_eq hnone hmade]; exact hcut)

end File

theorem oneTable_made : ∀ info ∈ oneTable.tables.entries, MadeByCreate info := by
  have hentries : oneTable.tables.entries =
      [⟨[116], [⟨[97], .int, 0⟩, ⟨ridName, .rid, 0⟩], 0, 3⟩] := rfl
  rw [hentries]
  intro info hinfo
  rw [List.mem_singleton.mp hinfo]
  exact ⟨new, _, [116], [⟨[97], .int, 0⟩], 1, rfl⟩

theorem oneTable_fits : oneTable.Fits := by
  have hentries : oneTable.tables.entries =
      [⟨[116], [⟨[97], .int, 0⟩, ⟨ridName, .rid, 0⟩], 0, 3⟩] := rfl
  refine ⟨by norm_num [oneTable], by norm_num [oneTable], by rw [hentries]; norm_num, ?_⟩
  rw [hentries]
  intro info hinfo
  rw [List.mem_singleton.mp hinfo]
  exact ⟨by norm_num, by norm_num, by norm_num [ridName], by norm_num, by norm_num⟩

theorem oneTable_encode_length : oneTable.encode.length = 93 := by decide

/-- Without its last four bytes the file of one table is refused. -/
theorem streamLoad_truncated_oneTable :
    (streamLoad (fun _ _ => 0) (oneTable.encode.take 89)).Throws := by
  have hlength : (oneTable.encode.take 89).length = 89 := by
    rw [List.length_take, oneTable_encode_length]
    rfl
  refine (streamLoad_truncated_iff (fun _ _ => 0) oneTable_made oneTable_fits
    (List.take_prefix 89 _) (fun h => ?_) fun h => ?_).mpr (.inr ?_)
  · rw [h] at hlength
    cases hlength
  · rw [h, oneTable_encode_length] at hlength
    cases hlength
  · rw [hlength, oneTable_encode_length]
    decide

/-- Without its last byte it is loaded, and the last byte of the column's name is
whatever the buffer held. -/
theorem streamLoad_truncated_accepts :
    (streamLoad (fun _ _ => 7) (oneTable.encode.take 92)).map (fun c => c.tables.entries) =
      .ok [⟨[116], [⟨[97], .int, 0⟩, ⟨[82, 73, 7], .rid, 0⟩], 0, 3⟩] ∧
    ¬ ∀ (heap : Heap) (c : Catalog) (part : List UInt8),
      (∀ info ∈ c.tables.entries, MadeByCreate info) → c.Fits → part <+: c.encode → part ≠ [] →
      part ≠ c.encode → (streamLoad heap part).Throws := by
  have hload : (streamLoad (fun _ _ => 7) (oneTable.encode.take 92)).map
      (fun c => c.tables.entries) =
      .ok [⟨[116], [⟨[97], .int, 0⟩, ⟨[82, 73, 7], .rid, 0⟩], 0, 3⟩] := by decide +kernel
  refine ⟨hload, fun h => ?_⟩
  have hlength : (oneTable.encode.take 92).length = 92 := by
    rw [List.length_take, oneTable_encode_length]
    rfl
  obtain ⟨e, he, _⟩ := h (fun _ _ => 7) oneTable (oneTable.encode.take 92) oneTable_made
    oneTable_fits (List.take_prefix 92 _)
    (fun h => by rw [h] at hlength; cases hlength)
    fun h => by rw [h, oneTable_encode_length] at hlength; cases hlength
  rw [he] at hload
  cases hload

end Catalog

end Iic3413Db.System
