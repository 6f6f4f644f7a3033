/-
  RelationalModel/Record.lean --- `storage/rid.h`, `relational_model/value.h`,
  `relational_model/schema.h` and `relational_model/record.h`.

  A string value is its bytes, and an integer value is an `int64_t`, so `Value`
  admits integers no C++ value holds; `Value.Fits` singles out the others.
  `Matches` is the relation between a schema and the values a page stores for it:
  one for each integer or string column, in order.  The implicit RID column the
  catalog appends to a schema is stored nowhere.
-/
import Iic3413Db.Exceptions
import Iic3413Db.Foundation.Bytes

set_option autoImplicit false

namespace Iic3413Db.RelationalModel

open Iic3413Db.Foundation

/-- `struct RID`. -/
structure RID where
  pageNum : Int
  dirSlot : Int
  deriving DecidableEq, Repr

/-- Both halves are `int32_t`. -/
def RID.Fits (rid : RID) : Prop :=
  (-2 ^ 31 ≤ rid.pageNum ∧ rid.pageNum < 2 ^ 31) ∧ (-2 ^ 31 ≤ rid.dirSlot ∧ rid.dirSlot < 2 ^ 31)

/-- `RID(-1, -1)`: the tuple was deleted logically. -/
def RID.deleted : RID := ⟨-1, -1⟩

/-- `RID(-1, -2)`: the tuple was deleted physically. -/
def RID.gone : RID := ⟨-1, -2⟩

/-- `class Value`. -/
inductive Value where
  | string (s : List UInt8)
  | int (i : Int)
  | rid (r : RID)
  deriving DecidableEq, Repr

namespace Value

/-- `Value::is_rid`. -/
def isRid : Value → Bool
  | .rid _ => true
  | .string _ | .int _ => false

/-- `Value::is_string`. -/
def isString : Value → Bool
  | .string _ => true
  | .int _ | .rid _ => false

/-- `Value::is_int`. -/
def isInt : Value → Bool
  | .int _ => true
  | .string _ | .rid _ => false

/-- `RID::operator<`, and `Value::operator<` below: a variant compares its index
first, and strings compare byte by byte. -/
def ridLess (r s : RID) : Bool :=
  decide (r.pageNum < s.pageNum ∨ r.pageNum = s.pageNum ∧ r.dirSlot < s.dirSlot)

/-- `Value::operator<`. -/
def less : Value → Value → Bool
  | .string s, .string t => decide (s < t)
  | .string _, _ => true
  | .int i, .int j => decide (i < j)
  | .int _, .rid _ => true
  | .rid r, .rid s => ridLess r s
  | _, _ => false

/-- The values the constructors accept and the page format stores: strings up to
`MAX_STRLEN` bytes, integers of 64 bits. -/
def Fits : Value → Prop
  | .string s => s.length ≤ 255
  | .int i => -2 ^ 63 ≤ i ∧ i < 2 ^ 63
  | .rid r => r.Fits

end Value

/-- `enum class DataType`. -/
inductive DataType where
  | str
  | int
  | rid
  | invalid
  deriving DecidableEq, Repr

/-- `struct ColumnInfo`, without the table id, which page access does not read. -/
structure ColumnInfo where
  name : String
  datatype : DataType
  deriving DecidableEq, Repr

/-- `class Schema`. -/
structure Schema where
  columns : List ColumnInfo
  deriving DecidableEq, Repr

/-- `class Record`. -/
structure Record where
  values : List Value
  deriving DecidableEq, Repr

namespace Record

/-- `Record()`. -/
def empty : Record := ⟨[]⟩

/-- `Record::invalid`. -/
def invalid (r : Record) : Bool := r.values.isEmpty

/-- The values a page keeps: all but the RIDs. -/
def stored (r : Record) : List Value := r.values.filter fun v => !v.isRid

/-- `record.values.push_back(Value(rid))`. -/
def pushRid (r : Record) (rid : RID) : Record := ⟨r.values ++ [.rid rid]⟩

end Record

/-- The stored values `vs` fit the columns, in order. -/
inductive Matches : List ColumnInfo → List Value → Prop
  | nil : Matches [] []
  | int {col : ColumnInfo} {cols : List ColumnInfo} {vs : List Value} {i : Int} :
      col.datatype = .int → (Value.int i).Fits → Matches cols vs →
      Matches (col :: cols) (.int i :: vs)
  | str {col : ColumnInfo} {cols : List ColumnInfo} {vs : List Value} {s : List UInt8} :
      col.datatype = .str → (Value.string s).Fits → Matches cols vs →
      Matches (col :: cols) (.string s :: vs)
  /-- a column no page stores -/
  | skip {col : ColumnInfo} {cols : List ColumnInfo} {vs : List Value} :
      col.datatype = .rid ∨ col.datatype = .invalid → Matches cols vs →
      Matches (col :: cols) vs

end Iic3413Db.RelationalModel
