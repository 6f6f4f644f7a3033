/-
  Query/Parser/QueryPreprocessor.lean --- `query_preprocessor.cc`: from the parse
  tree of a SELECT to its logical plan.

  The contexts of the grammar are the types of the first section.  A STRING token
  is what stands between its quotes, an INTEGER token its sign and its digits.  The
  two maps of the FROM clause are in the order of their aliases, byte by byte.
-/
import Iic3413Db.Query.Parser.LogicalPlan
import Mathlib.Data.List.Lex

set_option autoImplicit false

namespace Iic3413Db.Query

open Iic3413Db.Foundation Iic3413Db.RelationalModel
open Iic3413Db.System (Catalog TableColumn TableInfo)
open Iic3413Db.System.Catalog (text)
open Iic3413Db.Storage (TxID)

/-! ## Parse trees -/

/-- `identifier`. -/
abbrev Identifier : Type := List UInt8

/-- `INTEGER`. -/
structure IntegerToken where
  minus : Bool
  digits : List UInt8
  deriving DecidableEq, Repr

/-- `constant`. -/
inductive ConstantContext where
  | string (body : List UInt8)
  | integer (token : IntegerToken)
  deriving DecidableEq, Repr

/-- `column`. -/
structure ColumnContext where
  qualifier : Option Identifier
  name : Identifier
  deriving DecidableEq, Repr

/-- `columnOrConstant`. -/
inductive ColumnOrConstant where
  | column (ctx : ColumnContext)
  | constant (ctx : ConstantContext)
  deriving DecidableEq, Repr

/-- The operators of `comparisonExpr`. -/
inductive ComparisonOp where
  | equals
  | notEquals
  | less
  | greater
  | lessOrEquals
  | greaterOrEquals
  deriving DecidableEq, Repr

/-- `simpleExpr`. -/
inductive SimpleExpr where
  | comparison (lhs : ColumnOrConstant) (rest : Option (ComparisonOp × ColumnOrConstant))
  | like (col : ColumnContext) (pattern : List UInt8)
  | between (col : ColumnContext) (lower upper : ConstantContext)
  deriving DecidableEq, Repr

/-- `tableListItem`. -/
inductive TableListItem where
  | table (name : Identifier) (tableAlias : Option Identifier)
  | leftOuterJoin (left right tableAlias : Identifier) (on : List (ColumnContext × ColumnContext))
  | fullOuterJoin (left right tableAlias : Identifier) (on : List (ColumnContext × ColumnContext))
  deriving DecidableEq, Repr

/-- `selectQuery`; no column list is the asterisk. -/
structure SelectQuery where
  distinct : Bool
  columnList : Option (List ColumnContext)
  firstItem : TableListItem
  otherItems : List TableListItem
  whereStatement : Option (List SimpleExpr)
  limitStatement : Option IntegerToken
  deriving DecidableEq, Repr

/-! ### Their texts -/

/-- `getText`. -/
def IntegerToken.getText (t : IntegerToken) : List UInt8 :=
  (if t.minus then [45] else []) ++ t.digits

/-- `getText`. -/
def ColumnContext.getText (ctx : ColumnContext) : List UInt8 :=
  match ctx.qualifier with
  | some q => q ++ 46 :: ctx.name
  | none => ctx.name

/-- `getText`. -/
def ColumnOrConstant.getText : ColumnOrConstant → List UInt8
  | .column ctx => ctx.getText
  | .constant (.string body) => 34 :: body ++ [34]
  | .constant (.integer token) => token.getText

/-- `getText`. -/
def ComparisonOp.getText : ComparisonOp → List UInt8
  | .equals => [61, 61]
  | .notEquals => [33, 61]
  | .less => [60]
  | .greater => [62]
  | .lessOrEquals => [60, 61]
  | .greaterOrEquals => [62, 61]

/-! ## Constants -/

/-- The character an escape stands for. -/
def escaped : UInt8 → List UInt8
  | 116 => [9]
  | 110 => [10]
  | 114 => [13]
  | 98 => [8]
  | 102 => [12]
  | 34 => [34]
  | next => [92, next]

/-- `unescape_string`. -/
def unescapeString : List UInt8 → List UInt8
  | [] => []
  | [ch] => [ch]
  | ch :: next :: raw =>
      if ch = 92 then escaped next ++ unescapeString raw else ch :: unescapeString (next :: raw)

/-- The integer of a token. -/
def IntegerToken.value (t : IntegerToken) : Int :=
  let magnitude : Nat := t.digits.foldl (fun n d => 10 * n + (d.toNat - 48)) 0
  if t.minus then -(magnitude : Int) else magnitude

/-- `std::stoll`, which throws outside `int64_t`. -/
def stoll (t : IntegerToken) : Outcome Int :=
  if -2 ^ 63 ≤ t.value ∧ t.value < 2 ^ 63 then .ok t.value
  else .error (.queryException s!"Integer {text t.getText} is out of range")

/-- `get_constant` and `get_value`. -/
def getValue : ConstantContext → Outcome Value
  | .string body =>
      let string := unescapeString body
      if 255 < string.length then
        .error (.queryException
          s!"String \"{text string}\" is too long ({string.length} > 255)")
      else .ok (.string string)
  | .integer token => do
      let i ← stoll token
      .ok (.int i)

/-! ## The FROM clause -/

/-- An entry of `from_tables`. -/
structure FromTable where
  tableAlias : Identifier
  table : Identifier
  deriving DecidableEq, Repr

/-- An entry of `from_outer_join_tables`. -/
structure FromOuterJoin where
  tableAlias : Identifier
  left : Identifier
  right : Identifier
  deriving DecidableEq, Repr

/-- The order of `std::string`. -/
def nameOrder (name : Identifier) : List Nat := name.map UInt8.toNat

theorem nameOrder_injective : Function.Injective nameOrder :=
  List.map_injective_iff.mpr fun _ _ => UInt8.toNat.inj

/-- `from_tables` and `from_outer_join_tables`. -/
structure FromClause where
  tables : KeyedMap fun t : FromTable => nameOrder t.tableAlias
  outerJoins : KeyedMap fun j : FromOuterJoin => nameOrder j.tableAlias

namespace FromClause

/-- No item. -/
def empty : FromClause := ⟨.empty, .empty⟩

/-- `from_tables.find`. -/
def findTable (f : FromClause) (tableAlias : Identifier) : Option FromTable :=
  f.tables.entries.find? fun t => t.tableAlias = tableAlias

/-- `from_outer_join_tables.find`. -/
def findOuterJoin (f : FromClause) (tableAlias : Identifier) : Option FromOuterJoin :=
  f.outerJoins.entries.find? fun j => j.tableAlias = tableAlias

end FromClause

section Visitor

variable (catalog : Catalog) (txId : TxID)

/-- `catalog.table_exists`, which every table of the FROM clause passes. -/
def requireTable (name : Identifier) : Outcome Unit := do
  match ← catalog.getTableInfo name txId with
  | none => .error (.queryException s!"Table {text name} does not exist")
  | some _ => .ok ()

/-- `get_table_info(..)->schema`. -/
def tableInfo (table : Identifier) : Outcome TableInfo := do
  match ← catalog.getTableInfo table txId with
  | none => .error (.undefinedBehaviour "table_info->schema")
  | some info => .ok info

/-- `table_has_column`, of a table that was looked up. -/
def hasColumn (info : TableInfo) (columnName : Identifier) : Bool :=
  info.columns.any fun col => decide (col.name = columnName)

/-- The loop that looks for the datatype of a column. -/
def datatypeOf (info : TableInfo) (columnName : Identifier) : DataType :=
  info.columns.foldl (fun datatype col => if col.name = columnName then col.datatype else datatype)
    .invalid

/-- `Column(alias, table, {column_name, datatype, table_info->table_id})`. -/
def columnOf (tableAlias table : Identifier) (info : TableInfo) (columnName : Identifier) : Column :=
  ⟨tableAlias, table, ⟨columnName, datatypeOf info columnName, info.tableId⟩⟩

/-- The message of an alias that is taken. -/
def onlyOnce (tableAlias : Identifier) : Fault :=
  .queryException s!"Table {text tableAlias} should only appear once in the FROM clause"

/-- `visitTable`. -/
def visitTable (f : FromClause) (name : Identifier) (asAlias : Option Identifier) :
    Outcome (LogicalPlan × FromClause) := do
  requireTable catalog txId name
  let tableAlias := asAlias.getD name
  match f.findTable tableAlias with
  | some _ => .error (onlyOnce tableAlias)
  | none => .ok (.relation tableAlias name, { f with tables := f.tables.insert ⟨tableAlias, name⟩ })

/-- `get_outer_join_table_column`. -/
def getOuterJoinTableColumn (ctx : ColumnContext) (tableAlias : Identifier) : Outcome Column :=
  match ctx.qualifier with
  | none => .error (.queryException "Invalid call of column getter with implicit column")
  | some tableName => do
      let info ← tableInfo catalog txId tableName
      if hasColumn info ctx.name then .ok (columnOf tableAlias tableName info ctx.name)
      else .error (.queryException
        s!"Table {text tableName} does not have column {text ctx.name}")

/-- One turn of the loop over `outerJoinComp`. -/
def visitOuterJoinComp (tableAlias : Identifier) (comp : ColumnContext × ColumnContext) :
    Outcome (Column × Column) := do
  let lColumn ← getOuterJoinTableColumn catalog txId comp.1 tableAlias
  let rColumn ← getOuterJoinTableColumn catalog txId comp.2 tableAlias
  if lColumn.info.datatype ≠ rColumn.info.datatype then
    let comparison := comp.1.getText ++ [61, 61] ++ comp.2.getText
    .error (.queryException s!"Cannot compare different DataTypes: {text comparison}")
  else .ok (lColumn, rColumn)

/-- What `visitLeftOuterJoin` and `visitFullOuterJoin` have in common: the columns
of the ON list and the new FROM clause. -/
def visitOuterJoin (f : FromClause) (left right tableAlias : Identifier)
    (on : List (ColumnContext × ColumnContext)) : Outcome (List (Column × Column) × FromClause) := do
  requireTable catalog txId left
  requireTable catalog txId right
  match f.findOuterJoin tableAlias with
  | some _ => .error (onlyOnce tableAlias)
  | none =>
      let columns ← on.mapM (visitOuterJoinComp catalog txId tableAlias)
      if columns.isEmpty then
        .error (.assertFailed "There must be at least one ON condition")
      else .ok (columns,
        { f with outerJoins := f.outerJoins.insert ⟨tableAlias, left, right⟩ })

/-- `visitTableListItem`. -/
def visitTableListItem (f : FromClause) : TableListItem → Outcome (LogicalPlan × FromClause)
  | .table name asAlias => visitTable catalog txId f name asAlias
  | .leftOuterJoin left right tableAlias on => do
      let (columns, f) ← visitOuterJoin catalog txId f left right tableAlias on
      .ok (.leftOuterJoin tableAlias (.relation tableAlias left) (.relation tableAlias right)
        columns, f)
  | .fullOuterJoin left right tableAlias on => do
      let (columns, f) ← visitOuterJoin catalog txId f left right tableAlias on
      .ok (.fullOuterJoin tableAlias (.relation tableAlias left) (.relation tableAlias right)
        columns, f)

/-- The loop of `visitTableList`. -/
def visitTableListItems (f : FromClause) :
    List TableListItem → Outcome (List LogicalPlan × FromClause)
  | [] => .ok ([], f)
  | item :: items => do
      let (relation, f) ← visitTableListItem catalog txId f item
      let (relations, f) ← visitTableListItems f items
      .ok (relation :: relations, f)

/-- `visitTableList`. -/
def visitTableList (first : TableListItem) (others : List TableListItem) :
    Outcome (LogicalPlan × FromClause) := do
  if others.isEmpty then visitTableListItem catalog txId .empty first
  else
    let (relations, f) ← visitTableListItems catalog txId .empty (first :: others)
    .ok (.cartesianProduct relations, f)

/-! ## Columns -/

/-- A column with an alias before it. -/
def getQualifiedColumn (f : FromClause) (tableAlias columnName : Identifier) : Outcome Column :=
  match f.findOuterJoin tableAlias with
  | some j => do
      let left ← tableInfo catalog txId j.left
      if hasColumn left columnName then .ok (columnOf tableAlias j.left left columnName)
      else do
        let right ← tableInfo catalog txId j.right
        if hasColumn right columnName then .ok (columnOf tableAlias j.right right columnName)
        else .error (.queryException
          s!"Column {text columnName} not present in {text tableAlias} outer join")
  | none =>
      match f.findTable tableAlias with
      | none => .error (.queryException s!"Table {text tableAlias}, not present in FROM")
      | some t => do
          let info ← tableInfo catalog txId t.table
          .ok (columnOf tableAlias t.table info columnName)

/-- The message of a column that two tables have, or one table twice. -/
def ambiguous (columnName foundTable table : Identifier) : Fault :=
  .queryException
    s!"Ambiguous column `{text columnName}`, present in tables `{text foundTable}` and `{text table}`"

/-- The loop that infers the table of a column from the tables without an alias. -/
def inferTable (columnName : Identifier) :
    Option Identifier → List FromTable → Outcome (Option Identifier)
  | found, [] => .ok found
  | found, t :: ts =>
      if t.tableAlias ≠ t.table then inferTable columnName found ts
      else do
        let info ← tableInfo catalog txId t.table
        match info.columns.filter fun col => decide (col.name = columnName), found with
        | [], found => inferTable columnName found ts
        | [_], none => inferTable columnName (some t.table) ts
        | _ :: _ :: _, none => .error (ambiguous columnName t.table t.table)
        | _ :: _, some foundTable => .error (ambiguous columnName foundTable t.table)

/-- `get_column`. -/
def getColumn (f : FromClause) (ctx : ColumnContext) : Outcome Column :=
  match ctx.qualifier with
  | some tableAlias => getQualifiedColumn catalog txId f tableAlias ctx.name
  | none => do
      match ← inferTable catalog txId ctx.name none f.tables.entries with
      | none => .error (.queryException
          s!"Could not infer the table where column `{text ctx.name}` belongs")
      | some table => do
          let info ← tableInfo catalog txId table
          .ok (columnOf table table info ctx.name)

/-! ## The WHERE clause -/

/-- `visitColumnOrConstant`. -/
def visitColumnOrConstant (f : FromClause) : ColumnOrConstant → Outcome ExprPlan
  | .column ctx => do
      let col ← getColumn catalog txId f ctx
      .ok (.column col)
  | .constant ctx => do
      let value ← getValue ctx
      .ok (.term value)

/-- The plan of a comparison. -/
def comparisonPlan (lhs rhs : ExprPlan) : ComparisonOp → ExprPlan
  | .equals => .equals lhs rhs
  | .notEquals => .notEquals lhs rhs
  | .less => .less lhs rhs
  | .lessOrEquals => .lessOrEquals lhs rhs
  | .greaterOrEquals => .lessOrEquals rhs lhs
  | .greater => .less rhs lhs

/-- `visitSimpleExpr`: `visitComparisonExpr`, `visitLikeExpr` and `visitBetweenExpr`. -/
def visitSimpleExpr (f : FromClause) : SimpleExpr → Outcome ExprPlan
  | .comparison l none => do
      let _ ← visitColumnOrConstant catalog txId f l
      .error (.undefinedBehaviour "columnOrConstant(1)->accept")
  | .comparison l (some (op, r)) => do
      let lhs ← visitColumnOrConstant catalog txId f l
      let rhs ← visitColumnOrConstant catalog txId f r
      if lhs.getDatatype ≠ rhs.getDatatype then
        let comparison := l.getText ++ op.getText ++ r.getText
        .error (.queryException s!"Cannot compare different DataTypes: {text comparison}")
      else .ok (comparisonPlan lhs rhs op)
  | .like ctx pattern => do
      let col ← getColumn catalog txId f ctx
      if col.info.datatype ≠ .str then
        .error (.queryException "LIKE can only be applied to strings")
      else .ok (.like col (unescapeString pattern))
  | .between ctx lower upper => do
      let col ← getColumn catalog txId f ctx
      let lowerBound ← getValue lower
      let upperBound ← getValue upper
      if ¬ ((lowerBound.isInt ∧ upperBound.isInt) ∨ (lowerBound.isString ∧ upperBound.isString)) then
        .error (.queryException "BETWEEN bounds must have the same type")
      else if ¬ ((lowerBound.isInt ∧ col.info.datatype = .int) ∨
          (lowerBound.isString ∧ col.info.datatype = .str)) then
        .error (.queryException "BETWEEN bounds must have the same type as the column used")
      else .ok (.between col lowerBound upperBound)

/-! ## The SELECT clause -/

/-- The table of an asterisk. -/
def starTable (table : Identifier) : Outcome TableInfo := do
  match ← catalog.getTableInfo table txId with
  | none => .error (.queryException s!"Table {text table} does not exist")
  | some info => .ok info

/-- The columns an asterisk stands for. -/
def starColumns (f : FromClause) : Outcome (List Column) := do
  let plain ← f.tables.entries.mapM fun t => do
    let info ← starTable catalog txId t.table
    .ok ((info.columns.filter fun col => decide (col.datatype ≠ .rid)).map
      (Column.mk t.tableAlias t.table))
  let joined ← f.outerJoins.entries.mapM fun j => do
    let left ← starTable catalog txId j.left
    let right ← starTable catalog txId j.right
    .ok (left.columns.map (Column.mk j.tableAlias j.left) ++
      right.columns.map (Column.mk j.tableAlias j.right))
  .ok (plain.flatten ++ joined.flatten)

/-- The columns of `visitSelectStatement`. -/
def visitSelectColumns (f : FromClause) : Option (List ColumnContext) → Outcome (List Column)
  | none => starColumns catalog txId f
  | some columns => columns.mapM (getColumn catalog txId f)

/-- The limit of `visitSelectQuery`, `INT64_MAX` without one. -/
def visitLimit : Option IntegerToken → Outcome Nat
  | none => .ok (2 ^ 63 - 1)
  | some token => do
      let limit ← stoll token
      if limit ≤ 0 then .error (.queryException s!"Invalid LIMIT {limit}")
      else .ok limit.toNat

/-- `visitSelectQuery`. -/
def visitSelectQuery (q : SelectQuery) : Outcome LogicalPlan := do
  let limit ← visitLimit q.limitStatement
  let (source, f) ← visitTableList catalog txId q.firstItem q.otherItems
  let child ← match q.whereStatement with
    | none => .ok source
    | some expressions => do
        let expressions ← expressions.mapM (visitSimpleExpr catalog txId f)
        .ok (.selection source expressions)
  let columns ← visitSelectColumns catalog txId f q.columnList
  .ok (.projection child q.distinct limit columns)

end Visitor

end Iic3413Db.Query
