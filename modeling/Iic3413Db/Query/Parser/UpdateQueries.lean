/-
  Query/Parser/UpdateQueries.lean --- `query_preprocessor.cc`: UPDATE and DELETE.

  Both are over one table under the name it is written with, and their plans are not
  rewritten.
-/
import Iic3413Db.Query.Parser.SetExpressions

set_option autoImplicit false

namespace Iic3413Db.Query

open Iic3413Db.RelationalModel
open Iic3413Db.System (Catalog TableColumn TableInfo)
open Iic3413Db.System.Catalog (text)
open Iic3413Db.Storage (TxID)

/-! ## Parse trees and plans -/

/-- `deleteQuery`. -/
structure DeleteQuery where
  table : Identifier
  whereStatement : Option (List SimpleExpr)

/-- `updateQuery`. -/
structure UpdateQuery where
  table : Identifier
  assignmentList : List (Identifier × AdditiveExpr)
  whereStatement : Option (List SimpleExpr)

/-- `class DeletionPlan`. -/
structure DeletionPlan where
  tableInfo : TableInfo
  child : LogicalPlan

/-- `class UpdatePlan`. -/
structure UpdatePlan where
  tableInfo : TableInfo
  updateValues : List (Nat × ExprPlan)
  child : LogicalPlan

/-- `from_tables[table_name] = table_name`. -/
def FromClause.single (table : Identifier) : FromClause :=
  { FromClause.empty with tables := FromClause.empty.tables.insert ⟨table, table⟩ }

/-! ## Visits -/

section Visitor

variable (catalog : Catalog) (txId : TxID)

/-- `visitWhereStatement`, over the table. -/
def visitWhere (table : Identifier) : Option (List SimpleExpr) → Outcome LogicalPlan
  | none => .ok (.relation table table)
  | some expressions => do
      let expressions ← expressions.mapM (visitSimpleExpr catalog txId (.single table))
      .ok (.selection (.relation table table) expressions)

/-- `visitDeleteQuery`. -/
def visitDeleteQuery (q : DeleteQuery) : Outcome DeletionPlan := do
  match ← catalog.getTableInfo q.table txId with
  | none => .error (.queryException s!"Table {text q.table} does not exist")
  | some info => do
      let child ← visitWhere catalog txId q.table q.whereStatement
      .ok ⟨info, child⟩

/-- One turn of the loop over the assignments. -/
def visitAssignment (table : Identifier) (columns : List TableColumn)
    (assignment : Identifier × AdditiveExpr) : Outcome (Nat × ExprPlan) :=
  match columns.findIdx? fun col => col.name = assignment.1 with
  | none => .error (.queryException
      s!"Column {text assignment.1} does not exist in table {text table}")
  | some columnIdx => do
      -- the slot was moved from by the turn before
      let expr ← visitAdditiveExpr catalog txId (.single table) .null assignment.2
      .ok (columnIdx, expr)

/-- `visitUpdateQuery`. -/
def visitUpdateQuery (q : UpdateQuery) : Outcome UpdatePlan := do
  requireTable catalog txId q.table
  match ← catalog.getTableInfo q.table txId with
  | none => .error (.queryException s!"Table {text q.table} does not exist")
  | some info => do
      let assignments ← q.assignmentList.mapM (visitAssignment catalog txId q.table info.columns)
      let child ← visitWhere catalog txId q.table q.whereStatement
      .ok ⟨info, assignments, child⟩

end Visitor

end Iic3413Db.Query
