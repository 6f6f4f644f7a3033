/-
  Query/Optimizer/Optimizer.lean --- `Optimizer` of `optimizer.cc`: from a logical
  plan to the iterators.

  A visit takes back what it adds to `column_usage`, so the counters are an argument
  here.  `beam_search_join_order` is not written in the source beyond its assertion,
  and its order is a variable; so are the rows of the tables.
-/
import Iic3413Db.Query.Optimizer.ExprOptimizer
import Iic3413Db.Query.Optimizer.Joins

set_option autoImplicit false

namespace Iic3413Db.Query

open Iic3413Db.RelationalModel
open Iic3413Db.System (Catalog TableColumn TableId TableInfo)
open Iic3413Db.System.Catalog (text)
open Iic3413Db.Storage (TxID)

/-! ## Usage counters -/

/-- `column_usage[column] += 1`, for each column. -/
def ColumnUsage.addColumns (usage : ColumnUsage) (columns : List Column) : ColumnUsage :=
  columns.foldl ColumnUsage.add usage

/-! ## Tables -/

/-- The loop of `visit(RelationPlan&)`, from position `pos` on. -/
def relationColumnsFrom (usage : ColumnUsage) (tableAlias table : List UInt8) (pos : Nat) :
    List TableColumn → Outcome (List ProjectedColumn)
  | [] => .ok []
  | col :: cols =>
      let column : Column := ⟨tableAlias, table, col⟩
      if usage.uses column then do
        let rest ← relationColumnsFrom usage tableAlias table (pos + 1) cols
        .ok (⟨pos, column⟩ :: rest)
      else if cols.isEmpty then
        if col.datatype = .rid then .ok [⟨pos, column⟩]
        else .error (.assertFailed "schema->columns[i].datatype == DataType::RID")
      else relationColumnsFrom usage tableAlias table (pos + 1) cols

/-! ## Outer joins -/

/-- The position of the first column that `ColumnInfo::operator==` finds equal. -/
def findInfo (columns : List Column) (info : TableColumn) : Option Nat :=
  columns.findIdx? fun c => c.info.name = info.name ∧ c.info.datatype = info.datatype

/-- The turn of one pair of an ON list in the loop that fills `equalities`. -/
def outerEquality (lhsColumns rhsColumns : List Column) (p : JoinPair) : Option (Nat × Nat) :=
  match lhsColumns, rhsColumns with
  | _ :: _, r :: _ =>
      if p.1.table = r.table then
        bothFound (findInfo lhsColumns p.2.info) (findInfo rhsColumns p.1.info)
      else bothFound (findInfo lhsColumns p.1.info) (findInfo rhsColumns p.2.info)
  | _, _ => none

/-- The projected columns and the `equalities` of an outer join. -/
def outerColumns (usage : ColumnUsage) (joins : List JoinPair) (lhs rhs : QueryIter) :
    JoinColumns :=
  ⟨projectedColumns usage lhs.getColumns, projectedColumns usage rhs.getColumns,
    joins.filterMap (outerEquality lhs.getColumns rhs.getColumns)⟩

/-- The constructors assert that there is an equality. -/
def requireEqualities (columns : JoinColumns) (it : QueryIter) : Outcome QueryIter :=
  if columns.equalities.isEmpty then .error (.assertFailed "equalities.size() > 0") else .ok it

section Visitor

variable (catalog : Catalog) (txId : TxID) (scans : TableId → Nat → List Record)
  (likeMatch : List UInt8 → List UInt8 → Bool)
  (joinOrder : List LogicalPlan → List JoinPair → List Nat)

/-- `visit(RelationPlan&)`. -/
def visitRelation (usage : ColumnUsage) (tableAlias table : List UInt8) : Outcome QueryIter := do
  match ← catalog.getTableInfo table txId with
  | none => .error (.queryException s!"Table {text table} does not exist")
  | some info => do
      let projected ← relationColumnsFrom usage tableAlias table 0 info.columns
      .ok (.relation ⟨scans info.tableId, 0, scans info.tableId 0⟩ projected)

/-- `beam_search_join_order`. -/
def beamSearchJoinOrder (children : List LogicalPlan) (joins : List JoinPair) :
    Outcome (List Nat) :=
  if children.length ≤ 64 then .ok (joinOrder children joins)
  else .error (.assertFailed "n <= 64")

/-- The visit of the child with an index. -/
def childAt (visits : List (Outcome QueryIter)) (i : Nat) : Outcome QueryIter :=
  match visits[i]? with
  | some visit => visit
  | none => .error (.undefinedBehaviour "join.children[idx]")

mutual

/-- `accept_visitor`. -/
def visitPlan (usage : ColumnUsage) : LogicalPlan → Outcome QueryIter
  | .relation tableAlias table => visitRelation catalog txId scans usage tableAlias table
  | .selection child expressions => do
      let it ← visitPlan (usage.addColumns (expressions.flatMap ExprPlan.getColumns)) child
      let lowered ← expressions.mapM (lowerExpr likeMatch it.getColumns)
      .ok (if lowered.isEmpty then it else .selection it lowered)
  | .cartesianProduct children => do
      if children.length < 2 then
        .error (.assertFailed "cartesian_product.children.size() >= 2")
      else do
        let its ← (visitPlans usage children).mapM id
        visitCartesianProduct usage its
  | .join children joins => do
      let counted := usage.addAll joins
      let order ← beamSearchJoinOrder joinOrder children joins
      let visits := visitPlans counted children
      match ← order.mapM (childAt visits) with
      | [] => .error (.undefinedBehaviour "join.children[0]")
      | it :: its => .ok (its.foldl (joinStep counted joins) it)
  | .leftOuterJoin _ lchild rchild joins => do
      let counted := usage.addAll joins
      let lhs ← visitPlan counted lchild
      let rhs ← visitPlan counted rchild
      let columns := outerColumns counted joins lhs rhs
      requireEqualities columns (.leftOuterJoin lhs rhs columns Record.empty false false)
  | .fullOuterJoin _ lchild rchild joins => do
      let counted := usage.addAll joins
      let lhs ← visitPlan counted lchild
      let rhs ← visitPlan counted rchild
      let columns := outerColumns counted joins lhs rhs
      requireEqualities columns
        (.fullOuterJoin lhs rhs columns Record.empty false false false 0 [])
  | .projection child distinct limit columns => do
      if distinct then .error (.notImplementedException "Projection with DISTINCT")
      else do
        let it ← visitPlan (usage.addColumns columns) child
        .ok (.projection it columns limit 0)

/-- The visits of the children of a product or a join. -/
def visitPlans (usage : ColumnUsage) : List LogicalPlan → List (Outcome QueryIter)
  | [] => []
  | plan :: plans => visitPlan usage plan :: visitPlans usage plans

end

/-- `create_physical_plan`, for a query. -/
def createPhysicalPlan (plan : LogicalPlan) : Outcome QueryIter :=
  visitPlan catalog txId scans likeMatch joinOrder (fun _ => 0) plan

end Visitor

end Iic3413Db.Query
