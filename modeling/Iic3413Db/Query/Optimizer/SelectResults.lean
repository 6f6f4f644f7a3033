/-
  Query/Optimizer/SelectResults.lean --- a SELECT over tables from its tree to its results.

  The preprocessor, `BuildJoins`, `PushSelection`, the optimizer and the executor together: the
  records of the scan are a result of the plan that the preprocessor made.
-/
import Iic3413Db.Query.Optimizer.LoweredPlans
import Iic3413Db.Query.Optimizer.PushedPlans

set_option autoImplicit false

namespace Iic3413Db.Query

open Iic3413Db.Foundation Iic3413Db.RelationalModel
open Iic3413Db.System (Catalog)
open Iic3413Db.Storage (TxID)
open BuildJoins (columnEquality)

/-! ## The plan after `BuildJoins` -/

section Built

variable {catalog : Catalog} {txId : TxID} {q : SelectQuery} {plan : LogicalPlan}
  {equalities : List (Column × Column)} {part : List FromTable} {parts : List (List FromTable)}

theorem Inner.source_eq (h : Inner plan) : plan.source = plan ∧ plan.conjuncts = [] := by
  cases plan with
  | relation | cartesianProduct | join => exact ⟨rfl, rfl⟩
  | selection | leftOuterJoin | fullOuterJoin | projection => exact h.elim

end Built

/-! ## The rows -/

section Rows

variable {db : Snapshot} {tables : List FromTable} {parts : List (List FromTable)}
  {conjuncts : List ExprPlan} {columns : List Column} {f : PlanRow}

end Rows

/-! ## Results -/

section Results

variable {db : Snapshot} {joinOrder : List LogicalPlan → List JoinPair → List Nat}
  {q : SelectQuery} {child : LogicalPlan} {limit : Nat} {columns : List Column}

end Results

/-! ## The tables `l` and `r` -/

end Iic3413Db.Query
