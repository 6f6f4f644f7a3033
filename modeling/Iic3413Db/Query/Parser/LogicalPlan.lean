/-
  Query/Parser/LogicalPlan.lean --- `query/parser/logical_plan`: the plans of a
  SELECT and the expressions in them.

  A `unique_ptr` to a plan is the plan.  Only the operands of an arithmetic
  expression and the whole of a SET expression can be an empty pointer, which is
  `null` here; nothing asks those for their datatype or their columns.
-/
import Iic3413Db.Query.Executor.QueryIter

set_option autoImplicit false

namespace Iic3413Db.Query

open Iic3413Db.RelationalModel

/-! ## Expressions -/

/-- `operator_` of an arithmetic expression. -/
inductive ArithmeticOp where
  | plus
  | minus
  | times
  | divide
  | modulo
  deriving DecidableEq, Repr

/-- `class ExprPlan` and its subclasses. -/
inductive ExprPlan where
  | null
  | column (col : Column)
  | term (value : Value)
  | equals (lhs rhs : ExprPlan)
  | notEquals (lhs rhs : ExprPlan)
  | less (lhs rhs : ExprPlan)
  | lessOrEquals (lhs rhs : ExprPlan)
  | between (child : Column) (lowerBound upperBound : Value)
  | like (col : Column) (pattern : List UInt8)
  | arithmetic (lhs : ExprPlan) (op : ArithmeticOp) (rhs : ExprPlan)
  deriving DecidableEq, Repr

/-- `std::set::insert`, in a set whose order nothing depends on. -/
def insertColumn (cols : List Column) (col : Column) : List Column :=
  if cols.any fun d => decide (d.key = col.key) then cols else cols ++ [col]

namespace ExprPlan

/-- `get_datatype`. -/
def getDatatype : ExprPlan → DataType
  | .column col | .between col _ _ | .like col _ => col.info.datatype
  | .term value => if value.isString then .str else .int
  | .equals _ _ | .notEquals _ _ | .less _ _ | .lessOrEquals _ _ | .arithmetic _ _ _ => .int
  | .null => .invalid

/-- `get_columns`. -/
def getColumns : ExprPlan → List Column
  | .column col | .between col _ _ | .like col _ => [col]
  | .term _ | .null => []
  | .equals lhs rhs | .notEquals lhs rhs | .less lhs rhs | .lessOrEquals lhs rhs
  | .arithmetic lhs _ rhs =>
      rhs.getColumns.foldl insertColumn lhs.getColumns

/-- Every column that stands in the expression. -/
def mentions : ExprPlan → List Column
  | .column col | .between col _ _ | .like col _ => [col]
  | .term _ | .null => []
  | .equals lhs rhs | .notEquals lhs rhs | .less lhs rhs | .lessOrEquals lhs rhs
  | .arithmetic lhs _ rhs =>
      lhs.mentions ++ rhs.mentions

end ExprPlan

section Columns

variable {cols ds : List Column} {c col : Column}

theorem insertColumn_subset (h : c ∈ insertColumn cols col) : c ∈ cols ∨ c = col := by
  unfold insertColumn at h
  split at h
  · exact .inl h
  · simpa using h

theorem mem_insertColumn (h : c ∈ cols) : c ∈ insertColumn cols col := by
  unfold insertColumn
  split
  · exact h
  · exact List.mem_append_left _ h

/-- A column with the same key is there afterwards. -/
theorem key_mem_insertColumn (cols : List Column) (col : Column) :
    ∃ d ∈ insertColumn cols col, d.key = col.key := by
  unfold insertColumn
  split
  · rename_i h
    obtain ⟨d, hd, hkey⟩ := List.any_eq_true.mp h
    exact ⟨d, hd, of_decide_eq_true hkey⟩
  · exact ⟨col, by simp, rfl⟩

theorem foldl_insertColumn_subset (h : c ∈ ds.foldl insertColumn cols) : c ∈ cols ∨ c ∈ ds := by
  induction ds generalizing cols with
  | nil => exact .inl h
  | cons d ds ih =>
      rcases ih h with h | h
      · rcases insertColumn_subset h with h | rfl
        · exact .inl h
        · exact .inr List.mem_cons_self
      · exact .inr (List.mem_cons_of_mem d h)

theorem mem_foldl_insertColumn (h : c ∈ cols) : c ∈ ds.foldl insertColumn cols := by
  induction ds generalizing cols with
  | nil => exact h
  | cons d ds ih => exact ih (mem_insertColumn h)

theorem key_mem_foldl_insertColumn (cols : List Column) (h : c ∈ ds) :
    ∃ d ∈ ds.foldl insertColumn cols, d.key = c.key := by
  induction ds generalizing cols with
  | nil => cases h
  | cons d ds ih =>
      rw [List.foldl_cons]
      rcases List.mem_cons.mp h with rfl | h
      · obtain ⟨x, hx, hkey⟩ := key_mem_insertColumn cols c
        exact ⟨x, mem_foldl_insertColumn hx, hkey⟩
      · exact ih _ h

namespace ExprPlan

variable {e : ExprPlan}

theorem getColumns_subset (h : c ∈ e.getColumns) : c ∈ e.mentions := by
  induction e with
  | column | between | like | term | null => exact h
  | equals lhs rhs ihl ihr | notEquals lhs rhs ihl ihr | less lhs rhs ihl ihr
  | lessOrEquals lhs rhs ihl ihr | arithmetic lhs _ rhs ihl ihr =>
      rcases foldl_insertColumn_subset h with h | h
      · exact List.mem_append_left _ (ihl h)
      · exact List.mem_append_right _ (ihr h)

/-- The set has a column for each one mentioned. -/
theorem key_mem_getColumns (h : c ∈ e.mentions) : ∃ d ∈ e.getColumns, d.key = c.key := by
  induction e with
  | column | between | like | term | null => exact ⟨c, h, rfl⟩
  | equals lhs rhs ihl ihr | notEquals lhs rhs ihl ihr | less lhs rhs ihl ihr
  | lessOrEquals lhs rhs ihl ihr | arithmetic lhs _ rhs ihl ihr =>
      rcases List.mem_append.mp h with h | h
      · obtain ⟨d, hd, hkey⟩ := ihl h
        exact ⟨d, mem_foldl_insertColumn hd, hkey⟩
      · obtain ⟨d, hd, hkey⟩ := ihr h
        obtain ⟨x, hx, hkey'⟩ := key_mem_foldl_insertColumn lhs.getColumns hd
        exact ⟨x, hx, hkey'.trans hkey⟩

end ExprPlan

end Columns

/-! ## Plans -/

/-- `class LogicalPlan` and the subclasses a SELECT has. -/
inductive LogicalPlan where
  | relation (tableAlias table : List UInt8)
  | selection (child : LogicalPlan) (expressions : List ExprPlan)
  | cartesianProduct (children : List LogicalPlan)
  | join (children : List LogicalPlan) (joinColumns : List (Column × Column))
  | leftOuterJoin (tableAlias : List UInt8) (lchild rchild : LogicalPlan)
      (columns : List (Column × Column))
  | fullOuterJoin (tableAlias : List UInt8) (lchild rchild : LogicalPlan)
      (columns : List (Column × Column))
  | projection (child : LogicalPlan) (distinct : Bool) (limit : Nat) (columns : List Column)

namespace LogicalPlan

/-- What stands under the projection and the selection. -/
def source : LogicalPlan → LogicalPlan
  | .projection child _ _ _ => child.source
  | .selection child _ => child
  | plan => plan

/-- The expressions of the selection. -/
def conjuncts : LogicalPlan → List ExprPlan
  | .projection child _ _ _ => child.conjuncts
  | .selection _ expressions => expressions
  | _ => []

/-- Induction over plans, with a case for each class. -/
theorem induction {P : LogicalPlan → Prop}
    (relation : ∀ tableAlias table, P (.relation tableAlias table))
    (selection : ∀ child expressions, P child → P (.selection child expressions))
    (cartesianProduct : ∀ children, (∀ c ∈ children, P c) → P (.cartesianProduct children))
    (join : ∀ children joinColumns, (∀ c ∈ children, P c) → P (.join children joinColumns))
    (leftOuterJoin : ∀ tableAlias lchild rchild columns, P lchild → P rchild →
      P (.leftOuterJoin tableAlias lchild rchild columns))
    (fullOuterJoin : ∀ tableAlias lchild rchild columns, P lchild → P rchild →
      P (.fullOuterJoin tableAlias lchild rchild columns))
    (projection : ∀ child distinct limit columns, P child →
      P (.projection child distinct limit columns)) (plan : LogicalPlan) : P plan :=
  @LogicalPlan.rec P (fun plans => ∀ c ∈ plans, P c) relation selection cartesianProduct join
    leftOuterJoin fullOuterJoin projection (fun _ h => nomatch h)
    (fun _ _ hc hcs => List.forall_mem_cons.mpr ⟨hc, hcs⟩) plan

end LogicalPlan

end Iic3413Db.Query
