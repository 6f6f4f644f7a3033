/-
  Query/Optimizer/Lowering.lean --- `query/optimizer/optimizer.cc`: the iterators
  built for cartesian products and for joins.

  The visit of a child leaves `column_usage` as it was, so the children come here
  as the iterators their visits built.  A count is the number of places of the
  query that mention a column.
-/
import Iic3413Db.Query.Executor.Products

set_option autoImplicit false

namespace Iic3413Db.Query

open Iic3413Db.Foundation Iic3413Db.RelationalModel

/-- `column_usage`. -/
abbrev ColumnUsage : Type := ColumnKey → Nat

/-- `column_usage[c] > 0`. -/
def ColumnUsage.uses (usage : ColumnUsage) (c : Column) : Bool := decide (0 < usage c.key)

/-- The loop that fills `projected_lhs_columns` and `projected_rhs_columns`, from
position `pos` on. -/
def projectedFrom (usage : ColumnUsage) (pos : Nat) : List Column → List ProjectedColumn
  | [] => []
  | c :: cs =>
      if usage.uses c then ⟨pos, c⟩ :: projectedFrom usage (pos + 1) cs
      else projectedFrom usage (pos + 1) cs

def projectedColumns (usage : ColumnUsage) (columns : List Column) : List ProjectedColumn :=
  projectedFrom usage 0 columns

/-! ## Cartesian products -/

/-- One turn of the loop of `visit(CartesianProductPlan&)`. -/
def productStep (usage : ColumnUsage) (lhs rhs : QueryIter) : QueryIter :=
  .cartesianProduct lhs rhs (projectedColumns usage lhs.getColumns)
    (projectedColumns usage rhs.getColumns) Record.empty false

/-- `visit(CartesianProductPlan&)`. -/
def visitCartesianProduct (usage : ColumnUsage) : List QueryIter → Outcome QueryIter
  | c :: d :: cs => .ok ((d :: cs).foldl (productStep usage) c)
  | _ => .error (.assertFailed "cartesian_product.children.size() >= 2")

/-! ## The projected columns -/

/-- The values of the columns in use. -/
def usedValues (usage : ColumnUsage) : List Column → List Value → List Value
  | c :: cs, v :: vs => if usage.uses c then v :: usedValues usage cs vs else usedValues usage cs vs
  | _, _ => []

section Projected

variable {usage : ColumnUsage}

theorem projectedFrom_col (pos : Nat) (columns : List Column) :
    (projectedFrom usage pos columns).map ProjectedColumn.col = columns.filter usage.uses := by
  induction columns generalizing pos with
  | nil => rfl
  | cons c cs ih =>
      unfold projectedFrom
      rw [List.filter_cons]
      split
      · rw [List.map_cons, ih]
      · exact ih (pos + 1)

theorem projectedFrom_inside (pos : Nat) (columns : List Column) :
    Inside (projectedFrom usage pos columns) (pos + columns.length) := by
  induction columns generalizing pos with
  | nil => simp [projectedFrom, Inside]
  | cons c cs ih =>
      have hrest : Inside (projectedFrom usage (pos + 1) cs) (pos + (c :: cs).length) := by
        rw [List.length_cons, Nat.add_comm cs.length 1, ← Nat.add_assoc]
        exact ih (pos + 1)
      unfold projectedFrom
      split
      · intro d hd
        rcases List.mem_cons.mp hd with rfl | hd
        · exact Nat.lt_add_of_pos_right (Nat.zero_lt_succ _)
        · exact hrest d hd
      · exact hrest

theorem picked_projectedFrom {columns : List Column} {values : List Value}
    (before : List Value) (h : values.length = columns.length) :
    picked (projectedFrom usage before.length columns) (before ++ values) =
      usedValues usage columns values := by
  induction columns generalizing before values with
  | nil => simp [projectedFrom, picked, usedValues]
  | cons c cs ih =>
      obtain ⟨v, vs, rfl⟩ : ∃ v vs, values = v :: vs := by
        cases values with
        | nil => cases h
        | cons v vs => exact ⟨v, vs, rfl⟩
      have hrest := ih (before ++ [v]) (Nat.succ.inj h)
      rw [List.length_append, List.length_singleton, List.append_assoc, List.singleton_append]
        at hrest
      unfold projectedFrom usedValues
      split
      · have hv : (before ++ v :: vs)[before.length]? = some v := by simp
        simp only [picked, List.filterMap_cons, hv]
        exact congrArg (List.cons v) hrest
      · exact hrest

theorem projectedColumns_col (columns : List Column) :
    (projectedColumns usage columns).map ProjectedColumn.col = columns.filter usage.uses :=
  projectedFrom_col 0 columns

theorem projectedColumns_inside {columns : List Column} {n : Nat} (h : n = columns.length) :
    Inside (projectedColumns usage columns) n := by
  have hinside : Inside (projectedFrom usage 0 columns) _ := projectedFrom_inside 0 columns
  rw [Nat.zero_add, ← h] at hinside
  exact hinside

theorem picked_projectedColumns {columns : List Column} {values : List Value}
    (h : values.length = columns.length) :
    picked (projectedColumns usage columns) values = usedValues usage columns values :=
  picked_projectedFrom [] h

theorem usedValues_length {columns : List Column} {values : List Value}
    (h : values.length = columns.length) :
    (usedValues usage columns values).length = (columns.filter usage.uses).length := by
  rw [← picked_projectedColumns h, picked_length (projectedColumns_inside h),
    ← List.length_map (f := ProjectedColumn.col), projectedColumns_col]

/-- Columns that are all in use. -/
theorem usedValues_all {columns : List Column} {values : List Value}
    (h : values.length = columns.length) (hall : ∀ c ∈ columns, usage.uses c = true) :
    usedValues usage columns values = values := by
  induction columns generalizing values with
  | nil =>
      rw [List.length_eq_zero_iff.mp h]
      rfl
  | cons c cs ih =>
      cases values with
      | nil => cases h
      | cons v vs =>
          rw [usedValues, if_pos (hall c List.mem_cons_self),
            ih (Nat.succ.inj h) fun d hd => hall d (List.mem_cons_of_mem c hd)]

/-- Columns of which none is in use. -/
theorem usedValues_none {columns : List Column} {values : List Value}
    (h : ∀ c ∈ columns, usage.uses c = false) : usedValues usage columns values = [] := by
  induction columns generalizing values with
  | nil => rfl
  | cons c cs ih =>
      cases values with
      | nil => rfl
      | cons v vs =>
          rw [usedValues, if_neg (by simp [h c List.mem_cons_self])]
          exact ih fun d hd => h d (List.mem_cons_of_mem c hd)

end Projected

/-! ## Children -/

/-- The records are aligned with the columns. -/
def Aligned (it : QueryIter) (rows : List Record) : Prop :=
  ∀ r ∈ rows, r.values.length = it.getColumns.length

/-- A child of a plan: its iterator, and the records of every scan of it. -/
structure Child where
  iter : QueryIter
  rows : List Record
  delivers : Delivers iter rows
  aligned : Aligned iter rows

theorem Child.valid (c : Child) : ∀ r ∈ c.rows, r.invalid = false := by
  obtain ⟨_, _, _, _, hyields, _⟩ := c.delivers
  exact hyields.valid

/-! ### Tables of one row -/

/-- A table with one column `a` and one row, under an alias. -/
def oneRow (tableAlias : List UInt8) (v : Int) : Child :=
  have hvalid : ∀ r ∈ [Record.mk [.int v]], r.invalid = false := by simp [Record.invalid]
  { iter := .relation ⟨fun _ => [⟨[.int v]⟩], 0, [⟨[.int v]⟩]⟩ [⟨0, tableAlias, [116], [97], .int, 0⟩]
    rows := [⟨[.int v]⟩]
    delivers := relation_delivers (fun _ => rfl) hvalid 0
    aligned := by simp [Aligned, QueryIter.getColumns] }

/-- The column `a` of one alias. -/
def usesOnly (tableAlias : List UInt8) : ColumnUsage :=
  fun c => if c = (tableAlias, [97]) then 1 else 0

end Iic3413Db.Query
