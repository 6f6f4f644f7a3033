/-
  Query/Parser/Meaning.lean --- the rows that a plan of a SELECT stands for.

  This is the abstract layer of the rewriters, not a translation.  A row has a value for each
  column of each relation below it, whichever columns the query uses, and a column is told apart
  by its alias, its table, its name and its datatype.  Expressions mean what `Expr::eval` of their
  lowered form returns.
-/
import Iic3413Db.Foundation.Filters
import Iic3413Db.Foundation.Limits
import Iic3413Db.Query.Optimizer.SideColumns
import Iic3413Db.Query.Parser.ColumnReferences

set_option autoImplicit false

namespace Iic3413Db.Query

open Iic3413Db.Foundation Iic3413Db.RelationalModel
open Iic3413Db.System (Catalog TableId)
open Iic3413Db.Storage (TxID)
open QueryIter (matchesAll valueAt)

/-! ## Rows -/

/-- A column of a relation, as `ColumnInfo::operator==` compares it. -/
abbrev SourceColumn : Type := FromTable × Identifier × DataType

/-- The column of a relation that a column of the query is. -/
def Column.source (c : Column) : SourceColumn :=
  (⟨c.tableAlias, c.table⟩, c.info.name, c.info.datatype)

/-- The values of the columns of some relations. -/
abbrev PlanRow : Type := Row SourceColumn Value

/-- The two halves of a row of an outer join; the left one has the columns of its relations. -/
def beside (relations : List FromTable) (f g : PlanRow) : PlanRow :=
  fun k => if k.1 ∈ relations then f k else g k

/-- The half of a row that has no partner. -/
def nullRow (relations : List FromTable) : PlanRow :=
  fun k => if k.1 ∈ relations then nullOf k.2.2 else none

/-! ## Expressions -/

section Expressions

variable (likeMatch : List UInt8 → List UInt8 → Bool)

/-- The value of a comparison. -/
def comparedIn (test : Value → Value → Bool) (lhs rhs : Option Value) : Option Value :=
  lhs.bind fun a => rhs.map fun b => truth (test a b)

/-- The value of an expression in a row, when it has one. -/
def ExprPlan.valueIn (f : PlanRow) : ExprPlan → Option Value
  | .null => none
  | .column col => f col.source
  | .term value => some value
  | .equals lhs rhs => comparedIn (fun a b => decide (a = b)) (lhs.valueIn f) (rhs.valueIn f)
  | .notEquals lhs rhs => comparedIn (fun a b => decide (a ≠ b)) (lhs.valueIn f) (rhs.valueIn f)
  | .less lhs rhs => comparedIn Value.less (lhs.valueIn f) (rhs.valueIn f)
  | .lessOrEquals lhs rhs => comparedIn (fun a b => !b.less a) (lhs.valueIn f) (rhs.valueIn f)
  | .between col lowerBound upperBound =>
      (f col.source).map fun v => truth (!v.less lowerBound && !upperBound.less v)
  | .like col pattern =>
      (f col.source).bind fun v =>
        match v with
        | .string s => some (truth (likeMatch s pattern))
        | .int _ | .rid _ => none
  | .arithmetic lhs op rhs =>
      (lhs.valueIn f).bind fun a => (rhs.valueIn f).bind fun b => (op.apply a b).toOption

/-- The value of the expression is true. -/
def holds (f : PlanRow) (e : ExprPlan) : Bool :=
  match e.valueIn likeMatch f with
  | some (.int i) => decide (i ≠ 0)
  | _ => false

/-- Every expression holds. -/
def passes (expressions : List ExprPlan) (f : PlanRow) : Bool :=
  expressions.all fun e => holds likeMatch f e

end Expressions

/-- The conjunct that a pair of join columns was. -/
def equalityOf (p : Column × Column) : ExprPlan := .equals (.column p.1) (.column p.2)

/-! ## Plans -/

/-- The pairs of an ON list hold, each read as the optimizer reads it: the second column is the
left one when the first is of the right table, and a pair with a column that is not there says
nothing. -/
def meetsOn (left right : FromTable) (on : List (Column × Column)) (f g : PlanRow) : Bool :=
  on.all fun p =>
    if p.1.table = right.table then
      Row.sameValue (f (left, p.2.info.name, p.2.info.datatype))
        (g (right, p.1.info.name, p.1.info.datatype))
    else
      Row.sameValue (f (left, p.1.info.name, p.1.info.datatype))
        (g (right, p.2.info.name, p.2.info.datatype))

/-- The ON list over the relations of two plans. -/
def meetsOver (lefts rights : List FromTable) (on : List (Column × Column)) (f g : PlanRow) :
    Bool :=
  match lefts, rights with
  | left :: _, right :: _ => meetsOn left right on f g
  | _, _ => true

/-- What the rows of a plan depend on. -/
structure Snapshot where
  catalog : Catalog
  txId : TxID
  contents : TableId → List Record
  likeMatch : List UInt8 → List UInt8 → Bool

variable (db : Snapshot)

/-- The rows of a table under an alias. -/
def tableRows (t : FromTable) : List PlanRow :=
  match db.catalog.getTableInfo t.table db.txId with
  | .ok (some info) => (db.contents info.tableId).map fun r =>
      Row.zip (info.columns.map fun col => (t, col.name, col.datatype)) r.values
  | _ => []

mutual

/-- The rows of a plan; a projection has those it chooses from. -/
def LogicalPlan.rows : LogicalPlan → List PlanRow
  | .relation tableAlias table => tableRows db ⟨tableAlias, table⟩
  | .selection child expressions => child.rows.filter (passes db.likeMatch expressions)
  | .cartesianProduct children => product (rowsOfEach children)
  | .join children joinColumns =>
      (product (rowsOfEach children)).filter (passes db.likeMatch (joinColumns.map equalityOf))
  | .leftOuterJoin _ lchild rchild on =>
      leftOuter (meetsOver lchild.relations rchild.relations on) (beside lchild.relations)
        (fun f => beside lchild.relations f (nullRow rchild.relations)) lchild.rows rchild.rows
  | .fullOuterJoin _ lchild rchild on =>
      fullOuter (meetsOver lchild.relations rchild.relations on) (beside lchild.relations)
        (fun f => beside lchild.relations f (nullRow rchild.relations))
        (fun g => beside lchild.relations (nullRow lchild.relations) g) lchild.rows rchild.rows
  | .projection child _ _ _ => child.rows

/-- The rows of each child. -/
def rowsOfEach : List LogicalPlan → List (List PlanRow)
  | [] => []
  | plan :: plans => plan.rows :: rowsOfEach plans

end

/-- The output of a row. -/
def shown (columns : List Column) (f : PlanRow) : List (Option Value) :=
  columns.map fun c => f c.source

/-- The plans allow the same results; below a projection, they have the same rows. -/
def SameMeaning : LogicalPlan → LogicalPlan → Prop
  | .projection child distinct limit columns, .projection child' distinct' limit' columns' =>
      ∀ result, ResultOf distinct limit ((child.rows db).map (shown columns)) result ↔
        ResultOf distinct' limit' ((child'.rows db).map (shown columns')) result
  | plan, plan' => (plan.rows db).Perm (plan'.rows db)

/-! ## What rows and expressions depend on -/

section Reads

variable {likeMatch : List UInt8 → List UInt8 → Bool} {f g : PlanRow} {t : FromTable}

/-- The columns of some relations. -/
def OfRelations (relations : List FromTable) (k : SourceColumn) : Prop := k.1 ∈ relations

theorem rowsOfEach_eq (plans : List LogicalPlan) :
    rowsOfEach db plans = plans.map (LogicalPlan.rows db) := by
  induction plans with
  | nil => rfl
  | cons plan plans ih => rw [rowsOfEach, ih, List.map_cons]

/-- A row of a table has its columns only. -/
theorem tableRows_over : ∀ f ∈ tableRows db t, Row.Over (fun k => k.1 = t) f := by
  intro f hf k hk
  unfold tableRows at hf
  split at hf
  · obtain ⟨r, _, rfl⟩ := List.mem_map.mp hf
    by_contra hne
    refine hk (Row.zip_eq_none fun hmem => hne ?_)
    obtain ⟨col, _, rfl⟩ := List.mem_map.mp hmem
    rfl
  · cases hf

theorem valueIn_congr {e : ExprPlan} (h : ∀ c ∈ e.mentions, f c.source = g c.source) :
    e.valueIn likeMatch f = e.valueIn likeMatch g := by
  induction e with
  | null | term => rfl
  | column col | between col | like col =>
      have hcol := h col (List.mem_singleton_self col)
      simp only [ExprPlan.valueIn, hcol]
  | equals lhs rhs ihl ihr | notEquals lhs rhs ihl ihr | less lhs rhs ihl ihr
  | lessOrEquals lhs rhs ihl ihr | arithmetic lhs _ rhs ihl ihr =>
      have hl := ihl fun c hc => h c (List.mem_append_left _ hc)
      have hr := ihr fun c hc => h c (List.mem_append_right _ hc)
      simp only [ExprPlan.valueIn, hl, hr]

/-- Expressions read the columns they mention. -/
theorem passes_reads {es : List ExprPlan} {keys : SourceColumn → Prop}
    (h : ∀ e ∈ es, ∀ c ∈ e.mentions, keys c.source) : Row.Reads keys (passes likeMatch es) := by
  refine Row.Reads.all fun e he f g heq => ?_
  have hvalue : e.valueIn likeMatch f = e.valueIn likeMatch g :=
    valueIn_congr fun c hc => heq _ (h e he c hc)
  simp only [holds, hvalue]

theorem passes_append (es es' : List ExprPlan) :
    passes likeMatch (es ++ es') f = (passes likeMatch es f && passes likeMatch es' f) :=
  List.all_append

/-- The rows below the projection, above the FROM clause. -/
theorem below_rows {child source : LogicalPlan}
    (hchild : child = source ∧ child.conjuncts = [] ∨ child = .selection source child.conjuncts) :
    child.rows db = (source.rows db).filter (passes db.likeMatch child.conjuncts) := by
  rcases hchild with ⟨hself, hnone⟩ | hselection
  · rw [hnone, hself]
    exact (List.filter_eq_self.mpr fun _ _ => rfl).symm
  · obtain ⟨conjuncts, hconjuncts⟩ : ∃ conjuncts, conjuncts = child.conjuncts := ⟨_, rfl⟩
    rw [← hconjuncts] at hselection ⊢
    rw [hselection]
    rfl

end Reads

/-! ## Expressions as the executor evaluates them -/

section Evaluation

variable {likeMatch : List UInt8 → List UInt8 → Bool} {columns : List Column} {r : Record}
  {f : PlanRow}

/-- The record has the values of the row where the columns are. -/
def Shows (columns : List Column) (r : Record) (f : PlanRow) (c : Column) : Prop :=
  ∀ i, findColumn columns c = some i → r.values[i]? = f c.source

theorem lowerColumn_valueIn {col : Column} {lowered : Expr}
    (h : lowerColumn columns col = .ok lowered) (hcol : Shows columns r f col) :
    (lowered r).toOption = f col.source := by
  unfold lowerColumn at h
  split at h
  · cases h
  · rename_i i hi
    cases h
    show (valueAt r.values i).toOption = f col.source
    rw [← hcol i hi]
    unfold valueAt
    cases r.values[i]? <;> rfl

theorem toOption_bind {α β : Type} (x : Outcome α) (k : α → Outcome β) :
    (x >>= k).toOption = x.toOption.bind fun a => (k a).toOption := by
  cases x <;> rfl

theorem compareWith_valueIn (test : Value → Value → Bool) (lhs rhs : Expr) :
    (compareWith test lhs rhs r).toOption =
      comparedIn test (lhs r).toOption (rhs r).toOption := by
  unfold compareWith comparedIn
  rw [toOption_bind]
  cases (lhs r).toOption with
  | none => rfl
  | some a =>
      rw [Option.bind_some, Option.bind_some, toOption_bind]
      cases (rhs r).toOption <;> rfl

/-- `eval` of a lowered expression returns its value in the row. -/
theorem lowerExpr_valueIn {e : ExprPlan} {lowered : Expr}
    (h : lowerExpr likeMatch columns e = .ok lowered)
    (hcols : ∀ c ∈ e.mentions, Shows columns r f c) :
    (lowered r).toOption = e.valueIn likeMatch f := by
  induction e generalizing lowered with
  | null => cases h
  | column col => exact lowerColumn_valueIn h (hcols col (List.mem_singleton_self col))
  | term value =>
      cases h
      rfl
  | equals lhs rhs ihl ihr | notEquals lhs rhs ihl ihr | less lhs rhs ihl ihr
  | lessOrEquals lhs rhs ihl ihr =>
      obtain ⟨l, hl, h⟩ := Outcome.of_bind_ok h
      obtain ⟨r', hr, h⟩ := Outcome.of_bind_ok h
      cases h
      rw [compareWith_valueIn, ihl hl fun c hc => hcols c (List.mem_append_left _ hc),
        ihr hr fun c hc => hcols c (List.mem_append_right _ hc)]
      rfl
  | between col lowerBound upperBound =>
      obtain ⟨child, hchild, h⟩ := Outcome.of_bind_ok h
      cases h
      have hvalue := lowerColumn_valueIn hchild (hcols col (List.mem_singleton_self col))
      rw [ExprPlan.valueIn, ← hvalue, between, toOption_bind]
      cases (child r).toOption <;> rfl
  | like col pattern =>
      obtain ⟨child, hchild, h⟩ := Outcome.of_bind_ok h
      cases h
      have hvalue := lowerColumn_valueIn hchild (hcols col (List.mem_singleton_self col))
      rw [ExprPlan.valueIn, ← hvalue, like, toOption_bind]
      refine congrArg _ (funext fun v => ?_)
      cases v <;> rfl
  | arithmetic lhs op rhs ihl ihr =>
      obtain ⟨l, hl, h⟩ := Outcome.of_bind_ok h
      obtain ⟨r', hr, h⟩ := Outcome.of_bind_ok h
      cases h
      rw [ExprPlan.valueIn, ← ihl hl fun c hc => hcols c (List.mem_append_left _ hc),
        ← ihr hr fun c hc => hcols c (List.mem_append_right _ hc), arithmetic, toOption_bind]
      refine congrArg _ (funext fun v => ?_)
      rw [toOption_bind]

/-- `Selection::next` keeps the records whose rows pass. -/
theorem matchesAll_passes {es : List ExprPlan} {lowered : List Expr}
    (h : es.mapM (lowerExpr likeMatch columns) = .ok lowered)
    (hcols : ∀ e ∈ es, ∀ c ∈ e.mentions, Shows columns r f c) :
    matchesAll r lowered = .ok true ↔ passes likeMatch es f = true := by
  induction es generalizing lowered with
  | nil =>
      cases h
      exact iff_of_true rfl rfl
  | cons e es ih =>
      rw [Outcome.mapM_cons] at h
      obtain ⟨l, hl, h⟩ := Outcome.of_bind_ok h
      obtain ⟨ls, hls, h⟩ := Outcome.of_bind_ok h
      cases h
      obtain ⟨he, hes⟩ := List.forall_mem_cons.mp hcols
      have hvalue := lowerExpr_valueIn hl he
      rw [passes, List.all_cons, Bool.and_eq_true, holds, ← hvalue, matchesAll]
      cases hlr : l r with
      | error fault => simp [Except.toOption]
      | ok v =>
          cases v with
          | string s => simp [Except.toOption]
          | rid x => simp [Except.toOption]
          | int i =>
              by_cases hi : i = 0
              · simp [Except.toOption, hi]
              · have hrest := ih hls hes
                rw [passes] at hrest
                simp [Except.toOption, hi, hrest]

end Evaluation

end Iic3413Db.Query
