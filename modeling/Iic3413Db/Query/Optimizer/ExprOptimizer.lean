/-
  Query/Optimizer/ExprOptimizer.lean --- `ExprOptimizer` of `optimizer.cc`, and
  `query/executor/expr`: expressions over the columns of an iterator.

  `eval` of the lowered expression is a function of the record.  The matcher of LIKE
  is not written in the source and is a variable here.
-/
import Iic3413Db.Query.Parser.LogicalPlan

set_option autoImplicit false

namespace Iic3413Db.Query

open Iic3413Db.RelationalModel
open QueryIter (valueAt)

/-! ## Arithmetic -/

/-- An `int64_t` result; the overflow of one is undefined. -/
def intResult (i : Int) : Outcome Value :=
  if -2 ^ 63 ≤ i ∧ i < 2 ^ 63 then .ok (.int i)
  else .error (.undefinedBehaviour "signed integer overflow")

namespace ArithmeticOp

/-- The message of the operator of `Value`. -/
def incompatible : ArithmeticOp → Fault
  | .plus => .queryException "Incompatible types for sum"
  | .minus => .queryException "Incompatible types for subtraction"
  | .times => .queryException "Incompatible types for multiplication"
  | .divide => .queryException "Incompatible types for division"
  | .modulo => .queryException "Incompatible types for modulo"

/-- The operators of `Value`. -/
def apply : ArithmeticOp → Value → Value → Outcome Value
  | .plus, .int i, .int j => intResult (i + j)
  | .minus, .int i, .int j => intResult (i - j)
  | .times, .int i, .int j => intResult (i * j)
  | .divide, .int i, .int j =>
      if j = 0 then .error (.queryException "Division by zero") else intResult (i.tdiv j)
  | .modulo, .int i, .int j =>
      if j = 0 then .error (.queryException "Modulo by zero")
      else do
        -- the remainder is undefined where the quotient is
        let _ ← intResult (i.tdiv j)
        .ok (.int (i.tmod j))
  | op, _, _ => .error op.incompatible

end ArithmeticOp

/-! ## Expressions -/

/-- `static_cast<int64_t>` of a comparison. -/
def truth (b : Bool) : Value := .int (if b then 1 else 0)

/-- The `eval` of a comparison. -/
def compareWith (test : Value → Value → Bool) (lhs rhs : Expr) : Expr := fun r => do
  let a ← lhs r
  let b ← rhs r
  .ok (truth (test a b))

/-- `ExprArithmetic::eval`. -/
def arithmetic (op : ArithmeticOp) (lhs rhs : Expr) : Expr := fun r => do
  let a ← lhs r
  let b ← rhs r
  op.apply a b

/-- `ExprBetween::eval`. -/
def between (child : Expr) (lowerBound upperBound : Value) : Expr := fun r => do
  let v ← child r
  .ok (truth (!v.less lowerBound && !upperBound.less v))

/-- `ExprLike::eval`, with `as_string`. -/
def like (likeMatch : List UInt8 → List UInt8 → Bool) (child : Expr) (pattern : List UInt8) :
    Expr := fun r => do
  match ← child r with
  | .string s => .ok (truth (likeMatch s pattern))
  | .int _ | .rid _ => .error (.assertFailed "is_string()")

/-- `visit(ExprPlanColumn&)`. -/
def lowerColumn (columns : List Column) (col : Column) : Outcome Expr :=
  match findColumn columns col with
  | none => .error (.assertFailed "index != -1")
  | some i => .ok fun r => valueAt r.values i

/-- `ExprOptimizer`. -/
def lowerExpr (likeMatch : List UInt8 → List UInt8 → Bool) (columns : List Column) :
    ExprPlan → Outcome Expr
  | .null => .error (.undefinedBehaviour "accept_visitor")
  | .column col => lowerColumn columns col
  | .term value => .ok fun _ => .ok value
  | .equals lhs rhs => do
      let lhs ← lowerExpr likeMatch columns lhs
      let rhs ← lowerExpr likeMatch columns rhs
      .ok (compareWith (fun a b => decide (a = b)) lhs rhs)
  | .notEquals lhs rhs => do
      let lhs ← lowerExpr likeMatch columns lhs
      let rhs ← lowerExpr likeMatch columns rhs
      .ok (compareWith (fun a b => decide (a ≠ b)) lhs rhs)
  | .less lhs rhs => do
      let lhs ← lowerExpr likeMatch columns lhs
      let rhs ← lowerExpr likeMatch columns rhs
      .ok (compareWith Value.less lhs rhs)
  | .lessOrEquals lhs rhs => do
      let lhs ← lowerExpr likeMatch columns lhs
      let rhs ← lowerExpr likeMatch columns rhs
      .ok (compareWith (fun a b => !b.less a) lhs rhs)
  | .between col lowerBound upperBound => do
      let child ← lowerColumn columns col
      .ok (between child lowerBound upperBound)
  | .like col pattern => do
      let child ← lowerColumn columns col
      .ok (like likeMatch child pattern)
  | .arithmetic lhs op rhs => do
      let lhs ← lowerExpr likeMatch columns lhs
      let rhs ← lowerExpr likeMatch columns rhs
      .ok (arithmetic op lhs rhs)

end Iic3413Db.Query
