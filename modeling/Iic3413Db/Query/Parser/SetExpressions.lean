/-
  Query/Parser/SetExpressions.lean --- `query_preprocessor.cc`: the expressions of an
  assignment.

  `current_expr` is the slot that each visit is handed and leaves; what is moved out of
  it leaves an empty pointer.  The operands of a chain after the first are the types
  whose names end in `Rest`.
-/
import Iic3413Db.Query.Parser.QueryPreprocessor

set_option autoImplicit false

namespace Iic3413Db.Query

open Iic3413Db.RelationalModel
open Iic3413Db.System (Catalog)
open Iic3413Db.Storage (TxID)

/-! ## Parse trees -/

/-- The operators of `additiveExpr`. -/
inductive AdditiveOp where
  | plus
  | minus
  deriving DecidableEq, Repr

/-- The operators of `multiplicativeExpr`. -/
inductive MultiplicativeOp where
  | times
  | divide
  | modulo
  deriving DecidableEq, Repr

/-- `operator_`. -/
def AdditiveOp.operator : AdditiveOp → ArithmeticOp
  | .plus => .plus
  | .minus => .minus

/-- `operator_`. -/
def MultiplicativeOp.operator : MultiplicativeOp → ArithmeticOp
  | .times => .times
  | .divide => .divide
  | .modulo => .modulo

mutual

/-- `additiveExpr`. -/
inductive AdditiveExpr where
  | chain (first : MultiplicativeExpr) (rest : AdditiveRest)

/-- The operands of `additiveExpr` after the first. -/
inductive AdditiveRest where
  | nil
  | cons (op : AdditiveOp) (operand : MultiplicativeExpr) (rest : AdditiveRest)

/-- `multiplicativeExpr`. -/
inductive MultiplicativeExpr where
  | chain (first : UnaryExpr) (rest : MultiplicativeRest)

/-- The operands of `multiplicativeExpr` after the first. -/
inductive MultiplicativeRest where
  | nil
  | cons (op : MultiplicativeOp) (operand : UnaryExpr) (rest : MultiplicativeRest)

/-- `unaryExpr`. -/
inductive UnaryExpr where
  | empty
  | atomic (e : AtomicExpr)
  | plus (e : UnaryExpr)
  | minus (e : UnaryExpr)

/-- `atomicExpr`. -/
inductive AtomicExpr where
  | empty
  | constant (ctx : ConstantContext)
  | parentheses (e : AdditiveExpr)
  | column (ctx : ColumnContext)

end

/-! ## Visits -/

section Visitor

variable (catalog : Catalog) (txId : TxID) (f : FromClause)

mutual

/-- `visitAdditiveExpr`. -/
def visitAdditiveExpr (slot : ExprPlan) : AdditiveExpr → Outcome ExprPlan
  | .chain first .nil => visitMultiplicativeExpr slot first
  | .chain first (.cons op operand rest) => do
      let lhs ← visitMultiplicativeExpr slot first
      let rhs ← visitMultiplicativeExpr .null operand
      visitAdditiveRest (.arithmetic lhs op.operator rhs) rest

/-- The loop of `visitAdditiveExpr`, from its second turn on. -/
def visitAdditiveRest (finalExpr : ExprPlan) : AdditiveRest → Outcome ExprPlan
  | .nil => .ok finalExpr
  | .cons op operand rest => do
      let rhs ← visitMultiplicativeExpr .null operand
      visitAdditiveRest (.arithmetic finalExpr op.operator rhs) rest

/-- `visitMultiplicativeExpr`. -/
def visitMultiplicativeExpr (slot : ExprPlan) : MultiplicativeExpr → Outcome ExprPlan
  | .chain first .nil => visitUnaryExpr slot first
  | .chain first (.cons op operand rest) => do
      let lhs ← visitUnaryExpr slot first
      let rhs ← visitUnaryExpr .null operand
      visitMultiplicativeRest (.arithmetic lhs op.operator rhs) rest

/-- The loop of `visitMultiplicativeExpr`, from its second turn on. -/
def visitMultiplicativeRest (finalExpr : ExprPlan) : MultiplicativeRest → Outcome ExprPlan
  | .nil => .ok finalExpr
  | .cons op operand rest => do
      let rhs ← visitUnaryExpr .null operand
      visitMultiplicativeRest (.arithmetic finalExpr op.operator rhs) rest

/-- `visitUnaryExpr`. -/
def visitUnaryExpr (slot : ExprPlan) : UnaryExpr → Outcome ExprPlan
  | .empty => .ok slot
  | .atomic e => visitAtomicExpr slot e
  | .plus e => visitUnaryExpr slot e
  | .minus e => do
      let operand ← visitUnaryExpr slot e
      .ok (.arithmetic .null .minus operand)

/-- `visitAtomicExpr`. -/
def visitAtomicExpr (slot : ExprPlan) : AtomicExpr → Outcome ExprPlan
  | .empty => .ok slot
  | .constant ctx => do
      let value ← getValue ctx
      .ok (.term value)
  | .parentheses e => visitAdditiveExpr slot e
  | .column ctx => do
      let col ← getColumn catalog txId f ctx
      .ok (.column col)

end

end Visitor

end Iic3413Db.Query
