/-
  Query/Optimizer/WrittenArithmetic.lean --- the expressions of SET, from the parse tree
  to the value of a record.

  `value` is what is written: the chains from the left, `*` `/` `%` before `+` `-`,
  with the exact results as far as they fit in 64 bits.  An expression gets there
  when none of its operands is missing, since every visit leaves the slot as it is
  where the grammar lets an operand be empty.
-/
import Iic3413Db.Foundation.Outcomes
import Iic3413Db.Query.Optimizer.Optimizer
import Iic3413Db.Query.Parser.SetExpressions

set_option autoImplicit false

namespace Iic3413Db.Query

open Iic3413Db.RelationalModel
open Iic3413Db.System (Catalog TableInfo)
open Iic3413Db.Storage (TxID)
open QueryIter (valueAt)

/-! ## Exact results -/

/-- The result that has no place in an `int64_t`. -/
def overflow : Fault := .undefinedBehaviour "signed integer overflow"

namespace ArithmeticOp

/-- The operator on integers. -/
def onIntegers : ArithmeticOp → Int → Int → Int
  | .plus, i, j => i + j
  | .minus, i, j => i - j
  | .times, i, j => i * j
  | .divide, i, j => i.tdiv j
  | .modulo, i, j => i.tmod j

/-- The operator divides by its right operand. -/
def divides : ArithmeticOp → Bool
  | .divide | .modulo => true
  | .plus | .minus | .times => false

/-- The message of a division by zero. -/
def byZero : ArithmeticOp → Fault
  | .modulo => .queryException "Modulo by zero"
  | _ => .queryException "Division by zero"

/-- What the operator means: the exact result, when it fits in 64 bits. -/
def exact (op : ArithmeticOp) : Value → Value → Outcome Value
  | .int i, .int j =>
      if op.divides = true ∧ j = 0 then .error op.byZero else intResult (op.onIntegers i j)
  | _, _ => .error op.incompatible

/-- A remainder whose quotient does not fit: that of `-2^63` by `-1`. -/
def Traps (op : ArithmeticOp) (a b : Value) : Prop :=
  op = .modulo ∧ ∃ i j, a = .int i ∧ b = .int j ∧ j ≠ 0 ∧ ¬ (-2 ^ 63 ≤ i.tdiv j ∧ i.tdiv j < 2 ^ 63)

theorem intResult_cases (i : Int) : (-2 ^ 63 ≤ i ∧ i < 2 ^ 63) ∧ intResult i = .ok (.int i) ∨
    ¬ (-2 ^ 63 ≤ i ∧ i < 2 ^ 63) ∧ intResult i = .error overflow := by
  unfold intResult
  by_cases h : -2 ^ 63 ≤ i ∧ i < 2 ^ 63
  · exact .inl ⟨h, if_pos h⟩
  · exact .inr ⟨h, if_neg h⟩

/-- The operators of `Value` compute it, unless the remainder traps. -/
theorem apply_exact {op : ArithmeticOp} {a b : Value} (h : op.exact a b ≠ .error overflow) :
    (¬ op.Traps a b → op.apply a b = op.exact a b) ∧
      (op.Traps a b → op.apply a b = .error overflow) := by
  have hints : (∃ i j, a = .int i ∧ b = .int j) ∨ ∀ i j, ¬ (a = .int i ∧ b = .int j) := by
    cases a <;> cases b <;> simp
  rcases hints with ⟨i, j, rfl, rfl⟩ | hother
  · cases op with
    | plus | minus | times | divide =>
        refine ⟨fun _ => ?_, fun htraps => nomatch htraps.1⟩
        simp [apply, exact, divides, onIntegers, byZero]
    | modulo =>
        by_cases hj : j = 0
        · refine ⟨fun _ => ?_, ?_⟩
          · simp [apply, exact, divides, byZero, hj]
          · rintro ⟨_, _, j', _, heq, hne, _⟩
            cases heq
            exact absurd hj hne
        · have hexact : exact .modulo (.int i) (.int j) = intResult (i.tmod j) := by
            simp [exact, divides, onIntegers, hj]
          rw [hexact] at h ⊢
          have hrem := (intResult_cases (i.tmod j)).resolve_right fun hno => h hno.2
          rcases intResult_cases (i.tdiv j) with ⟨hfits, hquot⟩ | ⟨hfits, hquot⟩
          · refine ⟨fun _ => ?_, ?_⟩
            · simp only [apply, hj, if_false, hquot, Outcome.ok_bind, hrem.2]
            · rintro ⟨_, i', j', hi, heq, _, hnofit⟩
              cases hi
              cases heq
              exact absurd hfits hnofit
          · refine ⟨fun hno => absurd ⟨rfl, i, j, rfl, rfl, hj, hfits⟩ hno, fun _ => ?_⟩
            simp only [apply, hj, if_false, hquot, Outcome.error_bind]
  · refine ⟨fun _ => ?_, fun ⟨_, i, j, ha, hb, _⟩ => absurd ⟨ha, hb⟩ (hother i j)⟩
    cases a <;> cases b <;> cases op <;> first | rfl | exact absurd ⟨rfl, rfl⟩ (hother _ _)

end ArithmeticOp

/-! ## What an expression of SET means -/

section Written

variable (op : ArithmeticOp → Value → Value → Outcome Value) (leaf : ColumnOrConstant → Outcome Value)

/-- An operator on what its operands come to. -/
def onOutcomes (f : Value → Value → Outcome Value) (x y : Outcome Value) : Outcome Value := do
  let a ← x
  let b ← y
  f a b

mutual

/-- The value of the expression, with a meaning for the operators and the operands. -/
def AdditiveExpr.value : AdditiveExpr → Outcome Value
  | .chain first rest => rest.value first.value

/-- The operators are read from the left. -/
def AdditiveRest.value (before : Outcome Value) : AdditiveRest → Outcome Value
  | .nil => before
  | .cons o operand rest => rest.value (onOutcomes (op o.operator) before operand.value)

/-- The same for the operators that bind closer. -/
def MultiplicativeExpr.value : MultiplicativeExpr → Outcome Value
  | .chain first rest => rest.value first.value

/-- The operators are read from the left. -/
def MultiplicativeRest.value (before : Outcome Value) : MultiplicativeRest → Outcome Value
  | .nil => before
  | .cons o operand rest => rest.value (onOutcomes (op o.operator) before operand.value)

/-- A minus subtracts from zero; nothing has no value. -/
def UnaryExpr.value : UnaryExpr → Outcome Value
  | .empty => .error (.undefinedBehaviour "no operand")
  | .atomic e => e.value
  | .plus e => e.value
  | .minus e => onOutcomes (op .minus) (.ok (.int 0)) e.value

/-- An operand; nothing has no value. -/
def AtomicExpr.value : AtomicExpr → Outcome Value
  | .empty => .error (.undefinedBehaviour "no operand")
  | .constant ctx => leaf (.constant ctx)
  | .parentheses e => e.value
  | .column ctx => leaf (.column ctx)

end

end Written

mutual

/-- The columns and the constants of the expression, in order. -/
def AdditiveExpr.operands : AdditiveExpr → List ColumnOrConstant
  | .chain first rest => first.operands ++ rest.operands

def AdditiveRest.operands : AdditiveRest → List ColumnOrConstant
  | .nil => []
  | .cons _ operand rest => operand.operands ++ rest.operands

def MultiplicativeExpr.operands : MultiplicativeExpr → List ColumnOrConstant
  | .chain first rest => first.operands ++ rest.operands

def MultiplicativeRest.operands : MultiplicativeRest → List ColumnOrConstant
  | .nil => []
  | .cons _ operand rest => operand.operands ++ rest.operands

def UnaryExpr.operands : UnaryExpr → List ColumnOrConstant
  | .empty => []
  | .atomic e => e.operands
  | .plus e | .minus e => e.operands

def AtomicExpr.operands : AtomicExpr → List ColumnOrConstant
  | .empty => []
  | .constant ctx => [.constant ctx]
  | .parentheses e => e.operands
  | .column ctx => [.column ctx]

end

mutual

/-- No operand is empty, and none has a minus of its own. -/
def AdditiveExpr.Plain : AdditiveExpr → Prop
  | .chain first rest => first.Plain ∧ rest.Plain

def AdditiveRest.Plain : AdditiveRest → Prop
  | .nil => True
  | .cons _ operand rest => operand.Plain ∧ rest.Plain

def MultiplicativeExpr.Plain : MultiplicativeExpr → Prop
  | .chain first rest => first.Plain ∧ rest.Plain

def MultiplicativeRest.Plain : MultiplicativeRest → Prop
  | .nil => True
  | .cons _ operand rest => operand.Plain ∧ rest.Plain

def UnaryExpr.Plain : UnaryExpr → Prop
  | .empty | .minus _ => False
  | .atomic e => e.Plain
  | .plus e => e.Plain

def AtomicExpr.Plain : AtomicExpr → Prop
  | .empty => False
  | .constant _ | .column _ => True
  | .parentheses e => e.Plain

end

/-- No operand of the plan is an empty pointer. -/
def ExprPlan.Complete : ExprPlan → Prop
  | .null => False
  | .column _ | .term _ | .between _ _ _ | .like _ _ => True
  | .equals lhs rhs | .notEquals lhs rhs | .less lhs rhs | .lessOrEquals lhs rhs
  | .arithmetic lhs _ rhs => lhs.Complete ∧ rhs.Complete

/-! ## What is built -/

section ComesTo

variable (catalog : Catalog) (txId : TxID) (f : FromClause)
  (likeMatch : List UInt8 → List UInt8 → Bool) (columns : List Column) (values : List Value)

/-- `get_column` or `get_value` ends with the fault, for the operand. -/
def RejectedWith (e : Fault) : ColumnOrConstant → Prop
  | .column ctx => getColumn catalog txId f ctx = .error e
  | .constant ctx => getValue ctx = .error e

/-- The operand is not accepted. -/
def Rejected (o : ColumnOrConstant) : Prop := ∃ e, RejectedWith catalog txId f e o

/-- The column is one of the record. -/
def Present : ColumnOrConstant → Prop
  | .column ctx => ∀ col, getColumn catalog txId f ctx = .ok col → (findColumn columns col).isSome
  | .constant _ => True

/-- The value of an operand in the record. -/
def operandValue : ColumnOrConstant → Outcome Value
  | .column ctx => do
      let col ← getColumn catalog txId f ctx
      match findColumn columns col with
      | none => .error (.undefinedBehaviour "no such column")
      | some i => valueAt values i
  | .constant ctx => getValue ctx

/-- What a visit does with an expression: it throws for an operand that is rejected, and
otherwise builds a plan that is complete when the expression is plain, and then comes to
`v` when the columns are there. -/
def ComesTo (visit : Outcome ExprPlan) (operands : List ColumnOrConstant) (plain : Prop)
    (v : Outcome Value) : Prop :=
  (∃ e, visit = .error e ∧ ∃ o ∈ operands, RejectedWith catalog txId f e o) ∨
  ∃ plan, visit = .ok plan ∧ (∀ o ∈ operands, ¬ Rejected catalog txId f o) ∧
    (plan.Complete ↔ plain) ∧
    (plain → ((∃ expr, lowerExpr likeMatch columns plan = .ok expr) ↔
      ∀ o ∈ operands, Present catalog txId f columns o)) ∧
    ∀ expr, plain → lowerExpr likeMatch columns plan = .ok expr → expr ⟨values⟩ = v

end ComesTo

section Build

variable {catalog : Catalog} {txId : TxID} {f : FromClause}
  {likeMatch : List UInt8 → List UInt8 → Bool} {columns : List Column} {values : List Value}
  {visit visit' : Outcome ExprPlan} {os os' : List ColumnOrConstant} {plain plain' : Prop}
  {v v' : Outcome Value}

theorem builds_empty :
    ComesTo catalog txId f likeMatch columns values (.ok .null) [] False v :=
  .inr ⟨.null, rfl, fun _ h => (nomatch h), Iff.rfl, False.elim, fun _ h => h.elim⟩

theorem builds_constant (ctx : ConstantContext) :
    ComesTo catalog txId f likeMatch columns values
      (do let value ← getValue ctx; .ok (.term value)) [.constant ctx] True
      (operandValue catalog txId f columns values (.constant ctx)) := by
  cases hvalue : getValue ctx with
  | error e => exact .inl ⟨e, rfl, _, List.mem_cons_self, hvalue⟩
  | ok value =>
      refine .inr ⟨.term value, rfl, ?_, Iff.rfl, fun _ => ?_, fun expr _ hexpr => ?_⟩
      · rw [List.forall_mem_singleton]
        rintro ⟨e, he⟩
        cases hvalue.symm.trans he
      · refine iff_of_true ⟨_, rfl⟩ ?_
        rw [List.forall_mem_singleton]
        trivial
      · cases hexpr
        exact hvalue.symm

theorem present_iff {ctx : ColumnContext} {col : Column}
    (hcol : getColumn catalog txId f ctx = .ok col) :
    (∃ expr, lowerColumn columns col = .ok expr) ↔
      Present catalog txId f columns (.column ctx) := by
  have hpresent : Present catalog txId f columns (.column ctx) ↔
      (findColumn columns col).isSome = true := by
    refine ⟨fun h => h col hcol, fun h col' hcol' => ?_⟩
    obtain rfl := Except.ok.inj (hcol.symm.trans hcol')
    exact h
  rw [hpresent, lowerColumn]
  cases findColumn columns col with
  | none => exact iff_of_false (fun ⟨_, h⟩ => nomatch h) Bool.false_ne_true
  | some i => exact iff_of_true ⟨_, rfl⟩ rfl

theorem lowerColumn_eval {ctx : ColumnContext} {col : Column} {expr : Expr}
    (hcol : getColumn catalog txId f ctx = .ok col) (h : lowerColumn columns col = .ok expr) :
    expr ⟨values⟩ = operandValue catalog txId f columns values (.column ctx) := by
  rw [lowerColumn] at h
  simp only [operandValue, hcol, Outcome.ok_bind]
  cases hfind : findColumn columns col with
  | none =>
      rw [hfind] at h
      cases h
  | some i =>
      rw [hfind] at h
      cases h
      rfl

theorem builds_column (ctx : ColumnContext) :
    ComesTo catalog txId f likeMatch columns values
      (do let col ← getColumn catalog txId f ctx; .ok (.column col)) [.column ctx] True
      (operandValue catalog txId f columns values (.column ctx)) := by
  cases hcol : getColumn catalog txId f ctx with
  | error e => exact .inl ⟨e, rfl, _, List.mem_cons_self, hcol⟩
  | ok col =>
      refine .inr ⟨.column col, rfl, ?_, Iff.rfl, fun _ => ?_, fun expr _ hexpr =>
        lowerColumn_eval hcol hexpr⟩
      · rw [List.forall_mem_singleton]
        rintro ⟨e, he⟩
        cases hcol.symm.trans he
      · rw [List.forall_mem_singleton]
        exact present_iff hcol

/-- Two operands and an operator. -/
theorem ComesTo.arithmetic (op : ArithmeticOp)
    (h : ComesTo catalog txId f likeMatch columns values visit os plain v)
    (h' : ComesTo catalog txId f likeMatch columns values visit' os' plain' v') :
    ComesTo catalog txId f likeMatch columns values
      (do let lhs ← visit; let rhs ← visit'; .ok (.arithmetic lhs op rhs)) (os ++ os')
      (plain ∧ plain') (onOutcomes op.apply v v') := by
  obtain ⟨e, rfl, o, ho, hrejected⟩ | ⟨lhs, rfl, haccepted, hcomplete, hlowers, hvalue⟩ := h
  · exact .inl ⟨e, rfl, o, List.mem_append_left _ ho, hrejected⟩
  obtain ⟨e, rfl, o, ho, hrejected⟩ | ⟨rhs, rfl, haccepted', hcomplete', hlowers', hvalue'⟩ := h'
  · exact .inl ⟨e, rfl, o, List.mem_append_right _ ho, hrejected⟩
  have hlower : ∀ expr, lowerExpr likeMatch columns (.arithmetic lhs op rhs) = .ok expr ↔
      ∃ l r, lowerExpr likeMatch columns lhs = .ok l ∧ lowerExpr likeMatch columns rhs = .ok r ∧
        arithmetic op l r = expr := by
    intro expr
    constructor
    · intro hexpr
      obtain ⟨l, hl, hexpr⟩ := Outcome.of_bind_ok hexpr
      obtain ⟨r, hr, hexpr⟩ := Outcome.of_bind_ok hexpr
      exact ⟨l, r, hl, hr, Except.ok.inj hexpr⟩
    · rintro ⟨l, r, hl, hr, rfl⟩
      rw [lowerExpr, hl, hr]
      rfl
  refine .inr ⟨.arithmetic lhs op rhs, rfl, List.forall_mem_append.mpr ⟨haccepted, haccepted'⟩,
    and_congr hcomplete hcomplete', fun ⟨hplain, hplain'⟩ => ?_,
    fun expr ⟨hplain, hplain'⟩ hexpr => ?_⟩
  · rw [List.forall_mem_append, ← hlowers hplain, ← hlowers' hplain']
    constructor
    · rintro ⟨expr, hexpr⟩
      obtain ⟨l, r, hl, hr, _⟩ := (hlower expr).mp hexpr
      exact ⟨⟨l, hl⟩, r, hr⟩
    · rintro ⟨⟨l, hl⟩, r, hr⟩
      exact ⟨_, (hlower _).mpr ⟨l, r, hl, hr, rfl⟩⟩
  · obtain ⟨l, r, hl, hr, rfl⟩ := (hlower expr).mp hexpr
    rw [← hvalue l hplain hl, ← hvalue' r hplain' hr]
    rfl

/-- A minus before an operand: the left operand is missing. -/
theorem ComesTo.minus (h : ComesTo catalog txId f likeMatch columns values visit os plain v) :
    ComesTo catalog txId f likeMatch columns values
      (do let operand ← visit; .ok (.arithmetic .null .minus operand)) os False v' := by
  obtain ⟨e, rfl, o, ho, hrejected⟩ | ⟨rhs, rfl, haccepted, _⟩ := h
  · exact .inl ⟨e, rfl, o, ho, hrejected⟩
  · exact .inr ⟨.arithmetic .null .minus rhs, rfl, haccepted,
      iff_of_false (fun h => h.1) id, False.elim, fun _ h => h.elim⟩

mutual

/-- Every visit starts with an empty slot. -/
theorem visitAdditiveExpr_builds (e : AdditiveExpr) :
    ComesTo catalog txId f likeMatch columns values (visitAdditiveExpr catalog txId f .null e)
      e.operands e.Plain
      (e.value ArithmeticOp.apply (operandValue catalog txId f columns values)) := by
  match e with
  | .chain first rest =>
      have hchain := visitAdditiveRest_builds rest (visitMultiplicativeExpr_builds first)
      have hvisit : visitAdditiveExpr catalog txId f .null (.chain first rest) =
          (visitMultiplicativeExpr catalog txId f .null first >>= fun finalExpr =>
            visitAdditiveRest catalog txId f finalExpr rest) := by
        cases rest with
        | nil =>
            rw [visitAdditiveExpr]
            cases visitMultiplicativeExpr catalog txId f .null first <;> rfl
        | cons op operand rest =>
            rw [visitAdditiveExpr]
            rfl
      rw [hvisit]
      exact hchain

theorem visitAdditiveRest_builds (rest : AdditiveRest) :
    ∀ {visit : Outcome ExprPlan} {os : List ColumnOrConstant} {plain : Prop} {v : Outcome Value},
      ComesTo catalog txId f likeMatch columns values visit os plain v →
      ComesTo catalog txId f likeMatch columns values
        (visit >>= fun finalExpr => visitAdditiveRest catalog txId f finalExpr rest)
        (os ++ rest.operands) (plain ∧ rest.Plain)
        (rest.value ArithmeticOp.apply (operandValue catalog txId f columns values) v) := by
  intro visit os plain v h
  match rest with
  | .nil =>
      have hbind : (visit >>= fun finalExpr => visitAdditiveRest catalog txId f finalExpr .nil) =
          visit := by
        cases visit <;> rfl
      simpa only [hbind, AdditiveRest.operands, List.append_nil, AdditiveRest.Plain, and_true,
        AdditiveRest.value] using h
  | .cons op operand rest =>
      have hstep := visitAdditiveRest_builds rest
        (h.arithmetic op.operator (visitMultiplicativeExpr_builds operand))
      have hbind : (visit >>= fun finalExpr =>
          visitAdditiveRest catalog txId f finalExpr (.cons op operand rest)) =
          ((visit >>= fun lhs => visitMultiplicativeExpr catalog txId f .null operand >>= fun rhs =>
            .ok (.arithmetic lhs op.operator rhs)) >>= fun finalExpr =>
              visitAdditiveRest catalog txId f finalExpr rest) := by
        cases visit with
        | error e => rfl
        | ok lhs =>
            simp only [visitAdditiveRest, Outcome.ok_bind]
            cases visitMultiplicativeExpr catalog txId f .null operand <;> rfl
      rw [hbind]
      simpa only [AdditiveRest.operands, List.append_assoc, AdditiveRest.Plain, and_assoc,
        AdditiveRest.value] using hstep

theorem visitMultiplicativeExpr_builds (e : MultiplicativeExpr) :
    ComesTo catalog txId f likeMatch columns values
      (visitMultiplicativeExpr catalog txId f .null e) e.operands e.Plain
      (e.value ArithmeticOp.apply (operandValue catalog txId f columns values)) := by
  match e with
  | .chain first rest =>
      have hchain := visitMultiplicativeRest_builds rest (visitUnaryExpr_builds first)
      have hvisit : visitMultiplicativeExpr catalog txId f .null (.chain first rest) =
          (visitUnaryExpr catalog txId f .null first >>= fun finalExpr =>
            visitMultiplicativeRest catalog txId f finalExpr rest) := by
        cases rest with
        | nil =>
            rw [visitMultiplicativeExpr]
            cases visitUnaryExpr catalog txId f .null first <;> rfl
        | cons op operand rest =>
            rw [visitMultiplicativeExpr]
            rfl
      rw [hvisit]
      exact hchain

theorem visitMultiplicativeRest_builds (rest : MultiplicativeRest) :
    ∀ {visit : Outcome ExprPlan} {os : List ColumnOrConstant} {plain : Prop} {v : Outcome Value},
      ComesTo catalog txId f likeMatch columns values visit os plain v →
      ComesTo catalog txId f likeMatch columns values
        (visit >>= fun finalExpr => visitMultiplicativeRest catalog txId f finalExpr rest)
        (os ++ rest.operands) (plain ∧ rest.Plain)
        (rest.value ArithmeticOp.apply (operandValue catalog txId f columns values) v) := by
  intro visit os plain v h
  match rest with
  | .nil =>
      have hbind : (visit >>= fun finalExpr => visitMultiplicativeRest catalog txId f finalExpr .nil) =
          visit := by
        cases visit <;> rfl
      simpa only [hbind, MultiplicativeRest.operands, List.append_nil, MultiplicativeRest.Plain, and_true,
        MultiplicativeRest.value] using h
  | .cons op operand rest =>
      have hstep := visitMultiplicativeRest_builds rest
        (h.arithmetic op.operator (visitUnaryExpr_builds operand))
      have hbind : (visit >>= fun finalExpr =>
          visitMultiplicativeRest catalog txId f finalExpr (.cons op operand rest)) =
          ((visit >>= fun lhs => visitUnaryExpr catalog txId f .null operand >>= fun rhs =>
            .ok (.arithmetic lhs op.operator rhs)) >>= fun finalExpr =>
              visitMultiplicativeRest catalog txId f finalExpr rest) := by
        cases visit with
        | error e => rfl
        | ok lhs =>
            simp only [visitMultiplicativeRest, Outcome.ok_bind]
            cases visitUnaryExpr catalog txId f .null operand <;> rfl
      rw [hbind]
      simpa only [MultiplicativeRest.operands, List.append_assoc, MultiplicativeRest.Plain, and_assoc,
        MultiplicativeRest.value] using hstep

theorem visitUnaryExpr_builds (e : UnaryExpr) :
    ComesTo catalog txId f likeMatch columns values (visitUnaryExpr catalog txId f .null e)
      e.operands e.Plain
      (e.value ArithmeticOp.apply (operandValue catalog txId f columns values)) := by
  match e with
  | .empty => exact builds_empty
  | .atomic e => exact visitAtomicExpr_builds e
  | .plus e => exact visitUnaryExpr_builds e
  | .minus e => exact (visitUnaryExpr_builds e).minus

theorem visitAtomicExpr_builds (e : AtomicExpr) :
    ComesTo catalog txId f likeMatch columns values (visitAtomicExpr catalog txId f .null e)
      e.operands e.Plain
      (e.value ArithmeticOp.apply (operandValue catalog txId f columns values)) := by
  match e with
  | .empty => exact builds_empty
  | .constant ctx => exact builds_constant ctx
  | .parentheses e => exact visitAdditiveExpr_builds e
  | .column ctx => exact builds_column ctx

end

end Build

/-! ## Remainders that trap -/

section Safe

variable (leaf : ColumnOrConstant → Outcome Value)

mutual

/-- No remainder that is taken traps; after an operand that has no value, nothing is
taken. -/
def AdditiveExpr.Safe : AdditiveExpr → Prop
  | .chain first rest => first.Safe ∧ rest.Safe (first.value ArithmeticOp.exact leaf)

def AdditiveRest.Safe (before : Outcome Value) : AdditiveRest → Prop
  | .nil => True
  | .cons o operand rest =>
      (∀ a, before = .ok a → operand.Safe) ∧
      (∀ a b, before = .ok a → operand.value ArithmeticOp.exact leaf = .ok b →
        ¬ o.operator.Traps a b) ∧
      rest.Safe (onOutcomes o.operator.exact before (operand.value ArithmeticOp.exact leaf))

def MultiplicativeExpr.Safe : MultiplicativeExpr → Prop
  | .chain first rest => first.Safe ∧ rest.Safe (first.value ArithmeticOp.exact leaf)

def MultiplicativeRest.Safe (before : Outcome Value) : MultiplicativeRest → Prop
  | .nil => True
  | .cons o operand rest =>
      (∀ a, before = .ok a → operand.Safe) ∧
      (∀ a b, before = .ok a → operand.value ArithmeticOp.exact leaf = .ok b →
        ¬ o.operator.Traps a b) ∧
      rest.Safe (onOutcomes o.operator.exact before (operand.value ArithmeticOp.exact leaf))

def UnaryExpr.Safe : UnaryExpr → Prop
  | .empty => True
  | .atomic e => e.Safe
  | .plus e | .minus e => e.Safe

def AtomicExpr.Safe : AtomicExpr → Prop
  | .empty | .constant _ | .column _ => True
  | .parentheses e => e.Safe

end

end Safe

/-- Where the exact results fit, the code comes to the same when it is safe, and
overflows when it is not. -/
def Tracks (code written : Outcome Value) (safe : Prop) : Prop :=
  written ≠ .error overflow → (safe → code = written) ∧ (¬ safe → code = .error overflow)

section Tracking

variable {leaf : ColumnOrConstant → Outcome Value} {code code' written written' : Outcome Value}
  {safe safe' : Prop}

theorem tracks_rfl : Tracks written written True := fun _ => ⟨fun _ => rfl, fun h => (h trivial).elim⟩

theorem Tracks.step (op : ArithmeticOp) (h : Tracks code written safe)
    (h' : Tracks code' written' safe') :
    Tracks (onOutcomes op.apply code code') (onOutcomes op.exact written written')
      (safe ∧ (∀ a, written = .ok a → safe') ∧
        ∀ a b, written = .ok a → written' = .ok b → ¬ op.Traps a b) := by
  intro hfits
  cases written with
  | error e =>
      obtain ⟨hsafe, hstray⟩ := h hfits
      refine ⟨fun ⟨hs, _⟩ => ?_, fun hno => ?_⟩
      · rw [hsafe hs]
        rfl
      · rw [hstray fun hs => hno ⟨hs, fun _ ha => (nomatch ha), fun _ _ ha => nomatch ha⟩]
        rfl
  | ok a =>
      obtain ⟨hsafe, hstray⟩ := h fun heq => nomatch heq
      by_cases hs : safe
      · rw [hsafe hs]
        cases written' with
        | error e' =>
            obtain ⟨hsafe', hstray'⟩ := h' hfits
            refine ⟨fun ⟨_, hs', _⟩ => ?_, fun hno => ?_⟩
            · rw [hsafe' (hs' a rfl)]
              rfl
            · rw [hstray' fun hs' => hno ⟨hs, fun _ _ => hs', fun _ _ _ hb => nomatch hb⟩]
              rfl
        | ok b =>
            obtain ⟨hsafe', hstray'⟩ := h' fun heq => nomatch heq
            obtain ⟨happly, htraps⟩ := ArithmeticOp.apply_exact hfits
            by_cases hs' : safe'
            · rw [hsafe' hs']
              refine ⟨fun ⟨_, _, hno⟩ => happly (hno a b rfl rfl), fun hno => htraps ?_⟩
              by_contra hsafe
              refine hno ⟨hs, fun _ _ => hs', fun a' b' ha hb => ?_⟩
              cases ha
              cases hb
              exact hsafe
            · refine ⟨fun ⟨_, hall, _⟩ => absurd (hall a rfl) hs', fun _ => ?_⟩
              rw [hstray' hs']
              rfl
      · refine ⟨fun ⟨hs', _⟩ => absurd hs' hs, fun _ => ?_⟩
        rw [hstray hs]
        rfl

theorem Tracks.congr (h : Tracks code written safe) (hs : safe ↔ safe') :
    Tracks code written safe' := fun hfits =>
  ⟨fun hsafe => (h hfits).1 (hs.mpr hsafe), fun hno => (h hfits).2 fun hsafe => hno (hs.mp hsafe)⟩

mutual

theorem AdditiveExpr.tracks (e : AdditiveExpr) :
    Tracks (e.value ArithmeticOp.apply leaf) (e.value ArithmeticOp.exact leaf) (e.Safe leaf) := by
  match e with
  | .chain first rest => exact AdditiveRest.tracks rest first.tracks

theorem AdditiveRest.tracks (rest : AdditiveRest) :
    ∀ {code written : Outcome Value} {safe : Prop}, Tracks code written safe →
      Tracks (rest.value ArithmeticOp.apply leaf code) (rest.value ArithmeticOp.exact leaf written)
        (safe ∧ rest.Safe leaf written) := by
  intro code written safe h
  match rest with
  | .nil => simpa only [AdditiveRest.value, AdditiveRest.Safe, and_true] using h
  | .cons op operand rest =>
      have hrest := AdditiveRest.tracks rest (h.step op.operator operand.tracks)
      simpa only [AdditiveRest.value, AdditiveRest.Safe, and_assoc] using hrest

theorem MultiplicativeExpr.tracks (e : MultiplicativeExpr) :
    Tracks (e.value ArithmeticOp.apply leaf) (e.value ArithmeticOp.exact leaf) (e.Safe leaf) := by
  match e with
  | .chain first rest => exact MultiplicativeRest.tracks rest first.tracks

theorem MultiplicativeRest.tracks (rest : MultiplicativeRest) :
    ∀ {code written : Outcome Value} {safe : Prop}, Tracks code written safe →
      Tracks (rest.value ArithmeticOp.apply leaf code) (rest.value ArithmeticOp.exact leaf written)
        (safe ∧ rest.Safe leaf written) := by
  intro code written safe h
  match rest with
  | .nil => simpa only [MultiplicativeRest.value, MultiplicativeRest.Safe, and_true] using h
  | .cons op operand rest =>
      have hrest := MultiplicativeRest.tracks rest (h.step op.operator operand.tracks)
      simpa only [MultiplicativeRest.value, MultiplicativeRest.Safe, and_assoc] using hrest

theorem UnaryExpr.tracks (e : UnaryExpr) :
    Tracks (e.value ArithmeticOp.apply leaf) (e.value ArithmeticOp.exact leaf) (e.Safe leaf) := by
  match e with
  | .empty => exact tracks_rfl
  | .atomic e => exact e.tracks
  | .plus e => exact e.tracks
  | .minus e =>
      have hzero : Tracks (.ok (.int 0)) (.ok (.int 0)) True := tracks_rfl
      refine (hzero.step .minus e.tracks).congr ⟨fun h => h.2.1 _ rfl, fun h => ?_⟩
      exact ⟨trivial, fun _ _ => h, fun _ _ _ _ htraps => nomatch htraps.1⟩

theorem AtomicExpr.tracks (e : AtomicExpr) :
    Tracks (e.value ArithmeticOp.apply leaf) (e.value ArithmeticOp.exact leaf) (e.Safe leaf) := by
  match e with
  | .empty => exact tracks_rfl
  | .constant ctx => exact tracks_rfl
  | .parentheses e => exact e.tracks
  | .column ctx => exact tracks_rfl

end

end Tracking

end Iic3413Db.Query
