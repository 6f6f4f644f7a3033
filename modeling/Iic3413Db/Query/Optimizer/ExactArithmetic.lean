/-
  Query/Optimizer/ExactArithmetic.lean --- `ExprArithmetic::eval` against the arithmetic
  of the integers.

  `exactValue` has the same operators without a bound on their results.  The code comes
  to it at every node as long as no result, and no quotient of a remainder, leaves the
  64 bits.
-/
import Iic3413Db.Query.Optimizer.WrittenArithmetic

set_option autoImplicit false

namespace Iic3413Db.Query

open Iic3413Db.RelationalModel
open QueryIter (valueAt)

/-! ## Expressions -/

/-- `ExprColumn`, `ExprTerm` and `ExprArithmetic`. -/
inductive ArithmeticExpr where
  | column (index : Nat)
  | term (value : Value)
  | arithmetic (lhs : ArithmeticExpr) (op : ArithmeticOp) (rhs : ArithmeticExpr)
  deriving DecidableEq, Repr

/-- The integer has a place in an `int64_t`. -/
def InInt64 (i : Int) : Prop := -2 ^ 63 ≤ i ∧ i < 2 ^ 63

namespace ArithmeticOp

/-- The operator on integers of any size. -/
def unbounded (op : ArithmeticOp) : Value → Value → Outcome Value
  | .int i, .int j =>
      if op.divides = true ∧ j = 0 then .error op.byZero else .ok (.int (op.onIntegers i j))
  | _, _ => .error op.incompatible

/-- The integer that the machine computes: a remainder comes with its quotient. -/
def computed : ArithmeticOp → Int → Int → Int
  | .modulo, i, j => i.tdiv j
  | op, i, j => op.onIntegers i j

/-- It fits in 64 bits, where the operator is defined. -/
def Stays (op : ArithmeticOp) (a b : Value) : Prop :=
  ∀ i j, a = .int i → b = .int j → ¬ (op.divides = true ∧ j = 0) → InInt64 (op.computed i j)

end ArithmeticOp

namespace ArithmeticExpr

/-- `eval`. -/
def eval : ArithmeticExpr → Expr
  | .column index => fun r => valueAt r.values index
  | .term value => fun _ => .ok value
  | .arithmetic lhs op rhs => Query.arithmetic op lhs.eval rhs.eval

/-- The value with integers of any size. -/
def exactValue (r : Record) : ArithmeticExpr → Outcome Value
  | .column index => valueAt r.values index
  | .term value => .ok value
  | .arithmetic lhs op rhs => onOutcomes op.unbounded (lhs.exactValue r) (rhs.exactValue r)

/-- The expression and all those in it. -/
def nodes : ArithmeticExpr → List ArithmeticExpr
  | .column index => [.column index]
  | .term value => [.term value]
  | .arithmetic lhs op rhs => .arithmetic lhs op rhs :: (lhs.nodes ++ rhs.nodes)

/-- Its columns are in a record of that length. -/
def Inside (n : Nat) : ArithmeticExpr → Prop
  | .column index => index < n
  | .term _ => True
  | .arithmetic lhs _ rhs => lhs.Inside n ∧ rhs.Inside n

/-- Every node has its exact value, or the expression is refused. -/
def ExactOrRejected (e : ArithmeticExpr) (r : Record) : Prop :=
  (∀ s ∈ e.nodes, ∃ v, s.eval r = .ok v ∧ s.exactValue r = .ok v) ∨
    ∃ msg, e.eval r = .error (.queryException msg)

/-- No operator that is reached leaves the 64 bits. -/
def NoOverflow (r : Record) : ArithmeticExpr → Prop
  | .column _ | .term _ => True
  | .arithmetic lhs op rhs => lhs.NoOverflow r ∧ ∀ a, lhs.exactValue r = .ok a →
      rhs.NoOverflow r ∧ ∀ b, rhs.exactValue r = .ok b → op.Stays a b

end ArithmeticExpr

/-! ## Operators -/

section Operators

variable {op : ArithmeticOp} {a b : Value}

theorem unbounded_error {e : Fault} (h : op.unbounded a b = .error e) :
    ∃ msg, e = .queryException msg := by
  have hbyZero : ∃ msg, op.byZero = .queryException msg := by
    cases op <;> exact ⟨_, rfl⟩
  have hincompatible : ∃ msg, op.incompatible = .queryException msg := by
    cases op <;> exact ⟨_, rfl⟩
  unfold ArithmeticOp.unbounded at h
  split at h
  · split at h
    · cases h
      exact hbyZero
    · cases h
  · cases h
    exact hincompatible

/-- One operator. -/
theorem apply_unbounded :
    (op.Stays a b → op.apply a b = op.unbounded a b) ∧
      (¬ op.Stays a b → op.apply a b = .error overflow) := by
  have hints : (∃ i j, a = .int i ∧ b = .int j) ∨ ∀ i j, ¬ (a = .int i ∧ b = .int j) := by
    cases a <;> cases b <;> simp
  rcases hints with ⟨i, j, rfl, rfl⟩ | hother
  · have hstays : op.Stays (.int i) (.int j) ↔
        (¬ (op.divides = true ∧ j = 0) → InInt64 (op.computed i j)) := by
      constructor
      · exact fun h => h i j rfl rfl
      · intro h i' j' hi hj
        cases hi
        cases hj
        exact h
    rw [hstays]
    have hplain : op.divides = false → op.apply (.int i) (.int j) = intResult (op.computed i j) ∧
        op.unbounded (.int i) (.int j) = .ok (.int (op.computed i j)) := by
      intro hdivides
      cases op with
      | plus | minus | times => exact ⟨rfl, rfl⟩
      | divide | modulo => cases hdivides
    cases op with
    | plus | minus | times =>
        obtain ⟨happly, hexact⟩ := hplain rfl
        rw [happly, hexact]
        rcases ArithmeticOp.intResult_cases (ArithmeticOp.computed _ i j) with
          ⟨hfits, hresult⟩ | ⟨hout, hresult⟩
        · exact ⟨fun _ => hresult, fun h => absurd (fun _ => hfits) h⟩
        · exact ⟨fun h => absurd (h fun hdivides => nomatch hdivides.1) hout, fun _ => hresult⟩
    | divide =>
        by_cases hj : j = 0
        · refine ⟨fun _ => ?_, fun h => absurd (fun hno => absurd ⟨rfl, hj⟩ hno) h⟩
          simp [ArithmeticOp.apply, ArithmeticOp.unbounded, ArithmeticOp.divides,
            ArithmeticOp.byZero, hj]
        · have happly : ArithmeticOp.apply .divide (.int i) (.int j) = intResult (i.tdiv j) := by
            simp only [ArithmeticOp.apply, hj, if_false]
          have hexact : ArithmeticOp.unbounded .divide (.int i) (.int j) = .ok (.int (i.tdiv j)) := by
            simp only [ArithmeticOp.unbounded, hj, and_false, if_false, ArithmeticOp.onIntegers]
          rw [happly, hexact]
          rcases ArithmeticOp.intResult_cases (i.tdiv j) with ⟨hfits, hresult⟩ | ⟨hout, hresult⟩
          · exact ⟨fun _ => hresult, fun h => absurd (fun _ => hfits) h⟩
          · exact ⟨fun h => absurd (h fun hno => hj hno.2) hout, fun _ => hresult⟩
    | modulo =>
        by_cases hj : j = 0
        · refine ⟨fun _ => ?_, fun h => absurd (fun hno => absurd ⟨rfl, hj⟩ hno) h⟩
          simp [ArithmeticOp.apply, ArithmeticOp.unbounded, ArithmeticOp.divides,
            ArithmeticOp.byZero, hj]
        · have hexact : ArithmeticOp.unbounded .modulo (.int i) (.int j) = .ok (.int (i.tmod j)) := by
            simp only [ArithmeticOp.unbounded, hj, and_false, if_false, ArithmeticOp.onIntegers]
          rw [hexact]
          -- the machine computes the quotient with the remainder
          rcases ArithmeticOp.intResult_cases (i.tdiv j) with ⟨hfits, hresult⟩ | ⟨hout, hresult⟩
          · refine ⟨fun _ => ?_, fun h => absurd (fun _ => hfits) h⟩
            simp only [ArithmeticOp.apply, hj, if_false, hresult, Outcome.ok_bind]
          · refine ⟨fun h => absurd (h fun hno => hj hno.2) hout, fun _ => ?_⟩
            simp only [ArithmeticOp.apply, hj, if_false, hresult, Outcome.error_bind]
  · refine ⟨fun _ => ?_, fun h => absurd (fun i j hi hj => absurd ⟨hi, hj⟩ (hother i j)) h⟩
    cases a <;> cases b <;> cases op <;> first | rfl | exact absurd ⟨rfl, rfl⟩ (hother _ _)

end Operators

/-! ## Expressions over a record -/

section Expressions

variable {e : ArithmeticExpr} {r : Record}

theorem exactValue_error (hinside : e.Inside r.values.length) {fault : Fault}
    (h : e.exactValue r = .error fault) : ∃ msg, fault = .queryException msg := by
  induction e generalizing fault with
  | column index =>
      have hlt : index < r.values.length := hinside
      rw [ArithmeticExpr.exactValue, valueAt, List.getElem?_eq_getElem hlt] at h
      cases h
  | term value => cases h
  | arithmetic lhs op rhs ihl ihr =>
      rcases Outcome.of_bind_error h with h | ⟨a, _, h⟩
      · exact ihl hinside.1 h
      · rcases Outcome.of_bind_error h with h | ⟨b, _, h⟩
        · exact ihr hinside.2 h
        · exact unbounded_error h

/-- The code comes to the exact value, or overflows. -/
theorem eval_exact :
    (e.NoOverflow r → e.eval r = e.exactValue r) ∧
      (¬ e.NoOverflow r → e.eval r = .error overflow) := by
  induction e with
  | column index => exact ⟨fun _ => rfl, fun h => absurd trivial h⟩
  | term value => exact ⟨fun _ => rfl, fun h => absurd trivial h⟩
  | arithmetic lhs op rhs ihl ihr =>
      have heval : (ArithmeticExpr.arithmetic lhs op rhs).eval r =
          onOutcomes op.apply (lhs.eval r) (rhs.eval r) := rfl
      rw [heval, ArithmeticExpr.exactValue, ArithmeticExpr.NoOverflow]
      by_cases hl : lhs.NoOverflow r
      · rw [ihl.1 hl]
        cases ha : lhs.exactValue r with
        | error fault =>
            refine ⟨fun _ => rfl, fun h => absurd ⟨hl, fun a ha => ?_⟩ h⟩
            cases ha
        | ok a =>
            by_cases hr : rhs.NoOverflow r
            · rw [ihr.1 hr]
              cases hb : rhs.exactValue r with
              | error fault =>
                  refine ⟨fun _ => rfl, fun h => absurd ⟨hl, fun a _ => ⟨hr, fun b hb => ?_⟩⟩ h⟩
                  cases hb
              | ok b =>
                  obtain ⟨hstays, hleaves⟩ := @apply_unbounded op a b
                  refine ⟨fun h => hstays ((h.2 a rfl).2 b rfl), fun h => hleaves fun hop => h ?_⟩
                  refine ⟨hl, fun a' ha' => ⟨hr, fun b' hb' => ?_⟩⟩
                  cases ha'
                  cases hb'
                  exact hop
            · rw [ihr.2 hr]
              exact ⟨fun h => absurd (h.2 a rfl).1 hr, fun _ => rfl⟩
      · rw [ihl.2 hl]
        exact ⟨fun h => absurd h.1 hl, fun _ => rfl⟩

/-- Where an expression has a value, so have all those in it. -/
theorem nodes_exact {v : Value} (h : e.NoOverflow r) (hv : e.exactValue r = .ok v) :
    ∀ s ∈ e.nodes, ∃ v, s.eval r = .ok v ∧ s.exactValue r = .ok v := by
  induction e generalizing v with
  | column index | term value =>
      refine List.forall_mem_singleton.mpr ⟨v, ?_, hv⟩
      rw [eval_exact.1 h, hv]
  | arithmetic lhs op rhs ihl ihr =>
      obtain ⟨a, ha, hrest⟩ := Outcome.of_bind_ok hv
      obtain ⟨b, hb, _⟩ := Outcome.of_bind_ok hrest
      refine List.forall_mem_cons.mpr ⟨⟨v, (eval_exact.1 h).trans hv, hv⟩, fun s hs => ?_⟩
      rcases List.mem_append.mp hs with hs | hs
      · exact ihl h.1 ha s hs
      · exact ihr (h.2 a ha).1 hb s hs

/-- When arithmetic is exact or refused. -/
theorem exactOrRejected_iff (hinside : e.Inside r.values.length) :
    e.ExactOrRejected r ↔ e.NoOverflow r := by
  constructor
  · intro h
    by_contra hover
    have hfault := eval_exact.2 hover
    rcases h with hnodes | ⟨msg, hmsg⟩
    · have hself : e ∈ e.nodes := by
        cases e <;> exact List.mem_cons_self
      obtain ⟨v, hv, _⟩ := hnodes e hself
      cases hfault.symm.trans hv
    · cases hfault.symm.trans hmsg
  · intro h
    cases hv : e.exactValue r with
    | ok v => exact .inl (nodes_exact h hv)
    | error fault =>
        obtain ⟨msg, rfl⟩ := exactValue_error hinside hv
        exact .inr ⟨msg, (eval_exact.1 h).trans hv⟩

/-- `a - 1` of a record with a 5. -/
theorem exactOrRejected_iff_five :
    ArithmeticExpr.ExactOrRejected (.arithmetic (.column 0) .minus (.term (.int 1))) ⟨[.int 5]⟩ := by
  have hinside : ArithmeticExpr.Inside 1 (.arithmetic (.column 0) .minus (.term (.int 1))) :=
    ⟨Nat.zero_lt_one, trivial⟩
  refine (@exactOrRejected_iff _ ⟨[.int 5]⟩ hinside).mpr
    ⟨trivial, fun a ha => ⟨trivial, fun b hb i j hi hj _ => ?_⟩⟩
  cases ha
  cases hb
  cases hi
  cases hj
  exact ⟨by decide, by decide⟩

/-- `a / -1` of a record with the least integer has no quotient, and is not refused. -/
theorem least_divided_overflows :
    ¬ ArithmeticExpr.ExactOrRejected (.arithmetic (.column 0) .divide (.term (.int (-1))))
      ⟨[.int (-2 ^ 63)]⟩ := by
  have heval : ArithmeticExpr.eval (.arithmetic (.column 0) .divide (.term (.int (-1))))
      ⟨[.int (-2 ^ 63)]⟩ = .error overflow := by decide
  rintro (hnodes | ⟨msg, hmsg⟩)
  · obtain ⟨v, hv, _⟩ := hnodes _ List.mem_cons_self
    cases heval.symm.trans hv
  · cases heval.symm.trans hmsg

end Expressions

/-! ## Lowered expressions -/

/-- The plan has columns, constants and operators only. -/
def ExprPlan.Arithmetic : ExprPlan → Prop
  | .column _ | .term _ => True
  | .arithmetic lhs _ rhs => lhs.Arithmetic ∧ rhs.Arithmetic
  | _ => False

/-- Such a plan is lowered to such an expression, over the columns that are there. -/
theorem lowerExpr_arithmetic {likeMatch : List UInt8 → List UInt8 → Bool} {columns : List Column}
    {plan : ExprPlan} {expr : Expr} (hplan : plan.Arithmetic)
    (h : lowerExpr likeMatch columns plan = .ok expr) :
    ∃ e : ArithmeticExpr, e.eval = expr ∧ e.Inside columns.length := by
  induction plan generalizing expr with
  | column col =>
      rw [lowerExpr, lowerColumn] at h
      split at h
      · cases h
      · rename_i i hi
        cases h
        obtain ⟨hlt, _⟩ := List.findIdx?_eq_some_iff_getElem.mp hi
        exact ⟨.column i, rfl, hlt⟩
  | term value =>
      cases h
      exact ⟨.term value, rfl, trivial⟩
  | arithmetic lhs op rhs ihl ihr =>
      obtain ⟨l, hl, h⟩ := Outcome.of_bind_ok h
      obtain ⟨r, hr, h⟩ := Outcome.of_bind_ok h
      cases h
      obtain ⟨le, rfl, hle⟩ := ihl hplan.1 hl
      obtain ⟨re, rfl, hre⟩ := ihr hplan.2 hr
      exact ⟨.arithmetic le op re, rfl, hle, hre⟩
  | null | equals | notEquals | less | lessOrEquals | between | like => exact hplan.elim

end Iic3413Db.Query
