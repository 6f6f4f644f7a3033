/-
  Mvcc/SetLists.lean --- the new version an UPDATE writes, against its SET list.

  `UpdateIter::next` evaluates each expression on the record it is changing.  What it
  hands to `Catalog::update_record` is therefore the list worked through from the left;
  it is the list made all at once, in any order, exactly when no expression sees
  another entry.
-/
import Iic3413Db.Mvcc.UpdateIter
import Iic3413Db.Query.Executor.SetLists
import Iic3413Db.Query.Optimizer.UpdateColumns

set_option autoImplicit false

/-! ## The columns a written expression reads -/

namespace Iic3413Db.Query

open Iic3413Db.RelationalModel
open QueryIter (valueAt)

instance (v : Value) : Decidable v.Fits :=
  match v with
  | .string s => inferInstanceAs (Decidable (s.length ≤ 255))
  | .int i => inferInstanceAs (Decidable (-2 ^ 63 ≤ i ∧ i < 2 ^ 63))
  | .rid r => inferInstanceAs (Decidable ((-2 ^ 31 ≤ r.pageNum ∧ r.pageNum < 2 ^ 31) ∧
      (-2 ^ 31 ≤ r.dirSlot ∧ r.dirSlot < 2 ^ 31)))

section Reads

variable {likeMatch : List UInt8 → List UInt8 → Bool} {columns : List Column} {i : Nat}

theorem lowerColumn_ignores {col : Column} {e : Expr} (h : lowerColumn columns col = .ok e)
    (hcol : findColumn columns col ≠ some i) : Ignores e i := by
  unfold lowerColumn at h
  cases hj : findColumn columns col with
  | none => simp [hj] at h
  | some j =>
      simp only [hj, Except.ok.injEq] at h
      subst h
      have hne : i ≠ j := fun heq => hcol (by rw [hj, heq])
      intro r v
      dsimp only
      rw [valueAt, valueAt, List.getElem?_set_ne hne]

theorem compareWith_ignores {test : Value → Value → Bool} {lhs rhs : Expr} (hl : Ignores lhs i)
    (hr : Ignores rhs i) : Ignores (compareWith test lhs rhs) i := by
  intro r v
  rw [compareWith, compareWith, hl, hr]

theorem arithmetic_ignores {op : ArithmeticOp} {lhs rhs : Expr} (hl : Ignores lhs i)
    (hr : Ignores rhs i) : Ignores (arithmetic op lhs rhs) i := by
  intro r v
  rw [arithmetic, arithmetic, hl, hr]

/-- An expression reads the columns that stand in it. -/
theorem lowerExpr_ignores {plan : ExprPlan} {e : Expr} (h : lowerExpr likeMatch columns plan = .ok e)
    (hcols : ∀ col ∈ plan.mentions, findColumn columns col ≠ some i) : Ignores e i := by
  induction plan generalizing e with
  | null => cases h
  | column col => exact lowerColumn_ignores h (hcols col List.mem_cons_self)
  | term value =>
      cases h
      exact fun _ _ => rfl
  | between col lowerBound upperBound =>
      obtain ⟨child, hchild, h⟩ := Outcome.of_bind_ok h
      cases h
      have hignores := lowerColumn_ignores hchild (hcols col List.mem_cons_self)
      intro r v
      rw [between, between, hignores]
  | like col pattern =>
      obtain ⟨child, hchild, h⟩ := Outcome.of_bind_ok h
      cases h
      have hignores := lowerColumn_ignores hchild (hcols col List.mem_cons_self)
      intro r v
      rw [like, like, hignores]
  | equals lhs rhs ihl ihr | notEquals lhs rhs ihl ihr | less lhs rhs ihl ihr
  | lessOrEquals lhs rhs ihl ihr =>
      obtain ⟨l, hl, h⟩ := Outcome.of_bind_ok h
      obtain ⟨r, hr, h⟩ := Outcome.of_bind_ok h
      cases h
      exact compareWith_ignores (ihl hl fun col hcol => hcols col (List.mem_append_left _ hcol))
        (ihr hr fun col hcol => hcols col (List.mem_append_right _ hcol))
  | arithmetic lhs op rhs ihl ihr =>
      obtain ⟨l, hl, h⟩ := Outcome.of_bind_ok h
      obtain ⟨r, hr, h⟩ := Outcome.of_bind_ok h
      cases h
      exact arithmetic_ignores (ihl hl fun col hcol => hcols col (List.mem_append_left _ hcol))
        (ihr hr fun col hcol => hcols col (List.mem_append_right _ hcol))

end Reads

end Iic3413Db.Query

/-! ## The statement -/

namespace Iic3413Db.Mvcc

open Iic3413Db.Foundation Iic3413Db.RelationalModel Iic3413Db.Storage Iic3413Db.System
  Iic3413Db.Query
open Procedure (ofExcept ofLoop)

end Iic3413Db.Mvcc
