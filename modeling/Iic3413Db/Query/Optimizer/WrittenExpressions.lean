/-
  Query/Optimizer/WrittenExpressions.lean --- when the expressions of a statement come
  to what is written.
-/
import Iic3413Db.Query.Optimizer.WrittenConjuncts

set_option autoImplicit false

namespace Iic3413Db.Query

open Iic3413Db.RelationalModel
open Iic3413Db.System (Catalog TableInfo)
open Iic3413Db.Storage (TxID)
open QueryIter (valueAt)

/-! ## Both clauses -/

section Clauses

variable (catalog : Catalog) (txId : TxID) (f : FromClause)
  (likeMatch : List UInt8 → List UInt8 → Bool) (columns : List Column) (values : List Value)

/-- The expression of an assignment is refused with an exception, or comes to what is
written in the record, as far as the exact results fit in 64 bits. -/
def SetMeans (e : AdditiveExpr) : Prop :=
  match visitAdditiveExpr catalog txId f .null e with
  | .error fault => fault.isIIC3413DBException = true
  | .ok plan => plan.Complete ∧ ∃ expr, lowerExpr likeMatch columns plan = .ok expr ∧
      (e.value ArithmeticOp.exact (operandValue catalog txId f columns values) ≠ .error overflow →
        expr ⟨values⟩ = e.value ArithmeticOp.exact (operandValue catalog txId f columns values))

/-- The conjuncts of WHERE are refused with an exception, or each comes to what is
written. -/
def WhereMeans (conjuncts : List SimpleExpr) : Prop :=
  match conjuncts.mapM (visitSimpleExpr catalog txId f) with
  | .error fault => fault.isIIC3413DBException = true
  | .ok plans => (∀ plan ∈ plans, plan.Complete) ∧
      ∃ exprs, plans.mapM (lowerExpr likeMatch columns) = .ok exprs ∧
        exprs.map (fun expr => expr ⟨values⟩) =
          conjuncts.map (SimpleExpr.value catalog txId f likeMatch columns values)

end Clauses

section Main

variable {catalog : Catalog} {txId : TxID} {f : FromClause}
  {likeMatch : List UInt8 → List UInt8 → Bool} {columns : List Column} {values : List Value}

/-- When the expressions mean what is written. -/
theorem written_iff (hknown : f.Known catalog txId) (haligned : values.length = columns.length) :
    (∀ e : AdditiveExpr, SetMeans catalog txId f likeMatch columns values e ↔
      (∃ o ∈ e.operands, Rejected catalog txId f o) ∨
      e.Plain ∧ (∀ o ∈ e.operands, Present catalog txId f columns o) ∧
        (e.value ArithmeticOp.exact (operandValue catalog txId f columns values) ≠
          .error overflow → e.Safe (operandValue catalog txId f columns values))) ∧
    (∀ conjuncts : List SimpleExpr,
      WhereMeans catalog txId f likeMatch columns values conjuncts ↔
      (∃ before s after, conjuncts = before ++ s :: after ∧ RejectedConjunct catalog txId f s ∧
        ∀ b ∈ before, b.HasOperator) ∨
      ∀ s ∈ conjuncts, s.HasOperator ∧ ∀ o ∈ s.operands, Present catalog txId f columns o) := by
  refine ⟨fun e => ?_, fun conjuncts => ?_⟩
  · unfold SetMeans
    obtain ⟨fault, hvisit, o, ho, hrejected⟩ | ⟨plan, hvisit, haccepted, hcomplete, hlowers, hvalue⟩ :=
      @visitAdditiveExpr_builds catalog txId f likeMatch columns values e
    · rw [hvisit]
      exact iff_of_true (rejectedWith_throws hknown hrejected) (.inl ⟨o, ho, fault, hrejected⟩)
    · rw [hvisit]
      have hnone : ¬ ∃ o ∈ e.operands, Rejected catalog txId f o := fun ⟨o, ho, hrejected⟩ =>
        haccepted o ho hrejected
      have htracks := @AdditiveExpr.tracks (operandValue catalog txId f columns values) e
      refine Iff.trans ?_ (or_iff_right hnone).symm
      constructor
      · rintro ⟨hplan, expr, hexpr, heq⟩
        have hplain := hcomplete.mp hplan
        refine ⟨hplain, (hlowers hplain).mp ⟨expr, hexpr⟩, fun hfits => ?_⟩
        by_contra hstray
        have hcode := (hvalue expr hplain hexpr).trans ((htracks hfits).2 hstray)
        exact hfits ((heq hfits).symm.trans hcode)
      · rintro ⟨hplain, hpresent, hsafe⟩
        obtain ⟨expr, hexpr⟩ := (hlowers hplain).mpr hpresent
        exact ⟨hcomplete.mpr hplain, expr, hexpr, fun hfits =>
          (hvalue expr hplain hexpr).trans ((htracks hfits).1 (hsafe hfits))⟩
  · have hthrows := @visitConjuncts_throws catalog txId f hknown conjuncts
    have hfirst : (∃ s ∈ conjuncts, RejectedConjunct catalog txId f s) →
        (∀ s ∈ conjuncts, s.HasOperator) →
          ∃ before s after, conjuncts = before ++ s :: after ∧
            RejectedConjunct catalog txId f s ∧ ∀ b ∈ before, b.HasOperator := by
      rintro ⟨s, hs, hrejected⟩ hoperators
      obtain ⟨before, after, rfl⟩ := List.append_of_mem hs
      exact ⟨before, s, after, rfl, hrejected, fun b hb =>
        hoperators b (List.mem_append_left _ hb)⟩
    unfold WhereMeans
    rw [← hthrows] at hfirst ⊢
    cases hvisit : conjuncts.mapM (visitSimpleExpr catalog txId f) with
    | error fault =>
        rw [hvisit] at hfirst
        have hfault : (∃ e, (.error fault : Outcome (List ExprPlan)) = .error e ∧
            e.isIIC3413DBException = true) ↔ fault.isIIC3413DBException = true :=
          ⟨fun ⟨e, heq, he⟩ => Except.error.inj heq ▸ he, fun h => ⟨fault, rfl, h⟩⟩
        rw [hfault] at hfirst ⊢
        refine ⟨.inl, fun h => h.elim id fun hall => ?_⟩
        by_cases hrejected : ∃ s ∈ conjuncts, RejectedConjunct catalog txId f s
        · exact hfirst hrejected fun s hs => (hall s hs).1
        · obtain ⟨plans, hok, _⟩ := @visitConjuncts_ok _ _ _ likeMatch columns values haligned
            conjuncts fun s hs => ⟨(hall s hs).1, fun h => hrejected ⟨s, hs, h⟩⟩
          cases hvisit.symm.trans hok
    | ok plans =>
        have haccepted : ∀ s ∈ conjuncts, s.HasOperator ∧ ¬ RejectedConjunct catalog txId f s := by
          intro s hs
          obtain ⟨plan, hplan⟩ := Outcome.mapM_ok_iff.mp ⟨plans, hvisit⟩ s hs
          exact accepted_of_visit hknown hplan
        obtain ⟨plans', hvisit', hcomplete, hlower, hvalue⟩ :=
          @visitConjuncts_ok _ _ _ likeMatch columns values haligned conjuncts haccepted
        obtain rfl := Except.ok.inj (hvisit.symm.trans hvisit')
        refine Iff.trans ?_ (or_iff_right fun ⟨e, heq, _⟩ => nomatch heq).symm
        constructor
        · rintro ⟨_, exprs, hexprs, _⟩ s hs
          exact ⟨(haccepted s hs).1, hlower.mp ⟨exprs, hexprs⟩ s hs⟩
        · intro hall
          obtain ⟨exprs, hexprs⟩ := hlower.mpr fun s hs => (hall s hs).2
          exact ⟨hcomplete, exprs, hexprs, hvalue exprs hexprs⟩

end Main

/-! ## An assignment -/

/-- `CREATE TABLE t (a INT)`. -/
def intColumnTable : TableInfo where
  name := [116]
  columns := [⟨[97], .int, 0⟩, ⟨Catalog.ridName, .rid, 0⟩]
  tableId := 0
  cardinality := 0

/-- A catalog with it. -/
def oneTable : Catalog where
  tableIdCounter := 1
  transactionCount := 1
  inProcessTables := fun _ => []
  tables := Foundation.KeyedMap.empty.insert intColumnTable

/-- The table by its own name. -/
def fromIntColumn : FromClause :=
  { FromClause.empty with tables := FromClause.empty.tables.insert ⟨[116], [116]⟩ }

/-- The columns of its records. -/
def intColumns : List Column := intColumnTable.columns.map (Column.mk [116] [116])

/-- `a - 1 - 1`. -/
def twoLess : AdditiveExpr :=
  .chain (.chain (.atomic (.column ⟨none, [97]⟩)) .nil)
    (.cons .minus (.chain (.atomic (.constant (.integer ⟨false, [49]⟩))) .nil)
      (.cons .minus (.chain (.atomic (.constant (.integer ⟨false, [49]⟩))) .nil) .nil))

/-- `-a`. -/
def negated : AdditiveExpr := .chain (.chain (.minus (.atomic (.column ⟨none, [97]⟩))) .nil) .nil

theorem written_iff_twoLess : ∃ plan expr,
    visitAdditiveExpr oneTable 1 fromIntColumn .null twoLess = .ok plan ∧
    lowerExpr (fun _ _ => true) intColumns plan = .ok expr ∧
    expr ⟨[.int 5, .rid ⟨0, 0⟩]⟩ = .ok (.int 3) := by
  have hknown : fromIntColumn.Known oneTable 1 := by
    refine ⟨fun t ht => ?_, fun j hj => nomatch hj⟩
    obtain rfl := List.mem_singleton.mp ht
    exact ⟨intColumnTable, rfl⟩
  have hpresent : ∀ o ∈ twoLess.operands, Present oneTable 1 fromIntColumn intColumns o := by
    refine List.forall_mem_cons.mpr ⟨fun col hcol => ?_, List.forall_mem_cons.mpr
      ⟨trivial, List.forall_mem_cons.mpr ⟨trivial, fun o ho => nomatch ho⟩⟩⟩
    cases hcol
    rfl
  have hsafe : twoLess.Safe
      (operandValue oneTable 1 fromIntColumn intColumns [.int 5, .rid ⟨0, 0⟩]) := by
    refine ⟨⟨trivial, trivial⟩, fun _ _ => ⟨trivial, trivial⟩, ?_, fun _ _ => ⟨trivial, trivial⟩,
      ?_, trivial⟩ <;> exact fun a b _ _ htraps => nomatch htraps.1
  have hvisit : visitAdditiveExpr oneTable 1 fromIntColumn .null twoLess =
      .ok (.arithmetic (.arithmetic (.column ⟨[116], [116], ⟨[97], .int, 0⟩⟩) .minus
        (.term (.int 1))) .minus (.term (.int 1))) := by decide
  have hmeans := ((@written_iff oneTable 1 fromIntColumn (fun _ _ => true) intColumns
    [.int 5, .rid ⟨0, 0⟩] hknown rfl).1 twoLess).mpr (.inr ⟨⟨⟨trivial, trivial⟩,
      ⟨trivial, trivial⟩, ⟨trivial, trivial⟩, trivial⟩, hpresent, fun _ => hsafe⟩)
  have hvalue : twoLess.value ArithmeticOp.exact
      (operandValue oneTable 1 fromIntColumn intColumns [.int 5, .rid ⟨0, 0⟩]) = .ok (.int 3) := by
    decide
  rw [SetMeans, hvisit, hvalue] at hmeans
  obtain ⟨_, expr, hexpr, heq⟩ := hmeans
  have hfits : (.ok (.int 3) : Outcome Value) ≠ .error overflow := by
    intro h
    cases h
  exact ⟨_, expr, hvisit, hexpr, heq hfits⟩

/-- `UPDATE t SET a = -a` builds a subtraction without its left operand, and the optimizer
visits that. -/
theorem negated_faults :
    visitAdditiveExpr oneTable 1 fromIntColumn .null negated =
        .ok (.arithmetic .null .minus (.column ⟨[116], [116], ⟨[97], .int, 0⟩⟩)) ∧
      lowerExpr (fun _ _ => true) intColumns
        (.arithmetic .null .minus (.column ⟨[116], [116], ⟨[97], .int, 0⟩⟩)) =
          .error (.undefinedBehaviour "accept_visitor") ∧
      ¬ SetMeans oneTable 1 fromIntColumn (fun _ _ => true) intColumns [.int 5, .rid ⟨0, 0⟩]
        negated :=
  ⟨rfl, rfl, fun hmeans => hmeans.1.1⟩

end Iic3413Db.Query
