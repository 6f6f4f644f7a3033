/-
  Query/Optimizer/WrittenConjuncts.lean --- the conjuncts of WHERE, from the parse tree
  to the value of a record.

  A conjunct is accepted when its operands are, and are of one datatype; a
  comparison without its operator has no second operand to visit.
-/
import Iic3413Db.Query.Optimizer.WrittenArithmetic

set_option autoImplicit false

namespace Iic3413Db.Query

open Iic3413Db.RelationalModel
open Iic3413Db.System (Catalog TableInfo)
open Iic3413Db.Storage (TxID)
open QueryIter (valueAt)

/-! ## What a conjunct of WHERE means -/

/-- Less or equal, in the order of `Value::operator<`. -/
def lessOrEqual (a b : Value) : Bool := a.less b || decide (a = b)

/-- What a comparison says. -/
def ComparisonOp.holds : ComparisonOp → Value → Value → Bool
  | .equals, a, b => decide (a = b)
  | .notEquals, a, b => decide (a ≠ b)
  | .less, a, b => a.less b
  | .greater, a, b => b.less a
  | .lessOrEquals, a, b => lessOrEqual a b
  | .greaterOrEquals, a, b => lessOrEqual b a

theorem less_total (a b : Value) : (!b.less a) = lessOrEqual a b := by
  have hrid : ∀ r s : RID, (!Value.ridLess s r) = (Value.ridLess r s || decide (r = s)) := by
    intro r s
    obtain ⟨p, d⟩ := r
    obtain ⟨p', d'⟩ := s
    unfold Value.ridLess
    rw [← decide_not, ← Bool.decide_or, decide_eq_decide, RID.mk.injEq]
    dsimp only
    omega
  unfold lessOrEqual
  cases a with
  | int i =>
      cases b with
      | int j =>
          simp only [Value.less, Value.int.injEq]
          rw [← decide_not, ← Bool.decide_or, decide_eq_decide]
          omega
      | string s => simp [Value.less]
      | rid r => simp [Value.less]
  | string s =>
      cases b with
      | int j => simp [Value.less]
      | string t =>
          simp only [Value.less, Value.string.injEq]
          rw [← decide_not, ← Bool.decide_or, decide_eq_decide, List.not_lt]
          exact List.le_iff_lt_or_eq
      | rid r => simp [Value.less]
  | rid r =>
      cases b with
      | int j => simp [Value.less]
      | string s => simp [Value.less]
      | rid s =>
          simp only [Value.less, Value.rid.injEq]
          exact hrid r s

namespace SimpleExpr

/-- The columns and the constants of the conjunct. -/
def operands : SimpleExpr → List ColumnOrConstant
  | .comparison lhs none => [lhs]
  | .comparison lhs (some (_, rhs)) => [lhs, rhs]
  | .like ctx _ => [.column ctx]
  | .between ctx lower upper => [.column ctx, .constant lower, .constant upper]

/-- The conjunct is not a comparison without its operator. -/
def HasOperator : SimpleExpr → Prop
  | .comparison _ none => False
  | _ => True

/-- The conjunct compares with LIKE. -/
def IsLike : SimpleExpr → Prop
  | .like _ _ => True
  | _ => False

end SimpleExpr

section Conjuncts

variable (catalog : Catalog) (txId : TxID) (f : FromClause)
  (likeMatch : List UInt8 → List UInt8 → Bool) (columns : List Column) (values : List Value)

/-- The datatype of an operand. -/
def operandType : ColumnOrConstant → Outcome DataType
  | .column ctx => do
      let col ← getColumn catalog txId f ctx
      .ok col.info.datatype
  | .constant ctx => do
      let value ← getValue ctx
      .ok (if value.isString then .str else .int)

/-- The preprocessor refuses the conjunct: an operand is rejected, or two are of different
datatypes, or LIKE is not about a string. -/
def RejectedConjunct (s : SimpleExpr) : Prop :=
  (∃ o ∈ s.operands, Rejected catalog txId f o) ∨
  (∃ o ∈ s.operands, ∃ o' ∈ s.operands, ∃ d d', operandType catalog txId f o = .ok d ∧
    operandType catalog txId f o' = .ok d' ∧ d ≠ d') ∨
  s.IsLike ∧ ∃ o ∈ s.operands, ∃ d, operandType catalog txId f o = .ok d ∧ d ≠ .str

/-- The value of the conjunct: one when what it says holds, zero when not. -/
def SimpleExpr.value : SimpleExpr → Outcome Value
  | .comparison _ none => .error (.undefinedBehaviour "no operand")
  | .comparison lhs (some (op, rhs)) =>
      onOutcomes (fun a b => .ok (truth (op.holds a b)))
        (operandValue catalog txId f columns values lhs)
        (operandValue catalog txId f columns values rhs)
  | .like ctx pattern => do
      match ← operandValue catalog txId f columns values (.column ctx) with
      | .string string => .ok (truth (likeMatch string (unescapeString pattern)))
      | .int _ | .rid _ => .error (.assertFailed "is_string()")
  | .between ctx lower upper => do
      let v ← operandValue catalog txId f columns values (.column ctx)
      let lowerBound ← getValue lower
      let upperBound ← getValue upper
      .ok (truth (lessOrEqual lowerBound v && lessOrEqual v upperBound))

/-- The plan of an operand that is accepted. -/
theorem visitColumnOrConstant_ok {o : ColumnOrConstant} (h : ¬ Rejected catalog txId f o) :
    ∃ plan d, visitColumnOrConstant catalog txId f o = .ok plan ∧ plan.Complete ∧
      plan.getDatatype = d ∧ operandType catalog txId f o = .ok d ∧
      ((∃ expr, lowerExpr likeMatch columns plan = .ok expr) ↔ Present catalog txId f columns o) ∧
      ∀ expr, lowerExpr likeMatch columns plan = .ok expr →
        expr ⟨values⟩ = operandValue catalog txId f columns values o := by
  cases o with
  | column ctx =>
      obtain ⟨e, _, o, ho, hrejected⟩ | ⟨plan, hvisit, haccepted, hcomplete, hlowers, hvalue⟩ :=
        @builds_column catalog txId f likeMatch columns values ctx
      · obtain rfl := List.mem_singleton.mp ho
        exact absurd ⟨e, hrejected⟩ h
      · obtain ⟨col, hcol, hplan⟩ := Outcome.of_bind_ok hvisit
        cases hplan
        rw [List.forall_mem_singleton] at hlowers
        refine ⟨_, _, hvisit, hcomplete.mpr trivial, rfl, ?_, hlowers trivial,
          fun expr => hvalue expr trivial⟩
        rw [operandType, hcol]
        rfl
  | constant ctx =>
      obtain ⟨e, _, o, ho, hrejected⟩ | ⟨plan, hvisit, haccepted, hcomplete, hlowers, hvalue⟩ :=
        @builds_constant catalog txId f likeMatch columns values ctx
      · obtain rfl := List.mem_singleton.mp ho
        exact absurd ⟨e, hrejected⟩ h
      · obtain ⟨v, hv, hplan⟩ := Outcome.of_bind_ok hvisit
        cases hplan
        rw [List.forall_mem_singleton] at hlowers
        refine ⟨_, _, hvisit, hcomplete.mpr trivial, rfl, ?_, hlowers trivial,
          fun expr => hvalue expr trivial⟩
        rw [operandType, hv]
        rfl

end Conjuncts

section Conjunct

variable {catalog : Catalog} {txId : TxID} {f : FromClause}
  {likeMatch : List UInt8 → List UInt8 → Bool} {columns : List Column} {values : List Value}
  {s : SimpleExpr}

/-- The expression of a comparison. -/
def comparisonExpr (l r : Expr) : ComparisonOp → Expr
  | .equals => compareWith (fun a b => decide (a = b)) l r
  | .notEquals => compareWith (fun a b => decide (a ≠ b)) l r
  | .less => compareWith Value.less l r
  | .greater => compareWith Value.less r l
  | .lessOrEquals => compareWith (fun a b => !b.less a) l r
  | .greaterOrEquals => compareWith (fun a b => !b.less a) r l

theorem comparisonPlan_lower {lhs rhs : ExprPlan} (op : ComparisonOp) (expr : Expr) :
    lowerExpr likeMatch columns (comparisonPlan lhs rhs op) = .ok expr ↔
      ∃ l r, lowerExpr likeMatch columns lhs = .ok l ∧ lowerExpr likeMatch columns rhs = .ok r ∧
        comparisonExpr l r op = expr := by
  constructor
  · intro h
    cases op with
    | equals | notEquals | less | lessOrEquals =>
        obtain ⟨l, hl, h⟩ := Outcome.of_bind_ok h
        obtain ⟨r, hr, h⟩ := Outcome.of_bind_ok h
        exact ⟨l, r, hl, hr, Except.ok.inj h⟩
    | greater | greaterOrEquals =>
        obtain ⟨r, hr, h⟩ := Outcome.of_bind_ok h
        obtain ⟨l, hl, h⟩ := Outcome.of_bind_ok h
        exact ⟨l, r, hl, hr, Except.ok.inj h⟩
  · rintro ⟨l, r, hl, hr, rfl⟩
    cases op <;> rw [comparisonPlan, lowerExpr, hl, hr] <;> rfl

/-- A comparison is what is written, also where its operands change places. -/
theorem comparisonExpr_eval {l r : Expr} (op : ComparisonOp) {a b : Value}
    (ha : l ⟨values⟩ = .ok a) (hb : r ⟨values⟩ = .ok b) :
    comparisonExpr l r op ⟨values⟩ = .ok (truth (op.holds a b)) := by
  cases op with
  | equals | notEquals | less | greater =>
      simp only [comparisonExpr, compareWith, ha, hb, Outcome.ok_bind, ComparisonOp.holds]
  | lessOrEquals | greaterOrEquals =>
      simp only [comparisonExpr, compareWith, ha, hb, Outcome.ok_bind, ComparisonOp.holds,
        less_total]

theorem comparisonPlan_complete {lhs rhs : ExprPlan} (op : ComparisonOp) (hl : lhs.Complete)
    (hr : rhs.Complete) : (comparisonPlan lhs rhs op).Complete := by
  cases op with
  | equals | notEquals | less | lessOrEquals => exact ⟨hl, hr⟩
  | greater | greaterOrEquals => exact ⟨hr, hl⟩

/-- An operand has a value in an aligned record. -/
theorem operandValue_ok {o : ColumnOrConstant} (haligned : values.length = columns.length)
    (haccepted : ¬ Rejected catalog txId f o) (hpresent : Present catalog txId f columns o) :
    ∃ v, operandValue catalog txId f columns values o = .ok v := by
  cases o with
  | column ctx =>
      cases hcol : getColumn catalog txId f ctx with
      | error e => exact absurd ⟨e, hcol⟩ haccepted
      | ok col =>
          obtain ⟨i, hi⟩ := Option.isSome_iff_exists.mp (hpresent col hcol)
          obtain ⟨hlt, _⟩ := List.findIdx?_eq_some_iff_getElem.mp hi
          rw [← haligned] at hlt
          refine ⟨values[i], ?_⟩
          simp only [operandValue, hcol, Outcome.ok_bind, hi, valueAt,
            List.getElem?_eq_getElem hlt]
  | constant ctx =>
      cases hvalue : getValue ctx with
      | error e => exact absurd ⟨e, hvalue⟩ haccepted
      | ok v => exact ⟨v, hvalue⟩

theorem getValue_kind {ctx : ConstantContext} {v : Value} (h : getValue ctx = .ok v) :
    (∃ i, v = .int i) ∨ ∃ string, v = .string string := by
  cases ctx with
  | string body =>
      rw [getValue] at h
      split at h
      · cases h
      · cases h
        exact .inr ⟨_, rfl⟩
  | integer token =>
      obtain ⟨i, _, h⟩ := Outcome.of_bind_ok h
      cases h
      exact .inl ⟨i, rfl⟩

/-- A conjunct that is accepted. -/
theorem visitSimpleExpr_ok (haligned : values.length = columns.length)
    (haccepted : ¬ RejectedConjunct catalog txId f s) (hoperator : s.HasOperator) :
    ∃ plan, visitSimpleExpr catalog txId f s = .ok plan ∧ plan.Complete ∧
      ((∃ expr, lowerExpr likeMatch columns plan = .ok expr) ↔
        ∀ o ∈ s.operands, Present catalog txId f columns o) ∧
      ∀ expr, lowerExpr likeMatch columns plan = .ok expr →
        expr ⟨values⟩ = s.value catalog txId f likeMatch columns values := by
  have hoperands : ∀ o ∈ s.operands, ¬ Rejected catalog txId f o := fun o ho hrejected =>
    haccepted (.inl ⟨o, ho, hrejected⟩)
  have htypes : ∀ o ∈ s.operands, ∀ o' ∈ s.operands, ∀ d d', operandType catalog txId f o = .ok d →
      operandType catalog txId f o' = .ok d' → d = d' := by
    intro o ho o' ho' d d' hd hd'
    by_contra hne
    exact haccepted (.inr (.inl ⟨o, ho, o', ho', d, d', hd, hd', hne⟩))
  cases s with
  | comparison lhs rest =>
      cases rest with
      | none => exact hoperator.elim
      | some rest =>
          obtain ⟨op, rhs⟩ := rest
          have hmem : rhs ∈ [lhs, rhs] := List.mem_cons_of_mem _ List.mem_cons_self
          obtain ⟨l, d, hvisit, hcomplete, hd, htype, hlower, hvalue⟩ :=
            visitColumnOrConstant_ok catalog txId f likeMatch columns values
              (hoperands lhs List.mem_cons_self)
          obtain ⟨r, d', hvisit', hcomplete', hd', htype', hlower', hvalue'⟩ :=
            visitColumnOrConstant_ok catalog txId f likeMatch columns values (hoperands rhs hmem)
          have hsame : l.getDatatype = r.getDatatype := by
            rw [hd, hd']
            exact htypes lhs List.mem_cons_self rhs hmem d d' htype htype'
          have hplan : visitSimpleExpr catalog txId f (.comparison lhs (some (op, rhs))) =
              .ok (comparisonPlan l r op) := by
            simp only [visitSimpleExpr, hvisit, hvisit', Outcome.ok_bind, hsame, ne_eq,
              not_true_eq_false, if_false]
          have hpresent : (∀ o ∈ [lhs, rhs], Present catalog txId f columns o) ↔
              Present catalog txId f columns lhs ∧ Present catalog txId f columns rhs := by
            rw [List.forall_mem_cons, List.forall_mem_singleton]
          refine ⟨_, hplan, comparisonPlan_complete op hcomplete hcomplete', ?_, fun expr hexpr => ?_⟩
          · refine Iff.trans ?_ hpresent.symm
            rw [← hlower, ← hlower']
            constructor
            · rintro ⟨expr, hexpr⟩
              obtain ⟨le, re, hle, hre, _⟩ := (comparisonPlan_lower op expr).mp hexpr
              exact ⟨⟨le, hle⟩, re, hre⟩
            · rintro ⟨⟨le, hle⟩, re, hre⟩
              exact ⟨_, (comparisonPlan_lower op _).mpr ⟨le, re, hle, hre, rfl⟩⟩
          · obtain ⟨le, re, hle, hre, rfl⟩ := (comparisonPlan_lower op expr).mp hexpr
            obtain ⟨a, ha⟩ := operandValue_ok haligned (hoperands lhs List.mem_cons_self)
              (hlower.mp ⟨le, hle⟩)
            obtain ⟨b, hb⟩ := operandValue_ok haligned (hoperands rhs hmem) (hlower'.mp ⟨re, hre⟩)
            rw [comparisonExpr_eval op ((hvalue le hle).trans ha) ((hvalue' re hre).trans hb),
              SimpleExpr.value, ha, hb]
            rfl
  | like ctx pattern =>
      have hcol := hoperands (.column ctx) List.mem_cons_self
      cases hget : getColumn catalog txId f ctx with
      | error e => exact absurd ⟨e, hget⟩ hcol
      | ok col =>
          have htype : operandType catalog txId f (.column ctx) = .ok col.info.datatype := by
            rw [operandType, hget]
            rfl
          have hstr : col.info.datatype = .str := by
            by_contra hne
            exact haccepted (.inr (.inr ⟨trivial, _, List.mem_cons_self, _, htype, hne⟩))
          have hplan : visitSimpleExpr catalog txId f (.like ctx pattern) =
              .ok (.like col (unescapeString pattern)) := by
            simp only [visitSimpleExpr, hget, Outcome.ok_bind, hstr, ne_eq, not_true_eq_false,
              if_false]
          have hlower : (∃ expr, lowerExpr likeMatch columns (.like col (unescapeString pattern)) =
              .ok expr) ↔ ∃ child, lowerColumn columns col = .ok child := by
            constructor
            · rintro ⟨expr, hexpr⟩
              obtain ⟨child, hchild, _⟩ := Outcome.of_bind_ok hexpr
              exact ⟨child, hchild⟩
            · rintro ⟨child, hchild⟩
              exact ⟨_, by rw [lowerExpr, hchild, Outcome.ok_bind]⟩
          refine ⟨_, hplan, trivial, ?_, fun expr hexpr => ?_⟩
          · refine (hlower.trans (present_iff hget)).trans ?_
            exact (List.forall_mem_singleton (p := Present catalog txId f columns)).symm
          · obtain ⟨child, hchild, hexpr⟩ := Outcome.of_bind_ok hexpr
            cases hexpr
            rw [like, lowerColumn_eval hget hchild]
            rfl
  | between ctx lower upper =>
      have hcol := hoperands (.column ctx) List.mem_cons_self
      have hlow := hoperands (.constant lower) (List.mem_cons_of_mem _ List.mem_cons_self)
      have hup := hoperands (.constant upper)
        (List.mem_cons_of_mem _ (List.mem_cons_of_mem _ List.mem_cons_self))
      cases hget : getColumn catalog txId f ctx with
      | error e => exact absurd ⟨e, hget⟩ hcol
      | ok col =>
      cases hlower : getValue lower with
      | error e => exact absurd ⟨e, hlower⟩ hlow
      | ok lo =>
      cases hupper : getValue upper with
      | error e => exact absurd ⟨e, hupper⟩ hup
      | ok hi =>
          have htype : operandType catalog txId f (.column ctx) = .ok col.info.datatype := by
            rw [operandType, hget]
            rfl
          have htype' : operandType catalog txId f (.constant lower) =
              .ok (if lo.isString then .str else .int) := by
            rw [operandType, hlower]
            rfl
          have htype'' : operandType catalog txId f (.constant upper) =
              .ok (if hi.isString then .str else .int) := by
            rw [operandType, hupper]
            rfl
          have hmem : ColumnOrConstant.constant lower ∈
              SimpleExpr.operands (.between ctx lower upper) :=
            List.mem_cons_of_mem _ List.mem_cons_self
          have hmem' : ColumnOrConstant.constant upper ∈
              SimpleExpr.operands (.between ctx lower upper) :=
            List.mem_cons_of_mem _ (List.mem_cons_of_mem _ List.mem_cons_self)
          have hsame := htypes _ List.mem_cons_self _ hmem _ _ htype htype'
          have hsame' := htypes _ List.mem_cons_self _ hmem' _ _ htype htype''
          have hplan : visitSimpleExpr catalog txId f (.between ctx lower upper) =
              .ok (.between col lo hi) := by
            simp only [visitSimpleExpr, hget, hlower, hupper, Outcome.ok_bind]
            rcases getValue_kind hlower with ⟨i, rfl⟩ | ⟨string, rfl⟩
            · rcases getValue_kind hupper with ⟨j, rfl⟩ | ⟨string, rfl⟩
              · have hint : col.info.datatype = .int := hsame
                simp [Value.isInt, Value.isString, hint]
              · cases hsame.symm.trans hsame'
            · rcases getValue_kind hupper with ⟨j, rfl⟩ | ⟨string', rfl⟩
              · cases hsame.symm.trans hsame'
              · have hstr : col.info.datatype = .str := hsame
                simp [Value.isInt, Value.isString, hstr]
          have hlowers : (∃ expr, lowerExpr likeMatch columns (.between col lo hi) = .ok expr) ↔
              ∃ child, lowerColumn columns col = .ok child := by
            constructor
            · rintro ⟨expr, hexpr⟩
              obtain ⟨child, hchild, _⟩ := Outcome.of_bind_ok hexpr
              exact ⟨child, hchild⟩
            · rintro ⟨child, hchild⟩
              exact ⟨_, by rw [lowerExpr, hchild, Outcome.ok_bind]⟩
          have hpresent : (∀ o ∈ SimpleExpr.operands (.between ctx lower upper),
              Present catalog txId f columns o) ↔ Present catalog txId f columns (.column ctx) := by
            refine ⟨fun h => h _ List.mem_cons_self, fun h => ?_⟩
            exact List.forall_mem_cons.mpr ⟨h, List.forall_mem_cons.mpr
              ⟨trivial, List.forall_mem_singleton.mpr trivial⟩⟩
          refine ⟨_, hplan, trivial, (hlowers.trans (present_iff hget)).trans hpresent.symm,
            fun expr hexpr => ?_⟩
          obtain ⟨child, hchild, hexpr⟩ := Outcome.of_bind_ok hexpr
          cases hexpr
          simp only [between, lowerColumn_eval hget hchild, SimpleExpr.value, hlower, hupper,
            Outcome.ok_bind, less_total]

/-! ### Refusals -/

/-- The tables of the FROM clause exist. -/
def FromClause.Known (catalog : Catalog) (txId : TxID) (f : FromClause) : Prop :=
  (∀ t ∈ f.tables.entries, ∃ info, tableInfo catalog txId t.table = .ok info) ∧
    ∀ j ∈ f.outerJoins.entries, (∃ info, tableInfo catalog txId j.left = .ok info) ∧
      ∃ info, tableInfo catalog txId j.right = .ok info

theorem requireTable_ok {name : Identifier} {u : Unit} (h : requireTable catalog txId name = .ok u) :
    ∃ info, tableInfo catalog txId name = .ok info := by
  unfold requireTable at h
  obtain ⟨found, hfound, h⟩ := Outcome.of_bind_ok h
  cases found with
  | none => cases h
  | some info => exact ⟨info, by rw [tableInfo, hfound, Outcome.ok_bind]⟩

theorem known_insert_table {t : FromTable} (h : f.Known catalog txId)
    (ht : ∃ info, tableInfo catalog txId t.table = .ok info) :
    FromClause.Known catalog txId { f with tables := f.tables.insert t } := by
  refine ⟨fun t' ht' => ?_, h.2⟩
  rcases Foundation.KeyedMap.mem_insert.mp ht' with ht' | ⟨rfl, _⟩
  · exact h.1 t' ht'
  · exact ht

theorem visitOuterJoin_known {left right tableAlias : Identifier}
    {on : List (ColumnContext × ColumnContext)} {joins : List JoinPair} {f' : FromClause}
    (h : f.Known catalog txId)
    (hvisit : visitOuterJoin catalog txId f left right tableAlias on = .ok (joins, f')) :
    f'.Known catalog txId := by
  obtain ⟨_, hleft, hvisit⟩ := Outcome.of_bind_ok hvisit
  obtain ⟨_, hright, hvisit⟩ := Outcome.of_bind_ok hvisit
  split at hvisit
  · cases hvisit
  · obtain ⟨columns, _, hvisit⟩ := Outcome.of_bind_ok hvisit
    split at hvisit
    · cases hvisit
    · cases hvisit
      refine ⟨h.1, fun j hj => ?_⟩
      rcases Foundation.KeyedMap.mem_insert.mp hj with hj | ⟨rfl, _⟩
      · exact h.2 j hj
      · exact ⟨requireTable_ok hleft, requireTable_ok hright⟩

/-- Every FROM clause that is accepted is over tables that exist. -/
theorem visitTableListItem_known {item : TableListItem} {plan : LogicalPlan} {f' : FromClause}
    (h : f.Known catalog txId)
    (hvisit : visitTableListItem catalog txId f item = .ok (plan, f')) : f'.Known catalog txId := by
  cases item with
  | table name asAlias =>
      obtain ⟨_, hname, hvisit⟩ := Outcome.of_bind_ok hvisit
      dsimp only at hvisit
      split at hvisit
      · cases hvisit
      · cases hvisit
        exact known_insert_table h (requireTable_ok hname)
  | leftOuterJoin left right tableAlias on | fullOuterJoin left right tableAlias on =>
      obtain ⟨⟨joins, f''⟩, hjoin, hvisit⟩ := Outcome.of_bind_ok hvisit
      cases hvisit
      exact visitOuterJoin_known h hjoin

theorem visitTableListItems_known {items : List TableListItem} {plans : List LogicalPlan}
    {f' : FromClause} (h : f.Known catalog txId)
    (hvisit : visitTableListItems catalog txId f items = .ok (plans, f')) :
    f'.Known catalog txId := by
  induction items generalizing f plans with
  | nil =>
      cases hvisit
      exact h
  | cons item items ih =>
      obtain ⟨⟨plan, f''⟩, hitem, hvisit⟩ := Outcome.of_bind_ok hvisit
      obtain ⟨⟨plans', f'''⟩, hitems, hvisit⟩ := Outcome.of_bind_ok hvisit
      cases hvisit
      exact ih (visitTableListItem_known h hitem) hitems

theorem visitTableList_known {first : TableListItem} {others : List TableListItem}
    {plan : LogicalPlan} {f' : FromClause}
    (hvisit : visitTableList catalog txId first others = .ok (plan, f')) :
    f'.Known catalog txId := by
  have hempty : FromClause.empty.Known catalog txId :=
    ⟨fun t ht => (nomatch ht), fun j hj => nomatch hj⟩
  unfold visitTableList at hvisit
  split at hvisit
  · exact visitTableListItem_known hempty hvisit
  · obtain ⟨⟨plans, f''⟩, hitems, hvisit⟩ := Outcome.of_bind_ok hvisit
    cases hvisit
    exact visitTableListItems_known hempty hitems

theorem inferTable_error {name : Identifier} {found : Option Identifier} {ts : List FromTable}
    {e : Fault} (hknown : ∀ t ∈ ts, ∃ info, tableInfo catalog txId t.table = .ok info)
    (h : inferTable catalog txId name found ts = .error e) : e.isIIC3413DBException = true := by
  induction ts generalizing found with
  | nil => cases h
  | cons t ts ih =>
      obtain ⟨⟨info, hinfo⟩, hts⟩ := List.forall_mem_cons.mp hknown
      simp only [inferTable, hinfo, Outcome.ok_bind] at h
      split at h
      · exact ih hts h
      · split at h
        · exact ih hts h
        · exact ih hts h
        · cases h
          rfl
        · cases h
          rfl

theorem inferTable_known {name : Identifier} {found : Option Identifier} {ts : List FromTable}
    {table : Identifier} (hknown : ∀ t ∈ ts, ∃ info, tableInfo catalog txId t.table = .ok info)
    (hfound : ∀ table, found = some table → ∃ info, tableInfo catalog txId table = .ok info)
    (h : inferTable catalog txId name found ts = .ok (some table)) :
    ∃ info, tableInfo catalog txId table = .ok info := by
  induction ts generalizing found with
  | nil =>
      cases h
      exact hfound table rfl
  | cons t ts ih =>
      obtain ⟨⟨info, hinfo⟩, hts⟩ := List.forall_mem_cons.mp hknown
      simp only [inferTable, hinfo, Outcome.ok_bind] at h
      split at h
      · exact ih hts hfound h
      · split at h
        · exact ih hts hfound h
        · refine ih hts (fun table htable => ?_) h
          cases htable
          exact ⟨info, hinfo⟩
        · cases h
        · cases h

/-- `get_column` throws, and does nothing worse, over tables that exist. -/
theorem getColumn_error {ctx : ColumnContext} {e : Fault} (hknown : f.Known catalog txId)
    (h : getColumn catalog txId f ctx = .error e) : e.isIIC3413DBException = true := by
  obtain ⟨htables, hjoins⟩ := hknown
  unfold getColumn at h
  split at h
  · unfold getQualifiedColumn at h
    split at h
    · rename_i j hj
      obtain ⟨⟨left, hleft⟩, right, hright⟩ := hjoins j (List.mem_of_find?_eq_some hj)
      simp only [hleft, hright, Outcome.ok_bind] at h
      split at h
      · cases h
      · split at h
        · cases h
        · cases h
          rfl
    · split at h
      · cases h
        rfl
      · rename_i t ht
        obtain ⟨info, hinfo⟩ := htables t (List.mem_of_find?_eq_some ht)
        simp only [hinfo, Outcome.ok_bind] at h
        cases h
  · rcases Outcome.of_bind_error h with h | ⟨found, hfound, h⟩
    · exact inferTable_error htables h
    · split at h
      · cases h
        rfl
      · obtain ⟨info, hinfo⟩ := inferTable_known htables (fun _ h => by cases h) hfound
        simp only [hinfo, Outcome.ok_bind] at h
        cases h

theorem getValue_error {ctx : ConstantContext} {e : Fault} (h : getValue ctx = .error e) :
    e.isIIC3413DBException = true := by
  cases ctx with
  | string body =>
      rw [getValue] at h
      split at h
      · cases h
        rfl
      · cases h
  | integer token =>
      rcases Outcome.of_bind_error h with h | ⟨i, _, h⟩
      · unfold stoll at h
        split at h
        · cases h
        · cases h
          rfl
      · cases h

theorem rejectedWith_throws {o : ColumnOrConstant} {e : Fault} (hknown : f.Known catalog txId)
    (h : RejectedWith catalog txId f e o) : e.isIIC3413DBException = true := by
  cases o with
  | column ctx => exact getColumn_error hknown h
  | constant ctx => exact getValue_error h

theorem visitColumnOrConstant_error {o : ColumnOrConstant} (hknown : f.Known catalog txId)
    (h : Rejected catalog txId f o) :
    ∃ e, visitColumnOrConstant catalog txId f o = .error e ∧ e.isIIC3413DBException = true := by
  obtain ⟨e, he⟩ := h
  refine ⟨e, ?_, rejectedWith_throws hknown he⟩
  cases o with
  | column ctx =>
      have hcol : getColumn catalog txId f ctx = .error e := he
      rw [visitColumnOrConstant, hcol]
      rfl
  | constant ctx =>
      have hvalue : getValue ctx = .error e := he
      rw [visitColumnOrConstant, hvalue]
      rfl

/-- A conjunct that is refused. -/
theorem visitSimpleExpr_error (hknown : f.Known catalog txId)
    (h : RejectedConjunct catalog txId f s) :
    ∃ e, visitSimpleExpr catalog txId f s = .error e ∧ e.isIIC3413DBException = true := by
  cases s with
  | comparison lhs rest =>
      by_cases hl : Rejected catalog txId f lhs
      · obtain ⟨e, he, hthrows⟩ := visitColumnOrConstant_error hknown hl
        refine ⟨e, ?_, hthrows⟩
        cases rest <;> simp only [visitSimpleExpr, he, Outcome.error_bind]
      · obtain ⟨l, d, hvisit, _, hd, htype, _⟩ :=
          visitColumnOrConstant_ok catalog txId f (fun _ _ => true) [] [] hl
        cases rest with
        | none =>
            rcases h with ⟨o, ho, hrejected⟩ | ⟨o, ho, o', ho', d, d', hd, hd', hne⟩ | ⟨hlike, _⟩
            · obtain rfl := List.mem_singleton.mp ho
              exact absurd hrejected hl
            · obtain rfl := List.mem_singleton.mp ho
              obtain rfl := List.mem_singleton.mp ho'
              exact absurd (Except.ok.inj (hd.symm.trans hd')) hne
            · exact hlike.elim
        | some rest =>
            obtain ⟨op, rhs⟩ := rest
            by_cases hr : Rejected catalog txId f rhs
            · obtain ⟨e, he, hthrows⟩ := visitColumnOrConstant_error hknown hr
              refine ⟨e, ?_, hthrows⟩
              simp only [visitSimpleExpr, hvisit, he, Outcome.ok_bind, Outcome.error_bind]
            · obtain ⟨r, d', hvisit', _, hd', htype', _⟩ :=
                visitColumnOrConstant_ok catalog txId f (fun _ _ => true) [] [] hr
              have hdiffer : l.getDatatype ≠ r.getDatatype := by
                intro hsame
                have hall : ∀ o ∈ [lhs, rhs], ¬ Rejected catalog txId f o ∧
                    operandType catalog txId f o = .ok d := by
                  refine List.forall_mem_cons.mpr ⟨⟨hl, htype⟩, List.forall_mem_singleton.mpr
                    ⟨hr, ?_⟩⟩
                  rw [htype', ← hd', ← hsame, hd]
                rcases h with ⟨o, ho, hrejected⟩ | ⟨o, ho, o', ho', a, b, ha, hb, hne⟩ | ⟨hlike, _⟩
                · exact (hall o ho).1 hrejected
                · have hda := Except.ok.inj (ha.symm.trans (hall o ho).2)
                  have hdb := Except.ok.inj (hb.symm.trans (hall o' ho').2)
                  exact hne (hda.trans hdb.symm)
                · exact hlike.elim
              have hthrows : ∃ msg, visitSimpleExpr catalog txId f
                  (.comparison lhs (some (op, rhs))) = .error (.queryException msg) := by
                simp only [visitSimpleExpr, hvisit, hvisit', Outcome.ok_bind]
                rw [if_pos hdiffer]
                exact ⟨_, rfl⟩
              obtain ⟨msg, hmsg⟩ := hthrows
              exact ⟨_, hmsg, rfl⟩
  | like ctx pattern =>
      cases hget : getColumn catalog txId f ctx with
      | error e =>
          refine ⟨e, ?_, getColumn_error hknown hget⟩
          simp only [visitSimpleExpr, hget, Outcome.error_bind]
      | ok col =>
          have htype : operandType catalog txId f (.column ctx) = .ok col.info.datatype := by
            rw [operandType, hget]
            rfl
          have hstr : col.info.datatype ≠ .str := by
            intro hstr
            rcases h with ⟨o, ho, hrejected⟩ | ⟨o, ho, o', ho', a, b, ha, hb, hne⟩ |
              ⟨_, o, ho, a, ha, hne⟩
            · obtain rfl := List.mem_singleton.mp ho
              obtain ⟨e, he⟩ := hrejected
              cases hget.symm.trans he
            · obtain rfl := List.mem_singleton.mp ho
              obtain rfl := List.mem_singleton.mp ho'
              exact hne (Except.ok.inj (ha.symm.trans hb))
            · obtain rfl := List.mem_singleton.mp ho
              exact hne ((Except.ok.inj (ha.symm.trans htype)).trans hstr)
          refine ⟨.queryException "LIKE can only be applied to strings", ?_, rfl⟩
          simp only [visitSimpleExpr, hget, Outcome.ok_bind]
          rw [if_pos hstr]
  | between ctx lower upper =>
      cases hget : getColumn catalog txId f ctx with
      | error e =>
          refine ⟨e, ?_, getColumn_error hknown hget⟩
          simp only [visitSimpleExpr, hget, Outcome.error_bind]
      | ok col =>
      cases hlower : getValue lower with
      | error e =>
          refine ⟨e, ?_, getValue_error hlower⟩
          simp only [visitSimpleExpr, hget, hlower, Outcome.ok_bind, Outcome.error_bind]
      | ok lo =>
      cases hupper : getValue upper with
      | error e =>
          refine ⟨e, ?_, getValue_error hupper⟩
          simp only [visitSimpleExpr, hget, hlower, hupper, Outcome.ok_bind, Outcome.error_bind]
      | ok hi =>
          have hdiffer : ¬ ((if lo.isString then DataType.str else .int) = col.info.datatype ∧
              (if hi.isString then DataType.str else .int) = col.info.datatype) := by
            rintro ⟨hsame, hsame'⟩
            have hall : ∀ o ∈ SimpleExpr.operands (.between ctx lower upper),
                ¬ Rejected catalog txId f o ∧
                  operandType catalog txId f o = .ok col.info.datatype := by
              refine List.forall_mem_cons.mpr ⟨⟨fun ⟨e, he⟩ => ?_, ?_⟩, List.forall_mem_cons.mpr
                ⟨⟨fun ⟨e, he⟩ => ?_, ?_⟩, List.forall_mem_singleton.mpr ⟨fun ⟨e, he⟩ => ?_, ?_⟩⟩⟩
              · cases hget.symm.trans he
              · rw [operandType, hget]
                rfl
              · cases hlower.symm.trans he
              · rw [operandType, hlower, ← hsame]
                rfl
              · cases hupper.symm.trans he
              · rw [operandType, hupper, ← hsame']
                rfl
            rcases h with ⟨o, ho, hrejected⟩ | ⟨o, ho, o', ho', a, b, ha, hb, hne⟩ | ⟨hlike, _⟩
            · exact (hall o ho).1 hrejected
            · have hda := Except.ok.inj (ha.symm.trans (hall o ho).2)
              have hdb := Except.ok.inj (hb.symm.trans (hall o' ho').2)
              exact hne (hda.trans hdb.symm)
            · exact hlike.elim
          simp only [visitSimpleExpr, hget, hlower, hupper, Outcome.ok_bind]
          rcases getValue_kind hlower with ⟨i, rfl⟩ | ⟨string, rfl⟩
          · rcases getValue_kind hupper with ⟨j, rfl⟩ | ⟨string, rfl⟩
            · have hint : ¬ col.info.datatype = .int := fun hint => hdiffer ⟨hint.symm, hint.symm⟩
              refine ⟨.queryException "BETWEEN bounds must have the same type as the column used",
                ?_, rfl⟩
              simp [Value.isInt, Value.isString, hint]
            · exact ⟨_, rfl, rfl⟩
          · rcases getValue_kind hupper with ⟨j, rfl⟩ | ⟨string', rfl⟩
            · exact ⟨_, rfl, rfl⟩
            · have hstr : ¬ col.info.datatype = .str := fun hstr => hdiffer ⟨hstr.symm, hstr.symm⟩
              refine ⟨.queryException "BETWEEN bounds must have the same type as the column used",
                ?_, rfl⟩
              simp [Value.isInt, Value.isString, hstr]

/-- A comparison without its operator. -/
theorem visitSimpleExpr_missing (haccepted : ¬ RejectedConjunct catalog txId f s)
    (hmissing : ¬ s.HasOperator) :
    visitSimpleExpr catalog txId f s =
      .error (.undefinedBehaviour "columnOrConstant(1)->accept") := by
  cases s with
  | comparison lhs rest =>
      cases rest with
      | none =>
          have hl : ¬ Rejected catalog txId f lhs := fun hrejected =>
            haccepted (.inl ⟨lhs, List.mem_cons_self, hrejected⟩)
          obtain ⟨l, d, hvisit, _⟩ :=
            visitColumnOrConstant_ok catalog txId f (fun _ _ => true) [] [] hl
          simp only [visitSimpleExpr, hvisit, Outcome.ok_bind]
      | some rest => exact absurd trivial hmissing
  | like ctx pattern => exact absurd trivial hmissing
  | between ctx lower upper => exact absurd trivial hmissing

/-- A conjunct that got a plan is accepted and has its operator. -/
theorem accepted_of_visit (hknown : f.Known catalog txId) {plan : ExprPlan}
    (h : visitSimpleExpr catalog txId f s = .ok plan) :
    s.HasOperator ∧ ¬ RejectedConjunct catalog txId f s := by
  have haccepted : ¬ RejectedConjunct catalog txId f s := by
    intro hrejected
    obtain ⟨e, he, _⟩ := visitSimpleExpr_error hknown hrejected
    cases h.symm.trans he
  refine ⟨?_, haccepted⟩
  by_contra hmissing
  cases h.symm.trans (visitSimpleExpr_missing haccepted hmissing)

/-- The conjuncts that are all accepted. -/
theorem visitConjuncts_ok (haligned : values.length = columns.length) {conjuncts : List SimpleExpr}
    (h : ∀ s ∈ conjuncts, s.HasOperator ∧ ¬ RejectedConjunct catalog txId f s) :
    ∃ plans, conjuncts.mapM (visitSimpleExpr catalog txId f) = .ok plans ∧
      (∀ plan ∈ plans, plan.Complete) ∧
      ((∃ exprs, plans.mapM (lowerExpr likeMatch columns) = .ok exprs) ↔
        ∀ s ∈ conjuncts, ∀ o ∈ s.operands, Present catalog txId f columns o) ∧
      ∀ exprs, plans.mapM (lowerExpr likeMatch columns) = .ok exprs →
        exprs.map (fun expr => expr ⟨values⟩) =
          conjuncts.map (SimpleExpr.value catalog txId f likeMatch columns values) := by
  induction conjuncts with
  | nil =>
      refine ⟨[], rfl, fun plan hplan => (nomatch hplan), ?_, fun exprs hexprs => ?_⟩
      · exact iff_of_true ⟨[], rfl⟩ fun s hs => nomatch hs
      · cases hexprs
        rfl
  | cons s conjuncts ih =>
      obtain ⟨⟨hoperator, haccepted⟩, hrest⟩ := List.forall_mem_cons.mp h
      obtain ⟨plan, hvisit, hcomplete, hlower, hvalue⟩ :=
        @visitSimpleExpr_ok _ _ _ likeMatch columns values s haligned haccepted hoperator
      obtain ⟨plans, hvisits, hcompletes, hlowers, hvalues⟩ := ih hrest
      refine ⟨plan :: plans, ?_, List.forall_mem_cons.mpr ⟨hcomplete, hcompletes⟩, ?_,
        fun exprs hexprs => ?_⟩
      · rw [Outcome.mapM_cons, hvisit, Outcome.ok_bind, hvisits, Outcome.ok_bind]
      · rw [List.forall_mem_cons, ← hlower, ← hlowers, Outcome.mapM_ok_iff, Outcome.mapM_ok_iff,
          List.forall_mem_cons]
      · rw [Outcome.mapM_cons] at hexprs
        obtain ⟨expr, hexpr, hexprs⟩ := Outcome.of_bind_ok hexprs
        obtain ⟨exprs', hexprs', hexprs⟩ := Outcome.of_bind_ok hexprs
        cases hexprs
        rw [List.map_cons, List.map_cons, hvalue expr hexpr, hvalues exprs' hexprs']

/-- The conjuncts throw when one is refused before an operator is missing. -/
theorem visitConjuncts_throws (hknown : f.Known catalog txId) (conjuncts : List SimpleExpr) :
    (∃ e, conjuncts.mapM (visitSimpleExpr catalog txId f) = .error e ∧
      e.isIIC3413DBException = true) ↔
      ∃ before s after, conjuncts = before ++ s :: after ∧ RejectedConjunct catalog txId f s ∧
        ∀ b ∈ before, b.HasOperator := by
  induction conjuncts with
  | nil =>
      refine iff_of_false (fun ⟨e, h, _⟩ => nomatch h) ?_
      rintro ⟨before, s, after, heq, _⟩
      cases before <;> cases heq
  | cons s conjuncts ih =>
      rw [Outcome.mapM_cons]
      by_cases hrejected : RejectedConjunct catalog txId f s
      · obtain ⟨e, he, hthrows⟩ := visitSimpleExpr_error hknown hrejected
        rw [he]
        exact iff_of_true ⟨e, rfl, hthrows⟩
          ⟨[], s, conjuncts, rfl, hrejected, fun b hb => nomatch hb⟩
      by_cases hoperator : s.HasOperator
      · obtain ⟨plan, hvisit, _⟩ :=
          @visitSimpleExpr_ok _ _ _ (fun _ _ => true) [] [] s rfl hrejected hoperator
        rw [hvisit, Outcome.ok_bind]
        have hrest : (∃ e, (conjuncts.mapM (visitSimpleExpr catalog txId f) >>= fun plans =>
              .ok (plan :: plans)) = .error e ∧ e.isIIC3413DBException = true) ↔
            ∃ e, conjuncts.mapM (visitSimpleExpr catalog txId f) = .error e ∧
              e.isIIC3413DBException = true := by
          cases conjuncts.mapM (visitSimpleExpr catalog txId f) with
          | ok plans => exact iff_of_false (fun ⟨e, h, _⟩ => nomatch h) fun ⟨e, h, _⟩ => nomatch h
          | error e => rfl
        rw [hrest, ih]
        constructor
        · rintro ⟨before, s', after, rfl, hs', hbefore⟩
          exact ⟨s :: before, s', after, rfl, hs', List.forall_mem_cons.mpr ⟨hoperator, hbefore⟩⟩
        · rintro ⟨before, s', after, heq, hs', hbefore⟩
          cases before with
          | nil =>
              cases heq
              exact absurd hs' hrejected
          | cons b before =>
              cases heq
              exact ⟨before, s', after, rfl, hs', fun b hb => hbefore b (List.mem_cons_of_mem _ hb)⟩
      · rw [visitSimpleExpr_missing hrejected hoperator]
        refine iff_of_false ?_ ?_
        · rintro ⟨e, he, hthrows⟩
          cases he
          cases hthrows
        · rintro ⟨before, s', after, heq, hs', hbefore⟩
          cases before with
          | nil =>
              cases heq
              exact hrejected hs'
          | cons b before =>
              cases heq
              exact hoperator (hbefore _ List.mem_cons_self)

end Conjunct

end Iic3413Db.Query
