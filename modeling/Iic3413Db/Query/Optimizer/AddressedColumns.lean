/-
  Query/Optimizer/AddressedColumns.lean --- when an UPDATE or DELETE is over the columns
  it names.
-/
import Iic3413Db.Query.Optimizer.UpdateColumns

set_option autoImplicit false

namespace Iic3413Db.Query

open Iic3413Db.RelationalModel
open Iic3413Db.System (Catalog TableColumn TableId TableInfo)
open Iic3413Db.System.Catalog (MadeByCreate normalize ridName)
open Iic3413Db.Storage (TxID)
open QueryIter (matchesAll)

/-! ## Statements -/

/-- The operands in the assignments and the WHERE clause. -/
def UpdateQuery.operands (q : UpdateQuery) : List ColumnOrConstant :=
  q.assignmentList.flatMap (fun assignment => assignment.2.operands) ++
    (q.whereStatement.getD []).flatMap SimpleExpr.operands

/-- The operands in the WHERE clause. -/
def DeleteQuery.operands (q : DeleteQuery) : List ColumnOrConstant :=
  (q.whereStatement.getD []).flatMap SimpleExpr.operands

section Statements

variable (catalog : Catalog) (txId : TxID) (name : Identifier) (info : TableInfo)

/-- The scan under the iterator has the whole schema, with the RID at the end; a position
is that of the column named; and the clause decides the same of the record of a version
and of the row the scan returns for it. -/
structure Addresses (operands : List ColumnOrConstant) (child : QueryIter) : Prop where
  columns : child.getColumns = tableColumns info name
  rid : ∃ declared, info.columns = declared ++ [⟨ridName, .rid, info.tableId⟩]
  positions : ∀ ctx, .column ctx ∈ operands → ∃ col i,
    getColumn catalog txId (.single name) ctx = .ok col ∧
      findColumn child.getColumns col = some i ∧ schemaPosition info ctx.name = some i
  rows : ∀ (vs : List Value) (rid : RID), info.columns.length = vs.length + 1 →
    child.matches ⟨vs⟩ = child.matches ((⟨vs⟩ : Record).pushRid rid)

/-- The first column of the name has the datatype of the last. -/
def Resolves (columnName : Identifier) : Prop :=
  ∃ i, namedPosition info columnName = some i ∧ schemaPosition info columnName = some i

/-- The name is in lower case, or WHERE has all columns of the table; those named exist;
and no row gets to a conjunct on the RID. -/
structure Addressable (likeMatch : List UInt8 → List UInt8 → Bool)
    (operands : List ColumnOrConstant) (conjuncts : List SimpleExpr) : Prop where
  whole : normalize name = .ok name ∨ ∀ c ∈ info.columns.dropLast, InWhere conjuncts c.name
  resolves : ∀ ctx, .column ctx ∈ operands → Resolves info ctx.name
  rows : ∀ (vs : List Value) (rid : RID), info.columns.length = vs.length + 1 →
    ¬ RidReached catalog txId name info likeMatch conjuncts (vs ++ [.rid rid])

end Statements

/-! ## The scan -/

section Scan

variable {catalog : Catalog} {txId : TxID} {scans : TableId → Nat → List Record}
  {likeMatch : List UInt8 → List UInt8 → Bool}
  {joinOrder : List LogicalPlan → List JoinPair → List Nat}
  {name : Identifier} {info : TableInfo}

theorem MadeByCreate_ridLast (h : MadeByCreate info) :
    ∃ declared, info.columns = declared ++ [⟨ridName, .rid, info.tableId⟩] := by
  obtain ⟨c, c', tableName, columns, txId, h⟩ := h
  unfold Catalog.createTable at h
  obtain ⟨n, _, h⟩ := Outcome.of_bind_ok h
  obtain ⟨final, hfinal, h⟩ := Outcome.of_bind_ok h
  simp only [Except.ok.injEq, Prod.mk.injEq, TableInfo.mk.injEq] at h
  obtain ⟨⟨_, rfl, hid, _⟩, _⟩ := h
  unfold Catalog.finalColumns at hfinal
  split at hfinal
  · cases hfinal
  · split at hfinal
    · cases hfinal
    · rw [← Except.ok.inj hfinal, List.map_append, ← hid]
      exact ⟨_, rfl⟩

/-- A selection without expressions is its child. -/
def selectionOver (it : QueryIter) (lowered : List Expr) : QueryIter :=
  if lowered.isEmpty then it else .selection it lowered

theorem selectionOver_getColumns (it : QueryIter) (lowered : List Expr) :
    (selectionOver it lowered).getColumns = it.getColumns := by
  unfold selectionOver
  split
  · rfl
  · rfl

theorem selectionOver_matches {it : QueryIter} (lowered : List Expr) (r : Record)
    (h : it.matches r = .ok true) : (selectionOver it lowered).matches r = matchesAll r lowered := by
  unfold selectionOver
  split
  · rename_i hempty
    obtain rfl := List.isEmpty_iff.mp hempty
    exact h
  · rfl

/-- What is under the iterator: the scan of the columns in use, and the clause over it. -/
theorem visitWhere_scan (hinfo : catalog.getTableInfo name txId = .ok (some info))
    (hrid : ∃ declared, info.columns = declared ++ [⟨ridName, .rid, info.tableId⟩])
    {statement : Option (List SimpleExpr)} {child : LogicalPlan}
    (hwhere : visitWhere catalog txId name statement = .ok child) :
    ∃ plans scan, (statement.getD []).mapM (visitSimpleExpr catalog txId (.single name)) = .ok plans ∧
      scan.getColumns = (keptColumns
        ((countSchema info).addColumns (plans.flatMap ExprPlan.getColumns)) name
          info.columns).map (Column.mk name name) ∧
      (∀ r, scan.matches r = .ok true) ∧
      visitPlan catalog txId scans likeMatch joinOrder (countSchema info) child =
        (plans.mapM (lowerExpr likeMatch scan.getColumns) >>= fun lowered =>
          .ok (selectionOver scan lowered)) := by
  obtain ⟨declared, hcolumns⟩ := hrid
  have hlast : ∀ c, info.columns.getLast? = some c → c.datatype = .rid := by
    intro c hc
    rw [hcolumns, List.getLast?_concat] at hc
    cases hc
    rfl
  have hscan : ∀ usage, ∃ scan : QueryIter,
      visitPlan catalog txId scans likeMatch joinOrder usage (.relation name name) = .ok scan ∧
        scan.getColumns = (keptColumns usage name info.columns).map (Column.mk name name) ∧
        ∀ r, scan.matches r = .ok true := by
    intro usage
    obtain ⟨ps, hps⟩ := relationColumnsFrom_ok usage name name 0 hlast
    refine ⟨.relation ⟨scans info.tableId, 0, scans info.tableId 0⟩ ps, ?_,
      relationColumnsFrom_kept hps, fun _ => rfl⟩
    simp only [visitPlan, visitRelation, hinfo, hps, Outcome.ok_bind]
  cases statement with
  | none =>
      cases hwhere
      obtain ⟨scan, hvisit, hget, hmatches⟩ := hscan (countSchema info)
      exact ⟨[], scan, rfl, hget, hmatches, hvisit⟩
  | some conjuncts =>
      obtain ⟨plans, hplans, hchild⟩ := Outcome.of_bind_ok hwhere
      cases hchild
      obtain ⟨scan, hvisit, hget, hmatches⟩ :=
        hscan ((countSchema info).addColumns (plans.flatMap ExprPlan.getColumns))
      refine ⟨plans, scan, hplans, hget, hmatches, ?_⟩
      rw [visitPlan, hvisit, Outcome.ok_bind]
      rfl

theorem present_of_resolves (hinfo : catalog.getTableInfo name txId = .ok (some info))
    {ctx : ColumnContext} (h : Resolves info ctx.name) :
    Present catalog txId (.single name) (tableColumns info name) (.column ctx) := by
  obtain ⟨i, hi, _⟩ := h
  intro col hcol
  rw [getColumn_single hinfo hcol, tableColumns_find, hi]
  rfl

theorem whole_iff (hinfo : catalog.getTableInfo name txId = .ok (some info)) :
    normalize name = .ok name ↔ info.name = name := by
  have hname := (Catalog.getTableInfo_some hinfo).1
  rw [hname]
  exact ⟨Except.ok.inj, congrArg Except.ok⟩

/-- The scan and the clause over it. -/
theorem visitWhere_addresses (hinfo : catalog.getTableInfo name txId = .ok (some info))
    (hrid : ∃ declared, info.columns = declared ++ [⟨ridName, .rid, info.tableId⟩])
    {statement : Option (List SimpleExpr)} {child : LogicalPlan}
    (hwhere : visitWhere catalog txId name statement = .ok child)
    {operands : List ColumnOrConstant}
    (hsub : ∀ o ∈ (statement.getD []).flatMap SimpleExpr.operands, o ∈ operands)
    (hok : ∀ ctx, .column ctx ∈ operands →
      ∃ col, getColumn catalog txId (.single name) ctx = .ok col) :
    (∃ it, visitPlan catalog txId scans likeMatch joinOrder (countSchema info) child = .ok it ∧
        Addresses catalog txId name info operands it) ↔
      Addressable catalog txId name info likeMatch operands (statement.getD []) := by
  obtain ⟨plans, scan, hplans, hget, hmatches, hvisit⟩ :=
    @visitWhere_scan _ _ scans likeMatch joinOrder _ _ hinfo hrid _ _ hwhere
  have hkept := kept_whole hinfo hplans
  rw [← whole_iff hinfo] at hkept
  have hrows : ∀ {lowered : List Expr},
      plans.mapM (lowerExpr likeMatch (tableColumns info name)) = .ok lowered →
      ∀ (vs : List Value) (rid : RID), info.columns.length = vs.length + 1 →
        ((selectionOver scan lowered).matches ⟨vs⟩ =
            (selectionOver scan lowered).matches ((⟨vs⟩ : Record).pushRid rid) ↔
          ¬ RidReached catalog txId name info likeMatch (statement.getD []) (vs ++ [.rid rid])) := by
    intro lowered hlowered vs rid hlength
    rw [selectionOver_matches lowered _ (hmatches _), selectionOver_matches lowered _ (hmatches _)]
    exact (matchesAll_short hinfo hlength hplans hlowered).2
  rw [hvisit]
  constructor
  · rintro ⟨it, hit, haddresses⟩
    obtain ⟨lowered, hlowered, hit⟩ := Outcome.of_bind_ok hit
    cases hit
    have hcolumns := haddresses.columns
    rw [selectionOver_getColumns] at hcolumns
    rw [hcolumns] at hlowered
    have hwhole : keptColumns ((countSchema info).addColumns (plans.flatMap ExprPlan.getColumns))
        name info.columns = info.columns := by
      have hinjective : Function.Injective (Column.mk name name) := fun c d heq => by
        cases heq
        rfl
      exact hinjective.list_map (hget.symm.trans hcolumns)
    refine ⟨hkept.mp hwhole, fun ctx hctx => ?_, fun vs rid hlength =>
      (hrows hlowered vs rid hlength).mp (haddresses.rows vs rid hlength)⟩
    obtain ⟨col, i, hcol, hfind, hposition⟩ := haddresses.positions ctx hctx
    rw [selectionOver_getColumns, hcolumns, getColumn_single hinfo hcol, tableColumns_find] at hfind
    exact ⟨i, hfind, hposition⟩
  · intro h
    have hcolumns : scan.getColumns = tableColumns info name := by
      rw [hget, hkept.mpr h.whole]
      rfl
    have haccepted : ∀ s ∈ statement.getD [], s.HasOperator ∧
        ¬ RejectedConjunct catalog txId (.single name) s := by
      intro s hs
      obtain ⟨plan, _, hplan⟩ := Outcome.exists_of_mapM hplans hs
      exact accepted_of_visit (single_known hinfo) hplan
    have haligned : (List.replicate (tableColumns info name).length (Value.int 0)).length =
        (tableColumns info name).length := List.length_replicate
    obtain ⟨plans', hplans', _, hlower, _⟩ :=
      @visitConjuncts_ok _ _ _ likeMatch _ _ haligned _ haccepted
    obtain rfl := Except.ok.inj (hplans.symm.trans hplans')
    have hpresent : ∀ s ∈ statement.getD [], ∀ o ∈ s.operands,
        Present catalog txId (.single name) (tableColumns info name) o := by
      intro s hs o ho
      cases o with
      | constant ctx => trivial
      | column ctx =>
          exact present_of_resolves hinfo (h.resolves ctx
            (hsub _ (List.mem_flatMap.mpr ⟨s, hs, ho⟩)))
    obtain ⟨lowered, hlowered⟩ := hlower.mpr hpresent
    refine ⟨selectionOver scan lowered, ?_, ?_, hrid, fun ctx hctx => ?_, fun vs rid hlength =>
      (hrows hlowered vs rid hlength).mpr (h.rows vs rid hlength)⟩
    · rw [hcolumns, hlowered, Outcome.ok_bind]
    · rw [selectionOver_getColumns, hcolumns]
    · obtain ⟨col, hcol⟩ := hok ctx hctx
      obtain ⟨i, hi, hposition⟩ := h.resolves ctx hctx
      refine ⟨col, i, hcol, ?_, hposition⟩
      rw [selectionOver_getColumns, hcolumns, getColumn_single hinfo hcol, tableColumns_find, hi]

end Scan

/-! ## The statements -/

section Main

variable {catalog : Catalog} {txId : TxID} {scans : TableId → Nat → List Record}
  {likeMatch : List UInt8 → List UInt8 → Bool}
  {joinOrder : List LogicalPlan → List JoinPair → List Nat}

/-- The entries of the assignment list are those of the columns named. -/
def AssignsTo (info : TableInfo) (assignmentList : List (Identifier × AdditiveExpr))
    (assignments : List (Nat × Expr)) : Prop :=
  List.Forall₂ (fun written assignment =>
      (info.columns[assignment.1]?).map TableColumn.name = some written.1)
    assignmentList assignments

section Assignments

variable {name : Identifier} {info : TableInfo} {columns : List Column}
  {assignmentList : List (Identifier × AdditiveExpr)} {values : List (Nat × ExprPlan)}

theorem visitAssignment_ok {a : Identifier × AdditiveExpr} {value : Nat × ExprPlan}
    (h : visitAssignment catalog txId name info.columns a = .ok value) :
    (info.columns[value.1]?).map TableColumn.name = some a.1 ∧
      visitAdditiveExpr catalog txId (.single name) .null a.2 = .ok value.2 := by
  unfold visitAssignment at h
  split at h
  · cases h
  · rename_i i hi
    obtain ⟨expr, hexpr, h⟩ := Outcome.of_bind_ok h
    cases h
    obtain ⟨hlt, hname, _⟩ := List.findIdx?_eq_some_iff_getElem.mp hi
    refine ⟨?_, hexpr⟩
    rw [List.getElem?_eq_getElem hlt, Option.map_some]
    exact congrArg some (of_decide_eq_true hname)

theorem lowerExpr_complete {plan : ExprPlan} {expr : Expr}
    (h : lowerExpr likeMatch columns plan = .ok expr) : plan.Complete := by
  induction plan generalizing expr with
  | null => cases h
  | column | term | between | like => trivial
  | equals lhs rhs ihl ihr | notEquals lhs rhs ihl ihr | less lhs rhs ihl ihr
  | lessOrEquals lhs rhs ihl ihr | arithmetic lhs _ rhs ihl ihr =>
      obtain ⟨l, hl, h⟩ := Outcome.of_bind_ok h
      obtain ⟨r, hr, _⟩ := Outcome.of_bind_ok h
      exact ⟨ihl hl, ihr hr⟩

/-- The expression of an assignment that was accepted. -/
theorem assignment_lowers {e : AdditiveExpr} {plan : ExprPlan}
    (hvisit : visitAdditiveExpr catalog txId (.single name) .null e = .ok plan) :
    (∀ o ∈ e.operands, ¬ Rejected catalog txId (.single name) o) ∧
      ((∃ expr, lowerExpr likeMatch columns plan = .ok expr) ↔
        e.Plain ∧ ∀ o ∈ e.operands, Present catalog txId (.single name) columns o) := by
  obtain ⟨fault, hfault, _⟩ | ⟨plan', hvisit', haccepted, hcomplete, hlowers, _⟩ :=
    @visitAdditiveExpr_builds catalog txId (.single name) likeMatch columns [] e
  · cases hvisit.symm.trans hfault
  · obtain rfl := Except.ok.inj (hvisit.symm.trans hvisit')
    refine ⟨haccepted, ?_⟩
    constructor
    · rintro ⟨expr, hexpr⟩
      have hplain := hcomplete.mp (lowerExpr_complete hexpr)
      exact ⟨hplain, (hlowers hplain).mp ⟨expr, hexpr⟩⟩
    · rintro ⟨hplain, hpresent⟩
      exact (hlowers hplain).mpr hpresent

/-- The loop of the optimizer over the assignments. -/
theorem assignments_lower
    (hvalues : assignmentList.mapM (visitAssignment catalog txId name info.columns) = .ok values) :
    (∀ a ∈ assignmentList, ∀ o ∈ a.2.operands, ¬ Rejected catalog txId (.single name) o) ∧
      ((∃ assignments, (values.mapM fun value => do
          let expr ← lowerExpr likeMatch columns value.2
          .ok (value.1, expr)) = .ok assignments ∧
        AssignsTo info assignmentList assignments) ↔
      ∀ a ∈ assignmentList, a.2.Plain ∧
        ∀ o ∈ a.2.operands, Present catalog txId (.single name) columns o) := by
  induction assignmentList generalizing values with
  | nil =>
      cases hvalues
      exact ⟨(fun a ha => nomatch ha), iff_of_true ⟨[], rfl, .nil⟩ fun a ha => nomatch ha⟩
  | cons a as ih =>
      rw [Outcome.mapM_cons] at hvalues
      obtain ⟨value, hvalue, hvalues⟩ := Outcome.of_bind_ok hvalues
      obtain ⟨values', hvalues', hvalues⟩ := Outcome.of_bind_ok hvalues
      cases hvalues
      obtain ⟨hname, hvisit⟩ := visitAssignment_ok hvalue
      obtain ⟨haccepted, hlowers⟩ := @assignment_lowers _ _ likeMatch _ columns _ _ hvisit
      obtain ⟨hrest, hrestLowers⟩ := ih hvalues'
      refine ⟨List.forall_mem_cons.mpr ⟨haccepted, hrest⟩, ?_⟩
      rw [List.forall_mem_cons, ← hlowers, ← hrestLowers]
      constructor
      · rintro ⟨assignments, hassignments, hto⟩
        rw [Outcome.mapM_cons] at hassignments
        obtain ⟨x, hx, hassignments⟩ := Outcome.of_bind_ok hassignments
        obtain ⟨xs, hxs, hassignments⟩ := Outcome.of_bind_ok hassignments
        cases hassignments
        obtain ⟨expr, hexpr, _⟩ := Outcome.of_bind_ok hx
        exact ⟨⟨expr, hexpr⟩, xs, hxs, (List.forall₂_cons.mp hto).2⟩
      · rintro ⟨⟨expr, hexpr⟩, xs, hxs, hto⟩
        refine ⟨(value.1, expr) :: xs, ?_, .cons hname hto⟩
        rw [Outcome.mapM_cons, hexpr, hxs]
        rfl

end Assignments

theorem made_ridLast
    (hmade : ∀ info, (info ∈ catalog.tables.entries ∨ info ∈ catalog.inProcessTables txId) →
      MadeByCreate info) {name : Identifier} {info : TableInfo}
    (hinfo : catalog.getTableInfo name txId = .ok (some info)) :
    ∃ declared, info.columns = declared ++ [⟨ridName, .rid, info.tableId⟩] :=
  MadeByCreate_ridLast (hmade info (Catalog.getTableInfo_some hinfo).2)

theorem getColumn_of_accepted {f : FromClause} {ctx : ColumnContext}
    (h : ¬ Rejected catalog txId f (.column ctx)) : ∃ col, getColumn catalog txId f ctx = .ok col := by
  cases hcol : getColumn catalog txId f ctx with
  | ok col => exact ⟨col, rfl⟩
  | error e => exact absurd ⟨e, hcol⟩ h

/-- The operands of a clause that was accepted. -/
theorem where_accepted {name : Identifier} {info : TableInfo}
    (hinfo : catalog.getTableInfo name txId = .ok (some info))
    {statement : Option (List SimpleExpr)} {child : LogicalPlan}
    (hwhere : visitWhere catalog txId name statement = .ok child) :
    ∀ o ∈ (statement.getD []).flatMap SimpleExpr.operands,
      ¬ Rejected catalog txId (.single name) o := by
  intro o hmem
  obtain ⟨s, hs, ho⟩ := List.mem_flatMap.mp hmem
  cases statement with
  | none => cases hs
  | some conjuncts =>
      obtain ⟨plans, hplans, _⟩ := Outcome.of_bind_ok hwhere
      obtain ⟨plan, _, hplan⟩ := Outcome.exists_of_mapM hplans hs
      have haccepted := (accepted_of_visit (single_known hinfo) hplan).2
      exact fun hrejected => haccepted (.inl ⟨o, ho, hrejected⟩)

/-- When UPDATE and DELETE are over the columns they name. -/
theorem addressed_iff
    (hmade : ∀ info, (info ∈ catalog.tables.entries ∨ info ∈ catalog.inProcessTables txId) →
      MadeByCreate info) :
    (∀ (q : UpdateQuery) (plan : UpdatePlan), visitUpdateQuery catalog txId q = .ok plan →
      ((∃ it, visitUpdate catalog txId scans likeMatch joinOrder plan = .ok it ∧
          Addresses catalog txId q.table plan.tableInfo q.operands it.child ∧
          AssignsTo plan.tableInfo q.assignmentList it.assignments) ↔
        Addressable catalog txId q.table plan.tableInfo likeMatch q.operands
            (q.whereStatement.getD []) ∧
          ∀ assignment ∈ q.assignmentList, assignment.2.Plain)) ∧
    ∀ (q : DeleteQuery) (plan : DeletionPlan), visitDeleteQuery catalog txId q = .ok plan →
      ((∃ it, visitDeletion catalog txId scans likeMatch joinOrder plan = .ok it ∧
          Addresses catalog txId q.table plan.tableInfo q.operands it.child) ↔
        Addressable catalog txId q.table plan.tableInfo likeMatch q.operands
          (q.whereStatement.getD [])) := by
  refine ⟨fun q plan hplan => ?_, fun q plan hplan => ?_⟩
  · obtain ⟨_, _, hplan⟩ := Outcome.of_bind_ok hplan
    obtain ⟨found, hinfo, hplan⟩ := Outcome.of_bind_ok hplan
    cases found with
    | none => cases hplan
    | some info =>
        obtain ⟨values, hvalues, hplan⟩ := Outcome.of_bind_ok hplan
        obtain ⟨child, hwhere, hplan⟩ := Outcome.of_bind_ok hplan
        cases hplan
        obtain ⟨haccepted, _⟩ := @assignments_lower _ _ likeMatch _ _ (tableColumns info q.table)
          _ _ hvalues
        have hok : ∀ ctx, .column ctx ∈ q.operands →
            ∃ col, getColumn catalog txId (.single q.table) ctx = .ok col := by
          intro ctx hctx
          rcases List.mem_append.mp hctx with hctx | hctx
          · obtain ⟨a, ha, hctx⟩ := List.mem_flatMap.mp hctx
            exact getColumn_of_accepted (haccepted a ha _ hctx)
          · exact getColumn_of_accepted (where_accepted hinfo hwhere _ hctx)
        have hchild := @visitWhere_addresses _ _ scans likeMatch joinOrder _ _ hinfo
          (made_ridLast hmade hinfo) _ _ hwhere q.operands (fun o => List.mem_append_right _) hok
        constructor
        · rintro ⟨it, hit, haddresses, hassigns⟩
          obtain ⟨child', hchild', hit⟩ := Outcome.of_bind_ok hit
          obtain ⟨assignments, hassignments, hit⟩ := Outcome.of_bind_ok hit
          cases hit
          obtain ⟨_, hlowers⟩ := @assignments_lower _ _ likeMatch _ _ child'.getColumns _ _ hvalues
          exact ⟨hchild.mp ⟨child', hchild', haddresses⟩, fun a ha =>
            (hlowers.mp ⟨assignments, hassignments, hassigns⟩ a ha).1⟩
        · rintro ⟨haddressable, hplain⟩
          obtain ⟨child', hchild', haddresses⟩ := hchild.mpr haddressable
          obtain ⟨_, hlowers⟩ := @assignments_lower _ _ likeMatch _ _ child'.getColumns _ _ hvalues
          obtain ⟨assignments, hassignments, hassigns⟩ := hlowers.mpr fun a ha =>
            ⟨hplain a ha, fun o ho => by
              cases o with
              | constant ctx => trivial
              | column ctx =>
                  rw [haddresses.columns]
                  exact present_of_resolves hinfo (haddressable.resolves ctx
                    (List.mem_append_left _ (List.mem_flatMap.mpr ⟨a, ha, ho⟩)))⟩
          refine ⟨⟨child', assignments⟩, ?_, haddresses, hassigns⟩
          rw [visitUpdate, hchild', Outcome.ok_bind, hassignments, Outcome.ok_bind]
  · obtain ⟨found, hinfo, hplan⟩ := Outcome.of_bind_ok hplan
    cases found with
    | none => cases hplan
    | some info =>
        obtain ⟨child, hwhere, hplan⟩ := Outcome.of_bind_ok hplan
        cases hplan
        have hok : ∀ ctx, .column ctx ∈ q.operands →
            ∃ col, getColumn catalog txId (.single q.table) ctx = .ok col := fun ctx hctx =>
          getColumn_of_accepted (where_accepted hinfo hwhere _ hctx)
        rw [← @visitWhere_addresses _ _ scans likeMatch joinOrder _ _ hinfo
          (made_ridLast hmade hinfo) _ _ hwhere q.operands (fun o ho => ho) hok]
        constructor
        · rintro ⟨it, hit, haddresses⟩
          obtain ⟨child', hchild', hit⟩ := Outcome.of_bind_ok hit
          cases hit
          exact ⟨child', hchild', haddresses⟩
        · rintro ⟨child', hchild', haddresses⟩
          refine ⟨⟨child'⟩, ?_, haddresses⟩
          rw [visitDeletion, hchild', Outcome.ok_bind]

end Main

/-! ## A name in upper case -/

/-- `CREATE TABLE t (a INT, b INT)`. -/
def twoColumnTable : TableInfo where
  name := [116]
  columns := [⟨[97], .int, 0⟩, ⟨[98], .int, 0⟩, ⟨ridName, .rid, 0⟩]
  tableId := 0
  cardinality := 0

/-- The catalog before it. -/
def noTables : Catalog where
  tableIdCounter := 0
  transactionCount := 1
  inProcessTables := fun _ => []
  tables := Foundation.KeyedMap.empty

/-- The catalog with it. -/
def withTwoColumns : Catalog where
  tableIdCounter := 1
  transactionCount := 1
  inProcessTables := fun _ => []
  tables := Foundation.KeyedMap.empty.insert twoColumnTable

/-- `DELETE FROM table WHERE b == 1`. -/
def deleteWhereB (table : Identifier) : DeleteQuery :=
  ⟨table, some [.comparison (.column ⟨none, [98]⟩)
    (some (.equals, .constant (.integer ⟨false, [49]⟩)))]⟩

/-- `UPDATE table SET a = b WHERE b == 1`. -/
def updateWhereB (table : Identifier) : UpdateQuery :=
  ⟨table, [([97], .chain (.chain (.atomic (.column ⟨none, [98]⟩)) .nil) .nil)],
    some [.comparison (.column ⟨none, [98]⟩)
      (some (.equals, .constant (.integer ⟨false, [49]⟩)))]⟩

theorem twoColumnTable_made : MadeByCreate twoColumnTable :=
  ⟨noTables, _, [116], [⟨[97], .int, 0⟩, ⟨[98], .int, 0⟩], 1, rfl⟩

/-- The WHERE clause of both. -/
def whereB (table : Identifier) : ExprPlan :=
  .equals (.column ⟨table, table, ⟨[98], .int, 0⟩⟩) (.term (.int 1))

theorem visitWhere_whereB (table : Identifier)
    (h : ((deleteWhereB table).whereStatement.getD []).mapM
      (visitSimpleExpr withTwoColumns 1 (.single table)) = .ok [whereB table]) :
    visitWhere withTwoColumns 1 table (deleteWhereB table).whereStatement =
      .ok (.selection (.relation table table) [whereB table]) := by
  show (((deleteWhereB table).whereStatement.getD []).mapM
    (visitSimpleExpr withTwoColumns 1 (.single table)) >>= fun _ => _) = _
  rw [h, Outcome.ok_bind]

theorem visitDeleteQuery_ok {catalog : Catalog} {txId : TxID} {q : DeleteQuery} {info : TableInfo}
    {child : LogicalPlan} (hinfo : catalog.getTableInfo q.table txId = .ok (some info))
    (hwhere : visitWhere catalog txId q.table q.whereStatement = .ok child) :
    visitDeleteQuery catalog txId q = .ok ⟨info, child⟩ := by
  simp only [visitDeleteQuery, hinfo, hwhere, Outcome.ok_bind]

theorem addressable_lowerCase {operands : List ColumnOrConstant}
    (hoperands : ∀ ctx, .column ctx ∈ operands → ctx = ⟨none, [98]⟩) :
    Addressable withTwoColumns 1 [116] twoColumnTable (fun _ _ => true) operands
      ((deleteWhereB [116]).whereStatement.getD []) := by
  refine ⟨.inl rfl, fun ctx hctx => ?_, fun vs rid _ => ?_⟩
  · rw [hoperands ctx hctx]
    exact ⟨1, rfl, rfl⟩
  · rintro ⟨before, s, after, heq, ⟨o, ho, ctx, rfl, hend⟩, _⟩
    have hs : s ∈ (deleteWhereB [116]).whereStatement.getD [] := by
      rw [heq]
      exact List.mem_append_right _ List.mem_cons_self
    obtain rfl := List.mem_singleton.mp hs
    have hctx : ctx = ⟨none, [98]⟩ := by
      rcases List.mem_cons.mp ho with hctx | hconstant
      · cases hctx
        rfl
      · cases List.mem_singleton.mp hconstant
    rw [hctx] at hend
    cases hend

theorem addressed_iff_lowerCase :
    (∃ plan it, visitUpdateQuery withTwoColumns 1 (updateWhereB [116]) = .ok plan ∧
      visitUpdate withTwoColumns 1 (fun _ _ => []) (fun _ _ => true) (fun _ _ => []) plan = .ok it ∧
      Addresses withTwoColumns 1 [116] plan.tableInfo (updateWhereB [116]).operands it.child) ∧
    ∃ plan it, visitDeleteQuery withTwoColumns 1 (deleteWhereB [116]) = .ok plan ∧
      visitDeletion withTwoColumns 1 (fun _ _ => []) (fun _ _ => true) (fun _ _ => []) plan = .ok it ∧
      Addresses withTwoColumns 1 [116] plan.tableInfo (deleteWhereB [116]).operands it.child := by
  have hmade : ∀ info, (info ∈ withTwoColumns.tables.entries ∨
      info ∈ withTwoColumns.inProcessTables 1) → MadeByCreate info := by
    rintro info (hinfo | hinfo)
    · obtain rfl := List.mem_singleton.mp hinfo
      exact twoColumnTable_made
    · cases hinfo
  have hwhere := visitWhere_whereB [116] (by decide)
  refine ⟨?_, ?_⟩
  · have hplan : visitUpdateQuery withTwoColumns 1 (updateWhereB [116]) = .ok ⟨twoColumnTable,
        [(0, .column ⟨[116], [116], ⟨[98], .int, 0⟩⟩)],
        .selection (.relation [116] [116]) [whereB [116]]⟩ := by
      have hassignments : (updateWhereB [116]).assignmentList.mapM
          (visitAssignment withTwoColumns 1 [116] twoColumnTable.columns) =
            .ok [(0, .column ⟨[116], [116], ⟨[98], .int, 0⟩⟩)] := rfl
      have hrequire : requireTable withTwoColumns 1 [116] = .ok () := rfl
      have hinfo : withTwoColumns.getTableInfo [116] 1 = .ok (some twoColumnTable) := rfl
      show (requireTable withTwoColumns 1 [116] >>= fun _ => _) = _
      rw [hrequire, Outcome.ok_bind]
      show (withTwoColumns.getTableInfo [116] 1 >>= fun _ => _) = _
      rw [hinfo, Outcome.ok_bind]
      show ((updateWhereB [116]).assignmentList.mapM
          (visitAssignment withTwoColumns 1 [116] twoColumnTable.columns) >>= fun _ => _) = _
      rw [hassignments, Outcome.ok_bind]
      show (visitWhere withTwoColumns 1 [116] (deleteWhereB [116]).whereStatement >>= fun _ => _) = _
      rw [hwhere, Outcome.ok_bind]
    obtain ⟨it, hit, haddresses, _⟩ := ((@addressed_iff _ _ (fun _ _ => []) (fun _ _ => true)
      (fun _ _ => []) hmade).1 _ _ hplan).mpr ⟨addressable_lowerCase fun ctx hctx => by
        simpa [UpdateQuery.operands, updateWhereB, SimpleExpr.operands, AdditiveExpr.operands,
          AdditiveRest.operands, MultiplicativeExpr.operands, MultiplicativeRest.operands,
          UnaryExpr.operands, AtomicExpr.operands] using hctx, fun a ha => by
        obtain rfl := List.mem_singleton.mp ha
        exact ⟨⟨trivial, trivial⟩, trivial⟩⟩
    exact ⟨_, it, hplan, hit, haddresses⟩
  · have hplan : visitDeleteQuery withTwoColumns 1 (deleteWhereB [116]) = .ok ⟨twoColumnTable,
        .selection (.relation [116] [116]) [whereB [116]]⟩ := visitDeleteQuery_ok rfl hwhere
    obtain ⟨it, hit, haddresses⟩ := ((@addressed_iff _ _ (fun _ _ => []) (fun _ _ => true)
      (fun _ _ => []) hmade).2 _ _ hplan).mpr (addressable_lowerCase fun ctx hctx => by
        simpa [DeleteQuery.operands, deleteWhereB, SimpleExpr.operands] using hctx)
    exact ⟨_, it, hplan, hit, haddresses⟩

/-- `DELETE FROM T WHERE b == 1` compares the first column, and matches the row whose `a`
is 1. -/
theorem upperCase_compares_first : ∃ plan it,
    visitDeleteQuery withTwoColumns 1 (deleteWhereB [84]) = .ok plan ∧
      visitDeletion withTwoColumns 1 (fun _ _ => []) (fun _ _ => true) (fun _ _ => []) plan = .ok it ∧
      it.child.getColumns = [⟨[84], [84], ⟨[98], .int, 0⟩⟩, ⟨[84], [84], ⟨ridName, .rid, 0⟩⟩] ∧
      it.child.matches ⟨[.int 1, .int 2]⟩ = .ok true ∧
      ¬ Addresses withTwoColumns 1 [84] plan.tableInfo (deleteWhereB [84]).operands it.child := by
  have hwhere := visitWhere_whereB [84] (by decide)
  refine ⟨_, _, visitDeleteQuery_ok rfl hwhere, rfl, rfl, rfl, fun haddresses => ?_⟩
  have hlength := congrArg List.length haddresses.columns
  cases hlength

end Iic3413Db.Query
