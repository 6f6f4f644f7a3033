/-
  Query/Optimizer/UpdateColumns.lean --- `Optimizer` of `optimizer.cc` for UPDATE and
  DELETE, and the columns their expressions are over.

  All columns of the table are counted under the name in the catalog, and the scan
  asks for them under the name that is written.  A stored record has no RID at its end,
  and the WHERE clause is evaluated on it a second time.
-/
import Iic3413Db.Query.Optimizer.NullPadding
import Iic3413Db.Query.Optimizer.WrittenConjuncts
import Iic3413Db.Query.Parser.UpdateQueries
import Iic3413Db.System.CatalogFile

set_option autoImplicit false

namespace Iic3413Db.Query

open Iic3413Db.RelationalModel
open Iic3413Db.System (Catalog TableColumn TableId TableInfo)
open Iic3413Db.System.Catalog (MadeByCreate normalize ridName)
open Iic3413Db.Storage (TxID)
open QueryIter (matchesAll valueAt)

/-! ## The iterators -/

/-- `matches`, which only `Selection` redefines. -/
def QueryIter.matches (r : Record) : QueryIter → Outcome Bool
  | .selection _ expressions => matchesAll r expressions
  | _ => .ok true

/-- `class UpdateIter`, before `begin`. -/
structure UpdateIter where
  child : QueryIter
  assignments : List (Nat × Expr)

/-- `class DeletionIter`, before `begin`. -/
structure DeletionIter where
  child : QueryIter

section Visitor

variable (catalog : Catalog) (txId : TxID) (scans : TableId → Nat → List Record)
  (likeMatch : List UInt8 → List UInt8 → Bool)
  (joinOrder : List LogicalPlan → List JoinPair → List Nat)

/-- The counters after the loop over the columns of the table. -/
def countSchema (info : TableInfo) : ColumnUsage :=
  ColumnUsage.addColumns (fun _ => 0) (info.columns.map (Column.mk info.name info.name))

/-- `visit(UpdatePlan&)`. -/
def visitUpdate (update : UpdatePlan) : Outcome UpdateIter := do
  let child ← visitPlan catalog txId scans likeMatch joinOrder (countSchema update.tableInfo)
    update.child
  let assignments ← update.updateValues.mapM fun value => do
    let expr ← lowerExpr likeMatch child.getColumns value.2
    .ok (value.1, expr)
  .ok ⟨child, assignments⟩

/-- `visit(DeletionPlan&)`. -/
def visitDeletion (deletion : DeletionPlan) : Outcome DeletionIter := do
  let child ← visitPlan catalog txId scans likeMatch joinOrder (countSchema deletion.tableInfo)
    deletion.child
  .ok ⟨child⟩

end Visitor

/-! ## The table -/

section Single

variable {catalog : Catalog} {txId : TxID} {name : Identifier} {info : TableInfo}

theorem single_entries (name : Identifier) :
    (FromClause.single name).tables.entries = [⟨name, name⟩] := rfl

/-- A column of the statement is of the table, under the name that is written. -/
theorem getColumn_single {ctx : ColumnContext} {col : Column}
    (hinfo : catalog.getTableInfo name txId = .ok (some info))
    (h : getColumn catalog txId (.single name) ctx = .ok col) :
    col = columnOf name name info ctx.name := by
  have htable : tableInfo catalog txId name = .ok info := by
    rw [tableInfo, hinfo, Outcome.ok_bind]
  unfold getColumn at h
  split at h
  · unfold getQualifiedColumn at h
    split at h
    · rename_i j hj
      cases hj
    · split at h
      · cases h
      · rename_i t ht
        obtain rfl := List.mem_singleton.mp (List.mem_of_find?_eq_some ht)
        have hname := List.find?_some ht
        rw [decide_eq_true_eq] at hname
        simp only [htable, Outcome.ok_bind] at h
        cases h
        rw [← hname]
  · obtain ⟨found, hfound, h⟩ := Outcome.of_bind_ok h
    rw [single_entries, inferTable, if_neg (by simp), htable, Outcome.ok_bind] at hfound
    split at h
    · cases h
    · rename_i table
      have hsame : table = name := by
        split at hfound
        · cases hfound
        · cases hfound
          rfl
        · cases hfound
        · cases hfound
      rw [hsame] at h
      simp only [htable, Outcome.ok_bind] at h
      cases h
      rfl

end Single

/-! ## Columns of the WHERE clause -/

section Mentions

variable {catalog : Catalog} {txId : TxID} {f : FromClause} {s : SimpleExpr} {plan : ExprPlan}
  {col : Column}

theorem visitColumnOrConstant_mentions {o : ColumnOrConstant}
    (h : visitColumnOrConstant catalog txId f o = .ok plan) :
    col ∈ plan.mentions ↔ ∃ ctx, o = .column ctx ∧ getColumn catalog txId f ctx = .ok col := by
  cases o with
  | column ctx =>
      obtain ⟨c, hcol, h⟩ := Outcome.of_bind_ok h
      cases h
      constructor
      · intro hmem
        obtain rfl := List.mem_singleton.mp hmem
        exact ⟨ctx, rfl, hcol⟩
      · rintro ⟨ctx', hctx, hcol'⟩
        cases hctx
        exact List.mem_singleton.mpr (Except.ok.inj (hcol'.symm.trans hcol))
  | constant ctx =>
      obtain ⟨v, _, h⟩ := Outcome.of_bind_ok h
      cases h
      refine iff_of_false (fun hmem => nomatch hmem) ?_
      rintro ⟨ctx', hctx, _⟩
      cases hctx

theorem comparisonPlan_mentions {lhs rhs : ExprPlan} (op : ComparisonOp) :
    col ∈ (comparisonPlan lhs rhs op).mentions ↔ col ∈ lhs.mentions ∨ col ∈ rhs.mentions := by
  cases op with
  | equals | notEquals | less | lessOrEquals => exact List.mem_append
  | greater | greaterOrEquals => exact List.mem_append.trans or_comm

/-- The columns in the plan of a conjunct are those that are written. -/
theorem visitSimpleExpr_mentions (h : visitSimpleExpr catalog txId f s = .ok plan) :
    col ∈ plan.mentions ↔
      ∃ ctx, .column ctx ∈ s.operands ∧ getColumn catalog txId f ctx = .ok col := by
  cases s with
  | comparison lhs rest =>
      cases rest with
      | none =>
          obtain ⟨_, _, h⟩ := Outcome.of_bind_ok h
          cases h
      | some rest =>
          obtain ⟨op, rhs⟩ := rest
          obtain ⟨l, hl, h⟩ := Outcome.of_bind_ok h
          obtain ⟨r, hr, h⟩ := Outcome.of_bind_ok h
          split at h
          · cases h
          · cases h
            rw [comparisonPlan_mentions, visitColumnOrConstant_mentions hl,
              visitColumnOrConstant_mentions hr, ← exists_or]
            refine exists_congr fun ctx => ?_
            rw [← or_and_right, SimpleExpr.operands, List.mem_cons, List.mem_singleton,
              eq_comm, @eq_comm _ rhs]
  | like ctx pattern =>
      obtain ⟨c, hcol, h⟩ := Outcome.of_bind_ok h
      split at h
      · cases h
      · cases h
        constructor
        · intro hmem
          obtain rfl := List.mem_singleton.mp hmem
          exact ⟨ctx, List.mem_cons_self, hcol⟩
        · rintro ⟨ctx', hctx, hcol'⟩
          cases List.mem_singleton.mp hctx
          exact List.mem_singleton.mpr (Except.ok.inj (hcol'.symm.trans hcol))
  | between ctx lower upper =>
      obtain ⟨c, hcol, h⟩ := Outcome.of_bind_ok h
      obtain ⟨_, _, h⟩ := Outcome.of_bind_ok h
      obtain ⟨_, _, h⟩ := Outcome.of_bind_ok h
      split at h
      · cases h
      · split at h
        · cases h
        · cases h
          constructor
          · intro hmem
            obtain rfl := List.mem_singleton.mp hmem
            exact ⟨ctx, List.mem_cons_self, hcol⟩
          · rintro ⟨ctx', hctx, hcol'⟩
            have hsame : ctx' = ctx := by simpa [SimpleExpr.operands] using hctx
            rw [hsame, hcol] at hcol'
            exact List.mem_singleton.mpr (Except.ok.inj hcol').symm

end Mentions

/-! ## The columns of the scan -/

/-- A column of the WHERE clause has the name. -/
def InWhere (conjuncts : List SimpleExpr) (columnName : Identifier) : Prop :=
  ∃ s ∈ conjuncts, ∃ ctx, .column ctx ∈ s.operands ∧ ctx.name = columnName

/-- The columns of the table under the name that is written. -/
def tableColumns (info : TableInfo) (name : Identifier) : List Column :=
  info.columns.map (Column.mk name name)

/-- The position of the first column with the name. -/
def namedPosition (info : TableInfo) (columnName : Identifier) : Option Nat :=
  info.columns.findIdx? fun col => col.name = columnName

section Scan

variable {catalog : Catalog} {txId : TxID} {name : Identifier} {info : TableInfo}
  {conjuncts : List SimpleExpr} {plans : List ExprPlan}

theorem single_known (hinfo : catalog.getTableInfo name txId = .ok (some info)) :
    (FromClause.single name).Known catalog txId := by
  refine ⟨fun t ht => ?_, fun j hj => nomatch hj⟩
  obtain rfl := List.mem_singleton.mp ht
  exact ⟨info, by rw [tableInfo, hinfo, Outcome.ok_bind]⟩

/-- The columns that the selection counts. -/
theorem whereColumns_key (hinfo : catalog.getTableInfo name txId = .ok (some info))
    (hplans : conjuncts.mapM (visitSimpleExpr catalog txId (.single name)) = .ok plans)
    (columnName : Identifier) :
    (∃ c ∈ plans.flatMap ExprPlan.getColumns, c.key = (name, columnName)) ↔
      InWhere conjuncts columnName := by
  constructor
  · rintro ⟨c, hc, hkey⟩
    obtain ⟨plan, hplan, hc⟩ := List.mem_flatMap.mp hc
    obtain ⟨s, hs, hvisit⟩ := Outcome.mem_of_mapM hplans hplan
    obtain ⟨ctx, hctx, hcol⟩ := (visitSimpleExpr_mentions hvisit).mp (ExprPlan.getColumns_subset hc)
    rw [getColumn_single hinfo hcol] at hkey
    exact ⟨s, hs, ctx, hctx, (Prod.mk.inj hkey).2⟩
  · rintro ⟨s, hs, ctx, hctx, rfl⟩
    obtain ⟨plan, hplan, hvisit⟩ := Outcome.exists_of_mapM hplans hs
    have haccepted := (accepted_of_visit (single_known hinfo) hvisit).2
    cases hcol : getColumn catalog txId (.single name) ctx with
    | error e => exact absurd (.inl ⟨_, hctx, e, hcol⟩) haccepted
    | ok col =>
        obtain ⟨d, hd, hkey⟩ := ExprPlan.key_mem_getColumns
          ((visitSimpleExpr_mentions hvisit).mpr ⟨ctx, hctx, hcol⟩)
        rw [getColumn_single hinfo hcol] at hkey
        exact ⟨d, List.mem_flatMap.mpr ⟨plan, hplan, hd⟩, hkey⟩

/-- The scan has the whole schema when the name is the one in the catalog, or WHERE has
every column. -/
theorem kept_whole (hinfo : catalog.getTableInfo name txId = .ok (some info))
    (hplans : conjuncts.mapM (visitSimpleExpr catalog txId (.single name)) = .ok plans) :
    keptColumns ((countSchema info).addColumns (plans.flatMap ExprPlan.getColumns)) name
        info.columns = info.columns ↔
      info.name = name ∨ ∀ c ∈ info.columns.dropLast, InWhere conjuncts c.name := by
  have hschema : ∀ c ∈ info.columns.dropLast,
      ((countSchema info).keeps (name, c.name) = true ↔ info.name = name) := by
    intro c hc
    have hzero : ¬ ColumnUsage.keeps (fun _ => 0) (name, c.name) = true := by simp [ColumnUsage.keeps]
    rw [countSchema, keeps_addColumns, or_iff_right hzero]
    constructor
    · rintro ⟨d, hd, hkey⟩
      obtain ⟨x, _, rfl⟩ := List.mem_map.mp hd
      exact (Prod.mk.inj hkey).1
    · intro hname
      exact ⟨_, List.mem_map_of_mem (List.mem_of_mem_dropLast hc), by rw [hname]; rfl⟩
  rw [keptColumns_eq_self]
  constructor
  · intro hall
    by_cases hname : info.name = name
    · exact .inl hname
    · refine .inr fun c hc => (whereColumns_key hinfo hplans c.name).mp ?_
      exact (keeps_addColumns.mp (hall c hc)).resolve_left fun h => hname ((hschema c hc).mp h)
  · rintro (hname | hall) c hc
    · exact keeps_addColumns.mpr (.inl ((hschema c hc).mpr hname))
    · exact keeps_addColumns.mpr (.inr ((whereColumns_key hinfo hplans c.name).mpr (hall c hc)))

theorem tableColumns_find (info : TableInfo) (name columnName : Identifier) :
    findColumn (tableColumns info name) (columnOf name name info columnName) =
      namedPosition info columnName := by
  rw [findColumn, tableColumns, List.findIdx?_map, namedPosition]
  refine congrArg (fun p => info.columns.findIdx? p) (funext fun c => ?_)
  simp [Column.key, columnOf]

theorem relationColumnsFrom_ok (usage : ColumnUsage) (tableAlias table : Identifier) (pos : Nat)
    {cols : List TableColumn} (hlast : ∀ c, cols.getLast? = some c → c.datatype = .rid) :
    ∃ ps, relationColumnsFrom usage tableAlias table pos cols = .ok ps := by
  induction cols generalizing pos with
  | nil => exact ⟨[], rfl⟩
  | cons c cols ih =>
      have hrest : ∃ ps, relationColumnsFrom usage tableAlias table (pos + 1) cols = .ok ps := by
        cases cols with
        | nil => exact ⟨[], rfl⟩
        | cons d cols => exact ih (pos + 1) fun x hx => hlast x (by rwa [List.getLast?_cons_cons])
      obtain ⟨ps, hps⟩ := hrest
      simp only [relationColumnsFrom, hps, Outcome.ok_bind]
      split
      · exact ⟨_, rfl⟩
      · split
        · rename_i hempty
          obtain rfl := List.isEmpty_iff.mp hempty
          rw [if_pos (hlast c rfl)]
          exact ⟨_, rfl⟩
        · exact ⟨ps, rfl⟩

end Scan

/-! ## The same row with and without its RID -/

/-- What reading past the end of a record is. -/
def pastEnd : Fault := .undefinedBehaviour "values[i]"

section Rows

variable {likeMatch : List UInt8 → List UInt8 → Bool} {columns : List Column}
  {vs : List Value} {v : Value}

theorem lowerColumn_short {col : Column} {expr : Expr} (hlength : columns.length = vs.length + 1)
    (h : lowerColumn columns col = .ok expr) :
    (findColumn columns col = some vs.length → expr ⟨vs⟩ = .error pastEnd) ∧
      (findColumn columns col ≠ some vs.length →
        ∃ x, expr ⟨vs⟩ = .ok x ∧ expr ⟨vs ++ [v]⟩ = .ok x) := by
  rw [lowerColumn] at h
  cases hfind : findColumn columns col with
  | none =>
      rw [hfind] at h
      cases h
  | some i =>
      rw [hfind] at h
      cases h
      obtain ⟨hlt, _⟩ := List.findIdx?_eq_some_iff_getElem.mp hfind
      constructor
      · intro hi
        obtain rfl := Option.some.inj hi
        show valueAt vs vs.length = .error pastEnd
        rw [valueAt, List.getElem?_eq_none le_rfl]
        rfl
      · intro hi
        have hinside : i < vs.length := by
          have hne : i ≠ vs.length := fun heq => hi (congrArg some heq)
          omega
        have hshort : valueAt vs i = .ok vs[i] := by
          rw [valueAt, List.getElem?_eq_getElem hinside]
        have hfull : valueAt (vs ++ [v]) i = .ok vs[i] := by
          rw [valueAt, List.getElem?_append_left hinside, List.getElem?_eq_getElem hinside]
        exact ⟨vs[i], hshort, hfull⟩

end Rows

section Conjuncts

variable {catalog : Catalog} {txId : TxID} {name : Identifier} {info : TableInfo}
  {likeMatch : List UInt8 → List UInt8 → Bool} {vs : List Value} {v : Value}

/-- The operand is the column at the end of the schema. -/
def ReadsEnd (info : TableInfo) (o : ColumnOrConstant) : Prop :=
  ∃ ctx, o = .column ctx ∧ namedPosition info ctx.name = some (info.columns.length - 1)

theorem operand_short {o : ColumnOrConstant} {plan : ExprPlan} {expr : Expr}
    (hinfo : catalog.getTableInfo name txId = .ok (some info))
    (hlength : info.columns.length = vs.length + 1)
    (hvisit : visitColumnOrConstant catalog txId (.single name) o = .ok plan)
    (hlower : lowerExpr likeMatch (tableColumns info name) plan = .ok expr) :
    (ReadsEnd info o → expr ⟨vs⟩ = .error pastEnd) ∧
      (¬ ReadsEnd info o → ∃ x, expr ⟨vs⟩ = .ok x ∧ expr ⟨vs ++ [v]⟩ = .ok x) := by
  have hcolumns : (tableColumns info name).length = vs.length + 1 := by
    rw [tableColumns, List.length_map, hlength]
  cases o with
  | constant ctx =>
      obtain ⟨value, _, hplan⟩ := Outcome.of_bind_ok hvisit
      cases hplan
      cases hlower
      refine ⟨?_, fun _ => ⟨value, rfl, rfl⟩⟩
      rintro ⟨ctx', hctx, _⟩
      cases hctx
  | column ctx =>
      obtain ⟨col, hcol, hplan⟩ := Outcome.of_bind_ok hvisit
      cases hplan
      have hshort := @lowerColumn_short _ vs v col expr hcolumns hlower
      rw [getColumn_single hinfo hcol, tableColumns_find] at hshort
      have hends : ReadsEnd info (.column ctx) ↔ namedPosition info ctx.name = some vs.length := by
        have hlast : info.columns.length - 1 = vs.length := by omega
        rw [ReadsEnd, hlast]
        refine ⟨?_, fun h => ⟨ctx, rfl, h⟩⟩
        rintro ⟨ctx', hctx, h⟩
        cases hctx
        exact h
      rwa [hends]

/-- A comparison past the end of the record. -/
theorem comparisonExpr_pastEnd {l r : Expr} (op : ComparisonOp)
    (hl : l ⟨vs⟩ = .error pastEnd ∨ ∃ x, l ⟨vs⟩ = .ok x)
    (hr : r ⟨vs⟩ = .error pastEnd ∨ ∃ x, r ⟨vs⟩ = .ok x)
    (h : l ⟨vs⟩ = .error pastEnd ∨ r ⟨vs⟩ = .error pastEnd) :
    comparisonExpr l r op ⟨vs⟩ = .error pastEnd := by
  have heither : l ⟨vs⟩ = .error pastEnd ∧ r ⟨vs⟩ = .error pastEnd ∨
      (∃ x, l ⟨vs⟩ = .ok x) ∧ r ⟨vs⟩ = .error pastEnd ∨
      l ⟨vs⟩ = .error pastEnd ∧ ∃ x, r ⟨vs⟩ = .ok x := by
    rcases h with h | h
    · exact hr.elim (fun hr => .inl ⟨h, hr⟩) fun hr => .inr (.inr ⟨h, hr⟩)
    · exact hl.elim (fun hl => .inl ⟨hl, h⟩) fun hl => .inr (.inl ⟨hl, h⟩)
  rcases heither with ⟨hl, hr⟩ | ⟨⟨x, hl⟩, hr⟩ | ⟨hl, x, hr⟩ <;>
    cases op <;> simp only [comparisonExpr, compareWith, hl, hr, Outcome.ok_bind,
      Outcome.error_bind]

/-- The conjunct reads the RID column at the end of the schema. -/
def ReadsRid (info : TableInfo) (s : SimpleExpr) : Prop := ∃ o ∈ s.operands, ReadsEnd info o

/-- A conjunct on a record without the RID. -/
theorem conjunct_short {s : SimpleExpr} {plan : ExprPlan} {expr : Expr}
    (hinfo : catalog.getTableInfo name txId = .ok (some info))
    (hlength : info.columns.length = vs.length + 1)
    (hvisit : visitSimpleExpr catalog txId (.single name) s = .ok plan)
    (hlower : lowerExpr likeMatch (tableColumns info name) plan = .ok expr) :
    (ReadsRid info s → expr ⟨vs⟩ = .error pastEnd) ∧
      (¬ ReadsRid info s → expr ⟨vs⟩ = expr ⟨vs ++ [v]⟩) := by
  have hcolumn : ∀ ctx col child, getColumn catalog txId (.single name) ctx = .ok col →
      lowerColumn (tableColumns info name) col = .ok child →
        (ReadsEnd info (.column ctx) → child ⟨vs⟩ = .error pastEnd) ∧
          (¬ ReadsEnd info (.column ctx) → ∃ x, child ⟨vs⟩ = .ok x ∧ child ⟨vs ++ [v]⟩ = .ok x) := by
    intro ctx col child hcol hchild
    refine @operand_short _ _ _ _ likeMatch vs v (.column ctx) (.column col) child hinfo hlength ?_
      hchild
    rw [visitColumnOrConstant, hcol]
    rfl
  cases s with
  | comparison lhs rest =>
      cases rest with
      | none =>
          obtain ⟨_, _, h⟩ := Outcome.of_bind_ok hvisit
          cases h
      | some rest =>
          obtain ⟨op, rhs⟩ := rest
          obtain ⟨l, hl, h⟩ := Outcome.of_bind_ok hvisit
          obtain ⟨r, hr, h⟩ := Outcome.of_bind_ok h
          split at h
          · cases h
          · cases h
            obtain ⟨le, re, hle, hre, rfl⟩ := (comparisonPlan_lower op expr).mp hlower
            have hleft := @operand_short _ _ _ _ likeMatch vs v lhs l le hinfo hlength hl hle
            have hright := @operand_short _ _ _ _ likeMatch vs v rhs r re hinfo hlength hr hre
            have hcases : ∀ (o : ColumnOrConstant) (e : Expr),
                (ReadsEnd info o → e ⟨vs⟩ = .error pastEnd) ∧
                  (¬ ReadsEnd info o → ∃ x, e ⟨vs⟩ = .ok x ∧ e ⟨vs ++ [v]⟩ = .ok x) →
                e ⟨vs⟩ = .error pastEnd ∨ ∃ x, e ⟨vs⟩ = .ok x := by
              intro o e h
              by_cases hends : ReadsEnd info o
              · exact .inl (h.1 hends)
              · obtain ⟨x, hx, _⟩ := h.2 hends
                exact .inr ⟨x, hx⟩
            have hreads : ReadsRid info (.comparison lhs (some (op, rhs))) ↔
                ReadsEnd info lhs ∨ ReadsEnd info rhs := by
              simp only [ReadsRid, SimpleExpr.operands, List.mem_cons, List.not_mem_nil, or_false,
                exists_eq_or_imp, exists_eq_left]
            rw [hreads]
            constructor
            · intro h
              exact comparisonExpr_pastEnd op (hcases lhs le hleft) (hcases rhs re hright)
                (h.imp hleft.1 hright.1)
            · intro h
              obtain ⟨hnl, hnr⟩ := not_or.mp h
              obtain ⟨x, hx, hx'⟩ := hleft.2 hnl
              obtain ⟨y, hy, hy'⟩ := hright.2 hnr
              rw [comparisonExpr_eval op hx hy, comparisonExpr_eval op hx' hy']
  | like ctx pattern =>
      obtain ⟨col, hcol, h⟩ := Outcome.of_bind_ok hvisit
      split at h
      · cases h
      · cases h
        obtain ⟨child, hchild, h⟩ := Outcome.of_bind_ok hlower
        cases h
        have hreads : ReadsRid info (.like ctx pattern) ↔ ReadsEnd info (.column ctx) := by
          simp only [ReadsRid, SimpleExpr.operands, List.mem_singleton, exists_eq_left]
        rw [hreads]
        obtain ⟨hend, hinside⟩ := hcolumn ctx col child hcol hchild
        constructor
        · intro h
          simp only [like, hend h, Outcome.error_bind]
        · intro h
          obtain ⟨x, hx, hx'⟩ := hinside h
          simp only [like, hx, hx']
  | between ctx lower upper =>
      obtain ⟨col, hcol, h⟩ := Outcome.of_bind_ok hvisit
      obtain ⟨_, _, h⟩ := Outcome.of_bind_ok h
      obtain ⟨_, _, h⟩ := Outcome.of_bind_ok h
      split at h
      · cases h
      · split at h
        · cases h
        · cases h
          obtain ⟨child, hchild, h⟩ := Outcome.of_bind_ok hlower
          cases h
          have hconstant : ∀ c, ¬ ReadsEnd info (.constant c) := by
            rintro c ⟨ctx', hctx, _⟩
            cases hctx
          have hreads : ReadsRid info (.between ctx lower upper) ↔ ReadsEnd info (.column ctx) := by
            simp only [ReadsRid, SimpleExpr.operands, List.mem_cons, List.not_mem_nil, or_false,
              exists_eq_or_imp, exists_eq_left, hconstant]
          rw [hreads]
          obtain ⟨hend, hinside⟩ := hcolumn ctx col child hcol hchild
          constructor
          · intro h
            simp only [between, hend h, Outcome.error_bind]
          · intro h
            obtain ⟨x, hx, hx'⟩ := hinside h
            simp only [between, hx, hx']

end Conjuncts

section Matching

variable {catalog : Catalog} {txId : TxID} {f : FromClause}
  {likeMatch : List UInt8 → List UInt8 → Bool} {columns : List Column} {values : List Value}

/-- A conjunct is true or false of a row, unless LIKE meets something else than a string. -/
theorem conjunctValue_cases {s : SimpleExpr} (haligned : values.length = columns.length)
    (haccepted : ¬ RejectedConjunct catalog txId f s) (hoperator : s.HasOperator)
    (hpresent : ∀ o ∈ s.operands, Present catalog txId f columns o) :
    (∃ b, s.value catalog txId f likeMatch columns values = .ok (truth b)) ∨
      s.value catalog txId f likeMatch columns values = .error (.assertFailed "is_string()") := by
  have hvalue : ∀ o ∈ s.operands, ∃ v, operandValue catalog txId f columns values o = .ok v :=
    fun o ho => operandValue_ok haligned (fun h => haccepted (.inl ⟨o, ho, h⟩)) (hpresent o ho)
  cases s with
  | comparison lhs rest =>
      cases rest with
      | none => exact hoperator.elim
      | some rest =>
          obtain ⟨op, rhs⟩ := rest
          obtain ⟨a, ha⟩ := hvalue lhs List.mem_cons_self
          obtain ⟨b, hb⟩ := hvalue rhs (List.mem_cons_of_mem _ List.mem_cons_self)
          refine .inl ⟨op.holds a b, ?_⟩
          rw [SimpleExpr.value, ha, hb]
          rfl
  | like ctx pattern =>
      obtain ⟨a, ha⟩ := hvalue (.column ctx) List.mem_cons_self
      simp only [SimpleExpr.value, ha, Outcome.ok_bind]
      cases a with
      | string string => exact .inl ⟨_, rfl⟩
      | int i => exact .inr rfl
      | rid rid => exact .inr rfl
  | between ctx lower upper =>
      obtain ⟨a, ha⟩ := hvalue (.column ctx) List.mem_cons_self
      obtain ⟨lo, hlo⟩ := hvalue (.constant lower) (List.mem_cons_of_mem _ List.mem_cons_self)
      obtain ⟨hi, hhi⟩ := hvalue (.constant upper)
        (List.mem_cons_of_mem _ (List.mem_cons_of_mem _ List.mem_cons_self))
      have hlower : getValue lower = .ok lo := hlo
      have hupper : getValue upper = .ok hi := hhi
      simp only [SimpleExpr.value, ha, hlower, hupper, Outcome.ok_bind]
      exact .inl ⟨_, rfl⟩

end Matching

section Matching

variable {catalog : Catalog} {txId : TxID} {name : Identifier} {info : TableInfo}
  {likeMatch : List UInt8 → List UInt8 → Bool} {vs : List Value} {v : Value}

/-- All conjuncts before one on the RID column hold in the row. -/
def RidReached (catalog : Catalog) (txId : TxID) (name : Identifier) (info : TableInfo)
    (likeMatch : List UInt8 → List UInt8 → Bool) (conjuncts : List SimpleExpr)
    (values : List Value) : Prop :=
  ∃ before s after, conjuncts = before ++ s :: after ∧ ReadsRid info s ∧
    ∀ b ∈ before, b.value catalog txId (.single name) likeMatch (tableColumns info name) values =
      .ok (truth true)

theorem ridReached_cons {s : SimpleExpr} {conjuncts : List SimpleExpr} {values : List Value} :
    RidReached catalog txId name info likeMatch (s :: conjuncts) values ↔ ReadsRid info s ∨
      s.value catalog txId (.single name) likeMatch (tableColumns info name) values =
        .ok (truth true) ∧ RidReached catalog txId name info likeMatch conjuncts values := by
  constructor
  · rintro ⟨before, s', after, heq, hreads, hbefore⟩
    cases before with
    | nil =>
        cases heq
        exact .inl hreads
    | cons b before =>
        cases heq
        obtain ⟨hb, hbefore⟩ := List.forall_mem_cons.mp hbefore
        exact .inr ⟨hb, before, s', after, rfl, hreads, hbefore⟩
  · rintro (hreads | ⟨hs, before, s', after, rfl, hreads, hbefore⟩)
    · exact ⟨[], s, conjuncts, rfl, hreads, fun b hb => nomatch hb⟩
    · exact ⟨s :: before, s', after, rfl, hreads, List.forall_mem_cons.mpr ⟨hs, hbefore⟩⟩

/-- The clause decides the same of a row with and without its RID, unless it gets to the
RID. -/
theorem matchesAll_short (hinfo : catalog.getTableInfo name txId = .ok (some info))
    (hlength : info.columns.length = vs.length + 1) {conjuncts : List SimpleExpr}
    {plans : List ExprPlan} {lowered : List Expr}
    (hplans : conjuncts.mapM (visitSimpleExpr catalog txId (.single name)) = .ok plans)
    (hlowered : plans.mapM (lowerExpr likeMatch (tableColumns info name)) = .ok lowered) :
    matchesAll ⟨vs ++ [v]⟩ lowered ≠ .error pastEnd ∧
      (matchesAll ⟨vs⟩ lowered = matchesAll ⟨vs ++ [v]⟩ lowered ↔
        ¬ RidReached catalog txId name info likeMatch conjuncts (vs ++ [v])) := by
  induction conjuncts generalizing plans lowered with
  | nil =>
      cases hplans
      cases hlowered
      refine ⟨(fun h => nomatch h), iff_of_true rfl ?_⟩
      rintro ⟨before, s, after, heq, _⟩
      cases before <;> cases heq
  | cons s conjuncts ih =>
      rw [Outcome.mapM_cons] at hplans
      obtain ⟨plan, hvisit, hplans⟩ := Outcome.of_bind_ok hplans
      obtain ⟨plans', hplans', hplans⟩ := Outcome.of_bind_ok hplans
      cases hplans
      rw [Outcome.mapM_cons] at hlowered
      obtain ⟨expr, hlower, hlowered⟩ := Outcome.of_bind_ok hlowered
      obtain ⟨lowered', hlowered', hlowered⟩ := Outcome.of_bind_ok hlowered
      cases hlowered
      obtain ⟨hrest, hsame⟩ := ih hplans' hlowered'
      obtain ⟨hoperator, haccepted⟩ := accepted_of_visit (single_known hinfo) hvisit
      have haligned : (vs ++ [v]).length = (tableColumns info name).length := by
        rw [tableColumns, List.length_map, List.length_append, List.length_singleton, hlength]
      obtain ⟨plan', hvisit', _, hpresent, hvalue⟩ :=
        @visitSimpleExpr_ok _ _ _ likeMatch _ _ s haligned haccepted hoperator
      obtain rfl := Except.ok.inj (hvisit.symm.trans hvisit')
      have hcases := @conjunctValue_cases _ _ _ likeMatch _ _ s haligned haccepted hoperator
        (hpresent.mp ⟨expr, hlower⟩)
      rw [← hvalue expr hlower] at hcases
      obtain ⟨hreads, hskips⟩ := @conjunct_short _ _ _ _ likeMatch vs v s plan expr hinfo hlength
        hvisit hlower
      have hfull : matchesAll ⟨vs ++ [v]⟩ (expr :: lowered') ≠ .error pastEnd := by
        unfold matchesAll
        obtain ⟨b, hb⟩ | herror := hcases
        · rw [hb]
          cases b with
          | true => exact hrest
          | false => exact fun h => nomatch h
        · rw [herror]
          intro h
          cases h
      refine ⟨hfull, ?_⟩
      rw [ridReached_cons, ← hvalue expr hlower]
      by_cases hrid : ReadsRid info s
      · refine iff_of_false (fun heq => hfull ?_) fun h => h (.inl hrid)
        rw [← heq, matchesAll, hreads hrid]
        rfl
      · rw [or_iff_right hrid, matchesAll, matchesAll, hskips hrid]
        obtain ⟨b, hb⟩ | herror := hcases
        · rw [hb]
          cases b with
          | true => exact hsame.trans (not_congr (and_iff_right rfl).symm)
          | false => exact iff_of_true rfl fun h => nomatch h.1
        · rw [herror]
          exact iff_of_true rfl fun h => nomatch h.1

end Matching

end Iic3413Db.Query
