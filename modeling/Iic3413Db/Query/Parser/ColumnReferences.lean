/-
  Query/Parser/ColumnReferences.lean --- `get_column` over what a statement is over.

  A SELECT has the plan and the two maps of its FROM list, an UPDATE or a DELETE those of one
  table.  A reference resolves when it throws, or is a column that a scanned table has.
-/
import Iic3413Db.Query.Optimizer.OnConditions
import Iic3413Db.Query.Optimizer.UpdateColumns

set_option autoImplicit false

namespace Iic3413Db.Query

open Iic3413Db.RelationalModel
open Iic3413Db.System (Catalog TableInfo)
open Iic3413Db.Storage (TxID)

/-! ## Scopes -/

mutual

/-- The relations a plan scans, under their aliases. -/
def LogicalPlan.relations : LogicalPlan → List FromTable
  | .relation tableAlias table => [⟨tableAlias, table⟩]
  | .selection child _ | .projection child _ _ _ => child.relations
  | .cartesianProduct children | .join children _ => relationsOf children
  | .leftOuterJoin _ lchild rchild _ | .fullOuterJoin _ lchild rchild _ =>
      lchild.relations ++ rchild.relations

/-- The relations of the children of a product or a join. -/
def relationsOf : List LogicalPlan → List FromTable
  | [] => []
  | plan :: plans => plan.relations ++ relationsOf plans

end

/-- The table of an item that is no join. -/
def TableListItem.named : TableListItem → Option FromTable
  | .table name asAlias => some ⟨asAlias.getD name, name⟩
  | .leftOuterJoin _ _ _ _ | .fullOuterJoin _ _ _ _ => none

/-- What a statement is over: its plan below WHERE, the maps its references are resolved in, and
the tables that are no input of an outer join. -/
inductive Scope (catalog : Catalog) (txId : TxID) :
    LogicalPlan → FromClause → List FromTable → Prop
  /-- a FROM list -/
  | select {first : TableListItem} {others : List TableListItem} {plan : LogicalPlan}
      {f : FromClause} (h : visitTableList catalog txId first others = .ok (plan, f)) :
      Scope catalog txId plan f ((first :: others).filterMap TableListItem.named)
  /-- the table of an UPDATE or a DELETE -/
  | single {table : Identifier} {info : TableInfo}
      (h : catalog.getTableInfo table txId = .ok (some info)) :
      Scope catalog txId (.relation table table) (.single table) [⟨table, table⟩]

/-- The table has a column of the name. -/
def FromTable.Has (catalog : Catalog) (txId : TxID) (t : FromTable) (name : Identifier) : Prop :=
  ∃ info, catalog.getTableInfo t.table txId = .ok (some info) ∧ hasColumn info name = true

/-- The column is one of a scanned table. -/
structure ResolvesTo (catalog : Catalog) (txId : TxID) (plan : LogicalPlan)
    (tables : List FromTable) (ctx : ColumnContext) (col : Column) : Prop where
  name : col.info.name = ctx.name
  column : ∃ info, catalog.getTableInfo col.table txId = .ok (some info) ∧
    ∃ c ∈ info.columns, c.name = ctx.name ∧ c.datatype = col.info.datatype
  scanned : ⟨col.tableAlias, col.table⟩ ∈ plan.relations
  only : ctx.qualifier = none → ∃! t, t ∈ tables ∧ t.tableAlias = t.table ∧
    t.Has catalog txId ctx.name

/-- A `QueryException`, or a column. -/
def Resolved (catalog : Catalog) (txId : TxID) (plan : LogicalPlan) (f : FromClause)
    (tables : List FromTable) (ctx : ColumnContext) : Prop :=
  (∃ msg, getColumn catalog txId f ctx = .error (.queryException msg)) ∨
    ∃ col, getColumn catalog txId f ctx = .ok col ∧ ResolvesTo catalog txId plan tables ctx col

/-- A table that the reference names by its alias has the column. -/
def Declared (catalog : Catalog) (txId : TxID) (f : FromClause) (tables : List FromTable)
    (ctx : ColumnContext) : Prop :=
  ∀ t ∈ tables, ctx.qualifier = some t.tableAlias → f.findOuterJoin t.tableAlias = none →
    t.Has catalog txId ctx.name

section References

variable {catalog : Catalog} {txId : TxID} {f f' : FromClause} {plan : LogicalPlan}
  {tables : List FromTable} {ctx : ColumnContext}

/-! ## The maps of a FROM list -/

/-- What items add to the maps is in their plans. -/
structure FromAdds (f f' : FromClause) (added scans : List FromTable) : Prop where
  tables : ∀ t, t ∈ f'.tables.entries ↔ t ∈ f.tables.entries ∨ t ∈ added
  scanned : ∀ t ∈ added, t ∈ scans
  inputs : ∀ j ∈ f'.outerJoins.entries, j ∈ f.outerJoins.entries ∨
    (⟨j.tableAlias, j.left⟩ ∈ scans ∧ ⟨j.tableAlias, j.right⟩ ∈ scans)

theorem relationsOf_eq (plans : List LogicalPlan) :
    relationsOf plans = plans.flatMap LogicalPlan.relations := by
  induction plans with
  | nil => rfl
  | cons plan plans ih => rw [relationsOf, ih, List.flatMap_cons]

theorem findTable_none {tableAlias : Identifier} (h : f.findTable tableAlias = none) :
    ∀ t ∈ f.tables.entries, nameOrder t.tableAlias ≠ nameOrder tableAlias := by
  intro t ht heq
  have hnot := List.find?_eq_none.mp h t ht
  exact hnot (decide_eq_true (nameOrder_injective heq))

theorem visitOuterJoin_adds {left right tableAlias : Identifier}
    {on : List (ColumnContext × ColumnContext)} {joins : List (Column × Column)}
    (h : visitOuterJoin catalog txId f left right tableAlias on = .ok (joins, f')) :
    FromAdds f f' [] [⟨tableAlias, left⟩, ⟨tableAlias, right⟩] := by
  obtain ⟨_, _, h⟩ := Outcome.of_bind_ok h
  obtain ⟨_, _, h⟩ := Outcome.of_bind_ok h
  split at h
  · cases h
  · obtain ⟨columns, _, h⟩ := Outcome.of_bind_ok h
    split at h
    · cases h
    · cases h
      refine ⟨fun t => by simp, fun t ht => (nomatch ht), fun j hj => ?_⟩
      rcases Foundation.KeyedMap.mem_insert.mp hj with hj | ⟨rfl, _⟩
      · exact .inl hj
      · exact .inr ⟨by simp, by simp⟩

theorem visitTableListItem_adds {item : TableListItem}
    (h : visitTableListItem catalog txId f item = .ok (plan, f')) :
    FromAdds f f' item.named.toList plan.relations := by
  cases item with
  | table name asAlias =>
      obtain ⟨_, _, h⟩ := Outcome.of_bind_ok h
      dsimp only at h
      split at h
      · cases h
      · rename_i hnone
        cases h
        refine ⟨fun t => ?_, fun t ht => ?_, fun j hj => .inl hj⟩
        · rw [Foundation.KeyedMap.mem_insert, and_iff_left (findTable_none hnone)]
          simp [TableListItem.named]
        · simpa [TableListItem.named, LogicalPlan.relations, eq_comm] using ht
  | leftOuterJoin left right tableAlias on | fullOuterJoin left right tableAlias on =>
      obtain ⟨⟨joins, f''⟩, hjoin, h⟩ := Outcome.of_bind_ok h
      cases h
      exact visitOuterJoin_adds hjoin

theorem FromAdds.append {f'' : FromClause} {added added' scans scans' : List FromTable}
    (h : FromAdds f f' added scans) (h' : FromAdds f' f'' added' scans') :
    FromAdds f f'' (added ++ added') (scans ++ scans') where
  tables t := by rw [h'.tables, h.tables, List.mem_append, or_assoc]
  scanned t ht := by
    rcases List.mem_append.mp ht with ht | ht
    · exact List.mem_append_left _ (h.scanned t ht)
    · exact List.mem_append_right _ (h'.scanned t ht)
  inputs j hj := by
    rcases h'.inputs j hj with hj | ⟨hl, hr⟩
    · rcases h.inputs j hj with hj | ⟨hl, hr⟩
      · exact .inl hj
      · exact .inr ⟨List.mem_append_left _ hl, List.mem_append_left _ hr⟩
    · exact .inr ⟨List.mem_append_right _ hl, List.mem_append_right _ hr⟩

theorem visitTableListItems_adds {items : List TableListItem} {plans : List LogicalPlan}
    (h : visitTableListItems catalog txId f items = .ok (plans, f')) :
    FromAdds f f' (items.filterMap TableListItem.named) (relationsOf plans) := by
  induction items generalizing f plans with
  | nil =>
      cases h
      exact ⟨fun t => by simp, fun t ht => (nomatch ht), fun j hj => .inl hj⟩
  | cons item items ih =>
      obtain ⟨⟨plan, f₁⟩, hitem, h⟩ := Outcome.of_bind_ok h
      obtain ⟨⟨plans, f₂⟩, hitems, h⟩ := Outcome.of_bind_ok h
      cases h
      have hnamed : (item :: items).filterMap TableListItem.named =
          item.named.toList ++ items.filterMap TableListItem.named := by
        cases hn : item.named <;> simp [hn]
      rw [hnamed]
      exact (visitTableListItem_adds hitem).append (ih hitems)

theorem visitTableList_adds {first : TableListItem} {others : List TableListItem}
    (h : visitTableList catalog txId first others = .ok (plan, f')) :
    FromAdds .empty f' ((first :: others).filterMap TableListItem.named) plan.relations := by
  unfold visitTableList at h
  split at h
  · rename_i hnil
    obtain rfl := List.isEmpty_iff.mp hnil
    have hnamed : [first].filterMap TableListItem.named = first.named.toList := by
      cases hn : first.named <;> simp [hn]
    rw [hnamed]
    exact visitTableListItem_adds h
  · obtain ⟨⟨plans, f₁⟩, hitems, h⟩ := Outcome.of_bind_ok h
    cases h
    exact visitTableListItems_adds hitems

theorem Scope.known (h : Scope catalog txId plan f tables) : f.Known catalog txId := by
  cases h with
  | select h => exact visitTableList_known h
  | single h => exact single_known h

theorem Scope.mem_tables (h : Scope catalog txId plan f tables) (t : FromTable) :
    t ∈ f.tables.entries ↔ t ∈ tables := by
  cases h with
  | select h =>
      rw [(visitTableList_adds h).tables]
      exact or_iff_right fun ht => nomatch ht
  | single h => rw [single_entries]

theorem Scope.scanned (h : Scope catalog txId plan f tables) {t : FromTable} (ht : t ∈ tables) :
    t ∈ plan.relations := by
  cases h with
  | select h => exact (visitTableList_adds h).scanned t ht
  | single h => exact ht

theorem Scope.inputs (h : Scope catalog txId plan f tables) {j : FromOuterJoin}
    (hj : j ∈ f.outerJoins.entries) :
    ⟨j.tableAlias, j.left⟩ ∈ plan.relations ∧ ⟨j.tableAlias, j.right⟩ ∈ plan.relations := by
  cases h with
  | select h => exact ((visitTableList_adds h).inputs j hj).resolve_left fun hj => nomatch hj
  | single h => nomatch hj

/-! ## Resolution -/

theorem tableInfo_known {table : Identifier} {info : TableInfo}
    (h : tableInfo catalog txId table = .ok info) :
    catalog.getTableInfo table txId = .ok (some info) := by
  unfold tableInfo at h
  obtain ⟨found, hfound, h⟩ := Outcome.of_bind_ok h
  cases found with
  | none => cases h
  | some _ =>
      cases h
      exact hfound

theorem has_iff {t : FromTable} {info : TableInfo} {name : Identifier}
    (h : tableInfo catalog txId t.table = .ok info) :
    t.Has catalog txId name ↔ hasColumn info name = true := by
  have hinfo := tableInfo_known h
  constructor
  · rintro ⟨info', hinfo', hhas⟩
    rw [hinfo] at hinfo'
    cases hinfo'
    exact hhas
  · exact fun hhas => ⟨info, hinfo, hhas⟩

/-- The column made of a table that has it. -/
theorem columnOf_column {table tableAlias name : Identifier} {info : TableInfo}
    (h : tableInfo catalog txId table = .ok info) (hhas : hasColumn info name = true) :
    ∃ info', catalog.getTableInfo (columnOf tableAlias table info name).table txId =
        .ok (some info') ∧
      ∃ c ∈ info'.columns, c.name = name ∧
        c.datatype = (columnOf tableAlias table info name).info.datatype :=
  ⟨info, tableInfo_known h, datatypeOf_mem hhas⟩

/-- An unaliased table that has the column. -/
def Candidate (catalog : Catalog) (txId : TxID) (name : Identifier) (t : FromTable) : Prop :=
  t.tableAlias = t.table ∧ t.Has catalog txId name

theorem filter_nil_iff {info : TableInfo} {name : Identifier} :
    (info.columns.filter fun col => decide (col.name = name)) = [] ↔
      hasColumn info name = false := by
  rw [hasColumn, List.filter_eq_nil_iff, List.any_eq_false]

/-- What one turn of the loop does with a table. -/
theorem inferTable_cons {t : FromTable} {ts : List FromTable} {name : Identifier}
    {found : Option Identifier}
    (hknown : ∃ info, tableInfo catalog txId t.table = .ok info) :
    (¬ Candidate catalog txId name t ∧ inferTable catalog txId name found (t :: ts) =
        inferTable catalog txId name found ts) ∨
      Candidate catalog txId name t ∧
        ((∃ msg, inferTable catalog txId name found (t :: ts) = .error (.queryException msg)) ∨
          found = none ∧ inferTable catalog txId name found (t :: ts) =
            inferTable catalog txId name (some t.table) ts) := by
  obtain ⟨info, hinfo⟩ := hknown
  simp only [inferTable, hinfo, Outcome.ok_bind]
  by_cases halias : t.tableAlias = t.table
  · rw [if_neg (not_not.mpr halias), Candidate, has_iff hinfo, and_iff_right halias]
    cases hcols : info.columns.filter fun col => decide (col.name = name) with
    | nil =>
        refine .inl ⟨?_, rfl⟩
        rw [filter_nil_iff.mp hcols]
        decide
    | cons c cs =>
        have hhas : hasColumn info name = true := by
          rw [← Bool.not_eq_false, ← filter_nil_iff, hcols]
          exact List.cons_ne_nil c cs
        refine .inr ⟨hhas, ?_⟩
        cases cs with
        | nil =>
            cases found with
            | none => exact .inr ⟨rfl, rfl⟩
            | some table => exact .inl ⟨_, rfl⟩
        | cons d ds =>
            cases found with
            | none => exact .inl ⟨_, rfl⟩
            | some table => exact .inl ⟨_, rfl⟩
  · rw [if_pos halias]
    exact .inl ⟨fun h => halias h.1, rfl⟩

/-- The loop throws, or ends with the table found before it and meets no other. -/
theorem inferTable_found {ts : List FromTable} {name table : Identifier}
    (hknown : ∀ t ∈ ts, ∃ info, tableInfo catalog txId t.table = .ok info) :
    (∃ msg, inferTable catalog txId name (some table) ts = .error (.queryException msg)) ∨
      inferTable catalog txId name (some table) ts = .ok (some table) ∧
        ∀ t ∈ ts, ¬ Candidate catalog txId name t := by
  induction ts with
  | nil => exact .inr ⟨rfl, fun t ht => nomatch ht⟩
  | cons t ts ih =>
      obtain ⟨ht, hts⟩ := List.forall_mem_cons.mp hknown
      rcases inferTable_cons ht with ⟨hnot, hturn⟩ | ⟨_, hthrows | ⟨hnone, _⟩⟩
      · rw [hturn]
        exact (ih hts).imp_right fun h => ⟨h.1, List.forall_mem_cons.mpr ⟨hnot, h.2⟩⟩
      · exact .inl hthrows
      · cases hnone

/-- The loop throws, or finds the only candidate, or there is none. -/
theorem inferTable_cases {ts : List FromTable} {name : Identifier}
    (hknown : ∀ t ∈ ts, ∃ info, tableInfo catalog txId t.table = .ok info) :
    (∃ msg, inferTable catalog txId name none ts = .error (.queryException msg)) ∨
      inferTable catalog txId name none ts = .ok none ∨
      ∃ t ∈ ts, inferTable catalog txId name none ts = .ok (some t.table) ∧
        Candidate catalog txId name t ∧ ∀ u ∈ ts, Candidate catalog txId name u → u = t := by
  induction ts with
  | nil => exact .inr (.inl rfl)
  | cons t ts ih =>
      obtain ⟨ht, hts⟩ := List.forall_mem_cons.mp hknown
      rcases inferTable_cons ht with ⟨hnot, hturn⟩ | ⟨hcandidate, hthrows | ⟨_, hturn⟩⟩
      · rw [hturn]
        rcases ih hts with hthrows | hnone | ⟨u, hu, hfound, hcandidate, honly⟩
        · exact .inl hthrows
        · exact .inr (.inl hnone)
        · refine .inr (.inr ⟨u, List.mem_cons_of_mem t hu, hfound, hcandidate, ?_⟩)
          exact List.forall_mem_cons.mpr ⟨fun h => absurd h hnot, honly⟩
      · exact .inl hthrows
      · rw [hturn]
        rcases inferTable_found hts with hthrows | ⟨hfound, hnone⟩
        · exact .inl hthrows
        · refine .inr (.inr ⟨t, List.mem_cons_self, hfound, hcandidate, ?_⟩)
          exact List.forall_mem_cons.mpr ⟨fun _ => rfl, fun u hu h => absurd h (hnone u hu)⟩

/-- Without an alias, a reference resolves. -/
theorem unqualified_resolved (h : Scope catalog txId plan f tables) {name : Identifier} :
    Resolved catalog txId plan f tables ⟨none, name⟩ := by
  simp only [Resolved, getColumn]
  rcases inferTable_cases h.known.1 with ⟨msg, hthrows⟩ | hnone | ⟨t, ht, hfound, hcandidate, honly⟩
  · rw [hthrows, Outcome.error_bind]
    exact .inl ⟨msg, rfl⟩
  · rw [hnone, Outcome.ok_bind]
    exact .inl ⟨_, rfl⟩
  · obtain ⟨info, hinfo⟩ := h.known.1 t ht
    obtain ⟨halias, hhas⟩ := hcandidate
    have hhas' := (has_iff hinfo).mp hhas
    rw [hfound, Outcome.ok_bind]
    dsimp only
    rw [hinfo, Outcome.ok_bind]
    have htables := (h.mem_tables t).mp ht
    refine .inr ⟨_, rfl, rfl, columnOf_column hinfo hhas', ?_, fun _ => ?_⟩
    · have hscanned := h.scanned htables
      have heq : t = ⟨t.table, t.table⟩ := by
        cases t
        cases halias
        rfl
      rwa [heq] at hscanned
    · refine ⟨t, ⟨htables, halias, hhas⟩, fun u ⟨hu, hualias, huhas⟩ => ?_⟩
      exact honly u ((h.mem_tables u).mpr hu) ⟨hualias, huhas⟩

theorem findTable_some {tableAlias : Identifier} {t : FromTable}
    (h : f.findTable tableAlias = some t) : t ∈ f.tables.entries ∧ t.tableAlias = tableAlias := by
  have halias := List.find?_some h
  exact ⟨List.mem_of_find?_eq_some h, of_decide_eq_true halias⟩

theorem findOuterJoin_some {tableAlias : Identifier} {j : FromOuterJoin}
    (h : f.findOuterJoin tableAlias = some j) :
    j ∈ f.outerJoins.entries ∧ j.tableAlias = tableAlias := by
  have halias := List.find?_some h
  exact ⟨List.mem_of_find?_eq_some h, of_decide_eq_true halias⟩

/-- Two tables with one alias are one table. -/
theorem Scope.alias_inj (h : Scope catalog txId plan f tables) {t u : FromTable} (ht : t ∈ tables)
    (hu : u ∈ tables) (halias : t.tableAlias = u.tableAlias) : t = u :=
  List.inj_on_of_nodup_map f.tables.nodup_keys ((h.mem_tables t).mpr ht) ((h.mem_tables u).mpr hu)
    (congrArg nameOrder halias)

/-- A reference to an outer join resolves. -/
theorem joined_resolved (h : Scope catalog txId plan f tables) {tableAlias name : Identifier}
    {j : FromOuterJoin} (hj : f.findOuterJoin tableAlias = some j) :
    Resolved catalog txId plan f tables ⟨some tableAlias, name⟩ := by
  obtain ⟨hmem, rfl⟩ := findOuterJoin_some hj
  obtain ⟨⟨left, hleft⟩, right, hright⟩ := h.known.2 j hmem
  obtain ⟨hscanL, hscanR⟩ := h.inputs hmem
  simp only [Resolved, getColumn, getQualifiedColumn, hj, hleft, hright, Outcome.ok_bind]
  split
  · rename_i hhas
    exact .inr ⟨_, rfl, rfl, columnOf_column hleft hhas, hscanL, fun hnone => nomatch hnone⟩
  · split
    · rename_i hhas
      exact .inr ⟨_, rfl, rfl, columnOf_column hright hhas, hscanR, fun hnone => nomatch hnone⟩
    · exact .inl ⟨_, rfl⟩

/-- A reference to a table resolves when the table has the column. -/
theorem table_resolved_iff (h : Scope catalog txId plan f tables) {name : Identifier}
    {t : FromTable} (hnone : f.findOuterJoin t.tableAlias = none)
    (hfind : f.findTable t.tableAlias = some t) :
    Resolved catalog txId plan f tables ⟨some t.tableAlias, name⟩ ↔ t.Has catalog txId name := by
  have hmem := (findTable_some hfind).1
  obtain ⟨info, hinfo⟩ := h.known.1 t hmem
  rw [has_iff hinfo]
  simp only [Resolved, getColumn, getQualifiedColumn, hnone, hfind, hinfo, Outcome.ok_bind]
  constructor
  · rintro (⟨msg, herror⟩ | ⟨col, hcol, hres⟩)
    · cases herror
    · cases hcol
      obtain ⟨info', hinfo', c, hc, hname, _⟩ := hres.column
      rw [show (columnOf t.tableAlias t.table info name).table = t.table from rfl,
        tableInfo_known hinfo] at hinfo'
      cases hinfo'
      exact List.any_eq_true.mpr ⟨c, hc, decide_eq_true hname⟩
  · intro hhas
    exact .inr ⟨_, rfl, rfl, columnOf_column hinfo hhas, h.scanned ((h.mem_tables t).mp hmem),
      fun hnone => nomatch hnone⟩

/-- With an alias, a reference resolves unless it names a table without the column. -/
theorem qualified_resolved_iff (h : Scope catalog txId plan f tables)
    {tableAlias name : Identifier} :
    Resolved catalog txId plan f tables ⟨some tableAlias, name⟩ ↔
      Declared catalog txId f tables ⟨some tableAlias, name⟩ := by
  cases hj : f.findOuterJoin tableAlias with
  | some j =>
      refine iff_of_true (joined_resolved h hj) fun t _ halias hnone => ?_
      obtain rfl := Option.some.inj halias
      rw [hj] at hnone
      cases hnone
  | none =>
      cases hfind : f.findTable tableAlias with
      | none =>
          refine iff_of_true (.inl ⟨s!"Table {System.Catalog.text tableAlias}, not present in FROM",
            ?_⟩) fun t ht halias _ => ?_
          · simp only [getColumn, getQualifiedColumn, hj, hfind]
          · obtain rfl := Option.some.inj halias
            exact absurd rfl (findTable_none hfind t ((h.mem_tables t).mpr ht))
      | some t =>
          obtain ⟨hmem, rfl⟩ := findTable_some hfind
          rw [table_resolved_iff h hj hfind]
          have ht := (h.mem_tables t).mp hmem
          refine ⟨fun hhas u hu halias _ => ?_, fun hdeclared => hdeclared t ht rfl hj⟩
          obtain rfl := h.alias_inj ht hu (Option.some.inj halias)
          exact hhas

/-- `get_column` resolves what it accepts, unless the alias is of a table without the column. -/
theorem getColumn_resolves_iff (h : Scope catalog txId plan f tables) (ctx : ColumnContext) :
    Resolved catalog txId plan f tables ctx ↔ Declared catalog txId f tables ctx := by
  obtain ⟨qualifier, name⟩ := ctx
  cases qualifier with
  | none => exact iff_of_true (unqualified_resolved h) fun t _ hnone => nomatch hnone
  | some tableAlias => exact qualified_resolved_iff h

end References

/-! ## The tables `l` and `r` -/

/-- `FROM l, r AS s`. -/
theorem scope_two : Scope twoTables 1
    (.cartesianProduct [.relation [108] [108], .relation [115] [114]])
    { FromClause.single [108] with
      tables := (FromClause.single [108]).tables.insert ⟨[115], [114]⟩ }
    [⟨[108], [108]⟩, ⟨[115], [114]⟩] :=
  @Scope.select twoTables 1 (.table [108] none) [.table [114] (some [115])] _ _ (by rfl)

/-- `s.y` is a column of `r`. -/
theorem getColumn_resolves_iff_aliased :
    Resolved twoTables 1 (.cartesianProduct [.relation [108] [108], .relation [115] [114]])
        { FromClause.single [108] with
          tables := (FromClause.single [108]).tables.insert ⟨[115], [114]⟩ }
        [⟨[108], [108]⟩, ⟨[115], [114]⟩] ⟨some [115], [121]⟩ ↔
      Declared twoTables 1
        { FromClause.single [108] with
          tables := (FromClause.single [108]).tables.insert ⟨[115], [114]⟩ }
        [⟨[108], [108]⟩, ⟨[115], [114]⟩] ⟨some [115], [121]⟩ :=
  getColumn_resolves_iff scope_two ⟨some [115], [121]⟩

/-- `l.y` is accepted, but `l` has no column `y`. -/
theorem missing_column_accepted : ∃ plan f col,
    visitTableList twoTables 1 (.table [108] none) [] = .ok (plan, f) ∧
      getColumn twoTables 1 f ⟨some [108], [121]⟩ = .ok col ∧ col.info.datatype = .invalid ∧
      ¬ Resolved twoTables 1 plan f [⟨[108], [108]⟩] ⟨some [108], [121]⟩ := by
  refine ⟨_, _, ⟨[108], [108], ⟨[121], .invalid, 0⟩⟩, rfl, rfl, rfl, ?_⟩
  rintro (⟨msg, herror⟩ | ⟨col, hcol, hres⟩)
  · cases herror
  · cases hcol
    obtain ⟨info, hinfo, c, hc, hname, _⟩ := hres.column
    cases hinfo
    simp [leftTable] at hc
    rcases hc with rfl | rfl | rfl <;> cases hname

end Iic3413Db.Query
