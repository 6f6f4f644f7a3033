/-
  Query/Optimizer/OnConditions.lean --- the ON list of an outer join, from the
  parse tree to the `equalities` of the iterator.

  The preprocessor resolves each column of the list by the table it names, and the
  optimizer looks for it again, by name and datatype, in the input on the side that
  the swap test picks.  `writtenEquality` is what a pair says: the positions of its
  two columns in the schemas, when it names one column of each input.
-/
import Iic3413Db.Foundation.Outcomes
import Iic3413Db.Query.Optimizer.Optimizer
import Iic3413Db.Query.Parser.QueryPreprocessor

set_option autoImplicit false

namespace Iic3413Db.Query

open Iic3413Db.RelationalModel
open Iic3413Db.System (Catalog TableColumn TableId TableInfo)
open Iic3413Db.System.Catalog (normalize)
open Iic3413Db.Storage (TxID)

/-! ## What a pair says -/

/-- The table has this name, in some letter case. -/
def NamesTable (info : TableInfo) (name : Identifier) : Prop := normalize name = .ok info.name

instance (info : TableInfo) (name : Identifier) : Decidable (NamesTable info name) :=
  inferInstanceAs (Decidable (normalize name = .ok info.name))

/-- The column is one of the table. -/
def OfTable (info : TableInfo) (ctx : ColumnContext) : Prop := ∃ q, ctx.qualifier = some q ∧
  NamesTable info q

instance (info : TableInfo) (ctx : ColumnContext) : Decidable (OfTable info ctx) :=
  match h : ctx.qualifier with
  | none => .isFalse fun ⟨_, hq, _⟩ => by rw [h] at hq; cases hq
  | some q =>
      if hq : NamesTable info q then .isTrue ⟨q, h, hq⟩
      else .isFalse fun ⟨p, hp, hnames⟩ => by
        rw [h] at hp
        cases hp
        exact hq hnames

/-- The position of the column the preprocessor resolves a name to. -/
def schemaPosition (info : TableInfo) (columnName : Identifier) : Option Nat :=
  info.columns.findIdx? fun col =>
    col.name = columnName ∧ col.datatype = datatypeOf info columnName

/-- The two columns of a pair, the one of the left table first. -/
def writtenEquality (left right : TableInfo) (p : ColumnContext × ColumnContext) :
    Option (Nat × Nat) :=
  if OfTable left p.1 ∧ OfTable right p.2 then
    bothFound (schemaPosition left p.1.name) (schemaPosition right p.2.name)
  else if OfTable right p.1 ∧ OfTable left p.2 then
    bothFound (schemaPosition left p.2.name) (schemaPosition right p.1.name)
  else none

/-- Where the swap test and the search by name do what the pair says: the left column
first, or the right table's name as it is written in the join, or one name for both
columns. -/
def PairFits (left right : TableInfo) (rightName : Identifier)
    (p : ColumnContext × ColumnContext) : Prop :=
  OfTable left p.1 ∧ OfTable right p.2 ∨
    OfTable right p.1 ∧ OfTable left p.2 ∧
      (p.1.qualifier = some rightName ∨ p.1.name = p.2.name)

/-! ## The inputs -/

/-- An input of an outer join: its table, and the expressions pushed down to it. -/
structure OuterInput where
  table : Identifier
  pushed : Option (List ExprPlan)

namespace OuterInput

/-- The plan of an input. -/
def plan (input : OuterInput) (tableAlias : Identifier) : LogicalPlan :=
  match input.pushed with
  | none => .relation tableAlias input.table
  | some expressions => .selection (.relation tableAlias input.table) expressions

/-- The counters of an input. -/
def usage (input : OuterInput) (counted : ColumnUsage) : ColumnUsage :=
  match input.pushed with
  | none => counted
  | some expressions => counted.addColumns (expressions.flatMap ExprPlan.getColumns)

end OuterInput

/-- The positions of the columns of a table, or of a selection over one, in the
schema. -/
def schemaPositions : QueryIter → List Nat
  | .relation _ projected => projected.map ProjectedColumn.pos
  | .selection child _ => schemaPositions child
  | _ => []

/-- The columns an equality compares. -/
def comparedColumns (lhs rhs : QueryIter) (eq : Nat × Nat) : Option (Nat × Nat) :=
  bothFound (schemaPositions lhs)[eq.1]? (schemaPositions rhs)[eq.2]?

section Counters

variable {usage : ColumnUsage} {columns : List Column} {k : ColumnKey}

theorem addColumns_apply (usage : ColumnUsage) (columns : List Column) (k : ColumnKey) :
    usage.addColumns columns k = usage k + (columns.map Column.key).count k := by
  induction columns generalizing usage with
  | nil => rfl
  | cons c cs ih =>
      have hstep : usage.addColumns (c :: cs) = (usage.add c).addColumns cs := rfl
      have hkeys : (c :: cs).map Column.key = [c.key] ++ cs.map Column.key := rfl
      rw [hstep, ih, ColumnUsage.add_apply, hkeys, List.count_append, Nat.add_assoc]

theorem le_addColumns (usage : ColumnUsage) (columns : List Column) (k : ColumnKey) :
    usage k ≤ usage.addColumns columns k := by
  rw [addColumns_apply]
  exact Nat.le_add_right _ _

theorem keeps_addColumns :
    (usage.addColumns columns).keeps k = true ↔
      usage.keeps k = true ∨ ∃ c ∈ columns, c.key = k := by
  rw [ColumnUsage.keeps, ColumnUsage.keeps, decide_eq_true_iff, decide_eq_true_iff,
    addColumns_apply, Nat.add_pos_iff_pos_or_pos, List.count_pos_iff, List.mem_map]

theorem OuterInput.le_usage (input : OuterInput) (counted : ColumnUsage) (k : ColumnKey) :
    counted k ≤ input.usage counted k := by
  obtain ⟨table, pushed⟩ := input
  cases pushed with
  | none => exact le_rfl
  | some expressions => exact le_addColumns _ _ _

theorem keeps_mono {usage usage' : ColumnUsage} (h : ∀ k, usage k ≤ usage' k)
    (hk : usage.keeps k = true) : usage'.keeps k = true :=
  decide_eq_true (Nat.lt_of_lt_of_le (of_decide_eq_true hk) (h k))

end Counters

section Tables

variable {usage : ColumnUsage} {tableAlias table : List UInt8} {cols : List TableColumn}
  {ps : List ProjectedColumn}

/-- A column in use is found where it first stands in the schema. -/
theorem relationColumnsFrom_find {pos : Nat} (n : Identifier) (d : DataType) (id : TableId)
    (h : relationColumnsFrom usage tableAlias table pos cols = .ok ps)
    (hused : usage.keeps (tableAlias, n) = true) :
    ((findInfo (ps.map ProjectedColumn.col) ⟨n, d, id⟩).bind
        fun k => (ps.map ProjectedColumn.pos)[k]?) =
      (cols.findIdx? fun col => col.name = n ∧ col.datatype = d).map (pos + ·) := by
  induction cols generalizing pos ps with
  | nil =>
      cases h
      rfl
  | cons col cols ih =>
      simp only [relationColumnsFrom] at h
      have hshift : ∀ o : Option Nat, (o.map (· + 1)).map (pos + ·) = o.map (pos + 1 + ·) := by
        rintro (_ | i)
        · rfl
        · simp only [Option.map_some, Option.some.injEq]
          omega
      split at h
      · obtain ⟨rest, hrest, h⟩ := Outcome.of_bind_ok h
        cases h
        rw [List.findIdx?_cons, List.map_cons, findInfo, List.findIdx?_cons]
        by_cases hcol : col.name = n ∧ col.datatype = d
        · simp [hcol]
        · simp only [hcol, decide_false, Bool.false_eq_true, if_false]
          rw [hshift, ← ih hrest, findInfo]
          cases List.findIdx? _ (rest.map ProjectedColumn.col) with
          | none => rfl
          | some k => rfl
      · rename_i hunused
        have hname : ¬ (col.name = n ∧ col.datatype = d) := by
          rintro ⟨rfl, _⟩
          exact hunused hused
        rw [List.findIdx?_cons]
        simp only [hname, decide_false, Bool.false_eq_true, if_false]
        split at h
        · rename_i hempty
          obtain rfl := List.isEmpty_iff.mp hempty
          split at h
          · cases h
            simp [findInfo, hname]
          · cases h
        · rw [hshift]
          exact ih h

end Tables

section Inputs

variable {catalog : Catalog} {txId : TxID} {scans : TableId → Nat → List Record}
  {likeMatch : List UInt8 → List UInt8 → Bool}
  {joinOrder : List LogicalPlan → List JoinPair → List Nat}
  {usage counted : ColumnUsage} {tableAlias : List UInt8} {input : OuterInput} {info : TableInfo}
  {it : QueryIter}

/-- The iterator of an input has the columns of its table. -/
theorem input_columns
    (h : visitPlan catalog txId scans likeMatch joinOrder counted (input.plan tableAlias) = .ok it)
    (hinfo : catalog.getTableInfo input.table txId = .ok (some info)) :
    ∃ ps, relationColumnsFrom (input.usage counted) tableAlias input.table 0 info.columns =
        .ok ps ∧
      it.getColumns = ps.map ProjectedColumn.col ∧
        schemaPositions it = ps.map ProjectedColumn.pos := by
  have hrelation : ∀ {usage it}, visitRelation catalog txId scans usage tableAlias input.table =
      .ok it → ∃ ps, relationColumnsFrom usage tableAlias input.table 0 info.columns = .ok ps ∧
        it.getColumns = ps.map ProjectedColumn.col ∧
          schemaPositions it = ps.map ProjectedColumn.pos := by
    intro usage it h
    simp only [visitRelation, hinfo, Outcome.ok_bind] at h
    obtain ⟨ps, hps, h⟩ := Outcome.of_bind_ok h
    cases h
    exact ⟨ps, hps, rfl, rfl⟩
  obtain ⟨table, pushed⟩ := input
  cases pushed with
  | none => exact hrelation h
  | some expressions =>
      simp only [OuterInput.plan, visitPlan] at h
      obtain ⟨child, hchild, h⟩ := Outcome.of_bind_ok h
      obtain ⟨lowered, _, h⟩ := Outcome.of_bind_ok h
      obtain ⟨ps, hps, hcolumns, hpositions⟩ := hrelation hchild
      cases h
      refine ⟨ps, hps, ?_⟩
      split
      · exact ⟨hcolumns, hpositions⟩
      · exact ⟨hcolumns, hpositions⟩

theorem relationColumnsFrom_table {pos : Nat} {cols : List TableColumn} {table : List UInt8}
    {ps : List ProjectedColumn}
    (h : relationColumnsFrom usage tableAlias table pos cols = .ok ps) :
    (∀ c ∈ ps, c.col.tableAlias = tableAlias ∧ c.col.table = table) ∧ (cols ≠ [] → ps ≠ []) := by
  induction cols generalizing pos ps with
  | nil =>
      cases h
      exact ⟨fun c hc => (nomatch hc), fun h => absurd rfl h⟩
  | cons col cols ih =>
      simp only [relationColumnsFrom] at h
      split at h
      · obtain ⟨rest, hrest, h⟩ := Outcome.of_bind_ok h
        cases h
        refine ⟨fun c hc => ?_, fun _ h => nomatch h⟩
        rcases List.mem_cons.mp hc with rfl | hc
        · exact ⟨rfl, rfl⟩
        · exact (ih hrest).1 c hc
      · split at h
        · split at h
          · cases h
            refine ⟨fun c hc => ?_, fun _ h => nomatch h⟩
            obtain rfl := List.mem_singleton.mp hc
            exact ⟨rfl, rfl⟩
          · cases h
        · rename_i hcols
          obtain ⟨htable, hne⟩ := ih h
          refine ⟨htable, fun _ => hne ?_⟩
          rintro rfl
          exact hcols rfl

/-- What the search of an input finds, as a position in the schema. -/
theorem input_find {n : Identifier} {d : DataType} {id : TableId}
    (h : visitPlan catalog txId scans likeMatch joinOrder counted (input.plan tableAlias) = .ok it)
    (hinfo : catalog.getTableInfo input.table txId = .ok (some info))
    (hused : counted.keeps (tableAlias, n) = true) :
    ((findInfo it.getColumns ⟨n, d, id⟩).bind fun k => (schemaPositions it)[k]?) =
      info.columns.findIdx? fun col => col.name = n ∧ col.datatype = d := by
  obtain ⟨ps, hps, hcolumns, hpositions⟩ := input_columns h hinfo
  have hfind := relationColumnsFrom_find n d id hps (keeps_mono (input.le_usage counted) hused)
  rw [hcolumns, hpositions, hfind]
  cases List.findIdx? _ info.columns with
  | none => rfl
  | some i => exact congrArg some (Nat.zero_add i)

/-- All columns of an input are of its table, and there are some. -/
theorem input_table
    (h : visitPlan catalog txId scans likeMatch joinOrder counted (input.plan tableAlias) = .ok it)
    (hinfo : catalog.getTableInfo input.table txId = .ok (some info)) :
    (∀ c ∈ it.getColumns, c.table = input.table) ∧ (info.columns ≠ [] → it.getColumns ≠ []) := by
  obtain ⟨ps, hps, hcolumns, _⟩ := input_columns h hinfo
  obtain ⟨htable, hne⟩ := relationColumnsFrom_table hps
  rw [hcolumns]
  refine ⟨fun c hc => ?_, fun hcols => ?_⟩
  · obtain ⟨p, hp, rfl⟩ := List.mem_map.mp hc
    exact (htable p hp).2
  · simpa using hne hcols

end Inputs

/-! ## One pair -/

section Pairs

variable {catalog : Catalog} {txId : TxID} {tableAlias : List UInt8} {info left right : TableInfo}
  {columnName : Identifier}

/-- The datatype of a name is that of a column with the name. -/
theorem datatypeOf_mem (h : hasColumn info columnName = true) :
    ∃ col ∈ info.columns, col.name = columnName ∧ col.datatype = datatypeOf info columnName := by
  have hfold : ∀ (cols : List TableColumn) (init : DataType),
      (∃ col ∈ cols, col.name = columnName ∧ col.datatype = cols.foldl (fun datatype col =>
        if col.name = columnName then col.datatype else datatype) init) ∨
      (∀ col ∈ cols, col.name ≠ columnName) ∧ cols.foldl (fun datatype col =>
        if col.name = columnName then col.datatype else datatype) init = init := by
    intro cols
    induction cols with
    | nil => exact fun init => .inr ⟨fun col hcol => (nomatch hcol), rfl⟩
    | cons col cols ih =>
        intro init
        rw [List.foldl_cons]
        rcases ih (if col.name = columnName then col.datatype else init) with
          ⟨x, hx, hname, hdatatype⟩ | ⟨hnone, hinit⟩
        · exact .inl ⟨x, List.mem_cons_of_mem col hx, hname, hdatatype⟩
        · by_cases hcol : col.name = columnName
          · rw [hinit, if_pos hcol]
            exact .inl ⟨col, List.mem_cons_self, hcol, rfl⟩
          · rw [hinit, if_neg hcol]
            exact .inr ⟨List.forall_mem_cons.mpr ⟨hcol, hnone⟩, rfl⟩
  rcases hfold info.columns .invalid with hmem | ⟨hnone, _⟩
  · exact hmem
  · obtain ⟨col, hcol, hname⟩ := List.any_eq_true.mp h
    exact absurd (of_decide_eq_true hname) (hnone col hcol)

theorem schemaPosition_some (h : hasColumn info columnName = true) :
    ∃ i col, schemaPosition info columnName = some i ∧ info.columns[i]? = some col ∧
      col.name = columnName := by
  obtain ⟨col, hcol, hmatch⟩ := datatypeOf_mem h
  cases hfind : schemaPosition info columnName with
  | none =>
      have hnone := List.findIdx?_eq_none_iff.mp hfind col hcol
      exact absurd hmatch (of_decide_eq_false hnone)
  | some i =>
      obtain ⟨hlt, hmatch', _⟩ := List.findIdx?_eq_some_iff_getElem.mp hfind
      exact ⟨i, info.columns[i], rfl, List.getElem?_eq_getElem hlt,
        (of_decide_eq_true hmatch').1⟩

/-- Two names for one table. -/
theorem tableInfo_of_namesTable {q name : Identifier} {found : TableInfo}
    (hinfo : catalog.getTableInfo name txId = .ok (some info)) (h : NamesTable info q)
    (hfound : tableInfo catalog txId q = .ok found) : found = info := by
  have hsame : catalog.getTableInfo q txId = catalog.getTableInfo name txId := by
    have hq : normalize q = .ok info.name := h
    unfold Catalog.getTableInfo
    rw [hq, (Catalog.getTableInfo_some hinfo).1]
  rw [tableInfo, hsame, hinfo, Outcome.ok_bind] at hfound
  exact (Except.ok.inj hfound).symm

/-- A column of an ON list that was accepted. -/
theorem getOuterJoinTableColumn_ok {ctx : ColumnContext} {c : Column}
    (h : getOuterJoinTableColumn catalog txId ctx tableAlias = .ok c) :
    ∃ q info, ctx.qualifier = some q ∧ tableInfo catalog txId q = .ok info ∧
      hasColumn info ctx.name = true ∧ c = columnOf tableAlias q info ctx.name := by
  unfold getOuterJoinTableColumn at h
  split at h
  · cases h
  · rename_i q hq
    obtain ⟨info, hinfo, h⟩ := Outcome.of_bind_ok h
    split at h
    · rename_i hcolumn
      cases h
      exact ⟨q, info, hq, hinfo, hcolumn, rfl⟩
    · cases h

/-- A pair of an ON list that was accepted. -/
theorem visitOuterJoinComp_ok {comp : ColumnContext × ColumnContext} {p : JoinPair}
    (h : visitOuterJoinComp catalog txId tableAlias comp = .ok p) :
    getOuterJoinTableColumn catalog txId comp.1 tableAlias = .ok p.1 ∧
      getOuterJoinTableColumn catalog txId comp.2 tableAlias = .ok p.2 ∧
        p.1.info.datatype = p.2.info.datatype := by
  obtain ⟨c, hc, h⟩ := Outcome.of_bind_ok h
  obtain ⟨d, hd, h⟩ := Outcome.of_bind_ok h
  split at h
  · cases h
  · rename_i hdatatype
    cases h
    exact ⟨hc, hd, not_not.mp hdatatype⟩

end Pairs

/-- The position of a column with a name and a datatype. -/
def typedPosition (info : TableInfo) (name : Identifier) (datatype : DataType) : Option Nat :=
  info.columns.findIdx? fun col => col.name = name ∧ col.datatype = datatype

theorem bothFound_none (o : Option Nat) : bothFound o none = none := by cases o <;> rfl

section Compared

variable {catalog : Catalog} {txId : TxID} {scans : TableId → Nat → List Record}
  {likeMatch : List UInt8 → List UInt8 → Bool}
  {joinOrder : List LogicalPlan → List JoinPair → List Nat}
  {counted : ColumnUsage} {tableAlias : List UInt8} {inputL inputR : OuterInput}
  {left right : TableInfo} {lhs rhs : QueryIter}

/-- The columns that the equality of a pair compares, whatever they are. -/
theorem outerEquality_compares {p : JoinPair}
    (hl : visitPlan catalog txId scans likeMatch joinOrder counted (inputL.plan tableAlias) =
      .ok lhs)
    (hr : visitPlan catalog txId scans likeMatch joinOrder counted (inputR.plan tableAlias) =
      .ok rhs)
    (hleft : catalog.getTableInfo inputL.table txId = .ok (some left))
    (hright : catalog.getTableInfo inputR.table txId = .ok (some right))
    (hused : counted.keeps (tableAlias, p.1.info.name) = true)
    (hused' : counted.keeps (tableAlias, p.2.info.name) = true) :
    ((outerEquality lhs.getColumns rhs.getColumns p).bind (comparedColumns lhs rhs)) =
      if p.1.table = inputR.table then
        bothFound (typedPosition left p.2.info.name p.2.info.datatype)
          (typedPosition right p.1.info.name p.1.info.datatype)
      else
        bothFound (typedPosition left p.1.info.name p.1.info.datatype)
          (typedPosition right p.2.info.name p.2.info.datatype) := by
  have hfind : ∀ c d : Column, counted.keeps (tableAlias, c.info.name) = true →
      counted.keeps (tableAlias, d.info.name) = true →
      ((bothFound (findInfo lhs.getColumns c.info) (findInfo rhs.getColumns d.info)).bind
          (comparedColumns lhs rhs)) =
        bothFound (typedPosition left c.info.name c.info.datatype)
          (typedPosition right d.info.name d.info.datatype) := by
    intro c d hc hd
    have hlhs : ((findInfo lhs.getColumns c.info).bind fun k => (schemaPositions lhs)[k]?) =
        typedPosition left c.info.name c.info.datatype := input_find hl hleft hc
    have hrhs : ((findInfo rhs.getColumns d.info).bind fun k => (schemaPositions rhs)[k]?) =
        typedPosition right d.info.name d.info.datatype := input_find hr hright hd
    rw [← hlhs, ← hrhs]
    cases findInfo lhs.getColumns c.info with
    | none => rfl
    | some i =>
        cases findInfo rhs.getColumns d.info with
        | none => exact (bothFound_none _).symm
        | some j => rfl
  obtain ⟨_, hneL⟩ := input_table hl hleft
  obtain ⟨htable, hneR⟩ := input_table hr hright
  unfold outerEquality
  cases hcolsL : lhs.getColumns with
  | nil =>
      have hnil : left.columns = [] := not_not.mp fun h => hneL h hcolsL
      simp only [typedPosition, hnil, List.findIdx?_nil, bothFound, ite_self, Option.bind_none]
  | cons l ls =>
      cases hcolsR : rhs.getColumns with
      | nil =>
          have hnil : right.columns = [] := not_not.mp fun h => hneR h hcolsR
          simp only [typedPosition, hnil, List.findIdx?_nil, bothFound_none, ite_self, Option.bind_none]
      | cons r rs =>
          have hr : r.table = inputR.table := htable r (by rw [hcolsR]; exact List.mem_cons_self)
          dsimp only
          rw [hr, ← hcolsL, ← hcolsR]
          split
          · exact hfind p.2 p.1 hused' hused
          · exact hfind p.1 p.2 hused hused'

/-- A pair that was accepted is compared as it is written when it fits, and otherwise
is not: it is dropped, or compares other columns. -/
theorem pair_asWritten {comp : ColumnContext × ColumnContext} {p : JoinPair}
    (hl : visitPlan catalog txId scans likeMatch joinOrder counted (inputL.plan tableAlias) =
      .ok lhs)
    (hr : visitPlan catalog txId scans likeMatch joinOrder counted (inputR.plan tableAlias) =
      .ok rhs)
    (hleft : catalog.getTableInfo inputL.table txId = .ok (some left))
    (hright : catalog.getTableInfo inputR.table txId = .ok (some right))
    (hne : left.name ≠ right.name)
    (hcomp : visitOuterJoinComp catalog txId tableAlias comp = .ok p)
    (hused : counted.keeps p.1.key = true) (hused' : counted.keeps p.2.key = true) :
    (∃ e, (outerEquality lhs.getColumns rhs.getColumns p).bind (comparedColumns lhs rhs) = some e ∧
      writtenEquality left right comp = some e) ↔
        PairFits left right inputR.table comp := by
  obtain ⟨hc, hd, hdatatype⟩ := visitOuterJoinComp_ok hcomp
  obtain ⟨q, info, hq, hinfo, hcolumn, hp⟩ := getOuterJoinTableColumn_ok hc
  obtain ⟨q', info', hq', hinfo', hcolumn', hp'⟩ := getOuterJoinTableColumn_ok hd
  obtain ⟨p₁, p₂⟩ := p
  obtain rfl : p₁ = _ := hp
  obtain rfl : p₂ = _ := hp'
  have hcompares := outerEquality_compares hl hr hleft hright hused hused'
  have hsearch : q = inputR.table → (outerEquality lhs.getColumns rhs.getColumns
        (columnOf tableAlias q info comp.1.name, columnOf tableAlias q' info' comp.2.name)).bind
          (comparedColumns lhs rhs) =
      bothFound (typedPosition left comp.2.name (datatypeOf info' comp.2.name))
        (typedPosition right comp.1.name (datatypeOf info comp.1.name)) :=
    fun h => hcompares.trans (if_pos h)
  have hsearch' : q ≠ inputR.table → (outerEquality lhs.getColumns rhs.getColumns
        (columnOf tableAlias q info comp.1.name, columnOf tableAlias q' info' comp.2.name)).bind
          (comparedColumns lhs rhs) =
      bothFound (typedPosition left comp.1.name (datatypeOf info comp.1.name))
        (typedPosition right comp.2.name (datatypeOf info' comp.2.name)) :=
    fun h => hcompares.trans (if_neg h)
  -- a name is that of one table only
  have hdisjoint : ∀ {ctx}, OfTable left ctx → ¬ OfTable right ctx := by
    rintro ctx ⟨x, hx, hnames⟩ ⟨y, hy, hnames'⟩
    rw [hx] at hy
    cases hy
    exact hne (Except.ok.inj (hnames.symm.trans hnames'))
  have hright' : NamesTable right inputR.table := (Catalog.getTableInfo_some hright).1
  have hdatatype : datatypeOf info comp.1.name = datatypeOf info' comp.2.name := hdatatype
  by_cases hA : OfTable left comp.1 ∧ OfTable right comp.2
  · -- the left column first: the swap test fails
    obtain ⟨⟨x, hx, hnames⟩, ⟨y, hy, hnames'⟩⟩ := id hA
    obtain rfl : q = x := Option.some.inj (hq.symm.trans hx)
    obtain rfl : q' = y := Option.some.inj (hq'.symm.trans hy)
    obtain rfl := tableInfo_of_namesTable hleft hnames hinfo
    obtain rfl := tableInfo_of_namesTable hright hnames' hinfo'
    obtain ⟨i, _, hi, _⟩ := schemaPosition_some hcolumn
    obtain ⟨j, _, hj, _⟩ := schemaPosition_some hcolumn'
    have hq : q ≠ inputR.table := by
      rintro rfl
      exact hdisjoint ⟨_, hx, hnames⟩ ⟨_, hx, hright'⟩
    refine iff_of_true ⟨(i, j), ?_, ?_⟩ (.inl hA)
    · rw [hsearch' hq]
      exact congrArg₂ bothFound hi hj
    · rw [writtenEquality, if_pos hA, hi, hj]
      rfl
  by_cases hB : OfTable right comp.1 ∧ OfTable left comp.2
  · obtain ⟨⟨x, hx, hnames⟩, ⟨y, hy, hnames'⟩⟩ := id hB
    obtain rfl : q = x := Option.some.inj (hq.symm.trans hx)
    obtain rfl : q' = y := Option.some.inj (hq'.symm.trans hy)
    obtain rfl := tableInfo_of_namesTable hright hnames hinfo
    obtain rfl := tableInfo_of_namesTable hleft hnames' hinfo'
    obtain ⟨j, _, hj, _⟩ := schemaPosition_some hcolumn
    obtain ⟨i, col, hi, hcol, hname⟩ := schemaPosition_some hcolumn'
    have hwritten : writtenEquality info' info comp = some (i, j) := by
      rw [writtenEquality, if_neg hA, if_pos hB, hi, hj]
      rfl
    have hfits : PairFits info' info inputR.table comp ↔
        q = inputR.table ∨ comp.1.name = comp.2.name := by
      refine ⟨fun h => ?_, fun h => .inr ⟨hB.1, hB.2, ?_⟩⟩
      · rcases h with h | ⟨_, _, h | h⟩
        · exact absurd h hA
        · exact .inl (Option.some.inj (hq.symm.trans h))
        · exact .inr h
      · rcases h with rfl | h
        · exact .inl hq
        · exact .inr h
    rw [hfits]
    by_cases hswap : q = inputR.table
    · rw [hsearch hswap]
      exact iff_of_true ⟨(i, j), congrArg₂ bothFound hi hj, hwritten⟩ (.inl hswap)
    · -- without a swap the names are searched on the other sides
      rw [hsearch' hswap, or_iff_right hswap]
      constructor
      · rintro ⟨e, he, hwritten'⟩
        obtain rfl := Option.some.inj (hwritten.symm.trans hwritten')
        cases hfound : typedPosition info' comp.1.name (datatypeOf info comp.1.name) with
        | none => rw [hfound] at he; cases he
        | some k =>
            rw [hfound] at he
            cases hfound' : typedPosition info comp.2.name (datatypeOf info' comp.2.name) with
            | none => rw [hfound'] at he; cases he
            | some m =>
                rw [hfound'] at he
                cases he
                obtain ⟨hlt, hmatch, _⟩ := List.findIdx?_eq_some_iff_getElem.mp hfound
                have hcol' : info'.columns[i]? = some info'.columns[i] :=
                  List.getElem?_eq_getElem hlt
                obtain rfl := Option.some.inj (hcol.symm.trans hcol')
                exact (of_decide_eq_true hmatch).1.symm.trans hname
      · intro hsame
        have hfound : typedPosition info' comp.1.name (datatypeOf info comp.1.name) = some i := by
          rw [hdatatype, hsame]
          exact hi
        have hfound' : typedPosition info comp.2.name (datatypeOf info' comp.2.name) = some j := by
          rw [← hdatatype, ← hsame]
          exact hj
        exact ⟨(i, j), congrArg₂ bothFound hfound hfound', hwritten⟩
  · refine iff_of_false ?_ ?_
    · rintro ⟨e, _, he⟩
      rw [writtenEquality, if_neg hA, if_neg hB] at he
      cases he
    · rintro (h | ⟨h, h', _⟩)
      · exact hA h
      · exact hB ⟨h, h'⟩

/-- An equality that was found compares two columns. -/
theorem comparedColumns_some {p : JoinPair} {e : Nat × Nat}
    (hl : visitPlan catalog txId scans likeMatch joinOrder counted (inputL.plan tableAlias) =
      .ok lhs)
    (hr : visitPlan catalog txId scans likeMatch joinOrder counted (inputR.plan tableAlias) =
      .ok rhs)
    (hleft : catalog.getTableInfo inputL.table txId = .ok (some left))
    (hright : catalog.getTableInfo inputR.table txId = .ok (some right))
    (h : outerEquality lhs.getColumns rhs.getColumns p = some e) :
    ∃ x, comparedColumns lhs rhs e = some x := by
  obtain ⟨ps, _, hcolumnsL, hpositionsL⟩ := input_columns hl hleft
  obtain ⟨qs, _, hcolumnsR, hpositionsR⟩ := input_columns hr hright
  have hfound : ∀ c d : TableColumn, bothFound (findInfo lhs.getColumns c)
      (findInfo rhs.getColumns d) = some e → ∃ x, comparedColumns lhs rhs e = some x := by
    intro c d h
    cases hi : findInfo lhs.getColumns c with
    | none => rw [hi] at h; cases h
    | some i =>
        rw [hi] at h
        cases hj : findInfo rhs.getColumns d with
        | none => rw [hj] at h; cases h
        | some j =>
            rw [hj] at h
            cases h
            obtain ⟨hlt, _⟩ := List.findIdx?_eq_some_iff_getElem.mp hi
            obtain ⟨hlt', _⟩ := List.findIdx?_eq_some_iff_getElem.mp hj
            rw [hcolumnsL, List.length_map] at hlt
            rw [hcolumnsR, List.length_map] at hlt'
            rw [comparedColumns, hpositionsL, hpositionsR, List.getElem?_map, List.getElem?_map,
              List.getElem?_eq_getElem hlt, List.getElem?_eq_getElem hlt']
            exact ⟨_, rfl⟩
  unfold outerEquality at h
  split at h
  · split at h
    · exact hfound _ _ h
    · exact hfound _ _ h
  · cases h

end Compared

/-- A loop that keeps what it finds keeps all of it when each turn finds what it
should. -/
theorem map_filterMap_eq_iff {α β γ δ : Type} {find : β → Option γ} {read : γ → Option δ}
    {wanted : α → Option δ} {Good : α → Prop} {as : List α} {bs : List β}
    (h : List.Forall₂ (fun a b => (∀ e, find b = some e → ∃ x, read e = some x) ∧
      ((∃ x, (find b).bind read = some x ∧ wanted a = some x) ↔ Good a)) as bs) :
    (bs.filterMap find).map read = as.map wanted ↔ ∀ a ∈ as, Good a := by
  induction h with
  | nil => exact iff_of_true rfl fun a ha => nomatch ha
  | @cons a b as bs hab hrest ih =>
      obtain ⟨hread, hgood⟩ := hab
      rw [List.forall_mem_cons, ← ih, ← hgood, List.map_cons]
      cases hb : find b with
      | none =>
          rw [List.filterMap_cons_none hb]
          refine iff_of_false (fun heq => ?_) fun ⟨⟨x, hx, _⟩, _⟩ => nomatch hx
          have hle := List.length_filterMap_le find bs
          have hlength := congrArg List.length heq
          rw [List.length_map, List.length_cons, List.length_map, hrest.length_eq] at hlength
          omega
      | some e =>
          obtain ⟨x, hx⟩ := hread e hb
          rw [List.filterMap_cons_some hb, List.map_cons, List.cons.injEq]
          refine and_congr_left' ⟨fun heq => ⟨x, hx, heq.symm.trans hx⟩, ?_⟩
          rintro ⟨y, hy, hwanted⟩
          exact Eq.trans hy hwanted.symm

theorem requireEqualities_ok {columns : JoinColumns} {it it' : QueryIter} :
    requireEqualities columns it = .ok it' ↔ columns.equalities ≠ [] ∧ it = it' := by
  unfold requireEqualities
  split
  · rename_i h
    exact iff_of_false (fun h => nomatch h) fun ⟨hne, _⟩ => hne (List.isEmpty_iff.mp h)
  · rename_i h
    refine ⟨fun heq => ⟨fun hnil => h (by rw [hnil]; rfl), Except.ok.inj heq⟩, ?_⟩
    rintro ⟨_, rfl⟩
    rfl

section Lists

variable {catalog : Catalog} {txId : TxID} {scans : TableId → Nat → List Record}
  {likeMatch : List UInt8 → List UInt8 → Bool}
  {joinOrder : List LogicalPlan → List JoinPair → List Nat} {usage : ColumnUsage}
  {tableAlias : List UInt8} {inputL inputR : OuterInput} {left right : TableInfo}
  {lhs rhs : QueryIter} {f f' : FromClause} {on : List (ColumnContext × ColumnContext)}
  {joins : List JoinPair}

/-- What an accepted ON list has become. -/
theorem visitOuterJoin_ok {leftName rightName : Identifier}
    (h : visitOuterJoin catalog txId f leftName rightName tableAlias on = .ok (joins, f')) :
    List.Forall₂ (fun comp p => visitOuterJoinComp catalog txId tableAlias comp = .ok p) on joins ∧
      joins ≠ [] := by
  obtain ⟨_, _, h⟩ := Outcome.of_bind_ok h
  obtain ⟨_, _, h⟩ := Outcome.of_bind_ok h
  split at h
  · cases h
  · obtain ⟨columns, hcolumns, h⟩ := Outcome.of_bind_ok h
    split at h
    · cases h
    · rename_i hempty
      cases h
      refine ⟨Outcome.forall₂_of_mapM hcolumns, ?_⟩
      rintro rfl
      exact hempty rfl

theorem equalities_asWritten
    (hvisit : visitOuterJoin catalog txId f inputL.table inputR.table tableAlias on =
      .ok (joins, f'))
    (hleft : catalog.getTableInfo inputL.table txId = .ok (some left))
    (hright : catalog.getTableInfo inputR.table txId = .ok (some right))
    (hne : left.name ≠ right.name)
    (hl : visitPlan catalog txId scans likeMatch joinOrder (usage.addAll joins)
      (inputL.plan tableAlias) = .ok lhs)
    (hr : visitPlan catalog txId scans likeMatch joinOrder (usage.addAll joins)
      (inputR.plan tableAlias) = .ok rhs) :
    (outerColumns (usage.addAll joins) joins lhs rhs).equalities.map (comparedColumns lhs rhs) =
        on.map (writtenEquality left right) ↔
      ∀ p ∈ on, PairFits left right inputR.table p := by
  obtain ⟨hpairs, _⟩ := visitOuterJoin_ok hvisit
  refine map_filterMap_eq_iff (List.forall₂_iff_get.mpr ⟨hpairs.length_eq, fun i hi hj => ?_⟩)
  have hcomp := (List.forall₂_iff_get.mp hpairs).2 i hi hj
  obtain ⟨hused, hused'⟩ := @ColumnUsage.addAll_keeps usage joins _ (List.get_mem joins ⟨i, hj⟩)
  refine ⟨fun e he => comparedColumns_some hl hr hleft hright he, ?_⟩
  exact pair_asWritten hl hr hleft hright hne hcomp hused hused'

/-- The ON list of an outer join of two tables: each pair is an equality between the two
columns it names exactly when all pairs fit. -/
theorem on_asWritten_iff
    (hvisit : visitOuterJoin catalog txId f inputL.table inputR.table tableAlias on =
      .ok (joins, f'))
    (hleft : catalog.getTableInfo inputL.table txId = .ok (some left))
    (hright : catalog.getTableInfo inputR.table txId = .ok (some right))
    (hne : left.name ≠ right.name)
    (hl : visitPlan catalog txId scans likeMatch joinOrder (usage.addAll joins)
      (inputL.plan tableAlias) = .ok lhs)
    (hr : visitPlan catalog txId scans likeMatch joinOrder (usage.addAll joins)
      (inputR.plan tableAlias) = .ok rhs) :
    ((∃ columns, visitPlan catalog txId scans likeMatch joinOrder usage
          (.leftOuterJoin tableAlias (inputL.plan tableAlias) (inputR.plan tableAlias) joins) =
            .ok (.leftOuterJoin lhs rhs columns Record.empty false false) ∧
        columns.equalities.map (comparedColumns lhs rhs) = on.map (writtenEquality left right)) ↔
      ∀ p ∈ on, PairFits left right inputR.table p) ∧
    ((∃ columns, visitPlan catalog txId scans likeMatch joinOrder usage
          (.fullOuterJoin tableAlias (inputL.plan tableAlias) (inputR.plan tableAlias) joins) =
            .ok (.fullOuterJoin lhs rhs columns Record.empty false false false 0 []) ∧
        columns.equalities.map (comparedColumns lhs rhs) = on.map (writtenEquality left right)) ↔
      ∀ p ∈ on, PairFits left right inputR.table p) := by
  have hwritten := equalities_asWritten hvisit hleft hright hne hl hr
  have hnonempty : (outerColumns (usage.addAll joins) joins lhs rhs).equalities.map
      (comparedColumns lhs rhs) = on.map (writtenEquality left right) →
      (outerColumns (usage.addAll joins) joins lhs rhs).equalities ≠ [] := by
    obtain ⟨hpairs, hjoins⟩ := visitOuterJoin_ok hvisit
    intro heq hnil
    have hlength := congrArg List.length heq
    rw [hnil, List.length_map, List.length_map, hpairs.length_eq] at hlength
    exact hjoins (List.length_eq_zero_iff.mp hlength.symm)
  simp only [visitPlan, hl, hr, Outcome.ok_bind]
  refine ⟨⟨?_, fun h => ?_⟩, ⟨?_, fun h => ?_⟩⟩
  · rintro ⟨columns, hok, heq⟩
    obtain ⟨_, hit⟩ := requireEqualities_ok.mp hok
    cases hit
    exact hwritten.mp heq
  · exact ⟨_, requireEqualities_ok.mpr ⟨hnonempty (hwritten.mpr h), rfl⟩, hwritten.mpr h⟩
  · rintro ⟨columns, hok, heq⟩
    obtain ⟨_, hit⟩ := requireEqualities_ok.mp hok
    cases hit
    exact hwritten.mp heq
  · exact ⟨_, requireEqualities_ok.mpr ⟨hnonempty (hwritten.mpr h), rfl⟩, hwritten.mpr h⟩

end Lists

/-! ## Two tables -/

/-- `CREATE TABLE l (id INT, x INT)`. -/
def leftTable : TableInfo where
  name := [108]
  columns := [⟨[105, 100], .int, 0⟩, ⟨[120], .int, 0⟩, ⟨Catalog.ridName, .rid, 0⟩]
  tableId := 0
  cardinality := 0

/-- `CREATE TABLE r (id INT, y INT)`. -/
def rightTable : TableInfo where
  name := [114]
  columns := [⟨[105, 100], .int, 1⟩, ⟨[121], .int, 1⟩, ⟨Catalog.ridName, .rid, 1⟩]
  tableId := 1
  cardinality := 0

/-- A catalog with both. -/
def twoTables : Catalog where
  tableIdCounter := 2
  transactionCount := 1
  inProcessTables := fun _ => []
  tables := (Foundation.KeyedMap.empty.insert leftTable).insert rightTable

/-- A column of an ON list. -/
def onColumn (table name : Identifier) : ColumnContext := ⟨some table, name⟩

/-- The plan of `(l LEFT OUTER JOIN r ON ..) AS j`. -/
def leftJoinPlan (joins : List JoinPair) : LogicalPlan :=
  .leftOuterJoin [106] (.relation [106] [108]) (.relation [106] [114]) joins

/-- `ON r.y == l.id AND l.x == r.id`. -/
def bothPairs : List (ColumnContext × ColumnContext) :=
  [(onColumn [114] [121], onColumn [108] [105, 100]),
    (onColumn [108] [120], onColumn [114] [105, 100])]

/-- The columns of `bothPairs`. -/
def bothJoins : List JoinPair :=
  [(⟨[106], [114], ⟨[121], .int, 1⟩⟩, ⟨[106], [108], ⟨[105, 100], .int, 0⟩⟩),
    (⟨[106], [108], ⟨[120], .int, 0⟩⟩, ⟨[106], [114], ⟨[105, 100], .int, 1⟩⟩)]

theorem on_asWritten_iff_both :
    (∃ f', visitOuterJoin twoTables 1 .empty [108] [114] [106] bothPairs = .ok (bothJoins, f')) ∧
      ∃ lhs rhs columns, visitPlan twoTables 1 (fun _ _ => []) (fun _ _ => true) (fun _ _ => [])
          (fun _ => 0) (leftJoinPlan bothJoins) =
            .ok (.leftOuterJoin lhs rhs columns Record.empty false false) ∧
        columns.equalities.map (comparedColumns lhs rhs) = [some (0, 1), some (1, 0)] := by
  have hvisit : ∃ f', visitOuterJoin twoTables 1 .empty [108] [114] [106] bothPairs =
      .ok (bothJoins, f') := ⟨_, rfl⟩
  have hl : ∃ lhs, visitPlan twoTables 1 (fun _ _ => []) (fun _ _ => true) (fun _ _ => [])
      (ColumnUsage.addAll (fun _ => 0) bothJoins) (OuterInput.plan ⟨[108], none⟩ [106]) = .ok lhs :=
    ⟨_, rfl⟩
  have hr : ∃ rhs, visitPlan twoTables 1 (fun _ _ => []) (fun _ _ => true) (fun _ _ => [])
      (ColumnUsage.addAll (fun _ => 0) bothJoins) (OuterInput.plan ⟨[114], none⟩ [106]) = .ok rhs :=
    ⟨_, rfl⟩
  have hfits : ∀ p ∈ bothPairs, PairFits leftTable rightTable [114] p := by
    intro p hp
    rcases List.mem_cons.mp hp with rfl | hp
    · exact .inr ⟨⟨_, rfl, rfl⟩, ⟨_, rfl, rfl⟩, .inl rfl⟩
    · obtain rfl := List.mem_singleton.mp hp
      exact .inl ⟨⟨_, rfl, rfl⟩, ⟨_, rfl, rfl⟩⟩
  refine ⟨hvisit, ?_⟩
  obtain ⟨f', hvisit⟩ := hvisit
  obtain ⟨lhs, hl⟩ := hl
  obtain ⟨rhs, hr⟩ := hr
  have hleft : twoTables.getTableInfo [108] 1 = .ok (some leftTable) := rfl
  have hright : twoTables.getTableInfo [114] 1 = .ok (some rightTable) := rfl
  obtain ⟨columns, hplan, hcolumns⟩ :=
    (on_asWritten_iff hvisit hleft hright (by decide) hl hr).1.mpr hfits
  exact ⟨lhs, rhs, columns, hplan, hcolumns⟩

/-- `ON l.id == l.x` is accepted, and leaves no equality. -/
theorem on_emptied : ∃ joins f', visitOuterJoin twoTables 1 .empty [108] [114] [106]
      [(onColumn [108] [105, 100], onColumn [108] [120])] = .ok (joins, f') ∧
    visitPlan twoTables 1 (fun _ _ => []) (fun _ _ => true) (fun _ _ => []) (fun _ => 0)
      (leftJoinPlan joins) = .error (.assertFailed "equalities.size() > 0") :=
  ⟨_, _, rfl, rfl⟩

end Iic3413Db.Query
