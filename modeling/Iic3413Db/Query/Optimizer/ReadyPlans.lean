/-
  Query/Optimizer/ReadyPlans.lean --- the plans whose lowering preserves their meaning.

  `Ready` has what the lowering needs: the columns in use of each table are its first ones, since
  a relation returns whole records; the loops over a product or a join never make a record without
  values; no expression fails on a row; and the columns in use above an outer join are told apart
  by their keys, and have null values when the join pads them.
-/
import Iic3413Db.Query.Optimizer.NeededColumns
import Iic3413Db.Query.Parser.Meaning

set_option autoImplicit false

namespace Iic3413Db.Query

open Iic3413Db.Foundation Iic3413Db.RelationalModel
open Iic3413Db.System (Catalog TableColumn TableInfo)
open Iic3413Db.System.Catalog (ridName)
open QueryIter

variable (db : Snapshot)

/-! ## Tables and plans -/

/-- A column of one of the relations, with the datatype that its schema has. -/
def ColumnOf (relations : List FromTable) (c : Column) : Prop :=
  (⟨c.tableAlias, c.table⟩ : FromTable) ∈ relations ∧
    ∃ info, db.catalog.getTableInfo c.table db.txId = .ok (some info) ∧
      ∃ col ∈ info.columns, col.name = c.info.name ∧ col.datatype = c.info.datatype

/-- The columns in use come before the others. -/
def UsedFirst (usage : ColumnUsage) (tableAlias : Identifier) (info : TableInfo) : Prop :=
  info.columns.Pairwise fun c d =>
    usage.keeps (tableAlias, d.name) = true → usage.keeps (tableAlias, c.name) = true

instance (usage : ColumnUsage) (tableAlias : Identifier) (info : TableInfo) :
    Decidable (UsedFirst usage tableAlias info) := inferInstanceAs (Decidable (List.Pairwise _ _))

/-- The table is there, its last column is the RID, and its records fit. -/
structure StoredTable (table : Identifier) (info : TableInfo) : Prop where
  found : db.catalog.getTableInfo table db.txId = .ok (some info)
  ridLast : ∃ declared, info.columns = declared ++ [⟨ridName, .rid, info.tableId⟩]
  names : (info.columns.map TableColumn.name).Nodup
  fits : ∀ r ∈ db.contents info.tableId, Fits info r.values

/-- The key of a column in use says which column it is. -/
def KeysDecide (relations : List FromTable) (usage : ColumnUsage) : Prop :=
  ∀ c d, ColumnOf db relations c → ColumnOf db relations d → usage.uses c = true →
    c.key = d.key → c.source = d.source

/-- The value of the expression is an integer. -/
def Decides (likeMatch : List UInt8 → List UInt8 → Bool) (f : PlanRow) (e : ExprPlan) : Prop :=
  ∃ i, e.valueIn likeMatch f = some (.int i)

/-- No alias is in two of the plans. -/
def AliasesApart (plans : List LogicalPlan) : Prop :=
  plans.Pairwise fun c d => ∀ t ∈ c.relations, ∀ u ∈ d.relations, t.tableAlias ≠ u.tableAlias

/-- Each child has one alias, and a column of some pair. -/
structure ChildrenMeet (children : List LogicalPlan) (joins : List JoinPair) : Prop where
  few : children.length ≤ 64
  some : children ≠ []
  apart : AliasesApart children
  oneAlias : ∀ c ∈ children, ∀ t ∈ c.relations, ∀ u ∈ c.relations, t.tableAlias = u.tableAlias
  pairs : ∀ p ∈ joins, p.1.tableAlias ≠ p.2.tableAlias ∧
    ColumnOf db (relationsOf children) p.1 ∧ ColumnOf db (relationsOf children) p.2
  takesPart : ∀ c ∈ children, ∃ p ∈ joins, ColumnOf db c.relations p.1 ∨ ColumnOf db c.relations p.2

/-- The plan is the scan of the table, perhaps under a selection. -/
def InputOf (t : FromTable) : LogicalPlan → Prop
  | .relation tableAlias table | .selection (.relation tableAlias table) _ => t = ⟨tableAlias, table⟩
  | _ => False

/-- The column of the table with this name and datatype. -/
def FromTable.column (t : FromTable) (info : TableColumn) : Column := ⟨t.tableAlias, t.table, info⟩

/-- The columns that a pair of an ON list has for the left input and for the right one. -/
def onSides (right : FromTable) (p : JoinPair) : TableColumn × TableColumn :=
  if p.1.table = right.table then (p.2.info, p.1.info) else (p.1.info, p.2.info)

/-- The columns are under the alias of the join, and some pair is of a column of each input. -/
structure OnMeets (tableAlias : Identifier) (left right : FromTable) (on : List JoinPair) :
    Prop where
  aliasLeft : left.tableAlias = tableAlias
  aliasRight : right.tableAlias = tableAlias
  aliases : ∀ p ∈ on, p.1.tableAlias = tableAlias ∧ p.2.tableAlias = tableAlias
  found : ∃ p ∈ on, ColumnOf db [left] (left.column (onSides right p).1) ∧
    ColumnOf db [right] (right.column (onSides right p).2)

/-- The columns in use of the table are its first ones, and have null values. -/
def Padded (usage : ColumnUsage) (t : FromTable) : Prop :=
  ∃ info, db.catalog.getTableInfo t.table db.txId = .ok (some info) ∧
    UsedFirst usage t.tableAlias info ∧
    ∀ c ∈ info.columns, usage.keeps (t.tableAlias, c.name) = true → Nullable c.datatype

mutual

/-- The lowering of the plan works with these counters. -/
def Ready (usage : ColumnUsage) : LogicalPlan → Prop
  | .relation tableAlias table =>
      ∃ info, StoredTable db table info ∧ UsedFirst usage tableAlias info
  | .selection child es =>
      Ready (usage.addColumns (es.flatMap ExprPlan.getColumns)) child ∧
        ∀ e ∈ es, e.Complete ∧ (∀ c ∈ e.mentions, ColumnOf db child.relations c) ∧
          ∀ f ∈ child.rows db, Decides db.likeMatch f e
  | .cartesianProduct children =>
      (2 ≤ children.length ∧ AliasesApart children ∧
        ∃ child ∈ children.take 2, ∃ c, ColumnOf db child.relations c ∧ usage.uses c = true) ∧
        ReadyEach usage children
  | .join children joins =>
      ChildrenMeet db children joins ∧ ReadyEach (usage.addAll joins) children
  | .leftOuterJoin tableAlias lchild rchild on =>
      (∃ left right, InputOf left lchild ∧ InputOf right rchild ∧
        OnMeets db tableAlias left right on ∧ KeysDecide db [left, right] usage ∧
        Padded db (usage.addAll on) right) ∧
        Ready (usage.addAll on) lchild ∧ Ready (usage.addAll on) rchild
  | .fullOuterJoin tableAlias lchild rchild on =>
      (∃ left right, InputOf left lchild ∧ InputOf right rchild ∧
        OnMeets db tableAlias left right on ∧ KeysDecide db [left, right] usage ∧
        Padded db (usage.addAll on) left ∧ Padded db (usage.addAll on) right) ∧
        Ready (usage.addAll on) lchild ∧ Ready (usage.addAll on) rchild
  | .projection _ _ _ _ => False

/-- The same of the children of a product or a join. -/
def ReadyEach (usage : ColumnUsage) : List LogicalPlan → Prop
  | [] => True
  | plan :: plans => Ready usage plan ∧ ReadyEach usage plans

end

section Basic

variable {db} {usage : ColumnUsage} {plan : LogicalPlan} {plans : List LogicalPlan}
  {relations relations' : List FromTable} {c : Column} {t : FromTable}

theorem readyEach_iff : ReadyEach db usage plans ↔ ∀ plan ∈ plans, Ready db usage plan := by
  induction plans with
  | nil => exact iff_of_true trivial fun plan h => by cases h
  | cons plan plans ih => rw [ReadyEach, List.forall_mem_cons, ih]

theorem ColumnOf.mono (h : ColumnOf db relations c) (hsub : ∀ t ∈ relations, t ∈ relations') :
    ColumnOf db relations' c := ⟨hsub _ h.1, h.2⟩

theorem ColumnOf.offers (h : ColumnOf db plan.relations c) :
    Offers db.catalog db.txId plan c.key := by
  obtain ⟨hmem, info, hinfo, col, hcol, hname, _⟩ := h
  refine ⟨_, hmem, rfl, info, hinfo, List.any_eq_true.mpr ⟨col, hcol, ?_⟩⟩
  exact decide_eq_true hname

theorem columnOf_children (h : ColumnOf db (relationsOf plans) c) :
    ∃ plan ∈ plans, ColumnOf db plan.relations c := by
  obtain ⟨hmem, hinfo⟩ := h
  rw [relationsOf_eq] at hmem
  obtain ⟨plan, hplan, hmem⟩ := List.mem_flatMap.mp hmem
  exact ⟨plan, hplan, hmem, hinfo⟩

theorem relations_sub (hplan : plan ∈ plans) : ∀ t ∈ plan.relations, t ∈ relationsOf plans := by
  intro t ht
  rw [relationsOf_eq]
  exact List.mem_flatMap.mpr ⟨plan, hplan, ht⟩

/-- The columns of the relations, from their schemas. -/
def sourcesOf (db : Snapshot) (relations : List FromTable) : List SourceColumn :=
  relations.flatMap fun t =>
    match db.catalog.getTableInfo t.table db.txId with
    | .ok (some info) => info.columns.map fun col => (t, col.name, col.datatype)
    | _ => []

theorem columnOf_iff : ColumnOf db relations c ↔ c.source ∈ sourcesOf db relations := by
  rw [sourcesOf, List.mem_flatMap]
  constructor
  · rintro ⟨hmem, info, hinfo, col, hcol, hname, htype⟩
    refine ⟨_, hmem, ?_⟩
    rw [hinfo]
    exact List.mem_map.mpr ⟨col, hcol, by rw [hname, htype]; rfl⟩
  · rintro ⟨t, ht, hmem⟩
    split at hmem
    · rename_i info hinfo
      obtain ⟨col, hcol, hsource⟩ := List.mem_map.mp hmem
      obtain ⟨rfl, hpair⟩ := Prod.mk.inj hsource
      obtain ⟨hname, htype⟩ := Prod.mk.inj hpair
      exact ⟨ht, info, hinfo, col, hcol, hname, htype⟩
    · cases hmem

/-- Whether the keys decide is read off the schemas. -/
theorem keysDecide_iff : KeysDecide db relations usage ↔
    ∀ s ∈ sourcesOf db relations, ∀ s' ∈ sourcesOf db relations,
      usage.keeps (s.1.tableAlias, s.2.1) = true →
        (s.1.tableAlias, s.2.1) = (s'.1.tableAlias, s'.2.1) → s = s' := by
  constructor
  · rintro h ⟨⟨a, t⟩, n, d⟩ hs ⟨⟨a', t'⟩, n', d'⟩ hs' hused hkey
    exact h ⟨a, t, ⟨n, d, 0⟩⟩ ⟨a', t', ⟨n', d', 0⟩⟩ (columnOf_iff.mpr hs) (columnOf_iff.mpr hs') hused
      hkey
  · intro h c d hc hd hused hkey
    exact h _ (columnOf_iff.mp hc) _ (columnOf_iff.mp hd) hused hkey

/-- Two plans that share an alias are one. -/
theorem AliasesApart.eq_of_alias (h : AliasesApart plans) {p q : LogicalPlan} (hp : p ∈ plans)
    (hq : q ∈ plans) {t u : FromTable} (ht : t ∈ p.relations) (hu : u ∈ q.relations)
    (halias : t.tableAlias = u.tableAlias) : p = q := by
  by_contra hne
  have hsymm : Std.Symm fun c d : LogicalPlan =>
      ∀ t ∈ c.relations, ∀ u ∈ d.relations, t.tableAlias ≠ u.tableAlias :=
    ⟨fun _ _ hcd t ht u hu heq => hcd u hu t ht heq.symm⟩
  exact List.Pairwise.forall h hp hq hne t ht u hu halias

theorem InputOf.relations_eq (h : InputOf t plan) : plan.relations = [t] := by
  cases plan with
  | relation tableAlias table =>
      obtain rfl := h
      rfl
  | selection child es =>
      cases child with
      | relation tableAlias table =>
          obtain rfl := h
          rfl
      | selection | cartesianProduct | join | leftOuterJoin | fullOuterJoin | projection =>
          exact h.elim
  | cartesianProduct | join | leftOuterJoin | fullOuterJoin | projection => exact h.elim

theorem Ready.scoped (h : Ready db usage plan) : Scoped db.catalog db.txId plan := by
  induction plan using LogicalPlan.induction generalizing usage with
  | relation tableAlias table => trivial
  | selection child es ih =>
      exact ⟨ih h.1, fun e he c hc => ((h.2 e he).2.1 c hc).offers⟩
  | cartesianProduct children ih =>
      exact eachColumnOf_iff.mpr fun c hc => ih c hc (readyEach_iff.mp h.2 c hc)
  | join children joins ih =>
      exact eachColumnOf_iff.mpr fun c hc => ih c hc (readyEach_iff.mp h.2 c hc)
  | leftOuterJoin tableAlias lchild rchild on ihl ihr => exact ⟨ihl h.2.1, ihr h.2.2⟩
  | fullOuterJoin tableAlias lchild rchild on ihl ihr => exact ⟨ihl h.2.1, ihr h.2.2⟩
  | projection child distinct limit columns ih => exact h.elim

end Basic

/-! ## The rows of a plan -/

/-- A row has the columns in use of its relations, and none of other relations. -/
structure RowOver (relations : List FromTable) (usage : ColumnUsage) (f : PlanRow) : Prop where
  ofRelations : Row.Over (OfRelations relations) f
  whole : ∀ c, ColumnOf db relations c → usage.uses c = true → f c.source ≠ none

section Rows

variable {db} {usage usage' : ColumnUsage} {plan : LogicalPlan} {plans : List LogicalPlan}
  {relations : List FromTable} {c : Column} {f g : PlanRow} {t : FromTable} {info : TableInfo}

theorem RowOver.mono (h : RowOver db relations usage' f)
    (hle : ∀ k, usage.keeps k = true → usage'.keeps k = true) : RowOver db relations usage f where
  ofRelations := h.ofRelations
  whole c hc hused := h.whole c hc (hle c.key hused)

theorem StoredTable.rows_eq (h : StoredTable db t.table info) :
    tableRows db t = (db.contents info.tableId).map fun r =>
      Row.zip (info.columns.map fun col => (t, col.name, col.datatype)) r.values := by
  rw [tableRows, h.found]

theorem StoredTable.length (h : StoredTable db t.table info) {r : Record}
    (hr : r ∈ db.contents info.tableId) : info.columns.length = r.values.length :=
  (h.fits r hr).length_eq

theorem ColumnOf.found (h : ColumnOf db relations c) (hinfo : StoredTable db c.table info) :
    ∃ col ∈ info.columns, col.name = c.info.name ∧ col.datatype = c.info.datatype := by
  obtain ⟨_, found, hfound, hcol⟩ := h
  rw [hinfo.found] at hfound
  cases hfound
  exact hcol

/-- The names of a table tell its columns apart. -/
theorem StoredTable.keysDecide (h : StoredTable db t.table info) : KeysDecide db [t] usage := by
  intro c d hc hd _ hkey
  obtain ⟨ca, ct, ci⟩ := c
  obtain ⟨da, dt, di⟩ := d
  have hct : ⟨ca, ct⟩ = t := List.mem_singleton.mp hc.1
  subst hct
  have hdt : (⟨da, dt⟩ : FromTable) = ⟨ca, ct⟩ := List.mem_singleton.mp hd.1
  cases hdt
  obtain ⟨x, hx, hxname, hxtype⟩ := hc.found h
  obtain ⟨y, hy, hyname, hytype⟩ := hd.found h
  have hname : ci.name = di.name := congrArg Prod.snd hkey
  have hxy : x = y := List.inj_on_of_nodup_map h.names hx hy (by rw [hxname, hyname, hname])
  have htype : ci.datatype = di.datatype := by rw [← hxtype, ← hytype, hxy]
  simp only [Column.source, hname, htype]

/-- A row of a table has a value for each column of the table, and for nothing else. -/
theorem StoredTable.ne_none_iff (h : StoredTable db t.table info) (hf : f ∈ tableRows db t)
    {i : TableColumn} : f (t.column i).source ≠ none ↔ ColumnOf db [t] (t.column i) := by
  rw [h.rows_eq] at hf
  obtain ⟨r, hr, rfl⟩ := List.mem_map.mp hf
  constructor
  · intro hne
    have hmem : (t.column i).source ∈ info.columns.map fun col => (t, col.name, col.datatype) :=
      by_contra fun hnone => hne (Row.zip_eq_none hnone)
    obtain ⟨col, hcol, heq⟩ := List.mem_map.mp hmem
    obtain ⟨hname, htype⟩ := Prod.mk.inj (Prod.mk.inj heq).2
    exact ⟨List.mem_singleton_self _, info, h.found, col, hcol, hname, htype⟩
  · intro hc
    obtain ⟨col, hcol, hname, htype⟩ := hc.found h
    refine Row.zip_ne_none ?_ (List.mem_map.mpr ⟨col, hcol, ?_⟩)
    · rw [List.length_map, h.length hr]
    · rw [hname, htype]
      rfl

theorem StoredTable.rowOver (h : StoredTable db t.table info) (hf : f ∈ tableRows db t) :
    RowOver db [t] usage f := by
  refine ⟨(tableRows_over db f hf).mono fun k hk => List.mem_singleton.mpr hk, fun c hc _ => ?_⟩
  have ht : ⟨c.tableAlias, c.table⟩ = t := List.mem_singleton.mp hc.1
  subst ht
  exact (h.ne_none_iff hf).mpr hc

theorem product_rowOver
    (h : ∀ plan ∈ plans, ∀ f ∈ plan.rows db, RowOver db plan.relations usage f)
    (hf : f ∈ product (plans.map (LogicalPlan.rows db))) :
    RowOver db (relationsOf plans) usage f := by
  constructor
  · refine mem_product_over (fun table htable f hf => ?_) hf
    obtain ⟨plan, hplan, rfl⟩ := List.mem_map.mp htable
    exact (h plan hplan f hf).ofRelations.mono fun k hk => relations_sub hplan k.1 hk
  · intro c hc hused
    obtain ⟨plan, hplan, hc⟩ := columnOf_children hc
    exact mem_product_ne_none (List.mem_map_of_mem hplan)
      (fun f hf => (h plan hplan f hf).whole c hc hused) hf

/-! ### Outer joins -/

/-- Two halves, each with its columns. -/
theorem beside_rowOver {left right : FromTable} (hf : RowOver db [left] usage f)
    (hg : RowOver db [right] usage g) : RowOver db [left, right] usage (beside [left] f g) := by
  constructor
  · intro k hk
    unfold beside at hk
    split at hk
    · rename_i hleft
      exact List.mem_cons.mpr (.inl (List.mem_singleton.mp hleft))
    · exact List.mem_cons_of_mem left (hg.ofRelations k hk)
  · intro c hc hused
    unfold beside
    split
    · rename_i hleft
      exact hf.whole c ⟨hleft, hc.2⟩ hused
    · rename_i hleft
      exact hg.whole c ⟨(List.mem_cons.mp hc.1).resolve_left fun h =>
        hleft (List.mem_singleton.mpr h), hc.2⟩ hused

/-- The null values of the columns in use. -/
theorem Padded.rowOver (h : Padded db usage t) : RowOver db [t] usage (nullRow [t]) := by
  obtain ⟨info, hinfo, _, hnullable⟩ := h
  constructor
  · intro k hk
    by_contra hne
    exact hk (if_neg hne)
  · intro c hc hused
    have hmem : c.source.1 ∈ [t] := hc.1
    have ht : ⟨c.tableAlias, c.table⟩ = t := List.mem_singleton.mp hc.1
    subst ht
    obtain ⟨_, found, hfound, col, hcol, hname, htype⟩ := hc
    rw [hinfo] at hfound
    cases hfound
    have hkeeps : usage.keeps (c.tableAlias, col.name) = true := by
      rw [hname]
      exact hused
    rw [nullRow, if_pos hmem]
    rcases hnullable col hcol hkeeps with hnull | hnull
    · rw [Column.source, ← htype, hnull]
      exact Option.some_ne_none _
    · rw [Column.source, ← htype, hnull]
      exact Option.some_ne_none _

theorem leftOuter_rowOver {meets : PlanRow → PlanRow → Bool} {left right : FromTable}
    {as bs : List PlanRow} (has : ∀ f ∈ as, RowOver db [left] usage f)
    (hbs : ∀ g ∈ bs, RowOver db [right] usage g) (hpadded : Padded db usage right)
    (hf : f ∈ leftOuter meets (beside [left]) (fun f => beside [left] f (nullRow [right])) as bs) :
    RowOver db [left, right] usage f := by
  obtain ⟨a, ha, h⟩ := mem_leftOuter hf
  rcases h with ⟨b, hb, rfl⟩ | rfl
  · exact beside_rowOver (has a ha) (hbs b hb)
  · exact beside_rowOver (has a ha) hpadded.rowOver

theorem Ready.rowOver (h : Ready db usage plan) (hf : f ∈ plan.rows db) :
    RowOver db plan.relations usage f := by
  induction plan using LogicalPlan.induction generalizing usage f with
  | relation tableAlias table =>
      obtain ⟨info, hinfo, _⟩ := h
      exact hinfo.rowOver hf
  | selection child es ih =>
      exact (ih h.1 (List.mem_filter.mp hf).1).mono fun k hk => keeps_addColumns.mpr (.inl hk)
  | cartesianProduct children ih =>
      rw [LogicalPlan.rows, rowsOfEach_eq] at hf
      exact product_rowOver (fun c hc f hf => ih c hc (readyEach_iff.mp h.2 c hc) hf) hf
  | join children joins ih =>
      rw [LogicalPlan.rows, rowsOfEach_eq] at hf
      exact (product_rowOver (fun c hc f hf => ih c hc (readyEach_iff.mp h.2 c hc) hf)
        (List.mem_filter.mp hf).1).mono fun k hk => ColumnUsage.keeps_addAll hk
  | leftOuterJoin tableAlias lchild rchild on ihl ihr =>
      obtain ⟨⟨left, right, hleft, hright, _, _, hpadded⟩, hl, hr⟩ := h
      rw [LogicalPlan.rows, hleft.relations_eq, hright.relations_eq] at hf
      rw [LogicalPlan.relations, hleft.relations_eq, hright.relations_eq]
      exact (leftOuter_rowOver (fun f hf => hleft.relations_eq ▸ ihl hl hf)
        (fun g hg => hright.relations_eq ▸ ihr hr hg) hpadded hf).mono
          fun k hk => ColumnUsage.keeps_addAll hk
  | fullOuterJoin tableAlias lchild rchild on ihl ihr =>
      obtain ⟨⟨left, right, hleft, hright, _, _, hpaddedL, hpaddedR⟩, hl, hr⟩ := h
      have hrows : ∀ g ∈ rchild.rows db, RowOver db [right] (usage.addAll on) g :=
        fun g hg => hright.relations_eq ▸ ihr hr hg
      rw [LogicalPlan.rows, hleft.relations_eq, hright.relations_eq] at hf
      rw [LogicalPlan.relations, hleft.relations_eq, hright.relations_eq]
      have hrow : RowOver db [left, right] (usage.addAll on) f := by
        rcases List.mem_append.mp hf with hf | hf
        · exact leftOuter_rowOver (fun f hf => hleft.relations_eq ▸ ihl hl hf) hrows hpaddedR hf
        · obtain ⟨g, hg, rfl⟩ := List.mem_map.mp hf
          exact beside_rowOver hpaddedL.rowOver (hrows g (List.mem_of_mem_filter hg))
      exact hrow.mono fun k hk => ColumnUsage.keeps_addAll hk
  | projection child distinct limit columns ih => exact h.elim

end Rows

end Iic3413Db.Query
