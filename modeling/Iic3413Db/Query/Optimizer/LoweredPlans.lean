/-
  Query/Optimizer/LoweredPlans.lean --- the lowering of a plan preserves its meaning.

  By induction on the plan: the iterator of each node delivers the rows of the node, in some
  order, and its columns are columns of the relations below.
-/
import Iic3413Db.Query.Optimizer.LoweredOuterJoins
import Iic3413Db.Query.Parser.JoinMeaning

set_option autoImplicit false

namespace Iic3413Db.Query

open Iic3413Db.Foundation Iic3413Db.RelationalModel
open Iic3413Db.System (Catalog TableColumn TableInfo)
open Iic3413Db.System.Catalog (ridName)
open QueryIter

variable (db : Snapshot)

/-! ## Relations -/

/-- The rows of the tables do not change during the query. -/
def Snapshot.scans (id : System.TableId) (_ : Nat) : List Record := db.contents id

section Relations

variable {db} {usage : ColumnUsage} {t : FromTable} {info : TableInfo} {k : ColumnKey}

/-- The values of the first columns stand where those of the columns kept are looked for. -/
theorem zip_keptColumns {tableAlias : Identifier} {cols : List TableColumn}
    (h : cols.Pairwise fun c d =>
      usage.keeps (tableAlias, d.name) = true → usage.keeps (tableAlias, c.name) = true)
    (hk : usage.keeps k = true) (vs : List Value) :
    (Row.zip ((keptColumns usage tableAlias cols).map fun col => (tableAlias, col.name)) vs :
        Row ColumnKey Value) k =
      (Row.zip (cols.map fun col => (tableAlias, col.name)) vs : Row ColumnKey Value) k := by
  induction cols generalizing vs with
  | nil => rfl
  | cons d cols ih =>
      obtain ⟨hd, hcols⟩ := List.pairwise_cons.mp h
      unfold keptColumns
      split
      · cases vs with
        | nil => rfl
        | cons v vs => rw [List.map_cons, List.map_cons, Row.zip_cons, Row.zip_cons, ih hcols]
      · -- no column from here on is in use
        rename_i hunkept
        obtain ⟨hunused, _⟩ := not_or.mp hunkept
        have hlater : ∀ e ∈ d :: cols, k ≠ (tableAlias, e.name) := by
          rintro e he rfl
          rcases List.mem_cons.mp he with rfl | he
          · exact hunused hk
          · exact hunused (hd e he hk)
        rw [Row.zip_eq_none, Row.zip_eq_none]
        · intro hmem
          obtain ⟨e, he, rfl⟩ := List.mem_map.mp hmem
          exact hlater e he rfl
        · intro hmem
          obtain ⟨e, he, rfl⟩ := List.mem_map.mp hmem
          exact hlater e (List.mem_cons_of_mem d (keptColumns_mem.1 e he)) rfl

/-- The scan of a table. -/
theorem visitRelation_delivered (h : StoredTable db t.table info)
    (hfirst : UsedFirst usage t.tableAlias info) :
    ∃ it, visitRelation db.catalog db.txId db.scans usage t.tableAlias t.table = .ok it ∧
      it.getColumns = (keptColumns usage t.tableAlias info.columns).map t.column ∧
      Delivered (ColumnOf db [t]) usage it (tableRows db t) := by
  obtain ⟨declared, hcolumns⟩ := h.ridLast
  have hlast : ∀ c, info.columns.getLast? = some c → c.datatype = .rid := by
    intro c hc
    rw [hcolumns, List.getLast?_concat] at hc
    cases hc
    rfl
  have hcolumn : ∀ col ∈ info.columns, ColumnOf db [t] (t.column col) :=
    fun col hcol => ⟨List.mem_singleton_self t, info, h.found, col, hcol, rfl, rfl⟩
  obtain ⟨ps, hps⟩ := relationColumnsFrom_ok usage t.tableAlias t.table 0 hlast
  have hkept := relationColumnsFrom_kept hps
  refine ⟨.relation ⟨db.scans info.tableId, 0, db.contents info.tableId⟩ ps, ?_, ?_, ?_⟩
  · simp only [visitRelation, h.found, hps, Outcome.ok_bind]
    rfl
  · rw [getColumns, hkept]
    rfl
  · have hvalid : ∀ r ∈ db.contents info.tableId, r.invalid = false := by
      intro r hr
      have hlength := h.length hr
      rw [hcolumns, List.length_append, List.length_singleton] at hlength
      rw [Record.invalid, List.isEmpty_eq_false_iff, ← List.length_pos_iff, ← hlength]
      exact Nat.succ_pos _
    refine ⟨_, relation_feeds fun _ => hvalid, ?_⟩
    rw [h.rows_eq, List.forall₂_map_right_iff, List.forall₂_same]
    intro r hr
    constructor
    · rw [getColumns, hkept, List.length_map, ← h.length hr]
      exact keptColumns_length_le usage t.tableAlias info.columns
    · intro c hc hused
      have hmap : ((keptColumns usage t.tableAlias info.columns).map
          (Column.mk t.tableAlias t.table)).map Column.key =
            (keptColumns usage t.tableAlias info.columns).map fun col =>
              (t.tableAlias, col.name) := List.map_map
      rw [rowOf, getColumns, hkept, hmap, zip_keptColumns hfirst hused]
      refine Row.zip_map_congr (fun col hcol => ⟨fun hkey => ?_, fun hsource => ?_⟩) r.values
      · exact h.keysDecide c (t.column col) hc (hcolumn col hcol) hused hkey
      · rw [Column.source, Prod.mk.injEq, Prod.mk.injEq] at hsource
        obtain ⟨rfl, hname, _⟩ := hsource
        exact Prod.ext rfl hname

end Relations

/-! ## Products and joins -/

section Children

variable {db} {usage : ColumnUsage}
  {joinOrder : List LogicalPlan → List JoinPair → List Nat} {plan : LogicalPlan}
  {children : List LogicalPlan}

/-- The visit of the plan returns an iterator for its rows. -/
structure Lowers (db : Snapshot) (joinOrder : List LogicalPlan → List JoinPair → List Nat)
    (usage : ColumnUsage) (plan : LogicalPlan) (it : QueryIter) (rows : List PlanRow) : Prop where
  visits : visitPlan db.catalog db.txId db.scans db.likeMatch joinOrder usage plan = .ok it
  columns : ∀ c ∈ it.getColumns, ColumnOf db plan.relations c
  delivered : Delivered (ColumnOf db plan.relations) usage it rows
  perm : rows.Perm (plan.rows db)

/-- The alias says which child a column is of. -/
theorem Lowers.widen {it : QueryIter} {rows : List PlanRow}
    (h : Lowers db joinOrder usage plan it rows) (hplan : plan ∈ children)
    (hapart : AliasesApart children)
    (hrows : ∀ f ∈ plan.rows db, RowOver db plan.relations usage f) :
    Delivered (ColumnOf db (relationsOf children)) usage it rows := by
  refine h.delivered.widen fun f hf c hc _ => ?_
  obtain ⟨other, hother, hcother⟩ := columnOf_children hc
  by_cases hsame : other = plan
  · exact .inl (hsame ▸ hcother)
  · refine .inr ⟨fun hkey => hsame ?_, by_contra fun hne => hsame ?_⟩
    · obtain ⟨d, hd, hkey⟩ := List.mem_map.mp hkey
      have halias : c.tableAlias = d.tableAlias := (congrArg Prod.fst hkey).symm
      exact hapart.eq_of_alias hother hplan hcother.1 (h.columns d hd).1 halias
    · have hrow := hrows f (h.perm.mem_iff.mp hf)
      have hsource : c.source.1 ∈ plan.relations := hrow.ofRelations _ hne
      exact hapart.eq_of_alias hother hplan hcother.1 hsource rfl

/-- The iterators of some plans, with the rows they are for. -/
structure LowersEach (db : Snapshot) (joinOrder : List LogicalPlan → List JoinPair → List Nat)
    (relations : List FromTable) (usage : ColumnUsage) (plans : List LogicalPlan)
    (its : List QueryIter) (tables : List (List PlanRow)) : Prop where
  visits : (plans.map (visitPlan db.catalog db.txId db.scans db.likeMatch joinOrder usage)).mapM
    id = .ok its
  columns : List.Forall₂ (fun plan it => ∀ c ∈ it.getColumns, ColumnOf db plan.relations c)
    plans its
  delivered : List.Forall₂ (Delivered (ColumnOf db relations) usage) its tables
  perm : List.Forall₂ List.Perm tables (plans.map (LogicalPlan.rows db))

/-- The visits of some children of a product or a join. -/
theorem exists_lowersEach {plans : List LogicalPlan} (hsub : ∀ plan ∈ plans, plan ∈ children)
    (hapart : AliasesApart children)
    (hrows : ∀ plan ∈ children, ∀ f ∈ plan.rows db, RowOver db plan.relations usage f)
    (h : ∀ plan ∈ plans, ∃ it rows, Lowers db joinOrder usage plan it rows) :
    ∃ its tables, LowersEach db joinOrder (relationsOf children) usage plans its tables := by
  induction plans with
  | nil => exact ⟨[], [], rfl, .nil, .nil, .nil⟩
  | cons plan plans ih =>
      obtain ⟨hmem, hmems⟩ := List.forall_mem_cons.mp hsub
      obtain ⟨⟨it, rows, hplan⟩, hplans⟩ := List.forall_mem_cons.mp h
      obtain ⟨its, tables, heach⟩ := ih hmems hplans
      refine ⟨it :: its, rows :: tables, ?_, .cons hplan.columns heach.columns,
        .cons (hplan.widen hmem hapart (hrows plan hmem)) heach.delivered,
        .cons hplan.perm heach.perm⟩
      rw [List.map_cons, Outcome.mapM_cons, id, hplan.visits, Outcome.ok_bind, heach.visits]
      rfl

/-- Where the columns of a chain come from. -/
theorem foldl_joinStep_columns {joins : List JoinPair} {its : List QueryIter} {it : QueryIter}
    {c : Column} (h : c ∈ (its.foldl (joinStep usage joins) it).getColumns) :
    ∃ x ∈ it :: its, c ∈ x.getColumns := by
  induction its generalizing it with
  | nil => exact ⟨it, List.mem_cons_self, h⟩
  | cons rhs its ih =>
      obtain ⟨x, hx, hc⟩ := ih h
      rcases List.mem_cons.mp hx with rfl | hx
      · rw [joinStep_columns] at hc
        rcases List.mem_append.mp hc with hc | hc
        · exact ⟨it, List.mem_cons_self, List.mem_of_mem_filter hc⟩
        · exact ⟨rhs, List.mem_cons_of_mem it List.mem_cons_self, List.mem_of_mem_filter hc⟩
      · exact ⟨x, List.mem_cons_of_mem it (List.mem_cons_of_mem rhs hx), hc⟩

theorem LowersEach.columns_mem {relations : List FromTable} {its : List QueryIter}
    {tables : List (List PlanRow)}
    (h : LowersEach db joinOrder relations usage children its tables) {it : QueryIter} {c : Column}
    (hit : it ∈ its) (hc : c ∈ it.getColumns) : ColumnOf db (relationsOf children) c := by
  obtain ⟨plan, hplan, hcolumns⟩ := forall₂_left h.columns.flip hit
  exact (hcolumns c hc).mono (relations_sub hplan)

/-- A product, when one of the first two children has a column in use. -/
theorem visitProduct_lowers {its : List QueryIter} {tables : List (List PlanRow)}
    (h : LowersEach db joinOrder (relationsOf children) usage children its tables)
    (htwo : 2 ≤ children.length)
    (hused : ∃ child ∈ children.take 2, ∃ c, ColumnOf db child.relations c ∧ usage.uses c = true)
    (hrows : ∀ child ∈ children, ∀ f ∈ child.rows db, RowOver db child.relations usage f) :
    ∃ it, Lowers db joinOrder usage (.cartesianProduct children) it (product tables) := by
  match children, its, tables, h, htwo with
  | c :: d :: cs, x :: y :: its, as :: bs :: tables, h, htwo =>
      obtain ⟨hpermC, hperms⟩ := List.forall₂_cons.mp h.perm
      obtain ⟨hpermD, _⟩ := List.forall₂_cons.mp hperms
      have hseen : ∀ f ∈ as, ∀ g ∈ bs,
          Seen (ColumnOf db (relationsOf (c :: d :: cs))) usage (f.merge g) := by
        intro f hf g hg
        obtain ⟨child, hchild, col, hcol, huse⟩ := hused
        have hmem : child ∈ c :: d :: cs := List.mem_of_mem_take hchild
        have hknown : ColumnOf db (relationsOf (c :: d :: cs)) col :=
          hcol.mono (relations_sub hmem)
        rcases List.mem_pair.mp hchild with rfl | rfl
        · have hrow := hrows child hmem f (hpermC.mem_iff.mp hf)
          exact Seen.merge_left ⟨col, hknown, huse, hrow.whole col hcol huse⟩
        · have hrow := hrows child hmem g (hpermD.mem_iff.mp hg)
          exact Seen.merge_right ⟨col, hknown, huse, hrow.whole col hcol huse⟩
      obtain ⟨it, hit, hdelivered⟩ := visitCartesianProduct_delivered h.delivered hseen
      refine ⟨it, ?_, ?_, hdelivered, ?_⟩
      · rw [visitPlan, if_neg (Nat.not_lt.mpr htwo), visitPlans_eq, h.visits, Outcome.ok_bind, hit]
      · cases hit
        intro col hcol
        have hstep : productStep usage = joinStep usage [] := rfl
        rw [hstep] at hcol
        obtain ⟨z, hz, hcol⟩ := foldl_joinStep_columns hcol
        exact h.columns_mem hz hcol
      · rw [LogicalPlan.rows, rowsOfEach_eq]
        exact product_congr h.perm

/-! ### Joins -/

/-- The alias of the first relation. -/
def LogicalPlan.firstAlias (plan : LogicalPlan) : Identifier :=
  (plan.relations.head?.map FromTable.tableAlias).getD []

variable {joins : List JoinPair} {order : List Nat} {f : PlanRow}

theorem ChildrenMeet.relations_ne_nil (h : ChildrenMeet db children joins) :
    ∀ c ∈ children, c.relations ≠ [] := by
  intro c hc
  obtain ⟨p, _, hp⟩ := h.takesPart c hc
  rcases hp with hp | hp
  · exact List.ne_nil_of_mem hp.1
  · exact List.ne_nil_of_mem hp.1

theorem ChildrenMeet.alias_eq (h : ChildrenMeet db children joins) {c : LogicalPlan}
    (hc : c ∈ children) {t : FromTable} (ht : t ∈ c.relations) : t.tableAlias = c.firstAlias := by
  unfold LogicalPlan.firstAlias
  cases hrelations : c.relations with
  | nil =>
      rw [hrelations] at ht
      cases ht
  | cons u us =>
      refine h.oneAlias c hc t ht u ?_
      rw [hrelations]
      exact List.mem_cons_self

theorem ChildrenMeet.aliases_nodup (h : ChildrenMeet db children joins) :
    (children.map LogicalPlan.firstAlias).Nodup := by
  refine List.pairwise_map.mpr (h.apart.imp_of_mem fun {c d} hc hd hapart heq => ?_)
  obtain ⟨t, ht⟩ := List.exists_mem_of_ne_nil _ (h.relations_ne_nil c hc)
  obtain ⟨u, hu⟩ := List.exists_mem_of_ne_nil _ (h.relations_ne_nil d hd)
  exact hapart t ht u hu ((h.alias_eq hc ht).trans (heq.trans (h.alias_eq hd hu).symm))

/-- A row of one child has at most one column of each pair. -/
theorem ChildrenMeet.row_sat (h : ChildrenMeet db children joins) {c : LogicalPlan}
    (hc : c ∈ children) (hf : RowOver db c.relations (usage.addAll joins) f) :
    Row.sat (joinSources joins) f = true := by
  refine Row.sat_of_missing fun e he => ?_
  obtain ⟨p, hp, rfl⟩ := List.mem_map.mp he
  by_contra hboth
  obtain ⟨h₁, h₂⟩ := not_or.mp hboth
  exact (h.pairs p hp).1 (h.oneAlias c hc _ (hf.ofRelations _ h₁) _ (hf.ofRelations _ h₂))

/-- Rows with all their columns, in which the equalities hold. -/
theorem passes_joins {relations : List FromTable}
    (hf : RowOver db relations (usage.addAll joins) f)
    (hpairs : ∀ p ∈ joins, ColumnOf db relations p.1 ∧ ColumnOf db relations p.2) :
    passes db.likeMatch (joins.map equalityOf) f = Row.sat (joinSources joins) f := by
  rw [passes, Row.sat, joinSources, List.all_map, List.all_map, Bool.eq_iff_iff,
    List.all_eq_true, List.all_eq_true]
  refine forall₂_congr fun p hp => ?_
  obtain ⟨hused, hused'⟩ : (usage.addAll joins).keeps p.1.key = true ∧
      (usage.addAll joins).keeps p.2.key = true := ColumnUsage.addAll_keeps hp
  obtain ⟨v, hv⟩ := Option.ne_none_iff_exists'.mp (hf.whole _ (hpairs p hp).1 hused)
  obtain ⟨w, hw⟩ := Option.ne_none_iff_exists'.mp (hf.whole _ (hpairs p hp).2 hused')
  rw [Function.comp_apply, Function.comp_apply, holds, equalityOf, ExprPlan.valueIn,
    ExprPlan.valueIn, ExprPlan.valueIn, hv, hw]
  by_cases heq : v = w
  · simp [comparedIn, truth, Row.sameValue, heq]
  · simp [comparedIn, truth, Row.sameValue, heq]

/-- The children in an order. -/
theorem inOrder_perm {α : Type} (children : List α) (h : order.Perm (List.range children.length)) :
    (order.filterMap fun i => children[i]?).Perm children := by
  have hall : (List.range children.length).filterMap (fun i => children[i]?) = children := by
    rw [List.range_eq_range']
    exact filterMap_range' [] children
  have hperm : (order.filterMap fun i => children[i]?).Perm _ := h.filterMap _
  rwa [hall] at hperm

theorem mapM_childAt (h : ∀ i ∈ order, i < children.length) :
    order.mapM (childAt (visitPlans db.catalog db.txId db.scans db.likeMatch joinOrder usage
      children)) =
      ((order.filterMap fun i => children[i]?).map
        (visitPlan db.catalog db.txId db.scans db.likeMatch joinOrder usage)).mapM id := by
  induction order with
  | nil => rfl
  | cons i order ih =>
      obtain ⟨hi, horder⟩ := List.forall_mem_cons.mp h
      have hchild : children[i]? = some children[i] := List.getElem?_eq_getElem hi
      rw [Outcome.mapM_cons, childAt_plans hchild, ih horder, List.filterMap_cons_some hchild,
        List.map_cons, Outcome.mapM_cons]
      rfl

theorem tablesApart_congr {tables tables' : List (List PlanRow)}
    (h : List.Forall₂ List.Perm tables tables') (hapart : tables'.Pairwise TablesApart) :
    tables.Pairwise TablesApart := by
  induction h with
  | nil => exact .nil
  | @cons as as' tables tables' hperm hperms ih =>
      obtain ⟨has, htables⟩ := List.pairwise_cons.mp hapart
      refine List.pairwise_cons.mpr ⟨fun bs hbs f hf g hg => ?_, ih htables⟩
      obtain ⟨bs', hbs', hpermB⟩ := forall₂_left hperms hbs
      exact has bs' hbs' f (hperm.mem_iff.mp hf) g (hpermB.mem_iff.mp hg)

theorem ChildrenMeet.tablesApart (h : ChildrenMeet db children joins)
    (hrows : ∀ child ∈ children, ∀ f ∈ child.rows db, RowOver db child.relations usage f) :
    (children.map (LogicalPlan.rows db)).Pairwise TablesApart := by
  refine List.pairwise_map.mpr (h.apart.imp_of_mem fun {c d} hc hd hapart f hf g hg => ?_)
  refine (hrows c hc f hf).ofRelations.apart (hrows d hd g hg).ofRelations fun k hk hk' => ?_
  exact hapart k.1 hk k.1 hk' rfl

/-- The first child of any order has a column in use. -/
theorem ChildrenMeet.seen (h : ChildrenMeet db children joins) {c : LogicalPlan}
    (hc : c ∈ children) (hf : RowOver db c.relations (usage.addAll joins) f) :
    Seen (ColumnOf db (relationsOf children)) (usage.addAll joins) f := by
  have hknown : ∀ col, ColumnOf db c.relations col → ColumnOf db (relationsOf children) col :=
    fun col hcol => hcol.mono (relations_sub hc)
  obtain ⟨p, hp, hcol⟩ := h.takesPart c hc
  have hused : (usage.addAll joins).keeps p.1.key = true ∧
      (usage.addAll joins).keeps p.2.key = true := ColumnUsage.addAll_keeps hp
  rcases hcol with hcol | hcol
  · exact ⟨p.1, hknown _ hcol, hused.1, hf.whole _ hcol hused.1⟩
  · exact ⟨p.2, hknown _ hcol, hused.2, hf.whole _ hcol hused.2⟩

/-- A join, in the order that was chosen. -/
theorem visitJoin_lowers {its : List QueryIter} {tables : List (List PlanRow)}
    (horder : (joinOrder children joins).Perm (List.range children.length))
    (h : LowersEach db joinOrder (relationsOf children) (usage.addAll joins)
      ((joinOrder children joins).filterMap fun i => children[i]?) its tables)
    (hmeet : ChildrenMeet db children joins)
    (hrows : ∀ child ∈ children, ∀ f ∈ child.rows db,
      RowOver db child.relations (usage.addAll joins) f) :
    ∃ it rows, Lowers db joinOrder usage (.join children joins) it rows := by
  have hperm := inOrder_perm children horder
  have hvisits := h.visits
  rw [← mapM_childAt fun i hi => List.mem_range.mp (horder.mem_iff.mp hi)] at hvisits
  obtain ⟨ordered, hordered⟩ :
      ∃ ordered, ordered = (joinOrder children joins).filterMap fun i => children[i]? := ⟨_, rfl⟩
  rw [← hordered] at h hperm
  match ordered, its, tables, h with
  | [], _, _, _ => exact absurd (List.Perm.nil_eq hperm).symm hmeet.some
  | c :: cs, x :: its, as :: tables, h =>
      obtain ⟨hx, hits⟩ := List.forall₂_cons.mp h.delivered
      obtain ⟨hpermC, _⟩ := List.forall₂_cons.mp h.perm
      obtain ⟨hcolumnsX, hcolumns⟩ := List.forall₂_cons.mp h.columns
      have hmem : ∀ d ∈ c :: cs, d ∈ children := fun d hd => hperm.mem_iff.mp hd
      have hc := hmem c List.mem_cons_self
      have haliases : List.Forall₂ UnderAlias its (cs.map LogicalPlan.firstAlias) := by
        refine List.forall₂_map_right_iff.mpr ((forall₂_mem hcolumns.flip).imp ?_)
        rintro it plan ⟨hcol, hplan⟩ d hd
        exact hmeet.alias_eq (hmem plan (List.mem_cons_of_mem c hplan)) (hcol d hd).1
      have hnodup : ([c.firstAlias] ++ cs.map LogicalPlan.firstAlias).Nodup :=
        (hperm.map LogicalPlan.firstAlias).nodup_iff.mpr hmeet.aliases_nodup
      have hjoins : PairsUsed (ColumnOf db (relationsOf children)) (usage.addAll joins) joins :=
        fun p hp =>
          have hused := ColumnUsage.addAll_keeps hp
          ⟨⟨(hmeet.pairs p hp).2.1, hused.1⟩, (hmeet.pairs p hp).2.2, hused.2⟩
      have hchain := foldl_joinStep_delivered hjoins hits haliases hx
        (fun f hf => hmeet.seen hc (hrows c hc f (hpermC.mem_iff.mp hf)))
        (fun d hd => List.mem_singleton.mpr (hmeet.alias_eq hc (hcolumnsX d hd).1)) hnodup
      refine ⟨_, _, ?_, ?_, hchain.mono fun k hk => ColumnUsage.keeps_addAll hk, ?_⟩
      · rw [visitPlan]
        dsimp only
        rw [beamSearchJoinOrder, if_pos hmeet.few, Outcome.ok_bind, hvisits]
        rfl
      · intro d hd
        obtain ⟨it, hit, hd⟩ := foldl_joinStep_columns hd
        refine (h.columns_mem hit hd).mono fun t ht => ?_
        rw [relationsOf_eq] at ht
        obtain ⟨plan, hplan, ht⟩ := List.mem_flatMap.mp ht
        exact relations_sub (hmem plan hplan) t ht
      · have hapart : ((c :: cs).map (LogicalPlan.rows db)).Pairwise TablesApart :=
          (hmeet.tablesApart hrows).perm (hperm.map _).symm fun h => h.symm
        have hproduct : (product (as :: tables)).Perm
            (product (children.map (LogicalPlan.rows db))) :=
          (product_congr h.perm).trans (product_perm (hperm.map _) hapart)
        have hsat : ∀ table ∈ as :: tables, ∀ f ∈ table,
            Row.sat (joinSources joins) f = true := by
          intro table htable f hf
          obtain ⟨rows, hrowsMem, hpermT⟩ := forall₂_left h.perm htable
          obtain ⟨d, hd, rfl⟩ := List.mem_map.mp hrowsMem
          exact hmeet.row_sat (hmem d hd) (hrows d (hmem d hd) f (hpermT.mem_iff.mp hf))
        obtain ⟨hsatAs, hsatTables⟩ := List.forall_mem_cons.mp hsat
        have hjoined : tables.foldl (matching (joinSources joins)) as =
            (product (as :: tables)).filter (Row.sat (joinSources joins)) := by
          have hall := foldl_matching (tablesApart_congr h.perm hapart) hsatTables
          rwa [List.filter_eq_self.mpr hsatAs, foldl_times, ← product_cons] at hall
        rw [hjoined, LogicalPlan.rows, rowsOfEach_eq]
        refine (hproduct.filter _).trans (.of_eq (List.filter_congr fun f hf => ?_))
        exact (passes_joins (product_rowOver hrows hf) fun p hp => (hmeet.pairs p hp).2).symm

end Children

/-! ## Outer joins -/

section Sides

variable {db} {usage : ColumnUsage} {joinOrder : List LogicalPlan → List JoinPair → List Nat}
  {plan lchild rchild : LogicalPlan} {t : FromTable} {it lhs rhs : QueryIter}
  {rows as bs : List PlanRow} {tableAlias : Identifier} {on : List JoinPair}

/-- An input of an outer join is one side of it. -/
theorem Lowers.side
    (horder : ∀ children joins, (joinOrder children joins).Perm (List.range children.length))
    (h : Lowers db joinOrder usage plan it rows) (hready : Ready db usage plan)
    (hinput : InputOf t plan) : ∃ info, Side db t info usage it rows := by
  have hkeys : ∀ c, ColumnOf db [t] c → usage.uses c = true → HasKey it c.key := by
    intro c hc hused
    rw [← hinput.relations_eq] at hc
    exact visitPlan_hasKey horder hready.scoped h.visits hc.offers hused
  have hdelivered := h.delivered
  rw [hinput.relations_eq] at hdelivered
  have hmem : ∀ f ∈ rows, f ∈ plan.rows db := fun f hf => h.perm.mem_iff.mp hf
  -- the columns are those that the scan of the table keeps
  have hscan : ∀ {info usage' it'}, StoredTable db t.table info →
      UsedFirst usage' t.tableAlias info →
      visitRelation db.catalog db.txId db.scans usage' t.tableAlias t.table = .ok it' →
      it'.getColumns = (keptColumns usage' t.tableAlias info.columns).map t.column := by
    intro info usage' it' hinfo hfirst hit'
    obtain ⟨found, hfound, hcolumns, _⟩ := visitRelation_delivered hinfo hfirst
    rw [hit'] at hfound
    cases hfound
    exact hcolumns
  cases plan with
  | relation tableAlias table =>
      obtain rfl := hinput
      obtain ⟨info, hinfo, hfirst⟩ := hready
      have hvisits := h.visits
      rw [visitPlan] at hvisits
      exact ⟨info, hinfo, ⟨usage, hscan hinfo hfirst hvisits⟩, hkeys, hdelivered, hmem⟩
  | selection child es =>
      cases child with
      | relation tableAlias table =>
          obtain rfl := hinput
          obtain ⟨⟨info, hinfo, hfirst⟩, _⟩ := hready
          have hvisits := h.visits
          rw [visitPlan, visitPlan] at hvisits
          obtain ⟨it', hit', hvisits⟩ := Outcome.of_bind_ok hvisits
          obtain ⟨lowered, _, hvisits⟩ := Outcome.of_bind_ok hvisits
          cases hvisits
          have hcolumns := (selectionOver_getColumns it' lowered).trans (hscan hinfo hfirst hit')
          exact ⟨info, hinfo, ⟨_, hcolumns⟩, hkeys, hdelivered,
            fun f hf => (List.mem_filter.mp (hmem f hf)).1⟩
      | selection | cartesianProduct | join | leftOuterJoin | fullOuterJoin | projection =>
          exact hinput.elim
  | cartesianProduct | join | leftOuterJoin | fullOuterJoin | projection => exact hinput.elim

variable {left right : FromTable} {infoL infoR : TableInfo}

/-- The columns of both sides are columns of the join. -/
theorem OuterSides.columns (sides : OuterSides db usage left right infoL infoR on lhs rhs as bs)
    (hit : it.getColumns = lhs.getColumns.filter (usage.addAll on).uses ++
      rhs.getColumns.filter (usage.addAll on).uses) :
    ∀ c ∈ it.getColumns, ColumnOf db [left, right] c := by
  intro c hc
  rw [hit] at hc
  rcases List.mem_append.mp hc with hc | hc
  · exact (sides.sideL.columnOf (List.mem_of_mem_filter hc)).mono fun t ht =>
      List.mem_cons.mpr (.inl (List.mem_singleton.mp ht))
  · exact (sides.sideR.columnOf (List.mem_of_mem_filter hc)).mono fun t ht =>
      List.mem_cons_of_mem left ht

theorem leftOuterJoin_lowers (hleft : InputOf left lchild) (hright : InputOf right rchild)
    (hl : Lowers db joinOrder (usage.addAll on) lchild lhs as)
    (hr : Lowers db joinOrder (usage.addAll on) rchild rhs bs)
    (sides : OuterSides db usage left right infoL infoR on lhs rhs as bs)
    (hpadded : Padded db (usage.addAll on) right) :
    ∃ it rows, Lowers db joinOrder usage (.leftOuterJoin tableAlias lchild rchild on) it rows := by
  have hrelations : (LogicalPlan.leftOuterJoin tableAlias lchild rchild on).relations =
      [left, right] := by
    rw [LogicalPlan.relations, hleft.relations_eq, hright.relations_eq]
    rfl
  obtain ⟨rows, hdelivered, hperm⟩ := sides.leftOuterJoin_delivered hpadded
  refine ⟨.leftOuterJoin lhs rhs (outerColumns (usage.addAll on) on lhs rhs) Record.empty false
    false, rows, ?_, ?_, ?_, ?_⟩
  · rw [visitPlan]
    dsimp only
    rw [hl.visits, Outcome.ok_bind, hr.visits, Outcome.ok_bind]
    exact requireEqualities_ok.mpr ⟨sides.equalities_ne_nil, rfl⟩
  · rw [hrelations]
    refine sides.columns ?_
    rw [getColumns, outerColumns, projectedColumns_col, projectedColumns_col]
  · rw [hrelations]
    exact hdelivered
  · rw [LogicalPlan.rows, hleft.relations_eq, hright.relations_eq]
    exact hperm.trans (leftOuter_perm hl.perm hr.perm)

theorem fullOuterJoin_lowers (hleft : InputOf left lchild) (hright : InputOf right rchild)
    (hl : Lowers db joinOrder (usage.addAll on) lchild lhs as)
    (hr : Lowers db joinOrder (usage.addAll on) rchild rhs bs)
    (sides : OuterSides db usage left right infoL infoR on lhs rhs as bs)
    (hpaddedL : Padded db (usage.addAll on) left) (hpaddedR : Padded db (usage.addAll on) right) :
    ∃ it rows, Lowers db joinOrder usage (.fullOuterJoin tableAlias lchild rchild on) it rows := by
  have hrelations : (LogicalPlan.fullOuterJoin tableAlias lchild rchild on).relations =
      [left, right] := by
    rw [LogicalPlan.relations, hleft.relations_eq, hright.relations_eq]
    rfl
  obtain ⟨rows, hdelivered, hperm⟩ := sides.fullOuterJoin_delivered hpaddedL hpaddedR
  refine ⟨.fullOuterJoin lhs rhs (outerColumns (usage.addAll on) on lhs rhs) Record.empty false
    false false 0 [], rows, ?_, ?_, ?_, ?_⟩
  · rw [visitPlan]
    dsimp only
    rw [hl.visits, Outcome.ok_bind, hr.visits, Outcome.ok_bind]
    exact requireEqualities_ok.mpr ⟨sides.equalities_ne_nil, rfl⟩
  · rw [hrelations]
    refine sides.columns ?_
    rw [getColumns, outerColumns, projectedColumns_col, projectedColumns_col]
  · rw [hrelations]
    exact hdelivered
  · rw [LogicalPlan.rows, hleft.relations_eq, hright.relations_eq]
    exact hperm.trans (fullOuter_perm hl.perm hr.perm)

end Sides

/-! ## Plans -/

section Plans

variable {db} {usage : ColumnUsage}
  {joinOrder : List LogicalPlan → List JoinPair → List Nat} {plan : LogicalPlan}

/-- The iterator of a plan delivers the rows of the plan. -/
theorem visitPlan_lowers
    (horder : ∀ children joins, (joinOrder children joins).Perm (List.range children.length))
    (hready : Ready db usage plan) :
    ∃ it rows, Lowers db joinOrder usage plan it rows := by
  induction plan using LogicalPlan.induction generalizing usage with
  | relation tableAlias table =>
      obtain ⟨info, hinfo, hfirst⟩ := id hready
      obtain ⟨it, hit, hcolumns, hdelivered⟩ :=
        @visitRelation_delivered _ usage ⟨tableAlias, table⟩ info hinfo hfirst
      refine ⟨it, _, ?_, fun c hc => ?_, hdelivered, .refl _⟩
      · rw [visitPlan]
        exact hit
      · rw [hcolumns] at hc
        obtain ⟨col, hcol, rfl⟩ := List.mem_map.mp hc
        exact ⟨List.mem_singleton_self _, info, hinfo.found, col, keptColumns_mem.1 col hcol, rfl,
          rfl⟩
  | selection child es ih =>
      obtain ⟨hchild, hes⟩ := hready
      obtain ⟨it, rows, hlowers⟩ := ih hchild
      have hkept : ∀ e ∈ es, ∀ c ∈ e.mentions,
          (usage.addColumns (es.flatMap ExprPlan.getColumns)).keeps c.key = true := by
        intro e he c hc
        obtain ⟨d, hd, hkey⟩ := ExprPlan.key_mem_getColumns hc
        exact keeps_addColumns.mpr (.inr ⟨d, List.mem_flatMap.mpr ⟨e, he, hd⟩, hkey⟩)
      have hlowered : ∃ lowered,
          es.mapM (lowerExpr db.likeMatch it.getColumns) = .ok lowered := by
        refine Outcome.mapM_ok_iff.mpr fun e he => lowerExpr_ok (hes e he).1 fun c hc => ?_
        exact visitPlan_hasKey horder hchild.scoped hlowers.visits ((hes e he).2.1 c hc).offers
          (hkept e he c hc)
      obtain ⟨lowered, hlowered⟩ := hlowered
      refine ⟨selectionOver it lowered, _, ?_, ?_, selection_delivered hlowers.delivered
        (fun k hk => keeps_addColumns.mpr (.inl hk)) hlowered
        (fun e he c hc => ⟨(hes e he).2.1 c hc, hkept e he c hc⟩)
        (fun f hf e he => (hes e he).2.2 f (hlowers.perm.mem_iff.mp hf)), ?_⟩
      · rw [visitPlan, hlowers.visits, Outcome.ok_bind, hlowered, Outcome.ok_bind]
        rfl
      · rw [selectionOver_getColumns]
        exact hlowers.columns
      · exact hlowers.perm.filter _
  | cartesianProduct children ih =>
      obtain ⟨⟨htwo, hapart, hused⟩, hchildren⟩ := hready
      have hrows : ∀ c ∈ children, ∀ f ∈ c.rows db, RowOver db c.relations usage f :=
        fun c hc f hf => (readyEach_iff.mp hchildren c hc).rowOver hf
      obtain ⟨its, tables, heach⟩ := exists_lowersEach (fun c hc => hc) hapart hrows
        fun c hc => ih c hc (readyEach_iff.mp hchildren c hc)
      obtain ⟨it, hit⟩ := visitProduct_lowers heach htwo hused hrows
      exact ⟨it, _, hit⟩
  | join children joins ih =>
      obtain ⟨hmeet, hchildren⟩ := hready
      have hperm := inOrder_perm children (horder children joins)
      have hrows : ∀ c ∈ children, ∀ f ∈ c.rows db,
          RowOver db c.relations (usage.addAll joins) f :=
        fun c hc f hf => (readyEach_iff.mp hchildren c hc).rowOver hf
      obtain ⟨its, tables, heach⟩ := exists_lowersEach (fun c hc => hperm.mem_iff.mp hc)
        hmeet.apart hrows fun c hc =>
          have hmem := hperm.mem_iff.mp hc
          ih c hmem (readyEach_iff.mp hchildren c hmem)
      exact visitJoin_lowers (horder children joins) heach hmeet hrows
  | leftOuterJoin tableAlias lchild rchild on ihl ihr =>
      obtain ⟨⟨left, right, hleft, hright, hon, hkeys, hpadded⟩, hreadyL, hreadyR⟩ := hready
      obtain ⟨lhs, as, hl⟩ := ihl hreadyL
      obtain ⟨rhs, bs, hr⟩ := ihr hreadyR
      obtain ⟨infoL, sideL⟩ := hl.side horder hreadyL hleft
      obtain ⟨infoR, sideR⟩ := hr.side horder hreadyR hright
      exact leftOuterJoin_lowers hleft hright hl hr ⟨sideL, sideR, hon.aliasLeft.symm ▸ hon, hkeys⟩
        hpadded
  | fullOuterJoin tableAlias lchild rchild on ihl ihr =>
      obtain ⟨⟨left, right, hleft, hright, hon, hkeys, hpaddedL, hpaddedR⟩, hreadyL, hreadyR⟩ :=
        hready
      obtain ⟨lhs, as, hl⟩ := ihl hreadyL
      obtain ⟨rhs, bs, hr⟩ := ihr hreadyR
      obtain ⟨infoL, sideL⟩ := hl.side horder hreadyL hleft
      obtain ⟨infoR, sideR⟩ := hr.side horder hreadyR hright
      exact fullOuterJoin_lowers hleft hright hl hr ⟨sideL, sideR, hon.aliasLeft.symm ▸ hon, hkeys⟩
        hpaddedL hpaddedR
  | projection child distinct limit columns ih => exact hready.elim

end Plans

/-! ## Projections -/

section Projections

variable {db} {known : Column → Prop} {usage : ColumnUsage} {it : QueryIter} {r : Record}
  {f : PlanRow} {columns : List Column}

/-- The values that a projection picks are those that the row shows. -/
theorem pick_shown (h : ShowsRow known usage it r f)
    (hcolumns : ∀ c ∈ columns, known c ∧ usage.uses c = true ∧ f c.source ≠ none) :
    ∃ vs, pick it.getColumns r.values columns = .ok vs ∧ vs.map some = shown columns f := by
  induction columns with
  | nil => exact ⟨[], rfl, rfl⟩
  | cons c columns ih =>
      obtain ⟨⟨hc, hused, hne⟩, hrest⟩ := List.forall_mem_cons.mp hcolumns
      obtain ⟨vs, hvs, hshown⟩ := ih hrest
      obtain ⟨v, hv⟩ := Option.ne_none_iff_exists'.mp hne
      have hkey : c.key ∈ it.getColumns.map Column.key := by
        by_contra hnone
        rw [← h.same c hc hused] at hne
        exact hne (Row.zip_eq_none hnone)
      obtain ⟨j, hj⟩ := Option.isSome_iff_exists.mp (findColumn_isSome.mpr hkey)
      have hvalue : r.values[j]? = some v := (h.found hc hused j hj).trans hv
      refine ⟨v :: vs, ?_, ?_⟩
      · rw [pick, hj]
        dsimp only
        rw [valueAt, hvalue, hvs]
        rfl
      · rw [List.map_cons, hshown, shown, shown, List.map_cons, hv]

/-- The first rows of some are a choice of them. -/
theorem picks_take {α : Type} {limit : Nat} {rows rows' : List α} (h : rows.Perm rows') :
    Picks limit rows' (rows.take limit) :=
  ⟨(List.take_sublist limit rows).subperm.trans h.subperm, by rw [List.length_take, h.length_eq]⟩

end Projections

/-! ## Queries -/

section Queries

variable {db} {joinOrder : List LogicalPlan → List JoinPair → List Nat}
  {child : LogicalPlan} {limit : Nat} {columns : List Column} {it : QueryIter}
  {rows : List PlanRow}

/-- The projection over an iterator that delivers the rows below it. -/
theorem Lowers.results
    (h : Lowers db joinOrder (ColumnUsage.addColumns (fun _ => 0) columns) child it rows)
    (hready : Ready db (ColumnUsage.addColumns (fun _ => 0) columns) child)
    (hcolumns : ∀ c ∈ columns, ColumnOf db child.relations c) (hne : columns ≠ []) :
    ∃ out, createPhysicalPlan db.catalog db.txId db.scans db.likeMatch joinOrder
        (.projection child false limit columns) = .ok (.projection it columns limit 0) ∧
      Drains (.projection it columns limit 0) out ∧
      ResultOf false limit ((child.rows db).map (shown columns))
        (out.map fun r => r.values.map some) := by
  obtain ⟨out, hout, hshows⟩ := h.delivered
  obtain ⟨values, hvalues⟩ : ∃ values : Record → List Value, ∀ r,
      values r = (pick it.getColumns r.values columns).toOption.getD [] := ⟨_, fun _ => rfl⟩
  have hpicked : ∀ r f, ShowsRow (ColumnOf db child.relations)
      (ColumnUsage.addColumns (fun _ => 0) columns) it r f ∧ f ∈ rows →
      pick it.getColumns r.values columns = .ok (values r) ∧
        (values r).map some = shown columns f := by
    rintro r f ⟨hshow, hf⟩
    have hrow := hready.rowOver (h.perm.mem_iff.mp hf)
    obtain ⟨vs, hvs, hshown⟩ := pick_shown hshow fun c hc =>
      have hused := keeps_addColumns.mpr (.inr ⟨c, hc, rfl⟩)
      ⟨hcolumns c hc, hused, hrow.whole c (hcolumns c hc) hused⟩
    have heq : values r = vs := by
      rw [hvalues, hvs]
      rfl
    rw [heq]
    exact ⟨hvs, hshown⟩
  have hpick : ∀ r ∈ out, pick it.getColumns r.values columns = .ok (values r) ∧
      values r ≠ [] := by
    intro r hr
    obtain ⟨f, _, hrf⟩ := forall₂_left (forall₂_mem hshows) hr
    obtain ⟨hvs, hshown⟩ := hpicked r f hrf
    refine ⟨hvs, fun hnil => hne ?_⟩
    rw [hnil, shown] at hshown
    exact List.map_eq_nil_iff.mp hshown.symm
  refine ⟨_, ?_, projection_drains hout.delivers.drains
    (fun r hr => (hpick r hr).1) fun r hr => (hpick r hr).2, ?_⟩
  · rw [createPhysicalPlan, visitPlan, if_neg Bool.false_ne_true, h.visits]
    rfl
  · have hmap : out.map (fun r => (values r).map some) = rows.map (shown columns) := by
      rw [← List.forall₂_eq_eq_eq, List.forall₂_map_left_iff, List.forall₂_map_right_iff]
      exact (forall₂_mem hshows).imp fun r f hrf => (hpicked r f hrf).2
    have hresult : ((out.take limit).map fun r => Record.mk (values r)).map
        (fun r => r.values.map some) = (rows.map (shown columns)).take limit := by
      rw [List.map_map, ← hmap, ← List.map_take]
      rfl
    rw [hresult, ResultOf, if_neg Bool.false_ne_true]
    exact picks_take (h.perm.map _)

/-- The scan of the iterator of a query returns a result of the query. -/
theorem createPhysicalPlan_results
    (horder : ∀ children joins, (joinOrder children joins).Perm (List.range children.length))
    (hready : Ready db (ColumnUsage.addColumns (fun _ => 0) columns) child)
    (hcolumns : ∀ c ∈ columns, ColumnOf db child.relations c) (hne : columns ≠ []) :
    ∃ it out, createPhysicalPlan db.catalog db.txId db.scans db.likeMatch joinOrder
        (.projection child false limit columns) = .ok it ∧
      Drains it out ∧
      ResultOf false limit ((child.rows db).map (shown columns))
        (out.map fun r => r.values.map some) := by
  obtain ⟨it, rows, hlowers⟩ := visitPlan_lowers horder hready
  obtain ⟨out, hplan, hdrains, hresult⟩ := hlowers.results hready hcolumns hne
  exact ⟨_, out, hplan, hdrains, hresult⟩

end Queries

/-! ## The tables `l` and `r` -/

/-- The columns of `SELECT j.x, j.y` from the join of `l` and `r`. -/
def xAndY : List Column := [⟨[106], [108], ⟨[120], .int, 0⟩⟩, ⟨[106], [114], ⟨[121], .int, 1⟩⟩]

theorem leftTable_stored : StoredTable oneLeftRow [108] leftTable where
  found := rfl
  ridLast := ⟨[⟨[105, 100], .int, 0⟩, ⟨[120], .int, 0⟩], rfl⟩
  names := by decide
  fits := List.forall_mem_singleton.mpr (.cons rfl (.cons rfl (.cons rfl .nil)))

theorem rightTable_stored : StoredTable oneLeftRow [114] rightTable where
  found := rfl
  ridLast := ⟨[⟨[105, 100], .int, 1⟩, ⟨[121], .int, 1⟩], rfl⟩
  names := by decide
  fits := fun r hr => by cases hr

/-- The row of `l` has no partner, and the columns `id` of both tables have one key. -/
theorem createPhysicalPlan_results_xAndY :
    ∃ it out, createPhysicalPlan twoTables 1 oneLeftRow.scans (fun _ _ => true)
        (fun children _ => List.range children.length)
        (.projection (leftJoinPlan idJoins) false 10 xAndY) = .ok it ∧
      Drains it out ∧
      ResultOf false 10 (((leftJoinPlan idJoins).rows oneLeftRow).map (shown xAndY))
        (out.map fun r => r.values.map some) := by
  have hready : Ready oneLeftRow (ColumnUsage.addColumns (fun _ => 0) xAndY)
      (leftJoinPlan idJoins) := by
    refine ⟨⟨⟨[106], [108]⟩, ⟨[106], [114]⟩, rfl, rfl, ⟨rfl, rfl, by decide, ?_⟩, ?_, ?_⟩,
      ⟨leftTable, leftTable_stored, by decide⟩, ⟨rightTable, rightTable_stored, by decide⟩⟩
    · exact ⟨_, List.mem_cons_self, columnOf_iff.mpr (by decide), columnOf_iff.mpr (by decide)⟩
    · exact keysDecide_iff.mpr (by decide)
    · exact ⟨rightTable, rfl, by decide, by decide⟩
  have hsources : ∀ c ∈ xAndY, c.source ∈ sourcesOf oneLeftRow (leftJoinPlan idJoins).relations := by
    decide
  exact createPhysicalPlan_results (fun _ _ => .refl _) hready
    (fun c hc => columnOf_iff.mpr (hsources c hc)) (List.cons_ne_nil _ _)

end Iic3413Db.Query
