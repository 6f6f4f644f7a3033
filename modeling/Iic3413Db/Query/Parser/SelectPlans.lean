/-
  Query/Parser/SelectPlans.lean --- the plans of a SELECT, before and after `BuildJoins`.

  The preprocessor puts a projection over the FROM clause or over a selection of it.  What
  `BuildJoins` leaves below the projection is an outer join of two tables, or a plan of relations,
  products and joins in which every table is once.
-/
import Iic3413Db.Query.Optimizer.UsageInvariants

set_option autoImplicit false

namespace Iic3413Db.Query

open Iic3413Db.RelationalModel
open Iic3413Db.System (Catalog)
open Iic3413Db.Storage (TxID)
open BuildJoins (columnEquality)

/-! ## The preprocessor -/

/-- The plan of a FROM list of tables. -/
def fromPlan : List FromTable → LogicalPlan
  | [t] => t.relation
  | tables => .cartesianProduct (tables.map FromTable.relation)

section Preprocessor

variable {catalog : Catalog} {txId : TxID} {f f' : FromClause} {plan : LogicalPlan}
  {tables : List FromTable}

theorem named_table (name : Identifier) (asAlias : Option Identifier) :
    (TableListItem.table name asAlias).named = some ⟨asAlias.getD name, name⟩ := rfl

/-- The aliases of the items are distinct, and were not taken before. -/
theorem visitTableListItems_nodup {items : List TableListItem} {plans : List LogicalPlan}
    (h : visitTableListItems catalog txId f items = .ok (plans, f')) :
    ((items.filterMap TableListItem.named).map FromTable.tableAlias).Nodup ∧
      ∀ t ∈ f.tables.entries,
        t.tableAlias ∉ (items.filterMap TableListItem.named).map FromTable.tableAlias := by
  induction items generalizing f plans with
  | nil => exact ⟨.nil, fun t _ ht => by cases ht⟩
  | cons item items ih =>
      obtain ⟨⟨plan, f₁⟩, hitem, h⟩ := Outcome.of_bind_ok h
      obtain ⟨⟨plans, f₂⟩, hitems, h⟩ := Outcome.of_bind_ok h
      cases h
      obtain ⟨hnodup, hfresh⟩ := ih hitems
      have hadds := (visitTableListItem_adds hitem).tables
      cases item with
      | table name asAlias =>
          obtain ⟨_, _, hitem⟩ := Outcome.of_bind_ok hitem
          dsimp only at hitem
          split at hitem
          · cases hitem
          · rename_i hnone
            have hnew : (⟨asAlias.getD name, name⟩ : FromTable) ∈ f₁.tables.entries :=
              (hadds _).mpr (.inr (by simp [TableListItem.named]))
            rw [List.filterMap_cons_some (named_table name asAlias), List.map_cons, List.nodup_cons]
            refine ⟨⟨hfresh _ hnew, hnodup⟩, fun t ht hmem => ?_⟩
            rcases List.mem_cons.mp hmem with halias | hmem
            · exact findTable_none hnone t ht (congrArg nameOrder halias)
            · exact hfresh t ((hadds t).mpr (.inl ht)) hmem
      | leftOuterJoin left right tableAlias on | fullOuterJoin left right tableAlias on =>
          rw [List.filterMap_cons_none rfl]
          exact ⟨hnodup, fun t ht => hfresh t ((hadds t).mpr (.inl ht))⟩

theorem visitTableListItems_relations {items : List TableListItem} {plans : List LogicalPlan}
    (h : visitTableListItems catalog txId f items = .ok (plans, f'))
    (htables : ∀ item ∈ items, item.named.isSome = true) :
    plans = (items.filterMap TableListItem.named).map FromTable.relation := by
  induction items generalizing f plans with
  | nil =>
      cases h
      rfl
  | cons item items ih =>
      obtain ⟨⟨plan, f₁⟩, hitem, h⟩ := Outcome.of_bind_ok h
      obtain ⟨⟨plans, f₂⟩, hitems, h⟩ := Outcome.of_bind_ok h
      cases h
      obtain ⟨htable, hrest⟩ := List.forall_mem_cons.mp htables
      cases item with
      | table name asAlias =>
          obtain ⟨_, _, hitem⟩ := Outcome.of_bind_ok hitem
          dsimp only at hitem
          split at hitem
          · cases hitem
          · cases hitem
            rw [List.filterMap_cons_some (named_table name asAlias), List.map_cons,
              ih hitems hrest]
            rfl
      | leftOuterJoin left right tableAlias on | fullOuterJoin left right tableAlias on =>
          cases htable

/-- The plan of a FROM list of tables, whose aliases are distinct. -/
theorem visitTableList_tables {first : TableListItem} {others : List TableListItem}
    (h : visitTableList catalog txId first others = .ok (plan, f'))
    (htables : ∀ item ∈ first :: others, item.named.isSome = true) :
    plan = fromPlan ((first :: others).filterMap TableListItem.named) ∧
      (((first :: others).filterMap TableListItem.named).map FromTable.tableAlias).Nodup := by
  unfold visitTableList at h
  split at h
  · rename_i hnil
    obtain rfl := List.isEmpty_iff.mp hnil
    have hitems : visitTableListItems catalog txId .empty [first] = .ok ([plan], f') := by
      rw [visitTableListItems, h]
      rfl
    have hplan := visitTableListItems_relations hitems htables
    refine ⟨?_, (visitTableListItems_nodup hitems).1⟩
    obtain ⟨t, ht⟩ := Option.isSome_iff_exists.mp (htables first List.mem_cons_self)
    rw [List.filterMap_cons_some ht] at hplan ⊢
    exact List.head_eq_of_cons_eq hplan
  · rename_i hothers
    obtain ⟨⟨plans, f₁⟩, hitems, h⟩ := Outcome.of_bind_ok h
    cases h
    refine ⟨?_, (visitTableListItems_nodup hitems).1⟩
    rw [visitTableListItems_relations hitems htables]
    cases others with
    | nil => exact absurd rfl hothers
    | cons second rest =>
        obtain ⟨t, ht⟩ := Option.isSome_iff_exists.mp (htables first List.mem_cons_self)
        obtain ⟨u, hu⟩ := Option.isSome_iff_exists.mp (htables second (by simp))
        rw [List.filterMap_cons_some ht, List.filterMap_cons_some hu]
        rfl

theorem relationsOf_tables (tables : List FromTable) :
    relationsOf (tables.map FromTable.relation) = tables := by
  induction tables with
  | nil => rfl
  | cons t tables ih =>
      rw [List.map_cons, relationsOf, ih]
      rfl

theorem fromPlan_relations (tables : List FromTable) : (fromPlan tables).relations = tables := by
  unfold fromPlan
  split
  · rfl
  · exact relationsOf_tables tables

theorem visitTableListItem_source {item : TableListItem}
    (h : visitTableListItem catalog txId f item = .ok (plan, f')) :
    plan.source = plan ∧ plan.conjuncts = [] := by
  cases item with
  | table name asAlias =>
      obtain ⟨_, _, h⟩ := Outcome.of_bind_ok h
      dsimp only at h
      split at h
      · cases h
      · cases h
        exact ⟨rfl, rfl⟩
  | leftOuterJoin left right tableAlias on | fullOuterJoin left right tableAlias on =>
      obtain ⟨⟨joins, f''⟩, _, h⟩ := Outcome.of_bind_ok h
      cases h
      exact ⟨rfl, rfl⟩

theorem visitTableList_source {first : TableListItem} {others : List TableListItem}
    (h : visitTableList catalog txId first others = .ok (plan, f')) :
    plan.source = plan ∧ plan.conjuncts = [] := by
  unfold visitTableList at h
  split at h
  · exact visitTableListItem_source h
  · obtain ⟨⟨plans, f₁⟩, _, h⟩ := Outcome.of_bind_ok h
    cases h
    exact ⟨rfl, rfl⟩

theorem visitLimit_pos {token : Option IntegerToken} {limit : Nat}
    (h : visitLimit token = .ok limit) : 1 ≤ limit := by
  cases token with
  | none =>
      cases h
      decide
  | some token =>
      obtain ⟨i, _, h⟩ := Outcome.of_bind_ok h
      split at h
      · cases h
      · cases h
        omega

/-- The plan of a SELECT: a projection over its FROM clause, or over a selection from it whose
expressions are over columns that `get_column` returned. -/
theorem visitSelectQuery_plan {q : SelectQuery}
    (h : visitSelectQuery catalog txId q = .ok plan) :
    ∃ limit source f' child columns, plan = .projection child q.distinct limit columns ∧
      1 ≤ limit ∧ visitTableList catalog txId q.firstItem q.otherItems = .ok (source, f') ∧
      (child = source ∧ child.conjuncts = [] ∨ child = .selection source child.conjuncts) ∧
      child.source = source ∧
      ∀ e ∈ child.conjuncts, ∀ c ∈ e.mentions, ∃ ctx, getColumn catalog txId f' ctx = .ok c := by
  obtain ⟨limit, hlimit, h⟩ := Outcome.of_bind_ok h
  obtain ⟨⟨source, f'⟩, hsource, h⟩ := Outcome.of_bind_ok h
  obtain ⟨hself, hnone⟩ := visitTableList_source hsource
  dsimp only at h
  split at h
  · rw [Outcome.ok_bind] at h
    obtain ⟨columns, _, h⟩ := Outcome.of_bind_ok h
    cases h
    refine ⟨limit, source, f', source, columns, rfl, visitLimit_pos hlimit, hsource,
      .inl ⟨rfl, hnone⟩, hself, fun e he => ?_⟩
    rw [hnone] at he
    cases he
  · obtain ⟨expressions, hexpressions, h⟩ := Outcome.of_bind_ok h
    rw [Outcome.ok_bind] at h
    obtain ⟨columns, _, h⟩ := Outcome.of_bind_ok h
    cases h
    refine ⟨limit, source, f', .selection source expressions, columns, rfl,
      visitLimit_pos hlimit, hsource, .inr rfl, rfl, fun e he c hc => ?_⟩
    obtain ⟨s, _, hs⟩ := Outcome.mem_of_mapM hexpressions he
    obtain ⟨ctx, _, hcol⟩ := (visitSimpleExpr_mentions hs).mp hc
    exact ⟨ctx, hcol⟩

end Preprocessor

/-! ## `BuildJoins` -/

/-- The equalities of columns among the conjuncts. -/
def equalitiesOf (conjuncts : List ExprPlan) : List (Column × Column) :=
  conjuncts.filterMap columnEquality

/-- What is left of a selection, above a plan. -/
def selected (conjuncts : List ExprPlan) (plan : LogicalPlan) : LogicalPlan :=
  let remaining := conjuncts.filter fun e => (columnEquality e).isNone
  if remaining.isEmpty then plan else .selection plan remaining

section Below

variable {equalities : List (Column × Column)} {tables : List FromTable} {plan child : LogicalPlan}

/-- The FROM clause becomes the plan of its components. -/
theorem BuildJoins.visit_fromPlan (hne : tables ≠ [])
    (hnodup : (tables.map FromTable.tableAlias).Nodup)
    (hbetween : ∀ e ∈ equalities, Within tables e) :
    ∃ parts, ComponentsOf equalities tables parts ∧ ∃ needed, ∀ fuel, needed ≤ fuel →
      BuildJoins.visit fuel equalities (fromPlan tables) =
        .ok (some (planOf equalities parts)) := by
  match tables with
  | [] => exact absurd rfl hne
  | [t] =>
      refine ⟨[[t]], ⟨by simp, by simp, by simp, ?_⟩, 0, fun fuel _ => rfl⟩
      intro part hpart u hu w hw
      obtain rfl := List.mem_singleton.mp hpart
      obtain rfl := List.mem_singleton.mp hu
      obtain rfl := List.mem_singleton.mp hw
      exact iff_of_true hu .refl
  | t :: u :: rest =>
      exact BuildJoins.visitCartesianProduct_parts (by simp) hnodup hbetween

/-- The visit of what is below the projection. -/
theorem BuildJoins.visit_below {source : LogicalPlan} {needed : Nat}
    (hchild : child = source ∧ child.conjuncts = [] ∨ child = .selection source child.conjuncts)
    (hsource : ∀ fuel, needed ≤ fuel →
      BuildJoins.visit fuel (equalitiesOf child.conjuncts) source = .ok (some plan)) :
    ∀ fuel, needed ≤ fuel →
      BuildJoins.visit fuel [] child = .ok (some (selected child.conjuncts plan)) := by
  intro fuel hfuel
  have hvisit := hsource fuel hfuel
  rcases hchild with ⟨hself, hnone⟩ | hselection
  · rw [hnone] at hvisit ⊢
    rw [hself]
    exact hvisit
  · obtain ⟨conjuncts, hconjuncts⟩ : ∃ conjuncts, conjuncts = child.conjuncts := ⟨_, rfl⟩
    rw [← hconjuncts] at hvisit hselection ⊢
    rw [hselection, BuildJoins.visit, List.nil_append, ← equalitiesOf, hvisit]
    rfl

end Below

/-! ## What it leaves -/

mutual

/-- Relations, products and joins. -/
def Inner : LogicalPlan → Prop
  | .relation _ _ => True
  | .cartesianProduct children => InnerEach children
  | .join children joinColumns => 2 ≤ children.length ∧ joinColumns ≠ [] ∧ InnerEach children
  | _ => False

/-- The children are such plans. -/
def InnerEach : List LogicalPlan → Prop
  | [] => True
  | plan :: plans => Inner plan ∧ InnerEach plans

end

section Shapes

variable {plans : List LogicalPlan}

theorem innerEach_iff : InnerEach plans ↔ ∀ plan ∈ plans, Inner plan := by
  induction plans with
  | nil => exact iff_of_true trivial fun plan h => by cases h
  | cons plan plans ih => rw [InnerEach, List.forall_mem_cons, ih]

/-- The plans are relations. -/
def AreRelations (plans : List LogicalPlan) : Prop :=
  ∀ plan ∈ plans, ∃ tableAlias table, plan = .relation tableAlias table

theorem areRelations_nil : AreRelations [] := fun _ h => absurd h List.not_mem_nil

theorem AreRelations.inner (h : AreRelations plans) : InnerEach plans := by
  refine innerEach_iff.mpr fun plan hplan => ?_
  obtain ⟨tableAlias, table, rfl⟩ := h plan hplan
  trivial

theorem relationsOf_append (plans plans' : List LogicalPlan) :
    relationsOf (plans ++ plans') = relationsOf plans ++ relationsOf plans' := by
  rw [relationsOf_eq, relationsOf_eq, relationsOf_eq, List.flatMap_append]

variable {children joinChildren rest groups : List LogicalPlan} {joined : List Identifier}
  {equalities : List (Column × Column)} {fuel : Nat} {group built : LogicalPlan}

/-- Only relations are split. -/
theorem splitChildren_perm (h : splitChildren joined children = .ok (joinChildren, rest)) :
    AreRelations children ∧ (joinChildren ++ rest).Perm children := by
  induction children generalizing joinChildren rest with
  | nil =>
      cases h
      exact ⟨areRelations_nil, .nil⟩
  | cons c children ih =>
      cases c with
      | relation tableAlias table =>
          obtain ⟨⟨joinChildren', rest'⟩, hsplit, h⟩ := Outcome.of_bind_ok h
          obtain ⟨hrelations, hperm⟩ := ih hsplit
          refine ⟨List.forall_mem_cons.mpr ⟨⟨tableAlias, table, rfl⟩, hrelations⟩, ?_⟩
          dsimp only at h
          split at h
          · cases h
            exact hperm.cons _
          · cases h
            exact List.perm_middle.trans (hperm.cons _)
      | selection | cartesianProduct | join | leftOuterJoin | fullOuterJoin | projection => cases h

theorem makeGroup_inner {joinColumns : List (Column × Column)}
    (h : makeGroup joinColumns children = .ok group) (hrelations : AreRelations children) :
    Inner group ∧ group.relations = relationsOf children := by
  unfold makeGroup at h
  split at h
  · cases h
  · cases h
    refine ⟨innerEach_iff.mp hrelations.inner _ (by simp), ?_⟩
    rw [relationsOf, relationsOf, List.append_nil]
  · unfold makeJoin at h
    split at h
    · cases h
    split at h
    · cases h
    rename_i hlength hcolumns
    cases h
    exact ⟨⟨by omega, by rwa [List.isEmpty_iff] at hcolumns, hrelations.inner⟩, rfl⟩

/-- Every table is in one group. -/
theorem buildGroups_inner (h : buildGroups equalities fuel children = .ok (some groups)) :
    AreRelations children ∧ InnerEach groups ∧
      (relationsOf groups).Perm (relationsOf children) := by
  induction fuel generalizing children groups with
  | zero =>
      cases children with
      | nil =>
          cases h
          exact ⟨areRelations_nil, trivial, .nil⟩
      | cons first children => cases h
  | succ fuel ih =>
      cases children with
      | nil =>
          cases h
          exact ⟨areRelations_nil, trivial, .nil⟩
      | cons first children =>
          rw [buildGroups] at h
          split at h
          · cases h
          split at h
          · cases h
          obtain ⟨⟨joinChildren, rest⟩, hsplit, h⟩ := Outcome.of_bind_ok h
          obtain ⟨group, hgroup, h⟩ := Outcome.of_bind_ok h
          obtain ⟨others, hothers, h⟩ := Outcome.of_bind_ok h
          cases others with
          | none => cases h
          | some others =>
              cases h
              obtain ⟨hrelations, hperm⟩ := splitChildren_perm hsplit
              have hjoin : AreRelations joinChildren := fun plan hplan =>
                hrelations plan (hperm.subset (List.mem_append_left rest hplan))
              obtain ⟨hgroupInner, hgroupRelations⟩ := makeGroup_inner hgroup hjoin
              obtain ⟨_, hothersInner, hothersPerm⟩ := ih hothers
              refine ⟨hrelations, ⟨hgroupInner, hothersInner⟩, ?_⟩
              have hall : (relationsOf (joinChildren ++ rest)).Perm
                  (relationsOf (first :: children)) := by
                rw [relationsOf_eq, relationsOf_eq]
                exact hperm.flatMap_right _
              rw [relationsOf_append] at hall
              rw [relationsOf, hgroupRelations]
              exact (hothersPerm.append_left _).trans hall

theorem productOf_inner (h : productOf groups = .ok built) (hinner : InnerEach groups) :
    Inner built ∧ built.relations = relationsOf groups := by
  unfold productOf at h
  split at h
  · cases h
  · cases h
    exact ⟨hinner.1, by rw [relationsOf, relationsOf, List.append_nil]⟩
  · cases h
    exact ⟨hinner, rfl⟩

/-- What `BuildJoins` leaves of a FROM clause. -/
inductive BuiltSource : LogicalPlan → Prop
  | inner {plan : LogicalPlan} (h : Inner plan) (hnodup : plan.relations.Nodup) : BuiltSource plan
  | leftOuterJoin {tableAlias left right : Identifier} {on : List (Column × Column)}
      (hon : on ≠ []) : BuiltSource
        (.leftOuterJoin tableAlias (.relation tableAlias left) (.relation tableAlias right) on)
  | fullOuterJoin {tableAlias left right : Identifier} {on : List (Column × Column)}
      (hon : on ≠ []) : BuiltSource
        (.fullOuterJoin tableAlias (.relation tableAlias left) (.relation tableAlias right) on)

theorem BuiltSource.source_eq (h : BuiltSource built) :
    built.source = built ∧ built.conjuncts = [] := by
  cases h with
  | inner h _ =>
      cases built with
      | relation | cartesianProduct | join => exact ⟨rfl, rfl⟩
      | selection | leftOuterJoin | fullOuterJoin | projection => exact h.elim
  | leftOuterJoin | fullOuterJoin => exact ⟨rfl, rfl⟩

variable {catalog : Catalog} {txId : TxID} {f f' : FromClause} {source : LogicalPlan}

theorem visitOuterJoin_ne {left right tableAlias : Identifier}
    {on : List (ColumnContext × ColumnContext)} {joins : List (Column × Column)}
    (h : visitOuterJoin catalog txId f left right tableAlias on = .ok (joins, f')) :
    joins ≠ [] ∧ f'.tables = f.tables := by
  obtain ⟨_, _, h⟩ := Outcome.of_bind_ok h
  obtain ⟨_, _, h⟩ := Outcome.of_bind_ok h
  split at h
  · cases h
  · obtain ⟨columns, _, h⟩ := Outcome.of_bind_ok h
    split at h
    · cases h
    · rename_i hne
      cases h
      exact ⟨by rwa [List.isEmpty_iff] at hne, rfl⟩

/-- Items whose plans are relations are tables. -/
theorem visitTableListItems_named {items : List TableListItem}
    (h : visitTableListItems catalog txId f items = .ok (plans, f')) (hplans : AreRelations plans) :
    ∀ item ∈ items, item.named.isSome = true := by
  induction items generalizing f plans with
  | nil => exact fun item hitem => by cases hitem
  | cons item items ih =>
      obtain ⟨⟨plan, f₁⟩, hitem, h⟩ := Outcome.of_bind_ok h
      obtain ⟨⟨plans, f₂⟩, hitems, h⟩ := Outcome.of_bind_ok h
      cases h
      obtain ⟨⟨tableAlias, table, rfl⟩, hrest⟩ := List.forall_mem_cons.mp hplans
      refine List.forall_mem_cons.mpr ⟨?_, ih hitems hrest⟩
      cases item with
      | table name asAlias => rfl
      | leftOuterJoin left right tableAlias on | fullOuterJoin left right tableAlias on =>
          obtain ⟨⟨joins, f''⟩, _, hitem⟩ := Outcome.of_bind_ok hitem
          cases hitem

/-- A FROM list of one item. -/
theorem visitTableListItem_built {item : TableListItem}
    (h : visitTableListItem catalog txId .empty item = .ok (source, f')) :
    BuiltSource source ∧
      (f'.tables.entries = [] ∨ (source.relations.map FromTable.tableAlias).Nodup) := by
  cases item with
  | table name asAlias =>
      obtain ⟨_, _, h⟩ := Outcome.of_bind_ok h
      dsimp only at h
      split at h
      · cases h
      · cases h
        exact ⟨.inner trivial (List.nodup_singleton _), .inr (List.nodup_singleton _)⟩
  | leftOuterJoin left right tableAlias on =>
      obtain ⟨⟨joins, f''⟩, hjoin, h⟩ := Outcome.of_bind_ok h
      cases h
      obtain ⟨hne, htables⟩ := visitOuterJoin_ne hjoin
      exact ⟨.leftOuterJoin hne, .inl (by rw [htables]; rfl)⟩
  | fullOuterJoin left right tableAlias on =>
      obtain ⟨⟨joins, f''⟩, hjoin, h⟩ := Outcome.of_bind_ok h
      cases h
      obtain ⟨hne, htables⟩ := visitOuterJoin_ne hjoin
      exact ⟨.fullOuterJoin hne, .inl (by rw [htables]; rfl)⟩

theorem BuiltSource.unchanged (h : BuiltSource source) (hitem : ∀ cs, source ≠ .cartesianProduct cs)
    (hbuild : BuildJoins.visit fuel equalities source = .ok (some built)) : built = source := by
  cases h with
  | inner h _ =>
      cases source with
      | relation =>
          cases hbuild
          rfl
      | cartesianProduct children => exact absurd rfl (hitem children)
      | join => cases hbuild
      | selection | leftOuterJoin | fullOuterJoin | projection => exact h.elim
  | leftOuterJoin | fullOuterJoin =>
      cases hbuild
      rfl

theorem visitCartesianProduct_built
    (h : BuildJoins.visitCartesianProduct equalities fuel children = .ok (some built)) :
    AreRelations children ∧ Inner built ∧ built.relations.Perm (relationsOf children) := by
  rw [BuildJoins.visitCartesianProduct] at h
  split at h
  · cases h
  obtain ⟨found, hgroups, h⟩ := Outcome.of_bind_ok h
  cases found with
  | none => cases h
  | some groups =>
      obtain ⟨product, hproduct, h⟩ := Outcome.of_bind_ok h
      cases h
      obtain ⟨hrelations, hinner, hperm⟩ := buildGroups_inner hgroups
      obtain ⟨hbuilt, heq⟩ := productOf_inner hproduct hinner
      exact ⟨hrelations, hbuilt, heq ▸ hperm⟩

/-- What `BuildJoins` makes of a FROM clause that it accepts: it has the same relations, and either
they have different aliases or there is no table besides an outer join. -/
theorem visitTableList_built {first : TableListItem} {others : List TableListItem}
    (h : visitTableList catalog txId first others = .ok (source, f'))
    (hbuild : BuildJoins.visit fuel equalities source = .ok (some built)) :
    BuiltSource built ∧ built.relations.Perm source.relations ∧
      (f'.tables.entries = [] ∨ (source.relations.map FromTable.tableAlias).Nodup) := by
  unfold visitTableList at h
  split at h
  · obtain ⟨hbuilt, haliases⟩ := visitTableListItem_built h
    have hsame : built = source := by
      refine hbuilt.unchanged (fun cs hcs => ?_) hbuild
      subst hcs
      cases first with
      | table name asAlias =>
          obtain ⟨_, _, h⟩ := Outcome.of_bind_ok h
          dsimp only at h
          split at h
          · cases h
          · cases h
      | leftOuterJoin left right tableAlias on | fullOuterJoin left right tableAlias on =>
          obtain ⟨⟨joins, f''⟩, _, h⟩ := Outcome.of_bind_ok h
          cases h
    rw [hsame]
    exact ⟨hbuilt, .refl _, haliases⟩
  · obtain ⟨⟨plans, f₁⟩, hitems, h⟩ := Outcome.of_bind_ok h
    cases h
    obtain ⟨hrelations, hinner, hperm⟩ := visitCartesianProduct_built hbuild
    have hnamed := visitTableListItems_named hitems hrelations
    have hplans := visitTableListItems_relations hitems hnamed
    have haliases : ((relationsOf plans).map FromTable.tableAlias).Nodup := by
      rw [hplans, relationsOf_tables]
      exact (visitTableListItems_nodup hitems).1
    exact ⟨.inner hinner (hperm.nodup_iff.mpr haliases.of_map), hperm, .inr haliases⟩

/-- Without tables, a reference is resolved by its alias and its name. -/
theorem getColumn_again (htables : f.tables.entries = []) {ctx : ColumnContext} {c : Column}
    (h : getColumn catalog txId f ctx = .ok c) :
    getQualifiedColumn catalog txId f c.tableAlias c.info.name = .ok c := by
  obtain ⟨qualifier, name⟩ := ctx
  cases qualifier with
  | none =>
      rw [getColumn, htables] at h
      cases h
  | some tableAlias =>
      have hcopy : getQualifiedColumn catalog txId f tableAlias name = .ok c := h
      suffices hkey : c.tableAlias = tableAlias ∧ c.info.name = name by
        rw [hkey.1, hkey.2]
        exact hcopy
      rw [getQualifiedColumn] at hcopy
      split at hcopy
      · obtain ⟨left, _, hcopy⟩ := Outcome.of_bind_ok hcopy
        split at hcopy
        · cases hcopy
          exact ⟨rfl, rfl⟩
        · obtain ⟨right, _, hcopy⟩ := Outcome.of_bind_ok hcopy
          split at hcopy
          · cases hcopy
            exact ⟨rfl, rfl⟩
          · cases hcopy
      · rw [FromClause.findTable, htables] at hcopy
        cases hcopy

/-- Columns with one alias and one name are of one table. -/
theorem sameTable_of_key {first : TableListItem} {others : List TableListItem}
    (h : visitTableList catalog txId first others = .ok (source, f'))
    (hbuild : BuildJoins.visit fuel equalities source = .ok (some built))
    {ctx ctx' : ColumnContext} {c d : Column} (hc : getColumn catalog txId f' ctx = .ok c)
    (hd : getColumn catalog txId f' ctx' = .ok d) (hkey : c.key = d.key) : c.table = d.table := by
  have halias : c.tableAlias = d.tableAlias := congrArg Prod.fst hkey
  have hname : c.info.name = d.info.name := congrArg Prod.snd hkey
  rcases (visitTableList_built h hbuild).2.2 with htables | haliases
  · have hagain := getColumn_again htables hc
    rw [halias, hname, getColumn_again htables hd] at hagain
    rw [Except.ok.inj hagain]
  · have hscope := Scope.select h
    have heq := List.inj_on_of_nodup_map haliases (getColumn_scanned hscope hc)
      (getColumn_scanned hscope hd) halias
    exact congrArg FromTable.table heq

/-- The plan that `BuildJoins` makes of a SELECT: a projection over what it leaves of the FROM
clause, or over a selection of that. -/
theorem buildJoins_plan {q : SelectQuery} {plan : LogicalPlan}
    (h : visitSelectQuery catalog txId q = .ok plan)
    (hbuild : BuildJoins.visit fuel [] plan = .ok (some built)) :
    ∃ limit child columns, built = .projection child q.distinct limit columns ∧ 1 ≤ limit ∧
      BuiltSource child.source ∧
      (child = child.source ∧ child.conjuncts = [] ∨
        child = .selection child.source child.conjuncts) ∧
      (∀ e ∈ child.conjuncts, ∀ c ∈ e.mentions,
        (⟨c.tableAlias, c.table⟩ : FromTable) ∈ child.source.relations) ∧
      ∀ e ∈ child.conjuncts, ∀ c ∈ e.mentions, ∀ d ∈ e.mentions,
        c.key = d.key → c.table = d.table := by
  obtain ⟨limit, source, f', child, columns, rfl, hlimit, hsource, hchild, hbelow, hmentions⟩ :=
    visitSelectQuery_plan h
  obtain ⟨found, hfound, hbuild⟩ := Outcome.of_bind_ok hbuild
  cases found with
  | none => cases hbuild
  | some child' =>
      cases hbuild
      -- the FROM clause, and what is above it
      obtain ⟨source', hvisit, hchild'⟩ : ∃ source',
          BuildJoins.visit fuel (equalitiesOf child.conjuncts) source = .ok (some source') ∧
            child' = selected child.conjuncts source' := by
        rcases hchild with ⟨hself, hnone⟩ | hselection
        · rw [hnone, ← hself]
          exact ⟨child', hfound, rfl⟩
        · obtain ⟨conjuncts, hconjuncts⟩ : ∃ conjuncts, conjuncts = child.conjuncts := ⟨_, rfl⟩
          rw [← hconjuncts] at hselection ⊢
          rw [hselection, BuildJoins.visit, List.nil_append] at hfound
          obtain ⟨found', hfound', hfound⟩ := Outcome.of_bind_ok hfound
          cases found' with
          | none => cases hfound
          | some source' =>
              cases hfound
              exact ⟨source', hfound', rfl⟩
      obtain ⟨hbuilt, hperm, _⟩ := visitTableList_built hsource hvisit
      obtain ⟨hself', hnone'⟩ := hbuilt.source_eq
      have hremaining : child'.source = source' ∧
          child'.conjuncts = child.conjuncts.filter (fun e => (columnEquality e).isNone) ∧
          (child' = source' ∧ child'.conjuncts = [] ∨
            child' = .selection source' child'.conjuncts) := by
        rw [hchild', selected]
        split
        · rename_i hempty
          rw [List.isEmpty_iff.mp hempty]
          exact ⟨hself', hnone', .inl ⟨rfl, hnone'⟩⟩
        · exact ⟨rfl, rfl, .inr rfl⟩
      obtain ⟨hsource', hconjuncts', hshape⟩ := hremaining
      have hsub : ∀ e ∈ child'.conjuncts, e ∈ child.conjuncts := by
        intro e he
        rw [hconjuncts'] at he
        exact (List.mem_filter.mp he).1
      refine ⟨limit, child', columns, rfl, hlimit, ?_, ?_, ?_, ?_⟩
      · rw [hsource']
        exact hbuilt
      · rw [hsource']
        exact hshape
      · intro e he c hc
        obtain ⟨ctx, hcol⟩ := hmentions e (hsub e he) c hc
        rw [hsource']
        exact hperm.mem_iff.mpr (getColumn_scanned (Scope.select hsource) hcol)
      · intro e he c hc d hd hkey
        obtain ⟨ctx, hcol⟩ := hmentions e (hsub e he) c hc
        obtain ⟨ctx', hcol'⟩ := hmentions e (hsub e he) d hd
        exact sameTable_of_key hsource hvisit hcol hcol' hkey

end Shapes

end Iic3413Db.Query
