/-
  Query/Optimizer/NeededColumns.lean --- which columns the iterator of a plan has.

  A visit drops the columns whose counter is zero, at every relation, product and join.
  Those of the plan's relations whose counter is positive at its start stay to the end.
-/
import Iic3413Db.Query.Optimizer.AddressedColumns
import Iic3413Db.Query.Optimizer.CartesianProducts
import Iic3413Db.Query.Parser.ColumnReferences

set_option autoImplicit false

namespace Iic3413Db.Query

open Iic3413Db.RelationalModel
open Iic3413Db.System (Catalog TableId TableInfo)
open Iic3413Db.Storage (TxID)
open QueryIter

/-! ## Plans over their relations -/

/-- A relation of the plan has the column. -/
def Offers (catalog : Catalog) (txId : TxID) (plan : LogicalPlan) (k : ColumnKey) : Prop :=
  ∃ t ∈ plan.relations, t.tableAlias = k.1 ∧ t.Has catalog txId k.2

mutual

/-- Every column of a selection is related to its child; there is no projection. -/
def EachColumn (R : LogicalPlan → Column → Prop) : LogicalPlan → Prop
  | .relation _ _ => True
  | .selection child expressions =>
      EachColumn R child ∧ ∀ e ∈ expressions, ∀ c ∈ e.mentions, R child c
  | .cartesianProduct children | .join children _ => EachColumnOf R children
  | .leftOuterJoin _ lchild rchild _ | .fullOuterJoin _ lchild rchild _ =>
      EachColumn R lchild ∧ EachColumn R rchild
  | .projection _ _ _ _ => False

/-- The same of the children of a product or a join. -/
def EachColumnOf (R : LogicalPlan → Column → Prop) : List LogicalPlan → Prop
  | [] => True
  | plan :: plans => EachColumn R plan ∧ EachColumnOf R plans

end

/-- Every column of a selection is one that its child offers. -/
def Scoped (catalog : Catalog) (txId : TxID) : LogicalPlan → Prop :=
  EachColumn fun child c => Offers catalog txId child c.key

section Needed

variable {catalog : Catalog} {txId : TxID} {plan : LogicalPlan} {plans : List LogicalPlan}
  {k : ColumnKey} {usage : ColumnUsage}

theorem eachColumnOf_iff {R : LogicalPlan → Column → Prop} :
    EachColumnOf R plans ↔ ∀ plan ∈ plans, EachColumn R plan := by
  induction plans with
  | nil => exact iff_of_true trivial fun plan h => by cases h
  | cons plan plans ih => rw [EachColumnOf, List.forall_mem_cons, ih]

theorem offers_relation {tableAlias table : Identifier} :
    Offers catalog txId (.relation tableAlias table) k ↔
      tableAlias = k.1 ∧ (⟨tableAlias, table⟩ : FromTable).Has catalog txId k.2 := by
  simp [Offers, LogicalPlan.relations]

theorem offers_children (h : plan.relations = relationsOf plans) :
    Offers catalog txId plan k ↔ ∃ child ∈ plans, Offers catalog txId child k := by
  rw [Offers, h, relationsOf_eq]
  constructor
  · rintro ⟨t, ht, halias⟩
    obtain ⟨child, hchild, ht⟩ := List.mem_flatMap.mp ht
    exact ⟨child, hchild, t, ht, halias⟩
  · rintro ⟨child, hchild, t, ht, halias⟩
    exact ⟨t, List.mem_flatMap.mpr ⟨child, hchild, ht⟩, halias⟩

theorem offers_append {lchild rchild : LogicalPlan}
    (h : plan.relations = lchild.relations ++ rchild.relations) (hk : Offers catalog txId plan k) :
    Offers catalog txId lchild k ∨ Offers catalog txId rchild k := by
  obtain ⟨t, ht, halias⟩ := hk
  rw [h] at ht
  exact (List.mem_append.mp ht).imp (fun ht => ⟨t, ht, halias⟩) fun ht => ⟨t, ht, halias⟩

/-! ## Columns in use -/

/-- The iterator has the column. -/
def HasKey (it : QueryIter) (k : ColumnKey) : Prop := k ∈ it.getColumns.map Column.key

/-- Both loops keep the columns in use of both sides. -/
theorem hasKey_filter {step : QueryIter} {lhs rhs : QueryIter}
    (h : step.getColumns = lhs.getColumns.filter usage.uses ++ rhs.getColumns.filter usage.uses)
    (hused : usage.keeps k = true) (hk : HasKey lhs k ∨ HasKey rhs k) : HasKey step k := by
  have hkept : ∀ {it : QueryIter}, HasKey it k →
      k ∈ (it.getColumns.filter usage.uses).map Column.key := by
    intro it hit
    obtain ⟨c, hc, rfl⟩ := List.mem_map.mp hit
    exact List.mem_map.mpr ⟨c, List.mem_filter.mpr ⟨hc, hused⟩, rfl⟩
  rw [HasKey, h, List.map_append]
  exact List.mem_append.mpr (hk.imp hkept hkept)

theorem hasKey_chain {step : QueryIter → QueryIter → QueryIter}
    (hstep : ∀ lhs rhs, (step lhs rhs).getColumns =
      lhs.getColumns.filter usage.uses ++ rhs.getColumns.filter usage.uses)
    (hused : usage.keeps k = true) {its : List QueryIter} {it : QueryIter}
    (h : HasKey it k ∨ ∃ child ∈ its, HasKey child k) : HasKey (its.foldl step it) k := by
  induction its generalizing it with
  | nil => exact h.resolve_right fun ⟨_, hmem, _⟩ => by cases hmem
  | cons child its ih =>
      refine ih ?_
      rcases h with hit | ⟨c, hc, hkey⟩
      · exact .inl (hasKey_filter (hstep it child) hused (.inl hit))
      rcases List.mem_cons.mp hc with rfl | hc
      · exact .inl (hasKey_filter (hstep it c) hused (.inr hkey))
      · exact .inr ⟨c, hc, hkey⟩

theorem hasKey_relation {scans : TableId → Nat → List Record} {tableAlias table : Identifier}
    {it : QueryIter} (h : visitRelation catalog txId scans usage tableAlias table = .ok it)
    (hk : Offers catalog txId (.relation tableAlias table) k) (hused : usage.keeps k = true) :
    HasKey it k := by
  obtain ⟨halias, info, hinfo, hhas⟩ := offers_relation.mp hk
  obtain ⟨found, hfound, h⟩ := Outcome.of_bind_ok h
  rw [hinfo] at hfound
  cases hfound
  obtain ⟨ps, hps, h⟩ := Outcome.of_bind_ok h
  cases h
  obtain ⟨col, hcol, hname⟩ := List.any_eq_true.mp hhas
  have hkey : k = (tableAlias, col.name) := Prod.ext halias.symm (of_decide_eq_true hname).symm
  rw [HasKey, getColumns, relationColumnsFrom_kept hps, List.map_map, hkey]
  rw [hkey] at hused
  exact List.mem_map.mpr ⟨col, keptColumns_mem.2 col hcol hused, rfl⟩

section Visitor

variable {scans : TableId → Nat → List Record} {likeMatch : List UInt8 → List UInt8 → Bool}
  {joinOrder : List LogicalPlan → List JoinPair → List Nat}

theorem visitPlans_eq (usage : ColumnUsage) (plans : List LogicalPlan) :
    visitPlans catalog txId scans likeMatch joinOrder usage plans =
      plans.map (visitPlan catalog txId scans likeMatch joinOrder usage) := by
  induction plans with
  | nil => rw [visitPlans, List.map_nil]
  | cons plan plans ih => rw [visitPlans, ih, List.map_cons]

/-- The visit of a child that the order has. -/
theorem childAt_plans {i : Nat} {child : LogicalPlan} (h : plans[i]? = some child) :
    childAt (visitPlans catalog txId scans likeMatch joinOrder usage plans) i =
      visitPlan catalog txId scans likeMatch joinOrder usage child := by
  rw [childAt, visitPlans_eq, List.getElem?_map, h]
  rfl

/-- A visit keeps the columns in use of every relation. -/
theorem visitPlan_hasKey
    (horder : ∀ children joins, (joinOrder children joins).Perm (List.range children.length))
    (hplan : Scoped catalog txId plan) {it : QueryIter}
    (h : visitPlan catalog txId scans likeMatch joinOrder usage plan = .ok it)
    (hk : Offers catalog txId plan k) (hused : usage.keeps k = true) : HasKey it k := by
  induction plan using LogicalPlan.induction generalizing usage it with
  | relation tableAlias table =>
      rw [visitPlan] at h
      exact hasKey_relation h hk hused
  | selection child expressions ih =>
      rw [visitPlan] at h
      obtain ⟨it', hit, h⟩ := Outcome.of_bind_ok h
      obtain ⟨lowered, _, h⟩ := Outcome.of_bind_ok h
      cases h
      have hkey := ih hplan.1 hit hk (keeps_addColumns.mpr (.inl hused))
      rw [HasKey, ← selectionOver_getColumns it' lowered] at hkey
      exact hkey
  | cartesianProduct children ih =>
      rw [visitPlan] at h
      split at h
      · cases h
      obtain ⟨its, hits, h⟩ := Outcome.of_bind_ok h
      obtain ⟨child, hchild, hoffers⟩ := (offers_children rfl).mp hk
      have hvisit : visitPlan catalog txId scans likeMatch joinOrder usage child ∈
          visitPlans catalog txId scans likeMatch joinOrder usage children := by
        rw [visitPlans_eq]
        exact List.mem_map_of_mem hchild
      obtain ⟨c, hc, hcit⟩ := Outcome.exists_of_mapM hits hvisit
      have hkey := ih child hchild (eachColumnOf_iff.mp hplan child hchild) hcit hoffers hused
      cases its with
      | nil => cases hc
      | cons first its =>
          cases its with
          | nil => cases h
          | cons second rest =>
              cases h
              refine hasKey_chain (fun _ _ => productStep_columns) hused ?_
              rcases List.mem_cons.mp hc with rfl | hc
              · exact .inl hkey
              · exact .inr ⟨c, hc, hkey⟩
  | join children joins ih =>
      rw [visitPlan] at h
      obtain ⟨order, hbeam, h⟩ := Outcome.of_bind_ok h
      obtain ⟨its, hits, h⟩ := Outcome.of_bind_ok h
      obtain ⟨child, hchild, hoffers⟩ := (offers_children rfl).mp hk
      obtain ⟨i, hi, rfl⟩ := List.mem_iff_getElem.mp hchild
      have horder : i ∈ order := by
        unfold beamSearchJoinOrder at hbeam
        split at hbeam
        · cases hbeam
          exact (horder children joins).mem_iff.mpr (List.mem_range.mpr hi)
        · cases hbeam
      obtain ⟨c, hc, hcit⟩ := Outcome.exists_of_mapM hits horder
      rw [childAt_plans (List.getElem?_eq_getElem hi)] at hcit
      have hused' : (usage.addAll joins).keeps k = true := ColumnUsage.keeps_addAll hused
      have hkey := ih _ hchild (eachColumnOf_iff.mp hplan _ hchild) hcit hoffers hused'
      cases its with
      | nil => cases hc
      | cons first rest =>
          cases h
          refine hasKey_chain (fun lhs rhs => joinStep_columns lhs rhs) hused' ?_
          rcases List.mem_cons.mp hc with rfl | hc
          · exact .inl hkey
          · exact .inr ⟨c, hc, hkey⟩
  | leftOuterJoin tableAlias lchild rchild joins ihl ihr
  | fullOuterJoin tableAlias lchild rchild joins ihl ihr =>
      rw [visitPlan] at h
      obtain ⟨lhs, hl, h⟩ := Outcome.of_bind_ok h
      obtain ⟨rhs, hr, h⟩ := Outcome.of_bind_ok h
      dsimp only [requireEqualities] at h
      split at h
      · cases h
      cases h
      have hused' : (usage.addAll joins).keeps k = true := ColumnUsage.keeps_addAll hused
      refine hasKey_filter ?_ hused' <|
        (offers_append rfl hk).imp (fun hk => ihl hplan.1 hl hk hused')
          fun hk => ihr hplan.2 hr hk hused'
      rw [getColumns, outerColumns, projectedColumns_col, projectedColumns_col]
  | projection child distinct limit columns ih => exact hplan.elim

end Visitor

end Needed

end Iic3413Db.Query
