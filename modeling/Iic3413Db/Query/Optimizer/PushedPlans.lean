/-
  Query/Optimizer/PushedPlans.lean --- the plan that the rewriters make of a SELECT over tables.

  Each table stands under the selection of its own expressions, the tables of a component under
  their join, the components under a product, and what is left of the WHERE clause above them.
  `Answerable` has what makes such a plan `Ready`.
-/
import Iic3413Db.Query.Optimizer.ReadyPlans
import Iic3413Db.Query.Parser.JoinMeaning
import Iic3413Db.Query.Parser.PushMeaning

set_option autoImplicit false

namespace Iic3413Db.Query

open Iic3413Db.Foundation Iic3413Db.RelationalModel
open Iic3413Db.System (Catalog TableColumn TableInfo)
open Iic3413Db.Storage (TxID)
open BuildJoins (columnEquality)
open PushSelection (splitExpressions)

/-! ## The plans -/

section Shapes

variable (m : SimpleExpressions) (equalities : List (Column × Column))

end Shapes

/-- The conjuncts that are not join columns. -/
def remainingOf (conjuncts : List ExprPlan) : List ExprPlan :=
  conjuncts.filter fun e => (columnEquality e).isNone

section Visits

variable {m : SimpleExpressions} {equalities : List (Column × Column)} {part : List FromTable}
  {parts : List (List FromTable)}

end Visits

/-! ## Conjuncts -/

section Conjuncts

variable {catalog : Catalog} {txId : TxID} {from' : FromClause} {e : ExprPlan} {f : PlanRow}
  {likeMatch : List UInt8 → List UInt8 → Bool} {o : ColumnOrConstant} {s : SimpleExpr}

namespace ExprPlan

end ExprPlan

end Conjuncts

/-! ## Answerable queries -/

/-- The columns a SELECT names, counted. -/
def namedUsage (columns : List Column) (conjuncts : List ExprPlan) : ColumnUsage :=
  ColumnUsage.addColumns (fun _ => 0) (columns ++ conjuncts.flatMap ExprPlan.mentions)

/-- The columns in use above the FROM clause. -/
def columnsAbove (columns : List Column) (conjuncts : List ExprPlan) : List Column :=
  columns ++ (conjunctsAcross (remainingOf conjuncts)).flatMap ExprPlan.mentions

/-- The tables have the columns that are named, and these are the first ones of each; no equality
is of one alias; and the product of more than two tables begins with a component that has a column
in use above it. -/
structure Answerable (db : Snapshot) (tables : List FromTable) (conjuncts : List ExprPlan)
    (columns : List Column) : Prop where
  some : columns ≠ []
  few : tables.length ≤ 64
  known : ∀ c ∈ columns ++ conjuncts.flatMap ExprPlan.mentions, ColumnOf db tables c
  stored : ∀ t ∈ tables, ∃ info, StoredTable db t.table info ∧
    UsedFirst (namedUsage columns conjuncts) t.tableAlias info
  between : ∀ p ∈ equalitiesOf conjuncts, p.1.tableAlias ≠ p.2.tableAlias
  seen : tables.length ≤ 2 ∨ ∃ c ∈ columnsAbove columns conjuncts, ∃ t ∈ tables.head?,
    Connected (equalitiesOf conjuncts) t.tableAlias c.tableAlias

section Tables

variable {db : Snapshot} {tables part : List FromTable} {parts : List (List FromTable)}
  {conjuncts : List ExprPlan} {columns : List Column} {c d : Column} {e : ExprPlan}
  {t u : FromTable} {p : Column × Column}

theorem Answerable.ofConjunct (h : Answerable db tables conjuncts columns) (he : e ∈ conjuncts)
    (hc : c ∈ e.mentions) : ColumnOf db tables c :=
  h.known c (List.mem_append_right _ (List.mem_flatMap.mpr ⟨e, he, hc⟩))

theorem mem_of_equality (hp : p ∈ equalitiesOf conjuncts) : equalityOf p ∈ conjuncts := by
  obtain ⟨e, he, heq⟩ := List.mem_filterMap.mp hp
  rwa [← columnEquality_some heq]

theorem Answerable.ofEquality (h : Answerable db tables conjuncts columns)
    (hp : p ∈ equalitiesOf conjuncts) : ColumnOf db tables p.1 ∧ ColumnOf db tables p.2 :=
  ⟨h.ofConjunct (mem_of_equality hp) List.mem_cons_self,
    h.ofConjunct (mem_of_equality hp) (List.mem_cons_of_mem _ List.mem_cons_self)⟩

/-- The alias of a column says which table it is of. -/
theorem ColumnOf.table_eq (hc : ColumnOf db tables c)
    (hnodup : (tables.map FromTable.tableAlias).Nodup) (ht : t ∈ tables)
    (halias : c.tableAlias = t.tableAlias) : (⟨c.tableAlias, c.table⟩ : FromTable) = t :=
  List.inj_on_of_nodup_map hnodup hc.1 ht halias

theorem Answerable.sameTables (h : Answerable db tables conjuncts columns)
    (hnodup : (tables.map FromTable.tableAlias).Nodup) : SameTables (remainingOf conjuncts) := by
  intro e he c hc d hd hkey
  have hmem := (List.mem_filter.mp he).1
  have halias : c.tableAlias = d.tableAlias := congrArg Prod.fst hkey
  have heq := (h.ofConjunct hmem hc).table_eq hnodup (h.ofConjunct hmem hd).1 halias
  exact congrArg FromTable.table heq

/-- A table of a component of several tables is in an equality between two of them. -/
theorem ComponentsOf.takesPart (hparts : ComponentsOf (equalitiesOf conjuncts) tables parts)
    (h : Answerable db tables conjuncts columns)
    (hnodup : (tables.map FromTable.tableAlias).Nodup) (hpart : part ∈ parts)
    (htwo : 2 ≤ part.length) (ht : t ∈ part) :
    ∃ p ∈ equalitiesOf conjuncts, Within part p ∧
      (p.1.tableAlias = t.tableAlias ∨ p.2.tableAlias = t.tableAlias) := by
  have hsub := hparts.ordered part hpart
  have hdistinct := hnodup.sublist (hsub.map _)
  obtain ⟨u, hu, hut⟩ : ∃ u ∈ part, u.tableAlias ≠ t.tableAlias := by
    match part with
    | a :: b :: rest =>
        have hab : a.tableAlias ≠ b.tableAlias := by
          rw [List.map_cons, List.map_cons, List.nodup_cons] at hdistinct
          exact fun heq => hdistinct.1 (heq ▸ List.mem_cons_self)
        by_cases ha : a.tableAlias = t.tableAlias
        · exact ⟨b, by simp, fun hb => hab (ha.trans hb.symm)⟩
        · exact ⟨a, by simp, ha⟩
  have hpath := (hparts.connected part hpart t ht u (hsub.subset hu)).mp hu
  -- the first step of the path to another table of the part
  rcases Relation.ReflTransGen.cases_head hpath with heq | ⟨b, hlink, _⟩
  · exact absurd heq.symm hut
  have hlinked := hlink
  obtain ⟨p, hp, hsides⟩ := hlink
  have hinside : ∀ v ∈ tables, v.tableAlias = b → b ∈ part.map FromTable.tableAlias := by
    rintro v hv rfl
    exact List.mem_map_of_mem ((hparts.connected part hpart t ht v hv).mpr (.single hlinked))
  have hself : t.tableAlias ∈ part.map FromTable.tableAlias := List.mem_map_of_mem ht
  obtain ⟨hleft, hright⟩ := h.ofEquality hp
  refine ⟨p, hp, ?_⟩
  rcases hsides with ⟨h₁, h₂⟩ | ⟨h₁, h₂⟩
  · refine ⟨⟨h₁ ▸ hself, ?_⟩, .inl h₁⟩
    rw [h₂]
    exact hinside _ hright.1 h₂
  · refine ⟨⟨?_, h₂ ▸ hself⟩, .inr h₂⟩
    rw [h₁]
    exact hinside _ hleft.1 h₁

end Tables

/-! ## Counters -/

section Counters

variable {db : Snapshot} {tables part : List FromTable} {parts : List (List FromTable)}
  {conjuncts es : List ExprPlan} {columns : List Column} {t : FromTable} {usage : ColumnUsage}
  {joins : List JoinPair} {k : ColumnKey} {info : TableInfo}

end Counters

/-! ## The plans are ready -/

section Readiness

variable {db : Snapshot} {tables part : List FromTable} {parts : List (List FromTable)}
  {conjuncts : List ExprPlan} {columns : List Column} {t : FromTable} {usage : ColumnUsage}
  {info : TableInfo} {e : ExprPlan} {c : Column} {f : PlanRow}

/-- In a row of a table, a column of strings has a string. -/
theorem StoredTable.string (h : StoredTable db t.table info) (hf : f ∈ tableRows db t)
    (hstr : c.info.datatype = .str) (hne : f c.source ≠ none) :
    ∃ s, f c.source = some (.string s) := by
  rw [h.rows_eq] at hf
  obtain ⟨r, hr, rfl⟩ := List.mem_map.mp hf
  obtain ⟨v, hv⟩ := Option.ne_none_iff_exists'.mp hne
  have htyped : List.Forall₂ (fun (k : SourceColumn) v => hasDatatype v k.2.2 = true)
      (info.columns.map fun col => (t, col.name, col.datatype)) r.values :=
    List.forall₂_map_left_iff.mpr (h.fits r hr)
  have hvalue := Row.zip_related htyped hv
  rw [Column.source, hstr] at hvalue
  cases v with
  | string s => exact ⟨s, hv⟩
  | int | rid => cases hvalue

theorem ComponentsOf.length_le {equalities : List (Column × Column)}
    (hparts : ComponentsOf equalities tables parts) : parts.length ≤ tables.length := by
  have hone : ∀ n ∈ parts.map List.length, 1 ≤ n := by
    intro n hn
    obtain ⟨part, hpart, rfl⟩ := List.mem_map.mp hn
    exact List.length_pos_iff.mpr (hparts.nonempty part hpart)
  have hsum := List.length_le_sum_of_one_le (parts.map List.length) hone
  rwa [List.length_map, ← List.length_flatten, hparts.perm.length_eq] at hsum

end Readiness

end Iic3413Db.Query
