/-
  Query/Parser/JoinMeaning.lean --- what `BuildJoins` does to the meaning of a SELECT over tables.

  The equalities of columns become join columns of the components of their aliases.  A table that
  is alone in its component is no join, and what was an equality of two of its columns is in no
  plan any more.
-/
import Iic3413Db.Query.Parser.Meaning
import Iic3413Db.Query.Parser.SelectPlans

set_option autoImplicit false

namespace Iic3413Db.Query

open Iic3413Db.Foundation Iic3413Db.RelationalModel
open Iic3413Db.System (Catalog)
open Iic3413Db.Storage (TxID)
open BuildJoins (columnEquality)

/-! ## The conjuncts that no join has -/

/-- The equality is of one alias, which no equality links to another. -/
def Lone (equalities : List (Column × Column)) (e : Column × Column) : Prop :=
  e.1.tableAlias = e.2.tableAlias ∧
    ∀ d ∈ equalities, d.1.tableAlias = e.1.tableAlias ↔ d.2.tableAlias = e.1.tableAlias

instance (equalities : List (Column × Column)) : DecidablePred (Lone equalities) :=
  fun _ => inferInstanceAs (Decidable (_ ∧ ∀ d ∈ equalities, _))

/-- The lone equalities. -/
def loneConjuncts (conjuncts : List ExprPlan) : List ExprPlan :=
  ((equalitiesOf conjuncts).filter fun e => decide (Lone (equalitiesOf conjuncts) e)).map equalityOf

/-- The other equalities, and the conjuncts that are no equality of columns. -/
def otherConjuncts (conjuncts : List ExprPlan) : List ExprPlan :=
  (conjuncts.filter fun e => (columnEquality e).isNone) ++
    ((equalitiesOf conjuncts).filter fun e =>
      !decide (Lone (equalitiesOf conjuncts) e)).map equalityOf

/-- A row of the FROM clause that only lone equalities exclude shows what enough rows of the
result show. -/
def LoneHarmless (db : Snapshot) : LogicalPlan → Prop
  | .projection child distinct limit columns =>
      ∀ f ∈ child.source.rows db, passes db.likeMatch (otherConjuncts child.conjuncts) f = true →
        passes db.likeMatch (loneConjuncts child.conjuncts) f = false →
          Fills distinct limit ((child.rows db).map (shown columns)) (shown columns f)
  | _ => True

section Conjuncts

variable {likeMatch : List UInt8 → List UInt8 → Bool} {f : PlanRow} {conjuncts : List ExprPlan}

theorem columnEquality_some {e : ExprPlan} {p : Column × Column}
    (h : columnEquality e = some p) : e = equalityOf p := by
  unfold columnEquality at h
  split at h
  · cases h
    rfl
  · cases h

theorem passes_filter (P : ExprPlan → Bool) :
    passes likeMatch conjuncts f =
      (passes likeMatch (conjuncts.filter P) f &&
        passes likeMatch (conjuncts.filter fun e => !P e) f) := by
  rw [Bool.eq_iff_iff, Bool.and_eq_true]
  simp only [passes, List.all_eq_true, List.mem_filter]
  constructor
  · exact fun h => ⟨fun e he => h e he.1, fun e he => h e he.1⟩
  · rintro ⟨hpos, hneg⟩ e he
    cases hP : P e with
    | true => exact hpos e ⟨he, hP⟩
    | false => exact hneg e ⟨he, by rw [hP]; rfl⟩

/-- The conjuncts that are equalities are those of `column_equalities`. -/
theorem passes_equalities :
    passes likeMatch (conjuncts.filter fun e => !(columnEquality e).isNone) f =
      passes likeMatch ((equalitiesOf conjuncts).map equalityOf) f := by
  induction conjuncts with
  | nil => rfl
  | cons e conjuncts ih =>
      unfold equalitiesOf at ih ⊢
      cases he : columnEquality e with
      | none => simpa [he] using ih
      | some p =>
          rw [List.filter_cons_of_pos (by rw [he]; rfl), List.filterMap_cons_some he,
            List.map_cons, passes, passes, List.all_cons, List.all_cons, ← columnEquality_some he]
          exact congrArg _ ih

theorem passes_conjuncts :
    passes likeMatch conjuncts f =
      (passes likeMatch (otherConjuncts conjuncts) f &&
        passes likeMatch (loneConjuncts conjuncts) f) := by
  have hsplit : passes likeMatch ((equalitiesOf conjuncts).map equalityOf) f =
      (passes likeMatch (loneConjuncts conjuncts) f &&
        passes likeMatch (((equalitiesOf conjuncts).filter fun e =>
          !decide (Lone (equalitiesOf conjuncts) e)).map equalityOf) f) := by
    rw [Bool.eq_iff_iff, Bool.and_eq_true]
    simp only [passes, loneConjuncts, List.all_map, List.all_filter, List.all_eq_true,
      Function.comp_apply]
    constructor
    · exact fun h => ⟨fun e he => by simp [h e he], fun e he => by simp [h e he]⟩
    · rintro ⟨hlone, hother⟩ e he
      have h₁ := hlone e he
      have h₂ := hother e he
      by_cases hl : Lone (equalitiesOf conjuncts) e
      · simpa [hl] using h₁
      · simpa [hl] using h₂
  rw [passes_filter fun e => (columnEquality e).isNone, passes_equalities, hsplit,
    otherConjuncts, passes_append, Bool.and_assoc]
  exact congrArg _ (Bool.and_comm ..)

end Conjuncts

/-! ## The plans of the components -/

section Components

variable {equalities : List (Column × Column)} {tables part : List FromTable}
  {parts : List (List FromTable)} {db : Snapshot}

/-- The join columns are the equalities that are not lone. -/
theorem ComponentsOf.exists_joined_iff (h : ComponentsOf equalities tables parts)
    (hnodup : (tables.map FromTable.tableAlias).Nodup)
    (hbetween : ∀ e ∈ equalities, Within tables e) (e : Column × Column) :
    (∃ part ∈ parts, e ∈ joinColumns (groupOf equalities part)) ↔
      e ∈ equalities ∧ ¬ Lone equalities e := by
  constructor
  · rintro ⟨part, hpart, he⟩
    obtain ⟨hmem, hwithin⟩ := mem_joinColumns he
    refine ⟨hmem, fun hlone => ?_⟩
    obtain ⟨t, ht, halias⟩ := List.mem_map.mp hwithin.1
    -- no equality leads away from the alias, so its table is alone
    have hsame : ∀ b, Connected equalities e.1.tableAlias b → b = e.1.tableAlias := by
      intro b hb
      induction hb with
      | refl => rfl
      | tail _ hlink ih =>
          subst ih
          obtain ⟨d, hd, ⟨h₁, h₂⟩ | ⟨h₁, h₂⟩⟩ := hlink
          · exact h₂.symm.trans ((hlone.2 d hd).mp h₁)
          · exact h₁.symm.trans ((hlone.2 d hd).mpr h₂)
    have honly : ∀ u ∈ part, u = t := by
      intro u hu
      have htables := (h.ordered part hpart).subset
      have hconnected := (h.connected part hpart t ht u (htables hu)).mp hu
      rw [halias] at hconnected
      exact List.inj_on_of_nodup_map hnodup (htables hu) (htables ht)
        ((hsame _ hconnected).trans halias.symm)
    match part with
    | [] => cases ht
    | [_] => cases he
    | a :: b :: rest =>
        have hsub := (h.ordered _ hpart).map FromTable.tableAlias
        have hdistinct := hnodup.sublist hsub
        have hab : a = b := (honly a (by simp)).trans (honly b (by simp)).symm
        simp [hab] at hdistinct
  · rintro ⟨hmem, hnot⟩
    obtain ⟨t, ht, halias⟩ := List.mem_map.mp (hbetween e hmem).1
    obtain ⟨u, hu, hualias⟩ := List.mem_map.mp (hbetween e hmem).2
    obtain ⟨part, hpart, htpart⟩ := List.mem_flatten.mp (h.perm.mem_iff.mpr ht)
    have hconnected : Connected equalities t.tableAlias u.tableAlias :=
      .single ⟨e, hmem, .inl ⟨halias.symm, hualias.symm⟩⟩
    have hupart := (h.connected part hpart t htpart u hu).mpr hconnected
    have hwithin : Within part e :=
      ⟨List.mem_map.mpr ⟨t, htpart, halias⟩, List.mem_map.mpr ⟨u, hupart, hualias⟩⟩
    refine ⟨part, hpart, ?_⟩
    by_cases hne : e.1.tableAlias = e.2.tableAlias
    · -- another equality brings a second table into the component
      have hother : ∃ v ∈ part, v ≠ t := by
        by_contra hnone
        push Not at hnone
        refine hnot ⟨hne, fun d hd => ?_⟩
        have hboth : ∀ w ∈ tables, w ∈ part → w.tableAlias = e.1.tableAlias :=
          fun w _ hw => by rw [hnone w hw, halias]
        obtain ⟨x, hx, hxalias⟩ := List.mem_map.mp (hbetween d hd).1
        obtain ⟨y, hy, hyalias⟩ := List.mem_map.mp (hbetween d hd).2
        have hxy : Connected equalities x.tableAlias y.tableAlias :=
          .single ⟨d, hd, .inl ⟨hxalias.symm, hyalias.symm⟩⟩
        rw [← hxalias, ← hyalias, ← halias]
        constructor
        · intro hxt
          rw [hxt] at hxy
          exact (hboth y hy ((h.connected part hpart t htpart y hy).mpr hxy)).trans halias.symm
        · intro hyt
          rw [hyt] at hxy
          exact (hboth x hx ((h.connected part hpart t htpart x hx).mpr hxy.symm)).trans halias.symm
      obtain ⟨v, hv, hvt⟩ := hother
      match part with
      | [] => cases hv
      | [w] =>
          exact absurd ((List.mem_singleton.mp hv).trans (List.mem_singleton.mp htpart).symm) hvt
      | _ :: _ :: _ => exact List.mem_filter.mpr ⟨hmem, decide_eq_true hwithin⟩
    · exact mem_joinColumns_of_within hmem hne hwithin

/-- The rows of a group. -/
theorem groupOf_rows (part : List FromTable) :
    (groupOf equalities part).rows db =
      (product (part.map (tableRows db))).filter
        (passes db.likeMatch ((joinColumns (groupOf equalities part)).map equalityOf)) := by
  have heach : ∀ part : List FromTable,
      rowsOfEach db (part.map FromTable.relation) = part.map (tableRows db) := by
    intro part
    rw [rowsOfEach_eq, List.map_map]
    rfl
  match part with
  | [t] =>
      have hall : ∀ f ∈ tableRows db t, passes db.likeMatch [] f = true := fun _ _ => rfl
      show tableRows db t = (times (tableRows db t) [Row.nil]).filter (passes db.likeMatch [])
      rw [times_nil, List.filter_eq_self.mpr hall]
  | [] => rfl
  | t :: u :: rest =>
      show (product (rowsOfEach db ((t :: u :: rest).map FromTable.relation))).filter _ = _
      rw [heach]
      rfl

theorem planOf_rows (parts : List (List FromTable)) :
    (planOf equalities parts).rows db =
      product (parts.map fun part => (groupOf equalities part).rows db) := by
  match parts with
  | [part] => exact (times_nil _).symm
  | [] => rfl
  | part :: part' :: rest =>
      show product (rowsOfEach db ((part :: part' :: rest).map (groupOf equalities))) = _
      rw [rowsOfEach_eq, List.map_map]
      rfl

/-- Tables under different aliases have no column in common. -/
theorem tableRows_apart {t u : FromTable} (h : t ≠ u) :
    TablesApart (tableRows db t) (tableRows db u) := by
  intro f hf g hg
  refine (tableRows_over db f hf).apart (tableRows_over db g hg) fun k hkt hku => h ?_
  rw [← hkt, ← hku]

/-- The plan of the components has the rows of the FROM clause that satisfy the equalities, except
the lone ones. -/
theorem ComponentsOf.planOf_rows_perm (h : ComponentsOf equalities tables parts)
    (hnodup : (tables.map FromTable.tableAlias).Nodup)
    (hscanned : ∀ e ∈ equalities, (⟨e.1.tableAlias, e.1.table⟩ : FromTable) ∈ tables ∧
      (⟨e.2.tableAlias, e.2.table⟩ : FromTable) ∈ tables) :
    ((planOf equalities parts).rows db).Perm
      ((product (tables.map (tableRows db))).filter (passes db.likeMatch
        ((equalities.filter fun e => !decide (Lone equalities e)).map equalityOf))) := by
  have hbetween : ∀ e ∈ equalities, Within tables e := fun e he =>
    ⟨List.mem_map_of_mem (hscanned e he).1, List.mem_map_of_mem (hscanned e he).2⟩
  have hflat : parts.flatten.Nodup := h.perm.nodup_iff.mpr hnodup.of_map
  -- the tables of a join column are in its part
  have hreads : ∀ part ∈ parts, Row.Reads (OfRelations part)
      (passes db.likeMatch ((joinColumns (groupOf equalities part)).map equalityOf)) := by
    intro part hpart
    refine passes_reads fun e he c hc => ?_
    obtain ⟨p, hp, rfl⟩ := List.mem_map.mp he
    obtain ⟨hmem, hwithin⟩ := mem_joinColumns hp
    have htable : ∀ t ∈ tables, t.tableAlias ∈ part.map FromTable.tableAlias → t ∈ part := by
      intro t ht halias
      obtain ⟨u, hu, hualias⟩ := List.mem_map.mp halias
      have hut := List.inj_on_of_nodup_map hnodup ((h.ordered part hpart).subset hu) ht hualias
      exact hut ▸ hu
    rcases List.mem_append.mp hc with hc | hc
    · obtain rfl := List.mem_singleton.mp hc
      exact htable _ (hscanned p hmem).1 hwithin.1
    · obtain rfl := List.mem_singleton.mp hc
      exact htable _ (hscanned p hmem).2 hwithin.2
  have hrows : ∀ part ∈ parts, ∀ f ∈ product (part.map (tableRows db)),
      Row.Over (OfRelations part) f := by
    refine fun part _ f hf => mem_product_over (fun table htable f hf => ?_) hf
    obtain ⟨t, ht, rfl⟩ := List.mem_map.mp htable
    refine (tableRows_over db f hf).mono fun k hk => ?_
    rw [OfRelations, hk]
    exact ht
  have hapart : parts.Pairwise fun part part' => ∀ k, OfRelations part k → ¬ OfRelations part' k :=
    (List.nodup_flatten.mp hflat).2.imp fun hdisjoint k hk hk' => hdisjoint hk hk'
  have hfilter : (fun f => parts.all fun part => passes db.likeMatch
      ((joinColumns (groupOf equalities part)).map equalityOf) f) = passes db.likeMatch
        ((equalities.filter fun e => !decide (Lone equalities e)).map equalityOf) := by
    funext f
    rw [Bool.eq_iff_iff]
    simp only [passes, List.all_map, List.all_eq_true, Function.comp_apply, List.mem_filter,
      Bool.not_eq_true', decide_eq_false_iff_not, ← h.exists_joined_iff hnodup hbetween]
    constructor
    · intro hall e hjoined
      obtain ⟨part, hpart, he⟩ := hjoined
      exact hall part hpart e he
    · exact fun hall part hpart e he => hall e ⟨part, hpart, he⟩
  have hproducts : (parts.map fun part => product (part.map (tableRows db))) =
      (parts.map (List.map (tableRows db))).map product := by
    rw [List.map_map]
    rfl
  have hpairs : (parts.flatten.map (tableRows db)).Pairwise TablesApart :=
    List.pairwise_map.mpr (hflat.imp fun hne => tableRows_apart hne)
  simp only [planOf_rows, groupOf_rows]
  rw [product_filter (fun part => OfRelations part) _ _ hrows hreads hapart, hfilter, hproducts,
    product_flatten, ← List.map_flatten]
  exact (product_perm (h.perm.map _) hpairs).filter _

end Components

/-! ## The plan that `BuildJoins` makes -/

section Build

variable {db : Snapshot} {equalities : List (Column × Column)} {tables : List FromTable}
  {plan child : LogicalPlan}

theorem fromPlan_rows (tables : List FromTable) :
    (fromPlan tables).rows db = product (tables.map (tableRows db)) := by
  unfold fromPlan
  split
  · exact (times_nil _).symm
  · show product (rowsOfEach db _) = _
    rw [rowsOfEach_eq, List.map_map]
    rfl

theorem selected_rows (conjuncts : List ExprPlan) (plan : LogicalPlan) :
    (selected conjuncts plan).rows db = (plan.rows db).filter
      (passes db.likeMatch (conjuncts.filter fun e => (columnEquality e).isNone)) := by
  unfold selected
  dsimp only
  split
  · rename_i hempty
    rw [List.isEmpty_iff.mp hempty]
    exact (List.filter_eq_self.mpr fun _ _ => rfl).symm
  · rfl

/-- The rows of the plan that `BuildJoins` makes below the projection: those of the FROM clause that
satisfy the other conjuncts. -/
theorem ComponentsOf.selected_rows_perm {conjuncts : List ExprPlan} {parts : List (List FromTable)}
    (h : ComponentsOf (equalitiesOf conjuncts) tables parts)
    (hnodup : (tables.map FromTable.tableAlias).Nodup)
    (hscanned : ∀ e ∈ equalitiesOf conjuncts,
      (⟨e.1.tableAlias, e.1.table⟩ : FromTable) ∈ tables ∧
        (⟨e.2.tableAlias, e.2.table⟩ : FromTable) ∈ tables) :
    ((selected conjuncts (planOf (equalitiesOf conjuncts) parts)).rows db).Perm
      (((fromPlan tables).rows db).filter (passes db.likeMatch (otherConjuncts conjuncts))) := by
  rw [selected_rows, fromPlan_rows]
  refine ((h.planOf_rows_perm hnodup hscanned).filter _).trans ?_
  rw [List.filter_filter]
  refine List.Perm.of_eq (List.filter_congr fun f _ => ?_)
  rw [otherConjuncts, passes_append]

/-- Letting rows through that only the lone equalities exclude. -/
theorem sameMeaning_iff_harmless {child' : LogicalPlan} {distinct : Bool} {limit : Nat}
    {columns : List Column} (hlimit : 1 ≤ limit)
    (hrows : child.rows db = (child.source.rows db).filter (passes db.likeMatch child.conjuncts))
    (hrows' : (child'.rows db).Perm
      ((child.source.rows db).filter (passes db.likeMatch (otherConjuncts child.conjuncts)))) :
    SameMeaning db (.projection child' distinct limit columns)
        (.projection child distinct limit columns) ↔
      LoneHarmless db (.projection child distinct limit columns) := by
  obtain ⟨kept, hkept⟩ : ∃ kept, kept =
      (child.source.rows db).filter (passes db.likeMatch (otherConjuncts child.conjuncts)) :=
    ⟨_, rfl⟩
  rw [← hkept] at hrows'
  have hfewer : child.rows db =
      kept.filter (passes db.likeMatch (loneConjuncts child.conjuncts)) := by
    rw [hrows, hkept, List.filter_filter]
    refine List.filter_congr fun f _ => ?_
    rw [passes_conjuncts, Bool.and_comm]
  have hsplit := (hrows'.trans (List.filter_append_perm
    (passes db.likeMatch (loneConjuncts child.conjuncts)) kept).symm).map (shown columns)
  rw [← hfewer, List.map_append] at hsplit
  refine (forall_congr' fun result => iff_congr (resultOf_perm hsplit) Iff.rfl).trans ?_
  rw [resultOf_append_iff hlimit, LoneHarmless]
  simp only [List.forall_mem_map, List.mem_filter, hkept, Bool.not_eq_true']
  exact ⟨fun hall f hf hother hlone => hall f ⟨⟨hf, hother⟩, hlone⟩,
    fun hall f hf => hall f hf.1.1 hf.1.2 hf.2⟩

/-- What `BuildJoins` does to a SELECT over tables: it lets the rows through that only a lone
equality excludes. -/
theorem buildJoins_preserves_iff {q : SelectQuery}
    (h : visitSelectQuery db.catalog db.txId q = .ok plan)
    (htables : ∀ item ∈ q.firstItem :: q.otherItems, item.named.isSome = true) :
    ∃ built, (∃ needed, ∀ fuel, needed ≤ fuel → BuildJoins.visit fuel [] plan = .ok (some built)) ∧
      (SameMeaning db built plan ↔ LoneHarmless db plan) := by
  obtain ⟨limit, source, f', child, columns, rfl, hlimit, hsource, hchild, hbelow, hmentions⟩ :=
    visitSelectQuery_plan h
  obtain ⟨hplan, hnodup⟩ := visitTableList_tables hsource htables
  obtain ⟨tables, htablesEq⟩ : ∃ tables, tables =
      (q.firstItem :: q.otherItems).filterMap TableListItem.named := ⟨_, rfl⟩
  rw [← htablesEq] at hplan hnodup
  have hne : tables ≠ [] := by
    obtain ⟨t, ht⟩ := Option.isSome_iff_exists.mp (htables q.firstItem List.mem_cons_self)
    rw [htablesEq, List.filterMap_cons_some ht]
    exact List.cons_ne_nil _ _
  have hscanned : ∀ e ∈ equalitiesOf child.conjuncts,
      (⟨e.1.tableAlias, e.1.table⟩ : FromTable) ∈ tables ∧
        (⟨e.2.tableAlias, e.2.table⟩ : FromTable) ∈ tables := by
    intro e he
    obtain ⟨conjunct, hconjunct, heq⟩ := List.mem_filterMap.mp he
    obtain rfl := columnEquality_some heq
    have hcolumns : ∀ c ∈ (equalityOf e).mentions,
        (⟨c.tableAlias, c.table⟩ : FromTable) ∈ tables := by
      intro c hc
      obtain ⟨ctx, hcol⟩ := hmentions _ hconjunct c hc
      have hscan := getColumn_scanned (Scope.select hsource) hcol
      rwa [hplan, fromPlan_relations] at hscan
    exact ⟨hcolumns e.1 (by simp [equalityOf, ExprPlan.mentions]),
      hcolumns e.2 (by simp [equalityOf, ExprPlan.mentions])⟩
  obtain ⟨parts, hparts, needed, hrun⟩ := BuildJoins.visit_fromPlan hne hnodup fun e he =>
    ⟨List.mem_map_of_mem (hscanned e he).1, List.mem_map_of_mem (hscanned e he).2⟩
  rw [← hplan] at hrun
  refine ⟨.projection (selected child.conjuncts (planOf (equalitiesOf child.conjuncts) parts))
    q.distinct limit columns, ⟨needed, fun fuel hfuel => ?_⟩, ?_⟩
  · rw [BuildJoins.visit, BuildJoins.visit_below hchild hrun fuel hfuel]
    rfl
  · refine sameMeaning_iff_harmless hlimit ?_ ?_
    · rw [hbelow]
      exact below_rows db hchild
    · rw [hbelow, hplan]
      exact hparts.selected_rows_perm hnodup hscanned

end Build

/-! ## The tables `l` and `r` -/

/-- `l` has the row `(1, 2)`, and `r` has none. -/
def oneLeftRow : Snapshot where
  catalog := twoTables
  txId := 1
  contents := fun id => if id = 0 then [⟨[.int 1, .int 2, .rid ⟨0, 0⟩]⟩] else []
  likeMatch := fun _ _ => true

theorem buildJoins_preserves_iff_joinedQuery :
    ∃ plan, visitSelectQuery oneLeftRow.catalog oneLeftRow.txId joinedQuery = .ok plan ∧
      ∃ built,
        (∃ needed, ∀ fuel, needed ≤ fuel → BuildJoins.visit fuel [] plan = .ok (some built)) ∧
        (SameMeaning oneLeftRow built plan ↔ LoneHarmless oneLeftRow plan) :=
  ⟨_, rfl, buildJoins_preserves_iff (q := joinedQuery) rfl (by decide)⟩

/-- `SELECT l.id FROM l WHERE l.id == l.x`. -/
def ownColumns : SelectQuery where
  distinct := false
  columnList := some [onColumn [108] [105, 100]]
  firstItem := .table [108] none
  otherItems := []
  whereStatement := some
    [.comparison (.column (onColumn [108] [105, 100]))
      (some (.equals, .column (onColumn [108] [120])))]
  limitStatement := none

/-- No row of `l` has equal columns, but the plan that `BuildJoins` makes has the row. -/
theorem ownColumns_equality_lost : ∃ plan built,
    visitSelectQuery oneLeftRow.catalog oneLeftRow.txId ownColumns = .ok plan ∧
      (∀ fuel, BuildJoins.visit fuel [] plan = .ok (some built)) ∧
      ¬ SameMeaning oneLeftRow built plan := by
  refine ⟨_, _, rfl, fun _ => rfl, fun h => ?_⟩
  obtain ⟨_, hlength⟩ := (h [[some (.int 1)]]).mp ⟨.refl _, rfl⟩
  cases hlength

end Iic3413Db.Query
