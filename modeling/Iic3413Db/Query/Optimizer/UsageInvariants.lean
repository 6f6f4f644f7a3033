/-
  Query/Optimizer/UsageInvariants.lean --- `column_usage` over the plans of a SELECT.

  The columns of a SELECT are those of relations below its WHERE clause.  The two rewriters keep
  the relations, and what they move stands above the relations it reads.
-/
import Iic3413Db.Query.Optimizer.UsageCounting
import Iic3413Db.Query.Parser.PushSelection

set_option autoImplicit false

namespace Iic3413Db.Query

open Iic3413Db.RelationalModel
open Iic3413Db.System (Catalog TableId TableInfo)
open Iic3413Db.Storage (TxID)

namespace LogicalPlan

/-- The columns a SELECT names, in its list and in its WHERE clause. -/
def namedColumns : LogicalPlan → List Column
  | .projection child _ _ columns => columns ++ child.conjuncts.flatMap ExprPlan.mentions
  | _ => []

end LogicalPlan

section Preprocessor

variable {catalog : Catalog} {txId : TxID} {f f' : FromClause} {plan : LogicalPlan}
  {tables : List FromTable} {R : LogicalPlan → Column → Prop}

/-! ## The plan of a SELECT -/

theorem visitTableListItem_eachColumn {item : TableListItem}
    (h : visitTableListItem catalog txId f item = .ok (plan, f')) : EachColumn R plan := by
  cases item with
  | table name asAlias =>
      obtain ⟨_, _, h⟩ := Outcome.of_bind_ok h
      dsimp only at h
      split at h
      · cases h
      · cases h
        trivial
  | leftOuterJoin left right tableAlias on | fullOuterJoin left right tableAlias on =>
      obtain ⟨⟨joins, f''⟩, _, h⟩ := Outcome.of_bind_ok h
      cases h
      exact ⟨trivial, trivial⟩

theorem visitTableListItems_eachColumn {items : List TableListItem} {plans : List LogicalPlan}
    (h : visitTableListItems catalog txId f items = .ok (plans, f')) : EachColumnOf R plans := by
  induction items generalizing f plans with
  | nil =>
      cases h
      trivial
  | cons item items ih =>
      obtain ⟨⟨plan, f₁⟩, hitem, h⟩ := Outcome.of_bind_ok h
      obtain ⟨⟨plans, f₂⟩, hitems, h⟩ := Outcome.of_bind_ok h
      cases h
      exact ⟨visitTableListItem_eachColumn hitem, ih hitems⟩

/-- A FROM list has no selection. -/
theorem visitTableList_eachColumn {first : TableListItem} {others : List TableListItem}
    (h : visitTableList catalog txId first others = .ok (plan, f')) : EachColumn R plan := by
  unfold visitTableList at h
  split at h
  · exact visitTableListItem_eachColumn h
  · obtain ⟨⟨plans, f₁⟩, hitems, h⟩ := Outcome.of_bind_ok h
    cases h
    exact visitTableListItems_eachColumn hitems

theorem Resolved.scanned {ctx : ColumnContext} (h : Resolved catalog txId plan f tables ctx)
    {col : Column} (hcol : getColumn catalog txId f ctx = .ok col) :
    ⟨col.tableAlias, col.table⟩ ∈ plan.relations := by
  rcases h with ⟨msg, hthrows⟩ | ⟨c, hc, hresolved⟩
  · rw [hthrows] at hcol
    cases hcol
  · rw [hc] at hcol
    cases hcol
    exact hresolved.scanned

/-- What `get_column` returns is of a scanned table, even when the table does not have it. -/
theorem getColumn_scanned (h : Scope catalog txId plan f tables) {ctx : ColumnContext}
    {col : Column} (hcol : getColumn catalog txId f ctx = .ok col) :
    ⟨col.tableAlias, col.table⟩ ∈ plan.relations := by
  obtain ⟨qualifier, name⟩ := ctx
  cases qualifier with
  | none => exact (unqualified_resolved h).scanned hcol
  | some tableAlias =>
      cases hj : f.findOuterJoin tableAlias with
      | some j => exact (joined_resolved h hj).scanned hcol
      | none =>
          simp only [getColumn, getQualifiedColumn, hj] at hcol
          split at hcol
          · cases hcol
          · rename_i t hfind
            obtain ⟨hmem, rfl⟩ := findTable_some hfind
            obtain ⟨info, _, hcol⟩ := Outcome.of_bind_ok hcol
            cases hcol
            exact h.scanned ((h.mem_tables t).mp hmem)

theorem starColumns_scanned (h : Scope catalog txId plan f tables) {columns : List Column}
    (hstar : starColumns catalog txId f = .ok columns) :
    ∀ c ∈ columns, ⟨c.tableAlias, c.table⟩ ∈ plan.relations := by
  obtain ⟨plain, hplain, hstar⟩ := Outcome.of_bind_ok hstar
  obtain ⟨joined, hjoined, hstar⟩ := Outcome.of_bind_ok hstar
  cases hstar
  intro c hc
  rcases List.mem_append.mp hc with hc | hc
  · obtain ⟨cs, hcs, hc⟩ := List.mem_flatten.mp hc
    obtain ⟨t, ht, hturn⟩ := Outcome.mem_of_mapM hplain hcs
    obtain ⟨info, _, hturn⟩ := Outcome.of_bind_ok hturn
    cases hturn
    obtain ⟨col, _, rfl⟩ := List.mem_map.mp hc
    exact h.scanned ((h.mem_tables t).mp ht)
  · obtain ⟨cs, hcs, hc⟩ := List.mem_flatten.mp hc
    obtain ⟨j, hj, hturn⟩ := Outcome.mem_of_mapM hjoined hcs
    obtain ⟨left, _, hturn⟩ := Outcome.of_bind_ok hturn
    obtain ⟨right, _, hturn⟩ := Outcome.of_bind_ok hturn
    cases hturn
    rcases List.mem_append.mp hc with hc | hc
    · obtain ⟨col, _, rfl⟩ := List.mem_map.mp hc
      exact (h.inputs hj).1
    · obtain ⟨col, _, rfl⟩ := List.mem_map.mp hc
      exact (h.inputs hj).2

theorem visitSelectColumns_scanned (h : Scope catalog txId plan f tables)
    {columnList : Option (List ColumnContext)} {columns : List Column}
    (hcolumns : visitSelectColumns catalog txId f columnList = .ok columns) :
    ∀ c ∈ columns, ⟨c.tableAlias, c.table⟩ ∈ plan.relations := by
  cases columnList with
  | none => exact starColumns_scanned h hcolumns
  | some ctxs =>
      intro c hc
      obtain ⟨ctx, _, hcol⟩ := Outcome.mem_of_mapM hcolumns hc
      exact getColumn_scanned h hcol

/-- The plan of a SELECT whose columns exist: a projection over columns of its child's relations. -/
theorem visitSelectQuery_reads {q : SelectQuery} (h : visitSelectQuery catalog txId q = .ok plan)
    (hexist : ∀ c ∈ plan.namedColumns,
      (⟨c.tableAlias, c.table⟩ : FromTable).Has catalog txId c.info.name) :
    ∃ child limit columns, plan = .projection child q.distinct limit columns ∧
      EachColumn (ReadsFrom catalog txId) child ∧
      ∀ c ∈ columns, ReadsFrom catalog txId child c := by
  obtain ⟨limit, _, h⟩ := Outcome.of_bind_ok h
  obtain ⟨⟨source, f⟩, hsource, h⟩ := Outcome.of_bind_ok h
  have hscope := Scope.select hsource
  have hfree : EachColumn (ReadsFrom catalog txId) source := visitTableList_eachColumn hsource
  dsimp only at h
  split at h
  · rw [Outcome.ok_bind] at h
    obtain ⟨columns, hcolumns, h⟩ := Outcome.of_bind_ok h
    cases h
    refine ⟨source, limit, columns, rfl, hfree, fun c hc => ⟨?_, ?_⟩⟩
    · exact visitSelectColumns_scanned hscope hcolumns c hc
    · exact hexist c (List.mem_append_left _ hc)
  · obtain ⟨expressions, hexpressions, h⟩ := Outcome.of_bind_ok h
    rw [Outcome.ok_bind] at h
    obtain ⟨columns, hcolumns, h⟩ := Outcome.of_bind_ok h
    cases h
    refine ⟨_, limit, columns, rfl, ⟨hfree, fun e he c hc => ⟨?_, ?_⟩⟩, fun c hc => ⟨?_, ?_⟩⟩
    · obtain ⟨s, _, hs⟩ := Outcome.mem_of_mapM hexpressions he
      obtain ⟨ctx, _, hcol⟩ := (visitSimpleExpr_mentions hs).mp hc
      exact getColumn_scanned hscope hcol
    · exact hexist c (List.mem_append_right _ (List.mem_flatMap.mpr ⟨e, he, hc⟩))
    · exact visitSelectColumns_scanned hscope hcolumns c hc
    · exact hexist c (List.mem_append_left _ hc)

end Preprocessor

/-! ## `BuildJoins` -/

section Build

variable {catalog : Catalog} {txId : TxID} {R : LogicalPlan → Column → Prop}
  {equalities : List (Column × Column)} {plan built : LogicalPlan}
  {children groups : List LogicalPlan} {fuel : Nat}

/-- The children are split, and none of them has a selection. -/
theorem splitChildren_relations_mem {joined : List Identifier}
    {joinChildren rest : List LogicalPlan}
    (h : splitChildren joined children = .ok (joinChildren, rest)) :
    EachColumnOf R joinChildren ∧
      ∀ t ∈ relationsOf children, t ∈ relationsOf joinChildren ∨ t ∈ relationsOf rest := by
  induction children generalizing joinChildren rest with
  | nil =>
      cases h
      exact ⟨trivial, fun t ht => nomatch ht⟩
  | cons c children ih =>
      cases c with
      | relation tableAlias table =>
          obtain ⟨⟨joinChildren', rest'⟩, hsplit, h⟩ := Outcome.of_bind_ok h
          obtain ⟨hfree, hmem⟩ := ih hsplit
          dsimp only at h
          split at h
          · cases h
            refine ⟨⟨trivial, hfree⟩, fun t ht => ?_⟩
            rcases List.mem_append.mp ht with ht | ht
            · exact .inl (List.mem_append_left _ ht)
            · exact (hmem t ht).imp_left (List.mem_append_right _)
          · cases h
            refine ⟨hfree, fun t ht => ?_⟩
            rcases List.mem_append.mp ht with ht | ht
            · exact .inr (List.mem_append_left _ ht)
            · exact (hmem t ht).imp_right (List.mem_append_right _)
      | selection | cartesianProduct | join | leftOuterJoin | fullOuterJoin | projection => cases h

theorem makeGroup_relations {joinColumns : List (Column × Column)} {group : LogicalPlan}
    (h : makeGroup joinColumns children = .ok group) (hfree : EachColumnOf R children) :
    EachColumn R group ∧ ∀ t ∈ relationsOf children, t ∈ group.relations := by
  unfold makeGroup at h
  split at h
  · cases h
  · cases h
    refine ⟨hfree.1, fun t ht => ?_⟩
    exact (List.mem_append.mp ht).resolve_right fun ht => nomatch ht
  · rw [makeJoin_ok h]
    exact ⟨hfree, fun t ht => ht⟩

theorem buildGroups_relations (h : buildGroups equalities fuel children = .ok (some groups)) :
    EachColumnOf R groups ∧ ∀ t ∈ relationsOf children, t ∈ relationsOf groups := by
  induction fuel generalizing children groups with
  | zero =>
      cases children with
      | nil =>
          cases h
          exact ⟨trivial, fun t ht => ht⟩
      | cons first children => cases h
  | succ fuel ih =>
      cases children with
      | nil =>
          cases h
          exact ⟨trivial, fun t ht => ht⟩
      | cons first children =>
          rw [buildGroups] at h
          split at h
          · cases h
          split at h
          · cases h
          obtain ⟨⟨joinChildren, rest⟩, hsplit, h⟩ := Outcome.of_bind_ok h
          obtain ⟨group, hgroup, h⟩ := Outcome.of_bind_ok h
          obtain ⟨others, hothers, h⟩ := Outcome.of_bind_ok h
          cases others with
          | none => cases h
          | some others =>
              cases h
              obtain ⟨hfree, hmem⟩ := splitChildren_relations_mem hsplit
              obtain ⟨hgroupFree, hgroupMem⟩ := makeGroup_relations hgroup hfree
              obtain ⟨hothersFree, hothersMem⟩ := ih hothers
              refine ⟨⟨hgroupFree, hothersFree⟩, fun t ht => ?_⟩
              exact List.mem_append.mpr ((hmem t ht).imp (hgroupMem t) (hothersMem t))

theorem productOf_relations (h : productOf groups = .ok built) (hfree : EachColumnOf R groups) :
    EachColumn R built ∧ ∀ t ∈ relationsOf groups, t ∈ built.relations := by
  unfold productOf at h
  split at h
  · cases h
  · cases h
    refine ⟨hfree.1, fun t ht => ?_⟩
    exact (List.mem_append.mp ht).resolve_right fun ht => nomatch ht
  · cases h
    exact ⟨hfree, fun t ht => ht⟩

/-- The plan reads no other columns than before, and has the relations it had. -/
theorem BuildJoins.visit_reads (hplan : EachColumn (ReadsFrom catalog txId) plan)
    (h : BuildJoins.visit fuel equalities plan = .ok (some built)) :
    EachColumn (ReadsFrom catalog txId) built ∧ ∀ t ∈ plan.relations, t ∈ built.relations := by
  induction plan using LogicalPlan.induction generalizing equalities built with
  | relation tableAlias table =>
      cases h
      exact ⟨trivial, fun t ht => ht⟩
  | selection child expressions ih =>
      obtain ⟨found, hchild, h⟩ := Outcome.of_bind_ok h
      cases found with
      | none => cases h
      | some child' =>
          cases h
          obtain ⟨hreads, hmem⟩ := ih hplan.1 hchild
          split
          · exact ⟨hreads, hmem⟩
          · refine ⟨⟨hreads, fun e he c hc => ?_⟩, hmem⟩
            have hread := hplan.2 e (List.mem_filter.mp he).1 c hc
            exact ⟨hmem _ hread.scanned, hread.has⟩
  | cartesianProduct children ih =>
      rw [BuildJoins.visit, BuildJoins.visitCartesianProduct] at h
      split at h
      · cases h
      obtain ⟨found, hgroups, h⟩ := Outcome.of_bind_ok h
      cases found with
      | none => cases h
      | some groups =>
          obtain ⟨product, hproduct, h⟩ := Outcome.of_bind_ok h
          cases h
          obtain ⟨hfree, hmem⟩ := buildGroups_relations hgroups
          obtain ⟨hreads, hproductMem⟩ := productOf_relations hproduct hfree
          exact ⟨hreads, fun t ht => hproductMem t (hmem t ht)⟩
  | join children joinColumns ih => cases h
  | leftOuterJoin tableAlias lchild rchild columns ihl ihr
  | fullOuterJoin tableAlias lchild rchild columns ihl ihr =>
      cases h
      exact ⟨hplan, fun t ht => ht⟩
  | projection child distinct limit columns ih => exact hplan.elim

end Build

/-! ## The whole visit -/

/-- `parse`, of a SELECT: the preprocessor and the two rewriters. -/
def parseSelect (catalog : Catalog) (txId : TxID) (fuel : Nat) (q : SelectQuery) :
    Outcome (Option LogicalPlan) := do
  let plan ← visitSelectQuery catalog txId q
  match ← BuildJoins.visit fuel [] plan with
  | none => .ok none
  | some plan => do
      let plan ← pushSelection plan
      .ok (some plan)

section Select

variable {catalog : Catalog} {txId : TxID} {q : SelectQuery} {fuel : Nat} {pushed : LogicalPlan}

/-- The plan is a projection over columns that its child offers, and so is each selection. -/
theorem parseSelect_scoped (h : parseSelect catalog txId fuel q = .ok (some pushed))
    (hexist : ∀ plan, visitSelectQuery catalog txId q = .ok plan → ∀ c ∈ plan.namedColumns,
      (⟨c.tableAlias, c.table⟩ : FromTable).Has catalog txId c.info.name) :
    ∃ child limit columns, pushed = .projection child q.distinct limit columns ∧
      Scoped catalog txId child ∧ ∀ c ∈ columns, Offers catalog txId child c.key := by
  obtain ⟨plan, hplan, h⟩ := Outcome.of_bind_ok h
  obtain ⟨found, hbuild, h⟩ := Outcome.of_bind_ok h
  obtain ⟨child, limit, columns, rfl, hreads, hcolumns⟩ :=
    visitSelectQuery_reads hplan (hexist plan hplan)
  obtain ⟨built, hchild, hbuild⟩ := Outcome.of_bind_ok hbuild
  cases built with
  | none =>
      cases hbuild
      cases h
  | some child' =>
      cases hbuild
      obtain ⟨hreads', hmem⟩ := BuildJoins.visit_reads hreads hchild
      obtain ⟨plan, hpush, h⟩ := Outcome.of_bind_ok h
      cases h
      obtain ⟨⟨root, m⟩, hroot, hpush⟩ := Outcome.of_bind_ok hpush
      cases hpush
      obtain ⟨⟨child'', m'⟩, hvisit, hroot⟩ := Outcome.of_bind_ok hroot
      cases hroot
      refine ⟨child'', limit, columns, rfl, ?_, fun c hc => ?_⟩
      · exact (PushSelection.visit_scoped hreads' SimpleExpressions.keyed_empty hvisit).1
      · have hread : ReadsFrom catalog txId child' c :=
          ⟨hmem _ (hcolumns c hc).scanned, (hcolumns c hc).has⟩
        exact (offers_congr (PushSelection.visit_relations hvisit)).mpr hread.offers

/-- Over existing columns, the optimizer finds every column it looks for, lowers no counter below
zero, and leaves the counters of every plan below the root as they were. -/
theorem counting_sound {joinOrder : List LogicalPlan → List JoinPair → List Nat}
    (scans : TableId → Nat → List Record) (likeMatch : List UInt8 → List UInt8 → Bool)
    (horder : ∀ children joins, (joinOrder children joins).Perm (List.range children.length))
    (h : parseSelect catalog txId fuel q = .ok (some pushed))
    (hexist : ∀ plan, visitSelectQuery catalog txId q = .ok plan → ∀ c ∈ plan.namedColumns,
      (⟨c.tableAlias, c.table⟩ : FromTable).Has catalog txId c.info.name) :
    let visit := countingVisit catalog txId scans likeMatch joinOrder pushed Counting.start
    visit.2.Sound ∧ visit.1 ≠ some (.error indexFault) ∧
      visit.1 = some (createPhysicalPlan catalog txId scans likeMatch joinOrder pushed) := by
  obtain ⟨child, limit, columns, rfl, hchild, hcolumns⟩ := parseSelect_scoped h hexist
  have hroot : Follows (countingVisit catalog txId scans likeMatch joinOrder _) _ _ _ :=
    countingVisit_root horder q.distinct limit hchild hcolumns Counting.start
  refine ⟨hroot.sound fun e he => (nomatch he), fun herror => ?_, hroot.result⟩
  rw [hroot.result] at herror
  exact hroot.found (Option.some.inj herror)

end Select

/-- `SELECT l.x FROM l, r AS s WHERE l.id == s.id AND s.y < 5`. -/
def joinedQuery : SelectQuery where
  distinct := false
  columnList := some [onColumn [108] [120]]
  firstItem := .table [108] none
  otherItems := [.table [114] (some [115])]
  whereStatement := some
    [.comparison (.column (onColumn [108] [105, 100]))
      (some (.equals, .column (onColumn [115] [105, 100]))),
     .comparison (.column (onColumn [115] [121]))
      (some (.less, .constant (.integer ⟨false, [53]⟩)))]
  limitStatement := none

theorem counting_sound_joinedQuery : ∃ pushed,
    parseSelect twoTables 1 5 joinedQuery = .ok (some pushed) ∧
    let visit := countingVisit twoTables 1 (fun _ _ => []) (fun _ _ => true)
      (fun children _ => List.range children.length) pushed Counting.start
    visit.2.Sound ∧ visit.1 ≠ some (.error indexFault) ∧
      visit.1 = some (createPhysicalPlan twoTables 1 (fun _ _ => []) (fun _ _ => true)
        (fun children _ => List.range children.length) pushed) := by
  have hparse : ∃ pushed, parseSelect twoTables 1 5 joinedQuery = .ok (some pushed) := ⟨_, rfl⟩
  obtain ⟨pushed, hpushed⟩ := hparse
  refine ⟨pushed, hpushed, counting_sound _ _ (fun _ _ => .refl _) hpushed fun plan hplan => ?_⟩
  cases hplan
  refine List.forall_mem_cons.mpr ⟨⟨leftTable, rfl, rfl⟩, ?_⟩
  refine List.forall_mem_cons.mpr ⟨⟨leftTable, rfl, rfl⟩, ?_⟩
  refine List.forall_mem_cons.mpr ⟨⟨rightTable, rfl, rfl⟩, ?_⟩
  refine List.forall_mem_cons.mpr ⟨⟨rightTable, rfl, rfl⟩, ?_⟩
  exact fun c hc => nomatch hc

end Iic3413Db.Query
