/-
  Query/Optimizer/LoweredOuterJoins.lean --- the iterators of an outer join deliver its rows.

  The pairs of an ON list are looked for by name and datatype on each side, so they may share a
  key; a half that is padded has the null values of the columns that it keeps.
-/
import Iic3413Db.Query.Optimizer.LoweredRows

set_option autoImplicit false

namespace Iic3413Db.Query

open Iic3413Db.Foundation Iic3413Db.RelationalModel
open Iic3413Db.System (TableColumn TableInfo)
open Iic3413Db.System.Catalog (ridName)
open QueryIter

variable (db : Snapshot)

/-! ## One side -/

/-- The iterator scans a table, and returns the rows that are left. -/
structure Side (t : FromTable) (info : TableInfo) (counted : ColumnUsage) (it : QueryIter)
    (rows : List PlanRow) : Prop where
  stored : StoredTable db t.table info
  kept : ∃ usage, it.getColumns = (keptColumns usage t.tableAlias info.columns).map t.column
  keys : ∀ c, ColumnOf db [t] c → counted.uses c = true → HasKey it c.key
  delivered : Delivered (ColumnOf db [t]) counted it rows
  table : ∀ f ∈ rows, f ∈ tableRows db t

section Columns

variable {db} {t : FromTable} {info : TableInfo} {counted : ColumnUsage} {it : QueryIter}
  {rows : List PlanRow} {i : TableColumn} {r : Record} {f : PlanRow}

theorem keptColumns_sublist (usage : ColumnUsage) (tableAlias : Identifier)
    (cols : List TableColumn) : (keptColumns usage tableAlias cols).Sublist cols := by
  induction cols with
  | nil => exact .slnil
  | cons col cols ih =>
      unfold keptColumns
      split
      · exact ih.cons_cons col
      · exact ih.cons col

theorem keptColumns_ne_nil {usage : ColumnUsage} {tableAlias : Identifier}
    {cols : List TableColumn} (h : cols ≠ []) : keptColumns usage tableAlias cols ≠ [] := by
  induction cols with
  | nil => exact absurd rfl h
  | cons col cols ih =>
      unfold keptColumns
      split
      · exact List.cons_ne_nil _ _
      · rename_i hunkept
        exact ih (not_or.mp hunkept).2

theorem findIdx?_congr {α : Type} {as : List α} {p q : α → Bool} (h : ∀ a ∈ as, p a = q a) :
    as.findIdx? p = as.findIdx? q := by
  induction as with
  | nil => rfl
  | cons a as ih =>
      obtain ⟨ha, has⟩ := List.forall_mem_cons.mp h
      rw [List.findIdx?_cons, List.findIdx?_cons, ha, ih has]

namespace Side

variable (side : Side db t info counted it rows)

include side

theorem columnOf {c : Column} (hc : c ∈ it.getColumns) : ColumnOf db [t] c := by
  obtain ⟨usage, hkept⟩ := side.kept
  rw [hkept] at hc
  obtain ⟨col, hcol, rfl⟩ := List.mem_map.mp hc
  exact ⟨List.mem_singleton_self t, info, side.stored.found, col, keptColumns_mem.1 col hcol, rfl,
    rfl⟩

theorem getColumns_cons : ∃ c cs, it.getColumns = c :: cs ∧ c.table = t.table := by
  obtain ⟨usage, hkept⟩ := side.kept
  obtain ⟨declared, hcolumns⟩ := side.stored.ridLast
  have hne : info.columns ≠ [] := by
    rw [hcolumns]
    exact List.append_ne_nil_of_right_ne_nil _ (List.cons_ne_nil _ _)
  obtain ⟨col, cols, hcols⟩ := List.exists_cons_of_ne_nil
    (@keptColumns_ne_nil usage t.tableAlias _ hne)
  rw [hkept, hcols, List.map_cons]
  exact ⟨t.column col, _, rfl, rfl⟩

/-- Within one table, the name and the datatype say as much as the key. -/
theorem findInfo_eq (hi : ColumnOf db [t] (t.column i)) :
    findInfo it.getColumns i = findColumn it.getColumns (t.column i) := by
  have hsame : ∀ c ∈ it.getColumns,
      decide (c.info.name = i.name ∧ c.info.datatype = i.datatype) =
        decide (c.key = (t.column i).key) := by
    intro c hc
    have hcolumn := side.columnOf hc
    have halias : c.tableAlias = t.tableAlias :=
      congrArg FromTable.tableAlias (List.mem_singleton.mp hcolumn.1)
    refine decide_eq_decide.mpr ⟨fun h => Prod.ext halias h.1, fun hkey => ?_⟩
    have hall : ColumnUsage.uses (fun _ => 1) c = true := rfl
    have hsource := side.stored.keysDecide c (t.column i) hcolumn hi hall hkey
    exact Prod.mk.inj (Prod.mk.inj hsource).2
  exact findIdx?_congr hsame

theorem findInfo_none (hi : ¬ ColumnOf db [t] (t.column i)) : findInfo it.getColumns i = none := by
  refine List.findIdx?_eq_none_iff.mpr fun c hc => decide_eq_false ?_
  rintro ⟨hname, htype⟩
  obtain ⟨hmem, found, hfound, col, hcol, hcolName, hcolType⟩ := side.columnOf hc
  have ht : c.table = t.table := congrArg FromTable.table (List.mem_singleton.mp hmem)
  rw [ht] at hfound
  exact hi ⟨List.mem_singleton_self t, found, hfound, col, hcol, hcolName.trans hname,
    hcolType.trans htype⟩

theorem findInfo_isSome (hused : counted.keeps (t.tableAlias, i.name) = true) :
    (findInfo it.getColumns i).isSome = true ↔ ColumnOf db [t] (t.column i) := by
  constructor
  · intro hsome
    by_contra hi
    rw [side.findInfo_none hi] at hsome
    cases hsome
  · intro hi
    rw [side.findInfo_eq hi, findColumn_isSome]
    exact side.keys _ hi hused

/-- The value at the position of a column, which is inside every record. -/
theorem findInfo_value (hused : counted.keeps (t.tableAlias, i.name) = true)
    (hshows : ShowsRow (ColumnOf db [t]) counted it r f) (hf : f ∈ tableRows db t) {n : Nat}
    (hn : findInfo it.getColumns i = some n) :
    ∃ v, r.values[n]? = some v ∧ f (t.column i).source = some v := by
  have hi : ColumnOf db [t] (t.column i) :=
    (side.findInfo_isSome hused).mp (by rw [hn]; rfl)
  obtain ⟨v, hv⟩ := Option.ne_none_iff_exists'.mp ((side.stored.ne_none_iff hf).mpr hi)
  rw [side.findInfo_eq hi] at hn
  exact ⟨v, (hshows.found hi hused n hn).trans hv, hv⟩

theorem findInfo_missing (hused : counted.keeps (t.tableAlias, i.name) = true)
    (hf : f ∈ tableRows db t) (hn : findInfo it.getColumns i = none) :
    f (t.column i).source = none := by
  by_contra hne
  have hsome := (side.findInfo_isSome hused).mpr ((side.stored.ne_none_iff hf).mp hne)
  rw [hn] at hsome
  cases hsome

end Side

/-! ### Null values -/

/-- The null values under the keys of their columns. -/
theorem zip_nulls {columns : List Column} {k : ColumnKey} {v : Option Value}
    (hnullable : ∀ c ∈ columns, Nullable c.info.datatype)
    (hsome : ∀ c ∈ columns, c.key = k → nullOf c.info.datatype = v)
    (hnone : k ∉ columns.map Column.key → v = none) :
    (Row.zip (columns.map Column.key) (columns.filterMap fun c => nullOf c.info.datatype) :
      Row ColumnKey Value) k = v := by
  induction columns with
  | nil => exact (hnone (List.not_mem_nil)).symm
  | cons c cs ih =>
      obtain ⟨hc, hcs⟩ := List.forall_mem_cons.mp hnullable
      obtain ⟨hfirst, hlater⟩ := List.forall_mem_cons.mp hsome
      obtain ⟨w, hw⟩ : ∃ w, nullOf c.info.datatype = some w := by
        rcases hc with hdatatype | hdatatype
        · exact ⟨_, by rw [hdatatype]; rfl⟩
        · exact ⟨_, by rw [hdatatype]; rfl⟩
      have hcons : (c :: cs).filterMap (fun c => nullOf c.info.datatype) =
          w :: cs.filterMap fun c => nullOf c.info.datatype := List.filterMap_cons_some hw
      rw [hcons, List.map_cons, Row.zip_cons]
      split
      · rename_i hk
        rw [← hfirst hk.symm, hw]
      · rename_i hk
        refine ih hcs hlater fun hmem => hnone ?_
        rw [List.map_cons, List.mem_cons]
        exact not_or.mpr ⟨hk, hmem⟩

namespace Side

variable (side : Side db t info counted it rows)

include side

theorem columnsPad (hpadded : Padded db counted t) : ColumnsPad counted it.getColumns := by
  obtain ⟨found, hfound, hfirst, hnullable⟩ := hpadded
  rw [side.stored.found] at hfound
  cases hfound
  obtain ⟨usage, hkept⟩ := side.kept
  rw [hkept]
  constructor
  · exact List.pairwise_map.mpr (hfirst.sublist (keptColumns_sublist usage _ _))
  · intro c hc hused
    obtain ⟨col, hcol, rfl⟩ := List.mem_map.mp hc
    exact hnullable col (keptColumns_mem.1 col hcol) hused

/-- A half that is padded shows the row of null values. -/
theorem nulls (hpadded : Padded db counted t) :
    project (projectedColumns counted it.getColumns)
        (nullValues (projectedColumns counted it.getColumns)) =
          .ok (nullValues (projectedColumns counted it.getColumns)) ∧
      ShowsHalf (ColumnOf db [t]) counted (it.getColumns.filter counted.uses)
        (nullValues (projectedColumns counted it.getColumns)) (nullRow [t]) := by
  obtain ⟨hnullable, hpos⟩ := (wellPadded_iff (projectedFrom_sorted 0 _)).mp
    ((wellPadded_columns counted it.getColumns).mpr (side.columnsPad hpadded))
  obtain ⟨hproject, hnulls⟩ := project_nulls [] hnullable hpos
  have hnullable' : ∀ c ∈ it.getColumns.filter counted.uses, Nullable c.info.datatype := by
    intro c hc
    obtain ⟨hmem, hused⟩ := List.mem_filter.mp hc
    exact (side.columnsPad hpadded).2 c hmem hused
  have hvalues : nullValues (projectedColumns counted it.getColumns) =
      (it.getColumns.filter counted.uses).filterMap fun c => nullOf c.info.datatype := by
    rw [← projectedColumns_col, List.filterMap_map]
    rfl
  refine ⟨hproject, ?_, fun c hc hused => ?_⟩
  · rw [← projectedColumns_col, List.length_map]
    exact hnulls.length_eq.symm
  · rw [hvalues]
    have hmem : c.source.1 ∈ [t] := hc.1
    have hnull : nullRow [t] c.source = nullOf c.info.datatype := if_pos hmem
    rw [hnull]
    refine zip_nulls hnullable' (fun d hd hkey => ?_) fun hmissing => ?_
    · have hdc := side.stored.keysDecide d c (side.columnOf (List.mem_of_mem_filter hd)) hc
        (List.mem_filter.mp hd).2 hkey
      rw [(Prod.mk.inj (Prod.mk.inj hdc).2).2]
    · refine absurd ?_ hmissing
      obtain ⟨d, hd, hkey⟩ := List.mem_map.mp (side.keys c hc hused)
      have hkeeps : counted.keeps d.key = true := by
        rw [hkey]
        exact hused
      exact List.mem_map.mpr ⟨d, List.mem_filter.mpr ⟨hd, hkeeps⟩, hkey⟩

end Side

end Columns

/-! ## The two sides of an ON list -/

section Meeting

variable {db} {left right : FromTable} {infoL infoR : TableInfo} {counted : ColumnUsage}
  {lhs rhs : QueryIter} {as bs : List PlanRow} {on : List JoinPair} {l r : Record} {f g : PlanRow}
  {tableAlias : Identifier}

theorem Side.outerEquality_eq (sideL : Side db left infoL counted lhs as)
    (sideR : Side db right infoR counted rhs bs) (p : JoinPair) :
    outerEquality lhs.getColumns rhs.getColumns p =
      bothFound (findInfo lhs.getColumns (onSides right p).1)
        (findInfo rhs.getColumns (onSides right p).2) := by
  obtain ⟨c, cs, hlhs, _⟩ := sideL.getColumns_cons
  obtain ⟨d, ds, hrhs, htable⟩ := sideR.getColumns_cons
  rw [hlhs, hrhs, outerEquality, onSides, htable]
  split
  · rfl
  · rfl

/-- The columns of an ON list are in use on both sides. -/
theorem OnMeets.used {usage : ColumnUsage} (h : OnMeets db tableAlias left right on)
    {p : JoinPair} (hp : p ∈ on) :
    (usage.addAll on).keeps (left.tableAlias, (onSides right p).1.name) = true ∧
      (usage.addAll on).keeps (right.tableAlias, (onSides right p).2.name) = true := by
  obtain ⟨hused, hused'⟩ : (usage.addAll on).keeps p.1.key = true ∧
      (usage.addAll on).keeps p.2.key = true := ColumnUsage.addAll_keeps hp
  have hkeys : p.1.key = (tableAlias, p.1.info.name) ∧ p.2.key = (tableAlias, p.2.info.name) :=
    ⟨Prod.ext (h.aliases p hp).1 rfl, Prod.ext (h.aliases p hp).2 rfl⟩
  rw [hkeys.1] at hused
  rw [hkeys.2] at hused'
  rw [h.aliasLeft, h.aliasRight, onSides]
  split
  · exact ⟨hused', hused⟩
  · exact ⟨hused, hused'⟩

theorem meetsOn_cons (p : JoinPair) (on : List JoinPair) :
    meetsOn left right (p :: on) f g =
      (Row.sameValue (f (left.column (onSides right p).1).source)
        (g (right.column (onSides right p).2).source) && meetsOn left right on f g) := by
  rw [meetsOn, List.all_cons, onSides]
  split
  · rfl
  · rfl

/-- The equalities compare what the ON list compares. -/
theorem agree_eq_meetsOn (sideL : Side db left infoL counted lhs as)
    (sideR : Side db right infoR counted rhs bs)
    (hused : ∀ p ∈ on, counted.keeps (left.tableAlias, (onSides right p).1.name) = true ∧
      counted.keeps (right.tableAlias, (onSides right p).2.name) = true)
    (hl : ShowsRow (ColumnOf db [left]) counted lhs l f) (hf : f ∈ tableRows db left)
    (hr : ShowsRow (ColumnOf db [right]) counted rhs r g) (hg : g ∈ tableRows db right) :
    agree (on.filterMap (outerEquality lhs.getColumns rhs.getColumns)) l r =
      meetsOn left right on f g := by
  induction on with
  | nil => rfl
  | cons p on ih =>
      obtain ⟨⟨hp, hp'⟩, hon⟩ := List.forall_mem_cons.mp hused
      have hfirst : (outerEquality lhs.getColumns rhs.getColumns p).all
          (fun eq => decide (l.values[eq.1]? = r.values[eq.2]?)) =
            Row.sameValue (f (left.column (onSides right p).1).source)
              (g (right.column (onSides right p).2).source) := by
        rw [sideL.outerEquality_eq sideR]
        cases hn : findInfo lhs.getColumns (onSides right p).1 with
        | none =>
            rw [sideL.findInfo_missing hp hf hn]
            rfl
        | some n =>
            cases hm : findInfo rhs.getColumns (onSides right p).2 with
            | none =>
                rw [sideR.findInfo_missing hp' hg hm, Row.sameValue_none]
                rfl
            | some m =>
                obtain ⟨v, hv, hfv⟩ := sideL.findInfo_value hp hl hf hn
                obtain ⟨w, hw, hgw⟩ := sideR.findInfo_value hp' hr hg hm
                rw [hfv, hgw, bothFound, Option.all_some, hv, hw]
                exact decide_eq_decide.mpr ⟨fun h => Option.some.inj h, congrArg some⟩
      rw [meetsOn_cons, ← ih hon, ← hfirst]
      cases hequality : outerEquality lhs.getColumns rhs.getColumns p with
      | none =>
          rw [List.filterMap_cons_none hequality]
          rfl
      | some eq =>
          rw [List.filterMap_cons_some hequality]
          rfl

/-- Some pair becomes an equality. -/
theorem OnMeets.equalities_ne_nil (sideL : Side db left infoL counted lhs as)
    (sideR : Side db right infoR counted rhs bs) (h : OnMeets db tableAlias left right on)
    (hused : ∀ p ∈ on, counted.keeps (left.tableAlias, (onSides right p).1.name) = true ∧
      counted.keeps (right.tableAlias, (onSides right p).2.name) = true) :
    (outerColumns counted on lhs rhs).equalities ≠ [] := by
  obtain ⟨p, hp, hleft, hright⟩ := h.found
  have hsome : (outerEquality lhs.getColumns rhs.getColumns p).isSome = true := by
    rw [sideL.outerEquality_eq sideR, bothFound_isSome]
    exact ⟨(sideL.findInfo_isSome (hused p hp).1).mpr hleft,
      (sideR.findInfo_isSome (hused p hp).2).mpr hright⟩
  obtain ⟨eq, heq⟩ := Option.isSome_iff_exists.mp hsome
  exact List.ne_nil_of_mem (List.mem_filterMap.mpr ⟨p, hp, heq⟩)

theorem outerEquality_inside {columns columns' : List Column} {p : JoinPair} {eq : Nat × Nat}
    (h : outerEquality columns columns' p = some eq) :
    eq.1 < columns.length ∧ eq.2 < columns'.length := by
  have hfound : ∀ {cols : List Column} {i : TableColumn} {n : Nat},
      findInfo cols i = some n → n < cols.length := by
    intro cols i n hn
    exact (List.findIdx?_eq_some_iff_getElem.mp hn).1
  have hboth : ∀ {m n : Option Nat}, bothFound m n = some eq → m = some eq.1 ∧ n = some eq.2 := by
    intro m n hmn
    cases m with
    | none => cases hmn
    | some m =>
        cases n with
        | none => cases hmn
        | some n =>
            cases hmn
            exact ⟨rfl, rfl⟩
  unfold outerEquality at h
  split at h
  · split at h
    · obtain ⟨hm, hn⟩ := hboth h
      exact ⟨hfound hm, hfound hn⟩
    · obtain ⟨hm, hn⟩ := hboth h
      exact ⟨hfound hm, hfound hn⟩
  · cases h

/-! ### Two halves -/

/-- Two halves in one record, where only the columns in use above the join are told apart. -/
theorem ShowsHalf.beside {usage : ColumnUsage} {it : QueryIter} {vs ws : List Value}
    {columns columns' : List Column} (hl : ShowsHalf (ColumnOf db [left]) counted columns vs f)
    (hr : ShowsHalf (ColumnOf db [right]) counted columns' ws g)
    (hit : it.getColumns = columns ++ columns') (hcolumns : ∀ c ∈ columns, ColumnOf db [left] c)
    (hrow : RowOver db [left] counted f) (hkeys : KeysDecide db [left, right] usage)
    (hle : ∀ k, usage.keeps k = true → counted.keeps k = true) :
    ShowsRow (ColumnOf db [left, right]) usage it ⟨vs ++ ws⟩ (beside [left] f g) := by
  constructor
  · rw [hit, List.length_append, List.length_append, hl.length, hr.length]
  · intro c hc hused
    rw [rowOf, hit, List.map_append,
      Row.zip_append (hl.length.trans (List.length_map Column.key).symm), Row.merge]
    by_cases hleft : c.source.1 ∈ [left]
    · have hcleft : ColumnOf db [left] c := ⟨hleft, hc.2⟩
      obtain ⟨v, hv⟩ := Option.ne_none_iff_exists'.mp (hrow.whole c hcleft (hle c.key hused))
      rw [hl.same c hcleft (hle c.key hused), Iic3413Db.Query.beside, if_pos hleft, hv]
      rfl
    · have hcright : ColumnOf db [right] c :=
        ⟨(List.mem_cons.mp hc.1).resolve_left fun h => hleft (List.mem_singleton.mpr h), hc.2⟩
      have hnone : (Row.zip (columns.map Column.key) vs : Row ColumnKey Value) c.key = none := by
        refine Row.zip_eq_none fun hmem => hleft ?_
        obtain ⟨d, hd, hkey⟩ := List.mem_map.mp hmem
        have hdleft := hcolumns d hd
        have hwider : ColumnOf db [left, right] d :=
          hdleft.mono fun t ht => List.mem_cons.mpr (.inl (List.mem_singleton.mp ht))
        have hsource : c.source = d.source := hkeys c d hc hwider hused hkey.symm
        rw [hsource]
        exact hdleft.1
      rw [hnone, Option.none_or, hr.same c hcright (hle c.key hused), Iic3413Db.Query.beside,
        if_neg hleft]

end Meeting

/-! ## The pairs of records -/

/-- The values that a pair has for one side. -/
def halfOf (projected : List ProjectedColumn) : Option Record → List Value
  | some r => picked projected r.values
  | none => nullValues projected

/-- The record of a pair. -/
def outerRecord (columns : JoinColumns) (p : RowPair) : Record :=
  ⟨halfOf columns.lhs p.1 ++ halfOf columns.rhs p.2⟩

/-- The half is made, and has the columns in use of the row. -/
structure HalfShows (t : FromTable) (counted : ColumnUsage) (it : QueryIter) (o : Option Record)
    (f : PlanRow) : Prop where
  projects : project (projectedColumns counted it.getColumns)
    ((o.map Record.values).getD (nullValues (projectedColumns counted it.getColumns))) =
      .ok (halfOf (projectedColumns counted it.getColumns) o)
  same : ShowsHalf (ColumnOf db [t]) counted (it.getColumns.filter counted.uses)
    (halfOf (projectedColumns counted it.getColumns) o) f
  row : RowOver db [t] counted f

/-- The record of the pair is made, and shows the row. -/
structure PairShows (known : Column → Prop) (usage : ColumnUsage) (it : QueryIter)
    (columns : JoinColumns) (p : RowPair) (f : PlanRow) : Prop where
  builds : pairRecord columns p = .ok (outerRecord columns p)
  valid : (outerRecord columns p).invalid = false
  shows : ShowsRow known usage it (outerRecord columns p) f

section Pairs

variable {db} {t left right : FromTable} {info infoL infoR : TableInfo} {usage counted : ColumnUsage}
  {it lhs rhs : QueryIter} {rows as bs : List PlanRow} {on : List JoinPair} {l r : Record}
  {f g : PlanRow} {tableAlias : Identifier} {o o' : Option Record}

theorem Side.half_row (side : Side db t info counted it rows)
    (hshows : ShowsRow (ColumnOf db [t]) counted it r f) (hf : f ∈ rows) :
    HalfShows db t counted it (some r) f where
  projects := project_eq fun c hc => (projectedColumns_inside rfl c hc).trans_le hshows.long
  same := hshows.half
  row := side.stored.rowOver (side.table f hf)

theorem Side.half_nulls (side : Side db t info counted it rows) (hpadded : Padded db counted t) :
    HalfShows db t counted it none (nullRow [t]) where
  projects := (side.nulls hpadded).1
  same := (side.nulls hpadded).2
  row := hpadded.rowOver

/-- Two halves make a record, since the ON list has a column of the left one. -/
theorem HalfShows.pair (hl : HalfShows db left counted lhs o f)
    (hr : HalfShows db right counted rhs o' g)
    (hit : it.getColumns = lhs.getColumns.filter counted.uses ++
      rhs.getColumns.filter counted.uses)
    (hcolumns : ∀ c ∈ lhs.getColumns, ColumnOf db [left] c)
    (hseen : ∃ c, ColumnOf db [left] c ∧ counted.uses c = true)
    (hkeys : KeysDecide db [left, right] usage)
    (hle : ∀ k, usage.keeps k = true → counted.keeps k = true) :
    PairShows (ColumnOf db [left, right]) usage it (outerColumns counted on lhs rhs) (o, o')
      (beside [left] f g) := by
  constructor
  · rw [pairRecord, combine, outerColumns, hl.projects, Outcome.ok_bind, hr.projects]
    rfl
  · obtain ⟨c, hc, hused⟩ := hseen
    have hne := hl.row.whole c hc hused
    rw [← hl.same.same c hc hused] at hne
    have hvalues := Row.ne_nil_of_zip hne
    exact List.isEmpty_eq_false_iff.mpr (List.append_ne_nil_of_left_ne_nil hvalues _)
  · exact hl.same.beside hr.same hit
      (fun c hc => hcolumns c (List.mem_of_mem_filter hc)) hl.row hkeys hle

/-! ### Related pairs -/

variable {R S : Record → PlanRow → Prop} {T : RowPair → PlanRow → Prop} {columns : JoinColumns}
  {ls rs : List Record} {meets : PlanRow → PlanRow → Bool}
  {both : PlanRow → PlanRow → PlanRow} {alone aloneRight : PlanRow → PlanRow}

/-- The pairs of a left outer join, against its rows. -/
theorem leftPairs_rel (hls : List.Forall₂ R ls as) (hrs : List.Forall₂ S rs bs)
    (hmeets : ∀ l f r g, R l f → S r g → agree columns.equalities l r = meets f g)
    (hboth : ∀ l f r g, R l f → S r g → T (some l, some r) (both f g))
    (halone : ∀ l f, R l f → T (some l, none) (alone f)) :
    List.Forall₂ T (leftPairs columns ls rs) (as.flatMap (outerRows meets both alone bs)) := by
  refine List.rel_flatMap hls fun l f hlf => ?_
  have hfilter : List.Forall₂ S (rs.filter (agree columns.equalities l)) (bs.filter (meets f)) :=
    List.rel_filter (fun r g hrg => Bool.eq_iff_iff.mp (hmeets l f r g hlf hrg)) hrs
  rw [rowPairs, outerRows]
  generalize rs.filter (agree columns.equalities l) = partners at hfilter
  generalize bs.filter (meets f) = partners' at hfilter
  cases hfilter with
  | nil => exact .cons (halone l f hlf) .nil
  | cons hrg hrest =>
      refine .cons (hboth l f _ _ hlf hrg) ?_
      rw [List.forall₂_map_left_iff, List.forall₂_map_right_iff]
      exact hrest.imp fun r g hrg => hboth l f r g hlf hrg

/-- The right rows that no left row meets. -/
theorem fullPairs_rel (hls : List.Forall₂ R ls as) (hrs : List.Forall₂ S rs bs)
    (hmeets : ∀ l f r g, R l f → S r g → agree columns.equalities l r = meets f g)
    (hboth : ∀ l f r g, R l f → S r g → T (some l, some r) (both f g))
    (halone : ∀ l f, R l f → T (some l, none) (alone f))
    (haloneRight : ∀ r g, S r g → T (none, some r) (aloneRight g)) :
    List.Forall₂ T (fullPairs columns ls rs)
      (as.flatMap (outerRows meets both alone bs) ++
        (unmatched (fun g f => meets f g) bs as).map aloneRight) := by
  refine List.rel_append (leftPairs_rel hls hrs hmeets hboth halone) ?_
  rw [List.forall₂_map_left_iff, List.forall₂_map_right_iff]
  refine (List.rel_filter (fun r g hrg => ?_) hrs).imp haloneRight
  have hany : (ls.any fun l => agree columns.equalities l r) = as.any fun f => meets f g := by
    clear hboth halone
    induction hls with
    | nil => rfl
    | cons hlf _ ih => rw [List.any_cons, List.any_cons, hmeets _ _ _ _ hlf hrg, ih]
  rw [← Bool.not_inj_iff, List.not_any_eq_all_not] at hany
  exact Bool.eq_iff_iff.mp hany

/-- An iterator that feeds the records of some pairs. -/
theorem delivered_of_pairs {known : Column → Prop} {pairs : List RowPair}
    (hpairs : List.Forall₂ (PairShows known usage it columns) pairs rows)
    (hfeeds : PairsBuild columns (outerRecord columns) pairs →
      Feeds (fun _ => pairs.map (outerRecord columns)) it) : Delivered known usage it rows := by
  refine ⟨pairs.map (outerRecord columns), hfeeds fun p hp => ?_, ?_⟩
  · obtain ⟨f, _, hshows⟩ := forall₂_left hpairs hp
    exact ⟨hshows.builds, hshows.valid⟩
  · rw [List.forall₂_map_left_iff]
    exact hpairs.imp fun p f hshows => hshows.shows

theorem outerColumns_inside {eq : Nat × Nat}
    (h : eq ∈ (outerColumns counted on lhs rhs).equalities) :
    eq.1 < lhs.getColumns.length ∧ eq.2 < rhs.getColumns.length := by
  obtain ⟨p, _, hp⟩ := List.mem_filterMap.mp h
  exact outerEquality_inside hp

/-! ### The two joins -/

/-- What both outer joins have in common. -/
structure OuterSides (db : Snapshot) (usage : ColumnUsage) (left right : FromTable)
    (infoL infoR : TableInfo) (on : List JoinPair) (lhs rhs : QueryIter)
    (as bs : List PlanRow) : Prop where
  sideL : Side db left infoL (usage.addAll on) lhs as
  sideR : Side db right infoR (usage.addAll on) rhs bs
  meets : OnMeets db left.tableAlias left right on
  keys : KeysDecide db [left, right] usage

namespace OuterSides

variable (sides : OuterSides db usage left right infoL infoR on lhs rhs as bs)

include sides

theorem used {p : JoinPair} (hp : p ∈ on) :
    (usage.addAll on).keeps (left.tableAlias, (onSides right p).1.name) = true ∧
      (usage.addAll on).keeps (right.tableAlias, (onSides right p).2.name) = true :=
  sides.meets.used hp

theorem pair_shows (hit : it.getColumns = lhs.getColumns.filter (usage.addAll on).uses ++
      rhs.getColumns.filter (usage.addAll on).uses)
    (hl : HalfShows db left (usage.addAll on) lhs o f)
    (hr : HalfShows db right (usage.addAll on) rhs o' g) :
    PairShows (ColumnOf db [left, right]) usage it (outerColumns (usage.addAll on) on lhs rhs)
      (o, o') (beside [left] f g) := by
  obtain ⟨p, hp, hleft, _⟩ := sides.meets.found
  exact hl.pair hr hit (fun c hc => sides.sideL.columnOf hc) ⟨_, hleft, (sides.used hp).1⟩
    sides.keys fun k hk => ColumnUsage.keeps_addAll hk

theorem equalities_ne_nil : (outerColumns (usage.addAll on) on lhs rhs).equalities ≠ [] :=
  sides.meets.equalities_ne_nil sides.sideL sides.sideR fun _ hp => sides.used hp

theorem agree_eq (hl : ShowsRow (ColumnOf db [left]) (usage.addAll on) lhs l f ∧ f ∈ as)
    (hr : ShowsRow (ColumnOf db [right]) (usage.addAll on) rhs r g ∧ g ∈ bs) :
    agree (outerColumns (usage.addAll on) on lhs rhs).equalities l r = meetsOn left right on f g :=
  agree_eq_meetsOn sides.sideL sides.sideR (fun _ hp => sides.used hp) hl.1
    (sides.sideL.table f hl.2) hr.1 (sides.sideR.table g hr.2)

/-- `LeftOuterJoin` delivers the rows of its plan. -/
theorem leftOuterJoin_delivered (hpadded : Padded db (usage.addAll on) right) :
    ∃ rows, Delivered (ColumnOf db [left, right]) usage
        (.leftOuterJoin lhs rhs (outerColumns (usage.addAll on) on lhs rhs) Record.empty false
          false) rows ∧
      rows.Perm (leftOuter (meetsOn left right on) (beside [left])
        (fun f => beside [left] f (nullRow [right])) as bs) := by
  obtain ⟨ls, hls, hshowsL⟩ := sides.sideL.delivered
  obtain ⟨rs, hrs, hshowsR⟩ := sides.sideR.delivered
  have hcolumns : ∀ cur v om, (QueryIter.leftOuterJoin lhs rhs
      (outerColumns (usage.addAll on) on lhs rhs) cur v om).getColumns =
        lhs.getColumns.filter (usage.addAll on).uses ++
          rhs.getColumns.filter (usage.addAll on).uses := by
    intro cur v om
    rw [getColumns, outerColumns, projectedColumns_col, projectedColumns_col]
  refine ⟨_, delivered_of_pairs (leftPairs_rel (forall₂_mem hshowsL) (forall₂_mem hshowsR)
      (fun l f r g hl hr => sides.agree_eq hl hr)
      (fun l f r g hl hr => sides.pair_shows (hcolumns _ _ _) (sides.sideL.half_row hl.1 hl.2)
        (sides.sideR.half_row hr.1 hr.2))
      (fun l f hl => sides.pair_shows (hcolumns _ _ _) (sides.sideL.half_row hl.1 hl.2)
        (sides.sideR.half_nulls hpadded)))
    (leftOuterJoin_feeds hls hrs (fun l hl eq heq => ?_) fun r hr eq heq => ?_),
    flatMap_outerRows_perm as bs⟩
  · obtain ⟨f, _, hlf⟩ := forall₂_left hshowsL hl
    exact (outerColumns_inside heq).1.trans_le hlf.long
  · obtain ⟨g, _, hrg⟩ := forall₂_left hshowsR hr
    exact (outerColumns_inside heq).2.trans_le hrg.long

/-- `FullOuterJoin` delivers the rows of its plan. -/
theorem fullOuterJoin_delivered (hpaddedL : Padded db (usage.addAll on) left)
    (hpaddedR : Padded db (usage.addAll on) right) :
    ∃ rows, Delivered (ColumnOf db [left, right]) usage
        (.fullOuterJoin lhs rhs (outerColumns (usage.addAll on) on lhs rhs) Record.empty false
          false false 0 []) rows ∧
      rows.Perm (fullOuter (meetsOn left right on) (beside [left])
        (fun f => beside [left] f (nullRow [right])) (fun g => beside [left] (nullRow [left]) g)
        as bs) := by
  obtain ⟨ls, hls, hshowsL⟩ := sides.sideL.delivered
  obtain ⟨rs, hrs, hshowsR⟩ := sides.sideR.delivered
  have hcolumns : ∀ cur v w om i matched, (QueryIter.fullOuterJoin lhs rhs
      (outerColumns (usage.addAll on) on lhs rhs) cur v w om i matched).getColumns =
        lhs.getColumns.filter (usage.addAll on).uses ++
          rhs.getColumns.filter (usage.addAll on).uses := by
    intro cur v w om i matched
    rw [getColumns, outerColumns, projectedColumns_col, projectedColumns_col]
  refine ⟨_, delivered_of_pairs (fullPairs_rel (forall₂_mem hshowsL) (forall₂_mem hshowsR)
      (fun l f r g hl hr => sides.agree_eq hl hr)
      (fun l f r g hl hr => sides.pair_shows (hcolumns _ _ _ _ _ _)
        (sides.sideL.half_row hl.1 hl.2) (sides.sideR.half_row hr.1 hr.2))
      (fun l f hl => sides.pair_shows (hcolumns _ _ _ _ _ _) (sides.sideL.half_row hl.1 hl.2)
        (sides.sideR.half_nulls hpaddedR))
      (fun r g hr => sides.pair_shows (hcolumns _ _ _ _ _ _) (sides.sideL.half_nulls hpaddedL)
        (sides.sideR.half_row hr.1 hr.2)))
    (fullOuterJoin_feeds hls hrs (fun l hl eq heq => ?_) fun r hr eq heq => ?_),
    (flatMap_outerRows_perm as bs).append_right _⟩
  · obtain ⟨f, _, hlf⟩ := forall₂_left hshowsL hl
    exact (outerColumns_inside heq).1.trans_le hlf.long
  · obtain ⟨g, _, hrg⟩ := forall₂_left hshowsR hr
    exact (outerColumns_inside heq).2.trans_le hrg.long

end OuterSides

end Pairs

end Iic3413Db.Query
