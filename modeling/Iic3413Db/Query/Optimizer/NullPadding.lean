/-
  Query/Optimizer/NullPadding.lean --- the padded half of a record of an outer join.

  The null values are one for each projected column that is an integer or a string,
  and they are indexed by the position of the column in the input.  `InputPads` says
  when that finds a value of the right datatype for each of them.
-/
import Iic3413Db.Query.Executor.OuterJoins
import Iic3413Db.Query.Optimizer.OnConditions

set_option autoImplicit false

namespace Iic3413Db.Query

open Iic3413Db.RelationalModel
open Iic3413Db.System (Catalog TableColumn TableId TableInfo)
open Iic3413Db.Storage (TxID)
open QueryIter

/-! ## Null values -/

/-- The value is one of the datatype. -/
def hasDatatype : Value → DataType → Bool
  | .int _, .int | .string _, .str | .rid _, .rid => true
  | _, _ => false

/-- The datatypes that have a null value. -/
def Nullable (datatype : DataType) : Prop := datatype = .int ∨ datatype = .str

instance (datatype : DataType) : Decidable (Nullable datatype) :=
  inferInstanceAs (Decidable (_ ∨ _))

/-- The padded half has a value for each projected column, of its datatype. -/
def WellPadded (projected : List ProjectedColumn) : Prop :=
  ∃ vs, project projected (nullValues projected) = .ok vs ∧
    List.Forall₂ (fun c v => hasDatatype v c.col.info.datatype = true) projected vs

/-- The halves that an outer join pads. -/
def PadsWell : QueryIter → Prop
  | .leftOuterJoin _ _ columns _ _ _ => WellPadded columns.rhs
  | .fullOuterJoin _ _ columns _ _ _ _ _ _ => WellPadded columns.lhs ∧ WellPadded columns.rhs
  | _ => True

section Vectors

variable {projected : List ProjectedColumn}

theorem nullValues_cons_some {c : ProjectedColumn} (h : Nullable c.col.info.datatype) :
    ∃ v, hasDatatype v c.col.info.datatype = true ∧
      nullValues (c :: projected) = v :: nullValues projected := by
  unfold nullValues
  rcases h with h | h
  · exact ⟨.int (-1), by rw [h]; rfl, List.filterMap_cons_some (by rw [h])⟩
  · exact ⟨.string [45, 49], by rw [h]; rfl, List.filterMap_cons_some (by rw [h])⟩

theorem nullValues_cons_none {c : ProjectedColumn} (h : ¬ Nullable c.col.info.datatype) :
    nullValues (c :: projected) = nullValues projected := by
  refine List.filterMap_cons_none ?_
  cases hdatatype : c.col.info.datatype with
  | int => exact absurd (.inl hdatatype) h
  | str => exact absurd (.inr hdatatype) h
  | rid => rfl
  | invalid => rfl

theorem nullValues_length_le (projected : List ProjectedColumn) :
    (nullValues projected).length ≤ projected.length := List.length_filterMap_le _ _

/-- There are as many null values as columns when each column has one. -/
theorem nullable_of_length (h : projected.length ≤ (nullValues projected).length) :
    ∀ c ∈ projected, Nullable c.col.info.datatype := by
  induction projected with
  | nil => exact fun c hc => nomatch hc
  | cons c cs ih =>
      by_cases hc : Nullable c.col.info.datatype
      · obtain ⟨v, _, hv⟩ := @nullValues_cons_some cs c hc
        rw [hv, List.length_cons, List.length_cons] at h
        exact List.forall_mem_cons.mpr ⟨hc, ih (Nat.le_of_succ_le_succ h)⟩
      · rw [nullValues_cons_none hc, List.length_cons] at h
        exact absurd (le_trans h (nullValues_length_le cs)) (Nat.not_succ_le_self _)

/-- Columns at the first positions find their own null values. -/
theorem project_nulls (before : List Value) (htyped : ∀ c ∈ projected, Nullable c.col.info.datatype)
    (hpos : projected.map ProjectedColumn.pos = List.range' before.length projected.length) :
    project projected (before ++ nullValues projected) = .ok (nullValues projected) ∧
      List.Forall₂ (fun c v => hasDatatype v c.col.info.datatype = true) projected
        (nullValues projected) := by
  induction projected generalizing before with
  | nil => exact ⟨rfl, .nil⟩
  | cons c cs ih =>
      obtain ⟨hc, hcs⟩ := List.forall_mem_cons.mp htyped
      obtain ⟨v, hv, hnulls⟩ := @nullValues_cons_some cs c hc
      rw [List.map_cons, List.length_cons, List.range'_succ, List.cons.injEq] at hpos
      have hlength : (before ++ [v]).length = before.length + 1 := by simp
      obtain ⟨hproject, hforall⟩ := ih (before ++ [v]) hcs (by rw [hlength]; exact hpos.2)
      have hvalue : valueAt (before ++ v :: nullValues cs) c.pos = .ok v := by
        rw [hpos.1, valueAt]
        simp
      rw [List.append_assoc, List.singleton_append] at hproject
      refine ⟨?_, ?_⟩
      · rw [hnulls, project, Outcome.mapM_cons, hvalue, Outcome.ok_bind]
        unfold project at hproject
        rw [hproject, Outcome.ok_bind]
      · rw [hnulls]
        exact .cons hv hforall

theorem inside_of_project {values vs : List Value} (h : project projected values = .ok vs) :
    Inside projected values.length := by
  intro c hc
  obtain ⟨v, hv⟩ := Outcome.mapM_ok_iff.mp ⟨vs, h⟩ c hc
  unfold valueAt at hv
  split at hv
  · exact (List.getElem?_eq_some_iff.mp ‹_›).1
  · cases hv

/-- Strictly increasing numbers below their count are the first ones. -/
theorem eq_range_of_lt {ns : List Nat} (hsorted : ns.Pairwise (· < ·))
    (h : ∀ n ∈ ns, n < ns.length) : ns = List.range' 0 ns.length := by
  have hsub : ns ⊆ List.range ns.length := fun n hn => List.mem_range.mpr (h n hn)
  have hperm : ns.Perm (List.range ns.length) :=
    (List.Nodup.subperm (hsorted.imp fun hlt => Nat.ne_of_lt hlt) hsub).perm_of_length_le
      (by rw [List.length_range])
  rw [← List.range_eq_range']
  exact hperm.eq_of_pairwise' hsorted List.pairwise_lt_range

/-- No index is past the null values: the columns, at positions in increasing order as the
loops of the optimizer make them, have one each and are the first ones. -/
theorem nulls_of_project (hsorted : (projected.map ProjectedColumn.pos).Pairwise (· < ·))
    {vs : List Value} (hproject : project projected (nullValues projected) = .ok vs) :
    (∀ c ∈ projected, Nullable c.col.info.datatype) ∧
      projected.map ProjectedColumn.pos = List.range' 0 projected.length := by
  have hinside := inside_of_project hproject
  have hrange := eq_range_of_lt hsorted fun n hn => by
    obtain ⟨c, hc, rfl⟩ := List.mem_map.mp hn
    rw [List.length_map]
    exact lt_of_lt_of_le (hinside c hc) (nullValues_length_le projected)
  rw [List.length_map] at hrange
  refine ⟨nullable_of_length ?_, hrange⟩
  -- the last column is at the last position
  cases hlength : projected.length with
  | zero => exact Nat.zero_le _
  | succ n =>
      have hlast : n ∈ projected.map ProjectedColumn.pos := by
        rw [hrange, hlength]
        simp
      obtain ⟨c, hc, hpos⟩ := List.mem_map.mp hlast
      exact hpos ▸ hinside c hc

theorem wellPadded_iff (hsorted : (projected.map ProjectedColumn.pos).Pairwise (· < ·)) :
    WellPadded projected ↔ (∀ c ∈ projected, Nullable c.col.info.datatype) ∧
      projected.map ProjectedColumn.pos = List.range' 0 projected.length := by
  constructor
  · rintro ⟨vs, hproject, _⟩
    exact nulls_of_project hsorted hproject
  · rintro ⟨htyped, hpos⟩
    obtain ⟨hproject, hforall⟩ := project_nulls [] htyped hpos
    exact ⟨_, hproject, hforall⟩

/-- A half that is padded at all is padded well. -/
theorem wellPadded_of_project (hsorted : (projected.map ProjectedColumn.pos).Pairwise (· < ·))
    {vs : List Value} (hproject : project projected (nullValues projected) = .ok vs) :
    WellPadded projected := (wellPadded_iff hsorted).mpr (nulls_of_project hsorted hproject)

end Vectors

/-! ## Which inputs pad well -/

/-- No column of the input that the join drops stands before one it keeps, and those it
keeps have null values. -/
def ColumnsPad (usage : ColumnUsage) (columns : List Column) : Prop :=
  columns.Pairwise (fun c d => usage.uses d = true → usage.uses c = true) ∧
    ∀ c ∈ columns, usage.uses c = true → Nullable c.info.datatype

/-- The same of the schema of an input: no column that only a pushed selection uses
stands before one the query uses, and the query does not use the RID column. -/
def InputPads (counted : ColumnUsage) (tableAlias : List UInt8) (input : OuterInput)
    (info : TableInfo) : Prop :=
  info.columns.Pairwise (fun c d => counted.keeps (tableAlias, d.name) = true →
    (input.usage counted).keeps (tableAlias, c.name) = true →
      counted.keeps (tableAlias, c.name) = true) ∧
  ∀ c ∈ info.columns, counted.keeps (tableAlias, c.name) = true → Nullable c.datatype

instance (counted : ColumnUsage) (tableAlias : List UInt8) (input : OuterInput)
    (info : TableInfo) : Decidable (InputPads counted tableAlias input info) :=
  inferInstanceAs (Decidable (_ ∧ _))

/-- What the loop of `visit(RelationPlan&)` keeps of a schema. -/
def keptColumns (usage : ColumnUsage) (tableAlias : Identifier) : List TableColumn →
    List TableColumn
  | [] => []
  | col :: cols =>
      if usage.keeps (tableAlias, col.name) = true ∨ cols = [] then
        col :: keptColumns usage tableAlias cols
      else keptColumns usage tableAlias cols

section Columns

variable {usage counted : ColumnUsage} {columns : List Column}

theorem projectedFrom_le (pos : Nat) (columns : List Column) :
    ∀ c ∈ projectedFrom usage pos columns, pos ≤ c.pos := by
  induction columns generalizing pos with
  | nil => exact fun c hc => nomatch hc
  | cons c cs ih =>
      intro d hd
      unfold projectedFrom at hd
      split at hd
      · rcases List.mem_cons.mp hd with rfl | hd
        · exact le_rfl
        · exact Nat.le_of_succ_le (ih (pos + 1) d hd)
      · exact Nat.le_of_succ_le (ih (pos + 1) d hd)

theorem projectedFrom_sorted (pos : Nat) (columns : List Column) :
    ((projectedFrom usage pos columns).map ProjectedColumn.pos).Pairwise (· < ·) := by
  induction columns generalizing pos with
  | nil => exact .nil
  | cons c cs ih =>
      unfold projectedFrom
      split
      · rw [List.map_cons, List.pairwise_cons]
        refine ⟨fun n hn => ?_, ih (pos + 1)⟩
        obtain ⟨d, hd, rfl⟩ := List.mem_map.mp hn
        exact projectedFrom_le (pos + 1) cs d hd
      · exact ih (pos + 1)

theorem projectedFrom_eq_nil {pos : Nat} :
    projectedFrom usage pos columns = [] ↔ ∀ c ∈ columns, usage.uses c ≠ true := by
  have hlength : (projectedFrom usage pos columns).map ProjectedColumn.col = [] ↔
      projectedFrom usage pos columns = [] := List.map_eq_nil_iff
  rw [← hlength, projectedFrom_col, List.filter_eq_nil_iff]

/-- The kept columns come first. -/
theorem projectedFrom_pos (pos : Nat) (columns : List Column) :
    (projectedFrom usage pos columns).map ProjectedColumn.pos =
        List.range' pos (projectedFrom usage pos columns).length ↔
      columns.Pairwise fun c d => usage.uses d = true → usage.uses c = true := by
  induction columns generalizing pos with
  | nil => exact iff_of_true rfl .nil
  | cons c cs ih =>
      rw [List.pairwise_cons]
      unfold projectedFrom
      split
      · rename_i hc
        rw [List.map_cons, List.length_cons, List.range'_succ, List.cons.injEq, ih (pos + 1)]
        exact ⟨fun h => ⟨fun _ _ _ => hc, h.2⟩, fun h => ⟨rfl, h.2⟩⟩
      · rename_i hc
        have hnone : (∀ d ∈ cs, usage.uses d = true → usage.uses c = true) ↔
            projectedFrom usage (pos + 1) cs = [] := by
          rw [projectedFrom_eq_nil]
          exact forall₂_congr fun d _ => imp_congr_right fun _ => iff_of_false hc id
        rw [hnone]
        constructor
        · intro h
          have hnil : projectedFrom usage (pos + 1) cs = [] := by
            -- a first column would be after its position
            cases hps : projectedFrom usage (pos + 1) cs with
            | nil => rfl
            | cons d ds =>
                have hle := projectedFrom_le (pos + 1) cs d (by rw [hps]; exact List.mem_cons_self)
                rw [hps, List.map_cons, List.length_cons, List.range'_succ, List.cons.injEq] at h
                omega
          refine ⟨hnil, ?_⟩
          rw [projectedFrom_eq_nil] at hnil
          exact List.pairwise_of_forall_mem_list fun d _ x hx hused => absurd hused (hnil x hx)
        · rintro ⟨hnil, _⟩
          rw [hnil]
          rfl

theorem wellPadded_columns (usage : ColumnUsage) (columns : List Column) :
    WellPadded (projectedColumns usage columns) ↔ ColumnsPad usage columns := by
  have hmem : (∀ c ∈ projectedColumns usage columns, Nullable c.col.info.datatype) ↔
      ∀ c ∈ columns, usage.uses c = true → Nullable c.info.datatype := by
    have hcols : (∀ d ∈ (projectedColumns usage columns).map ProjectedColumn.col,
        Nullable d.info.datatype) ↔ ∀ c ∈ columns.filter usage.uses, Nullable c.info.datatype := by
      rw [projectedColumns_col]
    simpa only [List.forall_mem_map, List.mem_filter, and_imp] using hcols
  have hiff : WellPadded (projectedColumns usage columns) ↔ _ :=
    wellPadded_iff (projectedFrom_sorted 0 columns)
  rw [hiff, hmem]
  exact and_comm.trans (and_congr_left' (projectedFrom_pos 0 columns))

theorem relationColumnsFrom_kept {tableAlias table : Identifier} {cols : List TableColumn}
    {ps : List ProjectedColumn} {pos : Nat}
    (h : relationColumnsFrom usage tableAlias table pos cols = .ok ps) :
    ps.map ProjectedColumn.col = (keptColumns usage tableAlias cols).map
      (Column.mk tableAlias table) := by
  induction cols generalizing pos ps with
  | nil =>
      cases h
      rfl
  | cons col cols ih =>
      simp only [relationColumnsFrom] at h
      unfold keptColumns
      split at h
      · rename_i hused
        obtain ⟨rest, hrest, h⟩ := Outcome.of_bind_ok h
        cases h
        rw [if_pos (.inl hused), List.map_cons, List.map_cons, ih hrest]
      · rename_i hunused
        split at h
        · rename_i hempty
          obtain rfl := List.isEmpty_iff.mp hempty
          split at h
          · cases h
            rw [if_pos (.inr rfl)]
            rfl
          · cases h
        · rename_i hcols
          rw [ih h, if_neg]
          rintro (hused | rfl)
          · exact hunused hused
          · exact hcols rfl

/-- The columns kept are of the schema, and those in use are among them. -/
theorem keptColumns_mem {tableAlias : Identifier} {cols : List TableColumn} :
    (∀ col ∈ keptColumns usage tableAlias cols, col ∈ cols) ∧
      ∀ col ∈ cols, usage.keeps (tableAlias, col.name) = true →
        col ∈ keptColumns usage tableAlias cols := by
  induction cols with
  | nil => exact ⟨fun col h => h, fun col h => nomatch h⟩
  | cons d cols ih =>
      unfold keptColumns
      split
      · refine ⟨fun col h => ?_, fun col h hkeeps => ?_⟩
        · rcases List.mem_cons.mp h with rfl | h
          · exact List.mem_cons_self
          · exact List.mem_cons_of_mem d (ih.1 col h)
        · rcases List.mem_cons.mp h with rfl | h
          · exact List.mem_cons_self
          · exact List.mem_cons_of_mem d (ih.2 col h hkeeps)
      · rename_i hunkept
        refine ⟨fun col h => List.mem_cons_of_mem d (ih.1 col h), fun col h hkeeps => ?_⟩
        rcases List.mem_cons.mp h with rfl | h
        · exact absurd (.inl hkeeps) hunkept
        · exact ih.2 col h hkeeps

theorem keptColumns_length_le (usage : ColumnUsage) (tableAlias : Identifier)
    (cols : List TableColumn) : (keptColumns usage tableAlias cols).length ≤ cols.length := by
  induction cols with
  | nil => exact le_rfl
  | cons d cols ih =>
      unfold keptColumns
      split
      · exact Nat.succ_le_succ ih
      · exact Nat.le_succ_of_le ih

/-- All of the schema is kept when the columns before the last are in use. -/
theorem keptColumns_eq_self {tableAlias : Identifier} {cols : List TableColumn} :
    keptColumns usage tableAlias cols = cols ↔
      ∀ c ∈ cols.dropLast, usage.keeps (tableAlias, c.name) = true := by
  induction cols with
  | nil => exact iff_of_true rfl fun c hc => nomatch hc
  | cons d cols ih =>
      cases cols with
      | nil => exact iff_of_true (if_pos (.inr rfl)) fun c hc => nomatch hc
      | cons d' cols =>
          rw [List.dropLast_cons_of_ne_nil (List.cons_ne_nil d' cols), List.forall_mem_cons, ← ih,
            keptColumns]
          split
          · rename_i hkept
            have hkeeps := hkept.resolve_right (List.cons_ne_nil d' cols)
            rw [List.cons.injEq]
            exact and_congr_left' (iff_of_true rfl hkeeps)
          · rename_i hunkept
            refine iff_of_false (fun heq => ?_) fun h => hunkept (.inl h.1)
            -- what is kept is not longer than the schema
            have hlength := keptColumns_length_le usage tableAlias (d' :: cols)
            rw [heq, List.length_cons] at hlength
            exact Nat.not_succ_le_self _ hlength

/-- What the schema says of the columns kept. -/
theorem keptColumns_pads {tableAlias table : Identifier} {cols : List TableColumn}
    (hle : ∀ k, counted k ≤ usage k) :
    ColumnsPad counted ((keptColumns usage tableAlias cols).map (Column.mk tableAlias table)) ↔
      cols.Pairwise (fun c d => counted.keeps (tableAlias, d.name) = true →
        usage.keeps (tableAlias, c.name) = true → counted.keeps (tableAlias, c.name) = true) ∧
      ∀ c ∈ cols, counted.keeps (tableAlias, c.name) = true → Nullable c.datatype := by
  unfold ColumnsPad
  rw [List.pairwise_map, List.forall_mem_map]
  induction cols with
  | nil => exact iff_of_true ⟨.nil, fun c hc => nomatch hc⟩ ⟨.nil, fun c hc => nomatch hc⟩
  | cons col cols ih =>
      have hfirst : (∀ d ∈ keptColumns usage tableAlias cols,
            counted.keeps (tableAlias, d.name) = true →
              counted.keeps (tableAlias, col.name) = true) ↔
          ∀ d ∈ cols, counted.keeps (tableAlias, d.name) = true →
            counted.keeps (tableAlias, col.name) = true :=
        ⟨fun hall d hd hkeeps => hall d (keptColumns_mem.2 d hd (keeps_mono hle hkeeps)) hkeeps,
          fun hall d hd => hall d (keptColumns_mem.1 d hd)⟩
      unfold keptColumns
      rw [List.pairwise_cons, List.forall_mem_cons]
      split
      · rename_i hkept
        rw [List.pairwise_cons, List.forall_mem_cons, and_and_and_comm, ih, and_and_and_comm]
        refine and_congr (and_congr_left' (hfirst.trans ?_)) Iff.rfl
        rcases hkept with hkeeps | rfl
        · exact forall₂_congr fun d _ => imp_congr_right fun _ => ⟨fun h _ => h, fun h => h hkeeps⟩
        · exact iff_of_true (fun d hd => nomatch hd) fun d hd => nomatch hd
      · rename_i hunkept
        have hunused : usage.keeps (tableAlias, col.name) ≠ true := fun h => hunkept (.inl h)
        rw [ih]
        exact and_congr
          ⟨fun hcols => ⟨fun _ _ _ hkeeps => absurd hkeeps hunused, hcols⟩, And.right⟩
          ⟨fun hcols => ⟨fun hkeeps => absurd (keeps_mono hle hkeeps) hunused, hcols⟩, And.right⟩

end Columns

/-! ## Both outer joins -/

section Joins

variable {catalog : Catalog} {txId : TxID} {scans : TableId → Nat → List Record}
  {likeMatch : List UInt8 → List UInt8 → Bool}
  {joinOrder : List LogicalPlan → List JoinPair → List Nat}
  {usage counted : ColumnUsage} {joins : List JoinPair} {tableAlias : List UInt8}
  {input inputL inputR : OuterInput} {info left right : TableInfo} {it : QueryIter}

/-- The padded half for an input. -/
theorem wellPadded_input
    (h : visitPlan catalog txId scans likeMatch joinOrder counted (input.plan tableAlias) = .ok it)
    (hinfo : catalog.getTableInfo input.table txId = .ok (some info)) :
    WellPadded (projectedColumns counted it.getColumns) ↔
      InputPads counted tableAlias input info := by
  obtain ⟨ps, hps, hcolumns, _⟩ := input_columns h hinfo
  rw [wellPadded_columns, hcolumns, relationColumnsFrom_kept hps]
  exact keptColumns_pads (input.le_usage counted)

/-- Padding is well formed exactly when every padded input pads. -/
theorem nullPadding_iff
    (hleft : catalog.getTableInfo inputL.table txId = .ok (some left))
    (hright : catalog.getTableInfo inputR.table txId = .ok (some right)) :
    (visitPlan catalog txId scans likeMatch joinOrder usage
        (.leftOuterJoin tableAlias (inputL.plan tableAlias) (inputR.plan tableAlias) joins) =
          .ok it →
      (PadsWell it ↔ InputPads (usage.addAll joins) tableAlias inputR right)) ∧
    (visitPlan catalog txId scans likeMatch joinOrder usage
        (.fullOuterJoin tableAlias (inputL.plan tableAlias) (inputR.plan tableAlias) joins) =
          .ok it →
      (PadsWell it ↔ InputPads (usage.addAll joins) tableAlias inputL left ∧
        InputPads (usage.addAll joins) tableAlias inputR right)) := by
  constructor
  · intro h
    simp only [visitPlan] at h
    obtain ⟨lhs, hl, h⟩ := Outcome.of_bind_ok h
    obtain ⟨rhs, hr, h⟩ := Outcome.of_bind_ok h
    obtain ⟨_, rfl⟩ := requireEqualities_ok.mp h
    exact wellPadded_input hr hright
  · intro h
    simp only [visitPlan] at h
    obtain ⟨lhs, hl, h⟩ := Outcome.of_bind_ok h
    obtain ⟨rhs, hr, h⟩ := Outcome.of_bind_ok h
    obtain ⟨_, rfl⟩ := requireEqualities_ok.mp h
    exact and_congr (wellPadded_input hl hleft) (wellPadded_input hr hright)

end Joins

/-! ## Two tables -/

/-- The pair of `ON l.id == r.id`. -/
def idJoins : List JoinPair :=
  [(⟨[106], [108], ⟨[105, 100], .int, 0⟩⟩, ⟨[106], [114], ⟨[105, 100], .int, 1⟩⟩)]

/-- `SELECT j.r.y` from the join: only the columns `id` and `y` of `r` are in use. -/
theorem nullPadding_iff_column : ∃ it, visitPlan twoTables 1 (fun _ _ => []) (fun _ _ => true)
      (fun _ _ => []) (ColumnUsage.addColumns (fun _ => 0) [⟨[106], [114], ⟨[121], .int, 1⟩⟩])
      (leftJoinPlan idJoins) = .ok it ∧ PadsWell it := by
  have hplan : ∃ it, visitPlan twoTables 1 (fun _ _ => []) (fun _ _ => true) (fun _ _ => [])
      (ColumnUsage.addColumns (fun _ => 0) [⟨[106], [114], ⟨[121], .int, 1⟩⟩])
      (.leftOuterJoin [106] (OuterInput.plan ⟨[108], none⟩ [106])
        (OuterInput.plan ⟨[114], none⟩ [106]) idJoins) = .ok it := ⟨_, rfl⟩
  obtain ⟨it, hplan⟩ := hplan
  have hleft : twoTables.getTableInfo [108] 1 = .ok (some leftTable) := rfl
  have hright : twoTables.getTableInfo [114] 1 = .ok (some rightTable) := rfl
  exact ⟨it, hplan, ((nullPadding_iff hleft hright).1 hplan).mpr (by decide)⟩

/-- `SELECT * FROM (l LEFT OUTER JOIN r ON l.id == r.id) AS j`. -/
def starQuery : SelectQuery where
  distinct := false
  columnList := none
  firstItem := .leftOuterJoin [108] [114] [106]
    [(onColumn [108] [105, 100], onColumn [114] [105, 100])]
  otherItems := []
  whereStatement := none
  limitStatement := none

/-- With one row in `l` and none in `r`, the first turn reads past the null values: the
asterisk uses the RID column. -/
theorem nullPadding_star : ∃ columns it started,
    visitSelectQuery twoTables 1 starQuery =
      .ok (.projection (leftJoinPlan idJoins) false (2 ^ 63 - 1) columns) ∧
    createPhysicalPlan twoTables 1
      (fun tableId _ => if tableId = 0 then [⟨[.int 1, .int 2, .rid ⟨0, 0⟩]⟩] else [])
      (fun _ _ => true) (fun _ _ => [])
      (.projection (leftJoinPlan idJoins) false (2 ^ 63 - 1) columns) = .ok it ∧
    begin 5 it = .ok (some started) ∧ next 5 started = .error (.undefinedBehaviour "values[i]") :=
  ⟨_, _, _, rfl, rfl, rfl, rfl⟩

end Iic3413Db.Query
