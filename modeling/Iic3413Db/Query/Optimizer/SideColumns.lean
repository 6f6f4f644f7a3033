/-
  Query/Optimizer/SideColumns.lean --- one side of an outer join under a projection:
  which columns it reads and where, and the values the projection returns for a
  record of it or for its null values.
-/
import Iic3413Db.Query.Optimizer.NullPadding

set_option autoImplicit false

namespace Iic3413Db.Query

open Iic3413Db.RelationalModel
open Iic3413Db.System (TableColumn TableInfo)
open QueryIter

/-! ## The columns of one side -/

/-- The projected columns of a side. -/
def sideColumns (counted : ColumnUsage) (tableAlias : Identifier) (input : OuterInput)
    (info : TableInfo) : List ProjectedColumn :=
  projectedColumns counted
    ((keptColumns (input.usage counted) tableAlias info.columns).map
      (Column.mk tableAlias input.table))

/-- Where a side reads the column with a name. -/
def placeOf (counted : ColumnUsage) (tableAlias : Identifier) (input : OuterInput)
    (info : TableInfo) (name : Identifier) : Option Nat :=
  (keptColumns (input.usage counted) tableAlias info.columns).findIdx? fun col =>
    decide (col.name = name)

/-- The columns that stand before the one with a name. -/
def columnsBefore (info : TableInfo) (name : Identifier) : List TableColumn :=
  info.columns.takeWhile fun col => decide (col.name ≠ name)

section Kept

variable {usage counted : ColumnUsage} {tableAlias table name : Identifier}
  {cols : List TableColumn} {ps : List ProjectedColumn}

/-- The column is after those before it that are kept. -/
theorem keptColumns_findIdx (hname : ∃ col ∈ cols, col.name = name)
    (hused : usage.keeps (tableAlias, name) = true) :
    ((keptColumns usage tableAlias cols).findIdx? fun col => decide (col.name = name)) =
      some ((cols.takeWhile fun col => decide (col.name ≠ name)).countP
        fun col => usage.keeps (tableAlias, col.name)) := by
  induction cols with
  | nil => exact absurd hname (by simp)
  | cons col cols ih =>
      unfold keptColumns
      by_cases hcol : col.name = name
      · rw [if_pos (.inl (hcol ▸ hused)), List.findIdx?_cons]
        simp [hcol]
      · have hrest : ∃ col ∈ cols, col.name = name := by
          obtain ⟨d, hd, hdname⟩ := hname
          rcases List.mem_cons.mp hd with rfl | hd
          · exact absurd hdname hcol
          · exact ⟨d, hd, hdname⟩
        have hne : cols ≠ [] := by
          obtain ⟨d, hd, _⟩ := hrest
          exact List.ne_nil_of_mem hd
        have hbefore : (col :: cols).takeWhile (fun col => decide (col.name ≠ name)) =
            col :: cols.takeWhile fun col => decide (col.name ≠ name) :=
          List.takeWhile_cons_of_pos (decide_eq_true hcol)
        rw [hbefore, List.countP_cons]
        split
        · rename_i hkept
          have hkeeps := hkept.resolve_right hne
          rw [List.findIdx?_cons, ih hrest, hkeeps]
          simp [hcol]
        · rename_i hunkept
          have hkeeps : ¬ usage.keeps (tableAlias, col.name) = true := fun h => hunkept (.inl h)
          rw [ih hrest, if_neg hkeeps, Nat.add_zero]

/-- The column found is the first with its name. -/
theorem keptColumns_find (hname : ∃ col ∈ cols, col.name = name)
    (hused : usage.keeps (tableAlias, name) = true) :
    ((keptColumns usage tableAlias cols).find? fun col => decide (col.name = name)) =
      cols.find? fun col => decide (col.name = name) := by
  induction cols with
  | nil => exact absurd hname (by simp)
  | cons col cols ih =>
      unfold keptColumns
      by_cases hcol : col.name = name
      · rw [if_pos (.inl (hcol ▸ hused)), List.find?_cons, List.find?_cons]
        simp [hcol]
      · have hrest : ∃ col ∈ cols, col.name = name := by
          obtain ⟨d, hd, hdname⟩ := hname
          rcases List.mem_cons.mp hd with rfl | hd
          · exact absurd hdname hcol
          · exact ⟨d, hd, hdname⟩
        have hskip : ∀ ds : List TableColumn,
            (col :: ds).find? (fun col => decide (col.name = name)) =
              ds.find? fun col => decide (col.name = name) :=
          fun ds => List.find?_cons_of_neg (by simpa using hcol)
        rw [hskip]
        split
        · rw [hskip, ih hrest]
        · exact ih hrest

/-- More counters keep more: the places are the same when no more columns are kept. -/
theorem countP_eq_iff {α : Type} {p q : α → Bool} {as : List α} (h : ∀ a, q a = true → p a = true) :
    as.countP p = as.countP q ↔ ∀ a ∈ as, p a = true → q a = true := by
  induction as with
  | nil => simp
  | cons a as ih =>
      have hle : as.countP q ≤ as.countP p := List.countP_mono_left fun a _ => h a
      rw [List.countP_cons, List.countP_cons, List.forall_mem_cons, ← ih]
      by_cases hp : p a = true
      · by_cases hq : q a = true
        · simp [hp, hq]
        · rw [if_pos hp, if_neg hq]
          refine iff_of_false (fun heq => ?_) fun hall => hq (hall.1 hp)
          omega
      · have hq : ¬ q a = true := fun hq => hp (h a hq)
        simp [hp, hq]

end Kept

/-! ## What the projection returns -/

/-- What is returned for values of the left input and of the right one: those of a
record, or the null values. -/
def returnedPair (columns : JoinColumns) (output : List Column) (l r : List Value) :
    Outcome (List Value) := do
  let combined ← combine columns.lhs columns.rhs l r
  pick (columns.lhs.map ProjectedColumn.col ++ columns.rhs.map ProjectedColumn.col)
    combined.values output

/-- The value that an output column gets. -/
def fetched (columns : JoinColumns) (l r : List Value) (col : Column) : Option Value :=
  match columns.lhs.find? fun p => decide (p.col.key = col.key) with
  | some p => l[p.pos]?
  | none => (columns.rhs.find? fun p => decide (p.col.key = col.key)).bind fun p => r[p.pos]?

section Lookup

variable {counted : ColumnUsage} {tableAlias name : Identifier} {input : OuterInput}
  {info : TableInfo} {columns : JoinColumns} {output : List Column} {col : Column}
  {l r lv rv vs : List Value}

theorem projectedFrom_find {k : ColumnKey} (hk : counted.keeps k = true) (pos : Nat)
    (cs : List Column) :
    ((projectedFrom counted pos cs).find? fun p => decide (p.col.key = k)).map
        (fun p => (p.pos, p.col)) =
      (cs.findIdx? fun col => decide (col.key = k)).bind fun i =>
        cs[i]?.map fun col => (pos + i, col) := by
  induction cs generalizing pos with
  | nil => rfl
  | cons d cs ih =>
      have hshift : ∀ o : Option Nat,
          ((o.map (· + 1)).bind fun i => (d :: cs)[i]?.map fun col => (pos + i, col)) =
            o.bind fun i => cs[i]?.map fun col => (pos + 1 + i, col) := by
        rintro (_ | i)
        · rfl
        · simp only [Option.map_some, Option.bind_some, List.getElem?_cons_succ]
          rw [Nat.add_assoc, Nat.add_comm 1 i]
      have hlater := ih (pos + 1)
      unfold projectedFrom
      rw [List.findIdx?_cons]
      by_cases hd : d.key = k
      · have huses : counted.uses d = true := by
          rw [← hd] at hk
          exact hk
        rw [if_pos huses, List.find?_cons]
        simp [hd]
      · simp only [hd, decide_false, Bool.false_eq_true, if_false]
        rw [hshift, ← hlater]
        split
        · rw [List.find?_cons_of_neg (by simpa using hd)]
        · rfl

/-- A column in use is read at its place. -/
theorem sideColumns_find (hname : hasColumn info name = true)
    (hused : counted.keeps (tableAlias, name) = true) :
    ∃ p, ((sideColumns counted tableAlias input info).find? fun p =>
        decide (p.col.key = (tableAlias, name))) = some p ∧
      placeOf counted tableAlias input info name = some p.pos ∧
        (info.columns.find? fun col => decide (col.name = name)) = some p.col.info := by
  have hmem : ∃ col ∈ info.columns, col.name = name := by
    simpa [hasColumn] using hname
  have hkeeps := keeps_mono (input.le_usage counted) hused
  have hfind := keptColumns_find hmem hkeeps
  have hidx := keptColumns_findIdx hmem hkeeps
  have hside := projectedFrom_find hused 0
    ((keptColumns (input.usage counted) tableAlias info.columns).map
      (Column.mk tableAlias input.table))
  have hkey : ((fun col : Column => decide (col.key = (tableAlias, name))) ∘
      Column.mk tableAlias input.table) = fun col => decide (col.name = name) := by
    funext col
    simp [Column.key]
  rw [List.findIdx?_map, hkey, hidx, Option.bind_some] at hside
  rw [List.find?_eq_bind_findIdx?_getElem?, hidx, Option.bind_some] at hfind
  cases hcol : (keptColumns (input.usage counted) tableAlias info.columns)[
      (info.columns.takeWhile fun col => decide (col.name ≠ name)).countP
        fun col => (input.usage counted).keeps (tableAlias, col.name)]? with
  | none =>
      rw [hcol] at hfind
      obtain ⟨col, hcol, hcolname⟩ := hmem
      exact absurd (List.find?_eq_none.mp hfind.symm col hcol) (by simpa using hcolname)
  | some col =>
      rw [List.getElem?_map, hcol, Option.map_some, Option.map_some] at hside
      obtain ⟨p, hp, hpos⟩ := Option.map_eq_some_iff.mp hside
      obtain ⟨hpos, hpcol⟩ := Prod.mk.inj hpos
      refine ⟨p, hp, ?_, ?_⟩
      · rw [placeOf, hidx, hpos, Nat.zero_add]
      · rw [← hfind, hcol, hpcol]

theorem sideColumns_find_none (hname : hasColumn info name = false) :
    ((sideColumns counted tableAlias input info).find? fun p =>
        decide (p.col.key = (tableAlias, name))) = none := by
  refine List.find?_eq_none.mpr fun p hp => ?_
  have hcol : p.col ∈ (sideColumns counted tableAlias input info).map ProjectedColumn.col :=
    List.mem_map_of_mem hp
  rw [sideColumns, projectedColumns_col] at hcol
  obtain ⟨col, hcol, heq⟩ := List.mem_map.mp (List.mem_of_mem_filter hcol)
  have hother : col.name ≠ name := by
    have := List.any_eq_false.mp hname col (keptColumns_mem.1 col hcol)
    simpa using this
  rw [← heq]
  simpa [Column.key] using hother

theorem project_getElem {projected : List ProjectedColumn} {values vs : List Value}
    (h : project projected values = .ok vs) (i : Nat) :
    vs[i]? = projected[i]?.bind fun p => values[p.pos]? := by
  induction projected generalizing vs i with
  | nil =>
      cases h
      rfl
  | cons c cs ih =>
      rw [project, Outcome.mapM_cons] at h
      obtain ⟨v, hv, h⟩ := Outcome.of_bind_ok h
      obtain ⟨rest, hrest, h⟩ := Outcome.of_bind_ok h
      cases h
      unfold valueAt at hv
      split at hv
      · rename_i hvalue
        cases hv
        cases i with
        | zero => simp [hvalue]
        | succ i => exact ih hrest i
      · cases hv

/-- The place the search finds holds the value. -/
theorem findColumn_fetched (hl : project columns.lhs l = .ok lv)
    (hr : project columns.rhs r = .ok rv) (col : Column) :
    ((findColumn (columns.lhs.map ProjectedColumn.col ++ columns.rhs.map ProjectedColumn.col)
      col).bind fun j => (lv ++ rv)[j]?) = fetched columns l r col := by
  have hlength : columns.lhs.length = lv.length := (Outcome.forall₂_of_mapM hl).length_eq
  unfold findColumn fetched
  rw [List.findIdx?_append, List.findIdx?_map, List.findIdx?_map, List.length_map,
    List.find?_eq_bind_findIdx?_getElem?, List.find?_eq_bind_findIdx?_getElem?]
  have hcomp : ((fun c : Column => decide (c.key = col.key)) ∘ ProjectedColumn.col) =
      fun p => decide (p.col.key = col.key) := rfl
  rw [hcomp]
  cases hi : columns.lhs.findIdx? fun p => decide (p.col.key = col.key) with
  | some i =>
      obtain ⟨hlt, _⟩ := List.findIdx?_eq_some_iff_getElem.mp hi
      rw [Option.some_or, Option.bind_some, Option.bind_some, List.getElem?_eq_getElem hlt,
        List.getElem?_append_left (hlength ▸ hlt), project_getElem hl,
        List.getElem?_eq_getElem hlt]
      rfl
  | none =>
      rw [Option.none_or, Option.bind_none]
      cases hj : columns.rhs.findIdx? fun p => decide (p.col.key = col.key) with
      | none => rfl
      | some j =>
          obtain ⟨hlt, _⟩ := List.findIdx?_eq_some_iff_getElem.mp hj
          rw [Option.map_some, Option.bind_some, Option.bind_some, hlength,
            List.getElem?_append_right (Nat.le_add_left _ _), Nat.add_sub_cancel,
            project_getElem hr, List.getElem?_eq_getElem hlt]

/-- The projection of a combined record, column by column. -/
theorem returnedPair_eq (hl : project columns.lhs l = .ok lv)
    (hr : project columns.rhs r = .ok rv) (output : List Column) :
    returnedPair columns output l r = .ok (output.filterMap (fetched columns l r)) := by
  have hlength : columns.lhs.length = lv.length := (Outcome.forall₂_of_mapM hl).length_eq
  have hlength' : columns.rhs.length = rv.length := (Outcome.forall₂_of_mapM hr).length_eq
  rw [returnedPair, combine, hl, hr]
  simp only [Outcome.ok_bind]
  induction output with
  | nil => rfl
  | cons col output ih =>
      have hvalue := findColumn_fetched hl hr col
      unfold pick
      cases hfind : findColumn (columns.lhs.map ProjectedColumn.col ++
          columns.rhs.map ProjectedColumn.col) col with
      | none =>
          rw [hfind, Option.bind_none] at hvalue
          rw [List.filterMap_cons_none hvalue.symm]
          exact ih
      | some j =>
          have hlt : j < (lv ++ rv).length := by
            obtain ⟨hlt, _⟩ := List.findIdx?_eq_some_iff_getElem.mp hfind
            simpa [hlength, hlength'] using hlt
          rw [hfind, Option.bind_some, List.getElem?_eq_getElem hlt] at hvalue
          dsimp only
          rw [valueAt, List.getElem?_eq_getElem hlt]
          simp only [Outcome.ok_bind]
          rw [ih, Outcome.ok_bind, List.filterMap_cons_some hvalue.symm]

theorem returnedPair_ok (h : returnedPair columns output l r = .ok vs) :
    ∃ lv rv, project columns.lhs l = .ok lv ∧ project columns.rhs r = .ok rv := by
  obtain ⟨_, hcombine, _⟩ := Outcome.of_bind_ok h
  obtain ⟨lv, hl, hcombine⟩ := Outcome.of_bind_ok hcombine
  obtain ⟨rv, hr, _⟩ := Outcome.of_bind_ok hcombine
  exact ⟨lv, rv, hl, hr⟩

theorem fetched_isSome (hl : project columns.lhs l = .ok lv) (hr : project columns.rhs r = .ok rv)
    (hcol : ∃ p ∈ columns.lhs ++ columns.rhs, p.col.key = col.key) :
    (fetched columns l r col).isSome = true := by
  rw [← findColumn_fetched hl hr col]
  have hlength : columns.lhs.length = lv.length := (Outcome.forall₂_of_mapM hl).length_eq
  have hlength' : columns.rhs.length = rv.length := (Outcome.forall₂_of_mapM hr).length_eq
  cases hfind : findColumn (columns.lhs.map ProjectedColumn.col ++
      columns.rhs.map ProjectedColumn.col) col with
  | none =>
      obtain ⟨p, hp, hkey⟩ := hcol
      rw [← List.map_append] at hfind
      have hnone := List.findIdx?_eq_none_iff.mp hfind p.col (List.mem_map_of_mem hp)
      exact absurd hkey (of_decide_eq_false hnone)
  | some j =>
      obtain ⟨hlt, _⟩ := List.findIdx?_eq_some_iff_getElem.mp hfind
      have hlt' : j < (lv ++ rv).length := by simpa [hlength, hlength'] using hlt
      rw [Option.bind_some, List.getElem?_eq_getElem hlt']
      rfl

theorem map_some_filterMap {α β : Type} {f : α → Option β} {as : List α}
    (h : ∀ a ∈ as, (f a).isSome = true) : (as.filterMap f).map some = as.map f := by
  induction as with
  | nil => rfl
  | cons a as ih =>
      obtain ⟨ha, has⟩ := List.forall_mem_cons.mp h
      obtain ⟨b, hb⟩ := Option.isSome_iff_exists.mp ha
      rw [List.filterMap_cons_some hb, List.map_cons, List.map_cons, ih has, hb]

/-- A list whose columns are all there gets a value for each. -/
theorem returnedPair_map (hl : project columns.lhs l = .ok lv) (hr : project columns.rhs r = .ok rv)
    (hcols : ∀ col ∈ output, ∃ p ∈ columns.lhs ++ columns.rhs, p.col.key = col.key) :
    ∃ vs, returnedPair columns output l r = .ok vs ∧
      vs.map some = output.map (fetched columns l r) :=
  ⟨_, returnedPair_eq hl hr output,
    map_some_filterMap fun col hcol => fetched_isSome hl hr (hcols col hcol)⟩

theorem returnedPair_ok_iff : (∃ vs, returnedPair columns output l r = .ok vs) ↔
    (∃ lv, project columns.lhs l = .ok lv) ∧ ∃ rv, project columns.rhs r = .ok rv := by
  constructor
  · rintro ⟨vs, h⟩
    obtain ⟨lv, rv, hl, hr⟩ := returnedPair_ok h
    exact ⟨⟨lv, hl⟩, rv, hr⟩
  · rintro ⟨⟨lv, hl⟩, rv, hr⟩
    exact ⟨_, returnedPair_eq hl hr output⟩

theorem returnedPair_error {e : Fault} (h : returnedPair columns output l r = .error e) :
    e = .undefinedBehaviour "values[i]" := by
  rcases Outcome.of_bind_error h with hcombine | ⟨combined, hcombine, hpick⟩
  · rcases Outcome.of_bind_error hcombine with hl | ⟨lv, _, hcombine⟩
    · exact project_error hl
    rcases Outcome.of_bind_error hcombine with hr | ⟨rv, _, hcombine⟩
    · exact project_error hr
    · cases hcombine
  · obtain ⟨lv, hl, hcombine⟩ := Outcome.of_bind_ok hcombine
    obtain ⟨rv, hr, _⟩ := Outcome.of_bind_ok hcombine
    rw [returnedPair_eq hl hr] at h
    cases h

/-- Two calls that fetch the same return the same when neither or both return. -/
theorem returnedPair_eq_iff {apart : JoinColumns} {l' r' : List Value}
    (h : (∃ vs, returnedPair columns output l r = .ok vs) →
      (∃ vs, returnedPair apart output l' r' = .ok vs) →
        ∀ col ∈ output, fetched columns l r col = fetched apart l' r' col) :
    returnedPair columns output l r = returnedPair apart output l' r' ↔
      ((∃ vs, returnedPair columns output l r = .ok vs) ↔
        ∃ vs, returnedPair apart output l' r' = .ok vs) := by
  refine ⟨fun heq => by rw [heq], fun hiff => ?_⟩
  cases hK : returnedPair columns output l r with
  | ok vs =>
      obtain ⟨vs', hT⟩ := hiff.mp ⟨vs, hK⟩
      obtain ⟨lv, rv, hl, hr⟩ := returnedPair_ok hK
      obtain ⟨lv', rv', hl', hr'⟩ := returnedPair_ok hT
      rw [← hK, returnedPair_eq hl hr, returnedPair_eq hl' hr']
      exact congrArg Except.ok (List.filterMap_congr (h ⟨vs, hK⟩ ⟨vs', hT⟩))
  | error e =>
      cases hT : returnedPair apart output l' r' with
      | ok vs' =>
          obtain ⟨vs, hok⟩ := hiff.mpr ⟨vs', hT⟩
          rw [hok] at hK
          cases hK
      | error e' => rw [returnedPair_error hK, returnedPair_error hT]

end Lookup

/-! ## Values of the two tables -/

/-- The values of a record of a table. -/
def Fits (info : TableInfo) (values : List Value) : Prop :=
  List.Forall₂ (fun c v => hasDatatype v c.datatype = true) info.columns values

/-- A value of the same datatype. -/
def otherValue : Value → Value
  | .int i => .int (i + 1)
  | .string s => .string (0 :: s)
  | .rid r => .rid { r with dirSlot := r.dirSlot + 1 }

section Values

variable {info : TableInfo} {values : List Value} {i j : Nat}

theorem otherValue_ne (v : Value) : otherValue v ≠ v := by
  cases v with
  | int i => simp [otherValue]
  | string s => simp [otherValue]
  | rid r =>
      obtain ⟨p, d⟩ := r
      simp [otherValue]

theorem otherValue_datatype (v : Value) (d : DataType) :
    hasDatatype (otherValue v) d = hasDatatype v d := by
  cases v <;> cases d <;> rfl

theorem exists_fits (hvalid : ∀ c ∈ info.columns, c.datatype ≠ .invalid) :
    ∃ values, Fits info values := by
  have hcolumns : ∀ cols : List TableColumn, (∀ c ∈ cols, c.datatype ≠ .invalid) →
      ∃ values, List.Forall₂ (fun c v => hasDatatype v c.datatype = true) cols values := by
    intro cols
    induction cols with
    | nil => exact fun _ => ⟨[], .nil⟩
    | cons c cs ih =>
        intro hcols
        obtain ⟨hc, hcs⟩ := List.forall_mem_cons.mp hcols
        obtain ⟨vs, hvs⟩ := ih hcs
        have hvalue : ∃ v, hasDatatype v c.datatype = true := by
          cases hdatatype : c.datatype with
          | int => exact ⟨.int 0, rfl⟩
          | str => exact ⟨.string [], rfl⟩
          | rid => exact ⟨.rid ⟨0, 0⟩, rfl⟩
          | invalid => exact absurd hdatatype hc
        obtain ⟨v, hv⟩ := hvalue
        exact ⟨v :: vs, .cons hv hvs⟩
  exact hcolumns info.columns hvalid

/-- Another record differs in one column only. -/
theorem Fits.vary (h : Fits info values) (hi : i < info.columns.length) :
    ∃ values', Fits info values' ∧ values'[i]? ≠ values[i]? ∧
      ∀ j, j ≠ i → values'[j]? = values[j]? := by
  have hlength : i < values.length := h.length_eq ▸ hi
  refine ⟨values.set i (otherValue values[i]), ?_, ?_, fun j hj => ?_⟩
  · refine List.forall₂_iff_get.mpr ⟨by rw [List.length_set]; exact h.length_eq, ?_⟩
    intro n hn hn'
    have hget := List.forall₂_iff_get.mp h
    have hvalue := hget.2 n hn (by rwa [List.length_set] at hn')
    simp only [List.get_eq_getElem, List.getElem_set] at hvalue ⊢
    split
    · rename_i heq
      subst heq
      rw [otherValue_datatype]
      exact hvalue
    · exact hvalue
  · rw [List.getElem?_set_self hlength, List.getElem?_eq_getElem hlength]
    exact fun heq => otherValue_ne _ (Option.some.inj heq)
  · rw [List.getElem?_set_ne (Ne.symm hj)]

/-- Two columns of a table can differ. -/
theorem Fits.differ (h : Fits info values) (hi : i < info.columns.length) (hij : i ≠ j) :
    ∃ values', Fits info values' ∧ values'[i]? ≠ values'[j]? := by
  by_cases heq : values[i]? = values[j]?
  · obtain ⟨values', hfits, hne, hothers⟩ := h.vary hi
    refine ⟨values', hfits, ?_⟩
    rw [hothers j (Ne.symm hij), ← heq]
    exact hne
  · exact ⟨values, h, heq⟩

end Values

/-! ## Records and null values of one side -/

section Nulls

variable {counted : ColumnUsage} {tableAlias : Identifier} {col : Column} {l : List Value}

theorem project_side {input : OuterInput} {info : TableInfo} (h : Fits info l) :
    ∃ lv, project (sideColumns counted tableAlias input info) l = .ok lv := by
  refine ⟨_, project_eq fun c hc => ?_⟩
  have hinside : c.pos < _ := projectedColumns_inside rfl c hc
  rw [List.length_map] at hinside
  exact lt_of_lt_of_le hinside (h.length_eq ▸ keptColumns_length_le _ _ _)

/-- A column of a side that has its name. -/
theorem sideColumns_mem {input : OuterInput} {info : TableInfo}
    (halias : col.tableAlias = tableAlias) (hname : hasColumn info col.info.name = true)
    (hused : counted.keeps col.key = true) :
    ∃ p ∈ sideColumns counted tableAlias input info, p.col.key = col.key := by
  obtain ⟨a, table, cinfo⟩ := col
  obtain rfl : a = tableAlias := halias
  obtain ⟨p, hfind, _⟩ := @sideColumns_find counted a _ input info hname hused
  have hkey := List.find?_some hfind
  exact ⟨p, List.mem_of_find?_eq_some hfind, of_decide_eq_true hkey⟩

/-- The null value of a datatype. -/
def nullOf : DataType → Option Value
  | .rid | .invalid => none
  | .int => some (.int (-1))
  | .str => some (.string [45, 49])

theorem nullValues_getElem {projected : List ProjectedColumn}
    (h : ∀ c ∈ projected, Nullable c.col.info.datatype) (i : Nat) :
    (nullValues projected)[i]? = projected[i]?.bind fun c => nullOf c.col.info.datatype := by
  have hnulls : nullValues projected = projected.filterMap fun c => nullOf c.col.info.datatype := by
    unfold nullValues nullOf
    rfl
  have hsome : ∀ c ∈ projected, (nullOf c.col.info.datatype).isSome = true := by
    intro c hc
    rcases h c hc with hdatatype | hdatatype <;> rw [hdatatype] <;> rfl
  have hmap := map_some_filterMap hsome
  rw [← hnulls] at hmap
  have hget := congrArg (fun os : List (Option Value) => os[i]?) hmap
  simp only [List.getElem?_map] at hget
  cases hvalue : (nullValues projected)[i]? with
  | none =>
      rw [hvalue] at hget
      cases hc : projected[i]? with
      | none => rfl
      | some c => rw [hc] at hget; cases hget
  | some v =>
      rw [hvalue] at hget
      cases hc : projected[i]? with
      | none => rw [hc] at hget; cases hget
      | some c =>
          rw [hc] at hget
          exact Option.some.inj hget

theorem side_sorted (input : OuterInput) (info : TableInfo) :
    ((sideColumns counted tableAlias input info).map ProjectedColumn.pos).Pairwise (· < ·) :=
  projectedFrom_sorted 0 _

theorem side_wellPadded {input : OuterInput} {info : TableInfo} :
    WellPadded (sideColumns counted tableAlias input info) ↔
      InputPads counted tableAlias input info :=
  (wellPadded_columns _ _).trans (keptColumns_pads (input.le_usage counted))

theorem project_nulls_side {input : OuterInput} {info : TableInfo} :
    (∃ vs, project (sideColumns counted tableAlias input info)
        (nullValues (sideColumns counted tableAlias input info)) = .ok vs) ↔
      InputPads counted tableAlias input info := by
  rw [← side_wellPadded]
  exact ⟨fun ⟨_, h⟩ => wellPadded_of_project (side_sorted input info) h, fun ⟨vs, h, _⟩ => ⟨vs, h⟩⟩

/-- The null value of a column is that of the column in the schema. -/
theorem null_at {input : OuterInput} {info : TableInfo} {name : Identifier}
    (hpads : InputPads counted tableAlias input info) (hname : hasColumn info name = true)
    (hused : counted.keeps (tableAlias, name) = true) :
    ((placeOf counted tableAlias input info name).bind fun i =>
        (nullValues (sideColumns counted tableAlias input info))[i]?) =
      (info.columns.find? fun col => decide (col.name = name)).bind fun col =>
        nullOf col.datatype := by
  obtain ⟨p, hfind, hplace, hinfo⟩ := @sideColumns_find counted tableAlias name input info hname hused
  obtain ⟨hnullable, hrange⟩ :=
    (wellPadded_iff (side_sorted input info)).mp (side_wellPadded.mpr hpads)
  obtain ⟨n, hn, hpn⟩ := List.getElem_of_mem (List.mem_of_find?_eq_some hfind)
  have hpos : p.pos = n := by
    have hget := congrArg (fun ns : List Nat => ns[n]?) hrange
    simp only [List.getElem?_map, List.getElem?_eq_getElem hn, hpn, Option.map_some,
      List.getElem?_range' hn] at hget
    simpa using hget
  rw [hplace, hinfo, Option.bind_some, Option.bind_some, nullValues_getElem hnullable, hpos,
    List.getElem?_eq_getElem hn, hpn, Option.bind_some]

end Nulls

end Iic3413Db.Query
