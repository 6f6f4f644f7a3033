/-
  Query/Optimizer/DistinctColumns.lean --- the columns of the two inputs of an outer
  join, under one alias.

  A column is known by its alias and its name, so the counters, the projected columns
  and the search of the projection take a column of one table for that of the other
  with its name.  `StaysDistinct` says that no value returned shows it: each is from
  the table of its column, and is what it would be with counters for each table.
-/
import Iic3413Db.Query.Optimizer.SideColumns

set_option autoImplicit false

namespace Iic3413Db.Query

open Iic3413Db.RelationalModel
open Iic3413Db.System (Catalog TableColumn TableId TableInfo)
open Iic3413Db.Storage (TxID)
open QueryIter

/-! ## Counters of the two tables -/

/-- The columns that the query mentions: in its list, in what is left of its WHERE
clause, and in the ON list. -/
def mentioned (output : List Column) (remaining : List ExprPlan) (joins : List JoinPair) :
    List Column :=
  output ++ remaining.flatMap ExprPlan.getColumns ++ joins.flatMap fun p => [p.1, p.2]

/-- A counter for each column of one table. -/
def countedApart (columns : List Column) (info : TableInfo) : ColumnUsage :=
  ColumnUsage.addColumns (fun _ => 0)
    (columns.filter fun col => decide (NamesTable info col.table))

/-- The projected columns with these counters for each side; nothing here depends on the
equalities. -/
def sidesFrom (countedL countedR : ColumnUsage) (tableAlias : Identifier)
    (inputL inputR : OuterInput) (left right : TableInfo) : JoinColumns :=
  ⟨sideColumns countedL tableAlias inputL left, sideColumns countedR tableAlias inputR right, []⟩

/-- The columns of the two tables stay distinct in what is returned: each value is from
the table of its column, and all are what they would be with the columns `apart`. -/
structure StaysDistinct (full : Bool) (left right : TableInfo) (output : List Column)
    (columns apart : JoinColumns) : Prop where
  returns : ∀ l r, Fits left l → Fits right r → ∃ vs, returnedPair columns output l r = .ok vs
  taken : ∃ place : Column → Nat, ∀ l r vs, returnedPair columns output l r = .ok vs →
    vs.map some = output.map fun col =>
      (if NamesTable left col.table then l else r)[place col]?
  matched : ∀ l r, Fits left l → Fits right r →
    returnedPair columns output l r = returnedPair apart output l r
  paddedRight : ∀ l, Fits left l → returnedPair columns output l (nullValues columns.rhs) =
    returnedPair apart output l (nullValues apart.rhs)
  paddedLeft : full = true → ∀ r, Fits right r →
    returnedPair columns output (nullValues columns.lhs) r =
      returnedPair apart output (nullValues apart.lhs) r

/-- A listed column of the right table is not one of the left table as well. -/
def Unshared (left : TableInfo) (output : List Column) : Prop :=
  ∀ col ∈ output, hasColumn left col.info.name = true → NamesTable left col.table

/-- No column is read only because of the other table's counts and stands before one with
this name. -/
def NoneBefore (counted apart : ColumnUsage) (tableAlias : Identifier) (input : OuterInput)
    (info : TableInfo) (name : Identifier) : Prop :=
  ∀ col ∈ columnsBefore info name, (input.usage counted).keeps (tableAlias, col.name) = true →
    (input.usage apart).keeps (tableAlias, col.name) = true

instance (left : TableInfo) (output : List Column) : Decidable (Unshared left output) :=
  inferInstanceAs (Decidable (∀ col ∈ output, _))

instance (counted apart : ColumnUsage) (tableAlias : Identifier) (input : OuterInput)
    (info : TableInfo) (name : Identifier) :
    Decidable (NoneBefore counted apart tableAlias input info name) :=
  inferInstanceAs (Decidable (∀ col ∈ _, _))

/-- The code and the counters apart read a listed column at one place. -/
def SamePlace (counted apartL apartR : ColumnUsage) (tableAlias : Identifier)
    (inputL inputR : OuterInput) (left right : TableInfo) (col : Column) : Prop :=
  (NamesTable left col.table →
    NoneBefore counted apartL tableAlias inputL left col.info.name) ∧
  (¬ NamesTable left col.table →
    NoneBefore counted apartR tableAlias inputR right col.info.name)

instance (counted apartL apartR : ColumnUsage) (tableAlias : Identifier)
    (inputL inputR : OuterInput) (left right : TableInfo) (col : Column) :
    Decidable (SamePlace counted apartL apartR tableAlias inputL inputR left right col) :=
  inferInstanceAs (Decidable (_ ∧ _))

/-- What the list and the counters of a query have in common. -/
structure Counts (counted apartL apartR : ColumnUsage) (tableAlias : Identifier)
    (left right : TableInfo) (output : List Column) : Prop where
  ofAlias : ∀ col ∈ output, col.tableAlias = tableAlias
  listedL : ∀ col ∈ output, NamesTable left col.table → hasColumn left col.info.name = true
  listedR : ∀ col ∈ output, ¬ NamesTable left col.table → hasColumn right col.info.name = true
  countsAll : ∀ col ∈ output, counted.keeps col.key = true
  countsL : ∀ col ∈ output, NamesTable left col.table → apartL.keeps col.key = true
  countsR : ∀ col ∈ output, ¬ NamesTable left col.table → apartR.keeps col.key = true
  monoL : ∀ k, apartL.keeps k = true → counted.keeps k = true
  monoR : ∀ k, apartR.keeps k = true → counted.keeps k = true

section Places

variable {counted apart : ColumnUsage} {tableAlias name : Identifier} {input : OuterInput}
  {info : TableInfo} {k : ColumnKey}

theorem usage_keeps_mono (h : ∀ k, apart.keeps k = true → counted.keeps k = true)
    (hk : (input.usage apart).keeps k = true) : (input.usage counted).keeps k = true := by
  obtain ⟨table, pushed⟩ := input
  cases pushed with
  | none => exact h k hk
  | some expressions =>
      have hpos : 0 < apart.addColumns (expressions.flatMap ExprPlan.getColumns) k :=
        of_decide_eq_true hk
      have hgoal : 0 < counted.addColumns (expressions.flatMap ExprPlan.getColumns) k := by
        rw [addColumns_apply] at hpos ⊢
        rcases Nat.eq_zero_or_pos (apart k) with hzero | happart
        · omega
        · have hcounted : 0 < counted k := of_decide_eq_true (h k (decide_eq_true happart))
          omega
      exact decide_eq_true hgoal

theorem mem_of_hasColumn (h : hasColumn info name = true) :
    ∃ col ∈ info.columns, col.name = name := by
  simpa [hasColumn] using h

theorem placeOf_lt {i : Nat} (h : placeOf counted tableAlias input info name = some i) :
    i < info.columns.length := by
  obtain ⟨hlt, _⟩ := List.findIdx?_eq_some_iff_getElem.mp h
  exact lt_of_lt_of_le hlt (keptColumns_length_le _ _ _)

theorem placeOf_some (hname : hasColumn info name = true)
    (hused : counted.keeps (tableAlias, name) = true) :
    ∃ i, placeOf counted tableAlias input info name = some i := by
  obtain ⟨p, _, hplace, _⟩ := @sideColumns_find counted tableAlias name input info hname hused
  exact ⟨_, hplace⟩

theorem placeOf_eq_iff (hmono : ∀ k, apart.keeps k = true → counted.keeps k = true)
    (hname : hasColumn info name = true) (hused : apart.keeps (tableAlias, name) = true) :
    placeOf counted tableAlias input info name = placeOf apart tableAlias input info name ↔
      NoneBefore counted apart tableAlias input info name := by
  have hmem := mem_of_hasColumn hname
  have hplace := keptColumns_findIdx hmem (keeps_mono (input.le_usage counted) (hmono _ hused))
  have hplace' := keptColumns_findIdx hmem (keeps_mono (input.le_usage apart) hused)
  unfold placeOf
  rw [hplace, hplace', Option.some.injEq]
  exact countP_eq_iff fun col hcol => usage_keeps_mono hmono hcol

end Places

section Sides

variable {counted apartL apartR countedL countedR : ColumnUsage} {tableAlias : Identifier}
  {inputL inputR : OuterInput} {left right : TableInfo} {output : List Column} {col : Column}
  {columns : JoinColumns} {l r lv rv vs : List Value}

/-- A column comes from the left table when that has its name. -/
theorem fetched_sides (halias : col.tableAlias = tableAlias)
    (hL : hasColumn left col.info.name = true → countedL.keeps col.key = true)
    (hR : hasColumn left col.info.name = false →
      hasColumn right col.info.name = true ∧ countedR.keeps col.key = true) (l r : List Value) :
    fetched (sidesFrom countedL countedR tableAlias inputL inputR left right) l r col =
      if hasColumn left col.info.name = true then
        (placeOf countedL tableAlias inputL left col.info.name).bind fun i => l[i]?
      else (placeOf countedR tableAlias inputR right col.info.name).bind fun i => r[i]? := by
  have hlhs : (sidesFrom countedL countedR tableAlias inputL inputR left right).lhs =
      sideColumns countedL tableAlias inputL left := rfl
  have hrhs : (sidesFrom countedL countedR tableAlias inputL inputR left right).rhs =
      sideColumns countedR tableAlias inputR right := rfl
  rw [fetched, hlhs, hrhs]
  obtain ⟨a, table, info⟩ := col
  obtain rfl : a = tableAlias := halias
  cases hname : hasColumn left info.name with
  | true =>
      obtain ⟨p, hfind, hplace, _⟩ := @sideColumns_find countedL a _ inputL left hname (hL hname)
      rw [if_pos rfl, hplace, Column.key, hfind]
      rfl
  | false =>
      obtain ⟨hright, hused⟩ := hR hname
      have hnone := @sideColumns_find_none countedL a _ inputL left hname
      obtain ⟨p, hfind, hplace, _⟩ := @sideColumns_find countedR a _ inputR right hright hused
      rw [if_neg Bool.false_ne_true, hplace, Column.key, hnone, hfind]
      rfl

namespace Counts

variable (h : Counts counted apartL apartR tableAlias left right output)

include h

theorem key_eq (hcol : col ∈ output) : col.key = (tableAlias, col.info.name) := by
  rw [← h.ofAlias col hcol, Column.key]

theorem found (hcol : col ∈ output) :
    ∃ p ∈ (sidesFrom counted counted tableAlias inputL inputR left right).lhs ++
      (sidesFrom counted counted tableAlias inputL inputR left right).rhs,
      p.col.key = col.key := by
  have halias := h.ofAlias col hcol
  have hused := h.countsAll col hcol
  by_cases hleft : NamesTable left col.table
  · obtain ⟨p, hp, hkey⟩ := @sideColumns_mem counted _ col inputL left halias
      (h.listedL col hcol hleft) hused
    exact ⟨p, List.mem_append_left _ hp, hkey⟩
  · obtain ⟨p, hp, hkey⟩ := @sideColumns_mem counted _ col inputR right halias
      (h.listedR col hcol hleft) hused
    exact ⟨p, List.mem_append_right _ hp, hkey⟩

theorem found_apart (hcol : col ∈ output) :
    ∃ p ∈ (sidesFrom apartL apartR tableAlias inputL inputR left right).lhs ++
      (sidesFrom apartL apartR tableAlias inputL inputR left right).rhs,
      p.col.key = col.key := by
  have halias := h.ofAlias col hcol
  by_cases hleft : NamesTable left col.table
  · obtain ⟨p, hp, hkey⟩ := @sideColumns_mem apartL _ col inputL left halias
      (h.listedL col hcol hleft) (h.countsL col hcol hleft)
    exact ⟨p, List.mem_append_left _ hp, hkey⟩
  · obtain ⟨p, hp, hkey⟩ := @sideColumns_mem apartR _ col inputR right halias
      (h.listedR col hcol hleft) (h.countsR col hcol hleft)
    exact ⟨p, List.mem_append_right _ hp, hkey⟩

/-- Where the code fetches a listed column. -/
theorem fetched_counted (hcol : col ∈ output) (l r : List Value) :
    fetched (sidesFrom counted counted tableAlias inputL inputR left right) l r col =
      if hasColumn left col.info.name = true then
        (placeOf counted tableAlias inputL left col.info.name).bind fun i => l[i]?
      else (placeOf counted tableAlias inputR right col.info.name).bind fun i => r[i]? := by
  refine fetched_sides (h.ofAlias col hcol) (fun _ => h.countsAll col hcol) (fun hname => ?_) l r
  have hright : ¬ NamesTable left col.table := fun hleft =>
    Bool.false_ne_true (hname.symm.trans (h.listedL col hcol hleft))
  exact ⟨h.listedR col hcol hright, h.countsAll col hcol⟩

/-- Where it is with the counters apart. -/
theorem fetched_apart (hunshared : Unshared left output) (hcol : col ∈ output)
    (l r : List Value) :
    fetched (sidesFrom apartL apartR tableAlias inputL inputR left right) l r col =
      if hasColumn left col.info.name = true then
        (placeOf apartL tableAlias inputL left col.info.name).bind fun i => l[i]?
      else (placeOf apartR tableAlias inputR right col.info.name).bind fun i => r[i]? := by
  refine fetched_sides (h.ofAlias col hcol)
    (fun hname => h.countsL col hcol (hunshared col hcol hname)) (fun hname => ?_) l r
  have hright : ¬ NamesTable left col.table := fun hleft =>
    Bool.false_ne_true (hname.symm.trans (h.listedL col hcol hleft))
  exact ⟨h.listedR col hcol hright, h.countsR col hcol hright⟩

/-- For records of the two tables, the code and the counters apart return. -/
theorem returns (hl : Fits left l) (hr : Fits right r) :
    (∃ vs, returnedPair (sidesFrom counted counted tableAlias inputL inputR left right) output l r =
        .ok vs ∧
      vs.map some = output.map
        (fetched (sidesFrom counted counted tableAlias inputL inputR left right) l r)) ∧
    ∃ vs, returnedPair (sidesFrom apartL apartR tableAlias inputL inputR left right) output l r =
        .ok vs ∧
      vs.map some = output.map
        (fetched (sidesFrom apartL apartR tableAlias inputL inputR left right) l r) := by
  obtain ⟨lv, hlv⟩ := @project_side counted tableAlias _ inputL left hl
  obtain ⟨rv, hrv⟩ := @project_side counted tableAlias _ inputR right hr
  obtain ⟨lv', hlv'⟩ := @project_side apartL tableAlias _ inputL left hl
  obtain ⟨rv', hrv'⟩ := @project_side apartR tableAlias _ inputR right hr
  exact ⟨returnedPair_map hlv hrv fun col hcol => h.found hcol,
    returnedPair_map hlv' hrv' fun col hcol => h.found_apart hcol⟩

/-- A value of the right table is not one of the left table. -/
theorem unshared_of_taken (hl : Fits left l) (hr : Fits right r)
    (htaken : ∃ place : Column → Nat, ∀ l r vs,
      returnedPair (sidesFrom counted counted tableAlias inputL inputR left right) output l r =
        .ok vs →
      vs.map some = output.map fun col =>
        (if NamesTable left col.table then l else r)[place col]?) : Unshared left output := by
  obtain ⟨place, hplace⟩ := htaken
  intro col hcol hname
  by_contra hright
  have hused := h.key_eq hcol ▸ h.countsAll col hcol
  obtain ⟨i, hi⟩ := @placeOf_some counted tableAlias _ inputL left hname hused
  have hreads : ∀ l', Fits left l' → l'[i]? = r[place col]? := by
    intro l' hl'
    obtain ⟨⟨vs, hvs, hfetched⟩, _⟩ := @returns _ _ _ _ inputL inputR _ _ _ _ _ h hl' hr
    have hmaps := (hfetched.symm.trans (hplace l' r vs hvs))
    have hcolumn := List.map_inj_left.mp hmaps col hcol
    rw [h.fetched_counted hcol, if_pos hname, hi, Option.bind_some, if_neg hright] at hcolumn
    exact hcolumn
  obtain ⟨l', hl', hne, _⟩ := hl.vary (placeOf_lt hi)
  exact hne ((hreads l' hl').trans (hreads l hl).symm)

theorem left_iff (hunshared : Unshared left output) (hcol : col ∈ output) :
    hasColumn left col.info.name = true ↔ NamesTable left col.table :=
  ⟨hunshared col hcol, h.listedL col hcol⟩

theorem taken_of_unshared (hunshared : Unshared left output) :
    ∃ place : Column → Nat, ∀ l r vs,
      returnedPair (sidesFrom counted counted tableAlias inputL inputR left right) output l r =
        .ok vs →
      vs.map some = output.map fun col =>
        (if NamesTable left col.table then l else r)[place col]? := by
  refine ⟨fun col => if NamesTable left col.table then
      (placeOf counted tableAlias inputL left col.info.name).getD 0
    else (placeOf counted tableAlias inputR right col.info.name).getD 0, fun l r vs hvs => ?_⟩
  obtain ⟨lv, rv, hl, hr⟩ := returnedPair_ok hvs
  obtain ⟨vs', hvs', hfetched⟩ := returnedPair_map hl hr fun col hcol => h.found hcol
  obtain rfl := Except.ok.inj (hvs.symm.trans hvs')
  rw [hfetched]
  refine List.map_congr_left fun col hcol => ?_
  have hused := h.key_eq hcol ▸ h.countsAll col hcol
  rw [h.fetched_counted hcol]
  dsimp only
  by_cases hleft : NamesTable left col.table
  · obtain ⟨i, hi⟩ := @placeOf_some counted tableAlias _ inputL left (h.listedL col hcol hleft) hused
    rw [if_pos ((h.left_iff hunshared hcol).mpr hleft), if_pos hleft, if_pos hleft, hi]
    rfl
  · obtain ⟨i, hi⟩ := @placeOf_some counted tableAlias _ inputR right (h.listedR col hcol hleft)
      hused
    rw [if_neg fun hname => hleft ((h.left_iff hunshared hcol).mp hname), if_neg hleft,
      if_neg hleft, hi]
    rfl

theorem place_left (hplaces : ∀ col ∈ output,
      SamePlace counted apartL apartR tableAlias inputL inputR left right col)
    (hcol : col ∈ output) (hleft : NamesTable left col.table) :
    placeOf counted tableAlias inputL left col.info.name =
      placeOf apartL tableAlias inputL left col.info.name :=
  (placeOf_eq_iff h.monoL (h.listedL col hcol hleft)
    (h.key_eq hcol ▸ h.countsL col hcol hleft)).mpr ((hplaces col hcol).1 hleft)

theorem place_right (hplaces : ∀ col ∈ output,
      SamePlace counted apartL apartR tableAlias inputL inputR left right col)
    (hcol : col ∈ output) (hleft : ¬ NamesTable left col.table) :
    placeOf counted tableAlias inputR right col.info.name =
      placeOf apartR tableAlias inputR right col.info.name :=
  (placeOf_eq_iff h.monoR (h.listedR col hcol hleft)
    (h.key_eq hcol ▸ h.countsR col hcol hleft)).mpr ((hplaces col hcol).2 hleft)

/-- With the same places, both fetch the same where they read the same. -/
theorem fetched_same (hunshared : Unshared left output)
    (hcol : col ∈ output) {l' r' : List Value}
    (hl : hasColumn left col.info.name = true →
      ((placeOf counted tableAlias inputL left col.info.name).bind fun i => l[i]?) =
        (placeOf apartL tableAlias inputL left col.info.name).bind fun i => l'[i]?)
    (hr : hasColumn left col.info.name = false →
      ((placeOf counted tableAlias inputR right col.info.name).bind fun i => r[i]?) =
        (placeOf apartR tableAlias inputR right col.info.name).bind fun i => r'[i]?) :
    fetched (sidesFrom counted counted tableAlias inputL inputR left right) l r col =
      fetched (sidesFrom apartL apartR tableAlias inputL inputR left right) l' r' col := by
  rw [h.fetched_counted hcol, h.fetched_apart hunshared hcol]
  cases hname : hasColumn left col.info.name with
  | true => rw [if_pos rfl, if_pos rfl, hl hname]
  | false => rw [if_neg Bool.false_ne_true, if_neg Bool.false_ne_true, hr hname]

/-- Records of the two tables come out the same exactly with the same places. -/
theorem matched_iff (hunshared : Unshared left output) (hl : Fits left l) (hr : Fits right r) :
    (∀ l r, Fits left l → Fits right r →
      returnedPair (sidesFrom counted counted tableAlias inputL inputR left right) output l r =
        returnedPair (sidesFrom apartL apartR tableAlias inputL inputR left right) output l r) ↔
      ∀ col ∈ output, SamePlace counted apartL apartR tableAlias inputL inputR left right col := by
  constructor
  · intro hall col hcol
    have hsame : ∀ l r, Fits left l → Fits right r →
        fetched (sidesFrom counted counted tableAlias inputL inputR left right) l r col =
          fetched (sidesFrom apartL apartR tableAlias inputL inputR left right) l r col := by
      intro l r hl hr
      obtain ⟨⟨vs, hvs, hfetched⟩, vs', hvs', hfetched'⟩ :=
        @returns _ _ _ _ inputL inputR _ _ _ _ _ h hl hr
      obtain rfl := Except.ok.inj (hvs.symm.trans ((hall l r hl hr).trans hvs'))
      exact List.map_inj_left.mp (hfetched.symm.trans hfetched') col hcol
    have hkey := h.key_eq hcol
    refine ⟨fun hleft => ?_, fun hleft => ?_⟩
    · have hname := h.listedL col hcol hleft
      have hused := hkey ▸ h.countsL col hcol hleft
      obtain ⟨i, hi⟩ := @placeOf_some counted tableAlias _ inputL left hname (h.monoL _ hused)
      obtain ⟨j, hj⟩ := @placeOf_some apartL tableAlias _ inputL left hname hused
      refine (placeOf_eq_iff h.monoL hname hused).mp ?_
      rw [hi, hj]
      by_contra hne
      obtain ⟨l', hl', hdiffer⟩ := hl.differ (placeOf_lt hi) fun heq => hne (congrArg some heq)
      have hreads := hsame l' r hl' hr
      rw [h.fetched_counted hcol, h.fetched_apart hunshared hcol, if_pos hname, if_pos hname, hi,
        hj] at hreads
      exact hdiffer hreads
    · have hname := h.listedR col hcol hleft
      have hused := hkey ▸ h.countsR col hcol hleft
      have hother : ¬ hasColumn left col.info.name = true :=
        fun hname => hleft ((h.left_iff hunshared hcol).mp hname)
      obtain ⟨i, hi⟩ := @placeOf_some counted tableAlias _ inputR right hname (h.monoR _ hused)
      obtain ⟨j, hj⟩ := @placeOf_some apartR tableAlias _ inputR right hname hused
      refine (placeOf_eq_iff h.monoR hname hused).mp ?_
      rw [hi, hj]
      by_contra hne
      obtain ⟨r', hr', hdiffer⟩ := hr.differ (placeOf_lt hi) fun heq => hne (congrArg some heq)
      have hreads := hsame l r' hl hr'
      rw [h.fetched_counted hcol, h.fetched_apart hunshared hcol, if_neg hother, if_neg hother, hi,
        hj] at hreads
      exact hdiffer hreads
  · intro hplaces l r hl hr
    obtain ⟨⟨vs, hvs, _⟩, vs', hvs', _⟩ := @returns _ _ _ _ inputL inputR _ _ _ _ _ h hl hr
    refine (returnedPair_eq_iff fun _ _ col hcol => ?_).mpr
      (iff_of_true ⟨vs, hvs⟩ ⟨vs', hvs'⟩)
    refine h.fetched_same hunshared hcol (fun hname => ?_) fun hname => ?_
    · rw [h.place_left hplaces hcol (hunshared col hcol hname)]
    · rw [h.place_right hplaces hcol fun hleft =>
        Bool.false_ne_true (hname.symm.trans (h.listedL col hcol hleft))]

/-- The rows of the left table without a partner. -/
theorem paddedRight_iff (hunshared : Unshared left output)
    (hplaces : ∀ col ∈ output,
      SamePlace counted apartL apartR tableAlias inputL inputR left right col)
    (hl : Fits left l) :
    (∀ l, Fits left l →
      returnedPair (sidesFrom counted counted tableAlias inputL inputR left right) output l
          (nullValues (sideColumns counted tableAlias inputR right)) =
        returnedPair (sidesFrom apartL apartR tableAlias inputL inputR left right) output l
          (nullValues (sideColumns apartR tableAlias inputR right))) ↔
      (InputPads counted tableAlias inputR right ↔ InputPads apartR tableAlias inputR right) := by
  have hiff : ∀ l, Fits left l →
      (returnedPair (sidesFrom counted counted tableAlias inputL inputR left right) output l
          (nullValues (sideColumns counted tableAlias inputR right)) =
        returnedPair (sidesFrom apartL apartR tableAlias inputL inputR left right) output l
          (nullValues (sideColumns apartR tableAlias inputR right)) ↔
      (InputPads counted tableAlias inputR right ↔
        InputPads apartR tableAlias inputR right)) := by
    intro l hl
    rw [returnedPair_eq_iff, returnedPair_ok_iff, returnedPair_ok_iff]
    · exact iff_congr ((and_iff_right (project_side hl)).trans project_nulls_side)
        ((and_iff_right (project_side hl)).trans project_nulls_side)
    · intro hK hT col hcol
      have hpads := project_nulls_side.mp (returnedPair_ok_iff.mp hK).2
      have hpads' := project_nulls_side.mp (returnedPair_ok_iff.mp hT).2
      refine h.fetched_same hunshared hcol (fun hname => ?_) fun hname => ?_
      · rw [h.place_left hplaces hcol (hunshared col hcol hname)]
      · have hright : ¬ NamesTable left col.table := fun hleft =>
          Bool.false_ne_true (hname.symm.trans (h.listedL col hcol hleft))
        have hused := h.key_eq hcol ▸ h.countsR col hcol hright
        rw [null_at hpads (h.listedR col hcol hright) (h.monoR _ hused),
          null_at hpads' (h.listedR col hcol hright) hused]
  exact ⟨fun hall => (hiff l hl).mp (hall l hl), fun hpads l hl => (hiff l hl).mpr hpads⟩

/-- The rows of the right table without a partner. -/
theorem paddedLeft_iff (hunshared : Unshared left output)
    (hplaces : ∀ col ∈ output,
      SamePlace counted apartL apartR tableAlias inputL inputR left right col)
    (hr : Fits right r) :
    (∀ r, Fits right r →
      returnedPair (sidesFrom counted counted tableAlias inputL inputR left right) output
          (nullValues (sideColumns counted tableAlias inputL left)) r =
        returnedPair (sidesFrom apartL apartR tableAlias inputL inputR left right) output
          (nullValues (sideColumns apartL tableAlias inputL left)) r) ↔
      (InputPads counted tableAlias inputL left ↔ InputPads apartL tableAlias inputL left) := by
  have hiff : ∀ r, Fits right r →
      (returnedPair (sidesFrom counted counted tableAlias inputL inputR left right) output
          (nullValues (sideColumns counted tableAlias inputL left)) r =
        returnedPair (sidesFrom apartL apartR tableAlias inputL inputR left right) output
          (nullValues (sideColumns apartL tableAlias inputL left)) r ↔
      (InputPads counted tableAlias inputL left ↔
        InputPads apartL tableAlias inputL left)) := by
    intro r hr
    rw [returnedPair_eq_iff, returnedPair_ok_iff, returnedPair_ok_iff]
    · exact iff_congr ((and_iff_left (project_side hr)).trans project_nulls_side)
        ((and_iff_left (project_side hr)).trans project_nulls_side)
    · intro hK hT col hcol
      have hpads := project_nulls_side.mp (returnedPair_ok_iff.mp hK).1
      have hpads' := project_nulls_side.mp (returnedPair_ok_iff.mp hT).1
      refine h.fetched_same hunshared hcol (fun hname => ?_) fun hname => ?_
      · have hused := h.key_eq hcol ▸ h.countsL col hcol (hunshared col hcol hname)
        rw [null_at hpads hname (h.monoL _ hused), null_at hpads' hname hused]
      · rw [h.place_right hplaces hcol fun hleft =>
          Bool.false_ne_true (hname.symm.trans (h.listedL col hcol hleft))]
  exact ⟨fun hall => (hiff r hr).mp (hall r hr), fun hpads r hr => (hiff r hr).mpr hpads⟩

/-- When the columns stay distinct. -/
theorem staysDistinct_iff (full : Bool) (hl : Fits left l) (hr : Fits right r) :
    StaysDistinct full left right output
        (sidesFrom counted counted tableAlias inputL inputR left right)
        (sidesFrom apartL apartR tableAlias inputL inputR left right) ↔
      Unshared left output ∧
      (∀ col ∈ output, SamePlace counted apartL apartR tableAlias inputL inputR left right col) ∧
      (InputPads counted tableAlias inputR right ↔ InputPads apartR tableAlias inputR right) ∧
      (full = true →
        (InputPads counted tableAlias inputL left ↔ InputPads apartL tableAlias inputL left)) := by
  constructor
  · rintro ⟨_, htaken, hmatched, hright, hleft⟩
    have hunshared := h.unshared_of_taken hl hr htaken
    have hplaces := (h.matched_iff hunshared hl hr).mp hmatched
    exact ⟨hunshared, hplaces, (h.paddedRight_iff hunshared hplaces hl).mp hright,
      fun hfull => (h.paddedLeft_iff hunshared hplaces hr).mp (hleft hfull)⟩
  · rintro ⟨hunshared, hplaces, hright, hleft⟩
    refine ⟨fun l r hl hr => ?_, h.taken_of_unshared hunshared,
      (h.matched_iff hunshared hl hr).mpr hplaces,
      (h.paddedRight_iff hunshared hplaces hl).mpr hright,
      fun hfull => (h.paddedLeft_iff hunshared hplaces hr).mpr (hleft hfull)⟩
    obtain ⟨⟨vs, hvs, _⟩, _⟩ := @returns _ _ _ _ inputL inputR _ _ _ _ _ h hl hr
    exact ⟨vs, hvs⟩

end Counts

end Sides

/-! ## Lists and plans -/

/-- The FROM clause of one outer join. -/
def fromOuterJoin (tableAlias left right : Identifier) : FromClause :=
  { FromClause.empty with outerJoins := FromClause.empty.outerJoins.insert ⟨tableAlias, left, right⟩ }

/-- The plan of an outer join. -/
def outerJoinPlan (full : Bool) (tableAlias : Identifier) (inputL inputR : OuterInput)
    (joins : List JoinPair) : LogicalPlan :=
  if full then
    .fullOuterJoin tableAlias (inputL.plan tableAlias) (inputR.plan tableAlias) joins
  else .leftOuterJoin tableAlias (inputL.plan tableAlias) (inputR.plan tableAlias) joins

/-- The plan with what is left of the WHERE clause and the list. -/
def outerQueryPlan (full : Bool) (tableAlias : Identifier) (inputL inputR : OuterInput)
    (joins : List JoinPair) (remaining : List ExprPlan) (limit : Nat) (output : List Column) :
    LogicalPlan :=
  .projection (if remaining.isEmpty then outerJoinPlan full tableAlias inputL inputR joins
    else .selection (outerJoinPlan full tableAlias inputL inputR joins) remaining)
    false limit output

/-- The columns of the outer join under a projection and a selection. -/
def outerJoinColumns : QueryIter → Option JoinColumns
  | .leftOuterJoin _ _ columns _ _ _ | .fullOuterJoin _ _ columns _ _ _ _ _ _ => some columns
  | .selection child _ | .projection child _ _ _ => outerJoinColumns child
  | _ => none

section Lists

variable {catalog : Catalog} {txId : TxID} {tableAlias l r : Identifier} {left right : TableInfo}
  {output : List Column}

theorem findOuterJoin_fromOuterJoin {name : Identifier} {j : FromOuterJoin}
    (h : (fromOuterJoin tableAlias l r).findOuterJoin name = some j) :
    j = ⟨tableAlias, l, r⟩ ∧ name = tableAlias := by
  have hentries : (fromOuterJoin tableAlias l r).outerJoins.entries = [⟨tableAlias, l, r⟩] := rfl
  unfold FromClause.findOuterJoin at h
  rw [hentries, List.find?_cons] at h
  split at h
  · rename_i hname
    cases h
    exact ⟨rfl, (of_decide_eq_true hname).symm⟩
  · cases h

theorem tableInfo_ok (h : catalog.getTableInfo l txId = .ok (some left)) :
    tableInfo catalog txId l = .ok left := by
  rw [tableInfo, h, Outcome.ok_bind]

/-- A column with the alias is one of the left table, or one of the right table only. -/
theorem getColumn_fromOuterJoin {ctx : ColumnContext} {col : Column}
    (hleft : catalog.getTableInfo l txId = .ok (some left))
    (hright : catalog.getTableInfo r txId = .ok (some right))
    (h : getColumn catalog txId (fromOuterJoin tableAlias l r) ctx = .ok col) :
    col.tableAlias = tableAlias ∧
      (col.table = l ∧ hasColumn left col.info.name = true ∨
        col.table = r ∧ hasColumn left col.info.name = false ∧
          hasColumn right col.info.name = true) := by
  have htables : (fromOuterJoin tableAlias l r).tables.entries = [] := rfl
  obtain ⟨qualifier, name⟩ := ctx
  cases qualifier with
  | none =>
      simp only [getColumn, htables, inferTable, Outcome.ok_bind] at h
      cases h
  | some q =>
      simp only [getColumn, getQualifiedColumn] at h
      split at h
      · rename_i j hj
        obtain ⟨rfl, rfl⟩ := findOuterJoin_fromOuterJoin hj
        simp only [tableInfo_ok hleft, tableInfo_ok hright, Outcome.ok_bind] at h
        split at h
        · rename_i hname
          cases h
          exact ⟨rfl, .inl ⟨rfl, hname⟩⟩
        · rename_i hname
          split at h
          · rename_i hname'
            cases h
            exact ⟨rfl, .inr ⟨rfl, Bool.not_eq_true _ ▸ hname, hname'⟩⟩
          · cases h
      · have hnone : (fromOuterJoin tableAlias l r).findTable q = none := by
          unfold FromClause.findTable
          rw [htables, List.find?_nil]
        rw [hnone] at h
        cases h

/-- The columns of an asterisk are those of both tables. -/
theorem starColumns_fromOuterJoin
    (hleft : catalog.getTableInfo l txId = .ok (some left))
    (hright : catalog.getTableInfo r txId = .ok (some right)) :
    starColumns catalog txId (fromOuterJoin tableAlias l r) =
      .ok (left.columns.map (Column.mk tableAlias l) ++
        right.columns.map (Column.mk tableAlias r)) := by
  have htables : (fromOuterJoin tableAlias l r).tables.entries = [] := rfl
  have hentries : (fromOuterJoin tableAlias l r).outerJoins.entries = [⟨tableAlias, l, r⟩] := rfl
  have hstar : starTable catalog txId l = .ok left := by rw [starTable, hleft, Outcome.ok_bind]
  have hstar' : starTable catalog txId r = .ok right := by rw [starTable, hright, Outcome.ok_bind]
  simp only [starColumns, htables, hentries, Outcome.mapM_cons, hstar, hstar', Outcome.ok_bind]
  simp [pure, Except.pure]

/-- Every column of a list is one of its table. -/
theorem visitSelectColumns_listed {columnList : Option (List ColumnContext)}
    (hleft : catalog.getTableInfo l txId = .ok (some left))
    (hright : catalog.getTableInfo r txId = .ok (some right))
    (h : visitSelectColumns catalog txId (fromOuterJoin tableAlias l r) columnList = .ok output) :
    ∀ col ∈ output, col.tableAlias = tableAlias ∧
      (col.table = l ∧ hasColumn left col.info.name = true ∨
        col.table = r ∧ hasColumn right col.info.name = true) := by
  intro col hcol
  cases columnList with
  | none =>
      obtain rfl := Except.ok.inj ((starColumns_fromOuterJoin hleft hright).symm.trans h)
      have hmem : ∀ {info : TableInfo} {c : TableColumn}, c ∈ info.columns →
          hasColumn info c.name = true := fun hc =>
        List.any_eq_true.mpr ⟨_, hc, decide_eq_true rfl⟩
      rcases List.mem_append.mp hcol with hcol | hcol
      · obtain ⟨c, hc, rfl⟩ := List.mem_map.mp hcol
        exact ⟨rfl, .inl ⟨rfl, hmem hc⟩⟩
      · obtain ⟨c, hc, rfl⟩ := List.mem_map.mp hcol
        exact ⟨rfl, .inr ⟨rfl, hmem hc⟩⟩
  | some columns =>
      obtain ⟨ctx, _, hctx⟩ := Outcome.mem_of_mapM h hcol
      obtain ⟨halias, hside⟩ := getColumn_fromOuterJoin hleft hright hctx
      refine ⟨halias, ?_⟩
      rcases hside with hside | ⟨htable, _, hname⟩
      · exact .inl hside
      · exact .inr ⟨htable, hname⟩

/-- A list of columns by name has none that both tables have from the right one. -/
theorem unshared_of_qualified {columns : List ColumnContext}
    (hleft : catalog.getTableInfo l txId = .ok (some left))
    (hright : catalog.getTableInfo r txId = .ok (some right))
    (h : visitSelectColumns catalog txId (fromOuterJoin tableAlias l r) (some columns) =
      .ok output) : Unshared left output := by
  intro col hcol hname
  obtain ⟨ctx, _, hctx⟩ := Outcome.mem_of_mapM h hcol
  obtain ⟨_, ⟨htable, _⟩ | ⟨_, hother, _⟩⟩ := getColumn_fromOuterJoin hleft hright hctx
  · rw [htable]
    exact (Catalog.getTableInfo_some hleft).1
  · exact absurd (hother.symm.trans hname) Bool.false_ne_true

/-- An asterisk has those that both tables have: the RID column, at least. -/
theorem not_unshared_of_star {c : TableColumn}
    (hleft : catalog.getTableInfo l txId = .ok (some left))
    (hright : catalog.getTableInfo r txId = .ok (some right)) (hne : left.name ≠ right.name)
    (hc : c ∈ right.columns) (hshared : hasColumn left c.name = true)
    (h : visitSelectColumns catalog txId (fromOuterJoin tableAlias l r) none = .ok output) :
    ¬ Unshared left output := by
  obtain rfl := Except.ok.inj ((starColumns_fromOuterJoin hleft hright).symm.trans h)
  intro hunshared
  have hnames := hunshared ⟨tableAlias, r, c⟩
    (List.mem_append_right _ (List.mem_map_of_mem hc)) hshared
  have hname : Catalog.normalize r = .ok left.name := hnames
  exact hne (Except.ok.inj (hname.symm.trans (Catalog.getTableInfo_some hright).1))

end Lists

section Plans

variable {catalog : Catalog} {txId : TxID} {scans : TableId → Nat → List Record}
  {likeMatch : List UInt8 → List UInt8 → Bool}
  {joinOrder : List LogicalPlan → List JoinPair → List Nat}
  {tableAlias : Identifier} {inputL inputR : OuterInput} {left right : TableInfo}
  {joins : List JoinPair} {remaining : List ExprPlan} {limit : Nat} {output : List Column}
  {columnList : Option (List ColumnContext)} {full : Bool} {it : QueryIter}

/-- The counters when the join is visited. -/
def countedAt (output : List Column) (remaining : List ExprPlan) (joins : List JoinPair) :
    ColumnUsage :=
  ((ColumnUsage.addColumns (fun _ => 0) output).addColumns
    (remaining.flatMap ExprPlan.getColumns)).addAll joins

theorem countedAt_apply (k : ColumnKey) : countedAt output remaining joins k =
    ((mentioned output remaining joins).map Column.key).count k := by
  have hpairs : ColumnUsage.mentions joins =
      (joins.flatMap fun p => [p.1, p.2]).map Column.key := by
    rw [List.map_flatMap]
    rfl
  rw [countedAt, ColumnUsage.addAll_apply, addColumns_apply, addColumns_apply, mentioned, hpairs,
    List.map_append, List.map_append, List.count_append, List.count_append, Nat.zero_add]

theorem countedApart_keeps {cols : List Column} {info : TableInfo} {k : ColumnKey} :
    (countedApart cols info).keeps k = true ↔
      ∃ col ∈ cols, NamesTable info col.table ∧ col.key = k := by
  rw [ColumnUsage.keeps, decide_eq_true_iff, countedApart, addColumns_apply, Nat.zero_add,
    List.count_pos_iff, List.mem_map]
  simp only [List.mem_filter, decide_eq_true_iff, and_assoc]

theorem countedAt_keeps {k : ColumnKey} : (countedAt output remaining joins).keeps k = true ↔
    ∃ col ∈ mentioned output remaining joins, col.key = k := by
  rw [ColumnUsage.keeps, decide_eq_true_iff, countedAt_apply, List.count_pos_iff, List.mem_map]

theorem counts_of_list (hleft : catalog.getTableInfo inputL.table txId = .ok (some left))
    (hright : catalog.getTableInfo inputR.table txId = .ok (some right))
    (hne : left.name ≠ right.name)
    (hlist : visitSelectColumns catalog txId
      (fromOuterJoin tableAlias inputL.table inputR.table) columnList = .ok output) :
    Counts (countedAt output remaining joins)
      (countedApart (mentioned output remaining joins) left)
      (countedApart (mentioned output remaining joins) right) tableAlias left right output := by
  have hlisted := visitSelectColumns_listed hleft hright hlist
  have hnames : NamesTable left inputL.table := (Catalog.getTableInfo_some hleft).1
  have hnames' : NamesTable right inputR.table := (Catalog.getTableInfo_some hright).1
  have hother : ¬ NamesTable left inputR.table := fun h =>
    hne (Except.ok.inj (Eq.trans (Eq.symm h) hnames'))
  have hmem : ∀ col ∈ output, col ∈ mentioned output remaining joins := fun col hcol =>
    List.mem_append_left _ (List.mem_append_left _ hcol)
  have hmono : ∀ (info : TableInfo) k,
      (countedApart (mentioned output remaining joins) info).keeps k = true →
        (countedAt output remaining joins).keeps k = true := by
    intro info k hk
    obtain ⟨col, hcol, _, hkey⟩ := countedApart_keeps.mp hk
    exact countedAt_keeps.mpr ⟨col, hcol, hkey⟩
  refine ⟨fun col hcol => (hlisted col hcol).1, fun col hcol hcolL => ?_, fun col hcol hcolR => ?_,
    fun col hcol => countedAt_keeps.mpr ⟨col, hmem col hcol, rfl⟩,
    fun col hcol hcolL => countedApart_keeps.mpr ⟨col, hmem col hcol, hcolL, rfl⟩,
    fun col hcol hcolR => countedApart_keeps.mpr ⟨col, hmem col hcol, ?_, rfl⟩,
    hmono left, hmono right⟩
  · obtain ⟨_, ⟨_, hname⟩ | ⟨htable, _⟩⟩ := hlisted col hcol
    · exact hname
    · exact absurd (htable ▸ hcolL) hother
  · obtain ⟨_, ⟨htable, _⟩ | ⟨_, hname⟩⟩ := hlisted col hcol
    · exact absurd (htable ▸ hnames) hcolR
    · exact hname
  · obtain ⟨_, ⟨htable, _⟩ | ⟨htable, _⟩⟩ := hlisted col hcol
    · exact absurd (htable ▸ hnames) hcolR
    · exact htable ▸ hnames'

/-- The projected columns of an input. -/
theorem input_sideColumns {counted : ColumnUsage} {input : OuterInput} {info : TableInfo}
    {lhs : QueryIter}
    (h : visitPlan catalog txId scans likeMatch joinOrder counted (input.plan tableAlias) =
      .ok lhs)
    (hinfo : catalog.getTableInfo input.table txId = .ok (some info)) :
    projectedColumns counted lhs.getColumns = sideColumns counted tableAlias input info := by
  obtain ⟨ps, hps, hcolumns, _⟩ := input_columns h hinfo
  rw [hcolumns, relationColumnsFrom_kept hps]
  rfl

/-- The columns of the join that the optimizer makes. -/
theorem outerQueryPlan_columns
    (hleft : catalog.getTableInfo inputL.table txId = .ok (some left))
    (hright : catalog.getTableInfo inputR.table txId = .ok (some right))
    (hplan : visitPlan catalog txId scans likeMatch joinOrder (fun _ => 0)
      (outerQueryPlan full tableAlias inputL inputR joins remaining limit output) = .ok it) :
    ∃ equalities, outerJoinColumns it = some
      ⟨sideColumns (countedAt output remaining joins) tableAlias inputL left,
        sideColumns (countedAt output remaining joins) tableAlias inputR right, equalities⟩ := by
  have hjoin : ∀ usage join, usage.addAll joins = countedAt output remaining joins →
      visitPlan catalog txId scans likeMatch joinOrder usage
        (outerJoinPlan full tableAlias inputL inputR joins) = .ok join →
      ∃ equalities, outerJoinColumns join = some
        ⟨sideColumns (countedAt output remaining joins) tableAlias inputL left,
          sideColumns (countedAt output remaining joins) tableAlias inputR right,
          equalities⟩ := by
    intro usage join husage hvisit
    cases full with
    | true =>
        simp only [outerJoinPlan, if_true, visitPlan, husage] at hvisit
        obtain ⟨lhs, hl, hvisit⟩ := Outcome.of_bind_ok hvisit
        obtain ⟨rhs, hr, hvisit⟩ := Outcome.of_bind_ok hvisit
        obtain ⟨_, rfl⟩ := requireEqualities_ok.mp hvisit
        rw [outerJoinColumns, outerColumns, input_sideColumns hl hleft, input_sideColumns hr hright]
        exact ⟨_, rfl⟩
    | false =>
        simp only [outerJoinPlan, Bool.false_eq_true, if_false, visitPlan, husage] at hvisit
        obtain ⟨lhs, hl, hvisit⟩ := Outcome.of_bind_ok hvisit
        obtain ⟨rhs, hr, hvisit⟩ := Outcome.of_bind_ok hvisit
        obtain ⟨_, rfl⟩ := requireEqualities_ok.mp hvisit
        rw [outerJoinColumns, outerColumns, input_sideColumns hl hleft, input_sideColumns hr hright]
        exact ⟨_, rfl⟩
  simp only [outerQueryPlan, visitPlan, Bool.false_eq_true, if_false] at hplan
  obtain ⟨child, hchild, hplan⟩ := Outcome.of_bind_ok hplan
  cases hplan
  cases remaining with
  | nil => exact hjoin _ child rfl hchild
  | cons e es =>
      simp only [List.isEmpty_cons, Bool.false_eq_true, if_false, visitPlan] at hchild
      obtain ⟨join, hvisit, hchild⟩ := Outcome.of_bind_ok hchild
      obtain ⟨lowered, _, hchild⟩ := Outcome.of_bind_ok hchild
      obtain ⟨equalities, hcolumns⟩ := hjoin _ join rfl hvisit
      cases hchild
      refine ⟨equalities, ?_⟩
      rw [outerJoinColumns]
      split
      · exact hcolumns
      · exact hcolumns

/-- The columns of the two tables stay distinct in what a query returns exactly when no
listed column of the right table is one of the left table as well, the listed columns are
where they are with the counters apart, and so is what is padded. -/
theorem columns_distinct_iff
    (hlist : visitSelectColumns catalog txId
      (fromOuterJoin tableAlias inputL.table inputR.table) columnList = .ok output)
    (hleft : catalog.getTableInfo inputL.table txId = .ok (some left))
    (hright : catalog.getTableInfo inputR.table txId = .ok (some right))
    (hne : left.name ≠ right.name)
    (hvalid : ∀ c ∈ left.columns, c.datatype ≠ .invalid)
    (hvalid' : ∀ c ∈ right.columns, c.datatype ≠ .invalid)
    (hplan : visitPlan catalog txId scans likeMatch joinOrder (fun _ => 0)
      (outerQueryPlan full tableAlias inputL inputR joins remaining limit output) = .ok it) :
    let counted := countedAt output remaining joins
    let apartL := countedApart (mentioned output remaining joins) left
    let apartR := countedApart (mentioned output remaining joins) right
    (∃ columns, outerJoinColumns it = some columns ∧
        StaysDistinct full left right output columns
          (sidesFrom apartL apartR tableAlias inputL inputR left right)) ↔
      Unshared left output ∧
      (∀ col ∈ output, SamePlace counted apartL apartR tableAlias inputL inputR left right col) ∧
      (InputPads counted tableAlias inputR right ↔ InputPads apartR tableAlias inputR right) ∧
      (full = true →
        (InputPads counted tableAlias inputL left ↔ InputPads apartL tableAlias inputL left)) := by
  intro counted apartL apartR
  obtain ⟨l, hl⟩ := exists_fits hvalid
  obtain ⟨r, hr⟩ := exists_fits hvalid'
  obtain ⟨equalities, hcolumns⟩ := outerQueryPlan_columns hleft hright hplan
  have hcounts : Counts counted apartL apartR tableAlias left right output :=
    counts_of_list hleft hright hne hlist
  refine Iff.trans ?_ (hcounts.staysDistinct_iff full hl hr)
  constructor
  · rintro ⟨columns, heq, hdistinct⟩
    obtain rfl := Option.some.inj (hcolumns.symm.trans heq)
    exact ⟨hdistinct.returns, hdistinct.taken, hdistinct.matched, hdistinct.paddedRight,
      hdistinct.paddedLeft⟩
  · intro hdistinct
    exact ⟨_, hcolumns, hdistinct.returns, hdistinct.taken, hdistinct.matched,
      hdistinct.paddedRight, hdistinct.paddedLeft⟩

end Plans

/-! ## Two tables -/

/-- `SELECT j.y FROM (l LEFT OUTER JOIN r ON l.id == r.id) AS j`. -/
theorem columns_distinct_iff_listed : ∃ it columns,
    visitPlan twoTables 1 (fun _ _ => []) (fun _ _ => true) (fun _ _ => []) (fun _ => 0)
      (outerQueryPlan false [106] ⟨[108], none⟩ ⟨[114], none⟩ idJoins [] 10
        [⟨[106], [114], ⟨[121], .int, 1⟩⟩]) = .ok it ∧
    outerJoinColumns it = some columns ∧
    StaysDistinct false leftTable rightTable [⟨[106], [114], ⟨[121], .int, 1⟩⟩] columns
      (sidesFrom
        (countedApart (mentioned [⟨[106], [114], ⟨[121], .int, 1⟩⟩] [] idJoins) leftTable)
        (countedApart (mentioned [⟨[106], [114], ⟨[121], .int, 1⟩⟩] [] idJoins) rightTable)
        [106] ⟨[108], none⟩ ⟨[114], none⟩ leftTable rightTable) := by
  have hlist : visitSelectColumns twoTables 1 (fromOuterJoin [106] [108] [114])
      (some [⟨some [106], [121]⟩]) = .ok [⟨[106], [114], ⟨[121], .int, 1⟩⟩] := rfl
  have hleft : twoTables.getTableInfo [108] 1 = .ok (some leftTable) := rfl
  have hright : twoTables.getTableInfo [114] 1 = .ok (some rightTable) := rfl
  have hplan : ∃ it, visitPlan twoTables 1 (fun _ _ => []) (fun _ _ => true) (fun _ _ => [])
      (fun _ => 0) (outerQueryPlan false [106] ⟨[108], none⟩ ⟨[114], none⟩ idJoins [] 10
        [⟨[106], [114], ⟨[121], .int, 1⟩⟩]) = .ok it := ⟨_, rfl⟩
  obtain ⟨it, hplan⟩ := hplan
  obtain ⟨columns, hcolumns, hdistinct⟩ :=
    (@columns_distinct_iff _ _ _ _ _ _ ⟨[108], none⟩ ⟨[114], none⟩ _ _ _ _ _ _ _ _ _ hlist hleft
      hright (by decide) (by decide) (by decide) hplan).mpr
      ⟨by decide, by decide, by decide, fun hfull => nomatch hfull⟩
  exact ⟨it, columns, hplan, hcolumns, hdistinct⟩

/-- `SELECT *` from the join: the last column is the RID column of `r`, and its value is
that of `l`. -/
theorem columns_not_distinct : ∃ columns it started rest,
    visitSelectQuery twoTables 1 starQuery =
      .ok (.projection (leftJoinPlan idJoins) false (2 ^ 63 - 1) columns) ∧
    columns.getLast? = some ⟨[106], [114], ⟨Catalog.ridName, .rid, 1⟩⟩ ∧
    createPhysicalPlan twoTables 1
      (fun tableId _ => if tableId = 0 then [⟨[.int 1, .int 2, .rid ⟨0, 0⟩]⟩]
        else [⟨[.int 1, .int 5, .rid ⟨0, 7⟩]⟩])
      (fun _ _ => true) (fun _ _ => [])
      (.projection (leftJoinPlan idJoins) false (2 ^ 63 - 1) columns) = .ok it ∧
    begin 5 it = .ok (some started) ∧
    next 5 started = .ok (some
      (⟨[.int 1, .int 2, .rid ⟨0, 0⟩, .int 1, .int 5, .rid ⟨0, 0⟩]⟩, rest)) :=
  ⟨_, _, _, _, rfl, rfl, rfl, rfl, rfl⟩

end Iic3413Db.Query
