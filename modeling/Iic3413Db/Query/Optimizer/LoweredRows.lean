/-
  Query/Optimizer/LoweredRows.lean --- the records of an iterator, against the rows of its plan.

  A record shows a row when the columns in use have the same values in both.  A relation returns
  whole records under the columns it keeps, so a record may be longer than the columns.
-/
import Iic3413Db.Query.Executor.Feeding
import Iic3413Db.Query.Optimizer.JoinOrders
import Iic3413Db.Query.Optimizer.ReadyPlans
import Iic3413Db.Query.Optimizer.UsageCounting

set_option autoImplicit false

namespace Iic3413Db.Query

open Iic3413Db.Foundation Iic3413Db.RelationalModel
open Iic3413Db.System (Catalog TableColumn TableInfo)
open QueryIter

/-! ## Records that show rows -/

section Showing

variable (known : Column → Prop) (usage : ColumnUsage)

/-- The values of the record where columns are in use are those of the row. -/
structure ShowsRow (it : QueryIter) (r : Record) (f : PlanRow) : Prop where
  long : it.getColumns.length ≤ r.values.length
  same : ∀ c, known c → usage.uses c = true → rowOf it r c.key = f c.source

/-- The same of the values of some columns, for one half of a record. -/
structure ShowsHalf (columns : List Column) (values : List Value) (f : PlanRow) : Prop where
  length : values.length = columns.length
  same : ∀ c, known c → usage.uses c = true →
    Row.zip (columns.map Column.key) values c.key = f c.source

/-- At every scan the iterator delivers a record for each row, in this order. -/
def Delivered (it : QueryIter) (rows : List PlanRow) : Prop :=
  ∃ out, Feeds (fun _ => out) it ∧ List.Forall₂ (ShowsRow known usage it) out rows

/-- The row has a value in a column in use. -/
def Seen (f : PlanRow) : Prop := ∃ c, known c ∧ usage.uses c = true ∧ f c.source ≠ none

end Showing

section Basic

variable {known known' : Column → Prop} {usage usage' : ColumnUsage} {it : QueryIter} {r : Record}
  {f g : PlanRow} {rows : List PlanRow}

/-- The values after those of the columns are not in the row. -/
theorem rowOf_take (it : QueryIter) (r : Record) :
    Row.zip (it.getColumns.map Column.key) (r.values.take it.getColumns.length) = rowOf it r := by
  have hlength : (it.getColumns.map Column.key).length = it.getColumns.length :=
    List.length_map Column.key
  rw [rowOf, ← hlength, Row.zip_take]

theorem ShowsRow.take_length (h : ShowsRow known usage it r f) :
    (r.values.take it.getColumns.length).length = it.getColumns.length := by
  rw [List.length_take, Nat.min_eq_left h.long]

theorem ShowsRow.mono (h : ShowsRow known usage' it r f)
    (hle : ∀ k, usage.keeps k = true → usage'.keeps k = true) : ShowsRow known usage it r f where
  long := h.long
  same c hc hused := h.same c hc (hle c.key hused)

theorem Delivered.mono (h : Delivered known usage' it rows)
    (hle : ∀ k, usage.keeps k = true → usage'.keeps k = true) :
    Delivered known usage it rows := by
  obtain ⟨out, hout, hrows⟩ := h
  exact ⟨out, hout, hrows.imp fun _ _ hshows => hshows.mono hle⟩

/-- Related elements, and where they stand. -/
theorem forall₂_mem {α β : Type} {R : α → β → Prop} {as : List α} {bs : List β}
    (h : List.Forall₂ R as bs) : List.Forall₂ (fun a b => R a b ∧ b ∈ bs) as bs := by
  induction h with
  | nil => exact .nil
  | @cons x y _ _ hxy _ ih =>
      exact .cons ⟨hxy, List.mem_cons_self⟩ (ih.imp fun a b h => ⟨h.1, List.mem_cons_of_mem y h.2⟩)

/-- Columns that are neither in the record nor in the row make no difference. -/
theorem ShowsRow.widen (h : ShowsRow known usage it r f)
    (hwiden : ∀ c, known' c → usage.uses c = true →
      known c ∨ ¬ HasKey it c.key ∧ f c.source = none) : ShowsRow known' usage it r f where
  long := h.long
  same c hc hused := by
    rcases hwiden c hc hused with hknown | ⟨hkey, hnone⟩
    · exact h.same c hknown hused
    · rw [hnone]
      exact Row.zip_eq_none hkey

theorem Delivered.widen (h : Delivered known usage it rows)
    (hwiden : ∀ f ∈ rows, ∀ c, known' c → usage.uses c = true →
      known c ∨ ¬ HasKey it c.key ∧ f c.source = none) : Delivered known' usage it rows := by
  obtain ⟨out, hout, hrows⟩ := h
  exact ⟨out, hout, (forall₂_mem hrows).imp fun _ f hshows => hshows.1.widen (hwiden f hshows.2)⟩

theorem Seen.merge_left (h : Seen known usage f) : Seen known usage (f.merge g) := by
  obtain ⟨c, hc, hused, hne⟩ := h
  refine ⟨c, hc, hused, fun hnone => hne ?_⟩
  exact (Option.or_eq_none_iff.mp hnone).1

theorem Seen.merge_right (h : Seen known usage g) : Seen known usage (f.merge g) := by
  obtain ⟨c, hc, hused, hne⟩ := h
  refine ⟨c, hc, hused, fun hnone => hne ?_⟩
  exact (Option.or_eq_none_iff.mp hnone).2

/-- The record of a row that is seen is a valid one. -/
theorem ShowsRow.valid (h : ShowsRow known usage it r f) (hseen : Seen known usage f) :
    r.invalid = false := by
  obtain ⟨c, hc, hused, hne⟩ := hseen
  rw [← h.same c hc hused] at hne
  exact List.isEmpty_eq_false_iff.mpr (Row.ne_nil_of_zip hne)

/-- What a search for a column in use finds. -/
theorem ShowsRow.found (h : ShowsRow known usage it r f) {c : Column} (hc : known c)
    (hused : usage.uses c = true) : Shows it.getColumns r f c := by
  intro i hi
  have hlt := (List.findIdx?_eq_some_iff_getElem.mp hi).1
  rw [findColumn_eq] at hi
  have hlength := h.take_length.trans (List.length_map Column.key).symm
  rw [← h.same c hc hused, ← rowOf_take, (Row.zip_findIdx hlength hi).1,
    List.getElem?_take_of_lt hlt]

theorem forall₂_left {α β : Type} {R : α → β → Prop} {as : List α} {bs : List β}
    (h : List.Forall₂ R as bs) {a : α} (ha : a ∈ as) : ∃ b ∈ bs, R a b := by
  induction h with
  | nil => cases ha
  | @cons x y _ _ hxy _ ih =>
      rcases List.mem_cons.mp ha with rfl | ha
      · exact ⟨y, List.mem_cons_self, hxy⟩
      · obtain ⟨b, hb, hab⟩ := ih ha
        exact ⟨b, List.mem_cons_of_mem y hb, hab⟩

end Basic

/-! ## Selections -/

section Selections

variable {likeMatch : List UInt8 → List UInt8 → Bool} {known : Column → Prop}
  {usage usage' : ColumnUsage} {it : QueryIter} {rows : List PlanRow} {es : List ExprPlan}
  {lowered : List Expr} {f : PlanRow} {r : Record}

theorem lowerColumn_ok {columns : List Column} {c : Column}
    (h : c.key ∈ columns.map Column.key) : ∃ expr, lowerColumn columns c = .ok expr := by
  obtain ⟨i, hi⟩ := Option.isSome_iff_exists.mp (findColumn_isSome.mpr h)
  rw [lowerColumn, hi]
  exact ⟨_, rfl⟩

/-- The lowering of an expression without empty operands, whose columns are there. -/
theorem lowerExpr_ok {columns : List Column} {e : ExprPlan} (hcomplete : e.Complete)
    (h : ∀ c ∈ e.mentions, c.key ∈ columns.map Column.key) :
    ∃ expr, lowerExpr likeMatch columns e = .ok expr := by
  induction e with
  | null => exact hcomplete.elim
  | term value => exact ⟨_, rfl⟩
  | column col => exact lowerColumn_ok (h col List.mem_cons_self)
  | between col _ _ | like col _ =>
      obtain ⟨child, hchild⟩ := lowerColumn_ok (h col List.mem_cons_self)
      rw [lowerExpr, hchild]
      exact ⟨_, rfl⟩
  | equals lhs rhs ihl ihr | notEquals lhs rhs ihl ihr | less lhs rhs ihl ihr
  | lessOrEquals lhs rhs ihl ihr | arithmetic lhs _ rhs ihl ihr =>
      obtain ⟨l, hl⟩ := ihl hcomplete.1 fun c hc => h c (List.mem_append_left _ hc)
      obtain ⟨r, hr⟩ := ihr hcomplete.2 fun c hc => h c (List.mem_append_right _ hc)
      rw [lowerExpr, hl, Outcome.ok_bind, hr]
      exact ⟨_, rfl⟩

/-- Expressions with integers do not fail on the record. -/
theorem matchesAll_decided {columns : List Column}
    (h : es.mapM (lowerExpr likeMatch columns) = .ok lowered)
    (hcols : ∀ e ∈ es, ∀ c ∈ e.mentions, Shows columns r f c)
    (hdecides : ∀ e ∈ es, Decides likeMatch f e) :
    matchesAll r lowered = .ok (passes likeMatch es f) := by
  induction es generalizing lowered with
  | nil =>
      cases h
      rfl
  | cons e es ih =>
      rw [Outcome.mapM_cons] at h
      obtain ⟨l, hl, h⟩ := Outcome.of_bind_ok h
      obtain ⟨ls, hls, h⟩ := Outcome.of_bind_ok h
      cases h
      obtain ⟨hcolsE, hcolsEs⟩ := List.forall_mem_cons.mp hcols
      obtain ⟨⟨i, hi⟩, hdecidesEs⟩ := List.forall_mem_cons.mp hdecides
      have hvalue := lowerExpr_valueIn hl hcolsE
      rw [hi] at hvalue
      have hlr : l r = .ok (.int i) := by
        cases hlr : l r with
        | error fault =>
            rw [hlr] at hvalue
            cases hvalue
        | ok v =>
            rw [hlr] at hvalue
            exact congrArg _ (Option.some.inj hvalue)
      have hrest := ih hls hcolsEs hdecidesEs
      rw [matchesAll, hlr, Outcome.ok_bind]
      dsimp only
      rw [passes, List.all_cons, holds, hi]
      by_cases hzero : i = 0
      · simp [hzero]
      · rw [if_neg hzero, hrest, passes]
        simp [hzero]

/-- A selection keeps the rows that pass. -/
theorem selection_delivered (h : Delivered known usage' it rows)
    (hle : ∀ k, usage.keeps k = true → usage'.keeps k = true)
    (hlowered : es.mapM (lowerExpr likeMatch it.getColumns) = .ok lowered)
    (hknown : ∀ e ∈ es, ∀ c ∈ e.mentions, known c ∧ usage'.uses c = true)
    (hdecides : ∀ f ∈ rows, ∀ e ∈ es, Decides likeMatch f e) :
    Delivered known usage (selectionOver it lowered) (rows.filter (passes likeMatch es)) := by
  obtain ⟨out, hout, hrows⟩ := h
  have hmatches : ∀ r f, ShowsRow known usage' it r f ∧ f ∈ rows →
      matchesAll r lowered = .ok (passes likeMatch es f) := by
    rintro r f ⟨hshows, hf⟩
    exact matchesAll_decided hlowered
      (fun e he c hc => hshows.found (hknown e he c hc).1 (hknown e he c hc).2) (hdecides f hf)
  unfold selectionOver
  split
  · rename_i hempty
    have hes : es = [] := by
      rw [← List.length_eq_zero_iff, (Outcome.forall₂_of_mapM hlowered).length_eq,
        List.length_eq_zero_iff]
      exact List.isEmpty_iff.mp hempty
    have hall : rows.filter (passes likeMatch es) = rows :=
      List.filter_eq_self.mpr fun f _ => by rw [hes]; rfl
    rw [hall]
    exact ⟨out, hout, hrows.imp fun _ _ hshows => hshows.mono hle⟩
  · obtain ⟨keep, hkeep⟩ : ∃ keep : Record → Bool, ∀ r,
        keep r = decide ((matchesAll r lowered).toOption = some true) := ⟨_, fun _ => rfl⟩
    have hkept : ∀ r f, ShowsRow known usage' it r f ∧ f ∈ rows →
        keep r = passes likeMatch es f := by
      intro r f hrf
      rw [hkeep, hmatches r f hrf]
      simp [Except.toOption]
    refine ⟨out.filter keep, selection_feeds hout fun _ r hr => ?_, ?_⟩
    · obtain ⟨f, _, hrf⟩ := forall₂_left (forall₂_mem hrows) hr
      rw [hmatches r f hrf, hkept r f hrf]
    · refine (List.rel_filter (fun r f hrf => ?_) (forall₂_mem hrows)).imp fun r f hrf =>
        ⟨hrf.1.long, (hrf.1.mono hle).same⟩
      exact Bool.eq_iff_iff.mp (hkept r f hrf)

end Selections

/-! ## Products and joins -/

section Step

variable {known : Column → Prop} {usage : ColumnUsage} {joins : List JoinPair}
  {lhs rhs : QueryIter} {l r : Record} {f g : PlanRow} {as bs : List PlanRow}

theorem picked_take {projected : List ProjectedColumn} {n : Nat} (values : List Value)
    (h : Inside projected n) : picked projected (values.take n) = picked projected values :=
  List.filterMap_congr fun c hc => List.getElem?_take_of_lt (h c hc)

/-- Equalities inside the columns. -/
theorem agree_take {equalities : List (Nat × Nat)} {n m : Nat} (l r : List Value)
    (h : ∀ eq ∈ equalities, eq.1 < n ∧ eq.2 < m) :
    agree equalities ⟨l.take n⟩ ⟨r.take m⟩ = agree equalities ⟨l⟩ ⟨r⟩ := by
  rw [Bool.eq_iff_iff, agree, agree, List.all_eq_true, List.all_eq_true]
  refine forall₂_congr fun eq heq => ?_
  dsimp only
  rw [List.getElem?_take_of_lt (h eq heq).1, List.getElem?_take_of_lt (h eq heq).2]

/-- The columns in use of a longer record. -/
theorem picked_used {columns : List Column} {values : List Value}
    (h : columns.length ≤ values.length) :
    picked (projectedColumns usage columns) values =
      usedValues usage columns (values.take columns.length) := by
  have hlength : (values.take columns.length).length = columns.length := by
    rw [List.length_take, Nat.min_eq_left h]
  rw [← picked_take values (projectedColumns_inside rfl), picked_projectedColumns hlength]

/-- The half of a record that a loop takes from its child. -/
theorem ShowsRow.half {it : QueryIter} (h : ShowsRow known usage it r f) :
    ShowsHalf known usage (it.getColumns.filter usage.uses)
      (picked (projectedColumns usage it.getColumns) r.values) f := by
  constructor
  · rw [picked_used h.long]
    exact usedValues_length h.take_length
  · intro c hc hused
    have hkeeps : usage.keeps c.key = true := hused
    rw [picked_used h.long, zip_usedValues, rowOf_take, ← h.same c hc hused, Row.restrict,
      if_pos hkeeps]

/-- Two halves in one record. -/
theorem ShowsHalf.pair {it : QueryIter} {columns columns' : List Column} {vs ws : List Value}
    (hl : ShowsHalf known usage columns vs f) (hr : ShowsHalf known usage columns' ws g)
    (hcolumns : it.getColumns = columns ++ columns') :
    ShowsRow known usage it ⟨vs ++ ws⟩ (f.merge g) := by
  constructor
  · rw [hcolumns, List.length_append, List.length_append, hl.length, hr.length]
  · intro c hc hused
    rw [rowOf, hcolumns, List.map_append,
      Row.zip_append (hl.length.trans (List.length_map Column.key).symm), Row.merge, Row.merge,
      hl.same c hc hused, hr.same c hc hused]

/-- Two records in one have the columns in use of both rows. -/
theorem ShowsRow.pair (hl : ShowsRow known usage lhs l f) (hr : ShowsRow known usage rhs r g) :
    ShowsRow known usage (joinStep usage joins lhs rhs)
      (paired (projectedColumns usage lhs.getColumns) (projectedColumns usage rhs.getColumns) l r)
      (f.merge g) := hl.half.pair hr.half (joinStep_columns lhs rhs)

/-- The pairs of rows that meet. -/
def meeting (meets : PlanRow → PlanRow → Bool) (as bs : List PlanRow) : List PlanRow :=
  as.flatMap fun f => (bs.filter (meets f)).map f.merge

theorem joined_some {columns : JoinColumns} {s : Record} (h : joined columns l r = some s) :
    s = paired columns.lhs columns.rhs l r := by
  unfold joined at h
  split at h
  · exact (Option.some.inj h).symm
  · cases h

/-- The records of one left record. -/
theorem joined_showsRow {meets : PlanRow → PlanRow → Bool} {rs : List Record}
    (hl : ShowsRow known usage lhs l f)
    (hmeets : ∀ r g, ShowsRow known usage rhs r g →
      agree (stepColumns usage joins lhs rhs).equalities l r = meets f g)
    (hrs : List.Forall₂ (ShowsRow known usage rhs) rs bs) :
    List.Forall₂ (ShowsRow known usage (joinStep usage joins lhs rhs))
      (rs.filterMap (joined (stepColumns usage joins lhs rhs) l))
      ((bs.filter (meets f)).map f.merge) := by
  induction hrs with
  | nil => exact .nil
  | @cons r g rs bs hr _ ih =>
      have hagree := hmeets r g hr
      rw [List.filter_cons]
      cases hmeet : meets f g with
      | false =>
          have hnone : joined (stepColumns usage joins lhs rhs) l r = none := by
            rw [joined, hagree, hmeet]
            rfl
          rw [List.filterMap_cons_none hnone]
          exact ih
      | true =>
          have hsome : joined (stepColumns usage joins lhs rhs) l r =
              some (paired (projectedColumns usage lhs.getColumns)
                (projectedColumns usage rhs.getColumns) l r) := by
            rw [joined, hagree, hmeet]
            rfl
          rw [List.filterMap_cons_some hsome]
          exact .cons (hl.pair hr) ih

/-- One turn of the loop delivers the pairs of rows that meet. -/
theorem joinStep_delivered {meets : PlanRow → PlanRow → Bool}
    (hlhs : Delivered known usage lhs as) (hrhs : Delivered known usage rhs bs)
    (hmeets : ∀ l f r g, ShowsRow known usage lhs l f → ShowsRow known usage rhs r g →
      agree (stepColumns usage joins lhs rhs).equalities l r = meets f g)
    (hseen : ∀ f ∈ as, ∀ g ∈ bs, Seen known usage (f.merge g)) :
    Delivered known usage (joinStep usage joins lhs rhs) (meeting meets as bs) := by
  obtain ⟨ls, hls, hshowsL⟩ := hlhs
  obtain ⟨rs, hrs, hshowsR⟩ := hrhs
  refine ⟨ls.flatMap fun l => rs.filterMap (joined (stepColumns usage joins lhs rhs) l), ?_, ?_⟩
  · have hlong : ∀ l ∈ ls, lhs.getColumns.length ≤ l.values.length := fun l hl => by
      obtain ⟨f, _, hf⟩ := forall₂_left hshowsL hl
      exact hf.long
    have hlong' : ∀ r ∈ rs, rhs.getColumns.length ≤ r.values.length := fun r hr => by
      obtain ⟨g, _, hg⟩ := forall₂_left hshowsR hr
      exact hg.long
    have hinside : ∀ {it : QueryIter} {s : Record}, it.getColumns.length ≤ s.values.length →
        Inside (projectedColumns usage it.getColumns) s.values.length := fun h c hc =>
      (projectedColumns_inside rfl c hc).trans_le h
    have hvalid : ∀ l ∈ ls, ∀ r ∈ rs, ∀ s,
        joined (stepColumns usage joins lhs rhs) l r = some s → s.invalid = false := by
      intro l hl r hr s hs
      obtain ⟨f, hf, hlf⟩ := forall₂_left hshowsL hl
      obtain ⟨g, hg, hrg⟩ := forall₂_left hshowsR hr
      have hpair : ShowsRow known usage (joinStep usage joins lhs rhs) _ _ := hlf.pair hrg
      rw [joined_some hs]
      exact hpair.valid (hseen f hf g hg)
    have hls' : ∀ l ∈ ls, Inside (projectedColumns usage lhs.getColumns) l.values.length :=
      fun l hl => hinside (hlong l hl)
    have hrs' : ∀ r ∈ rs, Inside (projectedColumns usage rhs.getColumns) r.values.length :=
      fun r hr => hinside (hlong' r hr)
    unfold joinStep
    split
    · rename_i hempty
      have hnil : joins.filterMap (equality lhs.getColumns rhs.getColumns) = [] :=
        List.isEmpty_iff.mp hempty
      have hjoined : joined (stepColumns usage joins lhs rhs) = fun l r =>
          some (paired (projectedColumns usage lhs.getColumns)
            (projectedColumns usage rhs.getColumns) l r) := by
        funext l r
        rw [joined, stepColumns, hnil]
        rfl
      rw [hjoined] at hvalid ⊢
      exact (nestedLoop_product hls' hrs').feeds hvalid Record.empty false hls hrs
    · refine (nestedLoop_join hls' hrs' fun e he => ?_).feeds hvalid Record.empty false hls hrs
      obtain ⟨p, _, hp⟩ := List.mem_filterMap.mp he
      obtain ⟨hi, hj⟩ := equality_inside hp
      exact ⟨fun l hl => hi.trans_le (hlong l hl), fun r hr => hj.trans_le (hlong' r hr)⟩
  · refine List.rel_flatMap hshowsL fun l f hf => ?_
    exact joined_showsRow hf (fun r g hg => hmeets l f r g hf hg) hshowsR

end Step

/-! ## The two loops -/

section Products

variable {known : Column → Prop} {usage : ColumnUsage} {lhs rhs : QueryIter}
  {as bs : List PlanRow} {its : List QueryIter} {tables : List (List PlanRow)}

/-- A product is a join without equalities. -/
theorem productStep_eq (lhs rhs : QueryIter) :
    productStep usage lhs rhs = joinStep usage [] lhs rhs := rfl

theorem productStep_delivered (hlhs : Delivered known usage lhs as)
    (hrhs : Delivered known usage rhs bs)
    (hseen : ∀ f ∈ as, ∀ g ∈ bs, Seen known usage (f.merge g)) :
    Delivered known usage (productStep usage lhs rhs) (times as bs) := by
  have hall : meeting (fun _ _ => true) as bs = times as bs :=
    List.flatMap_congr fun f _ => by rw [List.filter_eq_self.mpr fun _ _ => rfl]
  rw [productStep_eq, ← hall]
  exact joinStep_delivered hlhs hrhs (fun _ _ _ _ _ _ => rfl) hseen

/-- The loop over the children of a product, once a column in use is on the left. -/
theorem foldl_productStep_delivered (h : List.Forall₂ (Delivered known usage) its tables)
    (hlhs : Delivered known usage lhs as) (hseen : ∀ f ∈ as, Seen known usage f) :
    Delivered known usage (its.foldl (productStep usage) lhs) (tables.foldl times as) := by
  induction h generalizing lhs as with
  | nil => exact hlhs
  | cons hrhs _ ih =>
      refine ih (productStep_delivered hlhs hrhs fun f hf g _ => (hseen f hf).merge_left) ?_
      intro r hr
      obtain ⟨f, hf, g, _, rfl⟩ := mem_times.mp hr
      exact (hseen f hf).merge_left

/-- `visit(CartesianProductPlan&)`, when the first two children have a column in use. -/
theorem visitCartesianProduct_delivered
    (h : List.Forall₂ (Delivered known usage) (lhs :: rhs :: its) (as :: bs :: tables))
    (hseen : ∀ f ∈ as, ∀ g ∈ bs, Seen known usage (f.merge g)) :
    ∃ it, visitCartesianProduct usage (lhs :: rhs :: its) = .ok it ∧
      Delivered known usage it (product (as :: bs :: tables)) := by
  obtain ⟨hlhs, hrest⟩ := List.forall₂_cons.mp h
  obtain ⟨hrhs, hits⟩ := List.forall₂_cons.mp hrest
  refine ⟨_, rfl, ?_⟩
  rw [product_cons, product_cons, ← times_assoc, ← foldl_times, List.foldl_cons]
  refine foldl_productStep_delivered hits (productStep_delivered hlhs hrhs hseen) fun r hr => ?_
  obtain ⟨f, hf, g, hg, rfl⟩ := mem_times.mp hr
  exact hseen f hf g hg

end Products

/-! ### Joins -/

/-- The pairs of columns that have to be equal. -/
def joinSources (joins : List JoinPair) : List (SourceColumn × SourceColumn) :=
  joins.map fun p => (p.1.source, p.2.source)

section Joins

variable {known : Column → Prop} {usage : ColumnUsage} {joins : List JoinPair}
  {lhs rhs : QueryIter} {l r : Record} {f g : PlanRow} {as : List PlanRow}

/-- The columns of the pairs are known, and in use. -/
def PairsUsed (known : Column → Prop) (usage : ColumnUsage) (joins : List JoinPair) : Prop :=
  ∀ p ∈ joins, (known p.1 ∧ usage.uses p.1 = true) ∧ known p.2 ∧ usage.uses p.2 = true

/-- The equalities of one turn, as those between the two rows. -/
theorem agree_eq_sources {tableAlias : Identifier} (hjoins : PairsUsed known usage joins)
    (hrhs : ∀ c ∈ rhs.getColumns, c.tableAlias = tableAlias)
    (hlhs : ∀ c ∈ lhs.getColumns, c.tableAlias ≠ tableAlias)
    (hl : ShowsRow known usage lhs l f) (hr : ShowsRow known usage rhs r g) :
    agree (stepColumns usage joins lhs rhs).equalities l r =
      Row.meets (joinSources joins) f g := by
  have hinside : ∀ eq ∈ (stepColumns usage joins lhs rhs).equalities,
      eq.1 < lhs.getColumns.length ∧ eq.2 < rhs.getColumns.length := by
    intro eq heq
    obtain ⟨p, _, hp⟩ := List.mem_filterMap.mp heq
    exact equality_inside hp
  rw [← agree_take l.values r.values hinside,
    show (stepColumns usage joins lhs rhs).equalities =
      joins.filterMap (equality lhs.getColumns rhs.getColumns) from rfl,
    agree_eq_meets joins hl.take_length hr.take_length hrhs hlhs, rowOf_take, rowOf_take, joinKeys,
    joinSources, Row.meets, Row.meets, List.all_map, List.all_map, Bool.eq_iff_iff,
    List.all_eq_true, List.all_eq_true]
  refine forall₂_congr fun p hp => ?_
  obtain ⟨⟨hknown, hused⟩, hknown', hused'⟩ := hjoins p hp
  simp only [Function.comp_apply, hl.same _ hknown hused, hl.same _ hknown' hused',
    hr.same _ hknown hused, hr.same _ hknown' hused']

/-- The columns of the iterator are under one alias. -/
def UnderAlias (it : QueryIter) (tableAlias : Identifier) : Prop :=
  ∀ c ∈ it.getColumns, c.tableAlias = tableAlias

/-- The loop over the children of a join, once a column in use is on the left. -/
theorem foldl_joinStep_delivered (hjoins : PairsUsed known usage joins)
    {its : List QueryIter} {tables : List (List PlanRow)} {names aliases : List Identifier}
    (h : List.Forall₂ (Delivered known usage) its tables)
    (haliases : List.Forall₂ UnderAlias its aliases)
    (hlhs : Delivered known usage lhs as) (hseen : ∀ f ∈ as, Seen known usage f)
    (hnames : ∀ c ∈ lhs.getColumns, c.tableAlias ∈ names) (hnodup : (names ++ aliases).Nodup) :
    Delivered known usage (its.foldl (joinStep usage joins) lhs)
      (tables.foldl (matching (joinSources joins)) as) := by
  induction h generalizing lhs as names aliases with
  | nil => exact hlhs
  | @cons rhs bs its tables hrhs _ ih =>
      cases haliases with
      | @cons _ tableAlias _ aliases halias haliases =>
          have hnew : tableAlias ∉ names := fun hmem =>
            (List.nodup_append.mp hnodup).2.2 _ hmem _ List.mem_cons_self rfl
          have happart : ∀ d ∈ lhs.getColumns, d.tableAlias ≠ tableAlias :=
            fun d hd heq => hnew (heq ▸ hnames d hd)
          have hstep : Delivered known usage (joinStep usage joins lhs rhs)
              (matching (joinSources joins) as bs) :=
            joinStep_delivered hlhs hrhs
              (fun _ _ _ _ hl hr => agree_eq_sources hjoins halias happart hl hr)
              fun f hf g _ => (hseen f hf).merge_left
          rw [List.append_cons] at hnodup
          refine ih haliases hstep (fun r hr => ?_) (fun d hd => ?_) hnodup
          · obtain ⟨f, hf, hr⟩ := List.mem_flatMap.mp hr
            obtain ⟨g, _, rfl⟩ := List.mem_map.mp hr
            exact (hseen f hf).merge_left
          · rw [joinStep_columns] at hd
            rcases List.mem_append.mp hd with hd | hd
            · exact List.mem_append_left _ (hnames d (List.mem_of_mem_filter hd))
            · exact List.mem_append_right _
                (List.mem_singleton.mpr (halias d (List.mem_of_mem_filter hd)))

end Joins

end Iic3413Db.Query
