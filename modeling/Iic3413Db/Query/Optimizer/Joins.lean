/-
  Query/Optimizer/Joins.lean --- the chain of joins of `visit(JoinPlan&)`, for
  every order of the children.

  A record of the chain is a row, a map from columns to values.  After each step
  the rows are those of the product of the children joined so far in which the
  equalities hold, kept to the columns in use; the columns of the equalities are
  among them, so a later step finds the values it compares.
-/
import Iic3413Db.Query.Optimizer.Lowering
import Iic3413Db.Foundation.Rows

set_option autoImplicit false

namespace Iic3413Db.Query

open Iic3413Db.Foundation Iic3413Db.RelationalModel
open QueryIter

/-! ## Usage counters -/

/-- A pair of `join_columns`. -/
abbrev JoinPair : Type := Column × Column

namespace ColumnUsage

/-- `column_usage[c] += 1`. -/
def add (usage : ColumnUsage) (c : Column) : ColumnUsage :=
  Function.update usage c.key (usage c.key + 1)

/-- `column_usage[c] -= 1`. -/
def remove (usage : ColumnUsage) (c : Column) : ColumnUsage :=
  Function.update usage c.key (usage c.key - 1)

/-- The loop before the children are visited. -/
def addAll (usage : ColumnUsage) (joins : List JoinPair) : ColumnUsage :=
  joins.foldl (fun usage p => (usage.add p.1).add p.2) usage

/-- The loop after the last join. -/
def removeAll (usage : ColumnUsage) (joins : List JoinPair) : ColumnUsage :=
  joins.foldl (fun usage p => (usage.remove p.1).remove p.2) usage

/-- The columns of `join_columns`, as often as they stand there. -/
def mentions (joins : List JoinPair) : List ColumnKey := joins.flatMap fun p => [p.1.key, p.2.key]

theorem add_apply (usage : ColumnUsage) (c : Column) (k : ColumnKey) :
    usage.add c k = usage k + [c.key].count k := by
  by_cases hk : k = c.key
  · simp [add, hk]
  · simp [add, hk, Ne.symm hk]

theorem remove_apply (usage : ColumnUsage) (c : Column) (k : ColumnKey) :
    usage.remove c k = usage k - [c.key].count k := by
  by_cases hk : k = c.key
  · simp [remove, hk]
  · simp [remove, hk, Ne.symm hk]

theorem mentions_cons (p : JoinPair) (joins : List JoinPair) (k : ColumnKey) :
    (mentions (p :: joins)).count k =
      [p.1.key].count k + [p.2.key].count k + (mentions joins).count k := by
  have hsplit : mentions (p :: joins) = [p.1.key] ++ [p.2.key] ++ mentions joins := rfl
  rw [hsplit, List.count_append, List.count_append]

theorem addAll_apply (usage : ColumnUsage) (joins : List JoinPair) (k : ColumnKey) :
    usage.addAll joins k = usage k + (mentions joins).count k := by
  induction joins generalizing usage with
  | nil => rfl
  | cons p joins ih =>
      have hstep : usage.addAll (p :: joins) = ((usage.add p.1).add p.2).addAll joins := rfl
      rw [hstep, ih, add_apply, add_apply, mentions_cons]
      omega

theorem removeAll_apply (usage : ColumnUsage) (joins : List JoinPair) (k : ColumnKey) :
    usage.removeAll joins k = usage k - (mentions joins).count k := by
  induction joins generalizing usage with
  | nil => rfl
  | cons p joins ih =>
      have hstep : usage.removeAll (p :: joins) = ((usage.remove p.1).remove p.2).removeAll joins :=
        rfl
      rw [hstep, ih, remove_apply, remove_apply, mentions_cons]
      omega

/-- The counters after the visit are those before it. -/
theorem removeAll_addAll (usage : ColumnUsage) (joins : List JoinPair) :
    (usage.addAll joins).removeAll joins = usage := by
  funext k
  rw [removeAll_apply, addAll_apply, Nat.add_sub_cancel]

/-- The keys in use. -/
def keeps (usage : ColumnUsage) (k : ColumnKey) : Bool := decide (0 < usage k)

theorem keeps_addAll {usage : ColumnUsage} {joins : List JoinPair} {k : ColumnKey}
    (h : usage.keeps k = true) : (usage.addAll joins).keeps k = true := by
  have hpos : 0 < usage k := of_decide_eq_true h
  refine decide_eq_true ?_
  rw [addAll_apply]
  exact Nat.add_pos_left hpos _

theorem addAll_keeps {usage : ColumnUsage} {joins : List JoinPair} {p : JoinPair} (h : p ∈ joins) :
    (usage.addAll joins).keeps p.1.key = true ∧ (usage.addAll joins).keeps p.2.key = true := by
  have hmem : ∀ k ∈ [p.1.key, p.2.key], (usage.addAll joins).keeps k = true := by
    intro k hk
    refine decide_eq_true ?_
    rw [addAll_apply]
    exact Nat.add_pos_right _ (List.count_pos_iff.mpr (List.mem_flatMap.mpr ⟨p, h, hk⟩))
  exact ⟨hmem _ List.mem_cons_self, hmem _ (List.mem_cons_of_mem _ List.mem_cons_self)⟩

end ColumnUsage

/-! ## Joins -/

/-- Both positions. -/
def bothFound : Option Nat → Option Nat → Option (Nat × Nat)
  | some i, some j => some (i, j)
  | _, _ => none

/-- The turn of one pair in the loop that fills `equalities`. -/
def equality (lhsColumns rhsColumns : List Column) (p : JoinPair) : Option (Nat × Nat) :=
  match lhsColumns, rhsColumns with
  | _ :: _, r :: _ =>
      if p.1.tableAlias = r.tableAlias then
        bothFound (findColumn lhsColumns p.2) (findColumn rhsColumns p.1)
      else bothFound (findColumn lhsColumns p.1) (findColumn rhsColumns p.2)
  | _, _ => none

/-- The projected columns and the `equalities` of one turn. -/
def stepColumns (usage : ColumnUsage) (joins : List JoinPair) (lhs rhs : QueryIter) : JoinColumns :=
  ⟨projectedColumns usage lhs.getColumns, projectedColumns usage rhs.getColumns,
    joins.filterMap (equality lhs.getColumns rhs.getColumns)⟩

/-- One turn of the loop of `visit(JoinPlan&)`. -/
def joinStep (usage : ColumnUsage) (joins : List JoinPair) (lhs rhs : QueryIter) : QueryIter :=
  if (stepColumns usage joins lhs rhs).equalities.isEmpty then productStep usage lhs rhs
  else .join lhs rhs (stepColumns usage joins lhs rhs) Record.empty false

/-- The children in the order of the beam search. -/
def reorder (order : List Nat) (children : List QueryIter) : Outcome (List QueryIter) :=
  order.mapM fun i =>
    match children[i]? with
    | some c => .ok c
    | none => .error (.undefinedBehaviour "join.children[idx]")

/-- `visit(JoinPlan&)`, with the order `beam_search_join_order` returns: the
iterator and `column_usage` after it. -/
def visitJoin (order : List Nat) (usage : ColumnUsage) (joins : List JoinPair)
    (children : List QueryIter) : Outcome (QueryIter × ColumnUsage) := do
  let counted := usage.addAll joins
  match ← reorder order children with
  | [] => .error (.undefinedBehaviour "join.children[0]")
  | c :: cs => .ok (cs.foldl (joinStep counted joins) c, counted.removeAll joins)

/-! ## Records as rows -/

/-- The row of a record. -/
def rowOf (it : QueryIter) (r : Record) : Row ColumnKey Value :=
  Row.zip (it.getColumns.map Column.key) r.values

/-- The pairs of keys that have to be equal. -/
def joinKeys (joins : List JoinPair) : List (ColumnKey × ColumnKey) :=
  joins.map fun p => (p.1.key, p.2.key)

section OneEquality

variable {columns lhsColumns rhsColumns : List Column} {c : Column} {p : JoinPair}

theorem findColumn_eq (columns : List Column) (c : Column) :
    findColumn columns c = (columns.map Column.key).findIdx? fun k => decide (k = c.key) := by
  rw [List.findIdx?_map]
  rfl

theorem findColumn_none (h : findColumn columns c = none) : c.key ∉ columns.map Column.key := by
  rw [findColumn_eq, List.findIdx?_eq_none_iff] at h
  exact fun hmem => of_decide_eq_false (h _ hmem) rfl

theorem findColumn_some {i : Nat} (h : findColumn columns c = some i) :
    c.key ∈ columns.map Column.key := by
  rw [findColumn_eq] at h
  obtain ⟨hlt, hi, _⟩ := List.findIdx?_eq_some_iff_getElem.mp h
  rw [← of_decide_eq_true hi]
  exact List.getElem_mem hlt

/-- What the swap test decides, in a child of one alias. -/
theorem equality_eq {tableAlias : List UInt8} (h : ∀ c ∈ rhsColumns, c.tableAlias = tableAlias) :
    equality lhsColumns rhsColumns p =
      if p.1.tableAlias = tableAlias then
        bothFound (findColumn lhsColumns p.2) (findColumn rhsColumns p.1)
      else bothFound (findColumn lhsColumns p.1) (findColumn rhsColumns p.2) := by
  cases lhsColumns with
  | nil =>
      have hnone : ∀ c : Column, findColumn [] c = none := fun _ => rfl
      simp only [equality, hnone, bothFound, ite_self]
  | cons l ls =>
      cases rhsColumns with
      | nil =>
          have hnone : ∀ c : Column, findColumn [] c = none := fun _ => rfl
          have hright : ∀ o, bothFound o none = none := fun o => by cases o <;> rfl
          simp only [equality, hnone, hright, ite_self]
      | cons r rs => simp only [equality, h r List.mem_cons_self]

theorem bothFound_isSome {i j : Option Nat} :
    (bothFound i j).isSome = true ↔ i.isSome = true ∧ j.isSome = true := by
  cases i with
  | none => simp [bothFound]
  | some i =>
      cases j with
      | none => simp [bothFound]
      | some j => simp [bothFound]

theorem findColumn_isSome :
    (findColumn columns c).isSome = true ↔ c.key ∈ columns.map Column.key := by
  cases hfind : findColumn columns c with
  | none => simp [findColumn_none hfind]
  | some i => simpa using findColumn_some hfind

theorem key_not_mem {tableAlias : List UInt8} {k : ColumnKey}
    (h : ∀ c ∈ columns, c.tableAlias ≠ tableAlias) (hk : k.1 = tableAlias) :
    k ∉ columns.map Column.key := by
  intro hmem
  obtain ⟨c, hc, rfl⟩ := List.mem_map.mp hmem
  exact h c hc hk

theorem key_not_mem' {tableAlias : List UInt8} {k : ColumnKey}
    (h : ∀ c ∈ columns, c.tableAlias = tableAlias) (hk : k.1 ≠ tableAlias) :
    k ∉ columns.map Column.key := by
  intro hmem
  obtain ⟨c, hc, rfl⟩ := List.mem_map.mp hmem
  exact hk (h c hc)

/-- The pair is compared where one of its columns is on either side. -/
theorem equality_isSome {tableAlias : List UInt8} (hr : ∀ c ∈ rhsColumns, c.tableAlias = tableAlias)
    (hl : ∀ c ∈ lhsColumns, c.tableAlias ≠ tableAlias) :
    (equality lhsColumns rhsColumns p).isSome = true ↔
      (p.1.key ∈ lhsColumns.map Column.key ∧ p.2.key ∈ rhsColumns.map Column.key) ∨
        (p.2.key ∈ lhsColumns.map Column.key ∧ p.1.key ∈ rhsColumns.map Column.key) := by
  rw [equality_eq hr]
  split
  · rename_i hswap
    have hout : p.1.key ∉ lhsColumns.map Column.key := key_not_mem hl hswap
    simp [bothFound_isSome, findColumn_isSome, hout]
  · rename_i hswap
    have hout : p.1.key ∉ rhsColumns.map Column.key := key_not_mem' hr hswap
    simp [bothFound_isSome, findColumn_isSome, hout]

/-- The comparison of two positions, as one of two rows. -/
theorem bothFound_sameValue {c d : Column} {l r : List Value} (hl : l.length = lhsColumns.length)
    (hr : r.length = rhsColumns.length) :
    (bothFound (findColumn lhsColumns c) (findColumn rhsColumns d)).all
        (fun e => decide (l[e.1]? = r[e.2]?)) =
      Row.sameValue (Row.zip (lhsColumns.map Column.key) l c.key)
        (Row.zip (rhsColumns.map Column.key) r d.key) := by
  cases hc : findColumn lhsColumns c with
  | none =>
      rw [Row.zip_eq_none (findColumn_none hc), Row.none_sameValue]
      rfl
  | some i =>
      cases hd : findColumn rhsColumns d with
      | none =>
          rw [Row.zip_eq_none (findColumn_none hd), Row.sameValue_none]
          rfl
      | some j =>
          rw [findColumn_eq] at hc hd
          obtain ⟨hvc, hi⟩ := Row.zip_findIdx (hl.trans (List.length_map ..).symm) hc
          obtain ⟨hvd, hj⟩ := Row.zip_findIdx (hr.trans (List.length_map ..).symm) hd
          rw [hvc, hvd, List.getElem?_eq_getElem hi, List.getElem?_eq_getElem hj]
          simp [bothFound, Row.sameValue, List.getElem?_eq_getElem hi, List.getElem?_eq_getElem hj]

/-- The equalities of one step, as those between two rows. -/
theorem agree_eq_meets {tableAlias : List UInt8} (joins : List JoinPair) {l r : Record}
    (hl : l.values.length = lhsColumns.length) (hr : r.values.length = rhsColumns.length)
    (hrhs : ∀ c ∈ rhsColumns, c.tableAlias = tableAlias)
    (hlhs : ∀ c ∈ lhsColumns, c.tableAlias ≠ tableAlias) :
    agree (joins.filterMap (equality lhsColumns rhsColumns)) l r =
      Row.meets (joinKeys joins) (Row.zip (lhsColumns.map Column.key) l.values)
        (Row.zip (rhsColumns.map Column.key) r.values) := by
  have hall : agree (joins.filterMap (equality lhsColumns rhsColumns)) l r =
      joins.all fun p => (equality lhsColumns rhsColumns p).all fun e =>
        decide (l.values[e.1]? = r.values[e.2]?) := by
    rw [agree, List.all_filterMap]
    rfl
  rw [hall, Row.meets, joinKeys, List.all_map, Bool.eq_iff_iff, List.all_eq_true,
    List.all_eq_true]
  refine forall₂_congr fun p _ => ?_
  rw [← Bool.eq_iff_iff, Function.comp_apply, equality_eq hrhs]
  by_cases hswap : p.1.tableAlias = tableAlias
  · have hout : p.1.key ∉ lhsColumns.map Column.key := key_not_mem hlhs hswap
    rw [if_pos hswap, Row.zip_eq_none hout, Row.none_sameValue, Bool.true_and, Row.sameValue_comm]
    exact bothFound_sameValue hl hr
  · have hout : p.1.key ∉ rhsColumns.map Column.key := key_not_mem' hrhs hswap
    rw [if_neg hswap, Row.zip_eq_none hout, Row.none_sameValue, Bool.and_true]
    exact bothFound_sameValue hl hr

end OneEquality

/-! ## One step -/

/-- A child under one alias. -/
structure AliasedChild extends Child where
  tableAlias : List UInt8
  ofAlias : ∀ c ∈ iter.getColumns, c.tableAlias = tableAlias

namespace AliasedChild

/-- Its columns. -/
def keys (c : AliasedChild) : List ColumnKey := c.iter.getColumns.map Column.key

/-- Its records, as rows. -/
def rowMaps (c : AliasedChild) : List (Row ColumnKey Value) := c.rows.map (rowOf c.iter)

end AliasedChild

section Step

variable {usage : ColumnUsage} {joins : List JoinPair} {lhs : QueryIter} {ls : List Record}
  {c : AliasedChild}

/-- The records of one step. -/
def joinRows (usage : ColumnUsage) (joins : List JoinPair) (lhs rhs : QueryIter)
    (ls rs : List Record) : List Record :=
  ls.flatMap fun l => rs.filterMap (joined (stepColumns usage joins lhs rhs) l)

theorem joinStep_columns (lhs rhs : QueryIter) :
    (joinStep usage joins lhs rhs).getColumns =
      lhs.getColumns.filter usage.uses ++ rhs.getColumns.filter usage.uses := by
  unfold joinStep
  split
  · rw [productStep, getColumns, projectedColumns_col, projectedColumns_col]
  · rw [getColumns, stepColumns, projectedColumns_col, projectedColumns_col]

/-- The values of a pair of records are those in use. -/
theorem paired_eq {rhs : QueryIter} {l r : Record}
    (hl : l.values.length = lhs.getColumns.length) (hr : r.values.length = rhs.getColumns.length) :
    paired (projectedColumns usage lhs.getColumns) (projectedColumns usage rhs.getColumns) l r =
      ⟨usedValues usage lhs.getColumns l.values ++ usedValues usage rhs.getColumns r.values⟩ := by
  rw [paired, picked_projectedColumns hl, picked_projectedColumns hr]

/-- The positions of an equality are inside the records. -/
theorem equality_inside {lhsColumns rhsColumns : List Column} {p : JoinPair} {e : Nat × Nat}
    (h : equality lhsColumns rhsColumns p = some e) :
    e.1 < lhsColumns.length ∧ e.2 < rhsColumns.length := by
  have hfound : ∀ {columns : List Column} {d : Column} {i : Nat},
      findColumn columns d = some i → i < columns.length := by
    intro columns d i hi
    exact (List.findIdx?_eq_some_iff_getElem.mp hi).1
  have hboth : ∀ {c d : Column},
      bothFound (findColumn lhsColumns c) (findColumn rhsColumns d) = some e →
        e.1 < lhsColumns.length ∧ e.2 < rhsColumns.length := by
    intro c d he
    cases hi : findColumn lhsColumns c with
    | none =>
        rw [hi] at he
        cases he
    | some i =>
        cases hj : findColumn rhsColumns d with
        | none =>
            rw [hi, hj] at he
            cases he
        | some j =>
            rw [hi, hj] at he
            obtain rfl := Option.some.inj he
            exact ⟨hfound hi, hfound hj⟩
  unfold equality at h
  split at h
  · split at h
    · exact hboth h
    · exact hboth h
  · cases h

theorem joinStep_delivers (hlhs : Delivers lhs ls) (hls : Aligned lhs ls)
    (hused : ∃ col ∈ c.iter.getColumns, usage.uses col = true) :
    Delivers (joinStep usage joins lhs c.iter) (joinRows usage joins lhs c.iter ls c.rows) := by
  have hinside : ∀ l ∈ ls, Inside (projectedColumns usage lhs.getColumns) l.values.length :=
    fun l hl => projectedColumns_inside (hls l hl)
  have hinside' : ∀ r ∈ c.rows,
      Inside (projectedColumns usage c.iter.getColumns) r.values.length :=
    fun r hr => projectedColumns_inside (c.aligned r hr)
  have hvalid : ∀ l ∈ ls, ∀ r ∈ c.rows, ∀ s,
      joined (stepColumns usage joins lhs c.iter) l r = some s → s.invalid = false := by
    intro l hl r hr s hs
    obtain ⟨col, hcol, huse⟩ := hused
    have hmem : col ∈ c.iter.getColumns.filter usage.uses := List.mem_filter.mpr ⟨hcol, huse⟩
    unfold joined at hs
    split at hs
    · obtain rfl := Option.some.inj hs
      rw [stepColumns, paired_eq (hls l hl) (c.aligned r hr), Record.invalid,
        List.isEmpty_eq_false_iff, ← List.length_pos_iff, List.length_append,
        usedValues_length (c.aligned r hr)]
      exact Nat.add_pos_right _ (List.length_pos_of_mem hmem)
    · cases hs
  unfold joinStep
  split
  · rename_i hempty
    have hnil : joins.filterMap (equality lhs.getColumns c.iter.getColumns) = [] :=
      List.isEmpty_iff.mp hempty
    have hjoined : joined (stepColumns usage joins lhs c.iter) = fun l r =>
        some (paired (projectedColumns usage lhs.getColumns)
          (projectedColumns usage c.iter.getColumns) l r) := by
      funext l r
      rw [joined, stepColumns, hnil]
      rfl
    rw [hjoined] at hvalid
    rw [joinRows, hjoined]
    exact (nestedLoop_product hinside hinside').delivers hvalid Record.empty false hlhs c.delivers
  · refine (nestedLoop_join hinside hinside' fun e he => ?_).delivers hvalid Record.empty false
      hlhs c.delivers
    obtain ⟨p, _, hp⟩ := List.mem_filterMap.mp he
    obtain ⟨hi, hj⟩ := equality_inside hp
    exact ⟨fun l hl => (hls l hl).symm ▸ hi, fun r hr => (c.aligned r hr).symm ▸ hj⟩

theorem joinRows_aligned (hls : Aligned lhs ls) :
    Aligned (joinStep usage joins lhs c.iter) (joinRows usage joins lhs c.iter ls c.rows) := by
  intro s hs
  obtain ⟨l, hl, hs⟩ := List.mem_flatMap.mp hs
  obtain ⟨r, hr, hs⟩ := List.mem_filterMap.mp hs
  unfold joined at hs
  split at hs
  · obtain rfl := Option.some.inj hs
    rw [joinStep_columns, stepColumns, paired_eq (hls l hl) (c.aligned r hr), List.length_append,
      List.length_append, usedValues_length (hls l hl), usedValues_length (c.aligned r hr)]
  · cases hs

/-- The columns in use of a record, as a row. -/
theorem zip_usedValues (columns : List Column) (values : List Value) :
    Row.zip ((columns.filter usage.uses).map Column.key) (usedValues usage columns values) =
      Row.restrict usage.keeps (Row.zip (columns.map Column.key) values) := by
  induction columns generalizing values with
  | nil =>
      funext k
      simp [Row.zip, Row.restrict, Row.nil]
  | cons c cs ih =>
      cases values with
      | nil =>
          funext k
          have hnil : ∀ ks : List ColumnKey, Row.zip ks ([] : List Value) = Row.nil := fun ks => by
            cases ks <;> rfl
          simp [usedValues, hnil, Row.restrict, Row.nil]
      | cons v vs =>
          funext k
          rw [List.filter_cons, usedValues]
          by_cases hk : k = c.key
          · cases huse : usage.uses c with
            | true =>
                have hkeeps : usage.keeps c.key = true := huse
                simp [Row.zip_cons, Row.restrict, hk, hkeeps]
            | false =>
                have hkeeps : usage.keeps c.key = false := huse
                simp [ih vs, Row.restrict, hk, hkeeps]
          · cases huse : usage.uses c with
            | true => simp [Row.zip_cons, ih vs, Row.restrict, hk]
            | false => simp [Row.zip_cons, ih vs, Row.restrict, hk]

theorem rowOf_paired {l r : Record} (hl : l.values.length = lhs.getColumns.length)
    (hr : r.values.length = c.iter.getColumns.length) :
    rowOf (joinStep usage joins lhs c.iter) (paired (projectedColumns usage lhs.getColumns)
        (projectedColumns usage c.iter.getColumns) l r) =
      Row.restrict usage.keeps ((rowOf lhs l).merge (rowOf c.iter r)) := by
  have hlength : (usedValues usage lhs.getColumns l.values).length =
      ((lhs.getColumns.filter usage.uses).map Column.key).length := by
    rw [usedValues_length hl, List.length_map]
  rw [rowOf, joinStep_columns, paired_eq hl hr, List.map_append, Row.zip_append hlength,
    zip_usedValues, zip_usedValues, Row.restrict_merge]
  rfl

/-- One step is the join of the rows of its children. -/
theorem joinRows_rows (hls : Aligned lhs ls)
    (hlhs : ∀ col ∈ lhs.getColumns, col.tableAlias ≠ c.tableAlias) :
    (joinRows usage joins lhs c.iter ls c.rows).map (rowOf (joinStep usage joins lhs c.iter)) =
      (matching (joinKeys joins) (ls.map (rowOf lhs)) c.rowMaps).map
        (Row.restrict usage.keeps) := by
  simp only [joinRows, matching, AliasedChild.rowMaps, List.map_flatMap, List.flatMap_map,
    List.filter_map, List.map_map]
  refine List.flatMap_congr fun l hl => ?_
  have hrows : ∀ rs : List Record, (∀ r ∈ rs, r ∈ c.rows) →
      (rs.filterMap (joined (stepColumns usage joins lhs c.iter) l)).map
        (rowOf (joinStep usage joins lhs c.iter)) =
      (rs.filter (Row.meets (joinKeys joins) (rowOf lhs l) ∘ rowOf c.iter)).map
        ((Row.restrict usage.keeps ∘ (rowOf lhs l).merge) ∘ rowOf c.iter) := by
    intro rs hrs
    induction rs with
    | nil => rfl
    | cons r rs ih =>
        have hmem : r ∈ c.rows := hrs r List.mem_cons_self
        have hrest := ih fun x hx => hrs x (List.mem_cons_of_mem r hx)
        have hagree : agree (stepColumns usage joins lhs c.iter).equalities l r =
            Row.meets (joinKeys joins) (rowOf lhs l) (rowOf c.iter r) :=
          agree_eq_meets joins (hls l hl) (c.aligned r hmem) c.ofAlias hlhs
        rw [List.filter_cons, Function.comp_apply, ← hagree]
        cases hmeet : agree (stepColumns usage joins lhs c.iter).equalities l r with
        | false =>
            have hnone : joined (stepColumns usage joins lhs c.iter) l r = none := by
              rw [joined, hmeet]
              rfl
            rw [List.filterMap_cons_none hnone, hrest]
            rfl
        | true =>
            have hsome : joined (stepColumns usage joins lhs c.iter) l r =
                some (paired (projectedColumns usage lhs.getColumns)
                  (projectedColumns usage c.iter.getColumns) l r) := by
              rw [joined, hmeet]
              rfl
            rw [List.filterMap_cons_some hsome, List.map_cons, hrest,
              rowOf_paired (hls l hl) (c.aligned r hmem)]
            rfl
  exact hrows c.rows fun _ hr => hr

end Step

end Iic3413Db.Query
