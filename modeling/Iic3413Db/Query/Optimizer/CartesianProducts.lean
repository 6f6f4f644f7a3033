/-
  Query/Optimizer/CartesianProducts.lean --- the records of a chain of cartesian
  products.

  A record without values ends a scan.  The first product of the chain makes such
  records when the query uses no column of its two children; with a column in use
  there, every later product has one.
-/
import Iic3413Db.Query.Optimizer.Lowering
import Mathlib.Algebra.BigOperators.Group.List.Basic

set_option autoImplicit false

namespace Iic3413Db.Query

open Iic3413Db.RelationalModel
open QueryIter

/-- The columns in use of one record of each child, in every way. -/
def combinations (usage : ColumnUsage) : List Child → List (List Value)
  | [] => [[]]
  | c :: cs => c.rows.flatMap fun r =>
      (combinations usage cs).map (usedValues usage c.iter.getColumns r.values ++ ·)

/-- The scan delivers one record for each combination. -/
def EveryCombination (usage : ColumnUsage) (children : List Child) (it : QueryIter) : Prop :=
  ∃ out, Drains it out ∧ out.length = (children.map fun c => c.rows.length).prod ∧
    out.Perm ((combinations usage children).map Record.mk)

theorem combinations_length (usage : ColumnUsage) (children : List Child) :
    (combinations usage children).length = (children.map fun c => c.rows.length).prod := by
  induction children with
  | nil => rfl
  | cons c cs ih =>
      simp only [combinations, List.length_flatMap, List.length_map, ih, List.map_cons,
        List.prod_cons, List.map_const', List.sum_replicate, smul_eq_mul]

/-! ## One product -/

section Step

variable {usage : ColumnUsage} {lhs rhs : QueryIter} {ls rs : List Record}

/-- The records of a product. -/
def productRows (usage : ColumnUsage) (lhs rhs : QueryIter) (ls rs : List Record) : List Record :=
  ls.flatMap fun l => rs.map fun r =>
    ⟨usedValues usage lhs.getColumns l.values ++ usedValues usage rhs.getColumns r.values⟩

theorem productRows_eq (hls : Aligned lhs ls) (hrs : Aligned rhs rs) :
    (ls.flatMap fun l => rs.filterMap fun r => some (paired (projectedColumns usage lhs.getColumns)
      (projectedColumns usage rhs.getColumns) l r)) = productRows usage lhs rhs ls rs := by
  refine List.flatMap_congr fun l hl => ?_
  rw [List.filterMap_eq_map']
  refine List.map_congr_left fun r hr => ?_
  rw [paired, picked_projectedColumns (hls l hl), picked_projectedColumns (hrs r hr)]

theorem productStep_loop (hls : Aligned lhs ls) (hrs : Aligned rhs rs) :
    NestedLoop (fun l r => .cartesianProduct l r (projectedColumns usage lhs.getColumns)
        (projectedColumns usage rhs.getColumns))
      (fun l r => some (paired (projectedColumns usage lhs.getColumns)
        (projectedColumns usage rhs.getColumns) l r)) ls rs :=
  nestedLoop_product (fun l hl => projectedColumns_inside (hls l hl))
    fun r hr => projectedColumns_inside (hrs r hr)

theorem productStep_columns :
    (productStep usage lhs rhs).getColumns =
      lhs.getColumns.filter usage.uses ++ rhs.getColumns.filter usage.uses := by
  rw [productStep, getColumns, projectedColumns_col, projectedColumns_col]

theorem productRows_length (hls : Aligned lhs ls) (hrs : Aligned rhs rs) :
    Aligned (productStep usage lhs rhs) (productRows usage lhs rhs ls rs) := by
  intro r hr
  obtain ⟨l, hl, hr⟩ := List.mem_flatMap.mp hr
  obtain ⟨r', hr', rfl⟩ := List.mem_map.mp hr
  rw [productStep_columns, List.length_append, List.length_append, usedValues_length (hls l hl),
    usedValues_length (hrs r' hr')]

/-- The records of the product have values, if there are any. -/
def Visible (usage : ColumnUsage) (lhs rhs : QueryIter) (ls rs : List Record) : Prop :=
  (∃ c ∈ lhs.getColumns ++ rhs.getColumns, usage.uses c = true) ∨ ls = [] ∨ rs = []

theorem productStep_delivers (hlhs : Delivers lhs ls) (hls : Aligned lhs ls)
    (hrhs : Delivers rhs rs) (hrs : Aligned rhs rs) (h : Visible usage lhs rhs ls rs) :
    Delivers (productStep usage lhs rhs) (productRows usage lhs rhs ls rs) := by
  rw [← productRows_eq hls hrs]
  refine (productStep_loop hls hrs).delivers ?_ Record.empty false hlhs hrhs
  rintro l hl r hr s hs
  obtain rfl := Option.some.inj hs
  rcases h with ⟨c, hc, huse⟩ | rfl | rfl
  · have hmem : c ∈ (lhs.getColumns ++ rhs.getColumns).filter usage.uses :=
      List.mem_filter.mpr ⟨hc, huse⟩
    have hlhs : Inside (projectedColumns usage lhs.getColumns) _ :=
      projectedColumns_inside (hls l hl)
    have hrhs : Inside (projectedColumns usage rhs.getColumns) _ :=
      projectedColumns_inside (hrs r hr)
    have hlength := paired_length hlhs hrhs
    rw [← List.length_map (f := ProjectedColumn.col), projectedColumns_col,
      ← List.length_map (f := ProjectedColumn.col), projectedColumns_col, ← List.length_append,
      ← List.filter_append] at hlength
    rw [Record.invalid, List.isEmpty_eq_false_iff, ← List.length_pos_iff, hlength]
    exact List.length_pos_of_mem hmem
  · cases hl
  · cases hr

/-- A product that makes records without values ends with the first of them. -/
theorem productStep_stops (hlhs : Delivers lhs ls) (hls : Aligned lhs ls)
    (hrhs : Delivers rhs rs) (hrs : Aligned rhs rs) (h : ¬ Visible usage lhs rhs ls rs) :
    Drains (productStep usage lhs rhs) [] := by
  obtain ⟨hunused, hne, hne'⟩ := not_or.mp h |>.imp id not_or.mp
  refine (productStep_loop hls hrs).stops Record.empty false hlhs.drains hrhs hne hne' ?_
  have hnone : ∀ c ∈ lhs.getColumns ++ rhs.getColumns, usage.uses c = false := fun c hc =>
    Bool.eq_false_iff.mpr fun huse => hunused ⟨c, hc, huse⟩
  intro l hl r hr
  refine ⟨_, rfl, ?_⟩
  rw [Record.invalid, paired, picked_projectedColumns (hls l hl),
    picked_projectedColumns (hrs r hr), usedValues_none, usedValues_none]
  · rfl
  · exact fun c hc => hnone c (List.mem_append_right _ hc)
  · exact fun c hc => hnone c (List.mem_append_left _ hc)

theorem productStep_drains_nil (hlhs : Drains lhs []) (hrhs : Delivers rhs rs)
    (hrs : Aligned rhs rs) : Drains (productStep usage lhs rhs) [] := by
  have hls : Aligned lhs [] := fun l hl => nomatch hl
  exact (productStep_loop hls hrs).drains (fun l hl => nomatch hl) Record.empty false hlhs hrhs

end Step

/-! ## The chain -/

section Chain

variable {usage : ColumnUsage}

/-- Once a product has a column in use, the chain delivers every combination. -/
theorem chain_delivers (cs : List Child) {lhs : QueryIter} {ls : List Record}
    (hlhs : Delivers lhs ls) (hls : Aligned lhs ls)
    (hused : ∀ c ∈ lhs.getColumns, usage.uses c = true) (hne : lhs.getColumns ≠ [] ∨ ls = []) :
    Delivers ((cs.map Child.iter).foldl (productStep usage) lhs)
      (ls.flatMap fun l => (combinations usage cs).map fun vs => ⟨l.values ++ vs⟩) := by
  induction cs generalizing lhs ls with
  | nil =>
      have heq : (ls.flatMap fun l => [Record.mk (l.values ++ [])]) = ls := by simp
      rw [combinations, List.map_nil, List.foldl_nil]
      exact heq.symm ▸ hlhs
  | cons c cs ih =>
      have hvisible : Visible usage lhs c.iter ls c.rows := by
        rcases hne with hne | rfl
        · obtain ⟨d, hd⟩ := List.exists_mem_of_ne_nil _ hne
          exact .inl ⟨d, List.mem_append_left _ hd, hused d hd⟩
        · exact .inr (.inl rfl)
      have hstep := productStep_delivers hlhs hls c.delivers c.aligned hvisible
      have hcols : ∀ d ∈ (productStep usage lhs c.iter).getColumns, usage.uses d = true := by
        rw [productStep_columns, ← List.filter_append]
        exact fun d hd => (List.mem_filter.mp hd).2
      have hne' : (productStep usage lhs c.iter).getColumns ≠ [] ∨
          productRows usage lhs c.iter ls c.rows = [] := by
        rcases hne with hne | rfl
        · rw [productStep_columns, List.filter_eq_self.mpr hused]
          exact .inl fun h => hne (List.append_eq_nil_iff.mp h).1
        · exact .inr rfl
      have hrest := ih hstep (productRows_length hls c.aligned) hcols hne'
      rw [List.map_cons, List.foldl_cons]
      convert hrest using 1
      simp only [productRows, combinations, List.flatMap_assoc, List.map_flatMap,
        List.flatMap_map, List.map_map]
      refine List.flatMap_congr fun l hl => List.flatMap_congr fun r _ => ?_
      refine List.map_congr_left fun vs _ => ?_
      rw [Function.comp_apply, usedValues_all (hls l hl) hused, List.append_assoc]

theorem chain_drains_nil (cs : List Child) {lhs : QueryIter} (hlhs : Drains lhs []) :
    Drains ((cs.map Child.iter).foldl (productStep usage) lhs) [] := by
  induction cs generalizing lhs with
  | nil => exact hlhs
  | cons c cs ih => exact ih (productStep_drains_nil hlhs c.delivers c.aligned)

end Chain

/-! ## The scan of the whole product -/

section Scan

variable {usage : ColumnUsage} {it : QueryIter}

theorem everyCombination_of_chain {c d : Child} {cs : List Child}
    (h : Visible usage c.iter d.iter c.rows d.rows) :
    EveryCombination usage (c :: d :: cs)
      (((d :: cs).map Child.iter).foldl (productStep usage) c.iter) := by
  have hstep := productStep_delivers c.delivers c.aligned d.delivers d.aligned h
  have haligned : Aligned (productStep usage c.iter d.iter) _ :=
    productRows_length c.aligned d.aligned
  have hused : ∀ x ∈ (productStep usage c.iter d.iter).getColumns, usage.uses x = true := by
    rw [productStep_columns, ← List.filter_append]
    exact fun x hx => (List.mem_filter.mp hx).2
  have hne : (productStep usage c.iter d.iter).getColumns ≠ [] ∨
      productRows usage c.iter d.iter c.rows d.rows = [] := by
    rw [productStep_columns, ← List.filter_append]
    rcases h with ⟨x, hx, huse⟩ | hc | hd
    · exact .inl (List.ne_nil_of_mem (List.mem_filter.mpr ⟨hx, huse⟩))
    · exact .inr (by simp [productRows, hc])
    · exact .inr (by simp [productRows, hd])
  have heq : ((productRows usage c.iter d.iter c.rows d.rows).flatMap fun l =>
      (combinations usage cs).map fun vs => Record.mk (l.values ++ vs)) =
      (combinations usage (c :: d :: cs)).map Record.mk := by
    simp only [productRows, combinations, List.flatMap_assoc, List.map_flatMap,
      List.flatMap_map, List.map_map]
    refine List.flatMap_congr fun l _ => List.flatMap_congr fun r _ => ?_
    exact List.map_congr_left fun vs _ => congrArg Record.mk (List.append_assoc ..)
  have hchain := (chain_delivers cs hstep haligned hused hne).drains
  rw [heq] at hchain
  refine ⟨_, hchain, ?_, .refl _⟩
  rw [List.length_map, combinations_length]

/-- A scan without records is complete when some child has none. -/
theorem everyCombination_of_nil {children : List Child} (h : Drains it []) :
    EveryCombination usage children it ↔ ∃ c ∈ children, c.rows = [] := by
  have hprod : (children.map fun c => c.rows.length).prod = 0 ↔ ∃ c ∈ children, c.rows = [] := by
    rw [List.prod_eq_zero_iff, List.mem_map]
    refine exists_congr fun c => and_congr_right fun _ => ?_
    exact List.length_eq_zero_iff
  rw [← hprod]
  constructor
  · rintro ⟨out, hout, hlength, _⟩
    rw [← hlength, hout.unique h]
    rfl
  · intro hzero
    refine ⟨[], h, hzero.symm, ?_⟩
    have hnil : combinations usage children = [] :=
      List.length_eq_zero_iff.mp ((combinations_length usage children).trans hzero)
    rw [hnil]
    exact .refl _

/-- The condition under which the scan is complete. -/
theorem everyCombination_iff (usage : ColumnUsage) (children : List Child)
    (h : 2 ≤ children.length) :
    ∃ it, visitCartesianProduct usage (children.map Child.iter) = .ok it ∧
      (EveryCombination usage children it ↔
        (∃ c ∈ children.take 2, ∃ col ∈ c.iter.getColumns, usage.uses col = true) ∨
          ∃ c ∈ children, c.rows = []) := by
  match children, h with
  | c :: d :: cs, _ =>
      have hcolumns : (∃ x ∈ (c :: d :: cs).take 2, ∃ col ∈ x.iter.getColumns,
          usage.uses col = true) ↔
          ∃ col ∈ c.iter.getColumns ++ d.iter.getColumns, usage.uses col = true := by
        simp [List.mem_append, or_and_right, exists_or]
      refine ⟨_, rfl, ?_⟩
      rw [hcolumns]
      by_cases hvisible : Visible usage c.iter d.iter c.rows d.rows
      · refine iff_of_true (everyCombination_of_chain hvisible) ?_
        rcases hvisible with hused | hc | hd
        · exact .inl hused
        · exact .inr ⟨c, List.mem_cons_self, hc⟩
        · exact .inr ⟨d, List.mem_cons_of_mem c List.mem_cons_self, hd⟩
      · have hstop := productStep_stops c.delivers c.aligned d.delivers d.aligned hvisible
        exact (everyCombination_of_nil (chain_drains_nil cs hstop)).trans
          (or_iff_right fun hused => hvisible (.inl hused)).symm

end Scan

/-- `SELECT x.a FROM t x, t y`. -/
theorem everyCombination_iff_two :
    ∃ it, visitCartesianProduct (usesOnly [120]) ([oneRow [120] 1, oneRow [121] 2].map Child.iter) =
      .ok it ∧ EveryCombination (usesOnly [120]) [oneRow [120] 1, oneRow [121] 2] it := by
  obtain ⟨it, hit, hiff⟩ :=
    everyCombination_iff (usesOnly [120]) [oneRow [120] 1, oneRow [121] 2] le_rfl
  refine ⟨it, hit, hiff.mpr (.inl ⟨_, List.mem_cons_self, _, List.mem_cons_self, ?_⟩)⟩
  decide

/-- `SELECT z.a FROM t x, t y, t z`. -/
theorem everyCombination_fails :
    ¬ ∀ (usage : ColumnUsage) (children : List Child), 2 ≤ children.length →
      ∃ it, visitCartesianProduct usage (children.map Child.iter) = .ok it ∧
        EveryCombination usage children it := by
  intro h
  obtain ⟨it, hit, out, hout, hlength, _⟩ :=
    h (usesOnly [122]) [oneRow [120] 1, oneRow [121] 2, oneRow [122] 3] (by decide)
  obtain rfl := Except.ok.inj hit
  have hstop : Drains (productStep (usesOnly [122]) (oneRow [120] 1).iter (oneRow [121] 2).iter)
      [] := by
    refine productStep_stops (oneRow [120] 1).delivers (oneRow [120] 1).aligned
      (oneRow [121] 2).delivers (oneRow [121] 2).aligned ?_
    simp [Visible, oneRow, getColumns, usesOnly, ColumnUsage.uses, Column.key]
  obtain rfl := hout.unique (chain_drains_nil [oneRow [122] 3] hstop)
  simp [oneRow] at hlength

end Iic3413Db.Query
