/-
  Query/Executor/Products.lean --- `CartesianProduct` and `Join` are nested loops.
-/
import Iic3413Db.Query.Executor.Delivers

set_option autoImplicit false

namespace Iic3413Db.Query

open Iic3413Db.RelationalModel
open QueryIter

/-! ## Two records -/

/-- The values of the projected columns, for positions inside the record. -/
def picked (projected : List ProjectedColumn) (values : List Value) : List Value :=
  projected.filterMap fun c => values[c.pos]?

/-- The positions are inside records of this length. -/
def Inside (projected : List ProjectedColumn) (n : Nat) : Prop := ∀ c ∈ projected, c.pos < n

/-- Two records in one. -/
def paired (projectedLhs projectedRhs : List ProjectedColumn) (lhs rhs : Record) : Record :=
  ⟨picked projectedLhs lhs.values ++ picked projectedRhs rhs.values⟩

/-- The equalities hold, for positions inside the records. -/
def agree (equalities : List (Nat × Nat)) (lhs rhs : Record) : Bool :=
  equalities.all fun eq => decide (lhs.values[eq.1]? = rhs.values[eq.2]?)

/-- What two records come to in a join. -/
def joined (columns : JoinColumns) (lhs rhs : Record) : Option Record :=
  if agree columns.equalities lhs rhs then some (paired columns.lhs columns.rhs lhs rhs) else none

section Records

variable {projected projectedLhs projectedRhs : List ProjectedColumn} {values : List Value}
  {l r : Record}

theorem project_eq (h : Inside projected values.length) :
    project projected values = .ok (picked projected values) := by
  induction projected with
  | nil => rfl
  | cons c cs ih =>
      have hc : c.pos < values.length := h c List.mem_cons_self
      have hrest := ih fun d hd => h d (List.mem_cons_of_mem c hd)
      have hvalue : values[c.pos]? = some values[c.pos] := List.getElem?_eq_getElem hc
      unfold project at hrest ⊢
      rw [List.mapM_cons, hrest]
      simp only [valueAt, hvalue, picked, List.filterMap_cons]
      rfl

theorem project_error {e : Fault}
    (h : project projected values = .error e) : e = .undefinedBehaviour "values[i]" := by
  induction projected with
  | nil => cases h
  | cons c cs ih =>
      rw [project, List.mapM_cons] at h
      rcases Outcome.of_bind_error h with hvalue | ⟨v, _, h⟩
      · unfold valueAt at hvalue
        split at hvalue
        · cases hvalue
        · exact (Except.error.inj hvalue).symm
      rcases Outcome.of_bind_error h with hrest | ⟨vs, _, h⟩
      · exact ih hrest
      · cases h

theorem combine_eq (hl : Inside projectedLhs l.values.length)
    (hr : Inside projectedRhs r.values.length) :
    combine projectedLhs projectedRhs l.values r.values =
      .ok (paired projectedLhs projectedRhs l r) := by
  unfold combine
  rw [project_eq hl, project_eq hr]
  rfl

theorem compatible_eq {equalities : List (Nat × Nat)}
    (h : ∀ eq ∈ equalities, eq.1 < l.values.length ∧ eq.2 < r.values.length) :
    compatible l r equalities = .ok (agree equalities l r) := by
  induction equalities with
  | nil => rfl
  | cons eq eqs ih =>
      obtain ⟨hl, hr⟩ := h eq List.mem_cons_self
      have hrest := ih fun e he => h e (List.mem_cons_of_mem eq he)
      have hleft : l.values[eq.1]? = some l.values[eq.1] := List.getElem?_eq_getElem hl
      have hright : r.values[eq.2]? = some r.values[eq.2] := List.getElem?_eq_getElem hr
      simp only [compatible, valueAt, hleft, hright, Outcome.ok_bind, hrest, agree, List.all_cons,
        Option.some.injEq]
      split
      · rename_i hne
        simp [hne]
      · rename_i heq
        simp [not_not.mp heq]

theorem picked_length (h : Inside projected values.length) :
    (picked projected values).length = projected.length := by
  induction projected with
  | nil => rfl
  | cons c cs ih =>
      have hpos : c.pos < values.length := h c List.mem_cons_self
      have hc : values[c.pos]? = some values[c.pos] := List.getElem?_eq_getElem hpos
      have hrest := ih fun d hd => h d (List.mem_cons_of_mem c hd)
      unfold picked at hrest ⊢
      simp only [List.filterMap_cons, hc, List.length_cons, hrest]

theorem paired_length (hl : Inside projectedLhs l.values.length)
    (hr : Inside projectedRhs r.values.length) :
    (paired projectedLhs projectedRhs l r).values.length =
      projectedLhs.length + projectedRhs.length := by
  rw [paired, List.length_append, picked_length hl, picked_length hr]

end Records

/-! ## The two iterators -/

section Nodes

variable {ls rs : List Record}

theorem nestedLoop_product {projectedLhs projectedRhs : List ProjectedColumn}
    (hls : ∀ l ∈ ls, Inside projectedLhs l.values.length)
    (hrs : ∀ r ∈ rs, Inside projectedRhs r.values.length) :
    NestedLoop (fun lhs rhs => .cartesianProduct lhs rhs projectedLhs projectedRhs)
      (fun l r => some (paired projectedLhs projectedRhs l r)) ls rs where
  begins := by
    rintro lhs rhs lhs' rhs' l b ⟨n, hn⟩ ⟨m, hm⟩
    refine ⟨max n m, fun k hk => ?_⟩
    simp only [begin, hn k (le_trans (Nat.le_max_left n m) hk),
      hm k (le_trans (Nat.le_max_right n m) hk), Outcome.ok_bind]
  reset _ _ _ _ := rfl
  done := by
    rintro lhs lhs' rhs l r ⟨n, hn⟩ hr
    refine Next.of_succ n fun m hm => ?_
    simp only [next, hn m hm, Outcome.ok_bind, hr, if_true]
  left := by
    rintro lhs lhs' rhs l r s z ⟨n, hn⟩ hr ⟨k, hk⟩
    refine Next.of_succ (max n k) fun m hm => ?_
    simp only [next, hn m (le_trans (Nat.le_max_left n k) hm), Outcome.ok_bind, hr,
      Bool.false_eq_true, if_false, hk m (le_trans (Nat.le_max_right n k) hm)]
  meet := by
    rintro lhs rhs rhs' l r s hl hr hvalid ⟨n, hn⟩ hp
    obtain rfl := Option.some.inj hp
    refine Next.of_succ n fun m hm => ?_
    simp only [next, hn m hm, Outcome.ok_bind, hvalid, Bool.false_eq_true, if_false,
      combine_eq (hls l hl) (hrs r hr)]
  skip := by
    rintro lhs rhs rhs' l r s z _ _ _ _ hp
    cases hp
  right := by
    rintro lhs rhs rhs' l r s z ⟨n, hn⟩ hr ⟨k, hk⟩
    refine Next.of_succ (max n k) fun m hm => ?_
    simp only [next, hn m (le_trans (Nat.le_max_left n k) hm), Outcome.ok_bind, hr, if_true,
      hk m (le_trans (Nat.le_max_right n k) hm)]

theorem nestedLoop_join {columns : JoinColumns}
    (hls : ∀ l ∈ ls, Inside columns.lhs l.values.length)
    (hrs : ∀ r ∈ rs, Inside columns.rhs r.values.length)
    (heqs : ∀ eq ∈ columns.equalities,
      (∀ l ∈ ls, eq.1 < l.values.length) ∧ ∀ r ∈ rs, eq.2 < r.values.length) :
    NestedLoop (fun lhs rhs => .join lhs rhs columns) (joined columns) ls rs where
  begins := by
    rintro lhs rhs lhs' rhs' l b ⟨n, hn⟩ ⟨m, hm⟩
    refine ⟨max n m, fun k hk => ?_⟩
    simp only [begin, hn k (le_trans (Nat.le_max_left n m) hk),
      hm k (le_trans (Nat.le_max_right n m) hk), Outcome.ok_bind]
  reset _ _ _ _ := rfl
  done := by
    rintro lhs lhs' rhs l r ⟨n, hn⟩ hr
    refine Next.of_succ n fun m hm => ?_
    simp only [next, hn m hm, Outcome.ok_bind, hr, if_true]
  left := by
    rintro lhs lhs' rhs l r s z ⟨n, hn⟩ hr ⟨k, hk⟩
    refine Next.of_succ (max n k) fun m hm => ?_
    simp only [next, hn m (le_trans (Nat.le_max_left n k) hm), Outcome.ok_bind, hr,
      Bool.false_eq_true, if_false, hk m (le_trans (Nat.le_max_right n k) hm)]
  meet := by
    rintro lhs rhs rhs' l r s hl hr hvalid ⟨n, hn⟩ hp
    have hcompatible := compatible_eq fun eq heq => ⟨(heqs eq heq).1 l hl, (heqs eq heq).2 r hr⟩
    unfold joined at hp
    split at hp
    · rename_i hagree
      obtain rfl := Option.some.inj hp
      refine Next.of_succ n fun m hm => ?_
      simp only [next, hn m hm, Outcome.ok_bind, hvalid, Bool.false_eq_true, if_false, hcompatible,
        hagree, if_true, combine_eq (hls l hl) (hrs r hr)]
    · cases hp
  skip := by
    rintro lhs rhs rhs' l r s z hl hr hvalid ⟨n, hn⟩ hp ⟨k, hk⟩
    have hcompatible := compatible_eq fun eq heq => ⟨(heqs eq heq).1 l hl, (heqs eq heq).2 r hr⟩
    unfold joined at hp
    split at hp
    · cases hp
    · rename_i hagree
      refine Next.of_succ (max n k) fun m hm => ?_
      simp only [next, hn m (le_trans (Nat.le_max_left n k) hm), Outcome.ok_bind, hvalid,
        Bool.false_eq_true, if_false, hcompatible, hagree,
        hk m (le_trans (Nat.le_max_right n k) hm)]
  right := by
    rintro lhs rhs rhs' l r s z ⟨n, hn⟩ hr ⟨k, hk⟩
    refine Next.of_succ (max n k) fun m hm => ?_
    simp only [next, hn m (le_trans (Nat.le_max_left n k) hm), Outcome.ok_bind, hr, if_true,
      hk m (le_trans (Nat.le_max_right n k) hm)]

end Nodes

end Iic3413Db.Query
