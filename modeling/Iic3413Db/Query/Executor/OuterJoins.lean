/-
  Query/Executor/OuterJoins.lean --- `left_outer_join.h` and `full_outer_join.h`:
  the records of the two outer joins, call by call.

  Both go through the right child once for each left row, and `OuterLoop` is what
  one call does there.  A padded half is `none` in a pair; `pairRecord` computes the
  record of a pair and can fail, as the index into the null values can be outside.
  The right child may deliver other rows at each scan.
-/
import Iic3413Db.Query.Executor.Calls

set_option autoImplicit false

namespace Iic3413Db.Query

open Iic3413Db.RelationalModel
open QueryIter

/-! ## Pairs -/

/-- The left and the right row of a record, `none` where nulls stand for one. -/
abbrev RowPair : Type := Option Record × Option Record

/-- `combined_values`. -/
def pairRecord (columns : JoinColumns) (p : RowPair) : Outcome Record :=
  combine columns.lhs columns.rhs ((p.1.map Record.values).getD (nullValues columns.lhs))
    ((p.2.map Record.values).getD (nullValues columns.rhs))

/-- The right rows that match a left row, or the left row alone. -/
def rowPairs (columns : JoinColumns) (rs : List Record) (l : Record) : List RowPair :=
  match rs.filter (agree columns.equalities l) with
  | [] => [(some l, none)]
  | s :: ss => (s :: ss).map fun r => (some l, some r)

/-- The pairs of a left outer join. -/
def leftPairs (columns : JoinColumns) (ls rs : List Record) : List RowPair :=
  ls.flatMap (rowPairs columns rs)

/-- The pairs of a full outer join. -/
def fullPairs (columns : JoinColumns) (ls rs : List Record) : List RowPair :=
  leftPairs columns ls rs ++
    (rs.filter fun r => ls.all fun l => !agree columns.equalities l r).map fun r => (none, some r)

/-! ## The calls for the left rows -/

/-- The access to `matched_rhs` that is outside of it. -/
def matchedFault : Fault := .undefinedBehaviour "matched_rhs[rhs_index++]"

/-- What the calls return while the right child goes through `rs`: `meets` is the
result for a match at an index. -/
def rowCalls (columns : JoinColumns) (meets : Nat → Record → Record → Outcome Record)
    (l : Record) : Bool → Nat → List Record → List (Outcome Record)
  | true, _, [] => []
  | false, _, [] => [pairRecord columns (some l, none)]
  | outerMatch, i, r :: rs =>
      if agree columns.equalities l r then
        meets i l r :: rowCalls columns meets l true (i + 1) rs
      else rowCalls columns meets l outerMatch (i + 1) rs

/-- `matched_rhs` after one left row. -/
def marks (columns : JoinColumns) (l : Record) : Nat → List Bool → List Record → List Bool
  | _, matched, [] => matched
  | i, matched, r :: rs =>
      marks columns l (i + 1) (if agree columns.equalities l r then matched.set i true else matched)
        rs

/-- The calls for all left rows, the first of which meets scan `n` of the right child. -/
def passCalls (columns : JoinColumns) (meets : Nat → Record → Record → Outcome Record)
    (scans : Nat → List Record) : Nat → List Record → List (Outcome Record)
  | _, [] => []
  | n, l :: ls =>
      rowCalls columns meets l false 0 (scans n) ++ passCalls columns meets scans (n + 1) ls

/-- `matched_rhs` after all left rows. -/
def passMarks (columns : JoinColumns) (scans : Nat → List Record) :
    Nat → List Bool → List Record → List Bool
  | _, matched, [] => matched
  | n, matched, l :: ls =>
      passMarks columns scans (n + 1) (marks columns l 0 matched (scans n)) ls

/-- One call of an outer join while there is a left row: `node` is the iterator, and
`size` the length of `matched_rhs`. -/
structure OuterLoop
    (node : QueryIter → QueryIter → Record → Bool → Bool → Nat → List Bool → QueryIter)
    (columns : JoinColumns) (meets : Nat → Record → Record → Outcome Record) (size : Nat) :
    Prop where
  /-- a left row, and the right child from the start -/
  left : ∀ {lhs lhs' rhs l r om i matched}, Next lhs r lhs' → r.invalid = false →
    Proceeds (node lhs rhs l false om i matched) (node lhs' rhs.reset r true false 0 matched)
  meet : ∀ {lhs rhs rhs' l r om i matched}, Next rhs r rhs' → r.invalid = false →
    compatible l r columns.equalities = .ok true → matched.length = size →
    Emits (node lhs rhs l true om i matched) (meets i l r)
      (node lhs rhs' l true true (i + 1) (matched.set i true))
  skip : ∀ {lhs rhs rhs' l r om i matched}, Next rhs r rhs' → r.invalid = false →
    compatible l r columns.equalities = .ok false →
    Proceeds (node lhs rhs l true om i matched) (node lhs rhs' l true om (i + 1) matched)
  /-- the right child is over -/
  pad : ∀ {lhs rhs rhs' l r i matched}, Next rhs r rhs' → r.invalid = true →
    Emits (node lhs rhs l true false i matched) (pairRecord columns (some l, none))
      (node lhs rhs' l false false i matched)
  right : ∀ {lhs rhs rhs' l r i matched}, Next rhs r rhs' → r.invalid = true →
    Proceeds (node lhs rhs l true true i matched) (node lhs rhs' l false true i matched)

section Lengths

variable {columns : JoinColumns} {l : Record} {scans : Nat → List Record}

theorem marks_length (rs : List Record) (i : Nat) (matched : List Bool) :
    (marks columns l i matched rs).length = matched.length := by
  induction rs generalizing i matched with
  | nil => rfl
  | cons r rs ih =>
      rw [marks, ih]
      split
      · exact List.length_set
      · rfl

theorem passMarks_length (ls : List Record) (n : Nat) (matched : List Bool) :
    (passMarks columns scans n matched ls).length = matched.length := by
  induction ls generalizing n matched with
  | nil => rfl
  | cons l ls ih => rw [passMarks, ih, marks_length]

end Lengths

namespace OuterLoop

variable {node : QueryIter → QueryIter → Record → Bool → Bool → Nat → List Bool → QueryIter}
  {columns : JoinColumns} {meets : Nat → Record → Record → Outcome Record} {size : Nat}

/-- The calls for one left row, and those that come after it. -/
theorem row (h : OuterLoop node columns meets size) {lhs rhs rhs' : QueryIter} {l : Record}
    {rs : List Record} {om : Bool} {i : Nat} {matched : List Bool} {os : List (Outcome Record)}
    (hy : Yields rhs rs rhs') (hsize : matched.length = size)
    (hl : ∀ eq ∈ columns.equalities, eq.1 < l.values.length)
    (hr : ∀ r ∈ rs, ∀ eq ∈ columns.equalities, eq.2 < r.values.length)
    (hrest : ∀ om' i', Calls (node lhs rhs' l false om' i' (marks columns l i matched rs)) os) :
    Calls (node lhs rhs l true om i matched) (rowCalls columns meets l om i rs ++ os) := by
  induction hy generalizing om i matched with
  | done hnext hinvalid =>
      cases om with
      | true => exact (hrest true i).proceed (h.right hnext hinvalid)
      | false => exact (hrest false i).emit (h.pad hnext hinvalid)
  | @more rhs rhs₁ _ r rs hnext hvalid _ ih =>
      have hcompatible : compatible l r columns.equalities = .ok (agree columns.equalities l r) :=
        compatible_eq fun eq heq => ⟨hl eq heq, hr r List.mem_cons_self eq heq⟩
      have htail : ∀ x ∈ rs, ∀ eq ∈ columns.equalities, eq.2 < x.values.length :=
        fun x hx => hr x (List.mem_cons_of_mem r hx)
      rw [rowCalls]
      rw [marks] at hrest
      cases hagree : agree columns.equalities l r with
      | true =>
          rw [hagree] at hcompatible hrest
          have hlater : Calls (node lhs rhs₁ l true true (i + 1) (matched.set i true))
              (rowCalls columns meets l true (i + 1) rs ++ os) :=
            ih (List.length_set.trans hsize) htail hrest
          exact hlater.emit (h.meet hnext hvalid hcompatible hsize)
      | false =>
          rw [hagree] at hcompatible hrest
          have hlater : Calls (node lhs rhs₁ l true om (i + 1) matched)
              (rowCalls columns meets l om (i + 1) rs ++ os) := ih hsize htail hrest
          exact hlater.proceed (h.skip hnext hvalid hcompatible)

/-- The calls for all left rows, and those that come after them. -/
theorem pass (h : OuterLoop node columns meets size) {scans : Nat → List Record}
    (p : Scans scans) {lhs lhs' rhs : QueryIter} {ls : List Record} {cur : Record} {om : Bool}
    {i n : Nat} {matched : List Bool} {os : List (Outcome Record)} (hy : Yields lhs ls lhs')
    (hscan : p.start n rhs.reset) (hsize : matched.length = size)
    (hl : ∀ l ∈ ls, ∀ eq ∈ columns.equalities, eq.1 < l.values.length)
    (hr : ∀ n, ∀ r ∈ scans n, ∀ eq ∈ columns.equalities, eq.2 < r.values.length)
    (hrest : ∀ {lhs₁ rhs₁ cur' om' i'}, Yields lhs₁ [] lhs' → p.start (n + ls.length) rhs₁.reset →
      Calls (node lhs₁ rhs₁ cur' false om' i' (passMarks columns scans n matched ls)) os) :
    Calls (node lhs rhs cur false om i matched) (passCalls columns meets scans n ls ++ os) := by
  induction hy generalizing rhs cur om i n matched with
  | done hnext hinvalid => exact hrest (.done hnext hinvalid) hscan
  | @more lhs lhs₁ _ l ls hnext hvalid hyields ih =>
      obtain ⟨rhs₁, hright, hended⟩ := p.scan hscan
      have hlater : ∀ om' i', Calls
          (node lhs₁ rhs₁ l false om' i' (marks columns l 0 matched (scans n)))
          (passCalls columns meets scans (n + 1) ls ++ os) := by
        intro om' i'
        refine ih (p.resetEnded hended) ((marks_length _ _ _).trans hsize)
          (fun x hx => hl x (List.mem_cons_of_mem l hx)) fun hover hstart => ?_
        refine hrest hover ?_
        rwa [List.length_cons, ← Nat.add_assoc, Nat.add_right_comm]
      rw [passCalls, List.append_assoc]
      refine Calls.proceed (h.left hnext hvalid) ?_
      exact h.row hright hsize (hl l List.mem_cons_self) (hr n) hlater

end OuterLoop

/-! ## The two iterators -/

theorem outerLoop_left (columns : JoinColumns) :
    OuterLoop (fun lhs rhs l valid om _ _ => .leftOuterJoin lhs rhs columns l valid om) columns
      (fun _ l r => pairRecord columns (some l, some r)) 0 where
  left := by
    rintro lhs lhs' rhs l r om i matched ⟨n, hn⟩ hr
    refine ⟨n, 1, fun m hm => ?_⟩
    simp only [next, hn m hm, Outcome.ok_bind, hr, Bool.false_eq_true, if_false]
  meet := by
    rintro lhs rhs rhs' l r om i matched ⟨n, hn⟩ hr hcompatible _
    refine ⟨n, fun m hm => ?_⟩
    simp only [next, hn m hm, Outcome.ok_bind, hr, Bool.false_eq_true, if_false, hcompatible,
      if_true]
    rfl
  skip := by
    rintro lhs rhs rhs' l r om i matched ⟨n, hn⟩ hr hcompatible
    refine ⟨n, 1, fun m hm => ?_⟩
    simp only [next, hn m hm, Outcome.ok_bind, hr, Bool.false_eq_true, if_false, hcompatible]
  pad := by
    rintro lhs rhs rhs' l r i matched ⟨n, hn⟩ hr
    refine ⟨n, fun m hm => ?_⟩
    simp only [next, hn m hm, Outcome.ok_bind, hr, if_true, Bool.false_eq_true, if_false]
    rfl
  right := by
    rintro lhs rhs rhs' l r i matched ⟨n, hn⟩ hr
    refine ⟨n, 1, fun m hm => ?_⟩
    simp only [next, hn m hm, Outcome.ok_bind, hr, if_true]

/-- What a match of a full outer join comes to. -/
def fullMeets (columns : JoinColumns) (size i : Nat) (l r : Record) : Outcome Record :=
  if size ≤ i then .error matchedFault else pairRecord columns (some l, some r)

theorem outerLoop_full (columns : JoinColumns) (size : Nat) (validRhs : Bool) :
    OuterLoop (fun lhs rhs l valid om => .fullOuterJoin lhs rhs columns l valid validRhs om) columns
      (fullMeets columns size) size where
  left := by
    rintro lhs lhs' rhs l r om i matched ⟨n, hn⟩ hr
    refine ⟨n, 1, fun m hm => ?_⟩
    simp only [next, hn m hm, Outcome.ok_bind, hr, Bool.false_eq_true, not_false_eq_true, if_true]
  meet := by
    rintro lhs rhs rhs' l r om i matched ⟨n, hn⟩ hr hcompatible rfl
    refine ⟨n, fun m hm => ?_⟩
    simp only [next, hn m hm, Outcome.ok_bind, hr, Bool.false_eq_true, if_false, hcompatible,
      if_true, fullMeets]
    split
    · rfl
    · rfl
  skip := by
    rintro lhs rhs rhs' l r om i matched ⟨n, hn⟩ hr hcompatible
    refine ⟨n, 1, fun m hm => ?_⟩
    simp only [next, hn m hm, Outcome.ok_bind, hr, Bool.false_eq_true, if_false, hcompatible]
  pad := by
    rintro lhs rhs rhs' l r i matched ⟨n, hn⟩ hr
    refine ⟨n, fun m hm => ?_⟩
    simp only [next, hn m hm, Outcome.ok_bind, hr, if_true, Bool.false_eq_true, if_false]
    rfl
  right := by
    rintro lhs rhs rhs' l r i matched ⟨n, hn⟩ hr
    refine ⟨n, 1, fun m hm => ?_⟩
    simp only [next, hn m hm, Outcome.ok_bind, hr, if_true]

/-! ## The calls after the left rows -/

/-- What the calls return for the right rows that were not matched. -/
def lastCalls (columns : JoinColumns) (matched : List Bool) :
    Nat → List Record → List (Outcome Record)
  | _, [] => []
  | i, r :: rs =>
      match matched[i]? with
      | none => [.error matchedFault]
      | some true => lastCalls columns matched (i + 1) rs
      | some false => pairRecord columns (none, some r) :: lastCalls columns matched (i + 1) rs

section Last

variable {columns : JoinColumns} {lhs rhs rhs' : QueryIter} {cur : Record} {validRhs om : Bool}
  {i : Nat} {matched : List Bool}

theorem leftOuterJoin_over (h : Over lhs) (k : Nat) :
    Calls (.leftOuterJoin lhs rhs columns cur false om) (List.replicate k (.ok Record.empty)) := by
  induction k generalizing lhs cur with
  | zero => exact .nil _
  | succ k ih =>
      obtain ⟨r, lhs', ⟨n, hn⟩, hr, hover⟩ := h.step
      have hcall : Next (.leftOuterJoin lhs rhs columns cur false om) Record.empty
          (.leftOuterJoin lhs' rhs columns r false om) :=
        .of_succ n fun m hm => by simp only [next, hn m hm, Outcome.ok_bind, hr, if_true]
      exact .ok hcall (ih hover)

theorem fullOuterJoin_start (h : Over lhs) :
    Proceeds (.fullOuterJoin lhs rhs columns cur false false om i matched)
      (.fullOuterJoin lhs rhs.reset columns cur false true om 0 matched) := by
  obtain ⟨r, lhs', ⟨n, hn⟩, hr, _⟩ := h.step
  refine ⟨n + 1, 0, fun m hm => ?_⟩
  obtain ⟨m, rfl⟩ := Nat.exists_eq_add_of_le' (le_trans (Nat.le_add_left 1 n) hm)
  simp only [next, hn m (Nat.le_of_succ_le_succ hm), Outcome.ok_bind, hr, not_true_eq_false,
    if_false, Bool.false_eq_true, if_true]

theorem fullOuterJoin_over (h : Over lhs) (hright : Over rhs) (k : Nat) :
    Calls (.fullOuterJoin lhs rhs columns cur false true om i matched)
      (List.replicate k (.ok Record.empty)) := by
  induction k generalizing lhs rhs cur with
  | zero => exact .nil _
  | succ k ih =>
      obtain ⟨r, lhs', ⟨n, hn⟩, hr, hover⟩ := h.step
      obtain ⟨s, rhs', ⟨j, hj⟩, hs, hover'⟩ := hright.step
      have hcall : Next (.fullOuterJoin lhs rhs columns cur false true om i matched) Record.empty
          (.fullOuterJoin lhs' rhs' columns r false true om i matched) := by
        refine .of_succ (max n (j + 1)) fun m hm => ?_
        obtain ⟨m, rfl⟩ := Nat.exists_eq_add_of_le'
          (le_trans (le_trans (Nat.le_add_left 1 j) (Nat.le_max_right n _)) hm)
        have hjm : j ≤ m := Nat.le_of_succ_le_succ (le_trans (Nat.le_max_right n _) hm)
        simp only [next, hn (m + 1) (le_trans (Nat.le_max_left n _) hm), Outcome.ok_bind, hr, hs,
          not_true_eq_false, if_false, if_true, nextUnmatched, hj m hjm]
      exact .ok hcall (ih hover hover')

/-- The calls that pad the left half, and those after them. -/
theorem fullOuterJoin_last (h : Over lhs) {rs : List Record} (hy : Yields rhs rs rhs')
    (hright : Over rhs') (k : Nat) :
    Calls (.fullOuterJoin lhs rhs columns cur false true om i matched)
      (lastCalls columns matched i rs ++ List.replicate k (.ok Record.empty)) := by
  induction hy generalizing lhs cur i with
  | done hnext hr => exact fullOuterJoin_over h (hright.of_yields (.done hnext hr)) k
  | @more rhs rhs₁ _ s rs hnext hs _ ih =>
      obtain ⟨r, lhs', ⟨n, hn⟩, hr, hover⟩ := h.step
      obtain ⟨j, hj⟩ := hnext
      have hstep : ∀ m, max n j ≤ m →
          next (m + 2) (.fullOuterJoin lhs rhs columns cur false true om i matched) =
            match matched[i]? with
            | none => .error matchedFault
            | some true => next (m + 1)
                (.fullOuterJoin lhs rhs₁ columns cur false true om (i + 1) matched)
            | some false => pairRecord columns (none, some s) >>= fun x =>
                .ok (some (x, .fullOuterJoin lhs' rhs₁ columns r false true om (i + 1) matched)) := by
        intro m hm
        have hleft := hn m (le_trans (Nat.le_max_left n j) hm)
        have hleft' := hn (m + 1) (Nat.le_succ_of_le (le_trans (Nat.le_max_left n j) hm))
        have hright' := hj m (le_trans (Nat.le_max_right n j) hm)
        simp only [next, hleft, hleft', Outcome.ok_bind, hr, not_true_eq_false, if_false, if_true,
          nextUnmatched, hright', hs, Bool.false_eq_true]
        rcases matched[i]? with _ | _ | _
        · rfl
        · simp only [Outcome.ok_bind, hs, Bool.false_eq_true, if_false]
          rfl
        · rfl
      rw [lastCalls]
      cases hmark : matched[i]? with
      | none =>
          refine .fault ⟨max n j + 2, fun m hm => ?_⟩
          obtain ⟨m, rfl⟩ := Nat.exists_eq_add_of_le' (le_trans (Nat.le_add_left 2 _) hm)
          rw [hstep m (Nat.le_of_add_le_add_right hm), hmark]
      | some b =>
          rw [hmark] at hstep
          cases b with
          | true =>
              refine Calls.proceed ?_ (@ih lhs cur (i + 1) h hright)
              refine ⟨max n j + 1, 1, fun m hm => ?_⟩
              obtain ⟨m, rfl⟩ := Nat.exists_eq_add_of_le' (le_trans (Nat.le_add_left 1 _) hm)
              exact hstep m (Nat.le_of_add_le_add_right hm)
          | false =>
              refine Calls.emit ?_ (@ih lhs' r (i + 1) hover hright)
              refine ⟨max n j + 1, fun m hm => ?_⟩
              obtain ⟨m, rfl⟩ := Nat.exists_eq_add_of_le' (le_trans (Nat.le_add_left 1 _) hm)
              exact hstep m (Nat.le_of_add_le_add_right hm)

end Last

/-! ## From `begin` on -/

section Runs

variable {lhs rhs : QueryIter} {columns : JoinColumns} {cur : Record} {validLhs validRhs om : Bool}
  {i : Nat} {matched : List Bool} {lscans scans : Nat → List Record}

theorem countRows_yields {it it' : QueryIter} {rs : List Record} (h : Yields it rs it') :
    ∃ n, ∀ m, n ≤ m → countRows m it = .ok (some (rs.length, it')) := by
  induction h with
  | done hnext hr =>
      obtain ⟨n, hn⟩ := hnext
      refine ⟨n + 1, fun m hm => ?_⟩
      obtain ⟨m, rfl⟩ := Nat.exists_eq_add_of_le' (le_trans (Nat.le_add_left 1 n) hm)
      simp only [countRows, hn m (Nat.le_of_succ_le_succ hm), Outcome.ok_bind, hr, if_true]
      rfl
  | more hnext hr _ ih =>
      obtain ⟨n, hn⟩ := hnext
      obtain ⟨j, hj⟩ := ih
      refine ⟨max n j + 1, fun m hm => ?_⟩
      obtain ⟨m, rfl⟩ := Nat.exists_eq_add_of_le' (le_trans (Nat.le_add_left 1 _) hm)
      have hle : max n j ≤ m := Nat.le_of_succ_le_succ hm
      simp only [countRows, hn m (le_trans (Nat.le_max_left n j) hle), Outcome.ok_bind, hr,
        Bool.false_eq_true, if_false, hj m (le_trans (Nat.le_max_right n j) hle)]
      rfl

/-- Every call after `begin`: the first left row meets the scan after that of `begin`. -/
theorem leftOuterJoin_calls (hleft : Feeds lscans lhs) (hright : Feeds scans rhs)
    (hl : ∀ l ∈ lscans 0, ∀ eq ∈ columns.equalities, eq.1 < l.values.length)
    (hr : ∀ n, ∀ r ∈ scans n, ∀ eq ∈ columns.equalities, eq.2 < r.values.length) :
    ∃ it, Begins (.leftOuterJoin lhs rhs columns cur validLhs om) it ∧ ∀ k, Calls it
      (passCalls columns (fun _ l r => pairRecord columns (some l, some r)) scans 1 (lscans 0) ++
        List.replicate k (.ok Record.empty)) := by
  obtain ⟨lhs₀, ⟨n, hn⟩, q, hq⟩ := hleft
  obtain ⟨rhs₀, ⟨j, hj⟩, p, hp⟩ := hright
  obtain ⟨lhs₁, hyields, hended⟩ := q.scan hq
  refine ⟨.leftOuterJoin lhs₀ rhs₀ columns cur false om, ⟨max n j, fun m hm => ?_⟩, fun k => ?_⟩
  · simp only [begin, hn m (le_trans (Nat.le_max_left n j) hm),
      hj m (le_trans (Nat.le_max_right n j) hm), Outcome.ok_bind]
  · have hmatched : ([] : List Bool).length = 0 := rfl
    refine (outerLoop_left columns).pass p (i := 0) hyields (p.resetStart hp) hmatched hl hr ?_
    intro lhs₂ rhs₂ cur' om' i' hover _
    exact leftOuterJoin_over ((q.over hended).of_yields hover) k

/-- Every call after `begin`, which counts the rows of the first scan and starts the
second. -/
theorem fullOuterJoin_calls (hleft : Feeds lscans lhs) (hright : Feeds scans rhs)
    (hl : ∀ l ∈ lscans 0, ∀ eq ∈ columns.equalities, eq.1 < l.values.length)
    (hr : ∀ n, ∀ r ∈ scans n, ∀ eq ∈ columns.equalities, eq.2 < r.values.length) :
    ∃ it, Begins (.fullOuterJoin lhs rhs columns cur validLhs validRhs om i matched) it ∧
      ∀ k, Calls it
        (passCalls columns (fullMeets columns (scans 0).length) scans 2 (lscans 0) ++
          (lastCalls columns
            (passMarks columns scans 2 (List.replicate (scans 0).length false) (lscans 0)) 0
            (scans (2 + (lscans 0).length)) ++ List.replicate k (.ok Record.empty))) := by
  obtain ⟨lhs₀, ⟨n, hn⟩, q, hq⟩ := hleft
  obtain ⟨rhs₀, ⟨j, hj⟩, p, hp⟩ := hright
  obtain ⟨lhs₁, hyields, hended⟩ := q.scan hq
  obtain ⟨rhs₁, hcount, hcounted⟩ := p.scan hp
  obtain ⟨t, ht⟩ := countRows_yields hcount
  refine ⟨.fullOuterJoin lhs₀ rhs₁.reset columns cur false false om 0
    (List.replicate (scans 0).length false), ⟨max (max n j) t, fun m hm => ?_⟩, fun k => ?_⟩
  · have hnj : max n j ≤ m := le_trans (Nat.le_max_left _ t) hm
    simp only [begin, hn m (le_trans (Nat.le_max_left n j) hnj),
      hj m (le_trans (Nat.le_max_right n j) hnj), ht m (le_trans (Nat.le_max_right _ t) hm),
      Outcome.ok_bind]
  · have hstart : p.start 2 rhs₁.reset.reset := p.resetStart (p.resetEnded hcounted)
    have hmatched : (List.replicate (scans 0).length false).length = (scans 0).length :=
      List.length_replicate
    refine (outerLoop_full columns _ false).pass p hyields hstart hmatched hl hr ?_
    intro lhs₂ rhs₂ cur' om' i' hover hlast
    have hlhs : Over lhs₂ := (q.over hended).of_yields hover
    obtain ⟨rhs₃, hscan, hrest⟩ := p.scan hlast
    exact (fullOuterJoin_last hlhs hscan (p.over hrest) k).proceed (fullOuterJoin_start hlhs)

end Runs

end Iic3413Db.Query
