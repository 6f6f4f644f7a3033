/-
  Query/Executor/Resets.lean --- `reset` as a restart.

  `Alike` relates two states of one tree of iterators that nothing later tells
  apart: their calls return the same (`Alike.next`), and so do their calls after a
  reset (`Alike.reset`).  A reset leaves the `valid_lhs` of a product or a join as it
  is, so the state after it is `Alike` the one after `begin` when none of them was
  in the middle of a left row (`Settled`).
-/
import Iic3413Db.Query.Executor.OuterJoins

set_option autoImplicit false

namespace Iic3413Db.Query

open Iic3413Db.RelationalModel
open QueryIter

/-! ## Calls of `next` and `reset` -/

/-- What `n` calls of `next` return. -/
def results (fuel : Nat) : Nat → QueryIter → List (Outcome (Option Record))
  | 0, _ => []
  | n + 1, it =>
      match next fuel it with
      | .ok (some (r, it')) => .ok (some r) :: results fuel n it'
      | .ok none => [.ok none]
      | .error e => [.error e]

/-- The states after `begin`, in any order of calls of `next` and `reset`. -/
inductive Reached (it : QueryIter) : QueryIter → Prop
  | begin : Reached it it
  | next {x y : QueryIter} {fuel : Nat} {r : Record} (h : Reached it x)
      (hnext : next fuel x = .ok (some (r, y))) : Reached it y
  | reset {x : QueryIter} (h : Reached it x) : Reached it x.reset

/-! ## Trees of iterators -/

/-- Every scan of a table delivers the same rows. -/
def Unchanging : QueryIter → Prop
  | .relation child _ => ∀ n, child.scans n = child.scans 0
  | .selection child _ | .projection child _ _ _ => Unchanging child
  | .cartesianProduct lhs rhs _ _ _ _ | .join lhs rhs _ _ _ | .leftOuterJoin lhs rhs _ _ _ _
  | .fullOuterJoin lhs rhs _ _ _ _ _ _ _ => Unchanging lhs ∧ Unchanging rhs

/-- The scans of the tables are at the start. -/
def Unread : QueryIter → Prop
  | .relation child _ => child.rest = child.scans 0
  | .selection child _ | .projection child _ _ _ => Unread child
  | .cartesianProduct lhs rhs _ _ _ _ | .join lhs rhs _ _ _ | .leftOuterJoin lhs rhs _ _ _ _
  | .fullOuterJoin lhs rhs _ _ _ _ _ _ _ => Unread lhs ∧ Unread rhs

/-- No product and no join is in the middle of a left row. -/
def Settled : QueryIter → Prop
  | .relation _ _ => True
  | .selection child _ | .projection child _ _ _ => Settled child
  | .cartesianProduct lhs rhs _ _ _ validLhs | .join lhs rhs _ _ validLhs =>
      Settled lhs ∧ Settled rhs ∧ validLhs = false
  | .leftOuterJoin lhs rhs _ _ _ _ | .fullOuterJoin lhs rhs _ _ _ _ _ _ _ =>
      Settled lhs ∧ Settled rhs

/-- The tree without what the calls of `next` leave in it. -/
def fresh : QueryIter → QueryIter
  | .relation child projected => .relation ⟨child.scans, 0, child.scans 0⟩ projected
  | .selection child expressions => .selection (fresh child) expressions
  | .cartesianProduct lhs rhs p q _ _ =>
      .cartesianProduct (fresh lhs) (fresh rhs) p q Record.empty false
  | .join lhs rhs columns _ _ => .join (fresh lhs) (fresh rhs) columns Record.empty false
  | .leftOuterJoin lhs rhs columns _ _ _ =>
      .leftOuterJoin (fresh lhs) (fresh rhs) columns Record.empty false false
  | .fullOuterJoin lhs rhs columns _ _ _ _ _ matched =>
      .fullOuterJoin (fresh lhs) (fresh rhs) columns Record.empty false false false 0
        (matched.map fun _ => false)
  | .projection child columns limit _ => .projection (fresh child) columns limit 0

/-- Two states that later calls do not tell apart.  Between two left rows the last one
and its `outer_match` are not read again. -/
inductive Alike : QueryIter → QueryIter → Prop
  | relation {c d : RelationIter} {rows : List Record} {projected : List ProjectedColumn}
      (hc : ∀ n, c.scans n = rows) (hd : ∀ n, d.scans n = rows) (hrest : c.rest = d.rest) :
      Alike (.relation c projected) (.relation d projected)
  | selection {x y : QueryIter} {expressions : List Expr} (h : Alike x y) :
      Alike (.selection x expressions) (.selection y expressions)
  | cartesianProduct {lhs rhs lhs' rhs' : QueryIter} {p q : List ProjectedColumn}
      {cur cur' : Record} {v : Bool} (hl : Alike lhs lhs') (hr : Alike rhs rhs')
      (hcur : v = true → cur = cur') :
      Alike (.cartesianProduct lhs rhs p q cur v) (.cartesianProduct lhs' rhs' p q cur' v)
  | join {lhs rhs lhs' rhs' : QueryIter} {columns : JoinColumns} {cur cur' : Record}
      {v : Bool} (hl : Alike lhs lhs') (hr : Alike rhs rhs') (hcur : v = true → cur = cur') :
      Alike (.join lhs rhs columns cur v) (.join lhs' rhs' columns cur' v)
  | leftOuterJoin {lhs rhs lhs' rhs' : QueryIter} {columns : JoinColumns} {cur cur' : Record}
      {v om om' : Bool} (hl : Alike lhs lhs') (hr : Alike rhs rhs')
      (hcur : v = true → cur = cur' ∧ om = om') :
      Alike (.leftOuterJoin lhs rhs columns cur v om) (.leftOuterJoin lhs' rhs' columns cur' v om')
  | fullOuterJoin {lhs rhs lhs' rhs' : QueryIter} {columns : JoinColumns} {cur cur' : Record}
      {v w om om' : Bool} {i : Nat} {matched : List Bool}
      (hl : Alike lhs lhs') (hr : Alike rhs rhs') (hcur : v = true → cur = cur' ∧ om = om') :
      Alike (.fullOuterJoin lhs rhs columns cur v w om i matched)
        (.fullOuterJoin lhs' rhs' columns cur' v w om' i matched)
  | projection {x y : QueryIter} {columns : List Column} {limit n : Nat} (h : Alike x y) :
      Alike (.projection x columns limit n) (.projection y columns limit n)

/-! ## Calls on states that are alike -/

/-- One call on each of two states: the same record, and states that are alike. -/
abbrev SameCall : Outcome (Option (Record × QueryIter)) → Outcome (Option (Record × QueryIter)) →
    Prop :=
  Outcome.Lift (Option.Rel fun p q => p.1 = q.1 ∧ Alike p.2 q.2)

/-- The same for the loop over the unmatched rows. -/
abbrev SameUnmatched : Outcome (Option (Record × QueryIter × Nat)) →
    Outcome (Option (Record × QueryIter × Nat)) → Prop :=
  Outcome.Lift (Option.Rel fun p q => p.1 = q.1 ∧ Alike p.2.1 q.2.1 ∧ p.2.2 = q.2.2)

section Alike

variable {x y lhs rhs lhs' rhs' : QueryIter}

theorem Alike.reset (h : Alike x y) : Alike x.reset y.reset := by
  induction h with
  | relation hc hd _ => exact .relation hc hd ((hc _).trans (hd _).symm)
  | selection _ ih => exact .selection ih
  | cartesianProduct _ _ hcur ihl ihr => exact .cartesianProduct ihl ihr hcur
  | join _ _ hcur ihl ihr => exact .join ihl ihr hcur
  | leftOuterJoin _ _ _ ihl ihr => exact .leftOuterJoin ihl ihr fun h => by cases h
  | fullOuterJoin _ _ _ ihl ihr => exact .fullOuterJoin ihl ihr fun h => by cases h
  | projection _ ih => exact .projection ih

theorem Alike.getColumns (h : Alike x y) : x.getColumns = y.getColumns := by
  induction h with
  | relation _ _ _ => rfl
  | selection _ ih => exact ih
  | cartesianProduct _ _ _ _ _ => rfl
  | join _ _ _ _ _ => rfl
  | leftOuterJoin _ _ _ _ _ => rfl
  | fullOuterJoin _ _ _ _ _ => rfl
  | projection _ _ => rfl

theorem SameCall.some {r : Record} (h : Alike x y) :
    SameCall (.ok (Option.some (r, x))) (.ok (Option.some (r, y))) := .ok (.some ⟨rfl, h⟩)

theorem SameCall.none : SameCall (.ok Option.none) (.ok Option.none) := .ok .none

/-- The record that two states compute. -/
theorem SameCall.emit (o : Outcome Record) (h : Alike x y) :
    SameCall (o >>= fun r => .ok (Option.some (r, x))) (o >>= fun r => .ok (Option.some (r, y))) := by
  cases o with
  | ok r => exact SameCall.some h
  | error e => exact .error e

/-- A call on a child, and what comes of it. -/
theorem SameCall.step {o o' : Outcome (Option (Record × QueryIter))}
    {f g : Option (Record × QueryIter) → Outcome (Option (Record × QueryIter))}
    (h : SameCall o o') (hnone : SameCall (f Option.none) (g Option.none))
    (hsome : ∀ r x y, Alike x y → SameCall (f (Option.some (r, x))) (g (Option.some (r, y)))) :
    SameCall (o >>= f) (o' >>= g) := by
  refine h.bind fun a b hab => ?_
  cases hab with
  | none => exact hnone
  | @some p q hpq =>
      obtain ⟨r, x⟩ := p
      obtain ⟨s, y⟩ := q
      obtain ⟨rfl, halike⟩ := hpq
      exact hsome r x y halike

end Alike

section Operators

variable {fuel : Nat} {x y lhs rhs lhs' rhs' : QueryIter} {cur cur' : Record} {v w om om' : Bool}

theorem alike_selection {expressions : List Expr}
    (ih : ∀ {x y}, Alike x y → SameCall (next fuel x) (next fuel y)) (h : Alike x y) :
    SameCall (next (fuel + 1) (.selection x expressions))
      (next (fuel + 1) (.selection y expressions)) := by
  simp only [next]
  refine (ih h).step SameCall.none fun r x' y' hlater => ?_
  dsimp only
  split
  · exact SameCall.some (.selection hlater)
  · refine (Outcome.Lift.rfl (fun _ => Eq.refl _) (matchesAll r expressions)).bind ?_
    rintro b _ rfl
    cases b with
    | true => exact SameCall.some (.selection hlater)
    | false => exact ih (.selection hlater)

theorem alike_product {p q : List ProjectedColumn}
    (ih : ∀ {x y}, Alike x y → SameCall (next fuel x) (next fuel y)) (hl : Alike lhs lhs')
    (hr : Alike rhs rhs') (hcur : v = true → cur = cur') :
    SameCall (next (fuel + 1) (.cartesianProduct lhs rhs p q cur v))
      (next (fuel + 1) (.cartesianProduct lhs' rhs' p q cur' v)) := by
  cases v with
  | true =>
      obtain rfl := hcur rfl
      simp only [next]
      refine (ih hr).step SameCall.none fun r x' y' hlater => ?_
      dsimp only
      split
      · exact ih (.cartesianProduct hl hlater fun h => by cases h)
      · exact SameCall.emit _ (.cartesianProduct hl hlater fun _ => rfl)
  | false =>
      simp only [next]
      refine (ih hl).step SameCall.none fun r x' y' hlater => ?_
      dsimp only
      split
      · exact SameCall.some (.cartesianProduct hlater hr fun h => by cases h)
      · exact ih (.cartesianProduct hlater hr.reset fun _ => rfl)

theorem alike_join {columns : JoinColumns}
    (ih : ∀ {x y}, Alike x y → SameCall (next fuel x) (next fuel y)) (hl : Alike lhs lhs')
    (hr : Alike rhs rhs') (hcur : v = true → cur = cur') :
    SameCall (next (fuel + 1) (.join lhs rhs columns cur v))
      (next (fuel + 1) (.join lhs' rhs' columns cur' v)) := by
  cases v with
  | true =>
      obtain rfl := hcur rfl
      simp only [next]
      refine (ih hr).step SameCall.none fun r x' y' hlater => ?_
      dsimp only
      split
      · exact ih (.join hl hlater fun h => by cases h)
      · refine (Outcome.Lift.rfl (fun _ => Eq.refl _) (compatible cur r columns.equalities)).bind ?_
        rintro b _ rfl
        cases b with
        | true => exact SameCall.emit _ (.join hl hlater fun _ => rfl)
        | false => exact ih (.join hl hlater fun _ => rfl)
  | false =>
      simp only [next]
      refine (ih hl).step SameCall.none fun r x' y' hlater => ?_
      dsimp only
      split
      · exact SameCall.some (.join hlater hr fun h => by cases h)
      · exact ih (.join hlater hr.reset fun _ => rfl)

theorem alike_left {columns : JoinColumns}
    (ih : ∀ {x y}, Alike x y → SameCall (next fuel x) (next fuel y)) (hl : Alike lhs lhs')
    (hr : Alike rhs rhs') (hcur : v = true → cur = cur' ∧ om = om') :
    SameCall (next (fuel + 1) (.leftOuterJoin lhs rhs columns cur v om))
      (next (fuel + 1) (.leftOuterJoin lhs' rhs' columns cur' v om')) := by
  cases v with
  | true =>
      obtain ⟨rfl, rfl⟩ := hcur rfl
      simp only [next]
      refine (ih hr).step SameCall.none fun r x' y' hlater => ?_
      dsimp only
      split
      · split
        · exact ih (.leftOuterJoin hl hlater fun h => by cases h)
        · exact SameCall.emit _ (.leftOuterJoin hl hlater fun h => by cases h)
      · refine (Outcome.Lift.rfl (fun _ => Eq.refl _) (compatible cur r columns.equalities)).bind ?_
        rintro b _ rfl
        cases b with
        | true => exact SameCall.emit _ (.leftOuterJoin hl hlater fun _ => ⟨rfl, rfl⟩)
        | false => exact ih (.leftOuterJoin hl hlater fun _ => ⟨rfl, rfl⟩)
  | false =>
      simp only [next]
      refine (ih hl).step SameCall.none fun r x' y' hlater => ?_
      dsimp only
      split
      · exact SameCall.some (.leftOuterJoin hlater hr fun h => by cases h)
      · exact ih (.leftOuterJoin hlater hr.reset fun _ => ⟨rfl, rfl⟩)

theorem alike_full {columns : JoinColumns} {i : Nat} {matched : List Bool}
    (ih : ∀ {x y}, Alike x y → SameCall (next fuel x) (next fuel y))
    (ihlast : ∀ {x y} i, Alike x y →
      SameUnmatched (nextUnmatched fuel x i matched) (nextUnmatched fuel y i matched))
    (hl : Alike lhs lhs') (hr : Alike rhs rhs') (hcur : v = true → cur = cur' ∧ om = om') :
    SameCall (next (fuel + 1) (.fullOuterJoin lhs rhs columns cur v w om i matched))
      (next (fuel + 1) (.fullOuterJoin lhs' rhs' columns cur' v w om' i matched)) := by
  cases v with
  | true =>
      obtain ⟨rfl, rfl⟩ := hcur rfl
      simp only [next]
      refine (ih hr).step SameCall.none fun r x' y' hlater => ?_
      dsimp only
      split
      · split
        · exact ih (.fullOuterJoin hl hlater fun h => by cases h)
        · exact SameCall.emit _ (.fullOuterJoin hl hlater fun h => by cases h)
      · refine (Outcome.Lift.rfl (fun _ => Eq.refl _) (compatible cur r columns.equalities)).bind ?_
        rintro b _ rfl
        cases b with
        | true =>
            rw [if_pos rfl, if_pos rfl]
            split
            · exact .error _
            · exact SameCall.emit _ (.fullOuterJoin hl hlater fun _ => ⟨rfl, rfl⟩)
        | false => exact ih (.fullOuterJoin hl hlater fun _ => ⟨rfl, rfl⟩)
  | false =>
      simp only [next]
      refine (ih hl).step SameCall.none fun r x' y' hlater => ?_
      dsimp only
      split
      · exact ih (.fullOuterJoin hlater hr.reset fun _ => ⟨rfl, rfl⟩)
      · -- the loop over the unmatched rows goes on, or starts
        have hlast : ∀ {a b : QueryIter × Nat}, Alike a.1 b.1 ∧ a.2 = b.2 →
            SameUnmatched (nextUnmatched fuel a.1 a.2 matched)
              (nextUnmatched fuel b.1 b.2 matched) := by
          rintro ⟨a, i⟩ ⟨b, _⟩ ⟨hab, rfl⟩
          exact ihlast i hab
        have hstart : Alike (if w = true then (rhs, i) else (rhs.reset, 0)).1
              (if w = true then (rhs', i) else (rhs'.reset, 0)).1 ∧
            (if w = true then (rhs, i) else (rhs.reset, 0)).2 =
              (if w = true then (rhs', i) else (rhs'.reset, 0)).2 := by
          cases w with
          | true => exact ⟨hr, rfl⟩
          | false => exact ⟨hr.reset, rfl⟩
        refine (hlast hstart).bind fun a b hab => ?_
        cases hab with
        | none => exact SameCall.none
        | @some a b hab =>
            obtain ⟨s, x, j⟩ := a
            obtain ⟨t, y, k⟩ := b
            obtain ⟨rfl, halike, rfl⟩ := hab
            dsimp only
            split
            · exact SameCall.some (.fullOuterJoin hlater halike fun h => by cases h)
            · exact SameCall.emit _ (.fullOuterJoin hlater halike fun h => by cases h)

theorem alike_unmatched {matched : List Bool}
    (ih : ∀ {x y}, Alike x y → SameCall (next fuel x) (next fuel y))
    (ihlast : ∀ {x y} i, Alike x y →
      SameUnmatched (nextUnmatched fuel x i matched) (nextUnmatched fuel y i matched))
    (i : Nat) (h : Alike x y) :
    SameUnmatched (nextUnmatched (fuel + 1) x i matched) (nextUnmatched (fuel + 1) y i matched) := by
  simp only [nextUnmatched]
  refine (ih h).bind fun a b hab => ?_
  cases hab with
  | none => exact .ok .none
  | @some a b hab =>
      obtain ⟨r, x'⟩ := a
      obtain ⟨s, y'⟩ := b
      obtain ⟨rfl, hlater⟩ := hab
      dsimp only
      split
      · exact .ok (.some ⟨rfl, hlater, rfl⟩)
      · cases matched[i]? with
        | none => exact .error _
        | some b =>
            cases b with
            | true => exact ihlast (i + 1) hlater
            | false => exact .ok (.some ⟨rfl, hlater, rfl⟩)

theorem alike_projection {columns : List Column} {limit n : Nat}
    (ih : ∀ {x y}, Alike x y → SameCall (next fuel x) (next fuel y)) (h : Alike x y) :
    SameCall (next (fuel + 1) (.projection x columns limit n))
      (next (fuel + 1) (.projection y columns limit n)) := by
  simp only [next]
  refine (ih h).step SameCall.none fun r x' y' hlater => ?_
  dsimp only
  split
  · exact SameCall.some (.projection hlater)
  · rw [hlater.getColumns]
    refine (Outcome.Lift.rfl (fun _ => Eq.refl _) (pick y'.getColumns r.values columns)).bind ?_
    rintro vs _ rfl
    exact SameCall.some (.projection hlater)

end Operators

theorem alike_calls (fuel : Nat) :
    (∀ {x y}, Alike x y → SameCall (next fuel x) (next fuel y)) ∧
    ∀ {matched x y} i, Alike x y →
      SameUnmatched (nextUnmatched fuel x i matched) (nextUnmatched fuel y i matched) := by
  induction fuel with
  | zero => exact ⟨fun _ => SameCall.none, fun _ _ => .ok .none⟩
  | succ fuel ih =>
      obtain ⟨ih, ihlast⟩ := ih
      refine ⟨fun h => ?_, fun i h => alike_unmatched ih ihlast i h⟩
      cases h with
      | @relation c d rows _ hc hd hrest =>
          obtain ⟨_, m, _⟩ := c
          obtain ⟨_, n, _⟩ := d
          obtain rfl : _ = _ := hrest
          simp only [next, RelationIter.next]
          split
          · exact SameCall.some (.relation hc hd rfl)
          · exact SameCall.some (.relation hc hd rfl)
      | selection h => exact alike_selection ih h
      | cartesianProduct hl hr hcur => exact alike_product ih hl hr hcur
      | join hl hr hcur => exact alike_join ih hl hr hcur
      | leftOuterJoin hl hr hcur => exact alike_left ih hl hr hcur
      | fullOuterJoin hl hr hcur => exact alike_full ih ihlast hl hr hcur
      | projection h => exact alike_projection ih h

/-- States that are alike return the same records. -/
theorem Alike.results {x y : QueryIter} (h : Alike x y) (fuel n : Nat) :
    results fuel n x = results fuel n y := by
  induction n generalizing x y with
  | zero => rfl
  | succ n ih =>
      have hcall := (alike_calls fuel).1 h
      unfold Query.results
      generalize next fuel x = o at hcall ⊢
      generalize next fuel y = o' at hcall ⊢
      cases hcall with
      | error e => rfl
      | ok hab =>
          cases hab with
          | none => rfl
          | @some p q hpq =>
              obtain ⟨r, x'⟩ := p
              obtain ⟨s, y'⟩ := q
              obtain ⟨rfl, hlater⟩ := hpq
              exact congrArg (_ :: ·) (ih hlater)

/-! ## What the calls leave -/

section Fresh

variable {it : QueryIter} {fuel : Nat}

theorem fresh_reset (it : QueryIter) : fresh it.reset = fresh it := by
  induction it with
  | relation child projected => rfl
  | selection child expressions ih => simp only [QueryIter.reset, fresh, ih]
  | cartesianProduct lhs rhs p q cur v ihl ihr => simp only [QueryIter.reset, fresh, ihl, ihr]
  | join lhs rhs columns cur v ihl ihr => simp only [QueryIter.reset, fresh, ihl, ihr]
  | leftOuterJoin lhs rhs columns cur v om ihl ihr => simp only [QueryIter.reset, fresh, ihl, ihr]
  | fullOuterJoin lhs rhs columns cur v w om i matched ihl ihr =>
      simp only [QueryIter.reset, fresh, ihl, ihr, List.map_map, Function.comp_def]
  | projection child columns limit n ih => simp only [QueryIter.reset, fresh, ih]

theorem settled_reset (it : QueryIter) : Settled it.reset ↔ Settled it := by
  induction it with
  | relation child projected => exact Iff.rfl
  | selection child expressions ih => exact ih
  | cartesianProduct lhs rhs p q cur v ihl ihr => exact and_congr ihl (and_congr_left' ihr)
  | join lhs rhs columns cur v ihl ihr => exact and_congr ihl (and_congr_left' ihr)
  | leftOuterJoin lhs rhs columns cur v om ihl ihr => exact and_congr ihl ihr
  | fullOuterJoin lhs rhs columns cur v w om i matched ihl ihr => exact and_congr ihl ihr
  | projection child columns limit n ih => exact ih

theorem unchanging_fresh (it : QueryIter) : Unchanging (fresh it) ↔ Unchanging it := by
  induction it with
  | relation child projected => exact Iff.rfl
  | selection child expressions ih => exact ih
  | cartesianProduct lhs rhs p q cur v ihl ihr => exact and_congr ihl ihr
  | join lhs rhs columns cur v ihl ihr => exact and_congr ihl ihr
  | leftOuterJoin lhs rhs columns cur v om ihl ihr => exact and_congr ihl ihr
  | fullOuterJoin lhs rhs columns cur v w om i matched ihl ihr => exact and_congr ihl ihr
  | projection child columns limit n ih => exact ih

/-- A call leaves a state of the tree `w`. -/
abbrev Leaves (w : QueryIter) : Outcome (Option (Record × QueryIter)) → Prop :=
  Outcome.Ensures fun o => ∀ p ∈ o, fresh p.2 = w

theorem Leaves.some {w : QueryIter} {r : Record} (h : fresh it = w) :
    Leaves w (.ok (Option.some (r, it))) := .ok fun p hp => by
  obtain rfl := Option.some.inj hp
  exact h

theorem Leaves.none {w : QueryIter} : Leaves w (.ok Option.none) := .ok fun _ hp => by cases hp

theorem Leaves.emit {w : QueryIter} (o : Outcome Record) (h : fresh it = w) :
    Leaves w (o >>= fun r => .ok (Option.some (r, it))) := by
  cases o with
  | ok r => exact Leaves.some h
  | error e => exact .error e

theorem Leaves.step {w w' : QueryIter} {o : Outcome (Option (Record × QueryIter))}
    {f : Option (Record × QueryIter) → Outcome (Option (Record × QueryIter))} (h : Leaves w' o)
    (hnone : Leaves w (f Option.none))
    (hsome : ∀ r x, fresh x = w' → Leaves w (f (Option.some (r, x)))) : Leaves w (o >>= f) := by
  refine h.bind fun a ha => ?_
  cases a with
  | none => exact hnone
  | some p => exact hsome p.1 p.2 (ha p rfl)

theorem Leaves.test {w : QueryIter} (o : Outcome Bool)
    {f : Bool → Outcome (Option (Record × QueryIter))} (htrue : Leaves w (f true))
    (hfalse : Leaves w (f false)) : Leaves w (o >>= f) := by
  cases o with
  | error e => exact .error e
  | ok b =>
      cases b with
      | true => exact htrue
      | false => exact hfalse

end Fresh

section Operators

variable {fuel : Nat} {lhs rhs : QueryIter} {cur : Record} {v w om : Bool}

theorem leaves_selection {child : QueryIter} {expressions : List Expr}
    (ih : ∀ {x z}, fresh x = z → Leaves z (next fuel x)) :
    Leaves (fresh (.selection child expressions))
      (next (fuel + 1) (.selection child expressions)) := by
  simp only [next]
  refine (ih rfl).step Leaves.none fun r x hx => ?_
  have hfresh : fresh (.selection x expressions) = fresh (.selection child expressions) :=
    congrArg (QueryIter.selection · expressions) hx
  dsimp only
  split
  · exact Leaves.some hfresh
  · exact Leaves.test _ (Leaves.some hfresh) (ih hfresh)

theorem leaves_product {p q : List ProjectedColumn}
    (ih : ∀ {x z}, fresh x = z → Leaves z (next fuel x)) :
    Leaves (fresh (.cartesianProduct lhs rhs p q cur v))
      (next (fuel + 1) (.cartesianProduct lhs rhs p q cur v)) := by
  cases v with
  | true =>
      simp only [next]
      refine (ih rfl).step Leaves.none fun r x hx => ?_
      dsimp only
      split
      · exact ih (by simp only [fresh, hx])
      · exact Leaves.emit _ (by simp only [fresh, hx])
  | false =>
      simp only [next]
      refine (ih rfl).step Leaves.none fun r x hx => ?_
      dsimp only
      split
      · exact Leaves.some (by simp only [fresh, hx])
      · exact ih (by simp only [fresh, hx, fresh_reset])

theorem leaves_join {columns : JoinColumns}
    (ih : ∀ {x z}, fresh x = z → Leaves z (next fuel x)) :
    Leaves (fresh (.join lhs rhs columns cur v)) (next (fuel + 1) (.join lhs rhs columns cur v)) := by
  cases v with
  | true =>
      simp only [next]
      refine (ih rfl).step Leaves.none fun r x hx => ?_
      dsimp only
      split
      · exact ih (by simp only [fresh, hx])
      · refine Leaves.test _ ?_ ?_
        · exact Leaves.emit _ (by simp only [fresh, hx])
        · exact ih (by simp only [fresh, hx])
  | false =>
      simp only [next]
      refine (ih rfl).step Leaves.none fun r x hx => ?_
      dsimp only
      split
      · exact Leaves.some (by simp only [fresh, hx])
      · exact ih (by simp only [fresh, hx, fresh_reset])

theorem leaves_left {columns : JoinColumns}
    (ih : ∀ {x z}, fresh x = z → Leaves z (next fuel x)) :
    Leaves (fresh (.leftOuterJoin lhs rhs columns cur v om))
      (next (fuel + 1) (.leftOuterJoin lhs rhs columns cur v om)) := by
  cases v with
  | true =>
      simp only [next]
      refine (ih rfl).step Leaves.none fun r x hx => ?_
      dsimp only
      split
      · split
        · exact ih (by simp only [fresh, hx])
        · exact Leaves.emit _ (by simp only [fresh, hx])
      · refine Leaves.test _ ?_ ?_
        · exact Leaves.emit _ (by simp only [fresh, hx])
        · exact ih (by simp only [fresh, hx])
  | false =>
      simp only [next]
      refine (ih rfl).step Leaves.none fun r x hx => ?_
      dsimp only
      split
      · exact Leaves.some (by simp only [fresh, hx])
      · exact ih (by simp only [fresh, hx, fresh_reset])

/-- What the loop over the unmatched rows leaves of the right child. -/
abbrev LeavesRight (w : QueryIter) : Outcome (Option (Record × QueryIter × Nat)) → Prop :=
  Outcome.Ensures fun o => ∀ p ∈ o, fresh p.2.1 = w

theorem leaves_full {columns : JoinColumns} {i : Nat} {matched : List Bool}
    (ih : ∀ {x z}, fresh x = z → Leaves z (next fuel x))
    (ihlast : ∀ {x z} i, fresh x = z → LeavesRight z (nextUnmatched fuel x i matched)) :
    Leaves (fresh (.fullOuterJoin lhs rhs columns cur v w om i matched))
      (next (fuel + 1) (.fullOuterJoin lhs rhs columns cur v w om i matched)) := by
  cases v with
  | true =>
      simp only [next]
      refine (ih rfl).step Leaves.none fun r x hx => ?_
      dsimp only
      split
      · split
        · exact ih (by simp only [fresh, hx])
        · exact Leaves.emit _ (by simp only [fresh, hx])
      · refine Leaves.test _ ?_ ?_
        · rw [if_pos rfl]
          split
          · exact .error _
          · exact Leaves.emit _ (by simp only [fresh, hx, List.map_const', List.length_set])
        · exact ih (by simp only [fresh, hx])
  | false =>
      simp only [next]
      refine (ih rfl).step Leaves.none fun r x hx => ?_
      dsimp only
      split
      · exact ih (by simp only [fresh, hx, fresh_reset])
      · have hrhs : fresh (if w = true then (rhs, i) else (rhs.reset, 0)).1 = fresh rhs := by
          cases w with
          | true => rfl
          | false => exact fresh_reset rhs
        refine (ihlast _ hrhs).bind fun a ha => ?_
        cases a with
        | none => exact Leaves.none
        | some a =>
            obtain ⟨s, y, j⟩ := a
            have hy : fresh y = fresh rhs := ha _ rfl
            dsimp only
            split
            · exact Leaves.some (by simp only [fresh, hx, hy])
            · exact Leaves.emit _ (by simp only [fresh, hx, hy])

theorem leaves_unmatched {x : QueryIter} {matched : List Bool}
    (ih : ∀ {x z}, fresh x = z → Leaves z (next fuel x))
    (ihlast : ∀ {x z} i, fresh x = z → LeavesRight z (nextUnmatched fuel x i matched)) (i : Nat) :
    LeavesRight (fresh x) (nextUnmatched (fuel + 1) x i matched) := by
  simp only [nextUnmatched]
  refine (ih rfl).bind fun a ha => ?_
  cases a with
  | none => exact .ok fun _ hp => by cases hp
  | some a =>
      obtain ⟨r, y⟩ := a
      have hy : fresh y = fresh x := ha _ rfl
      have hsome : ∀ j, LeavesRight (fresh x) (.ok (Option.some (r, y, j))) := by
        refine fun j => .ok fun p hp => ?_
        obtain rfl := Option.some.inj hp
        exact hy
      dsimp only
      split
      · exact hsome i
      · cases matched[i]? with
        | none => exact .error _
        | some b =>
            cases b with
            | true => exact ihlast (i + 1) hy
            | false => exact hsome (i + 1)

theorem leaves_projection {child : QueryIter} {columns : List Column} {limit n : Nat}
    (ih : ∀ {x z}, fresh x = z → Leaves z (next fuel x)) :
    Leaves (fresh (.projection child columns limit n))
      (next (fuel + 1) (.projection child columns limit n)) := by
  simp only [next]
  refine (ih rfl).step Leaves.none fun r x hx => ?_
  dsimp only
  split
  · exact Leaves.some (by simp only [fresh, hx])
  · cases pick x.getColumns r.values columns with
    | error e => exact .error e
    | ok vs => exact Leaves.some (by simp only [fresh, hx])

end Operators

theorem leaves_calls (fuel : Nat) :
    (∀ {x z}, fresh x = z → Leaves z (next fuel x)) ∧
    ∀ {matched x z} i, fresh x = z → LeavesRight z (nextUnmatched fuel x i matched) := by
  induction fuel with
  | zero => exact ⟨fun _ => Leaves.none, fun _ _ => .ok fun _ hp => by cases hp⟩
  | succ fuel ih =>
      obtain ⟨ih, ihlast⟩ := ih
      refine ⟨?_, ?_⟩
      · rintro x _ rfl
        cases x with
        | relation child projected =>
            obtain ⟨scans, n, rest⟩ := child
            cases rest with
            | nil => exact Leaves.some rfl
            | cons r rest => exact Leaves.some rfl
        | selection child expressions => exact leaves_selection ih
        | cartesianProduct lhs rhs p q cur v => exact leaves_product ih
        | join lhs rhs columns cur v => exact leaves_join ih
        | leftOuterJoin lhs rhs columns cur v om => exact leaves_left ih
        | fullOuterJoin lhs rhs columns cur v w om i matched => exact leaves_full ih ihlast
        | projection child columns limit n => exact leaves_projection ih
      · rintro matched x _ i rfl
        exact leaves_unmatched ih ihlast i

/-- The calls of `next` and `reset` stay in the tree. -/
theorem Reached.fresh {it x : QueryIter} (h : Reached it x) : fresh x = fresh it := by
  induction h with
  | begin => rfl
  | next _ hnext ih => exact (((leaves_calls _).1 rfl) _ hnext _ rfl).trans ih
  | reset _ ih => exact (fresh_reset _).trans ih

/-! ## The restart -/

/-- A reset between two left rows restarts everything. -/
theorem reset_alike {x : QueryIter} (hdata : Unchanging x) (hx : Settled x) :
    Alike x.reset (Query.fresh x) := by
  induction x with
  | relation child projected =>
      have hscans : ∀ n, child.scans n = child.scans 0 := hdata
      exact .relation hscans hscans (hscans _)
  | selection child expressions ih => exact .selection (ih hdata hx)
  | cartesianProduct lhs rhs p q cur v ihl ihr =>
      obtain ⟨hl, hr, rfl⟩ := hx
      exact .cartesianProduct (ihl hdata.1 hl) (ihr hdata.2 hr) fun h => by cases h
  | join lhs rhs columns cur v ihl ihr =>
      obtain ⟨hl, hr, rfl⟩ := hx
      exact .join (ihl hdata.1 hl) (ihr hdata.2 hr) fun h => by cases h
  | leftOuterJoin lhs rhs columns cur v om ihl ihr =>
      exact .leftOuterJoin (ihl hdata.1 hx.1) (ihr hdata.2 hx.2) fun h => by cases h
  | fullOuterJoin lhs rhs columns cur v w om i matched ihl ihr =>
      exact .fullOuterJoin (ihl hdata.1 hx.1) (ihr hdata.2 hx.2) fun h => by cases h
  | projection child columns limit n ih => exact .projection (ih hdata hx)

theorem countRows_fresh {fuel n : Nat} {x y : QueryIter}
    (h : countRows fuel x = .ok (some (n, y))) : fresh y = fresh x := by
  induction fuel generalizing x n y with
  | zero => cases h
  | succ fuel ih =>
      simp only [countRows] at h
      obtain ⟨a, ha, h⟩ := Outcome.of_bind_ok h
      cases a with
      | none => cases h
      | some a =>
          obtain ⟨r, z⟩ := a
          have hz : Query.fresh z = Query.fresh x := ((leaves_calls fuel).1 rfl) _ ha _ rfl
          dsimp only at h
          split at h
          · cases h
            exact hz
          · obtain ⟨b, hb, h⟩ := Outcome.of_bind_ok h
            cases b with
            | none => cases h
            | some b =>
                cases h
                exact (ih hb).trans hz

/-- Both children begin. -/
theorem begin_children {fuel : Nat} {lhs rhs it : QueryIter}
    {f : Option QueryIter → Option QueryIter → Outcome (Option QueryIter)}
    (h : (begin fuel lhs >>= fun a => begin fuel rhs >>= fun b => f a b) = .ok (some it))
    (hleft : ∀ b, f none b = .ok none) (hright : ∀ a, f (some a) none = .ok none) :
    ∃ l r, begin fuel lhs = .ok (some l) ∧ begin fuel rhs = .ok (some r) ∧
      f (some l) (some r) = .ok (some it) := by
  obtain ⟨a, ha, h⟩ := Outcome.of_bind_ok h
  obtain ⟨b, hb, h⟩ := Outcome.of_bind_ok h
  cases a with
  | none =>
      rw [hleft] at h
      cases h
  | some l =>
      cases b with
      | none =>
          rw [hright] at h
          cases h
      | some r => exact ⟨l, r, ha, hb, h⟩

theorem begin_unchanging {fuel : Nat} {it it₀ : QueryIter}
    (h : begin fuel it = .ok (some it₀)) (hdata : Unchanging it) : Unchanging it₀ := by
  induction it generalizing it₀ with
  | relation child projected =>
      cases h
      exact hdata
  | selection child expressions ih =>
      obtain ⟨a, ha, h⟩ := Outcome.of_bind_ok h
      cases a with
      | none => cases h
      | some x =>
          cases h
          have hx : Unchanging x := ih ha hdata
          exact hx
  | cartesianProduct lhs rhs p q cur v ihl ihr =>
      obtain ⟨l, r, hl, hr, h⟩ := begin_children h (fun _ => rfl) fun _ => rfl
      cases h
      exact ⟨ihl hl hdata.1, ihr hr hdata.2⟩
  | join lhs rhs columns cur v ihl ihr =>
      obtain ⟨l, r, hl, hr, h⟩ := begin_children h (fun _ => rfl) fun _ => rfl
      cases h
      exact ⟨ihl hl hdata.1, ihr hr hdata.2⟩
  | leftOuterJoin lhs rhs columns cur v om ihl ihr =>
      obtain ⟨l, r, hl, hr, h⟩ := begin_children h (fun _ => rfl) fun _ => rfl
      cases h
      exact ⟨ihl hl hdata.1, ihr hr hdata.2⟩
  | fullOuterJoin lhs rhs columns cur v w om i matched ihl ihr =>
      obtain ⟨l, r, hl, hr, h⟩ := begin_children h (fun _ => rfl) fun _ => rfl
      obtain ⟨a, ha, h⟩ := Outcome.of_bind_ok h
      cases a with
      | none => cases h
      | some a =>
          obtain ⟨n, y⟩ := a
          cases h
          have hy : Query.fresh y.reset = Query.fresh r := (fresh_reset y).trans (countRows_fresh ha)
          refine ⟨ihl hl hdata.1, (unchanging_fresh _).mp ?_⟩
          rw [hy]
          exact (unchanging_fresh r).mpr (ihr hr hdata.2)
  | projection child columns limit n ih =>
      obtain ⟨a, ha, h⟩ := Outcome.of_bind_ok h
      cases a with
      | none => cases h
      | some x =>
          cases h
          have hx : Unchanging x := ih ha hdata
          exact hx

/-- After `begin` everything is at the start, unless the count of the right rows of a
full outer join was a reset in the middle of a row. -/
theorem begin_alike {fuel : Nat} {it it₀ : QueryIter} (h : begin fuel it = .ok (some it₀))
    (hdata : Unchanging it) (hunread : Unread it) (hsettled : Settled it₀) :
    Alike it₀ (Query.fresh it₀) := by
  induction it generalizing it₀ with
  | relation child projected =>
      cases h
      have hscans : ∀ n, child.scans n = child.scans 0 := hdata
      exact .relation hscans hscans hunread
  | selection child expressions ih =>
      obtain ⟨a, ha, h⟩ := Outcome.of_bind_ok h
      cases a with
      | none => cases h
      | some x =>
          cases h
          exact .selection (ih ha hdata hunread hsettled)
  | cartesianProduct lhs rhs p q cur v ihl ihr =>
      obtain ⟨l, r, hl, hr, h⟩ := begin_children h (fun _ => rfl) fun _ => rfl
      cases h
      exact .cartesianProduct (ihl hl hdata.1 hunread.1 hsettled.1)
        (ihr hr hdata.2 hunread.2 hsettled.2.1) fun h => by cases h
  | join lhs rhs columns cur v ihl ihr =>
      obtain ⟨l, r, hl, hr, h⟩ := begin_children h (fun _ => rfl) fun _ => rfl
      cases h
      exact .join (ihl hl hdata.1 hunread.1 hsettled.1)
        (ihr hr hdata.2 hunread.2 hsettled.2.1) fun h => by cases h
  | leftOuterJoin lhs rhs columns cur v om ihl ihr =>
      obtain ⟨l, r, hl, hr, h⟩ := begin_children h (fun _ => rfl) fun _ => rfl
      cases h
      exact .leftOuterJoin (ihl hl hdata.1 hunread.1 hsettled.1)
        (ihr hr hdata.2 hunread.2 hsettled.2) fun h => by cases h
  | fullOuterJoin lhs rhs columns cur v w om i matched ihl ihr =>
      obtain ⟨l, r, hl, hr, h⟩ := begin_children h (fun _ => rfl) fun _ => rfl
      obtain ⟨a, ha, h⟩ := Outcome.of_bind_ok h
      cases a with
      | none => cases h
      | some a =>
          obtain ⟨n, y⟩ := a
          cases h
          have hy : Unchanging y := by
            rw [← unchanging_fresh, countRows_fresh ha, unchanging_fresh]
            exact begin_unchanging hr hdata.2
          have hright := reset_alike hy ((settled_reset y).mp hsettled.2)
          rw [← fresh_reset] at hright
          have hmatched : (List.replicate n false).map (fun _ => false) = List.replicate n false := by
            rw [List.map_const', List.length_replicate]
          unfold Query.fresh
          rw [hmatched]
          exact .fullOuterJoin (ihl hl hdata.1 hunread.1 hsettled.1) hright fun h => by cases h
  | projection child columns limit n ih =>
      obtain ⟨a, ha, h⟩ := Outcome.of_bind_ok h
      cases a with
      | none => cases h
      | some x =>
          cases h
          exact .projection (ih ha hdata hunread hsettled)

/-- A reset after any calls, when no product and no join is in the middle of a left
row: the calls after it return what those after `begin` return. -/
theorem reset_restarts {fuel : Nat} {it it₀ x : QueryIter} (hdata : Unchanging it)
    (hunread : Unread it) (hbegin : begin fuel it = .ok (some it₀)) (hsettled : Settled it₀)
    (hreached : Reached it₀ x) (hx : Settled x) (fuel' n : Nat) :
    results fuel' n x.reset = results fuel' n it₀ := by
  have hdata₀ : Unchanging it₀ := begin_unchanging hbegin hdata
  have hdata' : Unchanging x := by
    rw [← unchanging_fresh, hreached.fresh, unchanging_fresh]
    exact hdata₀
  have hreset := (reset_alike hdata' hx).results fuel' n
  rw [hreached.fresh] at hreset
  rw [hreset, (begin_alike hbegin hdata hunread hsettled).results fuel' n]

/-- A product of the rows 1, 2 and 3. -/
def twoByOne : QueryIter :=
  .cartesianProduct (intTable (fun _ => [1, 2]) onId.lhs) (intTable (fun _ => [3]) onId.rhs)
    onId.lhs onId.rhs Record.empty false

/-- A reset after the third call, which finds no more rows. -/
theorem reset_restarts_end : ∃ x₁ x₂ x₃ r₁ r₂ r₃, next 6 twoByOne = .ok (some (r₁, x₁)) ∧
    next 6 x₁ = .ok (some (r₂, x₂)) ∧ next 6 x₂ = .ok (some (r₃, x₃)) ∧
      ∀ fuel n, results fuel n x₃.reset = results fuel n twoByOne := by
  have hdata : Unchanging twoByOne := ⟨fun _ => rfl, fun _ => rfl⟩
  have hunread : Unread twoByOne := ⟨rfl, rfl⟩
  have hbegin : begin 0 twoByOne = .ok (some twoByOne) := rfl
  have hsettled : Settled twoByOne := ⟨trivial, trivial, rfl⟩
  have hreached : ∀ {x₁ x₂ x₃ r₁ r₂ r₃}, next 6 twoByOne = .ok (some (r₁, x₁)) →
      next 6 x₁ = .ok (some (r₂, x₂)) → next 6 x₂ = .ok (some (r₃, x₃)) → Reached twoByOne x₃ :=
    fun h₁ h₂ h₃ => .next (.next (.next .begin h₁) h₂) h₃
  refine ⟨_, _, _, _, _, _, rfl, rfl, rfl, ?_⟩
  exact reset_restarts hdata hunread hbegin hsettled (hreached rfl rfl rfl) ⟨trivial, trivial, rfl⟩

/-- A reset after the first call: the first row comes twice. -/
theorem reset_repeats : ¬ ∀ it it₀ x : QueryIter, Unchanging it → Unread it →
    (∃ fuel, begin fuel it = .ok (some it₀)) → Reached it₀ x →
      ∀ fuel n, results fuel n x.reset = results fuel n it₀ := by
  intro h
  have hnext : ∃ r x, next 4 twoByOne = .ok (some (r, x)) ∧
      results 4 2 x.reset ≠ results 4 2 twoByOne := by
    refine ⟨_, _, rfl, ?_⟩
    decide
  obtain ⟨r, x, hx, hne⟩ := hnext
  exact hne (h twoByOne twoByOne x ⟨fun _ => rfl, fun _ => rfl⟩ ⟨rfl, rfl⟩ ⟨0, rfl⟩
    (.next .begin hx) 4 2)

end Iic3413Db.Query
