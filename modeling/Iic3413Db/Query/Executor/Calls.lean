/-
  Query/Executor/Calls.lean --- the results of the calls of `next`, also of those
  that fail, and what the two outer joins rely on in their children.

  `Scans` numbers the scans of an iterator: the one after `begin` is the first, and
  every reset starts the next.  The rows of two scans may differ.
-/
import Iic3413Db.Query.Executor.Products

set_option autoImplicit false

namespace Iic3413Db.Query

open Iic3413Db.RelationalModel
open QueryIter

/-! ## Results of calls -/

/-- `next` fails. -/
def Fails (it : QueryIter) (e : Fault) : Prop := ∃ n, ∀ m, n ≤ m → next m it = .error e

/-- Without a record the loop of `next` goes on as that of another iterator. -/
def Proceeds (it it' : QueryIter) : Prop := ∃ n j, ∀ m, n ≤ m → next (m + j) it = next m it'

/-- `next` computes a record, which may fail, and leaves `it'`. -/
def Emits (it : QueryIter) (o : Outcome Record) (it' : QueryIter) : Prop :=
  ∃ n, ∀ m, n ≤ m → next (m + 1) it = o >>= fun r => .ok (some (r, it'))

/-- What the calls of `next` return, one after the other.  After a call that fails
there is none, and the list may be anything. -/
inductive Calls : QueryIter → List (Outcome Record) → Prop
  | nil (it : QueryIter) : Calls it []
  | ok {it it' : QueryIter} {r : Record} {os : List (Outcome Record)} (h : Next it r it')
      (hrest : Calls it' os) : Calls it (.ok r :: os)
  | fault {it : QueryIter} {e : Fault} {os : List (Outcome Record)} (h : Fails it e) :
      Calls it (.error e :: os)

/-- After `k` calls that return, one fails. -/
inductive FaultsAt : QueryIter → Fault → Nat → Prop
  | now {it : QueryIter} {e : Fault} (h : Fails it e) : FaultsAt it e 0
  | later {it it' : QueryIter} {r : Record} {e : Fault} {k : Nat} (h : Next it r it')
      (hrest : FaultsAt it' e k) : FaultsAt it e (k + 1)

section Calls

variable {it it' : QueryIter} {r : Record} {e e' : Fault} {o : Outcome Record}
  {os os' : List (Outcome Record)} {k : Nat}

theorem Fails.unique (h : Fails it e) (h' : Fails it e') : e = e' := by
  obtain ⟨n, hn⟩ := h
  obtain ⟨n', hn'⟩ := h'
  have heq := (hn _ (Nat.le_max_left n n')).symm.trans (hn' _ (Nat.le_max_right n n'))
  simpa using heq

theorem Fails.not_next (h : Fails it e) (h' : Next it r it') : False := by
  obtain ⟨n, hn⟩ := h
  obtain ⟨n', hn'⟩ := h'
  have heq := (hn _ (Nat.le_max_left n n')).symm.trans (hn' _ (Nat.le_max_right n n'))
  cases heq

theorem Proceeds.next (h : Proceeds it it') {it'' : QueryIter} (hnext : Next it' r it'') :
    Next it r it'' := by
  obtain ⟨n, j, hn⟩ := h
  obtain ⟨k, hk⟩ := hnext
  refine ⟨max n k + j, fun m hm => ?_⟩
  obtain ⟨m, rfl⟩ := Nat.exists_eq_add_of_le' (le_trans (Nat.le_add_left j _) hm)
  have hle : max n k ≤ m := Nat.le_of_add_le_add_right hm
  rw [hn m (le_trans (Nat.le_max_left n k) hle), hk m (le_trans (Nat.le_max_right n k) hle)]

theorem Proceeds.fails (h : Proceeds it it') (hfails : Fails it' e) : Fails it e := by
  obtain ⟨n, j, hn⟩ := h
  obtain ⟨k, hk⟩ := hfails
  refine ⟨max n k + j, fun m hm => ?_⟩
  obtain ⟨m, rfl⟩ := Nat.exists_eq_add_of_le' (le_trans (Nat.le_add_left j _) hm)
  have hle : max n k ≤ m := Nat.le_of_add_le_add_right hm
  rw [hn m (le_trans (Nat.le_max_left n k) hle), hk m (le_trans (Nat.le_max_right n k) hle)]

theorem Calls.proceed (h : Proceeds it it') (hcalls : Calls it' os) : Calls it os := by
  cases hcalls with
  | nil => exact .nil it
  | ok hnext hrest => exact .ok (h.next hnext) hrest
  | fault hfails => exact .fault (h.fails hfails)

theorem Calls.emit (h : Emits it o it') (hcalls : Calls it' os) : Calls it (o :: os) := by
  obtain ⟨n, hn⟩ := h
  cases o with
  | ok r => exact .ok (.of_succ n fun m hm => by rw [hn m hm, Outcome.ok_bind]) hcalls
  | error e =>
      refine .fault ⟨n + 1, fun m hm => ?_⟩
      cases m with
      | zero => exact absurd hm (Nat.not_succ_le_zero n)
      | succ m => rw [hn m (Nat.le_of_succ_le_succ hm), Outcome.error_bind]

/-- The first call that fails, when all that fail do so alike. -/
theorem Calls.faults (h : Calls it os) (hmem : .error e ∈ os)
    (hall : ∀ o ∈ os, (∃ r, o = .ok r) ∨ o = .error e) : ∃ k, FaultsAt it e k := by
  induction h with
  | nil => cases hmem
  | ok hnext _ ih =>
      rcases List.mem_cons.mp hmem with heq | hmem
      · cases heq
      obtain ⟨k, hk⟩ := ih hmem fun o ho => hall o (List.mem_cons_of_mem _ ho)
      exact ⟨k + 1, .later hnext hk⟩
  | fault hfails =>
      rcases hall _ List.mem_cons_self with ⟨r, heq⟩ | heq
      · cases heq
      · obtain rfl := Except.error.inj heq
        exact ⟨0, .now hfails⟩

/-- A failure within the calls of the list is in the list. -/
theorem FaultsAt.mem (h : FaultsAt it e k) (hcalls : Calls it os) (hlt : k < os.length) :
    .error e ∈ os := by
  induction h generalizing os with
  | now hfails =>
      cases hcalls with
      | nil => exact absurd hlt (Nat.not_lt_zero _)
      | ok hnext _ => exact (hfails.not_next hnext).elim
      | fault hfails' =>
          obtain rfl := hfails.unique hfails'
          exact List.mem_cons_self
  | later hnext _ ih =>
      cases hcalls with
      | nil => exact absurd hlt (Nat.not_lt_zero _)
      | ok hnext' hrest =>
          obtain ⟨rfl, rfl⟩ := hnext.unique hnext'
          exact List.mem_cons_of_mem _ (ih hrest (Nat.lt_of_succ_lt_succ hlt))
      | fault hfails => exact (hfails.not_next hnext).elim

/-- When the later calls all return, it is in the list before them. -/
theorem FaultsAt.mem_of_later (h : FaultsAt it e k)
    (hcalls : ∀ n, Calls it (os ++ List.replicate n (.ok r))) : .error e ∈ os := by
  have hlt : k < (os ++ List.replicate (k + 1) (Except.ok r : Outcome Record)).length := by
    rw [List.length_append, List.length_replicate]
    omega
  rcases List.mem_append.mp (h.mem (hcalls (k + 1)) hlt) with hmem | hmem
  · exact hmem
  · cases List.eq_of_mem_replicate hmem

end Calls

/-! ## Scans -/

/-- An iterator at the start and at the end of each scan. -/
structure Scans (scans : Nat → List Record) where
  start : Nat → QueryIter → Prop
  ended : Nat → QueryIter → Prop
  scan : ∀ {n it}, start n it → ∃ it', Yields it (scans n) it' ∧ ended n it'
  rest : ∀ {n it}, ended n it → ∃ r it', Next it r it' ∧ r.invalid = true ∧ ended n it'
  resetStart : ∀ {n it}, start n it → start (n + 1) it.reset
  resetEnded : ∀ {n it}, ended n it → start (n + 1) it.reset

/-- Every call returns the empty record, or another invalid one. -/
def Over (it : QueryIter) : Prop :=
  ∃ S : QueryIter → Prop, S it ∧ ∀ x, S x → ∃ r y, Next x r y ∧ r.invalid = true ∧ S y

theorem Over.step {it : QueryIter} (h : Over it) :
    ∃ r it', Next it r it' ∧ r.invalid = true ∧ Over it' := by
  obtain ⟨S, hit, hS⟩ := h
  obtain ⟨r, y, hnext, hr, hy⟩ := hS it hit
  exact ⟨r, y, hnext, hr, S, hy, hS⟩

theorem Over.of_yields {it it' : QueryIter} (hy : Yields it [] it') (h : Over it') : Over it := by
  obtain ⟨S, hit, hS⟩ := h
  cases hy with
  | done hnext hr =>
      refine ⟨fun x => x = it ∨ S x, .inl rfl, ?_⟩
      rintro x (rfl | hx)
      · exact ⟨_, _, hnext, hr, .inr hit⟩
      · obtain ⟨r, y, hnext', hr', hy⟩ := hS x hx
        exact ⟨r, y, hnext', hr', .inr hy⟩

theorem Scans.over {scans : Nat → List Record} (p : Scans scans) {n : Nat} {it : QueryIter}
    (h : p.ended n it) : Over it := ⟨p.ended n, h, fun _ hx => p.rest hx⟩

/-- The rows of each scan after `begin`. -/
def Feeds (scans : Nat → List Record) (it : QueryIter) : Prop :=
  ∃ it', Begins it it' ∧ ∃ p : Scans scans, p.start 0 it'

/-- The scans of a table, whatever others commit in between. -/
theorem relation_feeds {scans : Nat → List Record} {projected : List ProjectedColumn}
    (h : ∀ n, ∀ r ∈ scans n, r.invalid = false) :
    Feeds scans (.relation ⟨scans, 0, scans 0⟩ projected) := by
  refine ⟨_, ⟨0, fun _ _ => rfl⟩, ?_⟩
  refine ⟨⟨fun n it => it = .relation ⟨scans, n, scans n⟩ projected,
    fun n it => it = .relation ⟨scans, n, []⟩ projected, ?_, ?_, ?_, ?_⟩, rfl⟩
  · rintro n it rfl
    exact ⟨_, relation_yields n (scans n) (h n), rfl⟩
  · rintro n it rfl
    have hyields := @relation_yields scans projected n [] (fun r hr => nomatch hr)
    cases hyields with
    | done hnext hr => exact ⟨_, _, hnext, hr, rfl⟩
  · rintro n it rfl
    rfl
  · rintro n it rfl
    rfl

section Selections

variable {child child' : QueryIter} {expressions : List Expr} {keep : Record → Bool}

theorem selection_done {r : Record} (h : Next child r child') (hr : r.invalid = true) :
    Next (.selection child expressions) Record.empty (.selection child' expressions) := by
  obtain ⟨n, hn⟩ := h
  exact .of_succ n fun m hm => by simp only [next, hn m hm, Outcome.ok_bind, hr, if_true]

theorem selection_yields {rs : List Record} (h : Yields child rs child')
    (hkeep : ∀ r ∈ rs, matchesAll r expressions = .ok (keep r)) :
    Yields (.selection child expressions) (rs.filter keep) (.selection child' expressions) := by
  induction h with
  | done hnext hr => exact .done (selection_done hnext hr) rfl
  | @more child _ _ r rs hnext hr _ ih =>
      have hlater := ih fun s hs => hkeep s (List.mem_cons_of_mem r hs)
      have hfirst := hkeep r List.mem_cons_self
      obtain ⟨n, hn⟩ := hnext
      cases hk : keep r with
      | true =>
          rw [List.filter_cons_of_pos hk]
          refine .more (.of_succ n fun m hm => ?_) hr hlater
          simp only [next, hn m hm, Outcome.ok_bind, hr, Bool.false_eq_true, if_false, hfirst, hk,
            if_true]
      | false =>
          rw [List.filter_cons_of_neg (by rw [hk]; exact Bool.false_ne_true)]
          refine hlater.of_next fun s z hs => Proceeds.next ⟨n, 1, fun m hm => ?_⟩ hs
          simp only [next, hn m hm, Outcome.ok_bind, hr, Bool.false_eq_true, if_false, hfirst, hk]

/-- A selection goes through the same scans, and keeps some rows of each. -/
theorem selection_feeds {scans : Nat → List Record} (h : Feeds scans child)
    (hkeep : ∀ n, ∀ r ∈ scans n, matchesAll r expressions = .ok (keep r)) :
    Feeds (fun n => (scans n).filter keep) (.selection child expressions) := by
  obtain ⟨child₀, ⟨n, hn⟩, p, hp⟩ := h
  refine ⟨.selection child₀ expressions, ⟨n, fun m hm => ?_⟩, ?_⟩
  · simp only [begin, hn m hm, Outcome.ok_bind]
  refine ⟨⟨fun n it => ∃ x, it = .selection x expressions ∧ p.start n x,
    fun n it => ∃ x, it = .selection x expressions ∧ p.ended n x, ?_, ?_, ?_, ?_⟩, _, rfl, hp⟩
  · rintro n it ⟨x, rfl, hx⟩
    obtain ⟨y, hyields, hy⟩ := p.scan hx
    exact ⟨_, selection_yields hyields (hkeep n), y, rfl, hy⟩
  · rintro n it ⟨x, rfl, hx⟩
    obtain ⟨r, y, hnext, hr, hy⟩ := p.rest hx
    exact ⟨_, _, selection_done hnext hr, rfl, y, rfl, hy⟩
  · rintro n it ⟨x, rfl, hx⟩
    exact ⟨_, rfl, p.resetStart hx⟩
  · rintro n it ⟨x, rfl, hx⟩
    exact ⟨_, rfl, p.resetEnded hx⟩

end Selections

/-! ## Tables of integers -/

/-- `ON l.id == r.id`, and both columns in the result. -/
def onId : JoinColumns where
  lhs := [⟨0, ⟨[108], [108], ⟨[105, 100], .int, 0⟩⟩⟩]
  rhs := [⟨0, ⟨[108], [114], ⟨[105, 100], .int, 1⟩⟩⟩]
  equalities := [(0, 0)]

/-- A row of one integer. -/
def intRow (i : Int) : Record := ⟨[.int i]⟩

/-- The scan of a table of such rows. -/
def intTable (scans : Nat → List Int) (projected : List ProjectedColumn) : QueryIter :=
  .relation ⟨fun n => (scans n).map intRow, 0, (scans 0).map intRow⟩ projected

theorem intTable_feeds (scans : Nat → List Int) (projected : List ProjectedColumn) :
    Feeds (fun n => (scans n).map intRow) (intTable scans projected) := by
  refine relation_feeds fun n r hr => ?_
  obtain ⟨i, _, rfl⟩ := List.mem_map.mp hr
  rfl

theorem intRow_inside {rows : List Int} : ∀ r ∈ rows.map intRow, 0 < r.values.length := by
  intro r hr
  obtain ⟨i, _, rfl⟩ := List.mem_map.mp hr
  exact Nat.zero_lt_one

end Iic3413Db.Query
