/-
  Query/Executor/Delivers.lean --- what an iterator delivers, and the nested loop.

  `Next` says what a call of `next` returns once there is fuel enough for its
  loops, so a rule about one call needs no count.  `Delivers` is what a parent may
  rely on: the same records after `begin` and after every reset of a scan that is
  over.  `NestedLoop` is what a product and a join have in common.
-/
import Iic3413Db.Query.Executor.QueryIter

set_option autoImplicit false

namespace Iic3413Db.Query

open Iic3413Db.RelationalModel
open QueryIter

/-! ## One call, and all calls -/

/-- `next` returns `r` and leaves `it'`. -/
def Next (it : QueryIter) (r : Record) (it' : QueryIter) : Prop :=
  ∃ n, ∀ m, n ≤ m → next m it = .ok (some (r, it'))

/-- `begin` leaves `it'`. -/
def Begins (it it' : QueryIter) : Prop := ∃ n, ∀ m, n ≤ m → begin m it = .ok (some it')

/-- The calls of `next` up to the one that returns an invalid record. -/
inductive Yields : QueryIter → List Record → QueryIter → Prop
  | done {it it' : QueryIter} {r : Record} (h : Next it r it') (hr : r.invalid = true) :
      Yields it [] it'
  | more {it it' it'' : QueryIter} {r : Record} {rs : List Record} (h : Next it r it')
      (hr : r.invalid = false) (hrest : Yields it' rs it'') : Yields it (r :: rs) it''

/-- An iterator between two scans: after a reset it yields `rs`, and so on. -/
def Serves (rs : List Record) (it : QueryIter) : Prop :=
  ∃ S : QueryIter → Prop, S it ∧ ∀ x, S x → S x.reset ∧ ∃ y, Yields x.reset rs y ∧ S y

/-- The records of the scan that `begin` starts. -/
def Drains (it : QueryIter) (rs : List Record) : Prop :=
  ∃ it₀ it₁, Begins it it₀ ∧ Yields it₀ rs it₁

/-- The records of every scan. -/
def Delivers (it : QueryIter) (rs : List Record) : Prop :=
  ∃ it₀ it₁, Begins it it₀ ∧ Serves rs it₀ ∧ Yields it₀ rs it₁ ∧ Serves rs it₁

section Basic

variable {it it' it₁ it₂ : QueryIter} {r s : Record} {rs ss : List Record}

/-- Every call has one step of its own. -/
theorem Next.of_succ (n : Nat)
    (h : ∀ m, n ≤ m → next (m + 1) it = .ok (some (r, it'))) : Next it r it' := by
  refine ⟨n + 1, fun m hm => ?_⟩
  cases m with
  | zero => exact absurd hm (Nat.not_succ_le_zero n)
  | succ m => exact h m (Nat.le_of_succ_le_succ hm)

theorem Next.unique (h : Next it r it₁) (h' : Next it s it₂) : r = s ∧ it₁ = it₂ := by
  obtain ⟨n, hn⟩ := h
  obtain ⟨n', hn'⟩ := h'
  have heq := (hn _ (Nat.le_max_left n n')).symm.trans (hn' _ (Nat.le_max_right n n'))
  simpa using heq

theorem Begins.unique (h : Begins it it₁) (h' : Begins it it₂) : it₁ = it₂ := by
  obtain ⟨n, hn⟩ := h
  obtain ⟨n', hn'⟩ := h'
  have heq := (hn _ (Nat.le_max_left n n')).symm.trans (hn' _ (Nat.le_max_right n n'))
  simpa using heq

theorem Yields.unique (h : Yields it rs it₁) (h' : Yields it ss it₂) : rs = ss := by
  induction h generalizing ss with
  | done h hr =>
      cases h' with
      | done h' hr' => rfl
      | more h' hr' hrest =>
          obtain ⟨rfl, rfl⟩ := h.unique h'
          rw [hr] at hr'
          cases hr'
  | more h hr hrest ih =>
      cases h' with
      | done h' hr' =>
          obtain ⟨rfl, rfl⟩ := h.unique h'
          rw [hr] at hr'
          cases hr'
      | more h' hr' hrest' =>
          obtain ⟨rfl, rfl⟩ := h.unique h'
          rw [ih hrest']

theorem Drains.unique (h : Drains it rs) (h' : Drains it ss) : rs = ss := by
  obtain ⟨_, _, hbegin, hyields⟩ := h
  obtain ⟨_, _, hbegin', hyields'⟩ := h'
  obtain rfl := hbegin.unique hbegin'
  exact hyields.unique hyields'

/-- What is delivered is valid. -/
theorem Yields.valid (h : Yields it rs it') : ∀ r ∈ rs, r.invalid = false := by
  induction h with
  | done h hr => simp
  | more h hr hrest ih =>
      intro r hr'
      rcases List.mem_cons.mp hr' with rfl | hr'
      · exact hr
      · exact ih r hr'

theorem Delivers.drains (h : Delivers it rs) : Drains it rs := by
  obtain ⟨it₀, it₁, hbegin, _, hyields, _⟩ := h
  exact ⟨it₀, it₁, hbegin, hyields⟩

/-- An iterator whose first call is that of another. -/
theorem Yields.of_next (h : ∀ s z, Next it₁ s z → Next it₂ s z) (hy : Yields it₁ rs it') :
    Yields it₂ rs it' := by
  cases hy with
  | done hnext hr => exact .done (h _ _ hnext) hr
  | more hnext hr hrest => exact .more (h _ _ hnext) hr hrest

theorem Serves.reset (h : Serves rs it) : Serves rs it.reset := by
  obtain ⟨S, hit, hS⟩ := h
  exact ⟨S, (hS it hit).1, hS⟩

theorem Serves.pass (h : Serves rs it) : ∃ it', Yields it.reset rs it' ∧ Serves rs it' := by
  obtain ⟨S, hit, hS⟩ := h
  obtain ⟨_, y, hy, hSy⟩ := hS it hit
  exact ⟨y, hy, S, hSy, hS⟩

end Basic

/-! ## Tables -/

section Tables

variable {scans : Nat → List Record} {rows : List Record} {projected : List ProjectedColumn}

theorem relation_yields (scan : Nat) (rest : List Record) (h : ∀ r ∈ rest, r.invalid = false) :
    Yields (.relation ⟨scans, scan, rest⟩ projected) rest
      (.relation ⟨scans, scan, []⟩ projected) := by
  induction rest with
  | nil =>
      have hnext : Next (.relation ⟨scans, scan, []⟩ projected) Record.empty
          (.relation ⟨scans, scan, []⟩ projected) :=
        .of_succ 0 fun _ _ => by simp only [next, RelationIter.next]
      exact .done hnext rfl
  | cons r rest ih =>
      have hrest := ih fun s hs => h s (List.mem_cons_of_mem r hs)
      have hnext : Next (.relation ⟨scans, scan, r :: rest⟩ projected) r
          (.relation ⟨scans, scan, rest⟩ projected) :=
        .of_succ 0 fun _ _ => by simp only [next, RelationIter.next]
      exact .more hnext (h r List.mem_cons_self) hrest

/-- A table that does not change. -/
theorem relation_delivers (hscans : ∀ n, scans n = rows) (h : ∀ r ∈ rows, r.invalid = false)
    (scan : Nat) : Delivers (.relation ⟨scans, scan, rows⟩ projected) rows := by
  have hserves : ∀ rest n, Serves rows (.relation ⟨scans, n, rest⟩ projected) := by
    intro rest n
    refine ⟨fun it => ∃ n rest, it = .relation ⟨scans, n, rest⟩ projected, ⟨n, rest, rfl⟩, ?_⟩
    rintro it ⟨n, rest, rfl⟩
    simp only [reset, RelationIter.reset, hscans]
    exact ⟨⟨_, _, rfl⟩, _, relation_yields (n + 1) rows h, _, _, rfl⟩
  exact ⟨_, _, ⟨0, fun _ _ => rfl⟩, hserves rows scan, relation_yields scan rows h,
    hserves [] scan⟩

end Tables

/-! ## Nested loops -/

/-- The rules of one call that a product and a join share: `node` is the iterator
with its children, the left record and `valid_lhs`, and `pair` what two records of
the children come to. -/
structure NestedLoop (node : QueryIter → QueryIter → Record → Bool → QueryIter)
    (pair : Record → Record → Option Record) (ls rs : List Record) : Prop where
  begins : ∀ {lhs rhs lhs' rhs' l b}, Begins lhs lhs' → Begins rhs rhs' →
    Begins (node lhs rhs l b) (node lhs' rhs' l false)
  reset : ∀ lhs rhs l b, (node lhs rhs l b).reset = node lhs.reset rhs.reset l b
  /-- the left child is over -/
  done : ∀ {lhs lhs' rhs l r}, Next lhs r lhs' → r.invalid = true →
    Next (node lhs rhs l false) Record.empty (node lhs' rhs r false)
  /-- a left record, and the right child from the start -/
  left : ∀ {lhs lhs' rhs l r s z}, Next lhs r lhs' → r.invalid = false →
    Next (node lhs' rhs.reset r true) s z → Next (node lhs rhs l false) s z
  meet : ∀ {lhs rhs rhs' l r s}, l ∈ ls → r ∈ rs → r.invalid = false → Next rhs r rhs' →
    pair l r = some s → Next (node lhs rhs l true) s (node lhs rhs' l true)
  skip : ∀ {lhs rhs rhs' l r s z}, l ∈ ls → r ∈ rs → r.invalid = false → Next rhs r rhs' →
    pair l r = none → Next (node lhs rhs' l true) s z → Next (node lhs rhs l true) s z
  /-- the right child is over -/
  right : ∀ {lhs rhs rhs' l r s z}, Next rhs r rhs' → r.invalid = true →
    Next (node lhs rhs' l false) s z → Next (node lhs rhs l true) s z

namespace NestedLoop

variable {node : QueryIter → QueryIter → Record → Bool → QueryIter}
  {pair : Record → Record → Option Record} {ls rs : List Record}

/-- The rows of one left record. -/
theorem row (h : NestedLoop node pair ls rs)
    (hvalid : ∀ l ∈ ls, ∀ r ∈ rs, ∀ s, pair l r = some s → s.invalid = false)
    {lhs rhs rhs' z : QueryIter} {l : Record} {rs' out : List Record} (hl : l ∈ ls)
    (hy : Yields rhs rs' rhs') (hsub : ∀ r ∈ rs', r ∈ rs)
    (hrest : Yields (node lhs rhs' l false) out z) :
    Yields (node lhs rhs l true) (rs'.filterMap (pair l) ++ out) z := by
  induction hy with
  | done hnext hr => exact hrest.of_next fun s z => h.right hnext hr
  | @more rhs rhs' _ r rs' hnext hr _ ih =>
      have hmem : r ∈ rs := hsub r List.mem_cons_self
      have hlater := ih (fun x hx => hsub x (List.mem_cons_of_mem r hx)) hrest
      cases hp : pair l r with
      | none =>
          rw [List.filterMap_cons_none hp]
          exact hlater.of_next fun s z => h.skip hl hmem hr hnext hp
      | some s =>
          rw [List.filterMap_cons_some hp, List.cons_append]
          exact .more (h.meet hl hmem hr hnext hp) (hvalid l hl r hmem s hp) hlater

/-- The rows of the left records that are left. -/
theorem pass (h : NestedLoop node pair ls rs)
    (hvalid : ∀ l ∈ ls, ∀ r ∈ rs, ∀ s, pair l r = some s → s.invalid = false)
    {lhs lhs' rhs : QueryIter} (cur : Record) {ls' : List Record} (hy : Yields lhs ls' lhs')
    (hsub : ∀ l ∈ ls', l ∈ ls) (hserves : Serves rs rhs) :
    ∃ rhs' cur', Serves rs rhs' ∧ Yields (node lhs rhs cur false)
      (ls'.flatMap fun l => rs.filterMap (pair l)) (node lhs' rhs' cur' false) := by
  induction hy generalizing rhs cur with
  | @done lhs lhs' r hnext hr => exact ⟨rhs, r, hserves, .done (h.done hnext hr) rfl⟩
  | @more lhs lhs₁ _ l ls' hnext hl _ ih =>
      have hmem : l ∈ ls := hsub l List.mem_cons_self
      obtain ⟨rhs₁, hy₁, hserves₁⟩ := hserves.pass
      obtain ⟨rhs', cur', hserves', hlater⟩ :=
        ih l (fun x hx => hsub x (List.mem_cons_of_mem l hx)) hserves₁
      have hrow := h.row hvalid hmem hy₁ (fun _ hr => hr) hlater
      exact ⟨rhs', cur', hserves', hrow.of_next fun s z => h.left hnext hl⟩

/-- The scan a nested loop begins with needs one scan of the left child. -/
theorem drains (h : NestedLoop node pair ls rs)
    (hvalid : ∀ l ∈ ls, ∀ r ∈ rs, ∀ s, pair l r = some s → s.invalid = false)
    {lhs rhs : QueryIter} (cur : Record) (b : Bool) (hlhs : Drains lhs ls)
    (hrhs : Delivers rhs rs) :
    Drains (node lhs rhs cur b) (ls.flatMap fun l => rs.filterMap (pair l)) := by
  obtain ⟨lhs₀, lhs₁, hbegin, hyields⟩ := hlhs
  obtain ⟨rhs₀, _, hbegin', hserves, _, _⟩ := hrhs
  obtain ⟨rhs', cur', _, hy⟩ := h.pass hvalid cur hyields (fun _ hl => hl) hserves
  exact ⟨_, _, h.begins hbegin hbegin', hy⟩

/-- A nested loop delivers its pairs, when none of them is an invalid record. -/
theorem delivers (h : NestedLoop node pair ls rs)
    (hvalid : ∀ l ∈ ls, ∀ r ∈ rs, ∀ s, pair l r = some s → s.invalid = false)
    {lhs rhs : QueryIter} (cur : Record) (b : Bool) (hlhs : Delivers lhs ls)
    (hrhs : Delivers rhs rs) :
    Delivers (node lhs rhs cur b) (ls.flatMap fun l => rs.filterMap (pair l)) := by
  obtain ⟨lhs₀, lhs₁, hbegin, hserves₀, hyields, hserves₁⟩ := hlhs
  obtain ⟨rhs₀, _, hbegin', hserves₀', _, _⟩ := hrhs
  have hrests : ∀ {l r : QueryIter} (c : Record), Serves ls l → Serves rs r →
      Serves (ls.flatMap fun l => rs.filterMap (pair l)) (node l r c false) := by
    intro l r c hl hr
    refine ⟨fun x => ∃ l r c, x = node l r c false ∧ Serves ls l ∧ Serves rs r,
      ⟨l, r, c, rfl, hl, hr⟩, ?_⟩
    rintro x ⟨l, r, c, rfl, hl, hr⟩
    rw [h.reset]
    refine ⟨⟨_, _, _, rfl, hl.reset, hr.reset⟩, ?_⟩
    obtain ⟨l', hy, hl'⟩ := hl.pass
    obtain ⟨r', c', hr', hy'⟩ := h.pass hvalid c hy (fun _ hl => hl) hr.reset
    exact ⟨_, hy', _, _, _, rfl, hl', hr'⟩
  obtain ⟨rhs', cur', hserves', hy'⟩ := h.pass hvalid cur hyields (fun _ hl => hl) hserves₀'
  exact ⟨_, _, h.begins hbegin hbegin', hrests cur hserves₀ hserves₀', hy',
    hrests cur' hserves₁ hserves'⟩

/-- When the first two records come to an invalid one, the scan is over. -/
theorem stops (h : NestedLoop node pair ls rs) {lhs rhs : QueryIter} (cur : Record) (b : Bool)
    (hlhs : Drains lhs ls) (hrhs : Delivers rhs rs) (hls : ls ≠ []) (hrs : rs ≠ [])
    (hinvalid : ∀ l ∈ ls, ∀ r ∈ rs, ∃ s, pair l r = some s ∧ s.invalid = true) :
    Drains (node lhs rhs cur b) [] := by
  obtain ⟨lhs₀, lhs₁, hbegin, hyields⟩ := hlhs
  obtain ⟨rhs₀, _, hbegin', hserves, _, _⟩ := hrhs
  obtain ⟨_, hyields', _⟩ := hserves.pass
  cases hyields with
  | done _ _ => exact absurd rfl hls
  | more hleft hl _ =>
      cases hyields' with
      | done _ _ => exact absurd rfl hrs
      | more hright hr _ =>
          obtain ⟨s, hp, hs⟩ := hinvalid _ List.mem_cons_self _ List.mem_cons_self
          exact ⟨_, _, h.begins hbegin hbegin', .done (h.left hleft hl
            (h.meet List.mem_cons_self List.mem_cons_self hr hright hp)) hs⟩

end NestedLoop

end Iic3413Db.Query
