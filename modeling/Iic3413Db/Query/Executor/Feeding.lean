/-
  Query/Executor/Feeding.lean --- what each iterator feeds its parent, when its children feed it
  the same records at every scan.

  `Feeds` says more than `Delivers`: after a scan is over, `next` goes on returning invalid
  records, and a full outer join calls it again for each right row without a match.
-/
import Iic3413Db.Query.Executor.OuterJoinPairs
import Iic3413Db.Query.Executor.Products
import Iic3413Db.Query.Executor.Resets

set_option autoImplicit false

namespace Iic3413Db.Query

open Iic3413Db.RelationalModel
open QueryIter

/-! ## Columns stay -/

section Columns

variable {it it' : QueryIter} {r : Record} {rs : List Record}

theorem fresh_getColumns (it : QueryIter) : (fresh it).getColumns = it.getColumns := by
  induction it with
  | relation child projected => rfl
  | selection child expressions ih => exact ih
  | cartesianProduct | join | leftOuterJoin | fullOuterJoin | projection => rfl

theorem begin_getColumns {fuel : Nat} (h : begin fuel it = .ok (some it')) :
    it'.getColumns = it.getColumns := by
  induction it generalizing it' with
  | relation child projected =>
      cases h
      rfl
  | selection child expressions ih =>
      obtain ⟨a, ha, h⟩ := Outcome.of_bind_ok h
      cases a with
      | none => cases h
      | some x =>
          cases h
          have hx := ih ha
          exact hx
  | cartesianProduct lhs rhs p q cur v _ _ =>
      obtain ⟨l, r, _, _, h⟩ := begin_children h (fun _ => rfl) fun _ => rfl
      cases h
      rfl
  | join lhs rhs columns cur v _ _ =>
      obtain ⟨l, r, _, _, h⟩ := begin_children h (fun _ => rfl) fun _ => rfl
      cases h
      rfl
  | leftOuterJoin lhs rhs columns cur v om _ _ =>
      obtain ⟨l, r, _, _, h⟩ := begin_children h (fun _ => rfl) fun _ => rfl
      cases h
      rfl
  | fullOuterJoin lhs rhs columns cur v w om i matched _ _ =>
      obtain ⟨l, r, _, _, h⟩ := begin_children h (fun _ => rfl) fun _ => rfl
      obtain ⟨a, _, h⟩ := Outcome.of_bind_ok h
      cases a with
      | none => cases h
      | some a =>
          cases h
          rfl
  | projection child columns limit n _ =>
      obtain ⟨a, _, h⟩ := Outcome.of_bind_ok h
      cases a with
      | none => cases h
      | some x =>
          cases h
          rfl

theorem Next.getColumns (h : Next it r it') : it'.getColumns = it.getColumns := by
  obtain ⟨n, hn⟩ := h
  have hfresh : fresh it' = fresh it := ((leaves_calls n).1 rfl) _ (hn n le_rfl) _ rfl
  rw [← fresh_getColumns it', hfresh, fresh_getColumns]

theorem Begins.getColumns (h : Begins it it') : it'.getColumns = it.getColumns := by
  obtain ⟨n, hn⟩ := h
  exact begin_getColumns (hn n le_rfl)

end Columns

/-! ## The same records at every scan -/

section Same

variable {it it' : QueryIter} {rs : List Record}

/-- The start and the end of a scan of some records. -/
structure SameScans (rs : List Record) where
  start : QueryIter → Prop
  ended : QueryIter → Prop
  scan : ∀ {it}, start it → ∃ it', Yields it rs it' ∧ ended it'
  rest : ∀ {it}, ended it → ∃ r it', Next it r it' ∧ r.invalid = true ∧ ended it'
  reset : ∀ {it}, start it ∨ ended it → start it.reset

theorem feeds_of_sameScans (p : SameScans rs) (h : Begins it it') (hstart : p.start it') :
    Feeds (fun _ => rs) it :=
  ⟨it', h, ⟨fun _ => p.start, fun _ => p.ended, p.scan, p.rest, fun h => p.reset (.inl h),
    fun h => p.reset (.inr h)⟩, hstart⟩

theorem sameScans_of_feeds (h : Feeds (fun _ => rs) it) :
    ∃ (it' : QueryIter) (p : SameScans rs), Begins it it' ∧ p.start it' := by
  obtain ⟨it', hbegin, p, hp⟩ := h
  refine ⟨it', ⟨fun x => ∃ n, p.start n x, fun x => ∃ n, p.ended n x, ?_, ?_, ?_⟩, hbegin, 0, hp⟩
  · rintro x ⟨n, hx⟩
    obtain ⟨y, hy, hended⟩ := p.scan hx
    exact ⟨y, hy, n, hended⟩
  · rintro x ⟨n, hx⟩
    obtain ⟨r, y, hnext, hr, hy⟩ := p.rest hx
    exact ⟨r, y, hnext, hr, n, hy⟩
  · rintro x (⟨n, hx⟩ | ⟨n, hx⟩)
    · exact ⟨n + 1, p.resetStart hx⟩
    · exact ⟨n + 1, p.resetEnded hx⟩

theorem SameScans.serves (p : SameScans rs) (h : p.start it ∨ p.ended it) : Serves rs it := by
  refine ⟨fun x => p.start x ∨ p.ended x, h, fun x hx => ⟨.inl (p.reset hx), ?_⟩⟩
  obtain ⟨y, hyields, hy⟩ := p.scan (p.reset hx)
  exact ⟨y, hyields, .inr hy⟩

theorem Feeds.delivers (h : Feeds (fun _ => rs) it) : Delivers it rs := by
  obtain ⟨it₀, p, hbegin, hstart⟩ := sameScans_of_feeds h
  obtain ⟨it₁, hyields, hended⟩ := p.scan hstart
  exact ⟨it₀, it₁, hbegin, p.serves (.inl hstart), hyields, p.serves (.inr hended)⟩

end Same

/-! ## Nested loops -/

/-- A nested loop feeds its pairs, when none of them is an invalid record. -/
theorem NestedLoop.feeds {node : QueryIter → QueryIter → Record → Bool → QueryIter}
    {pair : Record → Record → Option Record} {ls rs : List Record}
    (h : NestedLoop node pair ls rs)
    (hvalid : ∀ l ∈ ls, ∀ r ∈ rs, ∀ s, pair l r = some s → s.invalid = false)
    {lhs rhs : QueryIter} (cur : Record) (b : Bool) (hlhs : Feeds (fun _ => ls) lhs)
    (hrhs : Feeds (fun _ => rs) rhs) :
    Feeds (fun _ => ls.flatMap fun l => rs.filterMap (pair l)) (node lhs rhs cur b) := by
  obtain ⟨lhs₀, p, hbegin, hstart⟩ := sameScans_of_feeds hlhs
  obtain ⟨rhs₀, q, hbegin', hstart'⟩ := sameScans_of_feeds hrhs
  refine feeds_of_sameScans ⟨fun x => ∃ l r c, x = node l r c false ∧ p.start l ∧ Serves rs r,
    fun x => ∃ l r c, x = node l r c false ∧ p.ended l ∧ Serves rs r, ?_, ?_, ?_⟩
    (h.begins hbegin hbegin') ⟨_, _, _, rfl, hstart, q.serves (.inl hstart')⟩
  · rintro x ⟨l, r, c, rfl, hl, hr⟩
    obtain ⟨l', hyields, hl'⟩ := p.scan hl
    obtain ⟨r', c', hr', hy⟩ := h.pass hvalid c hyields (fun _ hl => hl) hr
    exact ⟨_, hy, _, _, _, rfl, hl', hr'⟩
  · rintro x ⟨l, r, c, rfl, hl, hr⟩
    obtain ⟨s, l', hnext, hs, hl'⟩ := p.rest hl
    exact ⟨_, _, h.done hnext hs, rfl, _, _, _, rfl, hl', hr⟩
  · rintro x (⟨l, r, c, rfl, hl, hr⟩ | ⟨l, r, c, rfl, hl, hr⟩)
    · rw [h.reset]
      exact ⟨_, _, _, rfl, p.reset (.inl hl), hr.reset⟩
    · rw [h.reset]
      exact ⟨_, _, _, rfl, p.reset (.inr hl), hr.reset⟩

/-! ## Outer joins -/

/-- The outcome is a record with values. -/
def Good (o : Outcome Record) : Prop := ∃ r, o = .ok r ∧ r.invalid = false

/-- The calls return these records, and leave a state with the property. -/
def YieldsTo (Q : QueryIter → Prop) (it : QueryIter) (os : List (Outcome Record)) : Prop :=
  ∃ rs z, os = rs.map Except.ok ∧ Yields it rs z ∧ Q z

section Outer

variable {Q : QueryIter → Prop} {it it' : QueryIter} {o : Outcome Record}
  {os : List (Outcome Record)}

theorem YieldsTo.proceed (h : Proceeds it it') (hy : YieldsTo Q it' os) : YieldsTo Q it os := by
  obtain ⟨rs, z, hos, hyields, hz⟩ := hy
  exact ⟨rs, z, hos, hyields.of_next fun _ _ hnext => h.next hnext, hz⟩

theorem YieldsTo.emit (h : Emits it o it') (ho : Good o) (hy : YieldsTo Q it' os) :
    YieldsTo Q it (o :: os) := by
  obtain ⟨rs, z, hos, hyields, hz⟩ := hy
  obtain ⟨r, rfl, hr⟩ := ho
  obtain ⟨n, hn⟩ := h
  have hnext : Next it r it' := .of_succ n fun m hm => by rw [hn m hm, Outcome.ok_bind]
  exact ⟨r :: rs, z, by rw [hos, List.map_cons], .more hnext hr hyields, hz⟩

namespace OuterLoop

variable {node : QueryIter → QueryIter → Record → Bool → Bool → Nat → List Bool → QueryIter}
  {columns : JoinColumns} {meets : Nat → Record → Record → Outcome Record} {size : Nat}

/-- The records of one left row, and those that come after them. -/
theorem row_yields (h : OuterLoop node columns meets size) {lhs rhs rhs' : QueryIter} {l : Record}
    {rs : List Record} {om : Bool} {i : Nat} {matched : List Bool}
    (hy : Yields rhs rs rhs') (hsize : matched.length = size)
    (hl : ∀ eq ∈ columns.equalities, eq.1 < l.values.length)
    (hr : ∀ r ∈ rs, ∀ eq ∈ columns.equalities, eq.2 < r.values.length)
    (hgood : ∀ o ∈ rowCalls columns meets l om i rs, Good o)
    (hrest : ∀ om' i',
      YieldsTo Q (node lhs rhs' l false om' i' (marks columns l i matched rs)) os) :
    YieldsTo Q (node lhs rhs l true om i matched) (rowCalls columns meets l om i rs ++ os) := by
  induction hy generalizing om i matched with
  | done hnext hinvalid =>
      cases om with
      | true => exact (hrest true i).proceed (h.right hnext hinvalid)
      | false =>
          exact (hrest false i).emit (h.pad hnext hinvalid) (hgood _ List.mem_cons_self)
  | @more rhs rhs₁ _ r rs hnext hvalid _ ih =>
      have hcompatible : compatible l r columns.equalities = .ok (agree columns.equalities l r) :=
        compatible_eq fun eq heq => ⟨hl eq heq, hr r List.mem_cons_self eq heq⟩
      have htail : ∀ x ∈ rs, ∀ eq ∈ columns.equalities, eq.2 < x.values.length :=
        fun x hx => hr x (List.mem_cons_of_mem r hx)
      rw [rowCalls] at hgood ⊢
      rw [marks] at hrest
      cases hagree : agree columns.equalities l r with
      | true =>
          rw [hagree] at hcompatible hrest hgood
          obtain ⟨hfirst, hlast⟩ := List.forall_mem_cons.mp hgood
          have hlater : YieldsTo Q (node lhs rhs₁ l true true (i + 1) (matched.set i true))
              (rowCalls columns meets l true (i + 1) rs ++ os) :=
            ih (List.length_set.trans hsize) htail hlast hrest
          exact hlater.emit (h.meet hnext hvalid hcompatible hsize) hfirst
      | false =>
          rw [hagree] at hcompatible hrest hgood
          have hlater : YieldsTo Q (node lhs rhs₁ l true om (i + 1) matched)
              (rowCalls columns meets l om (i + 1) rs ++ os) := ih hsize htail hgood hrest
          exact hlater.proceed (h.skip hnext hvalid hcompatible)

/-- The records of all left rows, and those that come after them. -/
theorem pass_yields (h : OuterLoop node columns meets size) {lhs lhs' rhs : QueryIter}
    {ls rs : List Record} {cur : Record} {om : Bool} {i n : Nat} {matched : List Bool}
    (q : SameScans rs) (hy : Yields lhs ls lhs') (hrhs : q.start rhs ∨ q.ended rhs)
    (hsize : matched.length = size)
    (hl : ∀ l ∈ ls, ∀ eq ∈ columns.equalities, eq.1 < l.values.length)
    (hr : ∀ r ∈ rs, ∀ eq ∈ columns.equalities, eq.2 < r.values.length)
    (hgood : ∀ o ∈ passCalls columns meets (fun _ => rs) n ls, Good o)
    (hrest : ∀ {lhs₁ rhs₁ cur' om' i'}, Yields lhs₁ [] lhs' → q.start rhs₁ ∨ q.ended rhs₁ →
      YieldsTo Q (node lhs₁ rhs₁ cur' false om' i'
        (passMarks columns (fun _ => rs) n matched ls)) os) :
    YieldsTo Q (node lhs rhs cur false om i matched)
      (passCalls columns meets (fun _ => rs) n ls ++ os) := by
  induction hy generalizing rhs cur om i n matched with
  | done hnext hinvalid => exact hrest (.done hnext hinvalid) hrhs
  | @more lhs lhs₁ _ l ls hnext hvalid hyields ih =>
      obtain ⟨rhs₁, hright, hended⟩ := q.scan (q.reset hrhs)
      rw [passCalls] at hgood
      have hlater : ∀ om' i', YieldsTo Q
          (node lhs₁ rhs₁ l false om' i' (marks columns l 0 matched rs))
          (passCalls columns meets (fun _ => rs) (n + 1) ls ++ os) := by
        intro om' i'
        exact ih (.inr hended) ((marks_length _ _ _).trans hsize)
          (fun x hx => hl x (List.mem_cons_of_mem l hx))
          (fun o ho => hgood o (List.mem_append_right _ ho)) hrest
      rw [passCalls, List.append_assoc]
      refine YieldsTo.proceed (h.left hnext hvalid) ?_
      exact h.row_yields hright hsize (hl l List.mem_cons_self) hr
        (fun o ho => hgood o (List.mem_append_left _ ho)) hlater

end OuterLoop

variable {lhs rhs rhs' : QueryIter} {columns : JoinColumns} {cur : Record} {v w om : Bool} {i : Nat}
  {matched : List Bool} {ls rs : List Record} {pair : RowPair → Record}

/-- The records are those of the pairs. -/
def PairsBuild (columns : JoinColumns) (pair : RowPair → Record) (pairs : List RowPair) : Prop :=
  ∀ p ∈ pairs, pairRecord columns p = .ok (pair p) ∧ (pair p).invalid = false

theorem PairsBuild.map_eq {pairs : List RowPair} (h : PairsBuild columns pair pairs) :
    pairs.map (pairRecord columns) = (pairs.map pair).map Except.ok := by
  rw [List.map_map]
  exact List.map_congr_left fun p hp => (h p hp).1

theorem PairsBuild.good {pairs : List RowPair} (h : PairsBuild columns pair pairs) :
    ∀ o ∈ pairs.map (pairRecord columns), Good o := by
  intro o ho
  obtain ⟨p, hp, rfl⟩ := List.mem_map.mp ho
  exact ⟨pair p, h p hp⟩

/-- What the calls return is what the pairs come to. -/
theorem YieldsTo.pairs {pairs : List RowPair} (h : PairsBuild columns pair pairs)
    (hy : YieldsTo Q it (pairs.map (pairRecord columns))) :
    ∃ z, Yields it (pairs.map pair) z ∧ Q z := by
  obtain ⟨records, z, hos, hyields, hz⟩ := hy
  rw [h.map_eq] at hos
  have hinjective : Function.Injective (Except.ok : Record → Outcome Record) :=
    fun _ _ heq => Except.ok.inj heq
  rw [hinjective.list_map hos]
  exact ⟨z, hyields, hz⟩

/-- A left outer join feeds its pairs. -/
theorem leftOuterJoin_feeds (hlhs : Feeds (fun _ => ls) lhs) (hrhs : Feeds (fun _ => rs) rhs)
    (hl : ∀ l ∈ ls, ∀ eq ∈ columns.equalities, eq.1 < l.values.length)
    (hr : ∀ r ∈ rs, ∀ eq ∈ columns.equalities, eq.2 < r.values.length)
    (hbuild : PairsBuild columns pair (leftPairs columns ls rs)) :
    Feeds (fun _ => (leftPairs columns ls rs).map pair)
      (.leftOuterJoin lhs rhs columns cur v om) := by
  obtain ⟨lhs₀, p, ⟨n, hn⟩, hstart⟩ := sameScans_of_feeds hlhs
  obtain ⟨rhs₀, q, ⟨j, hj⟩, hstart'⟩ := sameScans_of_feeds hrhs
  have hbegin : Begins (.leftOuterJoin lhs rhs columns cur v om)
      (.leftOuterJoin lhs₀ rhs₀ columns cur false om) := by
    refine ⟨max n j, fun m hm => ?_⟩
    simp only [begin, hn m (le_trans (Nat.le_max_left n j) hm),
      hj m (le_trans (Nat.le_max_right n j) hm), Outcome.ok_bind]
  have hover : ∀ {l l' r s om}, Next l s l' → s.invalid = true → ∀ c,
      Next (.leftOuterJoin l r columns c false om) Record.empty
        (.leftOuterJoin l' r columns s false om) := by
    rintro l l' r s om ⟨k, hk⟩ hs c
    exact .of_succ k fun m hm => by simp only [next, hk m hm, Outcome.ok_bind, hs, if_true]
  refine feeds_of_sameScans
    ⟨fun x => ∃ l r c om, x = .leftOuterJoin l r columns c false om ∧ p.start l ∧
        (q.start r ∨ q.ended r),
      fun x => ∃ l r c om, x = .leftOuterJoin l r columns c false om ∧ p.ended l ∧
        (q.start r ∨ q.ended r), ?_, ?_, ?_⟩
    hbegin ⟨_, _, _, _, rfl, hstart, .inl hstart'⟩
  · rintro x ⟨l, r, c, om, rfl, hl₀, hr₀⟩
    obtain ⟨l', hyields, hended⟩ := p.scan hl₀
    have hpass : passCalls columns (fun _ l r => pairRecord columns (some l, some r))
        (fun _ => rs) 0 ls = (leftPairs columns ls rs).map (pairRecord columns) :=
      passCalls_pairs (fun _ => rfl) _ (fun _ _ _ _ => rfl) 0
    refine YieldsTo.pairs hbuild ?_
    rw [← hpass, ← List.append_nil (passCalls columns _ _ 0 ls)]
    have hmatched : ([] : List Bool).length = 0 := rfl
    refine (outerLoop_left columns).pass_yields (i := 0) q hyields hr₀ hmatched hl hr
      (hpass ▸ hbuild.good) ?_
    rintro lhs₁ rhs₁ cur' om' i' hlast hrhs₁
    cases hlast with
    | done hnext hs =>
        exact ⟨[], _, rfl, .done (hover hnext hs cur') rfl, _, _, _, _, rfl, hended, hrhs₁⟩
  · rintro x ⟨l, r, c, om, rfl, hl, hr⟩
    obtain ⟨s, l', hnext, hs, hl'⟩ := p.rest hl
    exact ⟨_, _, hover hnext hs c, rfl, _, _, _, _, rfl, hl', hr⟩
  · rintro x (⟨l, r, c, om, rfl, hl, hr⟩ | ⟨l, r, c, om, rfl, hl, hr⟩)
    · exact ⟨_, _, _, _, rfl, p.reset (.inl hl), .inl (q.reset hr)⟩
    · exact ⟨_, _, _, _, rfl, p.reset (.inr hl), .inl (q.reset hr)⟩

/-! ### Full outer joins -/

/-- The call after all rows: nothing is left on either side. -/
theorem fullOuterJoin_done {lhs' : QueryIter} {r s : Record} (hleft : Next lhs r lhs')
    (hr : r.invalid = true) (hright : Next rhs s rhs') (hs : s.invalid = true) :
    Next (.fullOuterJoin lhs rhs columns cur false true om i matched) Record.empty
      (.fullOuterJoin lhs' rhs' columns r false true om i matched) := by
  obtain ⟨n, hn⟩ := hleft
  obtain ⟨j, hj⟩ := hright
  refine .of_succ (max n (j + 1)) fun m hm => ?_
  obtain ⟨m, rfl⟩ := Nat.exists_eq_add_of_le'
    (le_trans (le_trans (Nat.le_add_left 1 j) (Nat.le_max_right n _)) hm)
  have hjm : j ≤ m := Nat.le_of_succ_le_succ (le_trans (Nat.le_max_right n _) hm)
  simp only [next, hn (m + 1) (le_trans (Nat.le_max_left n _) hm), Outcome.ok_bind, hr, hs,
    not_true_eq_false, if_false, if_true, nextUnmatched, hj m hjm]

/-- The call for a right row: it is padded when it has no mark. -/
theorem fullOuterJoin_unmatched {lhs' : QueryIter} {r s : Record} {mark : Bool}
    (hleft : Next lhs r lhs') (hr : r.invalid = true) (hright : Next rhs s rhs')
    (hs : s.invalid = false) (hmark : matched[i]? = some mark) :
    if mark then
      Proceeds (.fullOuterJoin lhs rhs columns cur false true om i matched)
        (.fullOuterJoin lhs rhs' columns cur false true om (i + 1) matched)
    else
      Emits (.fullOuterJoin lhs rhs columns cur false true om i matched)
        (pairRecord columns (none, some s))
        (.fullOuterJoin lhs' rhs' columns r false true om (i + 1) matched) := by
  obtain ⟨n, hn⟩ := hleft
  obtain ⟨j, hj⟩ := hright
  have hstep : ∀ m, max n j ≤ m →
      next (m + 2) (.fullOuterJoin lhs rhs columns cur false true om i matched) =
        if mark then next (m + 1) (.fullOuterJoin lhs rhs' columns cur false true om (i + 1) matched)
        else pairRecord columns (none, some s) >>= fun x =>
          .ok (some (x, .fullOuterJoin lhs' rhs' columns r false true om (i + 1) matched)) := by
    intro m hm
    have hleft := hn m (le_trans (Nat.le_max_left n j) hm)
    have hleft' := hn (m + 1) (Nat.le_succ_of_le (le_trans (Nat.le_max_left n j) hm))
    have hright' := hj m (le_trans (Nat.le_max_right n j) hm)
    simp only [next, hleft, hleft', Outcome.ok_bind, hr, not_true_eq_false, if_false, if_true,
      nextUnmatched, hright', hs, Bool.false_eq_true, hmark]
    cases mark with
    | true => rfl
    | false =>
        simp only [Outcome.ok_bind, hs, Bool.false_eq_true, if_false]
        rfl
  cases mark with
  | true =>
      refine ⟨max n j + 1, 1, fun m hm => ?_⟩
      obtain ⟨m, rfl⟩ := Nat.exists_eq_add_of_le' (le_trans (Nat.le_add_left 1 _) hm)
      exact hstep m (Nat.le_of_add_le_add_right hm)
  | false =>
      refine ⟨max n j + 1, fun m hm => ?_⟩
      obtain ⟨m, rfl⟩ := Nat.exists_eq_add_of_le' (le_trans (Nat.le_add_left 1 _) hm)
      exact hstep m (Nat.le_of_add_le_add_right hm)

/-- The records that pad the left half. -/
theorem fullOuterJoin_last_yields (p : SameScans ls)
    (hlhs : ∃ r l, Next lhs r l ∧ r.invalid = true ∧ p.ended l) (hy : Yields rhs rs rhs')
    (hgood : ∀ o ∈ lastCalls columns matched i rs, Good o)
    (hend : ∀ {l l' r r' s s' c i'}, Next l s l' → s.invalid = true → p.ended l' →
      Next r s' r' → s'.invalid = true → r' = rhs' →
      YieldsTo Q (.fullOuterJoin l r columns c false true om i' matched) []) :
    YieldsTo Q (.fullOuterJoin lhs rhs columns cur false true om i matched)
      (lastCalls columns matched i rs) := by
  induction hy generalizing lhs cur i with
  | done hnext hs =>
      obtain ⟨r, lhs', hleft, hr, hended⟩ := hlhs
      exact hend hleft hr hended hnext hs rfl
  | @more rhs rhs₁ _ s rs hnext hs _ ih =>
      obtain ⟨r, lhs', hleft, hr, hended⟩ := id hlhs
      rw [lastCalls] at hgood ⊢
      cases hmark : matched[i]? with
      | none =>
          rw [hmark] at hgood
          obtain ⟨_, heq, _⟩ := hgood _ List.mem_cons_self
          cases heq
      | some mark =>
          rw [hmark] at hgood
          cases mark with
          | true =>
              have hcall : Proceeds (.fullOuterJoin lhs rhs columns cur false true om i matched) _ :=
                fullOuterJoin_unmatched hleft hr hnext hs hmark
              exact (ih hlhs hgood hend).proceed hcall
          | false =>
              obtain ⟨hfirst, hlater⟩ := List.forall_mem_cons.mp hgood
              have hcall : Emits (.fullOuterJoin lhs rhs columns cur false true om i matched) _ _ :=
                fullOuterJoin_unmatched hleft hr hnext hs hmark
              exact (ih (p.rest hended) hlater hend).emit hcall hfirst

/-- A full outer join feeds its pairs. -/
theorem fullOuterJoin_feeds (hlhs : Feeds (fun _ => ls) lhs) (hrhs : Feeds (fun _ => rs) rhs)
    (hl : ∀ l ∈ ls, ∀ eq ∈ columns.equalities, eq.1 < l.values.length)
    (hr : ∀ r ∈ rs, ∀ eq ∈ columns.equalities, eq.2 < r.values.length)
    (hbuild : PairsBuild columns pair (fullPairs columns ls rs)) :
    Feeds (fun _ => (fullPairs columns ls rs).map pair)
      (.fullOuterJoin lhs rhs columns cur v w om i matched) := by
  obtain ⟨lhs₀, p, ⟨n, hn⟩, hstart⟩ := sameScans_of_feeds hlhs
  obtain ⟨rhs₀, q, ⟨j, hj⟩, hstart'⟩ := sameScans_of_feeds hrhs
  obtain ⟨rhs₁, hcount, hcounted⟩ := q.scan hstart'
  obtain ⟨t, ht⟩ := countRows_yields hcount
  have hbegin : Begins (.fullOuterJoin lhs rhs columns cur v w om i matched)
      (.fullOuterJoin lhs₀ rhs₁.reset columns cur false false om 0
        (List.replicate rs.length false)) := by
    refine ⟨max (max n j) t, fun m hm => ?_⟩
    have hnj : max n j ≤ m := le_trans (Nat.le_max_left _ t) hm
    simp only [begin, hn m (le_trans (Nat.le_max_left n j) hnj),
      hj m (le_trans (Nat.le_max_right n j) hnj), ht m (le_trans (Nat.le_max_right _ t) hm),
      Outcome.ok_bind]
  refine feeds_of_sameScans
    ⟨fun x => ∃ l r c om, x = .fullOuterJoin l r columns c false false om 0
          (List.replicate rs.length false) ∧ p.start l ∧ (q.start r ∨ q.ended r),
      fun x => ∃ l r c om i matched, x = .fullOuterJoin l r columns c false true om i matched ∧
        matched.length = rs.length ∧ p.ended l ∧ q.ended r, ?_, ?_, ?_⟩
    hbegin ⟨_, _, _, _, rfl, hstart, .inl (q.reset (.inr hcounted))⟩
  · rintro x ⟨l, r, c, om, rfl, hl₀, hr₀⟩
    obtain ⟨l', hyields, hended⟩ := p.scan hl₀
    have hmarks : List.replicate rs.length false = rs.map fun _ => false :=
      List.map_const'.symm
    have hpass : passCalls columns (fullMeets columns rs.length) (fun _ => rs) 0 ls =
        (leftPairs columns ls rs).map (pairRecord columns) := by
      refine passCalls_pairs (fun _ => rfl) _ (fun l k r hk => ?_) 0
      obtain ⟨hlt, _⟩ := List.getElem?_eq_some_iff.mp hk
      exact if_neg (Nat.not_le.mpr hlt)
    have hlast : lastCalls columns (passMarks columns (fun _ => rs) 0
        (List.replicate rs.length false) ls) 0 rs =
        (rs.filter fun r => ls.all fun l => !agree columns.equalities l r).map
          fun r => pairRecord columns (none, some r) := by
      rw [hmarks, passMarks_eq (fun _ => rfl)]
      refine (lastCalls_eq _ []).trans ?_
      simp only [Bool.false_or, List.not_any_eq_all_not]
    have hall : (fullPairs columns ls rs).map (pairRecord columns) =
        passCalls columns (fullMeets columns rs.length) (fun _ => rs) 0 ls ++
          lastCalls columns (passMarks columns (fun _ => rs) 0
            (List.replicate rs.length false) ls) 0 rs := by
      rw [fullPairs, List.map_append, hpass, hlast, List.map_map]
      rfl
    have hgood := hbuild.good
    rw [hall] at hgood
    refine YieldsTo.pairs hbuild ?_
    rw [hall]
    refine (outerLoop_full columns rs.length false).pass_yields q hyields hr₀
      List.length_replicate hl hr (fun o ho => hgood o (List.mem_append_left _ ho)) ?_
    intro lhs₁ rhs₁ cur' om' i' hover hrhs₁
    have hlhs : Over lhs₁ := Over.of_yields hover ⟨p.ended, hended, fun _ hx => p.rest hx⟩
    obtain ⟨rhs₂, hscan, hended'⟩ := q.scan (q.reset hrhs₁)
    refine YieldsTo.proceed (fullOuterJoin_start hlhs) ?_
    refine fullOuterJoin_last_yields p ?_ hscan (fun o ho => hgood o (List.mem_append_right _ ho)) ?_
    · cases hover with
      | done hnext hs => exact ⟨_, _, hnext, hs, hended⟩
    · rintro l₁ l₂ r₁ r₂ s s' c' k hl₁ hs hl₂ hr₁ hs' rfl
      refine ⟨[], _, rfl, .done (fullOuterJoin_done hl₁ hs hr₁ hs') rfl, _, _, _, _, _, _, rfl, ?_,
        hl₂, hended'⟩
      rw [passMarks_length, List.length_replicate]
  · rintro x ⟨l, r, c, om, i, matched, rfl, hlength, hl, hr⟩
    obtain ⟨s, l', hnext, hs, hl'⟩ := p.rest hl
    obtain ⟨s', r', hnext', hs', hr'⟩ := q.rest hr
    exact ⟨_, _, fullOuterJoin_done hnext hs hnext' hs', rfl, _, _, _, _, _, _, rfl, hlength, hl',
      hr'⟩
  · rintro x (⟨l, r, c, om, rfl, hl, hr⟩ | ⟨l, r, c, om, i, matched, rfl, hlength, hl, hr⟩)
    · refine ⟨_, _, c, om, ?_, p.reset (.inl hl), .inl (q.reset hr)⟩
      rw [reset, List.map_const', List.length_replicate]
    · refine ⟨_, _, c, om, ?_, p.reset (.inr hl), .inl (q.reset (.inr hr))⟩
      rw [reset, List.map_const', hlength]

end Outer

/-! ## Projections -/

section Projections

variable {child child' : QueryIter} {columns : List Column} {limit n : Nat} {rs : List Record}
  {values : Record → List Value}

/-- The first records, up to the limit, with the chosen columns. -/
theorem projection_yields (h : Yields child rs child')
    (hpick : ∀ r ∈ rs, pick child.getColumns r.values columns = .ok (values r))
    (hne : ∀ r ∈ rs, values r ≠ []) (hn : n ≤ limit) :
    ∃ it', Yields (.projection child columns limit n)
      ((rs.take (limit - n)).map fun r => ⟨values r⟩) it' := by
  induction h generalizing n with
  | @done child child₁ r hnext hr =>
      obtain ⟨m, hm⟩ := hnext
      have hover : Next (.projection child columns limit n) Record.empty
          (.projection child₁ columns limit n) :=
        .of_succ m fun k hk => by
          simp only [next, hm k hk, Outcome.ok_bind, hr, true_or, if_true]
      rw [List.take_nil, List.map_nil]
      exact ⟨_, .done hover rfl⟩
  | @more child child₁ _ r rs hnext hr _ ih =>
      have hcolumns := hnext.getColumns
      obtain ⟨m, hm⟩ := id hnext
      by_cases hlimit : limit ≤ n
      · have hzero : limit - n = 0 := Nat.sub_eq_zero_of_le hlimit
        have hover : Next (.projection child columns limit n) Record.empty
            (.projection child₁ columns limit n) :=
          .of_succ m fun k hk => by
            simp only [next, hm k hk, Outcome.ok_bind, hlimit, or_true, if_true]
        rw [hzero, List.take_zero, List.map_nil]
        exact ⟨_, .done hover rfl⟩
      · have hfirst := hpick r List.mem_cons_self
        obtain ⟨it', hlater⟩ := ih (n := n + 1)
          (fun s hs => hcolumns ▸ hpick s (List.mem_cons_of_mem r hs))
          (fun s hs => hne s (List.mem_cons_of_mem r hs)) (Nat.not_le.mp hlimit)
        have htake : limit - n = limit - (n + 1) + 1 := by omega
        rw [htake, List.take_succ_cons, List.map_cons]
        have hvalid : (Record.mk (values r)).invalid = false := by
          simpa [Record.invalid] using hne r List.mem_cons_self
        refine ⟨it', .more (.of_succ m fun k hk => ?_) hvalid hlater⟩
        simp only [next, hm k hk, Outcome.ok_bind, hr, hlimit, Bool.false_eq_true, or_self,
          if_false, hcolumns, hfirst]

theorem projection_begins (h : Begins child child') :
    Begins (.projection child columns limit n) (.projection child' columns limit 0) := by
  obtain ⟨m, hm⟩ := h
  exact ⟨m, fun k hk => by simp only [begin, hm k hk, Outcome.ok_bind]⟩

/-- The records of the scan of a projection. -/
theorem projection_drains (h : Drains child rs)
    (hpick : ∀ r ∈ rs, pick child.getColumns r.values columns = .ok (values r))
    (hne : ∀ r ∈ rs, values r ≠ []) :
    Drains (.projection child columns limit n) ((rs.take limit).map fun r => ⟨values r⟩) := by
  obtain ⟨it₀, it₁, hbegin, hyields⟩ := h
  have hpick' : ∀ r ∈ rs, pick it₀.getColumns r.values columns = .ok (values r) :=
    fun r hr => hbegin.getColumns ▸ hpick r hr
  obtain ⟨it', hall⟩ := projection_yields hyields hpick' hne (Nat.zero_le limit)
  exact ⟨_, it', projection_begins hbegin, hall⟩

end Projections

end Iic3413Db.Query
