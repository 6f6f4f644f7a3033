/-
  Query/Executor/OuterJoinPairs.lean --- which rows the outer joins pair, and when
  `FullOuterJoin` stays inside `matched_rhs`.

  When every scan of the right child delivers the same rows, the calls of
  OuterJoins.lean come to the pairs of `leftPairs` and `fullPairs`.  When they
  differ, as a commit between two scans of a table makes them under READ_COMMITTED,
  `RightFits` is what the scans of a full outer join need.
-/
import Iic3413Db.Query.Executor.OuterJoins

set_option autoImplicit false

namespace Iic3413Db.Query

open Iic3413Db.RelationalModel
open QueryIter

/-! ## The same rows at every scan -/

section Constant

variable {columns : JoinColumns} {l : Record} {ls rs : List Record}

theorem rowCalls_true (meets : Nat → Record → Record → Outcome Record) (i : Nat)
    (hmeets : ∀ p r, rs[p]? = some r →
      meets (i + p) l r = pairRecord columns (some l, some r)) :
    rowCalls columns meets l true i rs = ((rs.filter (agree columns.equalities l)).map
      fun r => pairRecord columns (some l, some r)) := by
  induction rs generalizing i with
  | nil => rfl
  | cons r rs ih =>
      have hlater := ih (i + 1) fun p x hx => by
        rw [Nat.add_assoc, Nat.add_comm 1 p]
        exact hmeets (p + 1) x hx
      rw [rowCalls, hlater]
      cases hagree : agree columns.equalities l r with
      | true =>
          rw [List.filter_cons_of_pos hagree, List.map_cons, if_pos rfl]
          exact congrArg (· :: _) (hmeets 0 r rfl)
      | false => rw [List.filter_cons_of_neg (by rw [hagree]; exact Bool.false_ne_true), if_neg
          Bool.false_ne_true]

theorem rowCalls_pairs (meets : Nat → Record → Record → Outcome Record) (i : Nat)
    (hmeets : ∀ p r, rs[p]? = some r →
      meets (i + p) l r = pairRecord columns (some l, some r)) :
    rowCalls columns meets l false i rs = (rowPairs columns rs l).map (pairRecord columns) := by
  induction rs generalizing i with
  | nil => rfl
  | cons r rs ih =>
      have hmeets' : ∀ p x, rs[p]? = some x →
          meets (i + 1 + p) l x = pairRecord columns (some l, some x) := by
        intro p x hx
        rw [Nat.add_assoc, Nat.add_comm 1 p]
        exact hmeets (p + 1) x hx
      rw [rowCalls]
      cases hagree : agree columns.equalities l r with
      | true =>
          rw [if_pos rfl, rowCalls_true meets (i + 1) hmeets', rowPairs,
            List.filter_cons_of_pos hagree]
          have hfirst : meets i l r = pairRecord columns (some l, some r) := hmeets 0 r rfl
          rw [hfirst, List.map_map, List.map_cons]
          rfl
      | false =>
          have hne : ¬ agree columns.equalities l r = true := by simp [hagree]
          rw [if_neg Bool.false_ne_true, ih (i + 1) hmeets', rowPairs, rowPairs,
            List.filter_cons_of_neg hne]

theorem passCalls_pairs {scans : Nat → List Record} (hscans : ∀ n, scans n = rs)
    (meets : Nat → Record → Record → Outcome Record)
    (hmeets : ∀ l p r, rs[p]? = some r → meets p l r = pairRecord columns (some l, some r))
    (n : Nat) :
    passCalls columns meets scans n ls = (leftPairs columns ls rs).map (pairRecord columns) := by
  induction ls generalizing n with
  | nil => rfl
  | cons l ls ih =>
      have hrow : rowCalls columns meets l false 0 rs =
          (rowPairs columns rs l).map (pairRecord columns) := by
        refine rowCalls_pairs meets 0 fun p r hr => ?_
        rw [Nat.zero_add]
        exact hmeets l p r hr
      rw [passCalls, hscans, hrow, ih, leftPairs, leftPairs, List.flatMap_cons, List.map_append]

/-- A mark for each right row that matches. -/
theorem marks_eq (matchedBy : Record → Bool) (before : List Bool) :
    marks columns l before.length (before ++ rs.map matchedBy) rs =
      before ++ rs.map fun r => matchedBy r || agree columns.equalities l r := by
  induction rs generalizing before with
  | nil => rfl
  | cons r rs ih =>
      have hset : (if agree columns.equalities l r = true then
            (before ++ (r :: rs).map matchedBy).set before.length true
          else before ++ (r :: rs).map matchedBy) =
          (before ++ [matchedBy r || agree columns.equalities l r]) ++ rs.map matchedBy := by
        cases hagree : agree columns.equalities l r with
        | true => simp
        | false => simp
      have hlength : before.length + 1 =
          (before ++ [matchedBy r || agree columns.equalities l r]).length := by
        rw [List.length_append, List.length_singleton]
      rw [marks, hset, hlength, ih, List.append_assoc]
      rfl

theorem passMarks_eq {scans : Nat → List Record} (hscans : ∀ n, scans n = rs) (n : Nat)
    (matchedBy : Record → Bool) :
    passMarks columns scans n (rs.map matchedBy) ls =
      rs.map fun r => matchedBy r || ls.any fun l => agree columns.equalities l r := by
  induction ls generalizing n matchedBy with
  | nil => simp [passMarks]
  | cons l ls ih =>
      have hmarks : marks columns l 0 (rs.map matchedBy) rs =
          rs.map fun r => matchedBy r || agree columns.equalities l r := marks_eq matchedBy []
      rw [passMarks, hscans, hmarks, ih]
      simp only [List.any_cons, Bool.or_assoc]

theorem lastCalls_eq (matchedBy : Record → Bool) (before : List Bool) :
    lastCalls columns (before ++ rs.map matchedBy) before.length rs =
      (rs.filter fun r => !matchedBy r).map fun r => pairRecord columns (none, some r) := by
  induction rs generalizing before with
  | nil => rfl
  | cons r rs ih =>
      have hmark : (before ++ (r :: rs).map matchedBy)[before.length]? = some (matchedBy r) := by
        simp
      have hlater := ih (before ++ [matchedBy r])
      rw [List.length_append, List.length_singleton, List.append_assoc] at hlater
      have hcons : (r :: rs).map matchedBy = [matchedBy r] ++ rs.map matchedBy := rfl
      rw [lastCalls, hmark, hcons, hlater]
      cases hr : matchedBy r with
      | true => rw [List.filter_cons_of_neg (by simp [hr])]
      | false => rw [List.filter_cons_of_pos (by simp [hr]), List.map_cons]

end Constant

/-- Rows that every rescan delivers again: the left outer join returns the matches of
each left row in turn, or the left row alone; the full outer join also each right row
that matches none; and then both return the empty record. -/
theorem outerJoins_pair {lhs rhs : QueryIter} {columns : JoinColumns} {ls rs : List Record}
    {cur : Record} {validLhs validRhs om : Bool} {i : Nat} {matched : List Bool}
    (hleft : Feeds (fun _ => ls) lhs) (hright : Feeds (fun _ => rs) rhs)
    (hl : ∀ l ∈ ls, ∀ eq ∈ columns.equalities, eq.1 < l.values.length)
    (hr : ∀ r ∈ rs, ∀ eq ∈ columns.equalities, eq.2 < r.values.length) :
    (∃ it, Begins (.leftOuterJoin lhs rhs columns cur validLhs om) it ∧ ∀ k,
      Calls it ((leftPairs columns ls rs).map (pairRecord columns) ++
        List.replicate k (.ok Record.empty))) ∧
    ∃ it, Begins (.fullOuterJoin lhs rhs columns cur validLhs validRhs om i matched) it ∧ ∀ k,
      Calls it ((fullPairs columns ls rs).map (pairRecord columns) ++
        List.replicate k (.ok Record.empty)) := by
  refine ⟨?_, ?_⟩
  · obtain ⟨it, hbegins, hcalls⟩ := leftOuterJoin_calls hleft hright hl fun _ => hr
    refine ⟨it, hbegins, fun k => ?_⟩
    have hk := hcalls k
    rwa [passCalls_pairs (fun _ => rfl) _ fun _ _ _ _ => rfl] at hk
  · obtain ⟨it, hbegins, hcalls⟩ := fullOuterJoin_calls hleft hright hl fun _ => hr
    refine ⟨it, hbegins, fun k => ?_⟩
    have hk := hcalls k
    have hmeets : ∀ l p r, rs[p]? = some r →
        fullMeets columns rs.length p l r = pairRecord columns (some l, some r) := by
      intro l p r hp
      obtain ⟨hlt, _⟩ := List.getElem?_eq_some_iff.mp hp
      exact if_neg (Nat.not_le.mpr hlt)
    have hnone : List.replicate rs.length false = rs.map fun _ => false := List.map_const'.symm
    have hlast : lastCalls columns (rs.map fun r => false || ls.any fun l =>
        agree columns.equalities l r) 0 rs = (rs.filter fun r => !(false || ls.any fun l =>
        agree columns.equalities l r)).map fun r => pairRecord columns (none, some r) :=
      lastCalls_eq _ []
    rw [passCalls_pairs (fun _ => rfl) _ hmeets, hnone, passMarks_eq (fun _ => rfl), hlast] at hk
    rw [fullPairs, List.map_append, List.append_assoc, List.map_map]
    simpa only [Bool.false_or, List.not_any_eq_all_not, Function.comp_def] using hk

/-- Left rows 1 and 2, right rows 2, 2 and 3. -/
theorem outerJoins_pair_duplicates :
    (∃ it, Begins (.leftOuterJoin (intTable (fun _ => [1, 2]) onId.lhs)
        (intTable (fun _ => [2, 2, 3]) onId.rhs) onId Record.empty false false) it ∧ ∀ k,
      Calls it ([.ok ⟨[.int 1, .int (-1)]⟩, .ok ⟨[.int 2, .int 2]⟩, .ok ⟨[.int 2, .int 2]⟩] ++
        List.replicate k (.ok Record.empty))) ∧
    ∃ it, Begins (.fullOuterJoin (intTable (fun _ => [1, 2]) onId.lhs)
        (intTable (fun _ => [2, 2, 3]) onId.rhs) onId Record.empty false false false 0 []) it ∧ ∀ k,
      Calls it ([.ok ⟨[.int 1, .int (-1)]⟩, .ok ⟨[.int 2, .int 2]⟩, .ok ⟨[.int 2, .int 2]⟩,
        .ok ⟨[.int (-1), .int 3]⟩] ++ List.replicate k (.ok Record.empty)) := by
  refine outerJoins_pair (intTable_feeds (fun _ => [1, 2]) onId.lhs)
    (intTable_feeds (fun _ => [2, 2, 3]) onId.rhs) ?_ ?_
  · intro l hl eq heq
    obtain rfl := List.mem_singleton.mp heq
    exact intRow_inside l hl
  · intro r hr eq heq
    obtain rfl := List.mem_singleton.mp heq
    exact intRow_inside r hr

/-! ## Other rows at every scan -/

/-- The rows of the scans fit the first one, which `init_matched_rhs` counts: those that
match the left row of their scan, and all of the last scan. -/
def RightFits (columns : JoinColumns) (ls : List Record) (scans : Nat → List Record) : Prop :=
  (∀ j l, ls[j]? = some l → ∀ p r, (scans (2 + j))[p]? = some r →
    agree columns.equalities l r = true → p < (scans 0).length) ∧
  (scans (2 + ls.length)).length ≤ (scans 0).length

/-- Every record can be built, those with a padded half too. -/
def Builds (columns : JoinColumns) (ls : List Record) (scans : Nat → List Record) : Prop :=
  ∀ p : RowPair, (∀ l, p.1 = some l → l ∈ ls) → (∀ r, p.2 = some r → ∃ n, r ∈ scans n) →
    ∃ x, pairRecord columns p = .ok x

section Changing

variable {columns : JoinColumns} {l : Record} {ls rs : List Record} {scans : Nat → List Record}
  {size : Nat} {matched : List Bool}

theorem pairRecord_ne (p : RowPair) : pairRecord columns p ≠ .error matchedFault := by
  intro h
  have hne : matchedFault ≠ .undefinedBehaviour "values[i]" := by decide
  rcases Outcome.of_bind_error h with hleft | ⟨_, _, h⟩
  · exact hne (project_error hleft)
  rcases Outcome.of_bind_error h with hright | ⟨_, _, h⟩
  · exact hne (project_error hright)
  · cases h

theorem exists_getElem_cons {α : Type} {a : α} {as : List α} {P : Nat → α → Prop} :
    (∃ p x, (a :: as)[p]? = some x ∧ P p x) ↔ P 0 a ∨ ∃ p x, as[p]? = some x ∧ P (p + 1) x := by
  constructor
  · rintro ⟨p, x, hx, h⟩
    cases p with
    | zero =>
        obtain rfl : a = x := by simpa using hx
        exact .inl h
    | succ p => exact .inr ⟨p, x, by simpa using hx, h⟩
  · rintro (h | ⟨p, x, hx, h⟩)
    · exact ⟨0, a, rfl, h⟩
    · exact ⟨p + 1, x, by simpa using hx, h⟩

theorem mem_rowCalls (om : Bool) (i : Nat) :
    .error matchedFault ∈ rowCalls columns (fullMeets columns size) l om i rs ↔
      ∃ p r, rs[p]? = some r ∧ agree columns.equalities l r = true ∧ size ≤ i + p := by
  induction rs generalizing om i with
  | nil =>
      cases om with
      | true => simp [rowCalls]
      | false =>
          have hne : pairRecord columns (some l, none) ≠ .error matchedFault := pairRecord_ne _
          simpa [rowCalls] using hne.symm
  | cons r rs ih =>
      have hshift : ∀ p, i + 1 + p = i + (p + 1) := fun p => by omega
      have hmeets : .error matchedFault = fullMeets columns size i l r ↔ size ≤ i := by
        unfold fullMeets
        split
        · rename_i hle
          simp [hle]
        · rename_i hlt
          have hne : pairRecord columns (some l, some r) ≠ .error matchedFault := pairRecord_ne _
          simp [hlt, hne.symm]
      rw [exists_getElem_cons, rowCalls]
      cases hagree : agree columns.equalities l r with
      | true =>
          rw [if_pos rfl, List.mem_cons, hmeets, ih]
          simp only [hshift, Nat.add_zero, true_and]
      | false =>
          rw [if_neg Bool.false_ne_true, ih]
          simp only [hshift, Bool.false_eq_true, false_and, false_or]

theorem mem_passCalls (n : Nat) :
    .error matchedFault ∈ passCalls columns (fullMeets columns size) scans n ls ↔
      ∃ j l, ls[j]? = some l ∧ ∃ p r, (scans (n + j))[p]? = some r ∧
        agree columns.equalities l r = true ∧ size ≤ p := by
  induction ls generalizing n with
  | nil => simp [passCalls]
  | cons l ls ih =>
      have hshift : ∀ j, n + 1 + j = n + (j + 1) := fun j => by omega
      rw [exists_getElem_cons, passCalls, List.mem_append, mem_rowCalls, ih]
      simp only [hshift, Nat.add_zero, Nat.zero_add]

theorem mem_lastCalls (i : Nat) (hi : i ≤ matched.length) :
    .error matchedFault ∈ lastCalls columns matched i rs ↔ matched.length < i + rs.length := by
  induction rs generalizing i with
  | nil => simpa [lastCalls] using hi
  | cons r rs ih =>
      have hlength : i + (r :: rs).length = i + 1 + rs.length := by
        rw [List.length_cons]
        omega
      rw [lastCalls, hlength]
      cases hmark : matched[i]? with
      | none =>
          have hle : matched.length ≤ i := List.getElem?_eq_none_iff.mp hmark
          simp only [List.mem_singleton, true_iff]
          omega
      | some b =>
          obtain ⟨hlt, _⟩ := List.getElem?_eq_some_iff.mp hmark
          cases b with
          | true => exact ih (i + 1) hlt
          | false =>
              rw [← ih (i + 1) hlt, List.mem_cons]
              exact or_iff_right (pairRecord_ne (none, some r)).symm

/-- Nothing else fails when every record can be built. -/
theorem rowCalls_fails (hbuild : Builds columns ls scans) (hl : l ∈ ls)
    (hr : ∀ r ∈ rs, ∃ n, r ∈ scans n) (om : Bool) (i : Nat) :
    ∀ o ∈ rowCalls columns (fullMeets columns size) l om i rs,
      (∃ x, o = .ok x) ∨ o = .error matchedFault := by
  induction rs generalizing om i with
  | nil =>
      cases om with
      | true => exact fun o ho => by cases ho
      | false =>
          intro o ho
          obtain rfl := List.mem_singleton.mp ho
          refine .inl (hbuild (some l, none) (fun x hx => ?_) fun x hx => by cases hx)
          obtain rfl := Option.some.inj hx
          exact hl
  | cons r rs ih =>
      have hlater := ih fun x hx => hr x (List.mem_cons_of_mem r hx)
      intro o ho
      rw [rowCalls] at ho
      split at ho
      · rcases List.mem_cons.mp ho with rfl | ho
        · unfold fullMeets
          split
          · exact .inr rfl
          · refine .inl (hbuild (some l, some r) (fun x hx => ?_) fun x hx => ?_)
            · obtain rfl := Option.some.inj hx
              exact hl
            · obtain rfl := Option.some.inj hx
              exact hr _ List.mem_cons_self
        · exact hlater true (i + 1) o ho
      · exact hlater om (i + 1) o ho

theorem passCalls_fails {ls' : List Record} (hbuild : Builds columns ls scans)
    (hsub : ∀ l ∈ ls', l ∈ ls) (n : Nat) :
    ∀ o ∈ passCalls columns (fullMeets columns size) scans n ls',
      (∃ x, o = .ok x) ∨ o = .error matchedFault := by
  induction ls' generalizing n with
  | nil => exact fun o ho => by cases ho
  | cons l ls' ih =>
      intro o ho
      rcases List.mem_append.mp ho with ho | ho
      · exact rowCalls_fails hbuild (hsub l List.mem_cons_self) (fun r hr => ⟨n, hr⟩) false 0 o ho
      · exact ih (fun x hx => hsub x (List.mem_cons_of_mem l hx)) (n + 1) o ho

theorem lastCalls_fails (hbuild : Builds columns ls scans) (hr : ∀ r ∈ rs, ∃ n, r ∈ scans n)
    (i : Nat) :
    ∀ o ∈ lastCalls columns matched i rs, (∃ x, o = .ok x) ∨ o = .error matchedFault := by
  induction rs generalizing i with
  | nil => exact fun o ho => by cases ho
  | cons r rs ih =>
      have hlater := ih (fun x hx => hr x (List.mem_cons_of_mem r hx)) (i + 1)
      intro o ho
      rw [lastCalls] at ho
      split at ho
      · exact .inr (List.mem_singleton.mp ho)
      · exact hlater o ho
      · rcases List.mem_cons.mp ho with rfl | ho
        · refine .inl (hbuild (none, some r) (fun x hx => by cases hx) fun x hx => ?_)
          obtain rfl := Option.some.inj hx
          exact hr _ List.mem_cons_self
        · exact hlater o ho

end Changing

/-- Whatever the right child delivers at its scans, no call of `next` leaves
`matched_rhs` when they fit the first one; and a call does when they do not. -/
theorem fullOuterJoin_inside {lhs rhs : QueryIter} {columns : JoinColumns} {cur : Record}
    {validLhs validRhs om : Bool} {i : Nat} {matched : List Bool}
    {lscans scans : Nat → List Record} (hleft : Feeds lscans lhs) (hright : Feeds scans rhs)
    (hl : ∀ l ∈ lscans 0, ∀ eq ∈ columns.equalities, eq.1 < l.values.length)
    (hr : ∀ n, ∀ r ∈ scans n, ∀ eq ∈ columns.equalities, eq.2 < r.values.length) :
    ∃ it, Begins (.fullOuterJoin lhs rhs columns cur validLhs validRhs om i matched) it ∧
      (RightFits columns (lscans 0) scans → ∀ k, ¬ FaultsAt it matchedFault k) ∧
      (Builds columns (lscans 0) scans → (∀ k, ¬ FaultsAt it matchedFault k) →
        RightFits columns (lscans 0) scans) := by
  obtain ⟨it, hbegins, hcalls⟩ := fullOuterJoin_calls hleft hright hl hr
  have hpass : .error matchedFault ∈
        passCalls columns (fullMeets columns (scans 0).length) scans 2 (lscans 0) ↔
      ∃ j l, (lscans 0)[j]? = some l ∧ ∃ p r, (scans (2 + j))[p]? = some r ∧
        agree columns.equalities l r = true ∧ (scans 0).length ≤ p := mem_passCalls 2
  have hlast : .error matchedFault ∈ lastCalls columns (passMarks columns scans 2
        (List.replicate (scans 0).length false) (lscans 0)) 0 (scans (2 + (lscans 0).length)) ↔
      (scans 0).length < (scans (2 + (lscans 0).length)).length := by
    rw [mem_lastCalls 0 (Nat.zero_le _), passMarks_length, List.length_replicate, Nat.zero_add]
  have hnone : Builds columns (lscans 0) scans → (∀ k, ¬ FaultsAt it matchedFault k) →
      .error matchedFault ∉ passCalls columns (fullMeets columns (scans 0).length) scans 2
        (lscans 0) ++ lastCalls columns (passMarks columns scans 2
          (List.replicate (scans 0).length false) (lscans 0)) 0 (scans (2 + (lscans 0).length)) := by
    intro hbuild hsafe hmem
    have hall := hcalls 0
    rw [List.replicate_zero, List.append_nil] at hall
    obtain ⟨k, hk⟩ := hall.faults hmem fun o ho => by
      rcases List.mem_append.mp ho with ho | ho
      · exact passCalls_fails hbuild (fun _ hx => hx) 2 o ho
      · exact lastCalls_fails hbuild (fun r hx => ⟨_, hx⟩) 0 o ho
    exact hsafe k hk
  refine ⟨it, hbegins, fun ⟨hrow, hend⟩ k hk => ?_, fun hbuild hsafe => ⟨?_, ?_⟩⟩
  · have hmem := hk.mem_of_later fun n => (List.append_assoc _ _ _).symm ▸ hcalls n
    rcases List.mem_append.mp hmem with hmem | hmem
    · obtain ⟨j, l, hj, p, r, hp, hagree, hle⟩ := hpass.mp hmem
      exact absurd (hrow j l hj p r hp hagree) (Nat.not_lt.mpr hle)
    · exact absurd (hlast.mp hmem) (Nat.not_lt.mpr hend)
  · intro j l hj p r hp hagree
    refine Nat.lt_of_not_le fun hle => ?_
    exact hnone hbuild hsafe (List.mem_append_left _ (hpass.mpr ⟨j, l, hj, p, r, hp, hagree, hle⟩))
  · refine Nat.le_of_not_lt fun hlt => ?_
    exact hnone hbuild hsafe (List.mem_append_right _ (hlast.mpr hlt))

/-- A right table that is empty at `begin`, and has the row 1 later. -/
def filledLater : Nat → List Int
  | 0 => []
  | _ + 1 => [1]

/-- Without changes the scans fit. -/
theorem fullOuterJoin_inside_constant :
    ∃ it, Begins (.fullOuterJoin (intTable (fun _ => [1]) onId.lhs)
        (intTable (fun _ => [1]) onId.rhs) onId Record.empty false false false 0 []) it ∧
      ∀ k, ¬ FaultsAt it matchedFault k := by
  obtain ⟨it, hbegins, hsafe, _⟩ := @fullOuterJoin_inside _ _ onId _ _ _ _ _ _ _ _
    (intTable_feeds (fun _ => [1]) onId.lhs) (intTable_feeds (fun _ => [1]) onId.rhs)
    (fun l hl eq heq => by
      obtain rfl := List.mem_singleton.mp heq
      exact intRow_inside l hl)
    fun n r hr eq heq => by
      obtain rfl := List.mem_singleton.mp heq
      exact intRow_inside r hr
  refine ⟨it, hbegins, hsafe ⟨?_, le_rfl⟩⟩
  intro j l _ p r hr _
  exact (List.getElem?_eq_some_iff.mp hr).1

/-- A row that is committed after `begin` has no place in `matched_rhs`. -/
theorem fullOuterJoin_outside :
    ∃ it, Begins (.fullOuterJoin (intTable (fun _ => [1]) onId.lhs)
        (intTable filledLater onId.rhs) onId Record.empty false false false 0 []) it ∧
      FaultsAt it matchedFault 0 := by
  obtain ⟨it, hbegins, hcalls⟩ := @fullOuterJoin_calls _ _ onId _ _ _ _ _ _ _ _
    (intTable_feeds (fun _ => [1]) onId.lhs) (intTable_feeds filledLater onId.rhs)
    (fun l hl eq heq => by
      obtain rfl := List.mem_singleton.mp heq
      exact intRow_inside l hl)
    fun n r hr eq heq => by
      obtain rfl := List.mem_singleton.mp heq
      exact intRow_inside r hr
  refine ⟨it, hbegins, ?_⟩
  cases hcalls 0 with
  | fault hfails => exact .now hfails

end Iic3413Db.Query
