/-
  Query/Parser/BuildJoins.lean --- `query_rewriter/build_joins.h`.

  `column_equalities` is an argument of the visits: only a selection adds to it, before it visits
  its child.  The two loops of a cartesian product share a number that bounds their turns, and
  `none` is a visit that has not come back.
-/
import Iic3413Db.Foundation.Worklist
import Iic3413Db.Query.Parser.QueryPreprocessor

set_option autoImplicit false

namespace Iic3413Db.Query

open Iic3413Db.Foundation

/-! ## Groups -/

/-- The aliases the equalities link an alias to, in the order of the inner loop. -/
def linkedAliases (equalities : List (Column × Column)) (currentAlias : Identifier) :
    List Identifier :=
  equalities.filterMap fun e =>
    if e.1.tableAlias = currentAlias then some e.2.tableAlias
    else if e.2.tableAlias = currentAlias then some e.1.tableAlias
    else none

/-- `joined_aliases`, once the queue is empty. -/
def joinedAliases (equalities : List (Column × Column)) (fuel : Nat) (firstAlias : Identifier) :
    Option (List Identifier) :=
  Worklist.explore (linkedAliases equalities) fuel [firstAlias] [firstAlias]

/-- One of the columns is of a joined alias. -/
def touches (joined : List Identifier) (e : Column × Column) : Bool :=
  decide (e.1.tableAlias ∈ joined ∨ e.2.tableAlias ∈ joined)

/-- `first_alias`. -/
def productAlias : LogicalPlan → Option Identifier
  | .relation tableAlias _ | .leftOuterJoin tableAlias _ _ _ | .fullOuterJoin tableAlias _ _ _ =>
      some tableAlias
  | _ => none

/-- The loop that moves the joined children out, with the children it leaves. -/
def splitChildren (joined : List Identifier) :
    List LogicalPlan → Outcome (List LogicalPlan × List LogicalPlan)
  | [] => .ok ([], [])
  | .relation tableAlias table :: children => do
      let (joinChildren, rest) ← splitChildren joined children
      if tableAlias ∈ joined then .ok (.relation tableAlias table :: joinChildren, rest)
      else .ok (joinChildren, .relation tableAlias table :: rest)
  | _ :: _ => .error (.assertFailed "Expected a relation")

/-- The constructor of `JoinPlan`. -/
def makeJoin (children : List LogicalPlan) (joinColumns : List (Column × Column)) :
    Outcome LogicalPlan :=
  if children.length ≤ 1 then .error (.assertFailed "children.size() > 1")
  else if joinColumns.isEmpty then .error (.assertFailed "join_columns.size() >= 1")
  else .ok (.join children joinColumns)

/-- What is pushed to `groups`. -/
def makeGroup (joinColumns : List (Column × Column)) : List LogicalPlan → Outcome LogicalPlan
  | [] => .error (.undefinedBehaviour "join_children[0]")
  | [child] => .ok child
  | children => makeJoin children joinColumns

/-- The loop over the children that are left. -/
def buildGroups (equalities : List (Column × Column)) :
    Nat → List LogicalPlan → Outcome (Option (List LogicalPlan))
  | _, [] => .ok (some [])
  | 0, _ :: _ => .ok none
  | fuel + 1, first :: children =>
      match productAlias first with
      | none => .error (.queryException "Cartesian product expects aliased children")
      | some firstAlias =>
          match joinedAliases equalities fuel firstAlias with
          | none => .ok none
          | some joined => do
              let (joinChildren, rest) ← splitChildren joined (first :: children)
              let group ← makeGroup (equalities.filter (touches joined)) joinChildren
              match ← buildGroups equalities fuel rest with
              | none => .ok none
              | some groups => .ok (some (group :: groups))

/-- The plan of the groups. -/
def productOf : List LogicalPlan → Outcome LogicalPlan
  | [] => .error (.undefinedBehaviour "groups[0]")
  | [group] => .ok group
  | groups => .ok (.cartesianProduct groups)

namespace BuildJoins

/-- `visit(CartesianProductPlan&)`. -/
def visitCartesianProduct (equalities : List (Column × Column)) (fuel : Nat)
    (children : List LogicalPlan) : Outcome (Option LogicalPlan) :=
  if children.length < 2 then
    .error (.assertFailed "CartesianProductPlan should have at least 2 children")
  else do
    match ← buildGroups equalities fuel children with
    | none => .ok none
    | some groups => do
        let plan ← productOf groups
        .ok (some plan)

/-- The two columns of an equality of columns. -/
def columnEquality : ExprPlan → Option (Column × Column)
  | .equals (.column lhs) (.column rhs) => some (lhs, rhs)
  | _ => none

/-- The visits. -/
def visit (fuel : Nat) (equalities : List (Column × Column)) :
    LogicalPlan → Outcome (Option LogicalPlan)
  | .cartesianProduct children => visitCartesianProduct equalities fuel children
  | .projection child distinct limit columns => do
      match ← visit fuel equalities child with
      | none => .ok none
      | some child => .ok (some (.projection child distinct limit columns))
  | .selection child expressions => do
      let remaining := expressions.filter fun e => (columnEquality e).isNone
      match ← visit fuel (equalities ++ expressions.filterMap columnEquality) child with
      | none => .ok none
      | some child =>
          .ok (some (if remaining.isEmpty then child else .selection child remaining))
  | .relation tableAlias table => .ok (some (.relation tableAlias table))
  | .join _ _ =>
      .error (.assertFailed "Joins are not supposed to exists before BuildJoins")
  | .leftOuterJoin tableAlias lchild rchild columns =>
      .ok (some (.leftOuterJoin tableAlias lchild rchild columns))
  | .fullOuterJoin tableAlias lchild rchild columns =>
      .ok (some (.fullOuterJoin tableAlias lchild rchild columns))

end BuildJoins

/-! ## Components -/

namespace FromTable

/-- The `RelationPlan` of a table. -/
def relation (t : FromTable) : LogicalPlan := .relation t.tableAlias t.table

end FromTable

/-- An equality has one column of each alias. -/
def Linked (equalities : List (Column × Column)) (a b : Identifier) : Prop :=
  ∃ e ∈ equalities, (e.1.tableAlias = a ∧ e.2.tableAlias = b) ∨
    (e.1.tableAlias = b ∧ e.2.tableAlias = a)

/-- The aliases are in one component of the graph of the equalities. -/
def Connected (equalities : List (Column × Column)) : Identifier → Identifier → Prop :=
  Relation.ReflTransGen (Linked equalities)

/-- Both columns are of aliases in the list. -/
def Within (tables : List FromTable) (e : Column × Column) : Prop :=
  e.1.tableAlias ∈ tables.map FromTable.tableAlias ∧
    e.2.tableAlias ∈ tables.map FromTable.tableAlias

instance (tables : List FromTable) (e : Column × Column) : Decidable (Within tables e) :=
  inferInstanceAs (Decidable (_ ∧ _))

/-- The plan of a component: a table alone stays as it is, and more tables are joined on every
equality between them. -/
def groupOf (equalities : List (Column × Column)) : List FromTable → LogicalPlan
  | [t] => t.relation
  | part => .join (part.map FromTable.relation) (equalities.filter fun e => decide (Within part e))

/-- `join_columns`, when the plan is a join. -/
def joinColumns : LogicalPlan → List (Column × Column)
  | .join _ columns => columns
  | _ => []

/-- The parts are the components of the tables, and every table is in one. -/
structure ComponentsOf (equalities : List (Column × Column)) (tables : List FromTable)
    (parts : List (List FromTable)) : Prop where
  perm : parts.flatten.Perm tables
  nonempty : ∀ part ∈ parts, part ≠ []
  ordered : ∀ part ∈ parts, part.Sublist tables
  connected : ∀ part ∈ parts, ∀ t ∈ part, ∀ u ∈ tables,
    u ∈ part ↔ Connected equalities t.tableAlias u.tableAlias

section Components

variable {equalities : List (Column × Column)} {a b : Identifier} {tables part : List FromTable}
  {joined : List Identifier}

theorem mem_linkedAliases : b ∈ linkedAliases equalities a ↔ Linked equalities a b := by
  unfold linkedAliases Linked
  rw [List.mem_filterMap]
  refine exists_congr fun e => and_congr_right fun _ => ?_
  by_cases h1 : e.1.tableAlias = a
  · rw [if_pos h1, Option.some.injEq]
    refine ⟨fun h => .inl ⟨h1, h⟩, ?_⟩
    rintro (⟨_, h⟩ | ⟨h, h2⟩)
    · exact h
    · exact h2.trans (h1.symm.trans h)
  · rw [if_neg h1]
    by_cases h2 : e.2.tableAlias = a
    · rw [if_pos h2, Option.some.injEq]
      exact ⟨fun h => .inr ⟨h, h2⟩, fun h => (h.resolve_left fun h => h1 h.1).1⟩
    · rw [if_neg h2]
      exact iff_of_false (fun h => nomatch h) (not_or.mpr ⟨fun h => h1 h.1, fun h => h2 h.2⟩)

theorem Linked.symm (h : Linked equalities a b) : Linked equalities b a := by
  obtain ⟨e, he, h⟩ := h
  exact ⟨e, he, h.symm⟩

theorem Connected.symm (h : Connected equalities a b) : Connected equalities b a := by
  induction h with
  | refl => exact .refl
  | tail _ hlink ih => exact ih.head hlink.symm

/-- The search from an alias finds its component. -/
theorem joinedAliases_ends {aliases : List Identifier} (ha : a ∈ aliases)
    (hbetween : ∀ e ∈ equalities, e.1.tableAlias ∈ aliases ∧ e.2.tableAlias ∈ aliases) :
    ∃ joined, (∀ fuel, aliases.length ≤ fuel → joinedAliases equalities fuel a = some joined) ∧
      ∀ b, b ∈ joined ↔ Connected equalities a b := by
  have hnext : ∀ x ∈ aliases, ∀ y ∈ linkedAliases equalities x, y ∈ aliases := by
    intro x _ y hy
    obtain ⟨e, he, ⟨_, rfl⟩ | ⟨rfl, _⟩⟩ := mem_linkedAliases.mp hy
    · exact (hbetween e he).2
    · exact (hbetween e he).1
  obtain ⟨joined, hrun, hmem⟩ := Worklist.explore_start ha hnext
  refine ⟨joined, hrun, fun b => (hmem b).trans ?_⟩
  have hstep : (fun x y => y ∈ linkedAliases equalities x) = Linked equalities := by
    funext x y
    exact propext mem_linkedAliases
  rw [Worklist.Reaches, hstep, Connected]

theorem splitChildren_relations (joined : List Identifier) (tables : List FromTable) :
    splitChildren joined (tables.map FromTable.relation) =
      .ok ((tables.filter fun t => decide (t.tableAlias ∈ joined)).map FromTable.relation,
        (tables.filter fun t => !decide (t.tableAlias ∈ joined)).map FromTable.relation) := by
  induction tables with
  | nil => rfl
  | cons t tables ih =>
      rw [List.map_cons, FromTable.relation, splitChildren, ih, Outcome.ok_bind]
      by_cases ht : t.tableAlias ∈ joined <;> simp [ht, FromTable.relation]

/-- A component of two tables has an equality between them. -/
theorem exists_within (ha : ∀ b, b ∈ joined ↔ Connected equalities a b) (hab : a ≠ b)
    (hb : b ∈ joined) : ∃ e ∈ equalities, touches joined e = true := by
  rcases Relation.ReflTransGen.cases_head ((ha b).mp hb) with h | ⟨c, ⟨e, he, h⟩, _⟩
  · exact absurd h hab
  · have hself : a ∈ joined := (ha a).mpr .refl
    refine ⟨e, he, decide_eq_true ?_⟩
    rcases h with ⟨rfl, _⟩ | ⟨_, rfl⟩
    · exact .inl hself
    · exact .inr hself

theorem touches_iff (ha : ∀ b, b ∈ joined ↔ Connected equalities a b)
    (hpart : ∀ b, b ∈ part.map FromTable.tableAlias ↔ b ∈ joined) {e : Column × Column}
    (he : e ∈ equalities) : touches joined e = true ↔ Within part e := by
  have hlinked : Linked equalities e.1.tableAlias e.2.tableAlias := ⟨e, he, .inl ⟨rfl, rfl⟩⟩
  rw [touches, decide_eq_true_iff, Within, hpart, hpart]
  refine ⟨?_, fun h => .inl h.1⟩
  rintro (h | h)
  · exact ⟨h, (ha _).mpr (((ha _).mp h).tail hlinked)⟩
  · exact ⟨(ha _).mpr (((ha _).mp h).tail hlinked.symm), h⟩

/-- The group of a component. -/
theorem makeGroup_component (ha : ∀ b, b ∈ joined ↔ Connected equalities a b)
    (hpart : ∀ b, b ∈ part.map FromTable.tableAlias ↔ b ∈ joined)
    (hnodup : (part.map FromTable.tableAlias).Nodup) :
    makeGroup (equalities.filter (touches joined)) (part.map FromTable.relation) =
      .ok (groupOf equalities part) := by
  have hself : a ∈ part.map FromTable.tableAlias := (hpart a).mpr ((ha a).mpr .refl)
  have hfilter : equalities.filter (touches joined) =
      equalities.filter fun e => decide (Within part e) :=
    List.filter_congr fun e he =>
      Bool.eq_iff_iff.mpr ((touches_iff ha hpart he).trans decide_eq_true_iff.symm)
  match part with
  | [] => cases hself
  | [t] => rfl
  | t :: u :: rest =>
      have hother : ∃ b ∈ joined, a ≠ b := by
        by_contra hnone
        push Not at hnone
        have htu : t.tableAlias = u.tableAlias :=
          (hnone t.tableAlias ((hpart _).mp (by simp))).symm.trans
            (hnone u.tableAlias ((hpart _).mp (by simp)))
        simp [htu] at hnodup
      obtain ⟨b, hb, hab⟩ := hother
      obtain ⟨e, he, htouches⟩ := exists_within ha hab hb
      have hne : (equalities.filter (touches joined)).isEmpty = false := by
        rw [List.isEmpty_eq_false_iff]
        exact List.ne_nil_of_mem (List.mem_filter.mpr ⟨he, htouches⟩)
      show makeJoin ((t :: u :: rest).map FromTable.relation) _ = _
      rw [makeJoin, if_neg (by simp), if_neg (by rw [hne]; decide), hfilter]
      rfl

/-! ## The groups -/

/-- The parts of the tables that are left, with the component that was taken out. -/
theorem ComponentsOf.cons {rest : List FromTable} {parts : List (List FromTable)}
    (ha : ∀ b, b ∈ joined ↔ Connected equalities a b)
    (hpart : part = tables.filter fun t => decide (t.tableAlias ∈ joined))
    (hrest : rest = tables.filter fun t => !decide (t.tableAlias ∈ joined))
    (hne : part ≠ []) (h : ComponentsOf equalities rest parts) :
    ComponentsOf equalities tables (part :: parts) := by
  have hmem : ∀ t ∈ tables, t ∈ part ↔ Connected equalities a t.tableAlias := by
    intro t ht
    rw [hpart, List.mem_filter, decide_eq_true_iff, ha]
    exact and_iff_right ht
  have hleft : ∀ t, t ∈ rest ↔ t ∈ tables ∧ ¬ Connected equalities a t.tableAlias := by
    intro t
    rw [hrest, List.mem_filter, ← ha]
    simp
  refine ⟨?_, ?_, ?_, ?_⟩
  · rw [List.flatten_cons]
    refine (h.perm.append_left part).trans ?_
    rw [hpart, hrest]
    exact List.filter_append_perm _ tables
  · intro p hp
    rcases List.mem_cons.mp hp with rfl | hp
    · exact hne
    · exact h.nonempty p hp
  · intro p hp
    rcases List.mem_cons.mp hp with rfl | hp
    · exact hpart ▸ List.filter_sublist
    · exact (h.ordered p hp).trans (hrest ▸ List.filter_sublist)
  · intro p hp t ht u hu
    rcases List.mem_cons.mp hp with rfl | hp
    · have htables : t ∈ tables := by
        rw [hpart] at ht
        exact (List.mem_filter.mp ht).1
      have hat := (hmem t htables).mp ht
      rw [hmem u hu]
      exact ⟨fun h => hat.symm.trans h, fun h => hat.trans h⟩
    · have htrest := (h.ordered p hp).subset ht
      by_cases hurest : u ∈ rest
      · exact h.connected p hp t ht u hurest
      · have hau : Connected equalities a u.tableAlias := by
          by_contra hnot
          exact hurest ((hleft u).mpr ⟨hu, hnot⟩)
        refine iff_of_false (fun hup => hurest ((h.ordered p hp).subset hup)) fun htu => ?_
        exact ((hleft t).mp htrest).2 (hau.trans htu.symm)

theorem buildGroups_turn {fuel : Nat} {firstAlias : Identifier} {first group : LogicalPlan}
    {children joinChildren rest groups : List LogicalPlan}
    (hfirst : productAlias first = some firstAlias)
    (hjoined : joinedAliases equalities fuel firstAlias = some joined)
    (hsplit : splitChildren joined (first :: children) = .ok (joinChildren, rest))
    (hgroup : makeGroup (equalities.filter (touches joined)) joinChildren = .ok group)
    (hrest : buildGroups equalities fuel rest = .ok (some groups)) :
    buildGroups equalities (fuel + 1) (first :: children) = .ok (some (group :: groups)) := by
  simp only [buildGroups, hfirst, hjoined, hsplit, hgroup, hrest, Outcome.ok_bind]

/-- Each turn of the loop takes the component of the first table that is left. -/
theorem buildGroups_components {aliases : List Identifier}
    (hbetween : ∀ e ∈ equalities, e.1.tableAlias ∈ aliases ∧ e.2.tableAlias ∈ aliases)
    (hsub : ∀ t ∈ tables, t.tableAlias ∈ aliases)
    (hclosed : ∀ t ∈ tables, ∀ b, Connected equalities t.tableAlias b →
      b ∈ tables.map FromTable.tableAlias)
    (hnodup : (tables.map FromTable.tableAlias).Nodup) :
    ∃ parts, ComponentsOf equalities tables parts ∧
      ∀ fuel, aliases.length + tables.length ≤ fuel →
        buildGroups equalities fuel (tables.map FromTable.relation) =
          .ok (some (parts.map (groupOf equalities))) := by
  induction hn : tables.length using Nat.strong_induction_on generalizing tables with
  | _ n ih =>
      cases tables with
      | nil => exact ⟨[], ⟨.nil, by simp, by simp, by simp⟩, fun fuel _ => by cases fuel <;> rfl⟩
      | cons first others =>
          obtain ⟨joined, hrun, hjoined⟩ :=
            joinedAliases_ends (hsub first List.mem_cons_self) hbetween
          have hsplit := splitChildren_relations joined (first :: others)
          obtain ⟨part, hpart⟩ : ∃ part, part =
              (first :: others).filter fun t => decide (t.tableAlias ∈ joined) := ⟨_, rfl⟩
          obtain ⟨rest, hrest⟩ : ∃ rest, rest =
              (first :: others).filter fun t => !decide (t.tableAlias ∈ joined) := ⟨_, rfl⟩
          rw [← hpart, ← hrest] at hsplit
          have hpartSub : part.Sublist (first :: others) := hpart ▸ List.filter_sublist
          have hrestSub : rest.Sublist (first :: others) := hrest ▸ List.filter_sublist
          have hself : first ∈ part := by
            rw [hpart]
            exact List.mem_filter.mpr ⟨List.mem_cons_self, decide_eq_true ((hjoined _).mpr .refl)⟩
          have hshorter : rest.length ≤ others.length := by
            rw [hrest, List.filter_cons_of_neg (by simpa using (hjoined _).mpr .refl)]
            exact List.length_filter_le _ others
          have hmem : ∀ b, b ∈ part.map FromTable.tableAlias ↔ b ∈ joined := by
            intro b
            rw [hpart]
            constructor
            · intro hb
              obtain ⟨t, ht, rfl⟩ := List.mem_map.mp hb
              exact of_decide_eq_true (List.mem_filter.mp ht).2
            · intro hb
              obtain ⟨t, ht, rfl⟩ :=
                List.mem_map.mp (hclosed first List.mem_cons_self b ((hjoined b).mp hb))
              exact List.mem_map_of_mem (List.mem_filter.mpr ⟨ht, decide_eq_true hb⟩)
          -- no alias of the component is left, so what is left is closed
          have hrestClosed : ∀ t ∈ rest, ∀ b, Connected equalities t.tableAlias b →
              b ∈ rest.map FromTable.tableAlias := by
            intro t ht b hb
            obtain ⟨u, hu, rfl⟩ := List.mem_map.mp (hclosed t (hrestSub.subset ht) b hb)
            refine List.mem_map_of_mem ?_
            rw [hrest, List.mem_filter] at ht ⊢
            have htnot : t.tableAlias ∉ joined := by simpa using ht.2
            have hunot : u.tableAlias ∉ joined := fun hin =>
              htnot ((hjoined _).mpr (((hjoined _).mp hin).trans hb.symm))
            exact ⟨hu, by simpa using hunot⟩
          have hgroup := makeGroup_component hjoined hmem (hnodup.sublist (hpartSub.map _))
          simp only [List.length_cons] at hn
          obtain ⟨parts, hcomponents, hparts⟩ := ih rest.length (by omega)
            (fun t ht => hsub t (hrestSub.subset ht)) hrestClosed
            (hnodup.sublist (hrestSub.map _)) rfl
          refine ⟨part :: parts, hcomponents.cons hjoined hpart hrest (List.ne_nil_of_mem hself), ?_⟩
          intro fuel hfuel
          obtain ⟨fuel, rfl⟩ := Nat.exists_eq_add_of_le' (show 1 ≤ fuel by omega)
          exact buildGroups_turn rfl (hrun fuel (by omega)) hsplit hgroup (hparts fuel (by omega))

/-! ## The plan -/

/-- The plan of a cartesian product of tables. -/
def planOf (equalities : List (Column × Column)) : List (List FromTable) → LogicalPlan
  | [part] => groupOf equalities part
  | parts => .cartesianProduct (parts.map (groupOf equalities))

theorem productOf_parts {parts : List (List FromTable)} (hne : parts ≠ []) :
    productOf (parts.map (groupOf equalities)) = .ok (planOf equalities parts) := by
  match parts with
  | [] => exact absurd rfl hne
  | [part] => rfl
  | _ :: _ :: _ => rfl

/-- The join columns of a group are equalities between its tables. -/
theorem mem_joinColumns {e : Column × Column} (h : e ∈ joinColumns (groupOf equalities part)) :
    e ∈ equalities ∧ Within part e := by
  match part with
  | [] => exact (List.mem_filter.mp h).imp_right of_decide_eq_true
  | [t] => cases h
  | _ :: _ :: _ => exact (List.mem_filter.mp h).imp_right of_decide_eq_true

theorem mem_joinColumns_of_within {e : Column × Column} (he : e ∈ equalities)
    (hne : e.1.tableAlias ≠ e.2.tableAlias) (h : Within part e) :
    e ∈ joinColumns (groupOf equalities part) := by
  match part with
  | [] => exact List.mem_filter.mpr ⟨he, decide_eq_true h⟩
  | [t] =>
      have h1 := List.mem_singleton.mp h.1
      have h2 := List.mem_singleton.mp h.2
      exact absurd (h1.trans h2.symm) hne
  | _ :: _ :: _ => exact List.mem_filter.mpr ⟨he, decide_eq_true h⟩

/-- An equality of two aliases is in one part only. -/
theorem ComponentsOf.existsUnique_joined {parts : List (List FromTable)}
    (h : ComponentsOf equalities tables parts)
    (hnodup : (tables.map FromTable.tableAlias).Nodup) {e : Column × Column} (he : e ∈ equalities)
    (hbetween : Within tables e) (hne : e.1.tableAlias ≠ e.2.tableAlias) :
    ∃! i : Fin parts.length, e ∈ joinColumns (groupOf equalities parts[i]) := by
  have hflat : parts.flatten.Nodup := h.perm.nodup_iff.mpr hnodup.of_map
  have hapart := (List.nodup_flatten.mp hflat).2
  obtain ⟨t, ht, halias⟩ := List.mem_map.mp hbetween.1
  obtain ⟨part, hpart, htpart⟩ := List.mem_flatten.mp (h.perm.mem_iff.mpr ht)
  obtain ⟨u, hu, hualias⟩ := List.mem_map.mp hbetween.2
  have hlinked : Linked equalities t.tableAlias u.tableAlias :=
    ⟨e, he, .inl ⟨halias.symm, hualias.symm⟩⟩
  have hupart := (h.connected part hpart t htpart u hu).mpr (.single hlinked)
  have hwithin : Within part e :=
    ⟨List.mem_map.mpr ⟨t, htpart, halias⟩, List.mem_map.mpr ⟨u, hupart, hualias⟩⟩
  obtain ⟨i, hi, rfl⟩ := List.getElem_of_mem hpart
  refine ⟨⟨i, hi⟩, mem_joinColumns_of_within he hne hwithin, fun ⟨j, hj⟩ hmem => ?_⟩
  -- the table of the first column is in both parts
  obtain ⟨t', ht', halias'⟩ := List.mem_map.mp (mem_joinColumns hmem).2.1
  have htables := (h.ordered _ (List.getElem_mem hj)).subset ht'
  obtain rfl := List.inj_on_of_nodup_map hnodup htables ht (halias'.trans halias.symm)
  have hpairwise := List.pairwise_iff_getElem.mp hapart
  rcases Nat.lt_trichotomy i j with hij | hij | hij
  · exact absurd ht' (List.disjoint_left.mp (hpairwise i j hi hj hij) htpart)
  · exact Fin.ext hij.symm
  · exact absurd htpart (List.disjoint_left.mp (hpairwise j i hj hi hij) ht')

/-- The visit of a product of tables makes the plan of their components. -/
theorem BuildJoins.visitCartesianProduct_parts (htwo : 2 ≤ tables.length)
    (hdistinct : (tables.map FromTable.tableAlias).Nodup)
    (hbetween : ∀ e ∈ equalities, Within tables e) :
    ∃ parts, ComponentsOf equalities tables parts ∧ ∃ needed, ∀ fuel, needed ≤ fuel →
      BuildJoins.visitCartesianProduct equalities fuel (tables.map FromTable.relation) =
        .ok (some (planOf equalities parts)) := by
  have hsub : ∀ t ∈ tables, t.tableAlias ∈ tables.map FromTable.tableAlias :=
    fun t ht => List.mem_map_of_mem ht
  have hclosed : ∀ t ∈ tables, ∀ b, Connected equalities t.tableAlias b →
      b ∈ tables.map FromTable.tableAlias := by
    intro t ht b hb
    induction hb with
    | refl => exact hsub t ht
    | tail _ hlink _ =>
        obtain ⟨e, he, ⟨_, rfl⟩ | ⟨rfl, _⟩⟩ := hlink
        · exact (hbetween e he).2
        · exact (hbetween e he).1
  obtain ⟨parts, hparts, hrun⟩ := buildGroups_components hbetween hsub hclosed hdistinct
  refine ⟨parts, hparts, (tables.map FromTable.tableAlias).length + tables.length, ?_⟩
  intro fuel hfuel
  have hne : parts ≠ [] := by
    rintro rfl
    have := hparts.perm.length_eq
    simp only [List.flatten_nil, List.length_nil] at this
    omega
  rw [BuildJoins.visitCartesianProduct, if_neg (by rw [List.length_map]; omega),
    hrun fuel hfuel, Outcome.ok_bind]
  show (productOf _ >>= _) = _
  rw [productOf_parts hne, Outcome.ok_bind]

/-- The children of a cartesian product are grouped by the components of their aliases. -/
theorem BuildJoins.visitCartesianProduct_components (htwo : 2 ≤ tables.length)
    (hdistinct : (tables.map FromTable.tableAlias).Nodup)
    (hbetween : ∀ e ∈ equalities, Within tables e) :
    ∃ parts,
      (∃ needed, ∀ fuel, needed ≤ fuel →
        BuildJoins.visitCartesianProduct equalities fuel (tables.map FromTable.relation) =
          .ok (some (planOf equalities parts))) ∧
      ComponentsOf equalities tables parts ∧
      (∀ e ∈ equalities, e.1.tableAlias ≠ e.2.tableAlias →
        ∃! i : Fin parts.length, e ∈ joinColumns (groupOf equalities parts[i])) ∧
      ∀ part ∈ parts, ∀ e ∈ joinColumns (groupOf equalities part), Within part e := by
  obtain ⟨parts, hparts, hrun⟩ :=
    BuildJoins.visitCartesianProduct_parts htwo hdistinct hbetween
  refine ⟨parts, hrun, hparts, ?_, ?_⟩
  · intro e he hne
    exact hparts.existsUnique_joined hdistinct he (hbetween e he) hne
  · intro part _ e he
    exact (mem_joinColumns he).2

/-- `a.x == c.x` over the tables `a`, `b` and `c`. -/
theorem BuildJoins.visitCartesianProduct_components_three :
    let equalities : List (Column × Column) :=
      [(⟨[97], [97], ⟨[120], .int, 1⟩⟩, ⟨[99], [99], ⟨[120], .int, 3⟩⟩)]
    let tables : List FromTable := [⟨[97], [97]⟩, ⟨[98], [98]⟩, ⟨[99], [99]⟩]
    ∃ parts,
      (∃ needed, ∀ fuel, needed ≤ fuel →
        BuildJoins.visitCartesianProduct equalities fuel (tables.map FromTable.relation) =
          .ok (some (planOf equalities parts))) ∧
      ComponentsOf equalities tables parts := by
  intro equalities tables
  obtain ⟨parts, hrun, hparts, _⟩ := @BuildJoins.visitCartesianProduct_components equalities tables
    (by decide) (by decide) (by decide)
  exact ⟨parts, hrun, hparts⟩

end Components

end Iic3413Db.Query
