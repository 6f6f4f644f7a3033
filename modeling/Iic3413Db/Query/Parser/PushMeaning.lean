/-
  Query/Parser/PushMeaning.lean --- what `PushSelection` does to the meaning of a SELECT.

  Below products and joins a predicate may stand above or below.  Below an outer join it also
  removes the partners of rows of the other side, and those rows are then returned with nulls:
  they are exposed.
-/
import Iic3413Db.Query.Parser.Meaning
import Iic3413Db.Query.Parser.SelectPlans

set_option autoImplicit false

namespace Iic3413Db.Query

open Iic3413Db.Foundation Iic3413Db.RelationalModel
open Iic3413Db.System (Catalog)
open Iic3413Db.Storage (TxID)

/-! ## Where an expression goes -/

/-- The key of an expression of one column. -/
def ownerOf (e : ExprPlan) : Option FromTable :=
  match e.getColumns with
  | [col] => some ⟨col.tableAlias, col.table⟩
  | _ => none

/-- The expressions that go to a table. -/
def conjunctsOn (expressions : List ExprPlan) (t : FromTable) : List ExprPlan :=
  expressions.filter fun e => decide (ownerOf e = some t)

/-- The expressions that stay. -/
def conjunctsAcross (expressions : List ExprPlan) : List ExprPlan :=
  expressions.filter fun e => (ownerOf e).isNone

/-- What the map has for a table. -/
def SimpleExpressions.at (m : SimpleExpressions) (t : FromTable) : List ExprPlan := (m t).getD []

/-- The expressions of the right input of an outer join: the left one takes those of their key,
when both have the same. -/
def conjunctsRight (expressions : List ExprPlan) (l r : FromTable) : List ExprPlan :=
  if r = l then [] else conjunctsOn expressions r

section Split

variable {m : SimpleExpressions} {es : List ExprPlan} {t : FromTable}

theorem at_push (key : FromTable) (e : ExprPlan) :
    (m.push key e).at t = m.at t ++ if key = t then [e] else [] := by
  unfold SimpleExpressions.at SimpleExpressions.push
  by_cases h : t = key
  · subst h
    rw [Function.update_self, if_pos rfl, Option.getD_some]
  · rw [Function.update_of_ne h, if_neg (Ne.symm h), List.append_nil]

theorem at_take (key : FromTable) : (m.take key).at t = if t = key then [] else m.at t := by
  unfold SimpleExpressions.at SimpleExpressions.take
  by_cases h : t = key
  · subst h
    rw [Function.update_self, if_pos rfl, Option.getD_some]
  · rw [Function.update_of_ne h, if_neg h]

/-- The loop over the expressions of a selection. -/
theorem splitExpressions_spec :
    (PushSelection.splitExpressions m es).1 = conjunctsAcross es ∧
      ∀ t, (PushSelection.splitExpressions m es).2.at t = m.at t ++ conjunctsOn es t := by
  induction es generalizing m with
  | nil => exact ⟨rfl, fun t => (List.append_nil _).symm⟩
  | cons e es ih =>
      unfold PushSelection.splitExpressions
      split
      · rename_i col hone
        have howner : ownerOf e = some ⟨col.tableAlias, col.table⟩ := by rw [ownerOf, hone]
        obtain ⟨hremaining, hmap⟩ := @ih (m.push ⟨col.tableAlias, col.table⟩ e)
        refine ⟨?_, fun t => ?_⟩
        · rw [hremaining, conjunctsAcross, conjunctsAcross,
            List.filter_cons_of_neg (by rw [howner]; exact Bool.false_ne_true)]
        · rw [hmap t, at_push, conjunctsOn, conjunctsOn, List.filter_cons, howner,
            List.append_assoc]
          by_cases ht : (⟨col.tableAlias, col.table⟩ : FromTable) = t
          · simp [ht]
          · simp [ht]
      · rename_i hmany
        have howner : ownerOf e = none := by
          unfold ownerOf
          split
          · rename_i col hone
            exact absurd hone (hmany col)
          · rfl
        obtain ⟨hremaining, hmap⟩ := @ih m
        refine ⟨?_, fun t => ?_⟩
        · show e :: (PushSelection.splitExpressions m es).1 = _
          rw [hremaining, conjunctsAcross, conjunctsAcross,
            List.filter_cons_of_pos (by rw [howner]; rfl)]
        · show (PushSelection.splitExpressions m es).2.at t = _
          rw [hmap t, conjunctsOn, conjunctsOn, List.filter_cons_of_neg (by simp [howner])]

/-- The columns that the set of an expression takes for one are of one table. -/
def SameTables (expressions : List ExprPlan) : Prop :=
  ∀ e ∈ expressions, ∀ c ∈ e.mentions, ∀ d ∈ e.mentions, c.key = d.key → c.table = d.table

variable {likeMatch : List UInt8 → List UInt8 → Bool} {f : PlanRow}

/-- The expressions of a table read its columns only. -/
theorem conjunctsOn_mentions (hsame : SameTables es) :
    ∀ e ∈ conjunctsOn es t, ∀ c ∈ e.mentions, c.source.1 = t := by
  intro e he c hc
  obtain ⟨hmem, howner⟩ := List.mem_filter.mp he
  replace howner : ownerOf e = some t := of_decide_eq_true howner
  unfold ownerOf at howner
  split at howner
  · rename_i col hone
    obtain ⟨d, hd, hkey⟩ := ExprPlan.key_mem_getColumns hc
    rw [hone, List.mem_singleton] at hd
    subst hd
    have hd : d ∈ e.mentions := ExprPlan.getColumns_subset (by simp [hone])
    have htable := hsame e hmem d hd c hc hkey
    have halias : d.tableAlias = c.tableAlias := congrArg Prod.fst hkey
    rw [← Option.some.inj howner, halias, htable]
    rfl
  · cases howner

/-- The expressions are those that stay and those of each table that has some. -/
theorem passes_split {tables : List FromTable}
    (howners : ∀ e ∈ es, ∀ t, ownerOf e = some t → t ∈ tables) :
    passes likeMatch es f = (passes likeMatch (conjunctsAcross es) f &&
      tables.all fun t => passes likeMatch (conjunctsOn es t) f) := by
  rw [Bool.eq_iff_iff, Bool.and_eq_true]
  simp only [passes, conjunctsAcross, conjunctsOn, List.all_eq_true, List.mem_filter]
  constructor
  · exact fun h => ⟨fun e he => h e he.1, fun t _ e he => h e he.1⟩
  · intro h e he
    cases howner : ownerOf e with
    | none => exact h.1 e ⟨he, by rw [howner]; rfl⟩
    | some t => exact h.2 t (howners e he t howner) e ⟨he, decide_eq_true howner⟩

end Split

/-! ## Plans without outer joins -/

section Inner

variable {db : Snapshot} {plan : LogicalPlan} {plans : List LogicalPlan} {m : SimpleExpressions}

/-- The rows of such a plan have the columns of its relations. -/
theorem inner_over (h : Inner plan) :
    ∀ f ∈ plan.rows db, Row.Over (OfRelations plan.relations) f := by
  have hproduct : ∀ children : List LogicalPlan, (∀ c ∈ children, ∀ f ∈ c.rows db,
      Row.Over (OfRelations c.relations) f) → ∀ f ∈ product (rowsOfEach db children),
        Row.Over (OfRelations (relationsOf children)) f := by
    intro children hchildren f hf
    refine mem_product_over (fun table htable f hf => ?_) hf
    rw [rowsOfEach_eq] at htable
    obtain ⟨c, hc, rfl⟩ := List.mem_map.mp htable
    refine (hchildren c hc f hf).mono fun k hk => ?_
    rw [OfRelations, relationsOf_eq]
    exact List.mem_flatMap.mpr ⟨c, hc, hk⟩
  induction plan using LogicalPlan.induction with
  | relation tableAlias table =>
      exact fun f hf => (tableRows_over db f hf).mono fun k hk => List.mem_singleton.mpr hk
  | cartesianProduct children ih =>
      exact hproduct children fun c hc => ih c hc (innerEach_iff.mp h c hc)
  | join children joinColumns ih =>
      intro f hf
      exact hproduct children (fun c hc => ih c hc (innerEach_iff.mp h.2.2 c hc)) f
        (List.mem_filter.mp hf).1
  | selection child expressions ih => exact h.elim
  | leftOuterJoin tableAlias lchild rchild on ihl ihr => exact h.elim
  | fullOuterJoin tableAlias lchild rchild on ihl ihr => exact h.elim
  | projection child distinct limit columns ih => exact h.elim

/-- What the map has for the relations of a plan. -/
def pushedTo (db : Snapshot) (m : SimpleExpressions) (relations : List FromTable) (f : PlanRow) :
    Bool :=
  relations.all fun t => passes db.likeMatch (m.at t) f

/-- The expressions that go to the relations are over their columns. -/
def OwnOn (m : SimpleExpressions) (relations : List FromTable) : Prop :=
  ∀ t ∈ relations, ∀ e ∈ m.at t, ∀ c ∈ e.mentions, c.source.1 = t

theorem OwnOn.reads {relations : List FromTable} (h : OwnOn m relations) :
    Row.Reads (OfRelations relations) (pushedTo db m relations) := by
  refine Row.Reads.all fun t ht => passes_reads fun e he c hc => ?_
  rw [OfRelations, h t ht e he c hc]
  exact ht

theorem pushedTo_congr {m' : SimpleExpressions} {relations : List FromTable}
    (h : ∀ t ∈ relations, m'.at t = m.at t) :
    pushedTo db m' relations = pushedTo db m relations := by
  funext f
  rw [Bool.eq_iff_iff, pushedTo, pushedTo, List.all_eq_true, List.all_eq_true]
  exact forall₂_congr fun t ht => by rw [h t ht]

theorem pushedTo_append (relations relations' : List FromTable) (f : PlanRow) :
    pushedTo db m (relations ++ relations') f =
      (pushedTo db m relations f && pushedTo db m relations' f) :=
  List.all_append

/-- A visit filters the rows of a plan by what the map has for its relations, and leaves the rest of
the map. -/
def Pushes (db : Snapshot) (m : SimpleExpressions) (plan : LogicalPlan) : Prop :=
  ∃ plan' m', PushSelection.visit m plan = .ok (plan', m') ∧
    plan'.rows db = (plan.rows db).filter (pushedTo db m plan.relations) ∧
    ∀ t ∉ plan.relations, m'.at t = m.at t

/-- A relation takes what the map has for it. -/
theorem visit_relation (tableAlias table : Identifier) :
    ∃ plan' m', PushSelection.visit m (.relation tableAlias table) = .ok (plan', m') ∧
      plan'.rows db =
        (tableRows db ⟨tableAlias, table⟩).filter (passes db.likeMatch (m.at ⟨tableAlias, table⟩)) ∧
      ∀ t, m'.at t = if t = ⟨tableAlias, table⟩ then [] else m.at t := by
  rw [PushSelection.visit]
  cases hm : m ⟨tableAlias, table⟩ with
  | none =>
      have hat : m.at ⟨tableAlias, table⟩ = [] := by rw [SimpleExpressions.at, hm]; rfl
      refine ⟨_, _, rfl, ?_, fun t => ?_⟩
      · rw [hat]
        exact (List.filter_eq_self.mpr fun _ _ => rfl).symm
      · split
        · rename_i ht
          rw [ht, hat]
        · rfl
  | some es =>
      have hat : m.at ⟨tableAlias, table⟩ = es := by rw [SimpleExpressions.at, hm]; rfl
      refine ⟨_, _, rfl, ?_, fun t => at_take _⟩
      rw [hat]
      rfl

theorem pushes_relation (tableAlias table : Identifier) :
    Pushes db m (.relation tableAlias table) := by
  obtain ⟨plan', m', hvisit, hrows, hkept⟩ := @visit_relation db m tableAlias table
  refine ⟨plan', m', hvisit, hrows.trans (List.filter_congr fun f _ => ?_), fun t ht => ?_⟩
  · rw [LogicalPlan.relations, pushedTo, List.all_cons, List.all_nil, Bool.and_true]
  · rw [hkept, if_neg fun heq => ht (List.mem_singleton.mpr heq)]

theorem pushedTo_children (children : List LogicalPlan) :
    (fun f => children.all fun c => pushedTo db m c.relations f) =
      pushedTo db m (relationsOf children) := by
  funext f
  induction children with
  | nil => rfl
  | cons c children ih => rw [relationsOf, pushedTo_append, List.all_cons, ih]

/-- The children of a product or a join. -/
theorem visitChildren_pushes {children : List LogicalPlan}
    (ih : ∀ c ∈ children, ∀ m : SimpleExpressions, c.relations.Nodup → OwnOn m c.relations →
      Pushes db m c)
    (hnodup : (relationsOf children).Nodup) (hown : OwnOn m (relationsOf children)) :
    ∃ children' m', PushSelection.visitChildren m children = .ok (children', m') ∧
      children'.length = children.length ∧
      rowsOfEach db children' =
        children.map (fun c => (c.rows db).filter (pushedTo db m c.relations)) ∧
      ∀ t ∉ relationsOf children, m'.at t = m.at t := by
  induction children generalizing m with
  | nil => exact ⟨[], m, rfl, rfl, rfl, fun t _ => rfl⟩
  | cons c children ihs =>
      obtain ⟨ihc, ihrest⟩ := List.forall_mem_cons.mp ih
      obtain ⟨hc, hrest, hdisjoint⟩ := List.nodup_append.mp hnodup
      obtain ⟨c', m₁, hvisit, hrows, hkept⟩ :=
        ihc m hc fun t ht => hown t (List.mem_append_left _ ht)
      -- what the first child takes is not of the others
      have hsame : ∀ t ∈ relationsOf children, m₁.at t = m.at t :=
        fun t ht => hkept t fun htc => hdisjoint t htc t ht rfl
      have hown₁ : OwnOn m₁ (relationsOf children) := by
        intro t ht
        rw [hsame t ht]
        exact hown t (List.mem_append_right _ ht)
      obtain ⟨children', m₂, hvisits, hlength, hrowsOf, hkeptOf⟩ := ihs ihrest hrest hown₁
      refine ⟨c' :: children', m₂, ?_, ?_, ?_, fun t ht => ?_⟩
      · rw [PushSelection.visitChildren, hvisit, Outcome.ok_bind]
        dsimp only
        rw [hvisits]
        rfl
      · rw [List.length_cons, hlength, List.length_cons]
      · rw [rowsOfEach, hrows, hrowsOf, List.map_cons]
        refine congrArg _ (List.map_congr_left fun d hd => ?_)
        rw [pushedTo_congr fun t ht => hsame t ?_]
        rw [relationsOf_eq]
        exact List.mem_flatMap.mpr ⟨d, hd, ht⟩
      · obtain ⟨htc, htrest⟩ := not_or.mp (mt List.mem_append.mpr ht)
        rw [hkeptOf t htrest, hkept t htc]

/-- A product of filtered children. -/
theorem product_children {children : List LogicalPlan} (hinner : InnerEach children)
    (hnodup : (relationsOf children).Nodup) (hown : OwnOn m (relationsOf children)) :
    product (children.map fun c => (c.rows db).filter (pushedTo db m c.relations)) =
      (product (rowsOfEach db children)).filter (pushedTo db m (relationsOf children)) := by
  have hreads : ∀ c ∈ children,
      Row.Reads (OfRelations c.relations) (pushedTo db m c.relations) := by
    refine fun c hc => OwnOn.reads fun t ht => hown t ?_
    rw [relationsOf_eq]
    exact List.mem_flatMap.mpr ⟨c, hc, ht⟩
  have hapart : children.Pairwise fun c d =>
      ∀ k, OfRelations c.relations k → ¬ OfRelations d.relations k := by
    rw [relationsOf_eq] at hnodup
    exact (List.nodup_flatMap.mp hnodup).2.imp fun hdisjoint k hk hk' => hdisjoint hk hk'
  rw [product_filter (fun c : LogicalPlan => OfRelations c.relations)
    (fun c => pushedTo db m c.relations) (LogicalPlan.rows db)
    (fun c hc => inner_over (innerEach_iff.mp hinner c hc)) hreads hapart, pushedTo_children,
    rowsOfEach_eq]

/-- Below products and joins, pushing is filtering. -/
theorem pushes_inner (hinner : Inner plan) (hnodup : plan.relations.Nodup)
    (hown : OwnOn m plan.relations) : Pushes db m plan := by
  induction plan using LogicalPlan.induction generalizing m with
  | relation tableAlias table => exact pushes_relation tableAlias table
  | cartesianProduct children ih =>
      obtain ⟨children', m', hvisits, _, hrows, hkept⟩ := visitChildren_pushes
        (fun c hc m hnodup hown => ih c hc (innerEach_iff.mp hinner c hc) hnodup hown) hnodup hown
      refine ⟨.cartesianProduct children', m', ?_, ?_, hkept⟩
      · rw [PushSelection.visit, hvisits]
        rfl
      · show product (rowsOfEach db children') = _
        rw [hrows, product_children hinner hnodup hown]
        rfl
  | join children joinColumns ih =>
      obtain ⟨htwo, hne, hchildren⟩ := hinner
      obtain ⟨children', m', hvisits, hlength, hrows, hkept⟩ := visitChildren_pushes
        (fun c hc m hnodup hown => ih c hc (innerEach_iff.mp hchildren c hc) hnodup hown)
        hnodup hown
      have hmade : makeJoin children' joinColumns = .ok (.join children' joinColumns) := by
        rw [makeJoin, if_neg (by omega), if_neg (by rwa [List.isEmpty_iff])]
      refine ⟨.join children' joinColumns, m', ?_, ?_, hkept⟩
      · rw [PushSelection.visit, hvisits, Outcome.ok_bind]
        dsimp only
        rw [hmade]
        rfl
      · show (product (rowsOfEach db children')).filter _ = _
        rw [hrows, product_children hchildren hnodup hown, List.filter_comm]
        rfl
  | selection child expressions ih => exact hinner.elim
  | leftOuterJoin tableAlias lchild rchild on ihl ihr => exact hinner.elim
  | fullOuterJoin tableAlias lchild rchild on ihl ihr => exact hinner.elim
  | projection child distinct limit columns ih => exact hinner.elim

end Inner

/-! ## Outer joins -/

/-- The left rows that are exposed below an outer join of two tables, with their nulls. -/
def exposedLeft (db : Snapshot) (l r : FromTable) (on : List (Column × Column))
    (es : List ExprPlan) : List PlanRow :=
  (exposed (meetsOn l r on) (fun f => beside [l] f (nullRow [r]))
    (passes db.likeMatch (conjunctsOn es l)) (passes db.likeMatch (conjunctsRight es l r))
    (passes db.likeMatch (conjunctsAcross es))
    (passes db.likeMatch (conjunctsRight es l r) (nullRow [r]))
    (tableRows db l) (tableRows db r)).map fun f => beside [l] f (nullRow [r])

/-- The right rows that are exposed below a full outer join, with their nulls. -/
def exposedRight (db : Snapshot) (l r : FromTable) (on : List (Column × Column))
    (es : List ExprPlan) : List PlanRow :=
  (exposed (fun g f => meetsOn l r on f g) (beside [l] (nullRow [l]))
    (passes db.likeMatch (conjunctsRight es l r)) (passes db.likeMatch (conjunctsOn es l))
    (passes db.likeMatch (conjunctsAcross es))
    (passes db.likeMatch (conjunctsOn es l) (nullRow [l]))
    (tableRows db r) (tableRows db l)).map (beside [l] (nullRow [l]))

section OuterJoins

variable {db : Snapshot} {m : SimpleExpressions} {es : List ExprPlan} {l r : FromTable}
  {j left right : Identifier} {on : List (Column × Column)}

/-- In a row of an outer join each table's expressions read its own half. -/
theorem passes_beside (howners : ∀ e ∈ es, ∀ t, ownerOf e = some t → t ∈ [l, r])
    (hsame : SameTables es) (f g : PlanRow) :
    passes db.likeMatch es (beside [l] f g) =
      (passes db.likeMatch (conjunctsOn es l) f && passes db.likeMatch (conjunctsRight es l r) g &&
        passes db.likeMatch (conjunctsAcross es) (beside [l] f g)) := by
  have hreads : ∀ t, Row.Reads (fun k => k.1 = t) (passes db.likeMatch (conjunctsOn es t)) :=
    fun t => passes_reads (conjunctsOn_mentions hsame)
  have hleft : passes db.likeMatch (conjunctsOn es l) (beside [l] f g) =
      passes db.likeMatch (conjunctsOn es l) f := by
    refine hreads l _ _ fun k hk => ?_
    rw [beside, if_pos (List.mem_singleton.mpr hk)]
  rw [passes_split howners, List.all_cons, List.all_cons, List.all_nil, Bool.and_true, hleft,
    conjunctsRight]
  split
  · rename_i heq
    have hnil : passes db.likeMatch [] g = true := rfl
    rw [heq, hleft, hnil, Bool.and_true, Bool.and_self]
    exact Bool.and_comm ..
  · rename_i hne
    have hright : passes db.likeMatch (conjunctsOn es r) (beside [l] f g) =
        passes db.likeMatch (conjunctsOn es r) g := by
      refine hreads r _ _ fun k hk => ?_
      rw [beside, if_neg fun hmem => hne (hk.symm.trans (List.mem_singleton.mp hmem))]
    rw [hright]
    exact Bool.and_comm ..

/-- The two inputs of an outer join. -/
theorem visit_inputs (hm : ∀ t, m.at t = conjunctsOn es t) :
    ∃ lchild rchild m₁ m₂,
      PushSelection.visit m (.relation j left) = .ok (lchild, m₁) ∧
      PushSelection.visit m₁ (.relation j right) = .ok (rchild, m₂) ∧
      lchild.relations = [⟨j, left⟩] ∧ rchild.relations = [⟨j, right⟩] ∧
      lchild.rows db = (tableRows db ⟨j, left⟩).filter
        (passes db.likeMatch (conjunctsOn es ⟨j, left⟩)) ∧
      rchild.rows db = (tableRows db ⟨j, right⟩).filter
        (passes db.likeMatch (conjunctsRight es ⟨j, left⟩ ⟨j, right⟩)) := by
  obtain ⟨lchild, m₁, hl, hlrows, hkept⟩ := @visit_relation db m j left
  obtain ⟨rchild, m₂, hr, hrrows, _⟩ := @visit_relation db m₁ j right
  refine ⟨lchild, rchild, m₁, m₂, hl, hr, PushSelection.visit_relations hl,
    PushSelection.visit_relations hr, ?_, ?_⟩
  · rw [hlrows, hm]
  · rw [hrrows, hkept, hm, conjunctsRight]

theorem requireOn_of_ne (hon : on ≠ []) (plan : LogicalPlan) :
    PushSelection.requireOn on plan = .ok plan := by
  rw [PushSelection.requireOn, if_neg (by rwa [List.isEmpty_iff])]

/-- Below a left outer join the left rows that lose their partners are added. -/
theorem visit_leftOuterJoin (hon : on ≠ []) (hm : ∀ t, m.at t = conjunctsOn es t)
    (howners : ∀ e ∈ es, ∀ t, ownerOf e = some t → t ∈ [⟨j, left⟩, ⟨j, right⟩])
    (hsame : SameTables es) :
    ∃ plan' m', PushSelection.visit m
        (.leftOuterJoin j (.relation j left) (.relation j right) on) = .ok (plan', m') ∧
      ((plan'.rows db).filter (passes db.likeMatch (conjunctsAcross es))).Perm
        (((LogicalPlan.leftOuterJoin j (.relation j left) (.relation j right) on).rows db).filter
          (passes db.likeMatch es) ++ exposedLeft db ⟨j, left⟩ ⟨j, right⟩ on es) := by
  obtain ⟨lchild, rchild, m₁, m₂, hl, hr, hlrel, hrrel, hlrows, hrrows⟩ :=
    @visit_inputs db m es j left right hm
  refine ⟨.leftOuterJoin j lchild rchild on, m₂, ?_, ?_⟩
  · rw [PushSelection.visit, hl, Outcome.ok_bind]
    dsimp only
    rw [hr, Outcome.ok_bind]
    dsimp only
    rw [requireOn_of_ne hon]
    rfl
  · rw [LogicalPlan.rows, hlrel, hrrel, hlrows, hrrows]
    exact leftOuter_filter (fun f _ g _ => passes_beside howners hsame f g)
      fun f _ => passes_beside howners hsame f _

/-- Below a full outer join the rows of both sides that lose their partners are added. -/
theorem visit_fullOuterJoin (hon : on ≠ []) (hm : ∀ t, m.at t = conjunctsOn es t)
    (howners : ∀ e ∈ es, ∀ t, ownerOf e = some t → t ∈ [⟨j, left⟩, ⟨j, right⟩])
    (hsame : SameTables es) :
    ∃ plan' m', PushSelection.visit m
        (.fullOuterJoin j (.relation j left) (.relation j right) on) = .ok (plan', m') ∧
      ((plan'.rows db).filter (passes db.likeMatch (conjunctsAcross es))).Perm
        (((LogicalPlan.fullOuterJoin j (.relation j left) (.relation j right) on).rows db).filter
          (passes db.likeMatch es) ++ (exposedLeft db ⟨j, left⟩ ⟨j, right⟩ on es ++
            exposedRight db ⟨j, left⟩ ⟨j, right⟩ on es)) := by
  obtain ⟨lchild, rchild, m₁, m₂, hl, hr, hlrel, hrrel, hlrows, hrrows⟩ :=
    @visit_inputs db m es j left right hm
  refine ⟨.fullOuterJoin j lchild rchild on, m₂, ?_, ?_⟩
  · rw [PushSelection.visit, hl, Outcome.ok_bind]
    dsimp only
    rw [hr, Outcome.ok_bind]
    dsimp only
    rw [requireOn_of_ne hon]
    rfl
  · rw [LogicalPlan.rows, hlrel, hrrel, hlrows, hrrows]
    refine fullOuter_filter (fun f _ g _ => passes_beside howners hsame f g)
      (fun f _ => passes_beside howners hsame f _) fun g _ => ?_
    rw [passes_beside howners hsame, Bool.and_comm (passes db.likeMatch (conjunctsOn es _) _)]

end OuterJoins

/-! ## The plan of a SELECT -/

/-- The rows that pushing adds to those of what is below the projection. -/
def exposedRows (db : Snapshot) (child : LogicalPlan) : List PlanRow :=
  match child.source with
  | .leftOuterJoin _ (.relation lAlias left) (.relation rAlias right) on =>
      exposedLeft db ⟨lAlias, left⟩ ⟨rAlias, right⟩ on child.conjuncts
  | .fullOuterJoin _ (.relation lAlias left) (.relation rAlias right) on =>
      exposedLeft db ⟨lAlias, left⟩ ⟨rAlias, right⟩ on child.conjuncts ++
        exposedRight db ⟨lAlias, left⟩ ⟨rAlias, right⟩ on child.conjuncts
  | _ => []

/-- An exposed row shows what enough rows of the result show. -/
def ExposedHarmless (db : Snapshot) : LogicalPlan → Prop
  | .projection child distinct limit columns =>
      ∀ f ∈ exposedRows db child,
        Fills distinct limit ((child.rows db).map (shown columns)) (shown columns f)
  | _ => True

section Select

variable {db : Snapshot} {m : SimpleExpressions} {child source : LogicalPlan} {es : List ExprPlan}

theorem exposedRows_inner (h : Inner child.source) : exposedRows db child = [] := by
  unfold exposedRows
  split
  · rename_i hsource
    rw [hsource] at h
    exact h.elim
  · rename_i hsource
    rw [hsource] at h
    exact h.elim
  · rfl

/-- The FROM clause, when the map has the expressions of the selection above it. -/
theorem visit_source (hsource : BuiltSource child.source)
    (hm : ∀ t, m.at t = conjunctsOn child.conjuncts t)
    (howners : ∀ e ∈ child.conjuncts, ∀ t, ownerOf e = some t → t ∈ child.source.relations)
    (hsame : SameTables child.conjuncts) :
    ∃ plan' m', PushSelection.visit m child.source = .ok (plan', m') ∧
      ((plan'.rows db).filter (passes db.likeMatch (conjunctsAcross child.conjuncts))).Perm
        ((child.source.rows db).filter (passes db.likeMatch child.conjuncts) ++
          exposedRows db child) := by
  obtain ⟨source, heq⟩ : ∃ source, source = child.source := ⟨_, rfl⟩
  rw [← heq] at hsource howners ⊢
  cases hsource with
  | leftOuterJoin hon =>
      rw [exposedRows, ← heq]
      exact visit_leftOuterJoin hon hm howners hsame
  | fullOuterJoin hon =>
      rw [exposedRows, ← heq]
      exact visit_fullOuterJoin hon hm howners hsame
  | inner hinner hnodup =>
      have hown : OwnOn m source.relations := by
        intro t _
        rw [hm t]
        exact conjunctsOn_mentions hsame
      obtain ⟨plan', m', hvisit, hrows, _⟩ := @pushes_inner db source m hinner hnodup hown
      refine ⟨plan', m', hvisit, ?_⟩
      rw [exposedRows_inner (by rwa [← heq]), List.append_nil, hrows, List.filter_filter]
      refine List.Perm.of_eq (List.filter_congr fun f _ => ?_)
      rw [passes_split howners, pushedTo]
      simp only [hm]

/-- What is below the projection gains the exposed rows. -/
theorem visit_belowProjection (hsource : BuiltSource child.source)
    (hshape : child = child.source ∧ child.conjuncts = [] ∨
      child = .selection child.source child.conjuncts)
    (howners : ∀ e ∈ child.conjuncts, ∀ t, ownerOf e = some t → t ∈ child.source.relations)
    (hsame : SameTables child.conjuncts) :
    ∃ plan' m', PushSelection.visit .empty child = .ok (plan', m') ∧
      (plan'.rows db).Perm (child.rows db ++ exposedRows db child) := by
  have hrows := below_rows db hshape
  rcases hshape with ⟨hself, hnone⟩ | hselection
  · have hm : ∀ t, SimpleExpressions.empty.at t = conjunctsOn child.conjuncts t := by
      intro t
      rw [hnone]
      rfl
    obtain ⟨plan', m', hvisit, hperm⟩ := visit_source hsource hm howners hsame
    refine ⟨plan', m', by rwa [hself], ?_⟩
    rw [← hrows, hnone] at hperm
    exact (List.Perm.of_eq (List.filter_eq_self.mpr fun _ _ => rfl).symm).trans hperm
  · obtain ⟨hremaining, hmap⟩ := @splitExpressions_spec .empty child.conjuncts
    obtain ⟨plan', m', hvisit, hperm⟩ := visit_source hsource hmap howners hsame
    rw [← hrows] at hperm
    obtain ⟨above, habove⟩ : ∃ above, above =
        if (conjunctsAcross child.conjuncts).isEmpty then plan'
        else .selection plan' (conjunctsAcross child.conjuncts) := ⟨_, rfl⟩
    refine ⟨above, m', ?_, ?_⟩
    · obtain ⟨conjuncts, hconjuncts⟩ : ∃ conjuncts, conjuncts = child.conjuncts := ⟨_, rfl⟩
      rw [← hconjuncts] at hselection hvisit hremaining habove
      rw [hselection, PushSelection.visit, hvisit, Outcome.ok_bind, hremaining, habove]
    · refine (List.Perm.of_eq ?_).trans hperm
      rw [habove]
      split
      · rename_i hempty
        rw [List.isEmpty_iff.mp hempty]
        exact (List.filter_eq_self.mpr fun _ _ => rfl).symm
      · rfl

/-- What `PushSelection` does to a SELECT: it adds the rows that pushing exposes. -/
theorem pushSelection_preserves_iff {q : SelectQuery} {plan built : LogicalPlan} {fuel : Nat}
    (h : visitSelectQuery db.catalog db.txId q = .ok plan)
    (hbuild : BuildJoins.visit fuel [] plan = .ok (some built)) :
    ∃ pushed, pushSelection built = .ok pushed ∧
      (SameMeaning db pushed built ↔ ExposedHarmless db built) := by
  obtain ⟨limit, child, columns, rfl, hlimit, hsource, hshape, hscanned, hsame⟩ :=
    buildJoins_plan h hbuild
  have howners : ∀ e ∈ child.conjuncts, ∀ t, ownerOf e = some t → t ∈ child.source.relations := by
    intro e he t howner
    unfold ownerOf at howner
    split at howner
    · rename_i col hone
      cases howner
      exact hscanned e he col (ExprPlan.getColumns_subset (by simp [hone]))
    · cases howner
  obtain ⟨child', m', hvisit, hperm⟩ := visit_belowProjection hsource hshape howners hsame
  refine ⟨.projection child' q.distinct limit columns, ?_, ?_⟩
  · rw [pushSelection, PushSelection.visit, hvisit]
    rfl
  · have hshown := hperm.map (shown columns)
    rw [List.map_append] at hshown
    refine (forall_congr' fun result => iff_congr (resultOf_perm hshown) Iff.rfl).trans ?_
    rw [resultOf_append_iff hlimit, ExposedHarmless, List.forall_mem_map]

end Select

/-! ## The tables `l` and `r` -/

/-- `l` has the row `(1, 2)`, and `r` the row `(1, 5)`. -/
def oneRowEach : Snapshot where
  catalog := twoTables
  txId := 1
  contents := fun id =>
    if id = 0 then [⟨[.int 1, .int 2, .rid ⟨0, 0⟩]⟩] else [⟨[.int 1, .int 5, .rid ⟨0, 0⟩]⟩]
  likeMatch := fun _ _ => true

theorem pushSelection_preserves_iff_joinedQuery : ∃ plan built,
    visitSelectQuery oneRowEach.catalog oneRowEach.txId joinedQuery = .ok plan ∧
      BuildJoins.visit 5 [] plan = .ok (some built) ∧
      ∃ pushed, pushSelection built = .ok pushed ∧
        (SameMeaning oneRowEach pushed built ↔ ExposedHarmless oneRowEach built) :=
  ⟨_, _, rfl, rfl, @pushSelection_preserves_iff oneRowEach joinedQuery _ _ 5 rfl rfl⟩

/-- `SELECT j.id FROM (l LEFT OUTER JOIN r ON l.id == r.id) AS j WHERE j.y == 7`. -/
def paddedQuery : SelectQuery where
  distinct := false
  columnList := some [onColumn [106] [105, 100]]
  firstItem := .leftOuterJoin [108] [114] [106]
    [(onColumn [108] [105, 100], onColumn [114] [105, 100])]
  otherItems := []
  whereStatement := some
    [.comparison (.column (onColumn [106] [121]))
      (some (.equals, .constant (.integer ⟨false, [55]⟩)))]
  limitStatement := none

/-- The only row of the join has `y = 5`, but with the predicate below the join its left half is
returned. -/
theorem paddedQuery_row_exposed : ∃ plan built pushed,
    visitSelectQuery oneRowEach.catalog oneRowEach.txId paddedQuery = .ok plan ∧
      (∀ fuel, BuildJoins.visit fuel [] plan = .ok (some built)) ∧
      pushSelection built = .ok pushed ∧ ¬ SameMeaning oneRowEach pushed built := by
  refine ⟨_, _, _, rfl, fun _ => rfl, rfl, fun h => ?_⟩
  obtain ⟨_, hlength⟩ := (h [[some (.int 1)]]).mp ⟨.refl _, rfl⟩
  cases hlength

end Iic3413Db.Query
