/-
  Query/Parser/PushSelection.lean --- `query_rewriter/push_selection.h`.

  The map of the simple expressions goes from visit to visit.  A list that was moved into a
  selection stays in the map, empty.
-/
import Iic3413Db.Query.Optimizer.NeededColumns
import Iic3413Db.Query.Parser.BuildJoins

set_option autoImplicit false

namespace Iic3413Db.Query

open Iic3413Db.System (Catalog)
open Iic3413Db.Storage (TxID)

/-- `id2simple_expressions`: a key is an alias and a table. -/
abbrev SimpleExpressions : Type := FromTable → Option (List ExprPlan)

namespace SimpleExpressions

/-- No key. -/
def empty : SimpleExpressions := fun _ => none

/-- `id2simple_expressions[key].push_back(expression)`. -/
def push (m : SimpleExpressions) (key : FromTable) (e : ExprPlan) : SimpleExpressions :=
  Function.update m key (some ((m key).getD [] ++ [e]))

/-- `std::move(id2simple_expressions[key])`. -/
def take (m : SimpleExpressions) (key : FromTable) : SimpleExpressions :=
  Function.update m key (some [])

end SimpleExpressions

namespace PushSelection

/-- The loop over the expressions of a selection: those that remain, and the map. -/
def splitExpressions (m : SimpleExpressions) : List ExprPlan → List ExprPlan × SimpleExpressions
  | [] => ([], m)
  | e :: es =>
      match e.getColumns with
      | [col] => splitExpressions (m.push ⟨col.tableAlias, col.table⟩ e) es
      | _ =>
          let (remaining, m) := splitExpressions m es
          (e :: remaining, m)

/-- The constructors of the outer joins assert that there is a pair. -/
def requireOn (columns : List (Column × Column)) (plan : LogicalPlan) : Outcome LogicalPlan :=
  if columns.isEmpty then .error (.assertFailed "There must be at least one ON condition")
  else .ok plan

mutual

/-- The visits, with the map they leave. -/
def visit (m : SimpleExpressions) : LogicalPlan → Outcome (LogicalPlan × SimpleExpressions)
  | .cartesianProduct children => do
      let (children, m) ← visitChildren m children
      .ok (.cartesianProduct children, m)
  | .projection child distinct limit columns => do
      let (child, m) ← visit m child
      .ok (.projection child distinct limit columns, m)
  | .selection child expressions => do
      let (child, m') ← visit (splitExpressions m expressions).2 child
      let remaining := (splitExpressions m expressions).1
      .ok (if remaining.isEmpty then child else .selection child remaining, m')
  | .join children joinColumns => do
      let (children, m) ← visitChildren m children
      let plan ← makeJoin children joinColumns
      .ok (plan, m)
  | .leftOuterJoin tableAlias lchild rchild columns => do
      let (lchild, m) ← visit m lchild
      let (rchild, m) ← visit m rchild
      let plan ← requireOn columns (.leftOuterJoin tableAlias lchild rchild columns)
      .ok (plan, m)
  | .fullOuterJoin tableAlias lchild rchild columns => do
      let (lchild, m) ← visit m lchild
      let (rchild, m) ← visit m rchild
      let plan ← requireOn columns (.fullOuterJoin tableAlias lchild rchild columns)
      .ok (plan, m)
  | .relation tableAlias table =>
      match m ⟨tableAlias, table⟩ with
      | none => .ok (.relation tableAlias table, m)
      | some expressions =>
          .ok (.selection (.relation tableAlias table) expressions, m.take ⟨tableAlias, table⟩)

/-- The loop over the children of a product or a join. -/
def visitChildren (m : SimpleExpressions) :
    List LogicalPlan → Outcome (List LogicalPlan × SimpleExpressions)
  | [] => .ok ([], m)
  | plan :: plans => do
      let (plan, m) ← visit m plan
      let (plans, m) ← visitChildren m plans
      .ok (plan :: plans, m)

end

end PushSelection

/-- `PushSelection`, from an empty map. -/
def pushSelection (plan : LogicalPlan) : Outcome LogicalPlan := do
  let (plan, _) ← PushSelection.visit .empty plan
  .ok plan

/-! ## The relations stay -/

section Relations

variable {m m' : SimpleExpressions} {plan plan' : LogicalPlan}

theorem makeJoin_ok {children : List LogicalPlan} {joinColumns : List (Column × Column)}
    (h : makeJoin children joinColumns = .ok plan) : plan = .join children joinColumns := by
  unfold makeJoin at h
  split at h
  · cases h
  split at h
  · cases h
  exact (Except.ok.inj h).symm

theorem PushSelection.requireOn_ok {columns : List (Column × Column)}
    (h : PushSelection.requireOn columns plan = .ok plan') : plan' = plan := by
  unfold PushSelection.requireOn at h
  split at h
  · cases h
  · exact (Except.ok.inj h).symm

/-- The children of a product or a join, when each visit keeps the relations. -/
theorem PushSelection.visitChildren_relations {children children' : List LogicalPlan}
    (ih : ∀ c ∈ children, ∀ {m m' : SimpleExpressions} {plan' : LogicalPlan},
      PushSelection.visit m c = .ok (plan', m') → plan'.relations = c.relations)
    (h : PushSelection.visitChildren m children = .ok (children', m')) :
    relationsOf children' = relationsOf children := by
  induction children generalizing m children' with
  | nil =>
      cases h
      rfl
  | cons c children ihs =>
      obtain ⟨⟨c', m₁⟩, hc, h⟩ := Outcome.of_bind_ok h
      obtain ⟨⟨cs', m₂⟩, hcs, h⟩ := Outcome.of_bind_ok h
      cases h
      obtain ⟨ihc, ihrest⟩ := List.forall_mem_cons.mp ih
      rw [relationsOf, relationsOf, ihc hc, ihs ihrest hcs]

theorem PushSelection.visit_relations (h : PushSelection.visit m plan = .ok (plan', m')) :
    plan'.relations = plan.relations := by
  induction plan using LogicalPlan.induction generalizing m m' plan' with
  | relation tableAlias table =>
      rw [PushSelection.visit] at h
      split at h
      · cases h
        rfl
      · cases h
        rfl
  | selection child expressions ih =>
      rw [PushSelection.visit] at h
      obtain ⟨⟨child', m₁⟩, hchild, h⟩ := Outcome.of_bind_ok h
      cases h
      have hrelations : child'.relations = child.relations := ih hchild
      split
      · exact hrelations
      · exact hrelations
  | cartesianProduct children ih =>
      rw [PushSelection.visit] at h
      obtain ⟨⟨children', m₁⟩, hchildren, h⟩ := Outcome.of_bind_ok h
      cases h
      exact PushSelection.visitChildren_relations ih hchildren
  | join children joinColumns ih =>
      rw [PushSelection.visit] at h
      obtain ⟨⟨children', m₁⟩, hchildren, h⟩ := Outcome.of_bind_ok h
      obtain ⟨plan, hplan, h⟩ := Outcome.of_bind_ok h
      cases h
      rw [makeJoin_ok hplan]
      exact PushSelection.visitChildren_relations ih hchildren
  | leftOuterJoin tableAlias lchild rchild columns ihl ihr
  | fullOuterJoin tableAlias lchild rchild columns ihl ihr =>
      rw [PushSelection.visit] at h
      obtain ⟨⟨lchild', m₁⟩, hl, h⟩ := Outcome.of_bind_ok h
      obtain ⟨⟨rchild', m₂⟩, hr, h⟩ := Outcome.of_bind_ok h
      obtain ⟨plan, hplan, h⟩ := Outcome.of_bind_ok h
      cases h
      rw [PushSelection.requireOn_ok hplan, LogicalPlan.relations, LogicalPlan.relations, ihl hl,
        ihr hr]
  | projection child distinct limit columns ih =>
      rw [PushSelection.visit] at h
      obtain ⟨⟨child', m₁⟩, hchild, h⟩ := Outcome.of_bind_ok h
      cases h
      show child'.relations = child.relations
      exact ih hchild

end Relations

/-! ## The columns stay in scope -/

/-- The column is one of a relation of the plan. -/
structure ReadsFrom (catalog : Catalog) (txId : TxID) (plan : LogicalPlan) (c : Column) : Prop where
  scanned : ⟨c.tableAlias, c.table⟩ ∈ plan.relations
  has : (⟨c.tableAlias, c.table⟩ : FromTable).Has catalog txId c.info.name

/-- The expressions of a key are over the columns of its table. -/
def SimpleExpressions.Keyed (catalog : Catalog) (txId : TxID) (m : SimpleExpressions) : Prop :=
  ∀ key es, m key = some es → ∀ e ∈ es, ∀ c ∈ e.mentions, Offers catalog txId key.relation c.key

section Scopes

variable {catalog : Catalog} {txId : TxID} {m m' : SimpleExpressions} {plan plan' : LogicalPlan}

theorem ReadsFrom.offers {c : Column} (h : ReadsFrom catalog txId plan c) :
    Offers catalog txId plan c.key :=
  ⟨_, h.scanned, rfl, h.has⟩

theorem offers_congr {k : ColumnKey} (h : plan'.relations = plan.relations) :
    Offers catalog txId plan' k ↔ Offers catalog txId plan k := by
  rw [Offers, Offers, h]

namespace SimpleExpressions

theorem keyed_empty : Keyed catalog txId empty := fun _ _ h => nomatch h

/-- An expression of one column goes to the table of that column. -/
theorem Keyed.push (hm : Keyed catalog txId m) {e : ExprPlan} {c : Column} (hone : e.getColumns = [c])
    (hhas : (⟨c.tableAlias, c.table⟩ : FromTable).Has catalog txId c.info.name) :
    Keyed catalog txId (m.push ⟨c.tableAlias, c.table⟩ e) := by
  intro key es hes e' he' d hd
  by_cases hkey : key = ⟨c.tableAlias, c.table⟩
  · subst hkey
    rw [SimpleExpressions.push, Function.update_self] at hes
    obtain rfl := Option.some.inj hes
    rcases List.mem_append.mp he' with he' | he'
    · cases hold : m ⟨c.tableAlias, c.table⟩ with
      | none =>
          rw [hold] at he'
          cases he'
      | some old =>
          rw [hold] at he'
          exact hm _ old hold e' he' d hd
    · obtain rfl := List.mem_singleton.mp he'
      obtain ⟨x, hx, hxd⟩ := ExprPlan.key_mem_getColumns hd
      rw [hone] at hx
      obtain rfl := List.mem_singleton.mp hx
      rw [← hxd]
      exact offers_relation.mpr ⟨rfl, hhas⟩
  · rw [SimpleExpressions.push, Function.update_of_ne hkey] at hes
    exact hm key es hes e' he' d hd

theorem Keyed.take (hm : Keyed catalog txId m) (key : FromTable) :
    Keyed catalog txId (m.take key) := by
  intro key' es hes e he
  by_cases hkey : key' = key
  · subst hkey
    rw [SimpleExpressions.take, Function.update_self] at hes
    obtain rfl := Option.some.inj hes
    cases he
  · rw [SimpleExpressions.take, Function.update_of_ne hkey] at hes
    exact hm key' es hes e he

end SimpleExpressions

namespace PushSelection

/-- What remains stood in the selection, and the rest went to its tables. -/
theorem splitExpressions_keyed {es : List ExprPlan} (hm : m.Keyed catalog txId)
    (hes : ∀ e ∈ es, ∀ c ∈ e.mentions,
      (⟨c.tableAlias, c.table⟩ : FromTable).Has catalog txId c.info.name) :
    (∀ e ∈ (splitExpressions m es).1, e ∈ es) ∧ (splitExpressions m es).2.Keyed catalog txId := by
  induction es generalizing m with
  | nil => exact ⟨fun e he => (nomatch he), hm⟩
  | cons e es ih =>
      obtain ⟨he, hrest⟩ := List.forall_mem_cons.mp hes
      unfold splitExpressions
      split
      · rename_i c hone
        have hmem : c ∈ e.getColumns := by
          rw [hone]
          exact List.mem_singleton_self c
        obtain ⟨hsub, hkeyed⟩ := ih (hm.push hone (he c (ExprPlan.getColumns_subset hmem))) hrest
        exact ⟨fun x hx => List.mem_cons_of_mem e (hsub x hx), hkeyed⟩
      · obtain ⟨hsub, hkeyed⟩ := ih hm hrest
        refine ⟨fun x hx => ?_, hkeyed⟩
        rcases List.mem_cons.mp hx with rfl | hx
        · exact List.mem_cons_self
        · exact List.mem_cons_of_mem e (hsub x hx)

theorem visitChildren_scoped {children children' : List LogicalPlan}
    (ih : ∀ c ∈ children, ∀ {m m' : SimpleExpressions} {plan' : LogicalPlan},
      EachColumn (ReadsFrom catalog txId) c → m.Keyed catalog txId →
        visit m c = .ok (plan', m') → Scoped catalog txId plan' ∧ m'.Keyed catalog txId)
    (hchildren : EachColumnOf (ReadsFrom catalog txId) children) (hm : m.Keyed catalog txId)
    (h : visitChildren m children = .ok (children', m')) :
    EachColumnOf (fun child c => Offers catalog txId child c.key) children' ∧
      m'.Keyed catalog txId := by
  induction children generalizing m children' with
  | nil =>
      cases h
      exact ⟨trivial, hm⟩
  | cons c children ihs =>
      obtain ⟨⟨c', m₁⟩, hc, h⟩ := Outcome.of_bind_ok h
      obtain ⟨⟨cs', m₂⟩, hcs, h⟩ := Outcome.of_bind_ok h
      cases h
      obtain ⟨ihc, ihrest⟩ := List.forall_mem_cons.mp ih
      obtain ⟨hscoped, hm₁⟩ := ihc hchildren.1 hm hc
      obtain ⟨hrest, hm₂⟩ := ihs ihrest hchildren.2 hm₁ hcs
      exact ⟨⟨hscoped, hrest⟩, hm₂⟩

/-- The selections made read columns that their children offer. -/
theorem visit_scoped (hplan : EachColumn (ReadsFrom catalog txId) plan)
    (hm : m.Keyed catalog txId) (h : visit m plan = .ok (plan', m')) :
    Scoped catalog txId plan' ∧ m'.Keyed catalog txId := by
  induction plan using LogicalPlan.induction generalizing m m' plan' with
  | relation tableAlias table =>
      rw [visit] at h
      split at h
      · cases h
        exact ⟨trivial, hm⟩
      · rename_i es hes
        cases h
        exact ⟨⟨trivial, hm _ es hes⟩, hm.take _⟩
  | selection child expressions ih =>
      rw [visit] at h
      obtain ⟨⟨child', m₁⟩, hchild, h⟩ := Outcome.of_bind_ok h
      cases h
      obtain ⟨hsub, hkeyed⟩ := splitExpressions_keyed hm fun e he c hc => (hplan.2 e he c hc).has
      obtain ⟨hscoped, hm₁⟩ := ih hplan.1 hkeyed hchild
      refine ⟨?_, hm₁⟩
      split
      · exact hscoped
      · refine ⟨hscoped, fun e he c hc => ?_⟩
        exact (offers_congr (visit_relations hchild)).mpr (hplan.2 e (hsub e he) c hc).offers
  | cartesianProduct children ih =>
      rw [visit] at h
      obtain ⟨⟨children', m₁⟩, hchildren, h⟩ := Outcome.of_bind_ok h
      cases h
      exact visitChildren_scoped ih hplan hm hchildren
  | join children joinColumns ih =>
      rw [visit] at h
      obtain ⟨⟨children', m₁⟩, hchildren, h⟩ := Outcome.of_bind_ok h
      obtain ⟨plan, hmade, h⟩ := Outcome.of_bind_ok h
      cases h
      rw [makeJoin_ok hmade]
      exact visitChildren_scoped ih hplan hm hchildren
  | leftOuterJoin tableAlias lchild rchild columns ihl ihr
  | fullOuterJoin tableAlias lchild rchild columns ihl ihr =>
      rw [visit] at h
      obtain ⟨⟨lchild', m₁⟩, hl, h⟩ := Outcome.of_bind_ok h
      obtain ⟨⟨rchild', m₂⟩, hr, h⟩ := Outcome.of_bind_ok h
      obtain ⟨plan, hmade, h⟩ := Outcome.of_bind_ok h
      cases h
      rw [requireOn_ok hmade]
      obtain ⟨hlscoped, hm₁⟩ := ihl hplan.1 hm hl
      obtain ⟨hrscoped, hm₂⟩ := ihr hplan.2 hm₁ hr
      exact ⟨⟨hlscoped, hrscoped⟩, hm₂⟩
  | projection child distinct limit columns ih => exact hplan.elim

end PushSelection

end Scopes

end Iic3413Db.Query
